import GameHop.Proofs.Term.Bare
import GameHop.Proofs.Term.Children
import GameHop.Term.Simplify
import GameHop.Term.Substitution

/-!
The core of an expression under a substitution: what is left of the instance once places and all
that the equality of programs ignores are dropped.
-/

namespace GameHop

/-- The target of an assignment under a substitution: only a plain name replaces it. -/
def Substitution.target (σ : Substitution) (x : String) : String :=
  ((σ.get? x).bind Expr.varName?).getD x

@[simp] theorem Substitution.get?_nil (x : String) : get? [] x = none := rfl

@[simp] theorem Substitution.target_nil (x : String) : target [] x = x := rfl

/-! ## Substitution and simplification by constructors -/

theorem Expr.substitute_nil (e : Expr) : e.substitute [] = e :=
  bottomUp_of_fixed (fun e => by cases e <;> rfl) e

theorem Expr.substitute_lookup (s : Substitution) (t : Span) (x : Ident) :
    (lookup t x).substitute s = (s.get? x.name).getD (.lookup t x) := by
  rw [substitute, bottomUp_lookup, substituteRoot]

theorem Expr.substituteRoot_assign (σ : Substitution) (s : Span) (x : Ident) (e : Expr) :
    substituteRoot σ (.assign s x e) =
      .assign s { x with name := σ.target x.name } e := by
  simp only [substituteRoot, Substitution.target]
  cases (σ.get? x.name).bind varName? <;> rfl

theorem Expr.children_substitute {s : Substitution} {e : Expr} (he : e.varName? = none) :
    (e.substitute s).children = e.children.map (substitute s) := by
  cases e with
  | lookup t x => cases he
  | assign t x a =>
    simp [substitute, substituteRoot_assign, children]
  | new t o =>
    obtain ⟨c, fs, ms⟩ := o
    simp [substitute, substituteRoot, children, Function.comp_def]
  | _ => simp [substitute, substituteRoot, children]

/-! ## Cores -/

/-- What counts of an instance of an expression for the equality of programs. -/
def Expr.core (σ : Substitution) (e : Expr) : Expr :=
  (e.substitute σ).simplify.bare

/-- **Programs with the same core are structurally equal.** -/
theorem Expr.structurallyEqual_of_core {a b : Expr} (h : a.core [] = b.core []) :
    a.structurallyEqual b = true := by
  simp only [core, substitute_nil] at h
  rw [structurallyEqual, ← text_bare a.simplify, h, text_bare]
  simp

theorem Expr.core_nil_substitute (σ : Substitution) (e : Expr) :
    (e.substitute σ).core [] = e.core σ := by
  rw [core, substitute_nil, core]

section
variable (σ : Substitution) (s : Span)

@[simp] theorem Expr.core_int (v : UInt64) : (int s v).core σ = .int .nowhere v := rfl

@[simp] theorem Expr.core_bool (b : Bool) : (bool s b).core σ = .bool .nowhere b := rfl

@[simp] theorem Expr.core_ellipsis : (ellipsis s).core σ = .ellipsis .nowhere := rfl

@[simp] theorem Expr.core_hole : (hole s).core σ = .hole .nowhere := rfl

@[simp] theorem Expr.core_assert (p : Formula) : (assert s p).core σ = .assert .nowhere p.bare :=
  rfl

@[simp] theorem Expr.core_assume (p : Formula) : (assume s p).core σ = .assume .nowhere p.bare :=
  rfl

theorem Expr.core_lookup (x : Ident) :
    (lookup s x).core σ =
      match σ.get? x.name with
      | some t => t.simplify.bare
      | none => .lookup .nowhere x.bare := by
  simp only [core, substitute, bottomUp_lookup, substituteRoot]
  cases σ.get? x.name <;> rfl

@[simp] theorem Expr.core_paren (l : Option Ident) (e : Expr) :
    (paren s l e).core σ = e.core σ := rfl

@[simp] theorem Expr.core_seq (a b : Expr) :
    (seq s a b).core σ = .seq .nowhere (a.core σ) (b.core σ) := rfl

@[simp] theorem Expr.core_assign (x : Ident) (e : Expr) :
    (assign s x e).core σ = .assign .nowhere (.plain (σ.target x.name)) (e.core σ) := by
  simp only [core, substitute, bottomUp_assign, substituteRoot_assign]
  rfl

@[simp] theorem Expr.core_ternary (a b c : Expr) :
    (ternary s a b c).core σ = .ternary .nowhere (a.core σ) (b.core σ) (c.core σ) := rfl

@[simp] theorem Expr.core_unary (op : UnaryOp) (e : Expr) :
    (unary s op e).core σ = .unary .nowhere op (e.core σ) := rfl

@[simp] theorem Expr.core_binary (op : BinaryOp) (a b : Expr) :
    (binary s op a b).core σ = .binary .nowhere op (a.core σ) (b.core σ) := rfl

@[simp] theorem Expr.core_index (a b : Expr) :
    (index s a b).core σ = .index .nowhere (a.core σ) (b.core σ) := rfl

@[simp] theorem Expr.core_update (a b c : Expr) :
    (update s a b c).core σ = .update .nowhere (a.core σ) (b.core σ) (c.core σ) := rfl

@[simp] theorem Expr.core_call (f : Ident) (args : List Expr) :
    (call s f args).core σ = .call .nowhere f.bare (args.map (core σ)) := by
  simp [core, substitute, simplify, substituteRoot, simplifyRoot,
    bare, bareList_eq, Function.comp_def]

@[simp] theorem Expr.core_invoke (t : Expr) (m : Ident) (cs : List Ident) (args : List Expr) :
    (invoke s t m cs args).core σ =
      .invoke .nowhere (t.core σ) m.bare [] (args.map (core σ)) := by
  simp [core, substitute, simplify, substituteRoot, simplifyRoot,
    bare, bareList_eq, Function.comp_def]

@[simp] theorem Expr.core_new (c : Option Ident) (fs : List Field) (ms : List Method) :
    (new s ⟨c, fs, ms⟩).core σ =
      .new .nowhere ⟨none, fs.map fun f => ⟨.nowhere, f.name.bare, f.value.core σ⟩,
        ms.map fun m => ⟨.nowhere, m.name.bare, m.params.map Param.bare, m.body.core σ⟩⟩ := by
  simp [core, substitute, simplify, substituteRoot, simplifyRoot,
    bare, Object.bare, Field.bareList_eq, Method.bareList_eq, Function.comp_def]

theorem Expr.core_unparen (e : Expr) : e.unparen.core σ = e.core σ := by
  fun_induction unparen e with
  | case1 s e ih => rw [ih, core_paren]
  | case2 => rfl

/-- An object has the same core in parentheses. -/
theorem Expr.core_object {e : Expr} {o : Object} (h : e.unparen.object? = some o) :
    e.core σ = (new s o).core σ := by
  rw [← core_unparen]
  cases hu : e.unparen with
  | new s' o' =>
    rw [hu] at h
    obtain rfl : o' = o := Option.some.inj h
    obtain ⟨c, fs, ms⟩ := o'
    rw [core_new, core_new]
  | _ =>
    rw [hu] at h
    cases h

end

end GameHop
