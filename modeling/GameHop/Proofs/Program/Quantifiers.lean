import GameHop.Proofs.Program.FieldScope
import GameHop.Proofs.Program.Formals

/-!
Names that quantifiers bind.
-/

namespace GameHop

open Program

/-! ## Names that a formula reads -/

mutual

theorem Formula.exists_read : ∀ (p : Formula) {u : NameUse}, u ∈ p.nameUses → ∃ x, u = .read x
  | .lookup _ x, _, h => ⟨x.name, List.mem_singleton.1 h⟩
  | .paren _ p, _, h | .quant _ _ _ p, _, h | .unary _ _ p, _, h => p.exists_read h
  | .binary _ _ a b, _, h | .index _ a b, _, h | .frame _ a b, _, h =>
    (List.mem_append.1 h).elim a.exists_read b.exists_read
  | .update _ a b c, _, h =>
    (List.mem_append.1 h).elim (fun h => (List.mem_append.1 h).elim a.exists_read b.exists_read)
      c.exists_read
  | .call _ _ args, _, h => Formula.exists_read_list args h
  | .sameObject _ a b, _, h => (List.mem_append.1 h).elim a.exists_read b.exists_read
  | .independence _ k a b, _, h =>
    (List.mem_append.1 h).elim (fun h => (List.mem_append.1 h).elim k.exists_read a.exists_read)
      b.exists_read
  | .objectIs _ o _, _, h | .field _ o _, _, h => o.exists_read h
  | .frameHeap _ k l a b, _, h =>
    (List.mem_append.1 h).elim (fun h => (List.mem_append.1 h).elim
      (fun h => (List.mem_append.1 h).elim k.exists_read l.exists_read) a.exists_read) b.exists_read

theorem Formula.exists_read_list : ∀ (ps : List Formula) {u : NameUse},
    u ∈ Formula.nameUsesList ps → ∃ x, u = .read x
  | p :: ps, _, h => (List.mem_append.1 h).elim p.exists_read (Formula.exists_read_list ps)

theorem ObjectTerm.exists_read : ∀ (o : ObjectTerm) {u : NameUse}, u ∈ o.nameUses → ∃ x, u = .read x
  | .inHeap k p, _, h => (List.mem_append.1 h).elim k.exists_read p.exists_read

theorem HeapTerm.exists_read : ∀ (k : HeapTerm) {u : NameUse}, u ∈ k.nameUses → ∃ x, u = .read x
  | .inHeap k p, _, h => (List.mem_append.1 h).elim k.exists_read p.exists_read

end

end GameHop

namespace GameHop.Program

/-! ## Bound names -/

/-- The context in which the given names stand for themselves. -/
def FormulaContext.hide (ctx : FormulaContext) (xs : List String) : FormulaContext :=
  { ctx with vars := ctx.vars.filter fun v => !xs.contains v.1 }

theorem FormulaContext.lookup_hide (ctx : FormulaContext) (xs : List String) (x : String) :
    (ctx.hide xs).vars.lookup x = if x ∈ xs then none else ctx.vars.lookup x := by
  rw [hide]
  generalize ctx.vars = vars
  induction vars with
  | nil => simp
  | cons v vars ih =>
    obtain ⟨y, t⟩ := v
    by_cases hy : y ∈ xs
    · rw [List.filter_cons_of_neg (by simpa using hy), ih]
      by_cases hx : x ∈ xs
      · rw [if_pos hx, if_pos hx]
      · have hxy : (x == y) = false := beq_eq_false_iff_ne.2 fun h => hx (h ▸ hy)
        rw [if_neg hx, if_neg hx, List.lookup_cons, hxy]
    · rw [List.filter_cons_of_pos (by simpa using hy), List.lookup_cons, List.lookup_cons, ih]
      by_cases hxy : x = y
      · simp [hxy, hy]
      · simp [beq_eq_false_iff_ne.2 hxy]

theorem sameUses_hide (ctx : FormulaContext) (xs : List String) (p : Formula) :
    SameUses p.nameUses (ctx.hide xs).vars ctx.vars ↔
      ∀ x ∈ xs, .read x ∈ p.nameUses → ctx.termOf x = .name x := by
  constructor
  · intro h x hx hread
    have hsame := h _ hread
    rw [NameUse.SameIn, FormulaContext.lookup_hide, if_pos hx] at hsame
    exact hsame.symm
  · intro h u hu
    obtain ⟨x, rfl⟩ := p.exists_read hu
    rw [NameUse.SameIn, FormulaContext.lookup_hide]
    by_cases hx : x ∈ xs
    · rw [if_pos hx]
      exact (h x hx hu).symm
    · rw [if_neg hx]

/-- A quantifier keeps its names bound exactly if these stand for themselves. -/
theorem run_hide_iff {ctx : FormulaContext} {s : Span} {q : Quantifier} {params : List Param}
    {p : Formula} {d d' : Draft} {v : Value} {xs : List String}
    (h : ((Formula.quant s q params p).value ctx).run d = .ok (v, d')) :
    ((Formula.quant s q params p).value (ctx.hide xs)).run d = .ok (v, d') ↔
      ∀ x ∈ xs, .read x ∈ p.nameUses → ctx.termOf x = .name x := by
  rw [← sameUses_hide]
  obtain ⟨w, v', d'', hw, hv, hwv⟩ | ⟨e, -, hv⟩ :=
    (Formula.quant s q params p).value_cases ctx (ctx.hide xs).vars d
  · cases hv.symm.trans h
    constructor
    · intro hsame
      cases hw.symm.trans hsame
      exact hwv.2.1 rfl
    · exact fun hsame => hwv.eq hsame ▸ hw
  · cases hv.symm.trans h

section
variable {memory : String} {o : Object} {m : Method} {x : String}

theorem lookup_parameters_self (hx : x ∈ m.paramNames) :
    (m.paramNames.zip (m.paramNames.map Term.name)).reverse.lookup x = some (.name x) := by
  cases h : (m.paramNames.zip (m.paramNames.map Term.name)).reverse.lookup x with
  | none =>
    have hmem : (x, Term.name x) ∈ (m.paramNames.zip (m.paramNames.map Term.name)).reverse := by
      rw [List.mem_reverse, ← List.map_prod_left_eq_zip]
      exact List.mem_map_of_mem hx
    exact absurd (List.lookup_eq_none_iff.1 h _ hmem) (by simp)
  | some t =>
    obtain ⟨before, after, hsplit, -⟩ := List.lookup_eq_some_iff.1 h
    have hmem : (x, t) ∈ (m.paramNames.zip (m.paramNames.map Term.name)).reverse :=
      hsplit ▸ List.mem_append_right _ (.head _)
    rw [List.mem_reverse, ← List.map_prod_left_eq_zip] at hmem
    obtain ⟨y, -, hy⟩ := List.mem_map.1 hmem
    cases hy
    rfl

/-- In the methods of a class all names but those of fields stand for themselves. -/
theorem termOf_methodVars_iff (env : Environment) (require : String → Build Unit) :
    CodeContext.termOf ⟨env, require, methodVars memory o m m.paramNames⟩ x = .name x ↔
      (x ∈ o.fieldNames → x ∈ m.paramNames) := by
  rw [CodeContext.termOf, methodVars, List.lookup_append]
  by_cases hparam : x ∈ m.paramNames
  · rw [lookup_parameters_self hparam]
    exact iff_of_true rfl fun _ => hparam
  · rw [lookup_parameters_of_not_mem hparam, Option.none_or, lookup_fieldVars]
    by_cases hfield : x ∈ o.fieldNames <;> simp [hfield, hparam]

end

/-! ## Sorts of bound names -/

theorem typeOf?_declare {scope : Scope} (h : scope.frames ≠ []) (x y : String) (ty : Ty) :
    (scope.declare y ty).typeOf? x = ([(y, ty)].lookup x).or (scope.typeOf? x) := by
  obtain ⟨_ | ⟨f, fs⟩⟩ := scope
  · exact absurd rfl h
  · simp only [Scope.declare, Scope.typeOf?, ScopeFrame.declare, ScopeFrame.typeOf?,
      List.findSome?_cons, lookup_insertEntry, List.lookup_cons, List.lookup_nil]
    by_cases hx : x = y
    · simp [hx]
    · simp [hx, beq_eq_false_iff_ne.2 hx]

theorem typeOf?_declares (symbols : List (String × Ty)) (x : String) {scope : Scope}
    (h : scope.frames ≠ []) :
    (symbols.foldl (fun s p => s.declare p.1 p.2) scope).typeOf? x =
      (symbols.reverse.lookup x).or (scope.typeOf? x) := by
  induction symbols generalizing scope with
  | nil => rfl
  | cons p symbols ih =>
    have hframes : (scope.declare p.1 p.2).frames ≠ [] := by
      obtain ⟨_ | ⟨f, fs⟩⟩ := scope
      · exact absurd rfl h
      · exact List.cons_ne_nil _ _
    rw [List.foldl_cons, ih hframes, List.reverse_cons, List.lookup_append, Option.or_assoc,
      typeOf?_declare h]

theorem pop_declares (symbols : List (String × Ty)) (scope : Scope) :
    (symbols.foldl (fun s p => s.declare p.1 p.2) scope).pop = scope.pop := by
  induction symbols generalizing scope with
  | nil => rfl
  | cons p symbols ih => rw [List.foldl_cons, ih, Scope.pop_declare]

theorem run_declares (symbols : List (String × Ty)) (d : Draft) :
    (symbols.forM fun (x, ty) => Build.declare x ty).run d =
      .ok ((), { d with scope := symbols.foldl (fun s p => s.declare p.1 p.2) d.scope }) := by
  induction symbols generalizing d with
  | nil => rfl
  | cons p symbols ih => exact ih _

/-- A step that keeps the state in a new frame keeps it outside. -/
theorem run_inFrame_of_kept {α : Type} {x : Build α} {a : α} {kind : FrameKind}
    {symbols : List (String × Ty)} {d d₁ : Draft}
    (hd₁ : d₁ = { d with
      scope := symbols.foldl (fun s p => s.declare p.1 p.2) (d.scope.push kind) })
    (h : x.run d₁ = .ok (a, d₁)) : (Build.inFrame kind symbols x).run d = .ok (a, d) := by
  have hpush : (Build.push kind).run d = .ok ((), { d with scope := d.scope.push kind }) := rfl
  rw [Build.inFrame, run_bind_of_ok hpush, run_bind_of_ok (run_declares symbols _), ← hd₁,
    run_bind_of_ok h]
  have hpop : d₁.scope.pop = d.scope := by rw [hd₁, pop_declares, Scope.pop_push]
  show Except.ok (a, { d₁ with scope := d₁.scope.pop }) = _
  rw [hpop, hd₁]

/-- A lookup under quantifiers has the sort of the innermost one that binds its name, and the term
    that its name has outside. -/
theorem run_lookup_quantified (ctx : FormulaContext) (span : Span) (x : Ident) {ty : Ty}
    (nest : List (List Param)) (d : Draft)
    (h : ((nest.flatMap quantified).reverse.lookup x.name).or (d.scope.typeOf? x.name) = some ty) :
    (nest.foldr (fun params => Build.inFrame .logical (quantified params))
      ((Formula.lookup span x).value ctx)).run d = .ok (⟨.ofTy ty, ctx.termOf x.name⟩, d) := by
  induction nest generalizing d with
  | nil =>
    have hty : (Build.typeOf? x.name).run d = .ok (some ty, d) :=
      congrArg (fun ty => Except.ok (ty, d)) h
    rw [List.foldr_nil, Formula.value, run_bind_of_ok hty]
    rfl
  | cons params nest ih =>
    refine run_inFrame_of_kept rfl (ih _ ?_)
    have hpushed : (d.scope.push .logical).frames ≠ [] := List.cons_ne_nil _ _
    have hscope := typeOf?_declares (quantified params) x.name hpushed
    rw [List.flatMap_cons, List.reverse_append, List.lookup_append, Option.or_assoc] at h
    exact (congrArg (Option.or _) hscope).trans h

/-- **Quantified names.** A name that a quantifier binds has the quantifier's sort under it, at any
    depth and whatever else it is the name of. Its term need not be the bound name, as names are
    replaced under a quantifier as they are outside. So the term of a formula has the bound names
    where the formula does exactly if those that are read in it stand for themselves, which in the
    methods of a class leaves out the fields that are no parameters. -/
theorem quantified_names (s : Span) (q : Quantifier) (params : List Param) (p : Formula) :
    let names := params.map (·.name.name)
    let quant := Formula.quant s q params p
    (∀ ctx d v d', (quant.value ctx).run d = .ok (v, d') →
      ((quant.value (ctx.hide names)).run d = .ok (v, d') ↔
        ∀ x ∈ names, .read x ∈ p.nameUses → ctx.termOf x = .name x)) ∧
    (∀ env require o m d v d',
      let ctx := CodeContext.ofFormulas ⟨env, require, methodVars "objectMemory" o m m.paramNames⟩
      (quant.value ctx).run d = .ok (v, d') →
        ((quant.value (ctx.hide names)).run d = .ok (v, d') ↔
          ∀ x ∈ names, .read x ∈ p.nameUses → x ∈ o.fieldNames → x ∈ m.paramNames)) ∧
    ∀ nest ctx d span x ty,
      ((params :: nest).flatMap quantified).reverse.lookup x.name = some ty →
        ((params :: nest).foldr (fun bound => Build.inFrame .logical (quantified bound))
          ((Formula.lookup span x).value ctx)).run d = .ok (⟨.ofTy ty, ctx.termOf x.name⟩, d) := by
  refine ⟨fun ctx d v d' h => run_hide_iff h, fun env require o m d v d' h => ?_,
    fun nest ctx d span x ty h => run_lookup_quantified ctx span x (params :: nest) d ?_⟩
  · rw [run_hide_iff h]
    exact forall₃_congr fun x _ _ => termOf_methodVars_iff env require
  · rw [h, Option.some_or]

/-! ## A formula in a method -/

namespace Quantified

/-- The formula `k == j`. -/
def same : Formula :=
  .binary .nowhere (.compare .eq) (.lookup .nowhere (.plain "k")) (.lookup .nowhere (.plain "j"))

/-- The formula `forall (k: int). k == j`. -/
def formula : Formula :=
  .quant .nowhere .all [⟨.nowhere, .plain "k", some .int⟩] same

/-- The method `f(i) { assert(forall (k: int). k == j) }`. -/
def method : Method :=
  ⟨.nowhere, .plain "f", [⟨.nowhere, .plain "i", none⟩], .assert .nowhere formula⟩

/-- An object with the method and some fields. -/
def object (fields : List String) : Object :=
  ⟨none, fields.map fun x => ⟨.nowhere, .plain x, .ofNat 0⟩, [method]⟩

def env : Environment :=
  .ofConstants []

def context (fields : List String) : FormulaContext :=
  CodeContext.ofFormulas
    ⟨env, Build.require env, methodVars "objectMemory" (object fields) method method.paramNames⟩

/-- A state inside the method. -/
def inside (fields : List String) : Draft :=
  { Draft.start env with
    scope := fields.foldl (fun s x => s.declare x .value) (env.scope.push .variables) }

end Quantified

/-- With a field `j` alone, the name `k` stays bound and only `j` is replaced. -/
theorem quantified_names_kept :
    let ctx := Quantified.context ["j"]
    let d := Quantified.inside ["j"]
    ∃ v, (Quantified.formula.value ctx).run d = .ok (v, d) ∧
      (Quantified.formula.value (ctx.hide ["k"])).run d = .ok (v, d) ∧
      v.term.text = "(forall k:int :: (fromInt(k))==" ++
        "(toBitstring(objectMemory[internal.attribute.field.j])))" := by
  intro ctx d
  have hrun : ∃ v, (Quantified.formula.value ctx).run d = .ok (v, d) ∧
      v.term.text = "(forall k:int :: (fromInt(k))==" ++
        "(toBitstring(objectMemory[internal.attribute.field.j])))" := ⟨_, rfl, by decide +kernel⟩
  obtain ⟨v, hv, htext⟩ := hrun
  obtain ⟨-, hkept, -⟩ :=
    quantified_names .nowhere .all [⟨.nowhere, .plain "k", some .int⟩] Quantified.same
  refine ⟨v, hv, (hkept Quantified.env _ (Quantified.object ["j"]) Quantified.method d v d hv).2 ?_,
    htext⟩
  rintro x hx - hfield
  exact absurd ((List.mem_singleton.1 hx).symm.trans (List.mem_singleton.1 hfield)) (by decide)

/-- With a field `k` too, the bound name is read from the object. -/
theorem quantified_name_replaced :
    let ctx := Quantified.context ["j", "k"]
    let d := Quantified.inside ["j", "k"]
    ∃ v, (Quantified.formula.value ctx).run d = .ok (v, d) ∧
      (Quantified.formula.value (ctx.hide ["k"])).run d ≠ .ok (v, d) ∧
      v.term.text = "(forall k:int :: (fromInt(objectMemory[internal.attribute.field.k]))==" ++
        "(toBitstring(objectMemory[internal.attribute.field.j])))" := by
  refine ⟨_, rfl, fun h => ?_, by decide +kernel⟩
  cases h

end GameHop.Program
