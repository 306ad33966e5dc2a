import GameHop.Proofs.Program.NameUses

/-!
The classes that code uses: those that calls of methods name, and those of the objects that are
built.
-/

namespace GameHop

open Program

/-- A use of a class in code. -/
inductive Program.ClassUse where
  /-- Calls of a method name the class. -/
  | named (cls : String)
  /-- An object is built. -/
  | built (o : Object)

mutual

/-- The classes that the code of an expression uses. The methods of an object are not part of the
    code that builds it. -/
def Expr.classUses : Expr → List ClassUse
  | .paren _ _ e | .assign _ _ e | .unary _ _ e => e.classUses
  | .seq _ a b | .binary _ _ a b | .index _ a b => a.classUses ++ b.classUses
  | .ternary _ a b c | .update _ a b c => a.classUses ++ b.classUses ++ c.classUses
  | .call _ _ args => Expr.classUsesList args
  | .invoke _ target _ classes args =>
    target.classUses ++ Expr.classUsesList args ++ classes.map (.named ·.name)
  | .new _ ⟨className, fields, methods⟩ =>
    Expr.classUsesFields fields ++ [.built ⟨className, fields, methods⟩]
  | .int _ _ | .bool _ _ | .lookup _ _ | .assert _ _ | .assume _ _ | .ellipsis _ | .hole _ => []

def Expr.classUsesList : List Expr → List ClassUse
  | [] => []
  | e :: es => e.classUses ++ Expr.classUsesList es

def Expr.classUsesFields : List Field → List ClassUse
  | [] => []
  | ⟨_, _, e⟩ :: fs => e.classUses ++ Expr.classUsesFields fs

end

namespace Program

variable (F : Faults) (I : ClassFact) (require require' : String → Build Unit)

/-- Whether a use of a class keeps two runs in step: the class is declared in step, the object is
    declared. -/
def ClassUse.Ready : ClassUse → Prop
  | .named cls => InStep F (Draft.Knows I) (Draft.Knows I) (require cls) (require' cls)
  | .built o => ∀ classes ids, I classes ids →
    (classes.get? o).isSome ∨ F.shared (.internal .classNotDeclared)

/-- Whether all uses keep two runs in step. -/
def Ready (us : List ClassUse) : Prop :=
  ∀ u ∈ us, u.Ready F I require require'

variable {F I require require'} {us us' : List ClassUse}

theorem Ready.subset (h : Ready F I require require' us) (hsub : us' ⊆ us) :
    Ready F I require require' us' :=
  fun u hu => h u (hsub hu)

theorem Ready.left (h : Ready F I require require' (us ++ us')) : Ready F I require require' us :=
  h.subset (List.subset_append_left us us')

theorem Ready.right (h : Ready F I require require' (us ++ us')) : Ready F I require require' us' :=
  h.subset (List.subset_append_right us us')

end Program

section
variable {F : Faults} {I : ClassFact} {ctx : CodeContext} {require : String → Build Unit}
  (hF : F.Usual)

namespace Program

theorem InStep.temp {sort : String} :
    InStep F (BodyState.Knows I) (BodyState.Knows I) (BuildBody.temp sort) (BuildBody.temp sort) :=
  fun _ h => .inl ⟨_, _, rfl, rfl, h⟩

include hF

theorem inStep_keepAll : ∀ vs : List Value,
    InStep F (BodyState.Knows I) (BodyState.Knows I) (keepAll vs) (keepAll vs)
  | [] => .done
  | v :: vs =>
    .bind .temp fun _ => .coercing hF faithful_toValue v fun _ =>
      (inStep_keepAll vs).bind fun _ => .done

theorem inStep_claimCode (stmt : Term → Stmt) (p : Formula) :
    InStep F (BodyState.Knows I) (BodyState.Knows I) (claimCode ctx stmt p)
      (claimCode { ctx with require } stmt p) :=
  .bind (.onDraft (.inFrame (Formula.inStep_claim hF (fun h => (h rfl).elim) p))) fun _ => .done

omit hF in
theorem inStep_constructCode {o : Object} (args : List Term)
    (h : (ClassUse.built o).Ready F I ctx.require require) :
    InStep F (BodyState.Knows I) (BodyState.Knows I) (constructCode o args)
      (constructCode o args) := by
  refine .read fun s hs => .mono ?_ (fun _ h => h ▸ hs) fun _ h => h
  cases hget : s.draft.classes.get? o with
  | none =>
    have hdeclared := h _ _ hs
    rw [hget] at hdeclared
    exact .failed (hdeclared.resolve_left nofun)
  | some cls => exact .bind .temp fun _ => .done

theorem inStep_invokeCode (target : Value) (method : String) {classes : List String}
    (args : List Value) (h : Ready F I ctx.require require (classes.map .named)) :
    InStep F (BodyState.Knows I) (BodyState.Knows I) (invokeCode ctx target method classes args)
      (invokeCode { ctx with require } target method classes args) := by
  refine .bind (inStep_keepAll hF args) fun kept => .bind .temp fun oid =>
    .coercing hF faithful_toObjectId target fun id => .bind .temp fun result =>
    .bind (.onDraft .methodProcedure) fun _ => .bind (.onDraft (.forM fun c hc => ?_)) fun _ =>
    .bind .temp fun memory => .bind .temp fun split => .done
  exact h (.named c) (List.mem_map_of_mem hc)

omit hF in
theorem inStep_applyCode (f : Function) (args : List Term) :
    InStep F (BodyState.Knows I) (BodyState.Knows I) (applyCode f args) (applyCode f args) := by
  rw [applyCode]
  split
  · exact .done
  · exact .bind .temp fun _ => .done

end Program

include hF

set_option linter.unusedSectionVars false

mutual

/-- **Code in step.** -/
theorem Expr.inStep_code : ∀ e : Expr, Ready F I ctx.require require e.classUses →
    InStep F (BodyState.Knows I) (BodyState.Knows I) (e.code ctx) (e.code { ctx with require })
  | .int _ _, _ | .bool _ _, _ => .done
  | .lookup _ _, _ =>
    .bind (.onDraft (.read fun _ hd => .mono .done (fun _ h => h ▸ hd) fun _ h => h)) fun _ => .done
  | .paren _ none e, h => inStep_code e h
  | .paren _ (some _) e, h =>
    (inStep_code e h).bind fun _ => .bind (.onDraft .addCheckpoint) fun _ =>
      .bind (.changed fun _ h => h) fun _ => .done
  | .seq _ a b, h =>
    (inStep_code a h.left).bind fun _ =>
      (inStep_code b h.right).bind fun _ => .done
  | .assign _ x e, h => by
    refine (inStep_code e h).bind fun c => ?_
    have hrest : InStep F (BodyState.Knows I) (BodyState.Knows I)
        (do
          let t ← orInternal c.value.toValue
          BuildBody.onDraft (Build.declare x.name .value)
          return ⟨c.body ++ [.assign (ctx.termOf x.name) t], c.value⟩ : BuildBody Code)
        (do
          let t ← orInternal c.value.toValue
          BuildBody.onDraft (Build.declare x.name .value)
          return ⟨c.body ++ [.assign (ctx.termOf x.name) t], c.value⟩) :=
      .coercing hF faithful_toValue c.value fun t =>
        .bind (.onDraft (.changed fun _ h => h)) fun _ => .done
    by_cases hx : (ctx.vars.lookup x.name).isNone
    · rw [if_pos hx, if_pos hx]
      exact .bind (.changed fun _ h => h) fun _ => hrest
    · rw [if_neg hx, if_neg hx]
      exact hrest
  | .ternary _ a b c, h =>
    (inStep_code a h.left.left).bind fun v => .bind .temp fun _ =>
      .coercing hF faithful_toBoolean v.value fun _ =>
        (inStep_code b h.left.right).bind fun w =>
          .coercing hF faithful_toValue w.value fun _ =>
            (inStep_code c h.right).bind fun u =>
              .coercing hF faithful_toValue u.value fun _ => .done
  | .unary _ .not e, h =>
    (inStep_code e h).bind fun c => .coercing hF faithful_toBoolean c.value fun _ => .done
  | .unary _ .ref e, h =>
    (inStep_code e h).bind fun c =>
      .coercing hF faithful_toObjectId c.value fun _ => .done
  | .unary _ .tobits e, h =>
    (inStep_code e h).bind fun c =>
      .coercing hF faithful_toBitstring c.value fun _ => .done
  | .binary _ (.logic _) a b, h =>
    (inStep_code a h.left).bind fun v =>
      .coercing hF faithful_toBoolean v.value fun _ => .bind .temp fun _ =>
        .coercing hF faithful_toValue v.value fun _ =>
          (inStep_code b h.right).bind fun w =>
            .coercing hF faithful_toValue w.value fun _ => .done
  | .binary _ (.compare _) a b, h =>
    (inStep_code a h.left).bind fun v =>
      (inStep_code b h.right).bind fun w =>
        .coercing hF (faithful_coerce _) v.value fun _ =>
          .coercing hF (faithful_coerce _) w.value fun _ => .done
  | .binary _ (.arith _) a b, h =>
    (inStep_code a h.left).bind fun v =>
      (inStep_code b h.right).bind fun w =>
        .coercing hF faithful_toInteger v.value fun _ =>
          .coercing hF faithful_toInteger w.value fun _ => .done
  | .call _ f args, h => by
    rw [code, code]
    cases ctx.env.functions.get? f.name with
    | none => exact .failed (hF _ id)
    | some decl =>
      exact (inStep_argumentCode args h decl 0).bind fun r =>
        (inStep_applyCode decl r.2).bind fun _ => .done
  | .invoke _ target method classes args, h => by
    have huses : Ready F I ctx.require require ((classes.map (·.name)).map .named) := by
      rw [List.map_map]
      exact h.right
    exact (inStep_code target h.left.left).bind fun t =>
      (inStep_codeList args h.left.right).bind fun r =>
        (inStep_invokeCode hF t.value method.name r.2 huses).bind fun _ => .done
  | .new _ ⟨_, fields, _⟩, h =>
    (inStep_fieldCode fields h.left).bind fun r =>
      (inStep_constructCode r.2 (h.right _ (List.mem_singleton_self _))).bind fun _ =>
        .done
  | .index _ a b, h =>
    (inStep_code a h.left).bind fun v =>
      (inStep_code b h.right).bind fun w =>
        .coercing hF faithful_toMemory v.value fun _ =>
          .coercing hF faithful_toBitstring w.value fun _ => .done
  | .update _ a b c, h =>
    (inStep_code a h.left.left).bind fun v =>
      (inStep_code b h.left.right).bind fun w =>
        (inStep_code c h.right).bind fun u =>
          .coercing hF faithful_toMemory v.value fun _ =>
            .coercing hF faithful_toBitstring w.value fun _ =>
              .coercing hF faithful_toValue u.value fun _ => .done
  | .assert _ p, _ | .assume _ p, _ => inStep_claimCode hF _ p
  | .ellipsis _, _ | .hole _, _ => .failed (hF _ id)

theorem Expr.inStep_codeList : ∀ es : List Expr,
    Ready F I ctx.require require (classUsesList es) →
      InStep F (BodyState.Knows I) (BodyState.Knows I) (codeList ctx es)
        (codeList { ctx with require } es)
  | [], _ => .done
  | e :: es, h =>
    (inStep_code e h.left).bind fun _ =>
      (inStep_codeList es h.right).bind fun _ => .done

theorem Expr.inStep_argumentCode : ∀ es : List Expr,
    Ready F I ctx.require require (classUsesList es) → ∀ (f : Function) (i : Nat),
      InStep F (BodyState.Knows I) (BodyState.Knows I) (argumentCode ctx f i es)
        (argumentCode { ctx with require } f i es)
  | [], _, _, _ => .done
  | e :: es, h, f, i =>
    (inStep_code e h.left).bind fun c =>
      .coercing hF (faithful_coerce _) c.value fun _ =>
        (inStep_argumentCode es h.right f (i + 1)).bind fun _ => .done

theorem Expr.inStep_fieldCode : ∀ fs : List Field,
    Ready F I ctx.require require (classUsesFields fs) →
      InStep F (BodyState.Knows I) (BodyState.Knows I) (fieldCode ctx fs)
        (fieldCode { ctx with require } fs)
  | [], _ => .done
  | ⟨_, _, e⟩ :: fs, h =>
    (inStep_code e h.left).bind fun c =>
      .coercing hF faithful_toValue c.value fun _ =>
        (inStep_fieldCode fs h.right).bind fun _ => .done

end

omit hF in
theorem Program.run_finishCode (locals : Locals) (e : Expr) (d : Draft) :
    (finishCode ctx locals e).run d =
      ((e.code ctx).run ⟨d, locals, []⟩).map fun r =>
        (⟨r.1, r.2.locals, r.2.labels⟩, r.2.draft) := by
  show ((e.code ctx).run ⟨d, locals, []⟩ >>= _) = _
  cases (e.code ctx).run ⟨d, locals, []⟩ <;> rfl

theorem Program.inStep_finishCode (locals : Locals) (e : Expr)
    (h : Ready F I ctx.require require e.classUses) :
    InStep F (Draft.Knows I) (Draft.Knows I) (finishCode ctx locals e)
      (finishCode { ctx with require } locals e) := by
  intro d hd
  rw [run_finishCode, run_finishCode]
  obtain ⟨c, s, hx, hy, hs⟩ | ⟨f, hx, hf⟩ := Expr.inStep_code hF e h ⟨d, locals, []⟩ hd
  · rw [hx, hy]
    exact .inl ⟨⟨c, s.locals, s.labels⟩, s.draft, rfl, rfl, hs⟩
  · rw [hx]
    exact .inr ⟨f, rfl, hf.imp_right fun ⟨hs, hy⟩ => ⟨hs, by rw [hy]; rfl⟩⟩

end

end GameHop
