import GameHop.Program.Equivalence
import GameHop.Proofs.Program.ClassUses
import GameHop.Proofs.Term.Children
import GameHop.Proofs.Term.Variables

/-!
Declarations of classes, followed through a program. The class of an object is declared after those
of the objects inside it.
-/

namespace GameHop

open Program

/-! ## Objects of an expression -/

/-- The object literals of an expression, the innermost first. -/
def Expr.objects (e : Expr) : List Object :=
  e.postorder.filterMap Expr.object?

/-- The object literals inside an object literal. -/
def Object.inner (o : Object) : List Object :=
  o.toExpr.children.flatMap Expr.objects

/-- The classes that the initial values and the methods of an object use. -/
def Object.classUses (o : Object) : List ClassUse :=
  Expr.classUsesFields o.fields ++ o.methods.flatMap (·.body.classUses)

theorem Expr.objects_eq (e : Expr) :
    e.objects = e.children.flatMap objects ++ e.object?.toList :=
  postorder_filterMap object? e

theorem Object.objects_toExpr (o : Object) : o.toExpr.objects = o.inner ++ [o] :=
  Expr.objects_eq o.toExpr

theorem Expr.classUsesList_eq (es : List Expr) :
    classUsesList es = es.flatMap classUses := by
  induction es with
  | nil => rfl
  | cons e es ih => rw [classUsesList, ih, List.flatMap_cons]

theorem Expr.classUsesFields_eq (fs : List Field) :
    classUsesFields fs = fs.flatMap (·.value.classUses) := by
  induction fs with
  | nil => rfl
  | cons f fs ih =>
    obtain ⟨_, _, e⟩ := f
    rw [classUsesFields, ih, List.flatMap_cons]

/-- An object that code builds is built by a child or by the node itself. -/
theorem Expr.built_mem_classUses {e : Expr} {o : Object} (h : .built o ∈ e.classUses) :
    (∃ c ∈ e.children, .built o ∈ c.classUses) ∨ e.object? = some o := by
  cases e with
  | new s p =>
    obtain ⟨className, fields, methods⟩ := p
    rw [classUses, classUsesFields_eq] at h
    obtain h | h := List.mem_append.1 h
    · obtain ⟨f, hf, hu⟩ := List.mem_flatMap.1 h
      exact .inl ⟨f.value, List.mem_append_left _ (List.mem_map_of_mem hf), hu⟩
    · cases List.mem_singleton.1 h
      exact .inr rfl
  | int | bool | lookup | assert | assume | ellipsis | hole => cases h
  | _ => exact .inl (by simpa [classUses, children, classUsesList_eq] using h)

theorem Object.classUses_value {o : Object} {f : Field} (hf : f ∈ o.fields) :
    f.value.classUses ⊆ o.classUses := by
  rw [classUses, Expr.classUsesFields_eq]
  exact fun u hu => List.mem_append_left _ (List.mem_flatMap.2 ⟨f, hf, hu⟩)

theorem Object.classUses_body {o : Object} {m : Method} (hm : m ∈ o.methods) :
    m.body.classUses ⊆ o.classUses :=
  fun _ hu => List.mem_append_right _ (List.mem_flatMap.2 ⟨m, hm, hu⟩)

theorem Expr.mem_objects_of_built {e : Expr} {o : Object} (h : .built o ∈ e.classUses) :
    o ∈ e.objects := by
  induction e using inductNode with
  | step e ih =>
    rw [objects_eq, List.mem_append]
    obtain ⟨c, hc, hu⟩ | ho := built_mem_classUses h
    · exact .inl (List.mem_flatMap.2 ⟨c, hc, ih c hc hu⟩)
    · exact .inr (by rw [ho]; exact List.mem_singleton_self o)

theorem Object.objects_value {o : Object} {f : Field} (hf : f ∈ o.fields) :
    f.value.objects ⊆ o.inner :=
  fun _ ho => List.mem_flatMap.2
    ⟨f.value, List.mem_append_left _ (List.mem_map_of_mem hf), ho⟩

theorem Object.objects_body {o : Object} {m : Method} (hm : m ∈ o.methods) :
    m.body.objects ⊆ o.inner :=
  fun _ ho => List.mem_flatMap.2
    ⟨m.body, List.mem_append_right _ (List.mem_map_of_mem hm), ho⟩

theorem Object.mem_inner_of_built {o o' : Object} (h : .built o' ∈ o.classUses) :
    o' ∈ o.inner := by
  rw [classUses, Expr.classUsesFields_eq, List.mem_append] at h
  obtain h | h := h
  · obtain ⟨f, hf, hu⟩ := List.mem_flatMap.1 h
    exact objects_value hf (Expr.mem_objects_of_built hu)
  · obtain ⟨m, hm, hu⟩ := List.mem_flatMap.1 h
    exact objects_body hm (Expr.mem_objects_of_built hu)

/-- The object literals in the functions of an environment. -/
def Environment.functionObjects (env : Environment) : List Object :=
  env.functions.toList.flatMap fun f => (f.body.map Expr.objects).getD []

end GameHop

namespace GameHop.Program

/-! ## Declarations -/

namespace Constants

theorem mem_addClassId {c : Constants} {cls cls' : String} {w : Writer} :
    cls' ∈ (c.addClassId cls w).1.classIds ↔ cls' ∈ c.classIds ∨ cls' = cls := by
  rw [addClassId]
  split
  · next h => exact (or_iff_left_of_imp fun h' => h' ▸ List.contains_iff_mem.1 h).symm
  · rw [List.mem_append, List.mem_singleton]

end Constants

section
variable {F : Faults} {env : Environment} {require require' : String → Build Unit}

theorem inStep_methodProcedure (hF : F.Usual) {I : ClassFact} {o : Object} (cls : String)
    {m : Method} (h : Ready F I require require' m.body.classUses) :
    InStep F (Draft.Knows I) (Draft.Knows I) (methodProcedure env require o cls m)
      (methodProcedure env require' o cls m) :=
  .bind (.inFrame (.inFrame (inStep_finishCode hF .empty m.body h))) fun c =>
    .coercing hF faithful_toValue c.code.value fun _ => .done

variable (F require require') in
/-- What holds between the name and the entry of a class: it is enough for the code of the methods
    and of the initial values, and after the entry there is `J`. -/
structure Phase (J : ClassFact) (o : Object) (cls : String) (P : ClassFact) : Prop where
  code : Ready F P require require' o.classUses
  entry : ∀ classes ids classes', P classes ids → classes.insert o cls = .ok classes' →
    J classes' ids
  fault : ∀ classes ids f, P classes ids → classes.insert o cls = .error f → F.shared (.internal f)

/-- The declaration of a class. -/
theorem inStep_declareClass (hF : F.Usual) {I J : ClassFact} {o : Object}
    (hknown : ∀ classes ids, I classes ids → (classes.get? o).isSome → J classes ids)
    (hnew : ∀ classes ids cls, I classes ids → classes.get? o = none →
      cls = (o.className.map (·.name)).getD classes.freshId →
        ∃ P, (∀ ids', ids ⊆ ids' → cls ∈ ids' → P classes ids') ∧
          Phase F require require' J o cls P) :
    InStep F (Draft.Knows I) (Draft.Knows J) (declareClass env require o)
      (declareClass env require' o) := by
  refine .read fun d hd => ?_
  by_cases hget : (d.classes.get? o).isNone
  · rw [if_pos hget, if_pos hget]
    refine .read fun d' hd' => ?_
    subst hd'
    generalize hcls : (o.className.map (·.name)).getD d'.classes.freshId = cls
    obtain ⟨P, hP, hphase⟩ := hnew _ _ cls hd (Option.isNone_iff_eq_none.1 hget) hcls.symm
    have hbegin : InStep F (· = d') (Draft.Knows P) (Build.addClassId cls)
        (Build.addClassId cls) := by
      refine .changed fun e he => ?_
      subst he
      exact hP _ (fun _ h => Constants.mem_addClassId.2 (.inl h))
        (Constants.mem_addClassId.2 (.inr rfl))
    refine .bind hbegin fun _ => .bind (.mapM fun m hm => ?_) fun methods =>
      .bind (.forM fun f hf => ?_) fun _ => .read fun e he => ?_
    · exact inStep_methodProcedure hF cls (hphase.code.subset (Object.classUses_body hm))
    · exact .bind (inStep_finishCode hF .empty f.value
        (hphase.code.subset (Object.classUses_value hf))) fun _ => .done
    · cases hins : e.classes.insert o cls with
      | error f => exact .lifted_error rfl (hphase.fault _ _ f he hins)
      | ok classes' =>
        refine .lifted_ok rfl (.bind (.changed fun e' he' => ?_) fun _ =>
          .bind .addFields fun _ => .forM fun _ _ => .write)
        subst he'
        exact hphase.entry _ _ classes' he hins
  · rw [if_neg hget, if_neg hget]
    refine InStep.done.mono (fun e he => ?_) fun _ h => h
    rw [he]
    exact hknown _ _ hd (by simpa [Option.isSome_iff_ne_none] using hget)

theorem inStep_forM_flatMap {I : List Object → ClassFact} {f g : Expr → Build Unit} {cs : List Expr}
    (h : ∀ c ∈ cs, ∀ os, InStep F (Draft.Knows (I os)) (Draft.Knows (I (os ++ c.objects)))
      (c.postorder.forM f) (c.postorder.forM g)) (os : List Object) :
    InStep F (Draft.Knows (I os)) (Draft.Knows (I (os ++ cs.flatMap Expr.objects)))
      ((cs.flatMap Expr.postorder).forM f) ((cs.flatMap Expr.postorder).forM g) := by
  induction cs generalizing os with
  | nil =>
    rw [List.flatMap_nil, List.append_nil]
    exact .done
  | cons c cs ih =>
    rw [List.flatMap_cons, List.flatMap_cons, ← List.append_assoc]
    exact .forM_append (h c List.mem_cons_self os)
      (ih (fun c hc => h c (List.mem_cons_of_mem _ hc)) _)

/-- The declarations for an expression. When the class of an object is declared, the classes of the
    objects inside it are. -/
theorem inStep_declareAll {I : List Object → ClassFact} {e : Expr}
    (hdeclare : ∀ os, ∀ o ∈ e.objects, (∀ o', .built o' ∈ o.classUses → o' ∈ os) →
      InStep F (Draft.Knows (I os)) (Draft.Knows (I (os ++ [o]))) (declareClass env require o)
        (declareClass env require' o)) (os : List Object) :
    InStep F (Draft.Knows (I os)) (Draft.Knows (I (os ++ e.objects))) (declareAll env require e)
      (declareAll env require' e) := by
  induction e using Expr.inductNode generalizing os with
  | step e ih =>
    rw [declareAll, declareAll, Expr.postorder_eq, Expr.objects_eq, ← List.append_assoc]
    refine .forM_append (inStep_forM_flatMap (fun c hc os => ?_) os) (.bind ?_ fun _ => .done)
    · refine ih c hc (fun os o ho => hdeclare os o ?_) os
      rw [Expr.objects_eq]
      exact List.mem_append_left _ (List.mem_flatMap.2 ⟨c, hc, ho⟩)
    · cases e with
      | new s o =>
        refine hdeclare _ o ?_ fun o' ho' => List.mem_append_right _ (Object.mem_inner_of_built ho')
        rw [Expr.objects_eq]
        exact List.mem_append_right _ (List.mem_singleton_self o)
      | invoke =>
        simp only [Expr.object?, Option.toList_none, List.append_nil]
        exact .bind .methodProcedure fun _ => .done
      | _ =>
        simp only [Expr.object?, Option.toList_none, List.append_nil]
        exact .done

/-- The declaration of a named class. -/
theorem inStep_requireWith {I : ClassFact} {declare declare' : Object → Build Unit} {cls : String}
    (hadd : ∀ classes ids ids', I classes ids → ids ⊆ ids' → I classes ids')
    (hdeclare : ∀ o, env.classes.lookup cls = some o →
      InStep F (Draft.Knows fun classes ids => I classes ids ∧ cls ∉ ids) (Draft.Knows I)
        (declare o) (declare' o)) :
    InStep F (Draft.Knows I) (Draft.Knows I) (requireWith env declare cls)
      (requireWith env declare' cls) := by
  refine .read fun d hd => ?_
  by_cases hcls : !d.constants.hasClassId cls
  · rw [if_pos hcls, if_pos hcls]
    have hmissing : cls ∉ d.constants.classIds := by
      simpa [Constants.hasClassId] using hcls
    have hid : InStep F (Draft.Knows I) (Draft.Knows I) (Build.addClassId cls)
        (Build.addClassId cls) :=
      .changed fun e he => hadd _ _ _ he fun _ h => Constants.mem_addClassId.2 (.inl h)
    cases hlookup : env.classes.lookup cls with
    | none => exact hid.mono (fun e he => he ▸ hd) fun _ h => h
    | some o =>
      exact ((hdeclare o hlookup).bind fun _ => hid).mono (fun e he => he ▸ ⟨hd, hmissing⟩)
        fun _ h => h
  · rw [if_neg hcls, if_neg hcls]
    exact InStep.done.mono (fun e he => he ▸ hd) fun _ h => h

end

/-! ## Programs -/

theorem InStep.program_error {F : Faults} {I J : Draft → Prop} {env : Environment} {x : Build Unit}
    {e : CheckError} (hx : InStep F I J x x) (hstart : I (.start env))
    (he : Build.program env x = .error e) : F.lost e ∨ F.shared e := by
  refine hx.fault hstart ?_
  rw [Build.program] at he
  cases hrun : x.run (.start env) with
  | error f =>
    rw [hrun] at he
    cases he
    rfl
  | ok r =>
    rw [hrun] at he
    cases he

/-- A way to follow the classes of a program that has the objects of `U`: what is known while the
    classes of some objects are declared. -/
structure Followed (F : Faults) (env : Environment) (U : Object → Prop)
    (I : List Object → ClassFact) : Prop where
  usual : F.Usual
  fewer : ∀ {os os' classes ids}, os' ⊆ os → I os classes ids → I os' classes ids
  require : ∀ os cls,
    InStep F (Draft.Knows (I os)) (Draft.Knows (I os)) (Build.require env cls) (Build.require env cls)
  declare : ∀ os o, U o → (∀ o', .built o' ∈ o.classUses → o' ∈ os) →
    InStep F (Draft.Knows (I os)) (Draft.Knows (I (os ++ [o])))
      (declareClass env (Build.require env) o) (declareClass env (Build.require env) o)
  built : ∀ {os o classes ids}, o ∈ os → I os classes ids →
    (classes.get? o).isSome ∨ F.shared (.internal .classNotDeclared)

namespace Followed

variable {F : Faults} {env : Environment} {U : Object → Prop} {I : List Object → ClassFact}
  (h : Followed F env U I) {os : List Object}

include h

theorem weaken {os' : List Object} {α : Type} {x : Build α} {J : Draft → Prop} (hsub : os' ⊆ os)
    (hx : InStep F J (Draft.Knows (I os)) x x) : InStep F J (Draft.Knows (I os')) x x :=
  hx.mono (fun _ hd => hd) fun _ hd => h.fewer hsub hd

theorem declares {e : Expr} (hU : ∀ o ∈ e.objects, U o) :
    InStep F (Draft.Knows (I os)) (Draft.Knows (I (os ++ e.objects))) (Build.declareAll env e)
      (Build.declareAll env e) :=
  inStep_declareAll (fun os o ho => h.declare os o (hU o ho)) os

theorem code {e : Expr} (hbuilt : e.objects ⊆ os) (vars : List (String × Term)) (locals : Locals) :
    InStep F (Draft.Knows (I os)) (Draft.Knows (I os))
      (finishCode ⟨env, Build.require env, vars⟩ locals e)
      (finishCode ⟨env, Build.require env, vars⟩ locals e) := by
  refine inStep_finishCode h.usual locals e fun u hu => ?_
  cases u with
  | named cls => exact h.require os cls
  | built o => exact fun _ _ => h.built (hbuilt (Expr.mem_objects_of_built hu))

theorem claim (p : Formula) (objects : Option ObjectPair) :
    InStep F (Draft.Knows (I os)) (Draft.Knows (I os))
      (p.claim ⟨env, Build.require env, [], objects⟩)
      (p.claim ⟨env, Build.require env, [], objects⟩) :=
  Formula.inStep_claim h.usual (fun _ => h.require os) p

theorem functionBody (f : Function) {body : Expr} (hU : ∀ o ∈ body.objects, U o) :
    InStep F (Draft.Knows (I os)) (Draft.Knows (I os)) (definedFunction env f body)
      (definedFunction env f body) :=
  .bind (h.declares hU) fun _ => h.weaken (List.subset_append_left _ _) <|
    .bind (.inFrame (h.code (List.subset_append_right _ _) _ _)) fun c =>
      .coercing h.usual (faithful_coerce _) c.code.value fun _ => .done

theorem function {f : Function} (hU : ∀ body, f.body = some body → ∀ o ∈ body.objects, U o) :
    InStep F (Draft.Knows (I os)) (Draft.Knows (I os)) (declareFunction env f)
      (declareFunction env f) := by
  rw [declareFunction]
  by_cases hpure : f.isPure
  · rw [if_pos hpure]
    exact .bind .write fun _ => .write
  · rw [if_neg hpure]
    cases hbody : f.body with
    | none => exact .bind .write fun _ => .write
    | some body =>
      exact (h.functionBody f (hU body hbody)).bind fun _ => .bind .write fun _ => .write

theorem start (hU : ∀ o ∈ env.functionObjects, U o) :
    InStep F (Draft.Knows (I os)) (Draft.Knows (I os)) (header env) (header env) := by
  refine .bind .write fun _ => .bind (.bind .write fun _ => .write) fun _ =>
    .bind (.forM fun f hf => h.function fun body hbody o ho => hU o ?_) fun _ =>
      .bind (.forM fun p _ => .bind (h.claim p.claim none) fun _ => .write) fun _ => .write
  exact List.mem_flatMap.2 ⟨f, hf, by rw [hbody]; exact ho⟩

theorem side (name : String) {e : Expr} (hU : ∀ o ∈ e.objects, U o) :
    InStep F (Draft.Knows (I os)) (Draft.Knows (I (os ++ e.objects))) (sideProcedure env name e)
      (sideProcedure env name e) :=
  .bind (h.declares hU) fun _ =>
    .bind (.inFrame (h.code (List.subset_append_right _ _) _ _)) fun c =>
      .coercing h.usual faithful_toValue c.code.value fun _ => .done

/-- **The program of an equivalence, followed.** -/
theorem equivalence {left right : Expr} (hU : ∀ o ∈ env.functionObjects, U o)
    (hleft : ∀ o ∈ left.objects, U o) (hright : ∀ o ∈ right.objects, U o) :
    InStep F (Draft.Knows (I [])) (Draft.Knows (I (left.objects ++ right.objects)))
      (buildEquivalence env left right) (buildEquivalence env left right) :=
  (h.start hU).bind fun _ => (h.side "left" hleft).bind fun _ => .bind .write fun _ =>
    (h.side "right" hright).bind fun _ => .bind .write fun _ => .forM fun _ _ => .write

theorem invariants (b : Bisimulation) :
    InStep F (Draft.Knows (I os)) (Draft.Knows (I os)) (b.invariants env) (b.invariants env) := by
  rw [Bisimulation.invariants]
  cases b.clauses with
  | none => exact .done
  | some cs => exact .mapM fun c _ => h.claim c.claim _

theorem checkpointClaims (b : Bisimulation) (left right : List String) :
    InStep F (Draft.Knows (I os)) (Draft.Knows (I os)) (b.checkpointClaims env left right)
      (b.checkpointClaims env left right) :=
  .bind (.mapM fun c _ => .mapM fun _ _ => .bind (h.claim c.claim _) fun _ => .done) fun _ => .done

theorem fieldsCode {fs : List Field} (hbuilt : ∀ f ∈ fs, f.value.objects ⊆ os) (locals : Locals) :
    InStep F (Draft.Knows (I os)) (Draft.Knows (I os)) (Bisimulation.fieldsCode env locals fs)
      (Bisimulation.fieldsCode env locals fs) := by
  induction fs generalizing locals with
  | nil => exact .done
  | cons f fs ih =>
    exact (h.code (hbuilt f List.mem_cons_self) _ _).bind fun c =>
      .coercing h.usual faithful_toValue c.code.value fun _ =>
        (ih (fun f hf => hbuilt f (List.mem_cons_of_mem _ hf)) _).bind fun _ => .done

theorem construction {b : Bisimulation} (hleft : b.left.inner ⊆ os) (hright : b.right.inner ⊆ os)
    (invariants : List Term) :
    InStep F (Draft.Knows (I os)) (Draft.Knows (I os)) (b.construction env invariants)
      (b.construction env invariants) :=
  .bind (h.fieldsCode (fun _ hf => List.Subset.trans (Object.objects_value hf) hleft) _) fun _ =>
    .bind (h.fieldsCode (fun _ hf => List.Subset.trans (Object.objects_value hf) hright) _) fun _ =>
      .bind (h.checkpointClaims b _ _) fun _ => .done

theorem method {o : Object} {m : Method} (hm : m ∈ o.methods) (hbuilt : o.inner ⊆ os)
    (args : List String) (locals : Locals) :
    InStep F (Draft.Knows (I os)) (Draft.Knows (I os)) (Bisimulation.methodCode env o m args locals)
      (Bisimulation.methodCode env o m args locals) :=
  .inFrame (.inFrame (h.code (List.Subset.trans (Object.objects_body hm) hbuilt) _ _))

theorem methodNamed {b : Bisimulation} (hleft : b.left.inner ⊆ os) (hright : b.right.inner ⊆ os)
    (invariants : List Term) (name : String) :
    InStep F (Draft.Knows (I os)) (Draft.Knows (I os)) (b.methodNamed env invariants name)
      (b.methodNamed env invariants name) := by
  rw [Bisimulation.methodNamed]
  cases hl : b.left.method? name with
  | none => exact .failed (h.usual _ id)
  | some l =>
    cases hr : b.right.method? name with
    | none => exact .failed (h.usual _ id)
    | some r =>
      exact (h.method (List.mem_of_find?_eq_some hl) hleft _ _).bind fun lc =>
        (h.method (List.mem_of_find?_eq_some hr) hright _ _).bind fun rc =>
          .coercing h.usual faithful_toValue lc.code.value fun _ =>
            .coercing h.usual faithful_toValue rc.code.value fun _ =>
              .bind (h.checkpointClaims b _ _) fun _ => .done

/-- **The program of a bisimulation, followed.** -/
theorem bisimulation {b : Bisimulation} (hU : ∀ o ∈ env.functionObjects, U o)
    (hleft : ∀ o ∈ b.left.toExpr.objects, U o) (hright : ∀ o ∈ b.right.toExpr.objects, U o) :
    InStep F (Draft.Knows (I []))
      (Draft.Knows (I (b.left.toExpr.objects ++ b.right.toExpr.objects))) (b.build env)
      (b.build env) := by
  have hl : b.left.inner ⊆ b.left.toExpr.objects ++ b.right.toExpr.objects := by
    rw [Object.objects_toExpr]
    simp
  have hr : b.right.inner ⊆ b.left.toExpr.objects ++ b.right.toExpr.objects := by
    rw [Object.objects_toExpr b.right]
    simp
  exact (h.start hU).bind fun _ => (h.declares hleft).bind fun _ =>
    (h.declares hright).bind fun _ => .bind .write fun _ => (h.invariants b).bind fun _ =>
      (h.construction hl hr _).bind fun _ => .bind (.forM fun _ _ => .write) fun _ =>
        .forM fun name _ => (h.methodNamed hl hr _ name).bind fun _ => .forM fun _ _ => .write

variable {e : CheckError} (hstart : I [] .empty [])

include hstart

/-- **Which faults an equivalence may have.** -/
theorem equivalence_error {left right : Expr} (hU : ∀ o ∈ env.functionObjects, U o)
    (hleft : ∀ o ∈ left.objects, U o) (hright : ∀ o ∈ right.objects, U o)
    (he : Program.equivalence env left right = .error e) : F.lost e ∨ F.shared e :=
  (h.equivalence hU hleft hright).program_error hstart he

/-- **Which faults a bisimulation may have.** -/
theorem bisimulation_error {b : Bisimulation} (hU : ∀ o ∈ env.functionObjects, U o)
    (hleft : ∀ o ∈ b.left.toExpr.objects, U o) (hright : ∀ o ∈ b.right.toExpr.objects, U o)
    (he : b.program env = .error e) : F.lost e ∨ F.shared e := by
  rw [Bisimulation.program] at he
  by_cases hsame : !b.left.sameMethods b.right
  · rw [if_pos hsame] at he
    cases he
    exact .inr (h.usual _ id)
  · rw [if_neg hsame] at he
    exact (h.bisimulation hU hleft hright).program_error hstart he

end Followed

section
variable {env : Environment} {U : Object → Prop} {I : List Object → ClassFact} {e : CheckError}
  {bad : CheckError → Prop} (h : Followed (.but bad) env U I) (hstart : I [] .empty [])
  (hbad : bad e) (hU : ∀ o ∈ env.functionObjects, U o)

include h hstart hbad hU

theorem Followed.equivalence_ne {left right : Expr} (hleft : ∀ o ∈ left.objects, U o)
    (hright : ∀ o ∈ right.objects, U o) : Program.equivalence env left right ≠ .error e :=
  fun he => (h.equivalence_error hstart hU hleft hright he).elim id fun hgood => hgood hbad

theorem Followed.bisimulation_ne {b : Bisimulation} (hleft : ∀ o ∈ b.left.toExpr.objects, U o)
    (hright : ∀ o ∈ b.right.toExpr.objects, U o) : b.program env ≠ .error e :=
  fun he => (h.bisimulation_error hstart hU hleft hright he).elim id fun hgood => hgood hbad

end

end GameHop.Program
