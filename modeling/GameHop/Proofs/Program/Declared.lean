import GameHop.Proofs.Program.Declarations

/-!
Objects are declared before they are built. Declarations and code go through an expression one after
the other, and code may declare further classes in between; still the class of every object that
code builds has an entry by then.
-/

namespace GameHop.Program

/-! ## Entries -/

namespace Classes

variable {c c' : Classes} {o : Object} {cls : String}

/-- What an entry adds. -/
theorem mem_insert (h : c.insert o cls = .ok c') {p : String × String} :
    p ∈ c'.entries ↔ p ∈ c.entries ∨ p = (template o, cls) := by
  rw [insert, relate] at h
  split at h
  · cases h
  · split at h
    · cases h
    · split at h
      · next hmem =>
        cases h
        exact (or_iff_left_of_imp fun hp => hp ▸ List.contains_iff_mem.1 hmem).symm
      · cases h
        rw [List.mem_append, List.mem_singleton]

theorem insert_error {f : InternalFault} (h : c.insert o cls = .error f) :
    f = .classRedefined cls ∨ f = .classRenamed (template o) := by
  rw [insert, relate] at h
  split at h
  · cases h
    exact .inl rfl
  · split at h
    · cases h
      exact .inr rfl
    · split at h <;> cases h

theorem isSome_get?_iff : (c.get? o).isSome ↔ ∃ id, (template o, id) ∈ c.entries := by
  rw [get?, idOf?, List.lookup_isSome_iff]
  constructor
  · rintro ⟨⟨t, id⟩, hmem, ht⟩
    exact ⟨id, by rwa [LawfulBEq.eq_of_beq ht]⟩
  · rintro ⟨id, hmem⟩
    exact ⟨(template o, id), hmem, BEq.rfl⟩

theorem isSome_get?_of_insert (h : c.insert o cls = .ok c') : (c'.get? o).isSome :=
  isSome_get?_iff.2 ⟨cls, (mem_insert h).2 (.inr rfl)⟩

theorem isSome_get?_insert {o' : Object} (h : c.insert o cls = .ok c') (ho' : (c.get? o').isSome) :
    (c'.get? o').isSome := by
  obtain ⟨id, hid⟩ := isSome_get?_iff.1 ho'
  exact isSome_get?_iff.2 ⟨id, (mem_insert h).2 (.inl hid)⟩

end Classes

/-! ## Declared objects -/

/-- All faults but a missing class. -/
def Faults.butMissing : Faults :=
  .but (· = .internal .classNotDeclared)

theorem Faults.butMissing_usual : butMissing.Usual :=
  but_usual fun _ he => he ▸ trivial

/-- Whether the classes of all given objects have an entry. -/
def Declared (os : List Object) : ClassFact :=
  fun classes _ => ∀ o ∈ os, (classes.get? o).isSome

theorem declares_declareClass {env : Environment} {require : String → Build Unit}
    (hrequire : ∀ os cls, InStep .butMissing (Draft.Knows (Declared os)) (Draft.Knows (Declared os))
      (require cls) (require cls)) {os : List Object} {o : Object}
    (hbuilt : ∀ o', .built o' ∈ o.classUses → o' ∈ os) :
    InStep .butMissing (Draft.Knows (Declared os)) (Draft.Knows (Declared (os ++ [o])))
      (declareClass env require o) (declareClass env require o) := by
  refine inStep_declareClass Faults.butMissing_usual ?_ fun _ _ cls h _ _ =>
    ⟨Declared os, fun _ _ _ => h, fun u hu => ?_, ?_, ?_⟩
  · intro classes ids h ho o' ho'
    obtain ho' | ho' := List.mem_append.1 ho'
    · exact h o' ho'
    · rwa [List.mem_singleton.1 ho']
  · cases u with
    | named cls => exact hrequire os cls
    | built o' => exact fun _ _ h => .inl (h o' (hbuilt o' hu))
  · intro classes ids classes' h hins o' ho'
    obtain ho' | ho' := List.mem_append.1 ho'
    · exact Classes.isSome_get?_insert hins (h o' ho')
    · rw [List.mem_singleton.1 ho']
      exact Classes.isSome_get?_of_insert hins
  · intro classes ids f _ hins
    obtain rfl | rfl := Classes.insert_error hins <;> exact nofun

theorem declares_requireClass (env : Environment) (depth : Nat) (os : List Object) (cls : String) :
    InStep .butMissing (Draft.Knows (Declared os)) (Draft.Knows (Declared os))
      (requireClass env depth cls) (requireClass env depth cls) := by
  induction depth generalizing os cls with
  | zero =>
    exact inStep_requireWith (fun _ _ _ h _ => h) fun o _ => .failed nofun
  | succ depth ih =>
    refine inStep_requireWith (fun _ _ _ h _ => h) fun o _ => ?_
    have hall : InStep .butMissing (Draft.Knows (Declared os))
        (Draft.Knows (Declared (os ++ o.toExpr.objects)))
        (declareAll env (requireClass env depth) o.toExpr)
        (declareAll env (requireClass env depth) o.toExpr) :=
      inStep_declareAll (fun os o _ => declares_declareClass ih) os
    exact hall.mono (fun _ h => h.1) fun d h o ho => h o (List.mem_append_left _ ho)

theorem followed_declared (env : Environment) :
    Followed .butMissing env (fun _ => True) Declared where
  usual := Faults.butMissing_usual
  fewer hsub h := fun o ho => h o (hsub ho)
  require := declares_requireClass env env.templateDepth
  declare _ _ _ := declares_declareClass (declares_requireClass env env.templateDepth)
  built ho h := .inl (h _ ho)

/-- **Objects are declared before they are built.** No program fails because a class is missing, and
    at its end the classes of all objects of both sides have an entry. -/
theorem objects_declared (env : Environment) :
    (∀ left right : Expr,
      equivalence env left right ≠ .error (.internal .classNotDeclared) ∧
      ∀ d, (buildEquivalence env left right).run (.start env) = .ok ((), d) →
        ∀ o ∈ left.objects ++ right.objects, (d.classes.get? o).isSome) ∧
    ∀ b : Bisimulation,
      b.program env ≠ .error (.internal .classNotDeclared) ∧
      ∀ d, (b.build env).run (.start env) = .ok ((), d) →
        ∀ o ∈ b.left.toExpr.objects ++ b.right.toExpr.objects, (d.classes.get? o).isSome := by
  have h := followed_declared env
  have hU : ∀ {os : List Object}, ∀ o ∈ os, (fun _ => True) o := fun _ _ => trivial
  refine ⟨fun left right => ⟨h.equivalence_ne nofun rfl hU hU hU, fun d hd => ?_⟩,
    fun b => ⟨h.bisimulation_ne nofun rfl hU hU hU, fun d hd => ?_⟩⟩
  · exact (h.equivalence hU hU hU).of_ok hd nofun
  · exact (h.bisimulation hU hU hU).of_ok hd nofun

end GameHop.Program
