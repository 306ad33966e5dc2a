import GameHop.Proofs.Term.Variables

/-!
Free names and substitution.
-/

namespace GameHop

/-! ## Names that a node binds in its children -/

/-- The fields and parameters that an object declares for its child at a position. -/
def Object.declaredIn (o : Object) (i : Nat) : List String :=
  (o.fields.take i).map (·.name.name) ++
    if i < o.fields.length then []
    else (o.methods[i - o.fields.length]?.map fun m => m.params.map (·.name.name)).getD []

/-- The names that the root binds in its child at a position: in an object literal the fields before
    it, the parameters of its method, and the variables that it assigns. -/
def Expr.bindsIn : Expr → Nat → List String
  | .new s o, i => o.declaredIn i ++ ((Expr.new s o).children[i]?.map Expr.assigned).getD []
  | _, _ => []

theorem Expr.bindsIn_eq_nil {e : Expr} (he : e.object? = none) (i : Nat) : e.bindsIn i = [] := by
  cases e with
  | new => cases he
  | _ => rfl

section
variable {s : Span} {n : Option Ident} {fs : List Field} {ms : List Method}

theorem Expr.exists_child_new {P : Nat → Expr → Prop} :
    (∃ i c, (new s ⟨n, fs, ms⟩).children[i]? = some c ∧ P i c) ↔
      (∃ i f, fs[i]? = some f ∧ P i f.value) ∨
        ∃ j m, ms[j]? = some m ∧ P (fs.length + j) m.body := by
  simp only [children]
  constructor
  · rintro ⟨i, c, hc, hP⟩
    by_cases hi : i < fs.length
    · rw [List.getElem?_append_left (by simpa using hi), List.getElem?_map] at hc
      obtain ⟨f, hf, rfl⟩ := Option.map_eq_some_iff.1 hc
      exact .inl ⟨i, f, hf, hP⟩
    · rw [List.getElem?_append_right (by simpa using hi), List.getElem?_map,
        List.length_map] at hc
      obtain ⟨m, hm, rfl⟩ := Option.map_eq_some_iff.1 hc
      refine .inr ⟨i - fs.length, m, hm, ?_⟩
      rwa [Nat.add_sub_of_le (Nat.le_of_not_lt hi)]
  · rintro (⟨i, f, hf, hP⟩ | ⟨j, m, hm, hP⟩)
    · have hi := (List.getElem?_eq_some_iff.1 hf).1
      refine ⟨i, f.value, ?_, hP⟩
      rw [List.getElem?_append_left (by simpa using hi), List.getElem?_map, hf, Option.map_some]
    · refine ⟨fs.length + j, m.body, ?_, hP⟩
      rw [List.getElem?_append_right (by simp), List.getElem?_map, List.length_map,
        Nat.add_sub_cancel_left, hm, Option.map_some]

theorem Expr.bindsIn_field {i : Nat} {f : Field} (hf : fs[i]? = some f) :
    (new s ⟨n, fs, ms⟩).bindsIn i = (fs.take i).map (·.name.name) ++ f.value.assigned := by
  have hi := (List.getElem?_eq_some_iff.1 hf).1
  have hc : (new s ⟨n, fs, ms⟩).children[i]? = some f.value := by
    rw [children, List.getElem?_append_left (by simpa using hi), List.getElem?_map, hf,
      Option.map_some]
  simp [bindsIn, Object.declaredIn, hc, hi]

theorem Expr.bindsIn_method {j : Nat} {m : Method} (hm : ms[j]? = some m) :
    (new s ⟨n, fs, ms⟩).bindsIn (fs.length + j) =
      fs.map (·.name.name) ++ (m.params.map (·.name.name) ++ m.body.assigned) := by
  have hc : (new s ⟨n, fs, ms⟩).children[fs.length + j]? = some m.body := by
    rw [children, List.getElem?_append_right (by simp), List.getElem?_map, List.length_map,
      Nat.add_sub_cancel_left, hm, Option.map_some]
  have hj : ¬ fs.length + j < fs.length := by omega
  simp [bindsIn, Object.declaredIn, hc, hm, hj, List.take_of_length_le]

end

/-! ## Free names by children -/

theorem Expr.freeInList_eq (bound : List String) (es : List Expr) :
    freeInList bound es = es.flatMap (freeIn bound) := by
  induction es with
  | nil => rfl
  | cons e es ih => rw [freeInList, ih, List.flatMap_cons]

theorem Expr.freeIn_eq {e : Expr} (ho : e.object? = none) (hv : e.varName? = none)
    (bound : List String) : e.freeIn bound = e.children.flatMap (freeIn bound) := by
  cases e with
  | new => cases ho
  | lookup => cases hv
  | _ => simp [freeIn, children, freeInList_eq]

theorem exists_getElem?_cons {α : Type} {P : Nat → α → Prop} {a : α} {l : List α} :
    (∃ i b, (a :: l)[i]? = some b ∧ P i b) ↔ P 0 a ∨ ∃ i b, l[i]? = some b ∧ P (i + 1) b := by
  rw [← Nat.or_exists_add_one]
  simp

theorem exists_mem_iff_getElem? {α : Type} {P : α → Prop} {l : List α} :
    (∃ a ∈ l, P a) ↔ ∃ (i : Nat) (a : α), l[i]? = some a ∧ P a := by
  simp only [List.mem_iff_getElem?]
  grind

section
variable {x : String}

theorem Expr.mem_freeInFields {fs : List Field}
    (h : ∀ f ∈ fs, ∀ bound, x ∈ f.value.freeIn bound ↔ x ∈ f.value.free ∧ x ∉ bound)
    (bound : List String) :
    x ∈ freeInFields bound fs ↔ x ∉ bound ∧ ∃ i f, fs[i]? = some f ∧ x ∈ f.value.free ∧
      x ∉ (fs.take i).map (·.name.name) ++ f.value.assigned := by
  induction fs generalizing bound with
  | nil => simp [freeInFields]
  | cons f fs ih =>
    obtain ⟨s, y, v⟩ := f
    have hv := h ⟨s, y, v⟩ List.mem_cons_self (bound ++ v.assigned)
    have hfs := ih (fun f hf => h f (List.mem_cons_of_mem _ hf)) (bound ++ [y.name])
    rw [freeInFields, List.mem_append, hv, hfs, exists_getElem?_cons]
    simp only [List.take_zero, List.take_succ_cons, List.map_cons, List.map_nil, List.nil_append,
      List.cons_append, List.mem_append, List.mem_cons, List.not_mem_nil, not_or]
    grind

theorem Expr.mem_freeInMethods {ms : List Method}
    (h : ∀ m ∈ ms, ∀ bound, x ∈ m.body.freeIn bound ↔ x ∈ m.body.free ∧ x ∉ bound)
    (bound : List String) :
    x ∈ freeInMethods bound ms ↔ x ∉ bound ∧ ∃ (j : Nat) (m : Method), ms[j]? = some m ∧
      x ∈ m.body.free ∧ x ∉ m.params.map (·.name.name) ++ m.body.assigned := by
  induction ms with
  | nil => simp [freeInMethods]
  | cons m ms ih =>
    obtain ⟨s, y, ps, b⟩ := m
    have hb := h ⟨s, y, ps, b⟩ List.mem_cons_self
      (bound ++ b.assigned ++ ps.map (·.name.name))
    have hms := ih fun m hm => h m (List.mem_cons_of_mem _ hm)
    rw [freeInMethods, List.mem_append, hb, hms, exists_getElem?_cons]
    simp only [List.mem_append]
    grind

/-- The names that a node reads, if those of its children are the free ones that are not bound. -/
theorem Expr.mem_freeIn_of_children {e : Expr}
    (h : ∀ c ∈ e.children, ∀ bound, x ∈ c.freeIn bound ↔ x ∈ c.free ∧ x ∉ bound)
    (bound : List String) :
    x ∈ e.freeIn bound ↔ x ∉ bound ∧ (e.varName? = some x ∨
      ∃ i c, e.children[i]? = some c ∧ x ∈ c.free ∧ x ∉ e.bindsIn i) := by
  cases e with
  | new s o =>
    obtain ⟨n, fs, ms⟩ := o
    have hfs := mem_freeInFields
      (fun f hf => h f.value (List.mem_append_left _ (List.mem_map_of_mem hf))) bound
    have hms := mem_freeInMethods
      (fun m hm => h m.body (List.mem_append_right _ (List.mem_map_of_mem hm)))
      (bound ++ fs.map (·.name.name))
    have hi : ∀ i f, fs[i]? = some f → (new s ⟨n, fs, ms⟩).bindsIn i =
        (fs.take i).map (·.name.name) ++ f.value.assigned := fun i f => bindsIn_field
    have hj : ∀ j m, ms[j]? = some m → (new s ⟨n, fs, ms⟩).bindsIn (fs.length + j) =
        fs.map (·.name.name) ++ (m.params.map (·.name.name) ++ m.body.assigned) :=
      fun j m => bindsIn_method
    rw [freeIn, List.mem_append, hfs, hms, exists_child_new]
    simp only [varName?, reduceCtorEq, false_or, List.mem_append]
    grind
  | lookup s y => grind [freeIn, children, varName?]
  | _ =>
    rw [freeIn_eq rfl rfl, List.mem_flatMap, exists_mem_iff_getElem?]
    simp only [bindsIn, varName?, reduceCtorEq, false_or, List.not_mem_nil,
      not_false_iff, and_true]
    grind

theorem Expr.mem_freeIn {e : Expr} {bound : List String} :
    x ∈ e.freeIn bound ↔ x ∈ e.free ∧ x ∉ bound := by
  induction e using inductNode generalizing bound with
  | step e ih =>
    have h := mem_freeIn_of_children fun c hc _ => ih c hc
    rw [h bound, free, h [], and_comm]
    simp

theorem Expr.mem_freeInFields_iff {bound : List String} {fs : List Field} :
    x ∈ freeInFields bound fs ↔ x ∈ freeInFields [] fs ∧ x ∉ bound := by
  rw [mem_freeInFields (fun _ _ _ => mem_freeIn),
    mem_freeInFields (fun _ _ _ => mem_freeIn)]
  simp [and_comm]

theorem Expr.mem_freeInMethods_iff {bound : List String} {ms : List Method} :
    x ∈ freeInMethods bound ms ↔ x ∈ freeInMethods [] ms ∧ x ∉ bound := by
  rw [mem_freeInMethods (fun _ _ _ => mem_freeIn),
    mem_freeInMethods (fun _ _ _ => mem_freeIn)]
  simp [and_comm]

/-- **Free names by children.** -/
theorem Expr.mem_free {e : Expr} : x ∈ e.free ↔ e.varName? = some x ∨
    ∃ i c, e.children[i]? = some c ∧ x ∈ c.free ∧ x ∉ e.bindsIn i := by
  rw [free, mem_freeIn_of_children fun _ _ _ => mem_freeIn]
  simp

theorem Expr.free_subset_variables (e : Expr) : e.free ⊆ e.variables := by
  induction e using inductNode with
  | step e ih =>
    intro x hx
    rcases mem_free.1 hx with hx | ⟨i, c, hc, hx, -⟩
    · exact mem_variables_of_varName? hx
    · have hc := List.mem_of_getElem? hc
      exact mem_variables_of_child hc (ih c hc hx)

end

/-! ## Assigned variables of instances -/

section
variable {s : Substitution} {e : Expr} {y : String}

theorem Expr.object?_substitute (ho : e.object? = none) (hv : e.varName? = none) :
    (e.substitute s).object? = none := by
  cases e with
  | new => cases ho
  | lookup => cases hv
  | assign => simp [substitute, substituteRoot_assign, object?]
  | _ => simp [substitute, substituteRoot, object?]

theorem Expr.declares_substitute (hv : e.varName? = none) :
    (e.substitute s).declares = e.declares.map s.target := by
  cases e with
  | lookup => cases hv
  | assign => simp [substitute, substituteRoot_assign, declares]
  | new t o =>
    obtain ⟨n, fs, ms⟩ := o
    simp [substitute, substituteRoot, declares]
  | _ => simp [substitute, substituteRoot, declares]

theorem Expr.assigned_substitute (ho : e.object? = none) (hv : e.varName? = none) :
    (e.substitute s).assigned =
      e.children.flatMap (fun c => (c.substitute s).assigned) ++ e.declares.map s.target := by
  rw [assigned_eq (object?_substitute ho hv), children_substitute hv,
    declares_substitute hv, List.flatMap_map]

theorem Expr.target_mem_assigned_substitute {x : String} (hx : x ∈ e.assigned) :
    s.target x ∈ (e.substitute s).assigned := by
  induction e using inductNode with
  | step e ih =>
    cases e with
    | lookup | new => simp [assigned] at hx
    | _ =>
      rw [assigned_eq rfl, List.mem_append, List.mem_flatMap] at hx
      rw [assigned_substitute rfl rfl, List.mem_append, List.mem_flatMap]
      rcases hx with ⟨c, hc, hx⟩ | hx
      · exact .inl ⟨c, hc, ih c hc hx⟩
      · exact .inr (List.mem_map_of_mem hx)

/-- An instance assigns the targets for the variables of the expression, and what the inserted terms
    assign. -/
theorem Expr.mem_assigned_substitute (hy : y ∈ (e.substitute s).assigned) :
    (∃ x ∈ e.assigned, s.target x = y) ∨
      ∃ x ∈ e.variables, ∃ t, s.get? x = some t ∧ y ∈ t.assigned := by
  induction e using inductNode with
  | step e ih =>
    cases e with
    | lookup t x =>
      rw [substitute_lookup] at hy
      cases hx : s.get? x.name with
      | none => simp [hx, assigned] at hy
      | some u => exact .inr ⟨x.name, by simp, u, hx, by simpa [hx] using hy⟩
    | new t o =>
      obtain ⟨n, fs, ms⟩ := o
      simp [substitute, substituteRoot, assigned] at hy
    | _ =>
      rw [assigned_substitute rfl rfl, List.mem_append, List.mem_flatMap] at hy
      rw [assigned_eq rfl]
      rcases hy with ⟨c, hc, hy⟩ | hy
      · rcases ih c hc hy with ⟨x, hx, hxy⟩ | ⟨x, hx, hxy⟩
        · exact .inl ⟨x, List.mem_append_left _ (List.mem_flatMap.2 ⟨c, hc, hx⟩), hxy⟩
        · exact .inr ⟨x, mem_variables_of_child hc hx, hxy⟩
      · obtain ⟨x, hx, hxy⟩ := List.mem_map.1 hy
        exact .inl ⟨x, List.mem_append_right _ hx, hxy⟩

end

/-! ## Scopes -/

/-- The initial values and bodies in the object literals of the expression, each with the names that
    its object literal binds in it. -/
def Expr.scopes (e : Expr) : List (List String × Expr) :=
  e.postorder.flatMap fun n =>
    if n.object?.isSome then n.children.mapIdx fun i c => (n.bindsIn i, c) else []

theorem Expr.scopes_child_subset {e c : Expr} (hc : c ∈ e.children) : c.scopes ⊆ e.scopes := by
  intro p hp
  obtain ⟨n, hn, hp⟩ := List.mem_flatMap.1 hp
  exact List.mem_flatMap.2 ⟨n, mem_postorder_of_child hc hn, hp⟩

section
variable {s : Substitution} {e c : Expr} {i : Nat} {y : String}

theorem Expr.mem_scopes_of_object (ho : e.object?.isSome) (hc : e.children[i]? = some c) :
    (e.bindsIn i, c) ∈ e.scopes := by
  refine List.mem_flatMap.2 ⟨e, e.mem_postorder_self, ?_⟩
  rw [if_pos ho]
  exact List.mem_of_getElem? (i := i) (by rw [List.getElem?_mapIdx, hc, Option.map_some])

/-- Where a node binds something, there is a scope. -/
theorem Expr.mem_scopes_of_bindsIn (hc : e.children[i]? = some c) (hy : y ∈ e.bindsIn i) :
    (e.bindsIn i, c) ∈ e.scopes := by
  refine mem_scopes_of_object ?_ hc
  cases ho : e.object? with
  | none => rw [bindsIn_eq_nil ho] at hy; cases hy
  | some o => rfl

theorem Expr.mem_bindsIn (hc : e.children[i]? = some c) : y ∈ e.bindsIn i ↔
    ∃ o, e.object? = some o ∧ (y ∈ o.declaredIn i ∨ y ∈ c.assigned) := by
  cases e with
  | new t o => simp [bindsIn, object?, hc]
  | _ => simp [bindsIn, object?]

/-- What an instance binds in a child: the fields and parameters as before, and what the instance of
    the child assigns. -/
theorem Expr.mem_bindsIn_substitute (hv : e.varName? = none) (hc : e.children[i]? = some c) :
    y ∈ (e.substitute s).bindsIn i ↔
      ∃ o, e.object? = some o ∧ (y ∈ o.declaredIn i ∨ y ∈ (c.substitute s).assigned) := by
  have hc' : (e.substitute s).children[i]? = some (c.substitute s) := by
    rw [children_substitute hv, List.getElem?_map, hc, Option.map_some]
  rw [mem_bindsIn hc']
  cases e with
  | new t o =>
    obtain ⟨n, fs, ms⟩ := o
    simp [substitute, substituteRoot, object?, Object.declaredIn, Function.comp_def,
      ← List.map_take]
  | lookup => cases hv
  | assign => simp [substitute, substituteRoot_assign, object?]
  | _ => simp [substitute, substituteRoot, object?]

theorem Substitution.target_of_get?_none {x : String} (h : s.get? x = none) : s.target x = x := by
  rw [target, h]
  rfl

/-- Whether the substitution has no term for a name in the scope that binds it. -/
def Substitution.KeepsBound (s : Substitution) (e : Expr) : Prop :=
  ∀ p ∈ e.scopes, ∀ x ∈ p.1, x ∈ p.2.variables → s.get? x = none

theorem Substitution.KeepsBound.child (h : s.KeepsBound e) (hc : c ∈ e.children) :
    s.KeepsBound c :=
  fun p hp => h p (Expr.scopes_child_subset hc hp)

section
variable (hbound : s.KeepsBound e) (hv : e.varName? = none) (hc : e.children[i]? = some c)
include hbound hc

theorem Substitution.KeepsBound.get?_eq_none (hy : y ∈ e.bindsIn i) (hyc : y ∈ c.variables) :
    s.get? y = none :=
  hbound _ (Expr.mem_scopes_of_bindsIn hc hy) y hy hyc

include hv

/-- What is bound in a child is bound in its instance, if no bound name is replaced. -/
theorem Expr.bindsIn_subset_substitute (hy : y ∈ e.bindsIn i) :
    y ∈ (e.substitute s).bindsIn i := by
  obtain ⟨o, ho, hyo⟩ := (mem_bindsIn hc).1 hy
  refine (mem_bindsIn_substitute hv hc).2 ⟨o, ho, hyo.imp_right fun hyc => ?_⟩
  have hnone := hbound.get?_eq_none hc hy (c.assigned_subset_variables hyc)
  rw [← Substitution.target_of_get?_none hnone]
  exact target_mem_assigned_substitute hyc

/-- An instance binds nothing new in a child but what inserted terms assign. -/
theorem Expr.bindsIn_of_substitute (hy : y ∈ (e.substitute s).bindsIn i) :
    y ∈ e.bindsIn i ∨ (e.bindsIn i, c) ∈ e.scopes ∧
      ∃ x ∈ c.variables, ∃ t, s.get? x = some t ∧ y ∈ t.assigned := by
  obtain ⟨o, ho, hy⟩ := (mem_bindsIn_substitute hv hc).1 hy
  have hbinds : ∀ x, x ∈ o.declaredIn i ∨ x ∈ c.assigned → x ∈ e.bindsIn i :=
    fun x hx => (mem_bindsIn hc).2 ⟨o, ho, hx⟩
  rcases hy with hy | hy
  · exact .inl (hbinds y (.inl hy))
  · rcases mem_assigned_substitute hy with ⟨x, hx, rfl⟩ | hinserted
    · have hxi := hbinds x (.inr hx)
      have hnone := hbound.get?_eq_none hc hxi (c.assigned_subset_variables hx)
      rw [Substitution.target_of_get?_none hnone]
      exact .inl hxi
    · exact .inr ⟨mem_scopes_of_object (by simp [ho]) hc, hinserted⟩

end

end

/-! ## Free names of instances -/

/-- Whether a name is free in an instance in which nothing is captured: it is free and not replaced,
    or it is free in the term for a free name. -/
def Substitution.Frees (s : Substitution) (e : Expr) (y : String) : Prop :=
  (y ∈ e.free ∧ s.get? y = none) ∨ ∃ x ∈ e.free, ∃ t ∈ s.get? x, y ∈ t.free

/-- Whether a substitution keeps apart from the scopes of an expression. -/
structure Substitution.Apart (s : Substitution) (e : Expr) : Prop where
  /-- It has no term for a name in the scope that binds it. -/
  bound : s.KeepsBound e
  /-- What it puts into a scope reads no name that is bound there. -/
  free : ∀ p ∈ e.scopes, ∀ x ∈ p.2.variables, ∀ t ∈ s.get? x, ∀ y ∈ t.free, y ∉ p.1
  /-- What it puts into a scope assigns no name that is to be free. -/
  assigned : ∀ p ∈ e.scopes, ∀ x ∈ p.2.variables, ∀ t ∈ s.get? x, ∀ y ∈ t.assigned, ¬ s.Frees e y

instance (s : Substitution) (e : Expr) : Decidable (s.KeepsBound e) :=
  inferInstanceAs (Decidable (∀ p ∈ e.scopes, ∀ x ∈ p.1, x ∈ p.2.variables → s.get? x = none))

instance (s : Substitution) (e : Expr) (y : String) : Decidable (s.Frees e y) :=
  inferInstanceAs (Decidable
    ((y ∈ e.free ∧ s.get? y = none) ∨ ∃ x ∈ e.free, ∃ t ∈ s.get? x, y ∈ t.free))

instance (s : Substitution) (e : Expr) : Decidable (s.Apart e) :=
  decidable_of_iff
    (s.KeepsBound e ∧
      (∀ p ∈ e.scopes, ∀ x ∈ p.2.variables, ∀ t ∈ s.get? x, ∀ y ∈ t.free, y ∉ p.1) ∧
      ∀ p ∈ e.scopes, ∀ x ∈ p.2.variables, ∀ t ∈ s.get? x, ∀ y ∈ t.assigned, ¬ s.Frees e y)
    ⟨fun ⟨hb, hf, ha⟩ => ⟨hb, hf, ha⟩, fun h => ⟨h.bound, h.free, h.assigned⟩⟩

section
variable {s : Substitution} {e : Expr} {y : String}

theorem Substitution.frees_lookup {t : Span} {x : Ident} :
    s.Frees (.lookup t x) y ↔ y ∈ ((Expr.lookup t x).substitute s).free := by
  rw [Expr.substitute_lookup]
  cases hx : s.get? x.name <;> grind [Substitution.Frees, Expr.free, Expr.freeIn]

theorem Expr.varName?_substitute (hv : e.varName? = none) : (e.substitute s).varName? = none := by
  cases e with
  | lookup => cases hv
  | assign => simp [substitute, substituteRoot_assign, varName?]
  | new t o =>
    obtain ⟨n, fs, ms⟩ := o
    simp [substitute, substituteRoot, varName?]
  | _ => simp [substitute, substituteRoot, varName?]

theorem Expr.mem_free_substitute (hv : e.varName? = none) :
    y ∈ (e.substitute s).free ↔ ∃ i c, e.children[i]? = some c ∧ y ∈ (c.substitute s).free ∧
      y ∉ (e.substitute s).bindsIn i := by
  rw [mem_free, varName?_substitute hv, children_substitute hv]
  simp only [reduceCtorEq, false_or, List.getElem?_map, Option.map_eq_some_iff]
  grind

/-- **Nothing becomes free** but what should, if no bound name is replaced. -/
theorem Substitution.frees_of_mem_free (hbound : s.KeepsBound e)
    (hy : y ∈ (e.substitute s).free) : s.Frees e y := by
  induction e using Expr.inductNode with
  | step e ih =>
    cases hv : e.varName? with
    | some x =>
      obtain ⟨t, x, rfl, -⟩ := Expr.eq_lookup_of_varName? hv
      exact frees_lookup.2 hy
    | none =>
      obtain ⟨i, c, hc, hyc, hyb⟩ := (Expr.mem_free_substitute hv).1 hy
      have hmem := List.mem_of_getElem? hc
      rcases ih c hmem (hbound.child hmem) hyc with ⟨hyc, hnone⟩ | ⟨x, hx, t, ht, hyt⟩
      · have hye : y ∈ e.free := Expr.mem_free.2 (.inr ⟨i, c, hc, hyc, fun hyi =>
          hyb (Expr.bindsIn_subset_substitute hbound hv hc hyi)⟩)
        exact .inl ⟨hye, hnone⟩
      · have hxb : x ∉ e.bindsIn i := fun hxi => by
          rw [hbound.get?_eq_none hc hxi (c.free_subset_variables hx)] at ht
          cases ht
        exact .inr ⟨x, Expr.mem_free.2 (.inr ⟨i, c, hc, hx, hxb⟩), t, ht, hyt⟩

/-- **Nothing is captured** if the substitution keeps apart as far as the name is concerned. -/
theorem Substitution.mem_free_of_frees (hbound : s.KeepsBound e)
    (hfree : ∀ p ∈ e.scopes, ∀ x ∈ p.2.variables, ∀ t ∈ s.get? x, y ∈ t.free → y ∉ p.1)
    (hassigned : ∀ p ∈ e.scopes, ∀ x ∈ p.2.variables, ∀ t ∈ s.get? x, y ∉ t.assigned)
    (hy : s.Frees e y) : y ∈ (e.substitute s).free := by
  induction e using Expr.inductNode with
  | step e ih =>
    cases hv : e.varName? with
    | some x =>
      obtain ⟨t, x, rfl, -⟩ := Expr.eq_lookup_of_varName? hv
      exact frees_lookup.1 hy
    | none =>
      -- the child in which the name is to be free, and that the node does not bind it there
      obtain ⟨i, c, hc, hyc, hyb⟩ : ∃ i c, e.children[i]? = some c ∧ s.Frees c y ∧
          y ∉ e.bindsIn i := by
        rcases hy with ⟨hye, hnone⟩ | ⟨x, hx, t, ht, hyt⟩
        · rcases Expr.mem_free.1 hye with h | ⟨i, c, hc, hyc, hyb⟩
          · simp [hv] at h
          · exact ⟨i, c, hc, .inl ⟨hyc, hnone⟩, hyb⟩
        · rcases Expr.mem_free.1 hx with h | ⟨i, c, hc, hxc, -⟩
          · simp [hv] at h
          · refine ⟨i, c, hc, .inr ⟨x, hxc, t, ht, hyt⟩, fun hyi => ?_⟩
            exact hfree _ (Expr.mem_scopes_of_bindsIn hc hyi) x (c.free_subset_variables hxc) t ht
              hyt hyi
      have hmem := List.mem_of_getElem? hc
      have hsub := Expr.scopes_child_subset hmem
      have hyc' := ih c hmem (hbound.child hmem) (fun p hp => hfree p (hsub hp))
        (fun p hp => hassigned p (hsub hp)) hyc
      refine (Expr.mem_free_substitute hv).2 ⟨i, c, hc, hyc', fun hyi => ?_⟩
      rcases Expr.bindsIn_of_substitute hbound hv hc hyi with hyi | ⟨hp, x, hx, t, ht, hyt⟩
      · exact hyb hyi
      · exact hassigned _ hp x hx t ht hyt

/-- **The free names of an instance.** If the substitution keeps apart from the scopes of the
    expression, then these are the free names that it does not replace, and the free names of the
    terms for those that it does. -/
theorem Expr.mem_free_substitute_iff (h : s.Apart e) (y : String) :
    y ∈ (e.substitute s).free ↔
      (y ∈ e.free ∧ s.get? y = none) ∨ ∃ x ∈ e.free, ∃ t, s.get? x = some t ∧ y ∈ t.free := by
  constructor
  · exact Substitution.frees_of_mem_free h.bound
  · intro hy
    exact Substitution.mem_free_of_frees h.bound (fun p hp x hx t ht => h.free p hp x hx t ht y)
      (fun p hp x hx t ht hyt => h.assigned p hp x hx t ht y hyt hy) hy

end

/-- An object with a field `k` and a method with the body. -/
def Expr.cell (body : Expr) : Expr :=
  .new .nowhere ⟨none, [⟨.nowhere, .plain "k", .int .nowhere 0⟩],
    [⟨.nowhere, .plain "m", [], body⟩]⟩

/-- In `new (k = x) { method m(y) { z = x; k + (y + z) } }` the name `x` may become `a + b`. -/
theorem Expr.mem_free_substitute_sum :
    let sum (a b : Expr) : Expr := .binary .nowhere (.arith .add) a b
    let body := Expr.seq .nowhere (.assign .nowhere (.plain "z") (.var "x"))
      (sum (.var "k") (sum (.var "y") (.var "z")))
    let e := Expr.new .nowhere ⟨none, [⟨.nowhere, .plain "k", .var "x"⟩],
      [⟨.nowhere, .plain "m", [⟨.nowhere, .plain "y", none⟩], body⟩]⟩
    let s : Substitution := [("x", sum (.var "a") (.var "b"))]
    s.Apart e ∧ ∀ y, y ∈ (e.substitute s).free ↔
      (y ∈ e.free ∧ s.get? y = none) ∨ ∃ x ∈ e.free, ∃ t, s.get? x = some t ∧ y ∈ t.free :=
  ⟨by decide, Expr.mem_free_substitute_iff (by decide)⟩

/-- **Substitution does not look at binders.** It replaces the field `k` where a method reads it; a
    `k` that it puts there is captured by the field; and a variable that an inserted term assigns is
    bound by the method, though the term has it free. -/
theorem Expr.free_substitute_ignores_binders :
    let term := Expr.seq .nowhere (.assign .nowhere (.plain "b") (.ofNat 1)) (.var "b")
    ((Expr.cell (.var "k")).free = [] ∧
      ((Expr.cell (.var "k")).substitute [("k", .var "a")]).free = ["a"]) ∧
    ((Expr.cell (.var "x")).free = ["x"] ∧ (Expr.var "k").free = ["k"] ∧
      ((Expr.cell (.var "x")).substitute [("x", .var "k")]).free = []) ∧
    (term.free = ["b"] ∧ ((Expr.cell (.var "x")).substitute [("x", term)]).free = []) := by
  decide

end GameHop
