import GameHop.Proofs.Term.Renaming

/-!
The names of an expression after one of its nodes is replaced.
-/

namespace GameHop

/-! ## One child -/

section
variable {e c c' : Expr} {i : Nat} {x : String}

/-- The root with another child at a position. -/
def Expr.setChild (e : Expr) (i : Nat) (c : Expr) : Expr :=
  e.withChildren (e.children.set i c)

theorem Expr.children_setChild (e : Expr) (i : Nat) (c : Expr) :
    (e.setChild i c).children = e.children.set i c :=
  e.children_withChildren _ (by simp)

theorem Expr.declaredIn_setChild (e : Expr) (i : Nat) (c : Expr) (j : Nat) :
    (e.setChild i c).declaredIn j = e.declaredIn j :=
  e.declaredIn_withChildren (by simp) j

theorem Expr.object?_setChild (e : Expr) (i : Nat) (c : Expr) :
    (e.setChild i c).object? = none ↔ e.object? = none :=
  e.object?_withChildren _

/-- A child of the new root is the new one, or one of the others. -/
theorem Expr.getElem?_setChild {j : Nat} {d : Expr} (h : (e.setChild i c').children[j]? = some d) :
    (j = i ∧ d = c') ∨ (j ≠ i ∧ e.children[j]? = some d) := by
  rw [children_setChild, List.getElem?_set] at h
  grind

theorem Expr.mem_bindsIn_setChild (hc : e.children[i]? = some c)
    (hx : x ∈ c.assigned → x ∈ c'.assigned) (h : x ∈ e.bindsIn i) :
    x ∈ (e.setChild i c').bindsIn i := by
  have hi := (List.getElem?_eq_some_iff.1 hc).1
  have hc' : (e.setChild i c').children[i]? = some c' := by
    rw [children_setChild, List.getElem?_set_self hi]
  rw [mem_bindsIn_iff hc', declaredIn_setChild, Ne, object?_setChild]
  exact ((mem_bindsIn_iff hc).1 h).imp_right (And.imp_right hx)

theorem Expr.mem_assigned_setChild (hc : e.children[i]? = some c)
    (hx : x ∈ c.assigned → x ∈ c'.assigned) (h : x ∈ e.assigned) :
    x ∈ (e.setChild i c').assigned := by
  have ho : e.object? = none := by
    cases e with
    | new => cases h
    | _ => rfl
  have hi := (List.getElem?_eq_some_iff.1 hc).1
  rw [assigned_eq ho] at h
  rw [assigned_eq ((e.object?_setChild i c').2 ho), children_setChild, setChild,
    declares_withChildren]
  rcases List.mem_append.1 h with h | h
  · obtain ⟨d, hd, h⟩ := List.mem_flatMap.1 h
    obtain ⟨j, hj⟩ := List.mem_iff_getElem?.1 hd
    refine List.mem_append_left _ (List.mem_flatMap.2 ?_)
    by_cases hij : i = j
    · obtain rfl : c = d := by simpa [← hij, hc] using hj
      exact ⟨c', List.mem_set hi c', hx h⟩
    · exact ⟨d, List.mem_of_getElem? (i := j) (by rw [List.getElem?_set_ne hij, hj]), h⟩
  · exact List.mem_append_right _ h

/-- A child that is not an object assigns what its expression assigns. -/
theorem Expr.assigned_child_subset (hc : e.children[i]? = some c) (ho : e.object? = none) :
    c.assigned ⊆ e.assigned := by
  intro x hx
  rw [assigned_eq ho]
  exact List.mem_append_left _ (List.mem_flatMap.2 ⟨c, List.mem_of_getElem? hc, hx⟩)

/-- **What one child can free.** -/
theorem Expr.mem_free_setChild (h : x ∈ (e.setChild i c').free) :
    x ∈ e.free ∨ (x ∈ c'.free ∧ x ∉ (e.setChild i c').bindsIn i) := by
  rcases mem_free.1 h with h | ⟨j, d, hd, hx, hbinds⟩
  · rw [setChild, varName?_withChildren] at h
    exact .inl (mem_free.2 (.inl h))
  · rcases getElem?_setChild hd with ⟨rfl, rfl⟩ | ⟨hne, hd'⟩
    · exact .inr ⟨hx, hbinds⟩
    · refine .inl (mem_free.2 (.inr ⟨j, d, hd', hx, fun hbound => hbinds ?_⟩))
      rw [mem_bindsIn_iff hd, declaredIn_setChild, Ne, object?_setChild]
      exact (mem_bindsIn_iff hd').1 hbound

theorem Expr.variables_setChild : (e.setChild i c').variables ⊆ e.variables ++ c'.variables := by
  intro x hx
  rw [List.mem_append]
  rcases mem_variables.1 hx with ⟨d, hd, hxd⟩ | hx
  · obtain ⟨j, hj⟩ := List.mem_iff_getElem?.1 hd
    rcases getElem?_setChild hj with ⟨-, rfl⟩ | ⟨-, hj⟩
    · exact .inr hxd
    · exact .inl (mem_variables_of_child (List.mem_of_getElem? hj) hxd)
  · rw [setChild, named?_withChildren] at hx
    exact .inl (mem_variables.2 (.inr hx))

end

/-! ## One node -/

/-- Whether an expression becomes another one if the node `n` at a path becomes `r`. -/
inductive Expr.Replaces (n r : Expr) : List Nat → Expr → Expr → Prop
  | here : Replaces n r [] n r
  | child {e c c' : Expr} {i : Nat} {path : List Nat} : e.children[i]? = some c →
    Replaces n r path c c' → Replaces n r (i :: path) e (e.setChild i c')

theorem Expr.replaces_of_replaceAt? {e e' n r : Expr} {path : List Nat} (hn : e.at? path = some n)
    (h : e.replaceAt? path r = some e') : Expr.Replaces n r path e e' := by
  induction path generalizing e e' with
  | nil =>
    rw [replaceAt?_nil] at h
    cases hn
    cases h
    exact .here
  | cons i path ih =>
    obtain ⟨c, hc, hn⟩ := Option.bind_eq_some_iff.1 hn
    rw [replaceAt?_cons, hc, Option.bind_some] at h
    obtain ⟨c', hc', rfl⟩ := Option.map_eq_some_iff.1 h
    exact .child hc (ih hn hc')

namespace Expr.Replaces
variable {e e' n r : Expr} {path : List Nat} {x : String}

theorem at?_eq (h : Expr.Replaces n r path e e') : e'.at? path = some r := by
  induction h with
  | here => rfl
  | @child e c c' i path hc _ ih =>
    have hi := (List.getElem?_eq_some_iff.1 hc).1
    rw [Expr.at?, Expr.children_setChild, List.getElem?_set_self hi]
    exact ih

theorem declaredAt_eq (h : Expr.Replaces n r path e e') : e'.declaredAt path = e.declaredAt path := by
  induction h with
  | here => rfl
  | @child e c c' i path hc _ ih =>
    have hi := (List.getElem?_eq_some_iff.1 hc).1
    rw [Expr.declaredAt, Expr.declaredIn_setChild, Expr.children_setChild, List.getElem?_set_self hi,
      Expr.declaredAt, hc, Option.map_some, Option.map_some, ih]

theorem variables_subset (h : Expr.Replaces n r path e e') :
    e'.variables ⊆ e.variables ++ r.variables := by
  induction h with
  | here => exact List.subset_append_right _ _
  | @child e c c' i path hc _ ih =>
    intro x hx
    rw [List.mem_append]
    rcases List.mem_append.1 (Expr.variables_setChild hx) with hx | hx
    · exact .inl hx
    · exact (List.mem_append.1 (ih hx)).imp_left
        (Expr.mem_variables_of_child (List.mem_of_getElem? hc))

/-- What the old node assigns besides the new one is all that can be lost. -/
theorem mem_assigned (h : Expr.Replaces n r path e e') (hassigned : x ∈ n.assigned → x ∈ r.assigned) :
    x ∈ e.assigned → x ∈ e'.assigned := by
  induction h with
  | here => exact hassigned
  | child hc _ ih => exact Expr.mem_assigned_setChild hc ih

/-- A new node that reads less frees nothing, if it assigns as much. -/
theorem mem_free (h : Expr.Replaces n r path e e') (hassigned : x ∈ n.assigned → x ∈ r.assigned)
    (hfree : x ∈ r.free → x ∈ n.free) : x ∈ e'.free → x ∈ e.free := by
  induction h with
  | here => exact hfree
  | @child e c c' i path hc hreplaces ih =>
    intro hx
    rcases Expr.mem_free_setChild hx with hx | ⟨hx, hbinds⟩
    · exact hx
    · refine Expr.mem_free.2 (.inr ⟨i, c, hc, ih hx, fun hbound => hbinds ?_⟩)
      exact Expr.mem_bindsIn_setChild hc (hreplaces.mem_assigned hassigned) hbound

/-- Where a variable is bound by its assignments, a new node may also read what it assigns. -/
theorem mem_free_of_not_mem_assigned (h : Expr.Replaces n r path e e')
    (hassigned : x ∈ n.assigned → x ∈ r.assigned)
    (hfree : x ∈ r.free → x ∉ r.assigned → x ∈ n.free) :
    x ∈ e'.free → x ∉ e'.assigned → x ∈ e.free := by
  induction h with
  | here => exact hfree
  | @child e c c' i path hc hreplaces ih =>
    intro hx hfresh
    rcases Expr.mem_free_setChild hx with hx | ⟨hx, hbinds⟩
    · exact hx
    · have hi := (List.getElem?_eq_some_iff.1 hc).1
      have hc' : (e.setChild i c').children[i]? = some c' := by
        rw [Expr.children_setChild, List.getElem?_set_self hi]
      -- an object literal would bind what the child assigns, and any other node would assign it
      have hxc : x ∉ c'.assigned := by
        cases ho : (e.setChild i c').object? with
        | none => exact fun hxc => hfresh (Expr.assigned_child_subset hc' ho hxc)
        | some o =>
          exact fun hxc => hbinds ((Expr.mem_bindsIn_iff hc').2 (.inr ⟨by simp [ho], hxc⟩))
      refine Expr.mem_free.2 (.inr ⟨i, c, hc, ih hx hxc, fun hbound => hbinds ?_⟩)
      exact Expr.mem_bindsIn_setChild hc (hreplaces.mem_assigned hassigned) hbound

end Expr.Replaces

end GameHop
