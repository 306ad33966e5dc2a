import GameHop.Proofs.Term.Visits
import GameHop.Term.Substitution

/-!
Renamed expressions. Renaming acts on each place outside the methods of object literals, whatever
binds the name there, and leaves the other places alone (`Expr.namedAt?_rename`).
-/

namespace GameHop

/-! ## Places of names -/

/-- The name that is read or assigned at a path. -/
def Expr.namedAt? (e : Expr) (path : List Nat) : Option String :=
  (e.at? path).bind Expr.named?

theorem Expr.mem_variables_iff {e : Expr} {x : String} :
    x ∈ e.variables ↔ ∃ path, e.namedAt? path = some x := by
  induction e using inductNode with
  | step e ih =>
    rw [mem_variables]
    constructor
    · rintro (⟨c, hc, hx⟩ | hx)
      · obtain ⟨i, hi⟩ := List.mem_iff_getElem?.1 hc
        obtain ⟨path, hpath⟩ := (ih c hc).1 hx
        exact ⟨i :: path, by simpa [namedAt?, at?, hi] using hpath⟩
      · exact ⟨[], hx⟩
    · rintro ⟨path, hpath⟩
      cases path with
      | nil => exact .inr hpath
      | cons i path =>
        cases hi : e.children[i]? with
        | none => simp [namedAt?, at?, hi] at hpath
        | some c =>
          have hc := List.mem_of_getElem? hi
          refine .inl ⟨c, hc, (ih c hc).2 ⟨path, ?_⟩⟩
          simpa [namedAt?, at?, hi] using hpath

theorem Expr.mem_variables_of_at? {e n : Expr} {path : List Nat} {x : String}
    (hn : e.at? path = some n) (hx : x ∈ n.variables) : x ∈ e.variables := by
  obtain ⟨q, hq⟩ := mem_variables_iff.1 hx
  refine mem_variables_iff.2 ⟨path ++ q, ?_⟩
  rw [namedAt?, at?_append, hn]
  exact hq

/-- Whether a name is read in a method of an object literal. -/
def Expr.ReadsInMethod (e : Expr) (x : String) : Prop :=
  ∃ path, (e.at? path).bind Expr.varName? = some x ∧ e.entersMethod path = true

theorem Expr.exists_read_of_mem_free {e : Expr} {x : String} (hx : x ∈ e.free) :
    ∃ path, (e.at? path).bind varName? = some x := by
  induction e using inductNode with
  | step e ih =>
    rcases mem_free.1 hx with hx | ⟨i, c, hc, hx, -⟩
    · exact ⟨[], hx⟩
    · obtain ⟨path, hpath⟩ := ih c (List.mem_of_getElem? hc) hx
      exact ⟨i :: path, by simpa [at?, hc] using hpath⟩

theorem Expr.readsInMethod_child {e c : Expr} {i : Nat} {x : String}
    (hc : e.children[i]? = some c) (hx : c.ReadsInMethod x) : e.ReadsInMethod x := by
  obtain ⟨path, hpath, henters⟩ := hx
  exact ⟨i :: path, by simpa [at?, hc] using hpath, by simp [entersMethod, hc, henters]⟩

theorem Expr.readsInMethod_body {e c : Expr} {i : Nat} {x : String}
    (hc : e.children[i]? = some c) (hi : e.isBody i = true) (hx : x ∈ c.free) :
    e.ReadsInMethod x := by
  obtain ⟨path, hpath⟩ := exists_read_of_mem_free hx
  exact ⟨i :: path, by simpa [at?, hc] using hpath, by simp [entersMethod, hi]⟩

theorem Expr.mem_bindsIn_iff {e c : Expr} {i : Nat} {x : String} (hc : e.children[i]? = some c) :
    x ∈ e.bindsIn i ↔ x ∈ e.declaredIn i ∨ (e.object? ≠ none ∧ x ∈ c.assigned) := by
  cases e with
  | new s o => simp [bindsIn, declaredIn, object?, hc]
  | _ => simp [bindsIn, declaredIn, object?]

/-! ## Renaming by children -/

/-- The new name of a name; a name without a new one keeps its own. -/
def Renaming.apply (names : Renaming) (x : String) : String :=
  (names.lookup x).getD x

theorem Expr.varName?_withChildren (e : Expr) (cs : List Expr) :
    (e.withChildren cs).varName? = e.varName? := by
  unfold withChildren
  split <;> rfl

theorem Expr.named?_withChildren (e : Expr) (cs : List Expr) :
    (e.withChildren cs).named? = e.named? := by
  unfold withChildren
  split <;> rfl

theorem Expr.declares_withChildren (e : Expr) (cs : List Expr) :
    (e.withChildren cs).declares = e.declares := by
  unfold withChildren
  split <;> rfl

theorem Expr.object?_withChildren (e : Expr) (cs : List Expr) :
    (e.withChildren cs).object? = none ↔ e.object? = none := by
  unfold withChildren
  split <;> simp [object?]

section
variable (names : Renaming) (e : Expr)

/-! The root alone. -/

theorem Expr.children_renameRoot : (e.renameRoot names).children = e.children := by
  cases e <;> rfl

theorem Expr.named?_renameRoot : (e.renameRoot names).named? = e.named?.map names.apply := by
  cases e <;> rfl

theorem Expr.varName?_renameRoot : (e.renameRoot names).varName? = e.varName?.map names.apply := by
  cases e <;> rfl

theorem Expr.declares_renameRoot : (e.renameRoot names).declares = e.declares.map names.apply := by
  cases e <;> rfl

theorem Expr.object?_renameRoot : (e.renameRoot names).object? = e.object? := by
  cases e <;> rfl

theorem Expr.declaredIn_renameRoot (i : Nat) :
    (e.renameRoot names).declaredIn i = e.declaredIn i := by
  cases e <;> rfl

/-! The whole expression. -/

theorem Expr.rename_eq : e.rename names = (e.revisited false
    ((e.children.take (e.visitedChildren false)).map (rename names))).renameRoot names :=
  bottomUp_eq_revisited false _ e

/-- A traversal outside methods acts on the children that are not bodies of methods. -/
theorem Expr.getElem?_children_revisited (g : Expr → Expr) (i : Nat) :
    (e.revisited false ((e.children.take (e.visitedChildren false)).map g)).children[i]? =
      e.children[i]?.map fun c => if e.isBody i then c else g c := by
  have hle := e.visitedChildren_le false
  rw [revisited, children_withChildren _ _ (length_revisited (by simp))]
  cases hc : e.children[i]? with
  | none => simp_all
  | some c =>
    have hi := (List.getElem?_eq_some_iff.1 hc).1
    cases hbody : e.isBody i with
    | false =>
      have hvisited := (isBody_iff hi).1 hbody
      rw [List.getElem?_append_left (by simp; omega)]
      simp [hvisited, hc]
    | true =>
      have hvisited : ¬ i < e.visitedChildren false := by simp [← isBody_iff hi, hbody]
      rw [List.getElem?_append_right (by simp; omega), List.getElem?_drop]
      simp [Nat.min_eq_left hle, Nat.add_sub_of_le (Nat.le_of_not_lt hvisited), hc]

theorem Expr.getElem?_children_rename (i : Nat) :
    (e.rename names).children[i]? =
      e.children[i]?.map fun c => if e.isBody i then c else c.rename names := by
  rw [rename_eq, children_renameRoot, getElem?_children_revisited]

theorem Expr.named?_rename : (e.rename names).named? = e.named?.map names.apply := by
  rw [rename_eq, named?_renameRoot, revisited, named?_withChildren]

theorem Expr.varName?_rename : (e.rename names).varName? = e.varName?.map names.apply := by
  rw [rename_eq, varName?_renameRoot, revisited, varName?_withChildren]

theorem Expr.declares_rename : (e.rename names).declares = e.declares.map names.apply := by
  rw [rename_eq, declares_renameRoot, revisited, declares_withChildren]

theorem Expr.object?_rename : (e.rename names).object? = none ↔ e.object? = none := by
  rw [rename_eq, object?_renameRoot, revisited, object?_withChildren]

theorem Expr.declaredIn_rename (i : Nat) : (e.rename names).declaredIn i = e.declaredIn i := by
  rw [rename_eq, declaredIn_renameRoot, revisited,
    declaredIn_withChildren _ (length_revisited (by simp))]

/-! ## Renaming by places -/

/-- Renaming acts on the places outside methods. -/
theorem Expr.at?_rename (path : List Nat) :
    (e.rename names).at? path =
      (e.at? path).map fun c => if e.entersMethod path then c else c.rename names := by
  induction path generalizing e with
  | nil => simp [at?, entersMethod]
  | cons i path ih =>
    rw [at?, getElem?_children_rename, at?, entersMethod]
    cases e.children[i]? with
    | none => rfl
    | some c =>
      cases e.isBody i with
      | true => simp
      | false => simpa using ih c

/-- **A name outside methods becomes its new name.** -/
theorem Expr.namedAt?_rename (path : List Nat) :
    (e.rename names).namedAt? path =
      (e.namedAt? path).map fun x => if e.entersMethod path then x else names.apply x := by
  rw [namedAt?, at?_rename, namedAt?]
  cases e.at? path with
  | none => rfl
  | some c => cases e.entersMethod path <;> simp [named?_rename]

theorem Expr.declaredAt_rename (path : List Nat) :
    (e.rename names).declaredAt path = e.declaredAt path := by
  induction path generalizing e with
  | nil => rfl
  | cons i path ih =>
    rw [declaredAt, declaredIn_rename, getElem?_children_rename, declaredAt]
    cases e.children[i]? with
    | none => rfl
    | some c => cases e.isBody i <;> simp [ih c]

/-! ## Assigned and free names -/

theorem Expr.assigned_rename : (e.rename names).assigned = e.assigned.map names.apply := by
  induction e using inductNode with
  | step e ih =>
    cases ho : e.object? with
    | none =>
      have hbody : ∀ i, e.isBody i = false := by
        cases e with
        | new => cases ho
        | _ => exact fun _ => rfl
      have hchildren : (e.rename names).children = e.children.map (rename names) := by
        refine List.ext_getElem? fun i => ?_
        simp [getElem?_children_rename, hbody]
      rw [assigned_eq ((e.object?_rename names).2 ho), hchildren, declares_rename,
        assigned_eq ho, List.map_append, List.flatMap_map, List.map_flatMap]
      congr 1
      exact List.flatMap_congr ih
    | some o =>
      cases e with
      | new s o' =>
        obtain ⟨n, fs, ms⟩ := o'
        simp [rename_eq, revisited, withChildren, renameRoot, assigned]
      | _ => cases ho

variable {names e}

theorem Renaming.apply_of_lookup_eq_none {x : String} (h : names.lookup x = none) :
    names.apply x = x := by
  rw [apply, h, Option.getD_none]

theorem Renaming.apply_of_lookup {x y : String} (h : names.lookup x = some y) :
    names.apply x = y := by
  rw [apply, h, Option.getD_some]

/-- **The free names of a renamed expression**: new names, free names without a new one, and names that
    have a new one but are read in a method, where they keep their own. -/
theorem Expr.mem_free_rename {y : String} (hy : y ∈ (e.rename names).free) :
    (∃ x ∈ e.variables, names.lookup x = some y) ∨ (y ∈ e.free ∧ names.lookup y = none) ∨
      (e.ReadsInMethod y ∧ names.lookup y ≠ none) := by
  induction e using inductNode with
  | step e ih =>
    rcases mem_free.1 hy with hy | ⟨i, c', hc', hy, hbinds⟩
    · rw [varName?_rename] at hy
      obtain ⟨x, hx, rfl⟩ := Option.map_eq_some_iff.1 hy
      cases hlookup : names.lookup x with
      | none =>
        rw [Renaming.apply_of_lookup_eq_none hlookup]
        exact .inr (.inl ⟨mem_free.2 (.inl hx), hlookup⟩)
      | some y =>
        rw [Renaming.apply_of_lookup hlookup]
        exact .inl ⟨x, mem_variables_of_varName? hx, hlookup⟩
    · have hchild := e.getElem?_children_rename names i
      rw [hc'] at hchild
      obtain ⟨c, hc, rfl⟩ := Option.map_eq_some_iff.1 hchild.symm
      rw [mem_bindsIn_iff hc', declaredIn_rename, Ne, object?_rename] at hbinds
      have hmem := List.mem_of_getElem? hc
      cases hbody : e.isBody i with
      | true =>
        rw [if_pos hbody] at hy hbinds
        cases hlookup : names.lookup y with
        | none =>
          exact .inr (.inl ⟨mem_free.2 (.inr ⟨i, c, hc, hy, mt (mem_bindsIn_iff hc).1 hbinds⟩),
            rfl⟩)
        | some z =>
          exact .inr (.inr ⟨readsInMethod_body hc hbody hy, Option.some_ne_none z⟩)
      | false =>
        rw [if_neg (Bool.eq_false_iff.1 hbody)] at hy hbinds
        rcases ih c hmem hy with ⟨x, hx, hlookup⟩ | ⟨hy, hlookup⟩ | ⟨hy, hlookup⟩
        · exact .inl ⟨x, mem_variables_of_child hmem hx, hlookup⟩
        · -- a binder without a new name still binds
          have hassigned : y ∈ c.assigned → y ∈ (c.rename names).assigned := fun hyc => by
            rw [assigned_rename, ← Renaming.apply_of_lookup_eq_none hlookup]
            exact List.mem_map_of_mem hyc
          refine .inr (.inl ⟨mem_free.2 (.inr ⟨i, c, hc, hy, fun hbound => hbinds ?_⟩), hlookup⟩)
          exact ((mem_bindsIn_iff hc).1 hbound).imp_right (And.imp_right hassigned)
        · exact .inr (.inr ⟨readsInMethod_child hc hy, hlookup⟩)

end

end GameHop
