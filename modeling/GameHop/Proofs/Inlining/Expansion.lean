import GameHop.Proofs.Inlining.Names

/-!
What stands in the place of an expanded invocation: assignments of the arguments to the new names of
the parameters, and then the body of the callee under its new names.
-/

namespace GameHop.Inlining

/-! ## Assignments before an expression -/

section
variable (as : List (String × Expr)) (e : Expr)

theorem variables_assignThen : (assignThen as e).variables =
    as.flatMap (fun a => a.2.variables ++ [a.1]) ++ e.variables := by
  induction as with
  | nil => rfl
  | cons a as ih =>
    rw [List.flatMap_cons, List.append_assoc, ← ih]
    exact (Expr.variables_seq _ _ _).trans (by rw [Expr.variables_assign]; rfl)

theorem assigned_assignThen : (assignThen as e).assigned =
    as.flatMap (fun a => a.2.assigned ++ [a.1]) ++ e.assigned := by
  induction as with
  | nil => rfl
  | cons a as ih =>
    rw [List.flatMap_cons, List.append_assoc, ← ih]
    rfl

theorem free_assignThen : (assignThen as e).free = as.flatMap (·.2.free) ++ e.free := by
  induction as with
  | nil => rfl
  | cons a as ih =>
    rw [List.flatMap_cons, List.append_assoc, ← ih]
    rfl

theorem at?_assignThen (q : List Nat) :
    (assignThen as e).at? (List.replicate as.length 1 ++ q) = e.at? q := by
  induction as with
  | nil => rfl
  | cons a as ih => exact ih

theorem declaredAt_assignThen (q : List Nat) :
    (assignThen as e).declaredAt (List.replicate as.length 1 ++ q) = e.declaredAt q := by
  induction as with
  | nil => rfl
  | cons a as ih => exact ih

end

/-! ## Expanded invocations -/

/-- The place of the body of the callee in an expanded invocation. -/
def Expansion.bodyPath (x : Expansion) : List Nat :=
  0 :: List.replicate x.callee.paramNames.length 1

/-- The place in the calling method, after the expansion, of a place in the body of the callee. -/
def Expansion.place (x : Expansion) (q : List Nat) : List Nat :=
  x.path ++ (x.bodyPath ++ q)

/-- Whether an argument without a parameter assigns a name. -/
def Expansion.Drops (x : Expansion) (y : String) : Prop :=
  ∃ a ∈ x.args.drop x.callee.paramNames.length, y ∈ a.assigned

namespace CallSite
variable {site : CallSite} {x : Expansion} {y : String}

theorem at?_expanded (q : List Nat) :
    (site.expanded x).at? (x.bodyPath ++ q) = (site.spliced x).at? q := by
  have h := at?_assignThen (site.assignments x) (site.spliced x) q
  rwa [assignments, List.length_mapIdx] at h

theorem declaredAt_expanded (q : List Nat) :
    (site.expanded x).declaredAt (x.bodyPath ++ q) = (site.spliced x).declaredAt q := by
  have h := declaredAt_assignThen (site.assignments x) (site.spliced x) q
  rwa [assignments, List.length_mapIdx] at h

/-- A parameter is assigned the argument at its position. -/
theorem mem_assignments {a : String × Expr} : a ∈ site.assignments x ↔
    ∃ (i : Nat) (p : String), x.callee.paramNames[i]? = some p ∧
      a = ((site.names x).apply p, x.args[i]?.getD (.ofNat 0)) := by
  simp only [assignments, List.mem_mapIdx, List.getElem?_eq_some_iff]
  constructor
  · rintro ⟨i, hi, rfl⟩
    exact ⟨i, _, ⟨hi, rfl⟩, rfl⟩
  · rintro ⟨i, p, ⟨hi, rfl⟩, rfl⟩
    exact ⟨i, hi, rfl⟩

theorem mem_variables_expanded (h : y ∈ (site.expanded x).variables) :
    (∃ a ∈ x.args, y ∈ a.variables) ∨ y ∈ (site.newNames x).map (·.2) ∨
      y ∈ (site.spliced x).variables := by
  rw [expanded, Expr.variables_paren, variables_assignThen, List.mem_append, List.mem_flatMap] at h
  rcases h with ⟨a, ha, h⟩ | h
  · obtain ⟨i, p, hp, rfl⟩ := mem_assignments.1 ha
    rcases List.mem_append.1 h with h | h
    · cases hi : x.args[i]? with
      | none => simp [hi, Expr.ofNat] at h
      | some a => exact .inl ⟨a, List.mem_of_getElem? hi, by simpa [hi] using h⟩
    · have hvar : p ∈ site.variables x.callee := mem_variables.2 (.inl (List.mem_of_getElem? hp))
      obtain ⟨z, hz, heq⟩ := exists_newName hvar
      rw [List.mem_singleton.1 h, heq]
      exact .inr (.inl (mem_of_lookup_newNames hz))
  · exact .inr (.inr h)

theorem mem_assigned_expanded : y ∈ (site.expanded x).assigned ↔
    (∃ a ∈ x.args.take x.callee.paramNames.length, y ∈ a.assigned) ∨
      ∃ v, (v ∈ x.callee.paramNames ∨ v ∈ x.callee.body.assigned) ∧ (site.names x).apply v = y := by
  have hassigned : (site.expanded x).assigned =
      (site.assignments x).flatMap (fun a => a.2.assigned ++ [a.1]) ++ (site.spliced x).assigned :=
    assigned_assignThen _ _
  rw [hassigned, List.mem_append, List.mem_flatMap, spliced, Expr.assigned_rename, List.mem_map]
  constructor
  · rintro (⟨a, ha, h⟩ | ⟨v, hv, rfl⟩)
    · obtain ⟨i, p, hp, rfl⟩ := mem_assignments.1 ha
      rcases List.mem_append.1 h with h | h
      · cases hi : x.args[i]? with
        | none => simp [hi, Expr.ofNat, Expr.assigned] at h
        | some a =>
          have hlt := (List.getElem?_eq_some_iff.1 hp).1
          refine .inl ⟨a, List.mem_of_getElem? (i := i) ?_, by simpa [hi] using h⟩
          rw [List.getElem?_take_of_lt hlt, hi]
      · exact .inr ⟨p, .inl (List.mem_of_getElem? hp), (List.mem_singleton.1 h).symm⟩
    · exact .inr ⟨v, .inr hv, rfl⟩
  · rintro (⟨a, ha, h⟩ | ⟨v, hv | hv, rfl⟩)
    · obtain ⟨i, hi⟩ := List.mem_iff_getElem?.1 ha
      rw [List.getElem?_take] at hi
      split at hi
      · rename_i hlt
        refine .inl ⟨_, mem_assignments.2 ⟨i, _, List.getElem?_eq_getElem hlt, rfl⟩, ?_⟩
        exact List.mem_append_left _ (by simpa [hi] using h)
      · cases hi
    · obtain ⟨i, hi⟩ := List.mem_iff_getElem?.1 hv
      exact .inl ⟨_, mem_assignments.2 ⟨i, v, hi, rfl⟩, List.mem_append_right _ (by simp)⟩
    · exact .inr ⟨v, hv, rfl⟩

theorem mem_free_expanded (h : y ∈ (site.expanded x).free) :
    (∃ a ∈ x.args, y ∈ a.free) ∨ y ∈ (site.spliced x).free := by
  have hfree : (site.expanded x).free =
      (site.assignments x).flatMap (·.2.free) ++ (site.spliced x).free := free_assignThen _ _
  rw [hfree, List.mem_append, List.mem_flatMap] at h
  rcases h with ⟨a, ha, h⟩ | h
  · obtain ⟨i, p, -, rfl⟩ := mem_assignments.1 ha
    cases hi : x.args[i]? with
    | none => simp [hi, Expr.ofNat, Expr.free, Expr.freeIn] at h
    | some a => exact .inl ⟨a, List.mem_of_getElem? hi, by simpa [hi] using h⟩
  · exact .inr h

/-! ## Chains of expansions -/

variable {s : List String} {t t' : Expr} {xs : List Expansion}

/-- An expansion in a chain: the chain before it leads to the body that it acts on. -/
theorem Expands.split {as bs : List Expansion} (h : site.Expands t s (as ++ x :: bs) t') :
    site.Expands t s as x.before := by
  induction as generalizing t s with
  | nil =>
    cases h with
    | step => exact .done _ _
  | cons a as ih =>
    cases h with
    | step hnode htarget hcallee hreplace h => exact .step hnode htarget hcallee hreplace (ih h)

/-- An expansion in a chain replaces a node. -/
theorem Expands.replaces (h : site.Expands t s xs t') : ∀ x ∈ xs, ∃ n u,
    x.before.replaceAt? x.path (site.expanded x) = some u ∧
      Expr.Replaces n (site.expanded x) x.path x.before u := by
  induction h with
  | done => exact List.forall_mem_nil _
  | @step x xs t t' target sp m cs hnode htarget hcallee hreplace _ ih =>
    exact List.forall_mem_cons.2 ⟨⟨_, t, hreplace, Expr.replaces_of_replaceAt? hnode hreplace⟩, ih⟩

/-- A place in the body of a callee after the expansion. -/
theorem namedAt?_of_replaces {n u : Expr}
    (h : Expr.Replaces n (site.expanded x) x.path x.before u) (q : List Nat) :
    u.namedAt? (x.place q) = (site.spliced x).namedAt? q := by
  rw [Expr.namedAt?, Expansion.place, Expr.at?_append, h.at?_eq, Option.bind_some, at?_expanded, Expr.namedAt?]

/-- What is declared around a place in the body of a callee after the expansion. -/
theorem declaredAt_of_replaces {n u : Expr}
    (h : Expr.Replaces n (site.expanded x) x.path x.before u) (q : List Nat) :
    u.declaredAt (x.place q) = x.before.declaredAt x.path ++ x.callee.body.declaredAt q := by
  rw [Expansion.place, Expr.declaredAt_append, h.declaredAt_eq, h.at?_eq, Option.map_some, Option.getD_some,
    declaredAt_expanded, spliced, Expr.declaredAt_rename]

/-- The names in a method after expansions: those before, new names, and those in the bodies of the
    callees. -/
theorem Expands.mem_variables (h : site.Expands t s xs t') (hy : y ∈ t'.variables) :
    y ∈ t.variables ∨ ∃ x ∈ xs, y ∈ (site.newNames x).map (·.2) ∨ y ∈ (site.spliced x).variables := by
  induction h with
  | done => exact .inl hy
  | @step x xs t t' target sp m cs hnode htarget hcallee hreplace _ ih =>
    rcases ih hy with hy | ⟨x', hx', hy⟩
    · have hreplaces := Expr.replaces_of_replaceAt? hnode hreplace
      rcases List.mem_append.1 (hreplaces.variables_subset hy) with hy | hy
      · exact .inl hy
      · rcases mem_variables_expanded hy with ⟨a, ha, hy⟩ | hy
        · refine .inl (Expr.mem_variables_of_at? hnode ?_)
          rw [Expr.variables_invoke]
          exact List.mem_append_right _ (List.mem_flatMap.2 ⟨a, ha, hy⟩)
        · exact .inr ⟨x, .head _, hy⟩
    · exact .inr ⟨x', .tail _ hx', hy⟩

/-- An assignment in the body of a method stays, unless it is in an argument that is gone. -/
theorem mem_assigned_of_invoke {target : Expr} {sp : Span} {m : Ident} {cs : List Ident}
    (htarget : target.varName? = some site.field) (hdrops : ¬ x.Drops y)
    (hy : y ∈ (Expr.invoke sp target m cs x.args).assigned) : y ∈ (site.expanded x).assigned := by
  obtain ⟨i, n, rfl, -⟩ := Expr.eq_lookup_of_varName? htarget
  rw [Expr.assigned, Expr.assignedList_eq, Expr.assigned, List.nil_append, List.mem_flatMap] at hy
  obtain ⟨a, ha, hy⟩ := hy
  rw [← List.take_append_drop x.callee.paramNames.length x.args, List.mem_append] at ha
  rcases ha with ha | ha
  · exact mem_assigned_expanded.2 (.inl ⟨a, ha, hy⟩)
  · exact absurd ⟨a, ha, hy⟩ hdrops

theorem Expands.mem_assigned (h : site.Expands t s xs t') (hdrops : ∀ x ∈ xs, ¬ x.Drops y)
    (hy : y ∈ t.assigned) : y ∈ t'.assigned := by
  induction h with
  | done => exact hy
  | @step x xs t t' target sp m cs hnode htarget hcallee hreplace _ ih =>
    rw [List.forall_mem_cons] at hdrops
    have hreplaces := Expr.replaces_of_replaceAt? hnode hreplace
    exact ih hdrops.2 (hreplaces.mem_assigned (mem_assigned_of_invoke htarget hdrops.1) hy)

/-- **What expansions can free in a method**: a name in the body of a callee that is not assigned
    there, or one whose assignment is gone. -/
theorem Expands.mem_free (h : site.Expands t s xs t') (hy : y ∈ t'.free) (hassigned : y ∉ t'.assigned) :
    (y ∈ t.free ∧ y ∉ t.assigned) ∨ ∃ x ∈ xs, x.Drops y ∨
      (y ∈ (site.spliced x).free ∧ y ∉ (site.expanded x).assigned) := by
  induction h with
  | done => exact .inl ⟨hy, hassigned⟩
  | @step x xs t t' target sp m cs hnode htarget hcallee hreplace _ ih =>
    rcases ih hy hassigned with ⟨hy, hassigned⟩ | ⟨x', hx', hy⟩
    · -- the name is free after the first expansion; if that does not free it, it was free before
      by_cases hdrops : x.Drops y
      · exact .inr ⟨x, .head _, .inl hdrops⟩
      by_cases hspliced : y ∈ (site.spliced x).free ∧ y ∉ (site.expanded x).assigned
      · exact .inr ⟨x, .head _, .inr hspliced⟩
      have hreplaces := Expr.replaces_of_replaceAt? hnode hreplace
      have hkept : y ∈ (Expr.invoke sp target m cs x.args).assigned →
          y ∈ (site.expanded x).assigned := mem_assigned_of_invoke htarget hdrops
      refine .inl ⟨hreplaces.mem_free_of_not_mem_assigned hkept (fun hfree hfresh => ?_) hy hassigned,
        fun hbefore => hassigned (hreplaces.mem_assigned hkept hbefore)⟩
      rcases mem_free_expanded hfree with ⟨a, ha, hya⟩ | hbody
      · rw [Expr.free, Expr.freeIn, Expr.freeInList_eq]
        exact List.mem_append_right _ (List.mem_flatMap.2 ⟨a, ha, hya⟩)
      · exact absurd ⟨hbody, hfresh⟩ hspliced
    · exact .inr ⟨x', .tail _ hx', hy⟩

end CallSite

end GameHop.Inlining
