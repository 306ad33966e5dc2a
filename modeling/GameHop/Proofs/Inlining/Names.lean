import GameHop.Proofs.Inlining.Trace
import Mathlib.Data.List.Pairwise

/-!
The names that inlining chooses.
-/

namespace GameHop

/-- Whether a name is one of `stem0`, `stem1`, ..., and those before it are taken. -/
def IsNumbered (stem : String) (taken : List String) (x : String) : Prop :=
  ∃ n : Nat, x = stem ++ toString n ∧ ∀ k < n, stem ++ toString k ∈ taken

theorem isNumbered_freshName (stem : String) (taken : List String) :
    IsNumbered stem taken (freshName stem taken) := by
  obtain ⟨n, hn, -, hleast⟩ := firstFree_eq (append_toString_injective stem) taken
  exact ⟨n, hn, hleast⟩

theorem freshName_not_mem (stem : String) (taken : List String) : freshName stem taken ∉ taken :=
  (freshName_spec stem taken).1

theorem IsNumbered.mono {stem : String} {taken taken' : List String} {x : String}
    (h : IsNumbered stem taken x) (hsub : taken ⊆ taken') : IsNumbered stem taken' x := by
  obtain ⟨n, hn, hleast⟩ := h
  exact ⟨n, hn, fun k hk => hsub (hleast k hk)⟩

theorem mem_insertName {x y : String} {ys : List String} :
    x ∈ insertName y ys ↔ x = y ∨ x ∈ ys := by
  induction ys with
  | nil => simp [insertName]
  | cons z ys ih =>
    rw [insertName]
    split
    · simp
    · split
      · simp_all
      · simp [ih, or_left_comm]

theorem mem_sortNames {x : String} {xs : List String} : x ∈ sortNames xs ↔ x ∈ xs := by
  suffices ∀ acc, x ∈ xs.foldl (fun acc x => insertName x acc) acc ↔ x ∈ acc ∨ x ∈ xs by
    simpa [sortNames] using this []
  induction xs with
  | nil => simp
  | cons y xs ih => simp [ih, mem_insertName, or_assoc, or_left_comm]

theorem Scope.mem_allNames_of_declares {s : Scope} {x : String} (h : s.declares x = true) :
    x ∈ s.allNames := by
  obtain ⟨ty, hty⟩ := Option.isSome_iff_exists.1 h
  obtain ⟨f, hf, hx⟩ := List.exists_of_findSome?_eq_some hty
  refine List.mem_flatMap.2 ⟨f, List.mem_reverse.2 hf, ?_⟩
  exact List.mem_map_of_mem (f := (·.1)) (mem_of_lookup hx)

namespace Inlining

/-! ## Variables -/

theorem freshLocals_fst (scope xs : List String) : (freshLocals scope xs).1.map (·.1) = xs := by
  induction xs generalizing scope with
  | nil => rfl
  | cons x xs ih => simp [freshLocals, ih]

/-- **The new names of variables** are different and not in scope, and no smaller number is free. -/
theorem freshLocals_fresh (scope xs : List String) :
    ((freshLocals scope xs).1.map (·.2)).Nodup ∧
      ∀ y ∈ (freshLocals scope xs).1.map (·.2), y ∉ scope ∧
        IsNumbered "l_" (scope ++ (freshLocals scope xs).1.map (·.2)) y := by
  induction xs generalizing scope with
  | nil => simp [freshLocals]
  | cons x xs ih =>
    let z := freshName "l_" scope
    obtain ⟨hnodup, hfresh⟩ := ih (scope ++ [z])
    have hz : z ∉ scope := freshName_not_mem "l_" scope
    simp only [freshLocals, List.map_cons, List.nodup_cons, List.forall_mem_cons]
    -- the later names differ from the first one, which is in scope for them
    refine ⟨⟨fun hmem => (hfresh z hmem).1 (by simp), hnodup⟩, ⟨hz, ?_⟩, fun y hy => ?_⟩
    · exact (isNumbered_freshName "l_" scope).mono (List.subset_append_left _ _)
    · obtain ⟨hy, hnumbered⟩ := hfresh y hy
      refine ⟨fun hmem => hy (List.mem_append_left _ hmem), ?_⟩
      rwa [List.append_assoc] at hnumbered

namespace CallSite
variable {site : CallSite} {x : Expansion} {m : Method} {v y : String}

theorem mem_variables : v ∈ site.variables m ↔
    v ∈ m.paramNames ∨ (v ∈ m.body.free ∧ site.fields.lookup v = none ∧ v ∉ site.globals) := by
  simp [CallSite.variables, mem_sortNames, or_comm]

theorem lookup_newNames_eq_none :
    (site.newNames x).lookup v = none ↔ v ∉ site.variables x.callee := by
  rw [lookup_eq_none_iff_not_mem, newNames, freshLocals_fst]

theorem lookup_names_eq_none : (site.names x).lookup v = none ↔
    v ∉ site.variables x.callee ∧ site.fields.lookup v = none := by
  rw [names, List.lookup_append, Option.or_eq_none_iff, lookup_newNames_eq_none]

/-- What becomes of a name: it gets the new name of a variable, or that of a field. -/
theorem lookup_names (h : (site.names x).lookup v = some y) :
    (v ∈ site.variables x.callee ∧ (site.newNames x).lookup v = some y) ∨
      (v ∉ site.variables x.callee ∧ site.fields.lookup v = some y) := by
  rw [names, List.lookup_append] at h
  cases hv : (site.newNames x).lookup v with
  | none => exact .inr ⟨lookup_newNames_eq_none.1 hv, by simpa [hv] using h⟩
  | some z =>
    have hmem : v ∈ site.variables x.callee := by
      by_contra hmem
      simp [lookup_newNames_eq_none.2 hmem] at hv
    exact .inl ⟨hmem, by simpa [hv] using h⟩

/-- A variable has a new name, which it gets. -/
theorem exists_newName (h : v ∈ site.variables x.callee) :
    ∃ y, (site.newNames x).lookup v = some y ∧ (site.names x).apply v = y := by
  cases hv : (site.newNames x).lookup v with
  | none => exact absurd h (lookup_newNames_eq_none.1 hv)
  | some y => exact ⟨y, rfl, by rw [Renaming.apply, names, List.lookup_append, hv]; rfl⟩

theorem mem_of_lookup_newNames (h : (site.newNames x).lookup v = some y) :
    y ∈ (site.newNames x).map (·.2) :=
  List.mem_map_of_mem (f := (·.2)) (mem_of_lookup h)

/-- Two variables of one method do not get the same new name. -/
theorem newNames_injective {v' : String} (h : (site.newNames x).lookup v = some y)
    (h' : (site.newNames x).lookup v' = some y) : v = v' := by
  have hnodup : ((site.newNames x).map (·.2)).Nodup := (freshLocals_fresh _ _).1
  have hpair := List.inj_on_of_nodup_map hnodup (mem_of_lookup h) (mem_of_lookup h') rfl
  exact congrArg Prod.fst hpair

/-! ## Scopes along a chain of expansions -/

variable {s : List String} {t t' : Expr} {xs : List Expansion}

theorem Expands.scope_subset (h : site.Expands t s xs t') : ∀ x ∈ xs, s ⊆ x.scope := by
  induction h with
  | done => exact List.forall_mem_nil _
  | @step x xs t t' target sp m cs hnode htarget hcallee hreplace _ ih =>
    refine List.forall_mem_cons.2 ⟨List.Subset.refl _, fun x' hx' => ?_⟩
    exact List.Subset.trans (List.subset_append_left _ _) (ih x' hx')

/-- What is in scope for an expansion: what was in scope at first, and new names. -/
theorem Expands.scope_eq (h : site.Expands t s xs t') :
    ∀ x ∈ xs, x.scope ⊆ s ++ xs.flatMap fun x => (site.newNames x).map (·.2) := by
  induction h with
  | done => exact List.forall_mem_nil _
  | @step x xs t t' target sp m cs hnode htarget hcallee hreplace _ ih =>
    refine List.forall_mem_cons.2 ⟨List.subset_append_left _ _, fun x' hx' => ?_⟩
    rw [List.flatMap_cons, ← List.append_assoc]
    exact ih x' hx'

/-- **Expansions in one method have no new name in common.** -/
theorem Expands.disjoint (h : site.Expands t s xs t') :
    xs.Pairwise fun x x' =>
      List.Disjoint ((site.newNames x).map (·.2)) ((site.newNames x').map (·.2)) := by
  induction h with
  | done => exact .nil
  | @step x xs t t' target sp m cs hnode htarget hcallee hreplace hxs ih =>
    refine .cons (fun x' hx' y hy hy' => ?_) ih
    have hscope : y ∈ x'.scope := hxs.scope_subset x' hx' (List.mem_append_right _ hy)
    exact ((freshLocals_fresh _ _).2 y hy').1 hscope

theorem Expands.eq_of_mem_newNames (h : site.Expands t s xs t') {x x' : Expansion} (hx : x ∈ xs)
    (hx' : x' ∈ xs) (hy : y ∈ (site.newNames x).map (·.2))
    (hy' : y ∈ (site.newNames x').map (·.2)) : x = x' := by
  by_contra hne
  have : Std.Symm fun x x' : Expansion =>
      List.Disjoint ((site.newNames x).map (·.2)) ((site.newNames x').map (·.2)) :=
    ⟨fun _ _ hdisjoint _ hy hy' => hdisjoint hy' hy⟩
  exact h.disjoint.forall hx hx' hne hy hy'

end CallSite

/-! ## Fields -/

/-- The new names of fields; of two fields with one name the last counts. -/
def pairNames (fs lifted : List Field) : Renaming :=
  ((fs.map (·.name.name)).zip (lifted.map (·.name.name))).reverse

/-- What lifted fields are. -/
structure Lifted (taken : List String) (names : Renaming) (given : List String)
    (fs lifted : List Field) (names' : Renaming) (given' : List String) : Prop where
  length : lifted.length = fs.length
  pairs : names' = pairNames fs lifted ++ names
  nodup : (lifted.map (·.name.name)).Nodup
  fresh : ∀ y ∈ lifted.map (·.name.name), y ∉ taken ∧
    (y ∈ given ∨ IsNumbered "m_" (taken ++ lifted.map (·.name.name)) y)
  /-- An initial value is renamed by the fields before it. -/
  values : ∀ (i : Nat) (f : Field), lifted[i]? = some f → ∃ f₀, fs[i]? = some f₀ ∧
    f.value = f₀.value.rename (pairNames (fs.take i) (lifted.take i) ++ names)
  given : given' ⊆ given

theorem freshMember_fresh {taken given given' : List String} {x : String}
    (h : (freshMember taken).run given = (x, given')) :
    x ∉ taken ∧ (x ∈ given ∨ IsNumbered "m_" taken x) ∧ given' ⊆ given := by
  cases given with
  | nil =>
    cases h
    exact ⟨freshName_not_mem _ _, .inr (isNumbered_freshName _ _), List.Subset.refl _⟩
  | cons z zs =>
    obtain ⟨hx, rfl⟩ := Prod.mk.inj h
    by_cases hz : z ∈ taken
    · rw [if_pos (List.contains_iff_mem.2 hz)] at hx
      subst hx
      exact ⟨freshName_not_mem _ _, .inr (isNumbered_freshName _ _), List.subset_cons_self _ _⟩
    · rw [if_neg (mt List.contains_iff_mem.1 hz)] at hx
      subst hx
      exact ⟨hz, .inl List.mem_cons_self, List.subset_cons_self _ _⟩

/-- **The new names of fields** are different and not taken. -/
theorem lifted_liftFields {taken given given' : List String} {names names' : Renaming}
    {fs lifted : List Field}
    (h : (liftFields taken names fs).run given = ((lifted, names'), given')) :
    Lifted taken names given fs lifted names' given' := by
  induction fs generalizing taken names given lifted with
  | nil =>
    cases h
    exact ⟨rfl, rfl, .nil, List.forall_mem_nil _, by simp, List.Subset.refl _⟩
  | cons f fs ih =>
    obtain ⟨x, given₁, hx⟩ : ∃ x given₁, (freshMember taken).run given = (x, given₁) := ⟨_, _, rfl⟩
    obtain ⟨rest, names₁, given₂, hrest⟩ : ∃ rest names₁ given₂,
        (liftFields (taken ++ [x]) ((f.name.name, x) :: names) fs).run given₁ =
          ((rest, names₁), given₂) := ⟨_, _, _, rfl⟩
    rw [liftFields, StateT.run_bind, hx] at h
    change ((liftFields (taken ++ [x]) ((f.name.name, x) :: names) fs >>= _).run given₁) = _ at h
    rw [StateT.run_bind, hrest] at h
    cases h
    obtain ⟨hfresh, hgiven, hsub⟩ := freshMember_fresh hx
    have hlifted := ih hrest
    refine ⟨by simp [hlifted.length], ?_, ?_, ?_, ?_, List.Subset.trans hlifted.given hsub⟩
    · simp [hlifted.pairs, pairNames]
    · refine List.nodup_cons.2 ⟨fun hmem => ?_, hlifted.nodup⟩
      exact (hlifted.fresh x hmem).1 (by simp)
    · refine List.forall_mem_cons.2 ⟨⟨hfresh, hgiven.imp_right fun hn => ?_⟩, fun y hy => ?_⟩
      · exact hn.mono (List.subset_append_left _ _)
      · obtain ⟨hy, hgiven⟩ := hlifted.fresh y hy
        refine ⟨fun hmem => hy (List.mem_append_left _ hmem), ?_⟩
        rw [List.append_assoc] at hgiven
        exact hgiven.imp_left fun hmem => hsub hmem
    · intro i f' hf'
      cases i with
      | zero =>
        cases hf'
        exact ⟨f, rfl, by simp [pairNames]⟩
      | succ i =>
        obtain ⟨f₀, hf₀, hvalue⟩ := hlifted.values i f' (by simpa using hf')
        exact ⟨f₀, by simpa using hf₀, by simp [hvalue, pairNames]⟩

theorem lookup_pairNames_eq_none {fs lifted : List Field} (h : lifted.length = fs.length)
    {k : String} : (pairNames fs lifted).lookup k = none ↔ k ∉ fs.map (·.name.name) := by
  rw [lookup_eq_none_iff_not_mem, pairNames, List.map_reverse, List.mem_reverse,
    List.map_fst_zip (by simp [h])]

theorem mem_of_lookup_pairNames {fs lifted : List Field} {k y : String}
    (h : (pairNames fs lifted).lookup k = some y) : y ∈ lifted.map (·.name.name) :=
  (List.of_mem_zip (List.mem_reverse.1 (mem_of_lookup h))).2

namespace Lifting.Made
variable {scope : Scope} {L : Lifting} {given : List String} (h : L.Made scope given)
include h

theorem lifted : Lifted (L.taken scope) [] L.given L.inner.fields L.lifted L.names given :=
  lifted_liftFields h.fields

theorem lookup_eq_none {k : String} : L.names.lookup k = none ↔ k ∉ L.inner.fieldNames := by
  rw [h.lifted.pairs, List.append_nil, lookup_pairNames_eq_none h.lifted.length, Object.fieldNames]

theorem mem_liftedNames {k y : String} (hk : L.names.lookup k = some y) : y ∈ L.liftedNames := by
  rw [h.lifted.pairs, List.append_nil] at hk
  exact mem_of_lookup_pairNames hk

theorem mem_variables {m : Method} {v : String} : v ∈ (L.site scope).variables m ↔
    v ∈ m.paramNames ∨ (v ∈ m.body.free ∧ v ∉ L.inner.fieldNames ∧ v ∉ scope.allNames) := by
  rw [CallSite.mem_variables, ← h.lookup_eq_none]
  rfl

end Lifting.Made

/-- A name that a chain of liftings gives to a field is given before, or is numbered. -/
theorem Inlines.given_subset {scope : Scope} {t t' : Expr} {given given' : List String}
    {Ls : List Lifting} (h : Inlines scope t given Ls t' given') : ∀ L ∈ Ls, L.given ⊆ given := by
  induction h with
  | done => exact List.forall_mem_nil _
  | @step L Ls t t' t'' s n given given' hnode hmade hreplace _ ih =>
    refine List.forall_mem_cons.2 ⟨List.Subset.refl _, fun L' hL' => ?_⟩
    exact List.Subset.trans (ih L' hL') hmade.lifted.given

end Inlining

end GameHop
