import GameHop.Proofs.Inlining.Expansion

/-!
The names that are free after inlining and were not free before. A dissolved object takes the
binders of its fields, parameters and variables with it; where the names are renamed outside methods
only, or have no assignment, they dangle.
-/

namespace GameHop

/-! ## Free names of object literals -/

section
variable {y : String}

theorem Expr.freeInFields_append (bound : List String) (fs gs : List Field) :
    freeInFields bound (fs ++ gs) =
      freeInFields bound fs ++ freeInFields (bound ++ fs.map (·.name.name)) gs := by
  induction fs generalizing bound with
  | nil => simp [freeInFields]
  | cons f fs ih =>
    obtain ⟨s, x, v⟩ := f
    simp [freeInFields, ih, List.append_assoc]

theorem Expr.mem_freeInFields_getElem? {fs : List Field} :
    y ∈ freeInFields [] fs ↔ ∃ i f, fs[i]? = some f ∧ y ∈ f.value.free ∧
      y ∉ (fs.take i).map (·.name.name) ++ f.value.assigned := by
  rw [mem_freeInFields fun _ _ _ => mem_freeIn]
  simp

theorem Expr.mem_freeInFields_append {fs gs : List Field} :
    y ∈ freeInFields [] (fs ++ gs) ↔ y ∈ freeInFields [] fs ∨
      (y ∈ freeInFields [] gs ∧ y ∉ fs.map (·.name.name)) := by
  rw [freeInFields_append, List.mem_append, List.nil_append,
    @Expr.mem_freeInFields_iff y (fs.map _)]

theorem Expr.mem_freeInFields_cons {f : Field} {fs : List Field} :
    y ∈ freeInFields [] (f :: fs) ↔ (y ∈ f.value.free ∧ y ∉ f.value.assigned) ∨
      (y ∈ freeInFields [] fs ∧ y ≠ f.name.name) := by
  obtain ⟨s, x, v⟩ := f
  rw [freeInFields, List.mem_append, mem_freeIn, mem_freeInFields_iff]
  simp

theorem Expr.mem_free_new {s : Span} {o : Object} : y ∈ (new s o).free ↔
    y ∈ freeInFields [] o.fields ∨ (y ∉ o.fieldNames ∧
      ∃ m ∈ o.methods, y ∈ m.body.free ∧ y ∉ m.paramNames ∧ y ∉ m.body.assigned) := by
  obtain ⟨n, fs, ms⟩ := o
  rw [free, freeIn, List.mem_append,
    mem_freeInMethods fun _ _ _ => mem_freeIn, List.nil_append, exists_mem_iff_getElem?]
  simp only [List.mem_append, not_or]
  rfl

theorem Expr.free_unparen (e : Expr) : e.unparen.free = e.free := by
  fun_induction unparen e with
  | case1 s e ih => exact ih
  | case2 => rfl

theorem Expr.assigned_unparen (e : Expr) : e.unparen.assigned = e.assigned := by
  fun_induction unparen e with
  | case1 s e ih => exact ih
  | case2 => rfl

/-- The free names of an object literal in parentheses. -/
theorem Expr.exists_new_of_unparen {e : Expr} {o : Object} (h : e.unparen.object? = some o) :
    ∃ s, e.free = (new s o).free ∧ e.assigned = [] := by
  rw [← free_unparen, ← assigned_unparen]
  cases hu : e.unparen with
  | new s o' =>
    rw [hu] at h
    cases h
    exact ⟨s, rfl, rfl⟩
  | _ => rw [hu] at h; cases h

end

namespace Inlining

/-! ## One lifting -/

/-- **The ways in which the dissolution of an object frees a name.** -/
inductive Lifting.Frees (scope : Scope) (L : Lifting) (y : String) : Prop
  /-- As the new name of a name from around the object, which a callee reads. -/
  | outer {c : Caller} {x : Expansion} {v : String} : c ∈ L.callers → x ∈ c.expansions →
    v ∈ x.callee.body.free → v ∉ x.callee.paramNames → v ∉ x.callee.body.assigned →
    v ∉ L.inner.fieldNames → v ∉ scope.allNames → ((L.site scope).names x).apply v = y → Frees scope L y
  /-- As a field, a parameter or a variable that is read in a method of an object that a callee
      makes. -/
  | nested {c : Caller} {x : Expansion} : c ∈ L.callers → x ∈ c.expansions →
    x.callee.body.ReadsInMethod y →
    y ∈ L.inner.fieldNames ∨ y ∈ x.callee.paramNames ∨ y ∈ x.callee.body.assigned → Frees scope L y
  /-- As a field that is read in a method of an object that an initial value makes. -/
  | initial {f : Field} : f ∈ L.inner.fields → f.value.ReadsInMethod y → y ∈ L.inner.fieldNames →
    Frees scope L y
  /-- As a variable that is assigned in an argument without a parameter. -/
  | dropped {c : Caller} {x : Expansion} : c ∈ L.callers → x ∈ c.expansions → x.Drops y →
    Frees scope L y

section
variable {scope : Scope} {L : Lifting} {given : List String} {y : String}

/-- The callee of an expansion is a method of the dissolved object. -/
theorem Lifting.Made.callee_mem (h : L.Made scope given) {c : Caller} (hc : c ∈ L.callers)
    {x : Expansion} (hx : x ∈ c.expansions) : x.callee ∈ L.inner.methods := by
  obtain ⟨_, _, _, _, _, -, -, hcallee⟩ := ((h.callers c hc).stems x hx).invocation
  exact List.mem_of_find?_eq_some hcallee

/-- What the body of a callee frees in the place of the invocation. -/
theorem Lifting.Made.mem_free_spliced (h : L.Made scope given) {c : Caller} (hc : c ∈ L.callers)
    {x : Expansion} (hx : x ∈ c.expansions) (hlifted : y ∉ L.liftedNames)
    (hy : y ∈ ((L.site scope).spliced x).free)
    (hassigned : y ∉ ((L.site scope).expanded x).assigned) (s : Span) :
    y ∈ (Expr.new s L.inner).free ∨ L.Frees scope y := by
  have hcallee := h.callee_mem hc hx
  -- the new name of what the callee binds is assigned
  have hbinds : ∀ v, ((L.site scope).names x).apply v = y →
      v ∉ x.callee.paramNames ∧ v ∉ x.callee.body.assigned := by
    intro v hv
    rw [← not_or]
    exact fun hmem => hassigned (CallSite.mem_assigned_expanded.2 (.inr ⟨v, hmem, hv⟩))
  have hinner : y ∈ x.callee.body.free → y ∉ L.inner.fieldNames → y ∉ x.callee.paramNames →
      y ∉ x.callee.body.assigned → y ∈ (Expr.new s L.inner).free := by
    intro hfree hfield hparam hassigned
    exact Expr.mem_free_new.2 (.inr ⟨hfield, x.callee, hcallee, hfree, hparam, hassigned⟩)
  rcases Expr.mem_free_rename hy with ⟨v, -, hv⟩ | ⟨hfree, hnone⟩ | ⟨hreads, hsome⟩
  · obtain ⟨hparam, hassigned⟩ := hbinds v (Renaming.apply_of_lookup hv)
    rcases CallSite.lookup_names hv with ⟨hvar, -⟩ | ⟨-, hfield⟩
    · rcases h.mem_variables.1 hvar with hvar | ⟨hfree, hfield, hglobal⟩
      · exact absurd hvar hparam
      · exact .inr (.outer hc hx hfree hparam hassigned hfield hglobal (Renaming.apply_of_lookup hv))
    · exact absurd (h.mem_liftedNames hfield) hlifted
  · obtain ⟨hparam, hassigned⟩ := hbinds y (Renaming.apply_of_lookup_eq_none hnone)
    have hfield := h.lookup_eq_none.1 (CallSite.lookup_names_eq_none.1 hnone).2
    exact .inl (hinner hfree hfield hparam hassigned)
  · by_cases hown : y ∈ L.inner.fieldNames ∨ y ∈ x.callee.paramNames ∨ y ∈ x.callee.body.assigned
    · exact .inr (.nested hc hx hreads hown)
    · simp only [not_or] at hown
      obtain ⟨hfield, hparam, hassigned⟩ := hown
      have hvar : y ∈ (L.site scope).variables x.callee := by
        by_contra hvar
        exact hsome (CallSite.lookup_names_eq_none.2 ⟨hvar, h.lookup_eq_none.2 hfield⟩)
      obtain ⟨hfree, -, -⟩ := (h.mem_variables.1 hvar).resolve_left hparam
      exact .inl (hinner hfree hfield hparam hassigned)

/-- What the initial value of a lifted field frees. -/
theorem Lifting.Made.mem_free_lifted (h : L.Made scope given)
    (hy : y ∈ Expr.freeInFields [] L.lifted) (s : Span) :
    y ∈ (Expr.new s L.inner).free ∨ L.Frees scope y := by
  obtain ⟨i, f, hf, hy, hbinds⟩ := Expr.mem_freeInFields_getElem?.1 hy
  obtain ⟨f₀, hf₀, hvalue⟩ := h.lifted.values i f hf
  rw [List.append_nil] at hvalue
  have hlength : (L.lifted.take i).length = (L.inner.fields.take i).length := by
    simp [h.lifted.length]
  rw [hvalue, Expr.assigned_rename, List.mem_append, not_or] at hbinds
  rw [hvalue] at hy
  rcases Expr.mem_free_rename hy with ⟨v, -, hv⟩ | ⟨hfree, hnone⟩ | ⟨hreads, hsome⟩
  · exact absurd (mem_of_lookup_pairNames hv) hbinds.1
  · refine .inl (Expr.mem_free_new.2 (.inl (Expr.mem_freeInFields_getElem?.2
      ⟨i, f₀, hf₀, hfree, fun hmem => ?_⟩)))
    rcases List.mem_append.1 hmem with hmem | hassigned
    · exact (lookup_pairNames_eq_none hlength).1 hnone hmem
    · exact hbinds.2 (List.mem_map.2 ⟨y, hassigned, Renaming.apply_of_lookup_eq_none hnone⟩)
  · rw [Ne, lookup_pairNames_eq_none hlength, not_not] at hsome
    have hfield : y ∈ L.inner.fieldNames := List.map_subset _ (List.take_subset _ _) hsome
    exact .inr (.initial (List.mem_of_getElem? hf₀) hreads hfield)

/-- **What one lifting frees.** -/
theorem Lifting.Made.mem_free (h : L.Made scope given) {s : Span} {n : Option Ident}
    (hy : y ∈ (Expr.new s (L.result n)).free) :
    y ∈ (Expr.new s (L.object n)).free ∨ L.Frees scope y := by
  obtain ⟨hfields, hmethods⟩ := isReferenced_eq_false.1 h.unread
  obtain ⟨s', hvalue, hnone⟩ := Expr.exists_new_of_unparen h.object
  -- what is free in the dissolved object is free around it, if no field before binds it
  have hinner : y ∉ L.before.map (·.name.name) → y ∈ (Expr.new s' L.inner).free →
      y ∈ (Expr.new s (L.object n)).free := by
    intro hbefore hy
    refine Expr.mem_free_new.2 (.inl (Expr.mem_freeInFields_append.2 (.inr ⟨?_, hbefore⟩)))
    exact Expr.mem_freeInFields_cons.2 (.inl ⟨hvalue ▸ hy, by simp [hnone]⟩)
  rcases Expr.mem_free_new.1 hy with hy | ⟨hnames, m, hm, hy, hparam, hassigned⟩
  · rcases Expr.mem_freeInFields_append.1 hy with hy | ⟨hy, hbefore⟩
    · exact .inl (Expr.mem_free_new.2 (.inl (Expr.mem_freeInFields_append.2 (.inl hy))))
    rcases Expr.mem_freeInFields_append.1 hy with hy | ⟨hy, -⟩
    · exact (h.mem_free_lifted hy s').imp_left (hinner hbefore)
    · have hne : y ≠ L.field.name.name := by
        rintro rfl
        obtain ⟨i, f, hf, hy, -⟩ := Expr.mem_freeInFields_getElem?.1 hy
        exact hfields f (List.mem_append_right _ (List.mem_of_getElem? hf)) hy
      exact .inl (Expr.mem_free_new.2 (.inl (Expr.mem_freeInFields_append.2
        (.inr ⟨Expr.mem_freeInFields_cons.2 (.inr ⟨hy, hne⟩), hbefore⟩))))
  · obtain ⟨c, hc, rfl⟩ := List.mem_map.1 hm
    have hne : y ≠ L.field.name.name := by
      rintro rfl
      exact hparam (hmethods _ hm hy)
    simp only [result, Object.fieldNames, List.map_append, List.mem_append, not_or] at hnames
    obtain ⟨hbefore, hlifted, hafter⟩ := hnames
    rcases (h.callers c hc).expands.mem_free hy hassigned with
      ⟨hy, hassigned⟩ | ⟨x, hx, hdrops | ⟨hy, hassigned⟩⟩
    · refine .inl (Expr.mem_free_new.2 (.inr ⟨?_, c.method, List.mem_map_of_mem hc, hy, hparam,
        hassigned⟩))
      simp [Lifting.object, Object.fieldNames, hbefore, hne, hafter]
    · exact .inr (.dropped hc hx hdrops)
    · exact (h.mem_free_spliced hc hx hlifted hy hassigned s').imp_left (hinner hbefore)

/-- **What a chain of liftings frees.** -/
theorem Inlines.mem_free {t t' : Expr} {given given' : List String} {Ls : List Lifting}
    (h : Inlines scope t given Ls t' given') (hy : y ∈ t'.free) :
    y ∈ t.free ∨ ∃ L ∈ Ls, L.Frees scope y := by
  induction h with
  | done => exact .inl hy
  | @step L Ls t t' t'' s n given given' hnode hmade hreplace _ ih =>
    rcases ih hy with hy | ⟨L', hL', hfrees⟩
    · by_cases hfrees : L.Frees scope y
      · exact .inr ⟨L, .head _, hfrees⟩
      · have hreplaces := Expr.replaces_of_replaceAt? hnode hreplace
        refine .inl (hreplaces.mem_free (fun hnew => nomatch hnew) (fun hnew => ?_) hy)
        exact (hmade.mem_free hnew).resolve_right hfrees
    · exact .inr ⟨L', .tail _ hL', hfrees⟩

end

end Inlining

/-- **The names that inlining frees.** A name that is free afterwards was free before, or one of the
    dissolved objects frees it: as the new name of a name from around the object, as a name of the
    object that is read in a method inside it, or as a variable whose assignment is gone. -/
theorem Expr.mem_free_inlineObjects {scope : Scope} {names : List String} {e e' : Expr}
    (h : e.inlineObjects scope names = .ok e') :
    ∃ Ls given, Inlining.Inlines scope e names Ls e' given ∧
      ∀ y ∈ e'.free, y ∈ e.free ∨ ∃ L ∈ Ls, L.Frees scope y := by
  obtain ⟨Ls, given, hLs⟩ := Expr.inlines_of_inlineObjects h
  exact ⟨Ls, given, hLs, fun y hy => hLs.mem_free hy⟩

/-- `new (z = w, o = new (a = 1) { method f(x) { x; a; z } }) { method g() { o.f(2) } }`, where `z`
    becomes `l_1` and `w` stays free. -/
theorem Expr.mem_free_inlineObjects_outer :
    let seq (a b : Expr) : Expr := .seq .nowhere a b
    let e := Expr.literal
      [.plain "z" (.var "w"), .plain "o" (.literal [.plain "a" (.ofNat 1)]
        [.plain "f" ["x"] (seq (.var "x") (seq (.var "a") (.var "z")))])]
      [.plain "g" [] (.invocation "o" "f" [.ofNat 2])]
    e.free = ["w"] ∧ ∃ e', e.inlineObjects .empty [] = .ok e' ∧ e'.free = ["w", "l_1"] ∧
      ∃ Ls given, Inlining.Inlines .empty e [] Ls e' given ∧
        ∀ y ∈ e'.free, y ∈ e.free ∨ ∃ L ∈ Ls, L.Frees .empty y :=
  ⟨rfl, _, rfl, rfl, Expr.mem_free_inlineObjects rfl⟩

/-- Inlining frees names that were not free, one for each way: the new name of a field `z` around the
    object; a field `k` that is read in a method of an object that a callee makes, or that an initial
    value makes; and a variable `t` that is assigned in an argument without a parameter. -/
theorem Expr.free_inlineObjects_not_subset :
    let seq (a b : Expr) : Expr := .seq .nowhere a b
    let reader := Expr.literal [] [.plain "h" [] (.var "k")]
    let outer := Expr.literal
      [.plain "z" (.ofNat 1), .plain "o" (.literal [] [.plain "f" [] (.var "z")])]
      [.plain "g" [] (.invocation "o" "f" [])]
    let nested := Expr.literal
      [.plain "o" (.literal [.plain "k" (.ofNat 1)] [.plain "f" [] reader])]
      [.plain "g" [] (.invocation "o" "f" [])]
    let initial := Expr.literal
      [.plain "o" (.literal [.plain "k" (.ofNat 1), .plain "j" (seq (.ofNat 1) reader)] [])] []
    let dropped := Expr.literal
      [.plain "o" (.literal [] [.plain "f" [] (.ofNat 1)])]
      [.plain "g" [] (seq (.invocation "o" "f" [.assign .nowhere (.plain "t") (.ofNat 5)])
        (.var "t"))]
    let frees (e : Expr) (y : String) : Prop :=
      e.free = [] ∧ ∃ e', e.inlineObjects .empty [] = .ok e' ∧ e'.free = [y]
    frees outer "l_0" ∧ frees nested "k" ∧ frees initial "k" ∧ frees dropped "t" :=
  ⟨⟨rfl, _, rfl, rfl⟩, ⟨rfl, _, rfl, rfl⟩, ⟨rfl, _, rfl, rfl⟩, ⟨rfl, _, rfl, rfl⟩⟩

end GameHop
