import GameHop.Proofs.Term.Core
import GameHop.Term.Names
import Mathlib.Data.List.Nodup
import Mathlib.Data.List.Perm.Subperm

/-!
The variables of an expression: the names that it reads or assigns, bound or not. They are the names
that a substitution acts on (`Expr.core_congr`).
-/

namespace GameHop

theorem Expr.mem_postorder_self (e : Expr) : e ∈ e.postorder := by
  rw [postorder_eq]
  simp

theorem Expr.mem_postorder_of_child {e c n : Expr} (hc : c ∈ e.children) (hn : n ∈ c.postorder) :
    n ∈ e.postorder := by
  rw [postorder_eq]
  exact List.mem_append_left _ (List.mem_flatMap.2 ⟨c, hc, hn⟩)

theorem Expr.postorder_filterMap {α : Type} (f : Expr → Option α) (e : Expr) :
    e.postorder.filterMap f =
      e.children.flatMap (fun c => c.postorder.filterMap f) ++ (f e).toList := by
  rw [postorder_eq, List.filterMap_append, List.filterMap_flatMap]
  cases h : f e <;> simp [h]

/-- The variable that the root reads or assigns. -/
def Expr.named? : Expr → Option String
  | .lookup _ x => some x.name
  | .assign _ x _ => some x.name
  | _ => none

/-- The names that the expression reads or assigns, with repetitions. -/
def Expr.variables (e : Expr) : List String :=
  e.postorder.filterMap Expr.named?

theorem Expr.variables_eq (e : Expr) :
    e.variables = e.children.flatMap Expr.variables ++ e.named?.toList :=
  postorder_filterMap _ e

theorem Expr.mem_variables {e : Expr} {x : String} :
    x ∈ e.variables ↔ (∃ c ∈ e.children, x ∈ c.variables) ∨ e.named? = some x := by
  rw [variables_eq, List.mem_append, List.mem_flatMap, Option.mem_toList]

theorem Expr.mem_variables_of_child {e c : Expr} (hc : c ∈ e.children) {x : String}
    (hx : x ∈ c.variables) : x ∈ e.variables :=
  mem_variables.2 (.inl ⟨c, hc, hx⟩)

theorem Expr.eq_lookup_of_varName? {e : Expr} {x : String} (h : e.varName? = some x) :
    ∃ s i, e = .lookup s i ∧ i.name = x := by
  cases e with
  | lookup s i => exact ⟨s, i, rfl, Option.some.inj h⟩
  | _ => cases h

theorem Expr.mem_variables_of_varName? {e : Expr} {x : String} (h : e.varName? = some x) :
    x ∈ e.variables := by
  refine mem_variables.2 (.inr ?_)
  cases e <;> first | exact h | cases h

section
variable (s : Span)

@[simp] theorem Expr.variables_int (n : UInt64) : (int s n).variables = [] := rfl

@[simp] theorem Expr.variables_bool (b : Bool) : (bool s b).variables = [] := rfl

@[simp] theorem Expr.variables_ellipsis : (ellipsis s).variables = [] := rfl

@[simp] theorem Expr.variables_hole : (hole s).variables = [] := rfl

@[simp] theorem Expr.variables_assert (p : Formula) : (assert s p).variables = [] := rfl

@[simp] theorem Expr.variables_assume (p : Formula) : (assume s p).variables = [] := rfl

@[simp] theorem Expr.variables_lookup (x : Ident) : (lookup s x).variables = [x.name] := rfl

@[simp] theorem Expr.variables_paren (l : Option Ident) (e : Expr) :
    (paren s l e).variables = e.variables := by
  rw [variables_eq]; simp [children, named?]

@[simp] theorem Expr.variables_seq (a b : Expr) :
    (seq s a b).variables = a.variables ++ b.variables := by
  rw [variables_eq]; simp [children, named?]

@[simp] theorem Expr.variables_assign (x : Ident) (e : Expr) :
    (assign s x e).variables = e.variables ++ [x.name] := by
  rw [variables_eq]; simp [children, named?]

@[simp] theorem Expr.variables_ternary (a b c : Expr) :
    (ternary s a b c).variables = a.variables ++ (b.variables ++ c.variables) := by
  rw [variables_eq]; simp [children, named?]

@[simp] theorem Expr.variables_unary (op : UnaryOp) (e : Expr) :
    (unary s op e).variables = e.variables := by
  rw [variables_eq]; simp [children, named?]

@[simp] theorem Expr.variables_binary (op : BinaryOp) (a b : Expr) :
    (binary s op a b).variables = a.variables ++ b.variables := by
  rw [variables_eq]; simp [children, named?]

@[simp] theorem Expr.variables_index (a b : Expr) :
    (index s a b).variables = a.variables ++ b.variables := by
  rw [variables_eq]; simp [children, named?]

@[simp] theorem Expr.variables_update (a b c : Expr) :
    (update s a b c).variables = a.variables ++ (b.variables ++ c.variables) := by
  rw [variables_eq]; simp [children, named?]

@[simp] theorem Expr.variables_call (f : Ident) (args : List Expr) :
    (Expr.call s f args).variables = args.flatMap Expr.variables := by
  rw [variables_eq]; simp [children, named?]

@[simp] theorem Expr.variables_invoke (t : Expr) (m : Ident) (cs : List Ident) (args : List Expr) :
    (Expr.invoke s t m cs args).variables = t.variables ++ args.flatMap Expr.variables := by
  rw [variables_eq]; simp [children, named?]

@[simp] theorem Expr.variables_new (c : Option Ident) (fs : List Field) (ms : List Method) :
    (new s ⟨c, fs, ms⟩).variables =
      fs.flatMap (·.value.variables) ++ ms.flatMap (·.body.variables) := by
  rw [variables_eq]; simp [children, named?, List.flatMap_map]

end

/-! ## Assigned variables -/

/-- The variable that the root of an expression assigns. -/
def Expr.declares : Expr → List String
  | .assign _ x _ => [x.name]
  | _ => []

theorem Expr.assignedList_eq (es : List Expr) :
    assignedList es = es.flatMap assigned := by
  induction es with
  | nil => rfl
  | cons e es ih => rw [assignedList, ih, List.flatMap_cons]

theorem Expr.assigned_eq {e : Expr} (he : e.object? = none) :
    e.assigned = e.children.flatMap assigned ++ e.declares := by
  cases e with
  | new s o => cases he
  | _ => simp [assigned, children, declares, assignedList_eq]

theorem Expr.named?_of_mem_declares {e : Expr} {x : String} (hx : x ∈ e.declares) :
    e.named? = some x := by
  cases e with
  | assign s y a => rw [List.mem_singleton.1 hx, named?]
  | _ => cases hx

theorem Expr.assigned_subset_variables (e : Expr) : e.assigned ⊆ e.variables := by
  induction e using inductNode with
  | step e ih =>
    intro x hx
    cases ho : e.object? with
    | some o =>
      cases e with
      | new => cases hx
      | _ => cases ho
    | none =>
      rw [assigned_eq ho, List.mem_append, List.mem_flatMap] at hx
      rcases hx with ⟨c, hc, hx⟩ | hx
      · exact mem_variables_of_child hc (ih c hc hx)
      · exact mem_variables.2 (.inr (named?_of_mem_declares hx))

/-! ## Mentioned names -/

theorem Expr.identifiersList_eq (es : List Expr) :
    identifiersList es = es.flatMap identifiers := by
  induction es with
  | nil => rfl
  | cons e es ih => rw [identifiersList, ih, List.flatMap_cons]

theorem Expr.identifiers_value_subset {f : Field} {fs : List Field} (hf : f ∈ fs) :
    f.value.identifiers ⊆ identifiersFields fs := by
  intro y hy
  induction fs with
  | nil => simp at hf
  | cons g fs ih =>
    obtain ⟨s, x, value⟩ := g
    rcases List.mem_cons.1 hf with rfl | hf
    · simp [identifiersFields, hy]
    · simp [identifiersFields, ih hf]

theorem Expr.identifiers_body_subset {m : Method} {ms : List Method} (hm : m ∈ ms) :
    m.body.identifiers ⊆ identifiersMethods ms := by
  intro y hy
  induction ms with
  | nil => simp at hm
  | cons n ms ih =>
    obtain ⟨s, x, ps, body⟩ := n
    rcases List.mem_cons.1 hm with rfl | hm
    · simp [identifiersMethods, hy]
    · simp [identifiersMethods, ih hm]

theorem Expr.identifiers_child_subset {e c : Expr} (hc : c ∈ e.children) :
    c.identifiers ⊆ e.identifiers := by
  intro x hx
  cases e with
  | paren s l e => cases l <;> simp_all [children, identifiers]
  | call s f args =>
    exact List.mem_cons_of_mem _ (identifiersList_eq args ▸ List.mem_flatMap.2 ⟨c, hc, hx⟩)
  | invoke s t m cs args =>
    rcases List.mem_cons.1 hc with rfl | hc
    · simp [identifiers, hx]
    · have : x ∈ identifiersList args :=
        identifiersList_eq args ▸ List.mem_flatMap.2 ⟨c, hc, hx⟩
      simp [identifiers, this]
  | new s o =>
    obtain ⟨n, fs, ms⟩ := o
    simp only [children, List.mem_append, List.mem_map] at hc
    rcases hc with ⟨f, hf, rfl⟩ | ⟨m, hm, rfl⟩
    · simp [identifiers, identifiers_value_subset hf hx]
    · simp [identifiers, identifiers_body_subset hm hx]
  | seq | assign | unary | binary | ternary | index | update =>
    simp only [children, List.mem_cons, List.not_mem_nil, or_false] at hc
    simp only [identifiers, List.mem_append, List.mem_cons]
    grind
  | _ => simp [children] at hc

theorem Expr.variables_subset_identifiers (e : Expr) : e.variables ⊆ e.identifiers := by
  induction e using inductNode with
  | step e ih =>
    intro x hx
    rcases mem_variables.1 hx with ⟨c, hc, hx⟩ | hx
    · exact identifiers_child_subset hc (ih c hc hx)
    · cases e <;> simp_all [named?, identifiers]

/-! ## Fresh names -/

/-- **The first free name**: a candidate that is not taken, after candidates that are, if the
    candidates differ. -/
theorem firstFree_eq {name : Nat → String} (hname : Function.Injective name)
    (taken : List String) :
    ∃ n, firstFree name taken = name n ∧ name n ∉ taken ∧ ∀ k < n, name k ∈ taken := by
  unfold firstFree
  rw [List.find?_map]
  cases h : (List.range (taken.length + 1)).find? ((!taken.contains ·) ∘ name) with
  | none =>
    -- all candidates are taken, and they are too many for that
    have hsub : (List.range (taken.length + 1)).map name ⊆ taken := by
      intro x hx
      obtain ⟨k, hk, rfl⟩ := List.mem_map.1 hx
      simpa using List.find?_eq_none.1 h k hk
    have hnodup : ((List.range (taken.length + 1)).map name).Nodup := List.nodup_range.map hname
    have hle := (List.subperm_of_subset hnodup hsub).length_le
    rw [List.length_map, List.length_range] at hle
    omega
  | some n =>
    obtain ⟨hfree, -, hleast⟩ := List.find?_range_eq_some.1 h
    exact ⟨n, rfl, by simpa using hfree, fun k hk => by simpa using hleast k hk⟩

/-- The first free name is not taken, and is a candidate. -/
theorem firstFree_spec {name : Nat → String} (hname : Function.Injective name)
    (taken : List String) :
    firstFree name taken ∉ taken ∧ ∃ n, firstFree name taken = name n := by
  obtain ⟨n, hn, hfree, -⟩ := firstFree_eq hname taken
  exact ⟨hn ▸ hfree, n, hn⟩

theorem append_toString_injective (stem : String) :
    Function.Injective fun n : Nat => stem ++ toString n := by
  intro i j hij
  have hij := congrArg String.toList hij
  simp only [String.toList_append, List.append_cancel_left_eq, Nat.toString_eq_ofList_toDigits,
    String.toList_ofList] at hij
  rw [← Nat.ofDigitChars_ten_toDigits (n := i), hij, Nat.ofDigitChars_ten_toDigits]

/-- A fresh name is not taken, and is a number after the stem. -/
theorem freshName_spec (stem : String) (taken : List String) :
    freshName stem taken ∉ taken ∧ ∃ n : Nat, freshName stem taken = stem ++ toString n :=
  firstFree_spec (append_toString_injective stem) taken

/-! ## Substitutions -/

/-- A substitution that does nothing to the variables does nothing. -/
theorem Expr.substitute_of_get?_none {s : Substitution} (e : Expr)
    (he : ∀ x ∈ e.variables, s.get? x = none) : e.substitute s = e := by
  induction e using inductNode with
  | step e ih =>
    have hchildren : e.children.map (substitute s) = e.children :=
      map_eq_self fun c hc => ih c hc fun x hx => he x (mem_variables_of_child hc hx)
    have hroot : ∀ x, e.named? = some x → s.get? x = none :=
      fun x hx => he x (mem_variables.2 (.inr hx))
    show e.bottomUp true (substituteRoot s) = e
    rw [bottomUp_eq]
    show substituteRoot s (e.withChildren (e.children.map (substitute s))) = e
    rw [hchildren, withChildren_children]
    cases e with
    | lookup t x => rw [substituteRoot, hroot x.name rfl, Option.getD_none]
    | assign t x a =>
      rw [substituteRoot_assign, Substitution.target, hroot x.name rfl]
      rfl
    | _ => rfl

theorem Substitution.target_congr {σ τ : Substitution} {x : String} (h : σ.get? x = τ.get? x) :
    σ.target x = τ.target x := by
  rw [target, h, target]

theorem Field.map_core_withValues {σ τ : Substitution} {fs : List Field} {values : List Expr}
    (h : values.map (Expr.core σ) = fs.map (·.value.core τ)) :
    (withValues fs values).map (fun f => mk .nowhere f.name.bare (f.value.core σ)) =
      fs.map fun f => mk .nowhere f.name.bare (f.value.core τ) := by
  induction fs generalizing values with
  | nil => rfl
  | cons f fs ih =>
    obtain ⟨v, values, rfl, hv, hvalues⟩ := List.map_eq_cons_iff.1 h
    rw [List.map_cons, ← ih hvalues]
    simp [withValues, hv]

theorem Method.map_core_withBodies {σ τ : Substitution} {ms : List Method} {bodies : List Expr}
    (h : bodies.map (Expr.core σ) = ms.map (·.body.core τ)) :
    (withBodies ms bodies).map
        (fun m => mk .nowhere m.name.bare (m.params.map Param.bare) (m.body.core σ)) =
      ms.map fun m => mk .nowhere m.name.bare (m.params.map Param.bare) (m.body.core τ) := by
  induction ms generalizing bodies with
  | nil => rfl
  | cons m ms ih =>
    obtain ⟨b, bodies, rfl, hb, hbodies⟩ := List.map_eq_cons_iff.1 h
    rw [List.map_cons, ← ih hbodies]
    simp [withBodies, hb]

/-- **A core depends on the cores of the children** and on what the substitution does to the root. -/
theorem Expr.core_withChildren {σ τ : Substitution} {e : Expr} {cs : List Expr}
    (hroot : ∀ x, e.named? = some x → σ.get? x = τ.get? x)
    (h : cs.map (core σ) = e.children.map (core τ)) :
    (e.withChildren cs).core σ = e.core τ := by
  have hlength : cs.length = e.children.length := by simpa using congrArg List.length h
  cases e with
  | lookup s x =>
    show (lookup s x).core σ = (lookup s x).core τ
    rw [core_lookup, core_lookup, hroot x.name rfl]
  | assign s x e =>
    obtain ⟨a, rfl⟩ := List.length_eq_one_iff.1 hlength
    rw [withChildren, core_assign, core_assign,
      Substitution.target_congr (hroot x.name rfl), (List.cons.inj h).1]
  | call s f args => rw [withChildren, core_call, core_call, h, children]
  | invoke s t m ns args =>
    obtain ⟨c, cs, rfl⟩ := List.exists_of_length_succ _ hlength
    obtain ⟨hc, hcs⟩ := List.cons.inj h
    rw [withChildren, core_invoke, core_invoke, hc, hcs]
  | new s o =>
    obtain ⟨n, fs, ms⟩ := o
    rw [children, List.map_append, List.map_map, List.map_map] at h
    obtain ⟨values, bodies, rfl, hvalues, hbodies⟩ := List.map_eq_append_iff.1 h
    have hfs : values.length = fs.length := by simpa using congrArg List.length hvalues
    simp only [withChildren, Field.withValues_append fs values bodies hfs, ← hfs,
      List.drop_left, core_new, Field.map_core_withValues hvalues,
      Method.map_core_withBodies hbodies]
  | int | bool | assert | assume | ellipsis | hole => rfl
  | paren | unary =>
    obtain ⟨a, rfl⟩ := List.length_eq_one_iff.1 hlength
    simp_all [withChildren, children]
  | seq | binary | index =>
    obtain ⟨a, b, rfl⟩ := List.length_eq_two.1 hlength
    simp_all [withChildren, children]
  | ternary | update =>
    obtain ⟨a, b, c, rfl⟩ := List.length_eq_three.1 hlength
    simp_all [withChildren, children]

/-- **A core depends on what the substitution does to the variables.** -/
theorem Expr.core_congr {σ τ : Substitution} (e : Expr)
    (h : ∀ x ∈ e.variables, σ.get? x = τ.get? x) : e.core σ = e.core τ := by
  induction e using inductNode with
  | step e ih =>
    conv_lhs => rw [← e.withChildren_children]
    refine core_withChildren (fun x hx => h x (mem_variables.2 (.inr hx))) ?_
    exact List.map_congr_left fun c hc => ih c hc fun x hx => h x (mem_variables_of_child hc hx)

end GameHop
