import GameHop.Proofs.Inlining.Trace
import GameHop.Proofs.Unfolding.Trace

/-!
The names that are free after unfolding and were not free before. Arguments do not get into the
methods of a body, so a parameter that is free there dangles.
-/

namespace GameHop

/-! ## Free names by places -/

/-- The names that object literals bind on the way to a path. -/
def Expr.bindsAt (e : Expr) : List Nat → List String
  | [] => []
  | i :: path => e.bindsIn i ++ (e.children[i]?.map fun c => c.bindsAt path).getD []

/-- Whether a name is free in a method of an object literal, and in all that is around it. -/
def Expr.FreeInMethod (e : Expr) (x : String) : Prop :=
  ∃ path, e.ReadsAt path x ∧ x ∉ e.bindsAt path ∧ e.entersMethod path = true

/-- Whether the path enters an object literal. -/
def Expr.entersObject (e : Expr) : List Nat → Bool
  | [] => false
  | i :: path => e.object?.isSome || (e.children[i]?.map fun c => c.entersObject path).getD false

section
variable {e c : Expr} {i : Nat} {x : String}

theorem Expr.not_mem_bindsAt_cons {path : List Nat} (hc : e.children[i]? = some c) :
    x ∉ e.bindsAt (i :: path) ↔ x ∉ e.bindsIn i ∧ x ∉ c.bindsAt path := by
  simp [bindsAt, hc]

/-- **A name is free where it is read and not bound.** -/
theorem Expr.exists_readsAt_of_mem_free (hx : x ∈ e.free) :
    ∃ path, e.ReadsAt path x ∧ x ∉ e.bindsAt path := by
  induction e using inductNode with
  | step e ih =>
    rcases mem_free.1 hx with hx | ⟨i, c, hc, hx, hbinds⟩
    · exact ⟨[], hx, List.not_mem_nil⟩
    · obtain ⟨path, hreads, hbound⟩ := ih c (List.mem_of_getElem? hc) hx
      exact ⟨i :: path, readsAt_cons.2 ⟨c, hc, hreads⟩,
        (not_mem_bindsAt_cons hc).2 ⟨hbinds, hbound⟩⟩

theorem Expr.mem_free_of_place {path : List Nat} (hreads : e.ReadsAt path x)
    (hbound : x ∉ e.bindsAt path) : x ∈ e.free := by
  induction path generalizing e with
  | nil => exact mem_free.2 (.inl hreads)
  | cons i path ih =>
    obtain ⟨c, hc, hreads⟩ := readsAt_cons.1 hreads
    obtain ⟨hbinds, hbound⟩ := (not_mem_bindsAt_cons hc).1 hbound
    exact mem_free.2 (.inr ⟨i, c, hc, ih hreads hbound, hbinds⟩)

theorem Expr.freeInMethod_child (hc : e.children[i]? = some c) (hx : c.FreeInMethod x)
    (hbinds : x ∉ e.bindsIn i) : e.FreeInMethod x := by
  obtain ⟨path, hreads, hbound, hmethod⟩ := hx
  exact ⟨i :: path, readsAt_cons.2 ⟨c, hc, hreads⟩,
    (not_mem_bindsAt_cons hc).2 ⟨hbinds, hbound⟩, by simp [entersMethod, hc, hmethod]⟩

theorem Expr.freeInMethod_body (hc : e.children[i]? = some c) (hi : e.isBody i = true)
    (hx : x ∈ c.free) (hbinds : x ∉ e.bindsIn i) : e.FreeInMethod x := by
  obtain ⟨path, hreads, hbound⟩ := exists_readsAt_of_mem_free hx
  exact ⟨i :: path, readsAt_cons.2 ⟨c, hc, hreads⟩,
    (not_mem_bindsAt_cons hc).2 ⟨hbinds, hbound⟩, by simp [entersMethod, hi]⟩

end

/-! ## Names of bodies with arguments -/

section
variable {args : List (String × Expr)} {e : Expr} {y : String}

/-- Whether an argument that comes to stand in the expression outside object literals assigns a
    variable. -/
def Expr.ArgAssigns (args : List (String × Expr)) (e : Expr) (y : String) : Prop :=
  ∃ path x a, e.ReadsAt path x ∧ e.entersObject path = false ∧ args.lookup x = some a ∧
    y ∈ a.assigned

theorem Expr.argAssigns_iff (hv : e.varName? = none) (ho : e.object? = none) :
    e.ArgAssigns args y ↔ ∃ c ∈ e.children, c.ArgAssigns args y := by
  constructor
  · rintro ⟨path, x, a, hreads, hobject, ha, hy⟩
    cases path with
    | nil => rw [readsAt_nil, hv] at hreads; cases hreads
    | cons i path =>
      obtain ⟨c, hc, hreads⟩ := readsAt_cons.1 hreads
      exact ⟨c, List.mem_of_getElem? hc, path, x, a, hreads,
        by simpa [entersObject, ho, hc] using hobject, ha, hy⟩
  · rintro ⟨c, hmem, path, x, a, hreads, hobject, ha, hy⟩
    obtain ⟨i, hc⟩ := List.mem_iff_getElem?.1 hmem
    exact ⟨i :: path, x, a, readsAt_cons.2 ⟨c, hc, hreads⟩,
      by simpa [entersObject, ho, hc] using hobject, ha, hy⟩

theorem Expr.object?_withArgs (hv : e.varName? = none) :
    (e.withArgs args).object? = none ↔ e.object? = none := by
  rw [withArgs_of_varName? hv, revisited, object?_withChildren]

theorem Expr.declaredIn_withArgs (hv : e.varName? = none) (i : Nat) :
    (e.withArgs args).declaredIn i = e.declaredIn i := by
  rw [withArgs_of_varName? hv, revisited,
    declaredIn_withChildren _ (length_revisited (by simp))]

theorem Expr.children_withArgs (hv : e.varName? = none) (ho : e.object? = none) :
    (e.withArgs args).children = e.children.map (withArgs args) := by
  have hbody : ∀ i, e.isBody i = false := by
    cases e with
    | new => cases ho
    | _ => exact fun _ => rfl
  refine List.ext_getElem? fun i => ?_
  simp [getElem?_children_withArgs hv, hbody]

theorem Expr.declares_withArgs (hv : e.varName? = none) : (e.withArgs args).declares = e.declares := by
  rw [withArgs_of_varName? hv, revisited, declares_withChildren]

theorem Expr.assigned_of_object? (ho : e.object? ≠ none) : e.assigned = [] := by
  cases e with
  | new => rfl
  | _ => exact absurd rfl ho

/-- **The variables that a body with arguments assigns**: those of the body, and those of arguments
    outside its object literals. -/
theorem Expr.mem_assigned_withArgs :
    y ∈ (e.withArgs args).assigned ↔ y ∈ e.assigned ∨ e.ArgAssigns args y := by
  induction e using inductNode with
  | step e ih =>
    cases hv : e.varName? with
    | some x =>
      obtain ⟨s, x, rfl, rfl⟩ := eq_lookup_of_varName? hv
      have hroot : (lookup s x).ArgAssigns args y ↔
          ∃ a, args.lookup x.name = some a ∧ y ∈ a.assigned := by
        constructor
        · rintro ⟨path, x', a, hreads, -, ha, hy⟩
          cases path with
          | nil => exact ⟨a, Option.some.inj hreads ▸ ha, hy⟩
          | cons i path => simp [readsAt_cons, children] at hreads
        · rintro ⟨a, ha, hy⟩
          exact ⟨[], x.name, a, rfl, rfl, ha, hy⟩
      rw [withArgs_lookup, hroot]
      cases args.lookup x.name <;> simp [assigned]
    | none =>
      cases ho : e.object? with
      | none =>
        rw [assigned_eq ((object?_withArgs hv).2 ho), children_withArgs hv ho,
          declares_withArgs hv, assigned_eq ho, argAssigns_iff hv ho]
        simp only [List.flatMap_map, List.mem_append, List.mem_flatMap]
        grind
      | some o =>
        have ho' : (e.withArgs args).object? ≠ none := by simp [object?_withArgs hv, ho]
        rw [assigned_of_object? ho', assigned_of_object? (by simp [ho])]
        simp only [List.not_mem_nil, false_or, false_iff]
        rintro ⟨path, x, a, hreads, hobject, -⟩
        cases path with
        | nil => rw [readsAt_nil, hv] at hreads; cases hreads
        | cons i path => simp [entersObject, ho] at hobject

theorem Expr.mem_bindsIn_withArgs {c : Expr} {i : Nat} (hc : e.children[i]? = some c) :
    y ∈ (e.withArgs args).bindsIn i ↔ y ∈ e.declaredIn i ∨
      (e.object? ≠ none ∧ y ∈ (if e.isBody i then c else c.withArgs args).assigned) := by
  have hv := varName?_of_child hc
  rw [mem_bindsIn_iff (child_withArgs args hc), declaredIn_withArgs hv, Ne,
    object?_withArgs hv]

/-- Arguments unbind nothing. -/
theorem Expr.bindsIn_subset_withArgs {c : Expr} {i : Nat} (hc : e.children[i]? = some c)
    (hy : y ∈ e.bindsIn i) : y ∈ (e.withArgs args).bindsIn i := by
  refine (mem_bindsIn_withArgs hc).2 (((mem_bindsIn_iff hc).1 hy).imp_right
    (And.imp_right fun hy => ?_))
  cases e.isBody i with
  | true => exact hy
  | false => exact mem_assigned_withArgs.2 (.inl hy)

/-- Arguments bind only what they assign. -/
theorem Expr.bindsIn_of_withArgs {c : Expr} {i : Nat} (hc : e.children[i]? = some c)
    (hargs : ∀ x a, args.lookup x = some a → y ∉ a.assigned)
    (hy : y ∈ (e.withArgs args).bindsIn i) : y ∈ e.bindsIn i := by
  refine (mem_bindsIn_iff hc).2 (((mem_bindsIn_withArgs hc).1 hy).imp_right
    (And.imp_right fun hy => ?_))
  cases hbody : e.isBody i with
  | true => simpa [hbody] using hy
  | false =>
    rw [hbody] at hy
    rcases mem_assigned_withArgs.1 hy with hy | ⟨path, x, a, -, -, ha, hy⟩
    · exact hy
    · exact absurd hy (hargs x a ha)

/-- **The free names of a body with arguments**: those of arguments, the other names that are free in
    the body, and the parameters that are free in a method. -/
theorem Expr.mem_free_withArgs (hy : y ∈ (e.withArgs args).free) :
    (∃ path x a, e.ReadsOutside path x ∧ args.lookup x = some a ∧ y ∈ a.free) ∨
      (y ∈ e.free ∧ args.lookup y = none) ∨ ((args.lookup y).isSome ∧ e.FreeInMethod y) := by
  induction e using inductNode with
  | step e ih =>
    cases hv : e.varName? with
    | some x =>
      obtain ⟨s, x, rfl, rfl⟩ := eq_lookup_of_varName? hv
      rw [withArgs_lookup] at hy
      cases ha : args.lookup x.name with
      | some a =>
        rw [ha] at hy
        exact .inl ⟨[], x.name, a, readsOutside_nil.2 rfl, ha, hy⟩
      | none =>
        rw [ha] at hy
        obtain rfl : y = x.name := by simpa [free, freeIn] using hy
        exact .inr (.inl ⟨hy, ha⟩)
    | none =>
      rcases mem_free.1 hy with hy | ⟨i, c', hc', hy, hbinds⟩
      · rw [withArgs_of_varName? hv, revisited, varName?_withChildren, hv] at hy
        cases hy
      rw [getElem?_children_withArgs hv] at hc'
      obtain ⟨c, hc, rfl⟩ := Option.map_eq_some_iff.1 hc'
      have hbinds' : y ∉ e.bindsIn i := fun h => hbinds (bindsIn_subset_withArgs hc h)
      have hfree : y ∈ c.free → y ∈ e.free := fun hy =>
        mem_free.2 (.inr ⟨i, c, hc, hy, hbinds'⟩)
      cases hbody : e.isBody i with
      | true =>
        replace hy : y ∈ c.free := by simpa [hbody] using hy
        cases ha : args.lookup y with
        | none => exact .inr (.inl ⟨hfree hy, rfl⟩)
        | some a => exact .inr (.inr ⟨rfl, freeInMethod_body hc hbody hy hbinds'⟩)
      | false =>
        replace hy : y ∈ (c.withArgs args).free := by simpa [hbody] using hy
        rcases ih c (List.mem_of_getElem? hc) hy with ⟨path, x, a, hreads, ha, hy⟩ | hy | hy
        · have hi := (isBody_iff (List.getElem?_eq_some_iff.1 hc).1).1 hbody
          have hreads' : e.ReadsOutside (i :: path) x :=
            readsOutside_cons.2 ⟨c, by simp [hi, hc], hreads⟩
          exact .inl ⟨i :: path, x, a, hreads', ha, hy⟩
        · exact .inr (.inl ⟨hfree hy.1, hy.2⟩)
        · exact .inr (.inr ⟨hy.1, freeInMethod_child hc hy.2 hbinds'⟩)

theorem Expr.not_mem_bindsAt_withArgs {n : Expr} {path : List Nat} (hn : e.at? path = some n)
    (hargs : ∀ x a, args.lookup x = some a → y ∉ a.assigned) (hy : y ∉ e.bindsAt path) :
    y ∉ (e.withArgs args).bindsAt path := by
  induction path generalizing e with
  | nil => exact List.not_mem_nil
  | cons i path ih =>
    obtain ⟨c, hc, hn⟩ := Option.bind_eq_some_iff.1 hn
    obtain ⟨hbinds, hbound⟩ := (not_mem_bindsAt_cons hc).1 hy
    refine (not_mem_bindsAt_cons (child_withArgs args hc)).2
      ⟨fun h => hbinds (bindsIn_of_withArgs hc hargs h), ?_⟩
    cases e.isBody i with
    | true => exact hbound
    | false => exact ih hn hbound

/-- **A parameter that is free in a method stays free**, if no argument assigns it. -/
theorem Expr.FreeInMethod.mem_free_withArgs (h : e.FreeInMethod y)
    (hargs : ∀ x a, args.lookup x = some a → y ∉ a.assigned) : y ∈ (e.withArgs args).free := by
  obtain ⟨path, hreads, hbound, hmethod⟩ := h
  obtain ⟨s, x, hx, rfl⟩ := hreads.exists_lookup
  have hreads' : (e.withArgs args).ReadsAt path x.name := by
    rw [Expr.ReadsAt, at?_withArgs hx, hmethod]
    rfl
  exact mem_free_of_place hreads' (not_mem_bindsAt_withArgs hx hargs hbound)

end

/-! ## Unfoldings -/

/-- How an unfolded call frees a name. -/
inductive Unfolding.Frees (x : Unfolding) (y : String) : Prop
  /-- The name is free in the body and is not a parameter. -/
  | body : y ∈ x.body.free → y ∉ x.function.paramNames → Frees x y
  /-- The name is a parameter that is free in a method of the body. -/
  | param : y ∈ x.function.paramNames → x.body.FreeInMethod y → Frees x y
  /-- The name is assigned in an argument that has no parameter. -/
  | dropped {i : Nat} {a : Expr} : x.function.params.length ≤ i → x.args[i]? = some a →
    y ∈ a.assigned → Frees x y
  /-- The name is assigned in an argument that gets into an object literal. -/
  | moved {i : Nat} {p : Param} {a : Expr} {path : List Nat} : x.function.params[i]? = some p →
    x.args[i]? = some a → y ∈ a.assigned → x.body.ReadsOutside path p.name.name →
    x.body.entersObject path = true → Frees x y

section
variable {functions : Functions} {only : List String} {y : String}

/-- What the arguments assign is assigned afterwards. -/
theorem Unfolding.Made.mem_assigned {x : Unfolding} (h : x.Made functions only)
    (hdistinct : x.function.paramNames.Nodup) (hfrees : ¬ x.Frees y) {s : Span} {f : Ident}
    (hy : y ∈ (Expr.call s f x.args).assigned) : y ∈ x.result.assigned := by
  obtain ⟨a, ha, hy⟩ : ∃ a ∈ x.args, y ∈ a.assigned := by
    rw [Expr.assigned_eq rfl] at hy
    simpa [Expr.children, Expr.declares] using hy
  obtain ⟨i, ha⟩ := List.mem_iff_getElem?.1 ha
  cases hp : x.function.params[i]? with
  | none => exact absurd (.dropped (List.getElem?_eq_none_iff.1 hp) ha hy) hfrees
  | some p =>
    obtain ⟨q, hq, -⟩ := h.usesOnce p.name.name (List.mem_map_of_mem (List.mem_of_getElem? hp))
    have hreads := (hq q).2 rfl
    cases hobject : x.body.entersObject q with
    | true => exact absurd (.moved hp ha hy hreads hobject) hfrees
    | false =>
      have hlookup := Function.lookup_bindArgs hdistinct x.args hp
      rw [ha, Option.getD_some] at hlookup
      rw [← h.result]
      exact Expr.mem_assigned_withArgs.2 (.inr ⟨q, p.name.name, a, hreads.1, hobject, hlookup, hy⟩)

/-- What is free afterwards is free in the arguments. -/
theorem Unfolding.Made.mem_free {x : Unfolding} (h : x.Made functions only)
    (hfrees : ¬ x.Frees y) {s : Span} {f : Ident}
    (hy : y ∈ x.result.free) : y ∈ (Expr.call s f x.args).free := by
  rw [← h.result] at hy
  rcases Expr.mem_free_withArgs hy with ⟨path, z, a, -, hlookup, hy⟩ | ⟨hy, hnone⟩ | ⟨hsome, hy⟩
  · obtain ⟨i, p, -, -, ha⟩ := Function.exists_arg_of_lookup hlookup
    cases hi : x.args[i]? with
    | none =>
      rw [ha, hi] at hy
      cases hy
    | some b =>
      obtain rfl : a = b := by rw [ha, hi, Option.getD_some]
      exact Expr.mem_free.2 (.inr ⟨i, a, hi, hy, List.not_mem_nil⟩)
  · rw [lookup_eq_none_iff_not_mem, Function.keys_bindArgs, List.mem_reverse] at hnone
    exact absurd (.body hy hnone) hfrees
  · exact absurd (.param ((Function.isSome_lookup_bindArgs x.args).1 hsome) hy) hfrees

/-- **What a chain of unfoldings frees.** -/
theorem Unfolds.mem_free {e e' : Expr} {xs : List Unfolding} (h : Unfolds functions only e xs e')
    (hdistinct : functions.DistinctParams) (hy : y ∈ e'.free) :
    y ∈ e.free ∨ ∃ x ∈ xs, x.Frees y := by
  induction h with
  | done => exact .inl hy
  | @step x xs t t' hmade hreplace _ ih =>
    by_cases hfrees : x.Frees y
    · exact .inr ⟨x, List.mem_cons_self, hfrees⟩
    rcases ih hy with hy | ⟨x', hx', hfrees'⟩
    · obtain ⟨s, f, hnode, -, -⟩ := hmade.call
      exact .inl ((Expr.replaces_of_replaceAt? hnode hreplace).mem_free
        (hmade.mem_assigned (hmade.distinct hdistinct) hfrees) (hmade.mem_free hfrees) hy)
    · exact .inr ⟨x', List.mem_cons_of_mem _ hx', hfrees'⟩

/-- **A parameter dangles** if it is free in a method of the body and no argument assigns it. -/
theorem Unfolding.Made.mem_free_result {x : Unfolding} (h : x.Made functions only)
    (hy : x.body.FreeInMethod y) (hargs : ∀ a ∈ x.args, y ∉ a.assigned) : y ∈ x.result.free := by
  rw [← h.result]
  refine hy.mem_free_withArgs fun z a hlookup => ?_
  obtain ⟨i, p, -, -, rfl⟩ := Function.exists_arg_of_lookup hlookup
  cases hi : x.args[i]? with
  | none => exact List.not_mem_nil
  | some a => exact hargs a (List.mem_of_getElem? hi)

/-- **What unfolding frees.** A name that is free afterwards was free before, or an unfolded call frees
    it. The parameters of a function are among these names: one that is free in a method of its body
    is free in what a call becomes, unless an argument assigns it. -/
theorem Expr.mem_free_unfold (hdistinct : functions.DistinctParams) {e e' : Expr}
    (h : e.unfold functions only = (e', none)) :
    ∃ xs, Unfolds functions only e xs e' ∧
      (∀ p, e.UnfoldsAt functions only p ↔ p ∈ xs.map (·.path)) ∧
      (∀ y ∈ e'.free, y ∈ e.free ∨ ∃ x ∈ xs, x.Frees y) ∧
      ∀ x ∈ xs, ∀ y ∈ x.function.paramNames, x.body.FreeInMethod y →
        (∀ a ∈ x.args, y ∉ a.assigned) → y ∈ x.result.free := by
  obtain ⟨xs, hxs, -, hall, -⟩ := Expr.unfolds_unfold functions only e
  rw [h] at hxs hall
  exact ⟨xs, hxs, hall rfl, fun y hy => hxs.mem_free hdistinct hy,
    fun x hx y _ hfree hargs => (hxs.made x hx).mem_free_result hfree hargs⟩

end

/-- `function cell(x) { new (k = x) { method m() { x } } }` -/
def Functions.cell : Functions :=
  ⟨[Function.plain "cell" ["x"] (.literal [.plain "k" (.var "x")] [.plain "m" [] (.var "x")])]⟩

/-- The call `cell(a)`. -/
theorem Expr.mem_free_unfold_cell :
    let e := Expr.callOf "cell" [.var "a"]
    let e' := Expr.literal [.plain "k" (.var "a")] [.plain "m" [] (.var "x")]
    Functions.cell.DistinctParams ∧ e.unfold Functions.cell [] = (e', none) ∧
    ∃ xs, Unfolds Functions.cell [] e xs e' ∧
      (∀ p, e.UnfoldsAt Functions.cell [] p ↔ p ∈ xs.map (·.path)) ∧
      (∀ y ∈ e'.free, y ∈ e.free ∨ ∃ x ∈ xs, x.Frees y) ∧
      ∀ x ∈ xs, ∀ y ∈ x.function.paramNames, x.body.FreeInMethod y →
        (∀ a ∈ x.args, y ∉ a.assigned) → y ∈ x.result.free :=
  ⟨by decide, rfl, Expr.mem_free_unfold (by decide) rfl⟩

/-- Whether the bodies of the functions have no names free but the parameters. -/
def Functions.Closed (functions : Functions) : Prop :=
  ∀ f ∈ functions.toList, ∀ body ∈ f.body, ∀ y ∈ body.free, y ∈ f.paramNames

instance (functions : Functions) : Decidable functions.Closed :=
  inferInstanceAs (Decidable (∀ f ∈ functions.toList, ∀ body ∈ f.body, ∀ y ∈ body.free,
    y ∈ f.paramNames))

/-- **Unfolding can free names though no body has any free but its parameters.** The call `cell(a)`
    becomes `new (k = a) { method m() { x } }`, where the parameter dangles. And in
    `new () { method m() { f(t = 5); t } }` the variable is no longer bound once the call is unfolded,
    be it that the function has no parameter for the argument, or that it puts the argument into a
    field. -/
theorem Expr.free_unfold_not_subset :
    let zero : Functions := ⟨[Function.plain "f" [] (.ofNat 0)]⟩
    let box : Functions := ⟨[Function.plain "f" ["x"] (.literal [.plain "k" (.var "x")] [])]⟩
    let call := Expr.callOf "cell" [.var "a"]
    let user := Expr.literal [] [.plain "m" []
      (.seq .nowhere (.callOf "f" [.assign .nowhere (.plain "t") (.ofNat 5)]) (.var "t"))]
    (Functions.cell.DistinctParams ∧ Functions.cell.Closed ∧ call.free = ["a"] ∧
      (call.unfold Functions.cell []).2 = none ∧
      (call.unfold Functions.cell []).1.free = ["a", "x"]) ∧
    (zero.DistinctParams ∧ zero.Closed ∧ user.free = [] ∧ (user.unfold zero []).2 = none ∧
      (user.unfold zero []).1.free = ["t"]) ∧
    (box.DistinctParams ∧ box.Closed ∧ user.free = [] ∧ (user.unfold box []).2 = none ∧
      (user.unfold box []).1.free = ["t"]) := by
  refine ⟨⟨?_, ?_, rfl, rfl, rfl⟩, ⟨?_, ?_, rfl, rfl, rfl⟩, ?_, ?_, rfl, rfl, rfl⟩ <;> decide

end GameHop
