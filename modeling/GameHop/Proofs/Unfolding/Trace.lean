import GameHop.Proofs.Unfolding.Bodies

/-!
What unfolding does, step by step: it replaces one call after the other by the body of its function
(`Unfolding`).
-/

namespace GameHop

/-! ## Traversals that cannot fail -/

section
variable {σ ε α β : Type}

/-- A computation that cannot fail, among those that can. -/
def StateM.total (ε : Type) (x : StateM σ α) : StateT σ (Except ε) α :=
  fun s => .ok (x.run s)

theorem StateM.total_bind (x : StateM σ α) (f : α → StateM σ β) :
    total ε (x >>= f) = total ε x >>= fun a => total ε (f a) :=
  rfl

theorem StateM.total_pure (a : α) : total ε (pure a : StateM σ α) = pure a :=
  rfl

variable {enter : Bool} {visit : Expr → StateM σ Expr}

theorem Expr.total_bottomUpListM {es : List Expr}
    (h : ∀ e ∈ es, StateM.total ε (e.bottomUpM enter visit) =
      e.bottomUpM enter fun e => StateM.total ε (visit e)) :
    StateM.total ε (bottomUpListM enter visit es) =
      bottomUpListM enter (fun e => StateM.total ε (visit e)) es := by
  induction es with
  | nil => rfl
  | cons e es ih =>
    rw [List.forall_mem_cons] at h
    simp only [bottomUpListM, StateM.total_bind, StateM.total_pure, h.1, ih h.2]

/-- **A traversal that cannot fail** is the same one among those that can. -/
theorem Expr.total_bottomUpM (e : Expr) : StateM.total ε (e.bottomUpM enter visit) =
    e.bottomUpM enter fun e => StateM.total ε (visit e) := by
  induction e using inductNode with
  | step e ih =>
    rw [bottomUpM_eq, bottomUpM_eq, StateM.total_bind,
      total_bottomUpListM fun c hc => ih c (List.mem_of_mem_take hc)]

end

/-! ## Unfoldings -/

/-- Whether the parameters of each function have different names. -/
def Functions.DistinctParams (functions : Functions) : Prop :=
  ∀ f ∈ functions.toList, f.paramNames.Nodup

/-- Whether calls of a function are to be unfolded: those of the functions `only`, or of any if there
    are none. -/
def Unfolding.Selects (only : List String) (f : String) : Prop :=
  only = [] ∨ f ∈ only

/-- Whether the node at a path is a call that is to be unfolded and can be. -/
def Expr.UnfoldsAt (functions : Functions) (only : List String) (e : Expr) (path : List Nat) : Prop :=
  ∃ s f args function body, e.at? path = some (.call s f args) ∧ Unfolding.Selects only f.name ∧
    functions.get? f.name = some function ∧ function.body = some body ∧
    body.UsesOnce function.paramNames

/-- A call that is unfolded. -/
structure Unfolding where
  path : List Nat
  /-- The program just before. -/
  before : Expr
  function : Function
  body : Expr
  args : List Expr
  /-- What stands in the place of the call. -/
  result : Expr

/-- What an unfolding is. -/
structure Unfolding.Made (functions : Functions) (only : List String) (x : Unfolding) : Prop where
  call : ∃ s f, x.before.at? x.path = some (.call s f x.args) ∧ Unfolding.Selects only f.name ∧
    functions.get? f.name = some x.function
  body : x.function.body = some x.body
  usesOnce : x.body.UsesOnce x.function.paramNames
  result : x.body.withArgs (x.function.bindArgs x.args) = x.result

/-- **A chain of unfoldings.** Each one replaces a call in the program as it is then. -/
inductive Unfolds (functions : Functions) (only : List String) : Expr → List Unfolding → Expr → Prop
  | done (t : Expr) : Unfolds functions only t [] t
  | step {x : Unfolding} {xs : List Unfolding} {t t' : Expr} :
    x.Made functions only → x.before.replaceAt? x.path x.result = some t →
    Unfolds functions only t xs t' → Unfolds functions only x.before (x :: xs) t'

/-- Whether an unfolding is that of a call in the program `whole` before any unfolding. Its arguments
    are unfolded by then. -/
structure Unfolding.StemsFrom (functions : Functions) (only : List String) (whole : Expr)
    (x : Unfolding) : Prop where
  unfoldsAt : whole.UnfoldsAt functions only x.path
  args : ∃ s f args, whole.at? x.path = some (.call s f args) ∧
    args.map (·.unfold functions only) = x.args.map fun a => (a, none)

/-! ## Runs -/

section
variable {functions : Functions} {only : List String}

theorem Expr.unfoldsAt_call {sp : Span} {f : Ident} {args : List Expr} :
    (call sp f args).UnfoldsAt functions only [] ↔ Unfolding.Selects only f.name ∧
      ∃ function, functions.get? f.name = some function ∧ (function.instantiate? args).isSome := by
  constructor
  · rintro ⟨_, _, _, function, body, heq, hselects, hfunction, hbody, honce⟩
    cases heq
    have hsome : function.instantiate? args = some (body.withArgs (function.bindArgs args)) :=
      Function.instantiate?_eq_some_iff.2 ⟨body, hbody, honce, rfl⟩
    exact ⟨hselects, function, hfunction, by rw [hsome]; rfl⟩
  · rintro ⟨hselects, function, hfunction, hsome⟩
    obtain ⟨r, hr⟩ := Option.isSome_iff_exists.1 hsome
    obtain ⟨body, hbody, honce, -⟩ := Function.instantiate?_eq_some_iff.1 hr
    exact ⟨sp, f, args, function, body, rfl, hselects, hfunction, hbody, honce⟩

/-- A visit unfolds a call, or leaves the node alone. After a fault it does nothing more. -/
theorem Unfolding.visit_cases {e n : Expr} {s s' : Option Fault}
    (h : (visit functions only e).run s = (n, s')) :
    (∃ sp f args function, e = .call sp f args ∧ Unfolding.Selects only f.name ∧
      functions.get? f.name = some function ∧ function.instantiate? args = some n ∧
      s = none ∧ s' = none) ∨
    (n = e ∧ (s' = none → s = none ∧ ¬ e.UnfoldsAt functions only [])) := by
  cases s with
  | some fault =>
    have hrun : (visit functions only e).run (some fault) = (e, some fault) := by
      cases e <;> rfl
    obtain ⟨rfl, rfl⟩ := Prod.mk.inj (hrun.symm.trans h)
    exact .inr ⟨rfl, fun h => by cases h⟩
  | none =>
    cases e with
    | call sp f args =>
      simp only [visit, List.contains_eq_mem, Bool.and_eq_true, Bool.not_eq_eq_eq_not,
        Bool.not_true, List.isEmpty_eq_false_iff, ne_eq, decide_eq_false_iff_not, bind_pure_comp,
        StateT.run_bind, StateT.run_get, pure_bind] at h
      split at h
      · rename_i hout
        cases h
        refine .inr ⟨rfl, fun _ => ⟨rfl, fun hunfolds => ?_⟩⟩
        exact (Expr.unfoldsAt_call.1 hunfolds).1.elim hout.1 hout.2
      · rename_i hin
        have hselects : Selects only f.name := by
          rw [not_and_or, not_not, not_not] at hin
          exact hin
        split at h
        · cases h
          exact .inr ⟨rfl, fun h => by cases h⟩
        · rename_i function hfunction
          obtain ⟨rfl, rfl⟩ := Prod.mk.inj h
          cases hr : function.instantiate? args with
          | some r => exact .inl ⟨sp, f, args, function, rfl, hselects, hfunction, hr, rfl, rfl⟩
          | none =>
            refine .inr ⟨rfl, fun _ => ⟨rfl, fun hunfolds => ?_⟩⟩
            obtain ⟨-, function', hfunction', hsome⟩ := Expr.unfoldsAt_call.1 hunfolds
            obtain rfl : function' = function := Option.some.inj (hfunction'.symm.trans hfunction)
            simp [hr] at hsome
    | _ =>
      obtain ⟨rfl, rfl⟩ := Prod.mk.inj h
      refine .inr ⟨rfl, fun _ => ⟨rfl, ?_⟩⟩
      rintro ⟨_, _, _, _, _, heq, -⟩
      cases heq
/-- The visits of unfolding, among those that can fail. -/
def Unfolding.visits (functions : Functions) (only : List String) (e : Expr) :
    StateT (Option Fault) (Except Fault) Expr :=
  StateM.total Fault (Unfolding.visit functions only e)

theorem Unfolding.run_bottomUpM (e : Expr) (s : Option Fault) :
    (e.bottomUpM true (visits functions only)).run s =
      .ok ((e.bottomUpM true (visit functions only)).run s) := by
  have h : e.bottomUpM true (visits functions only) =
      StateM.total Fault (e.bottomUpM true (visit functions only)) :=
    (e.total_bottomUpM).symm
  rw [h]
  rfl

/-- A chain of visits at the end of which there is no fault has had none. -/
theorem Unfolding.none_of_visits {whole t t' : Expr} {s s' : Option Fault} {ps : List (List Nat)}
    (h : Expr.Visits true (visits functions only) whole t s ps t' s') (hs : s' = none) :
    s = none := by
  induction h with
  | done => exact hs
  | step _ _ hvisit _ ih =>
    rcases visit_cases (Except.ok.inj hvisit) with
      ⟨_, _, _, _, _, _, _, _, hnone, _⟩ | ⟨_, hnone⟩
    · exact hnone
    · exact (hnone (ih hs)).1

/-- Expressions that are traversed without a fault are unfolded. -/
theorem Unfolding.unfold_of_traversed {es es' : List Expr} {s s' : Option Fault}
    (h : Expr.Traversed true (visits functions only) es s es' s') (hs : s' = none) :
    s = none ∧ es.map (·.unfold functions only) = es'.map fun e => (e, none) := by
  induction h with
  | nil => exact ⟨hs, rfl⟩
  | @cons e e' es es' s s₁ s' he _ ih =>
    obtain ⟨rfl, hes⟩ := ih hs
    obtain ⟨ps, hvisits, -, -⟩ := Expr.visits_bottomUpM he
    obtain rfl := none_of_visits hvisits rfl
    rw [run_bottomUpM] at he
    refine ⟨rfl, ?_⟩
    rw [List.map_cons, List.map_cons, hes]
    exact congrArg (· :: _) (Except.ok.inj he)

theorem Expr.eq_call_of_withChildren {e : Expr} {cs args : List Expr} {s : Span} {f : Ident}
    (h : e.withChildren cs = .call s f args) : ∃ as, e = .call s f as ∧ args = cs := by
  unfold withChildren at h
  split at h <;> simp_all

/-- Whether a node can be unfolded does not depend on its children. -/
theorem Expr.unfoldsAt_iff {whole c : Expr} {path : List Nat} (hc : whole.at? path = some c)
    (cs : List Expr) :
    whole.UnfoldsAt functions only path ↔
      (c.revisited true cs).UnfoldsAt functions only [] := by
  constructor
  · rintro ⟨s, f, args, function, body, hnode, h⟩
    rw [hc] at hnode
    cases hnode
    exact ⟨s, f, _, function, body, rfl, h⟩
  · rintro ⟨s, f, args, function, body, hnode, h⟩
    obtain ⟨as, rfl, -⟩ := eq_call_of_withChildren (Option.some.inj hnode)
    exact ⟨s, f, as, function, body, hc, h⟩

/-- **A chain of visits is a chain of unfoldings**, one for each visited call that can be unfolded if
    there is no fault. -/
theorem Unfolding.unfolds_of_visits {whole t t' : Expr} {s s' : Option Fault} {ps : List (List Nat)}
    (h : Expr.Visits true (visits functions only) whole t s ps t' s') :
    ∃ xs, Unfolds functions only t xs t' ∧ (xs.map (·.path)).Sublist ps ∧
      (s' = none → ∀ p ∈ ps, whole.UnfoldsAt functions only p → p ∈ xs.map (·.path)) ∧
      ∀ x ∈ xs, x.StemsFrom functions only whole := by
  induction h with
  | done t s => exact ⟨[], .done t, .slnil, by simp, by simp⟩
  | @step plug path c n t cs s₀ s s₁ s' ps hf hcs hvisit hrest ih =>
    obtain ⟨xs, hxs, hsub, hall, hstems⟩ := ih
    rcases visit_cases (Except.ok.inj hvisit) with
      ⟨sp, f, args, function, heq, hselects, hfunction, hr, rfl, rfl⟩ | ⟨rfl, hnot⟩
    · obtain ⟨body, hbody, honce, hresult⟩ := Function.instantiate?_eq_some_iff.1 hr
      let x : Unfolding := ⟨path, plug (c.revisited true cs), function, body, args, n⟩
      have hmade : x.Made functions only := by
        refine ⟨⟨sp, f, ?_, hselects, hfunction⟩, hbody, honce, hresult⟩
        rw [← heq]
        exact hf.focus.at?_plug _
      have hstem : x.StemsFrom functions only whole := by
        obtain ⟨as, rfl, hargs⟩ := Expr.eq_call_of_withChildren heq
        refine ⟨⟨sp, f, as, function, body, hf.node, hselects, hfunction, hbody, honce⟩,
          sp, f, as, hf.node, ?_⟩
        -- all children of a call are visited, and they are its arguments
        have hvisited : (Expr.call sp f as).visitedChildren true = as.length := rfl
        have hcs' : args = cs := by simpa [Expr.children, hvisited] using hargs
        have has := (unfold_of_traversed hcs rfl).2
        simpa [x, Expr.children, hvisited, hcs'] using has
      refine ⟨x :: xs, .step hmade (hf.focus.replaceAt?_plug _ _) hxs, hsub.cons_cons path,
        fun hs p hp hunfolds => ?_, List.forall_mem_cons.2 ⟨hstem, hstems⟩⟩
      rcases List.mem_cons.1 hp with rfl | hp
      · exact List.mem_cons_self
      · exact List.mem_cons_of_mem _ (hall hs p hp hunfolds)
    · refine ⟨xs, hxs, hsub.cons path, fun hs p hp hunfolds => ?_, hstems⟩
      rcases List.mem_cons.1 hp with rfl | hp
      · have hnone := none_of_visits hrest hs
        exact absurd ((Expr.unfoldsAt_iff hf.node cs).1 hunfolds) (hnot hnone).2
      · exact hall hs p hp hunfolds

/-- **Unfolding is a chain of unfoldings**, from left to right and from the inside out, one for each
    call that can be unfolded if there is no fault. -/
theorem Expr.unfolds_unfold (functions : Functions) (only : List String) (e : Expr) :
    ∃ xs, Unfolds functions only e xs (e.unfold functions only).1 ∧
      (xs.map (·.path)).Pairwise Path.Before ∧
      ((e.unfold functions only).2 = none →
        ∀ p, e.UnfoldsAt functions only p ↔ p ∈ xs.map (·.path)) ∧
      ∀ x ∈ xs, x.StemsFrom functions only e := by
  have hrun : (e.bottomUpM true (Unfolding.visits functions only)).run none =
      .ok (e.unfold functions only) := Unfolding.run_bottomUpM e none
  obtain ⟨ps, hvisits, hmem, hsorted⟩ := visits_bottomUpM hrun
  obtain ⟨xs, hxs, hsub, hall, hstems⟩ := Unfolding.unfolds_of_visits hvisits
  refine ⟨xs, hxs, hsorted.sublist hsub, fun hs p => ⟨fun hp => hall hs p ?_ hp, fun hp => ?_⟩, hstems⟩
  · obtain ⟨s, f, args, function, body, hnode, -⟩ := hp
    exact (hmem p).2 ⟨by rw [hnode]; rfl, fun h => by cases h⟩
  · obtain ⟨x, hx, rfl⟩ := List.mem_map.1 hp
    exact (hstems x hx).unfoldsAt

/-! ## Places of arguments -/

/-- Whether `site` gives the places of the arguments in what an unfolded call becomes. -/
structure Unfolding.PlacesArguments (x : Unfolding) (site : Nat → List Nat) : Prop where
  /-- The place is the only one outside methods where the body reads the parameter. -/
  reads : ∀ i p, x.function.params[i]? = some p →
    ∀ q, x.body.ReadsOutside q p.name.name ↔ q = site i
  argument : ∀ i < x.function.params.length,
    x.result.at? (site i) = some (x.args[i]?.getD (.ofNat 0))
  outside : ∀ i < x.function.params.length, x.result.entersMethod (site i) = false
  always : ∀ i < x.function.params.length, x.result.inBranch (site i) = false
  distinct : ∀ i < x.function.params.length, ∀ j < x.function.params.length,
    site i = site j → i = j
  /-- Any other node of the body stays what it is. -/
  rest : ∀ q n, x.body.at? q = some n → (∀ i < x.function.params.length, q ≠ site i) →
    ∃ cs, cs.length = n.children.length ∧ x.result.at? q = some (n.withChildren cs)
  /-- Other arguments do not matter. -/
  dropped : ∀ args : List Expr, (∀ i < x.function.params.length, args[i]? = x.args[i]?) →
    x.function.instantiate? args = some x.result

theorem Function.bindArgs_congr {f : Function} {args args' : List Expr}
    (h : ∀ i < f.params.length, args'[i]? = args[i]?) : f.bindArgs args' = f.bindArgs args := by
  rw [bindArgs, bindArgs]
  congr 1
  refine List.ext_getElem? fun i => ?_
  rw [List.getElem?_mapIdx, List.getElem?_mapIdx]
  cases hi : f.params[i]? with
  | none => rfl
  | some p => rw [h i (List.getElem?_eq_some_iff.1 hi).1]

theorem Unfolding.Made.exists_places {x : Unfolding} (h : x.Made functions only)
    (hdistinct : x.function.paramNames.Nodup) : ∃ site, x.PlacesArguments site := by
  have hsites : ∀ i : Nat, ∃ q, ∀ p : Param, x.function.params[i]? = some p →
      (∀ q', x.body.ReadsOutside q' p.name.name ↔ q' = q) ∧ x.body.inBranch q = false := by
    intro i
    cases hp : x.function.params[i]? with
    | none => exact ⟨[], by simp⟩
    | some p =>
      obtain ⟨q, hq⟩ := h.usesOnce p.name.name (List.mem_map_of_mem (List.mem_of_getElem? hp))
      exact ⟨q, fun p' hp' => Option.some.inj hp' ▸ hq⟩
  choose site hsite using hsites
  have hreads : ∀ i p, x.function.params[i]? = some p →
      x.body.ReadsOutside (site i) p.name.name := fun i p hp => ((hsite i p hp).1 (site i)).2 rfl
  have hparam : ∀ i < x.function.params.length, ∃ p, x.function.params[i]? = some p :=
    fun i hi => ⟨_, List.getElem?_eq_getElem hi⟩
  refine ⟨site, fun i p hp => (hsite i p hp).1, ?_, ?_, ?_, ?_, ?_, ?_⟩
  · intro i hi
    obtain ⟨p, hp⟩ := hparam i hi
    rw [← h.result]
    exact (hreads i p hp).at?_withArgs (Function.lookup_bindArgs hdistinct x.args hp)
  · intro i hi
    obtain ⟨p, hp⟩ := hparam i hi
    obtain ⟨s, y, hy, -⟩ := (hreads i p hp).1.exists_lookup
    rw [← h.result, Expr.entersMethod_withArgs hy, (hreads i p hp).2]
  · intro i hi
    obtain ⟨p, hp⟩ := hparam i hi
    obtain ⟨s, y, hy, -⟩ := (hreads i p hp).1.exists_lookup
    rw [← h.result, Expr.inBranch_withArgs hy, (hsite i p hp).2]
  · intro i hi j hj heq
    obtain ⟨p, hp⟩ := hparam i hi
    obtain ⟨p', hp'⟩ := hparam j hj
    have hname : p.name.name = p'.name.name :=
      (hreads i p hp).1.unique (heq ▸ (hreads j p' hp').1)
    exact Function.index_unique hdistinct hp hp' hname
  · intro q n hn hq
    rw [← h.result]
    refine Expr.exists_withChildren_withArgs hn fun y hy => ?_
    -- the name of a parameter is read at its site only
    rw [lookup_eq_none_iff_not_mem, Function.keys_bindArgs, List.mem_reverse]
    intro hmem
    obtain ⟨p, hp, rfl⟩ := List.mem_map.1 hmem
    obtain ⟨i, hi⟩ := List.mem_iff_getElem?.1 hp
    exact hq i (List.getElem?_eq_some_iff.1 hi).1 (((hsite i p hi).1 q).1 hy)
  · intro args hargs
    refine Function.instantiate?_eq_some_iff.2 ⟨x.body, h.body, h.usesOnce, ?_⟩
    rw [Function.bindArgs_congr hargs, h.result]

theorem Unfolds.made {e e' : Expr} {xs : List Unfolding} (h : Unfolds functions only e xs e') :
    ∀ x ∈ xs, x.Made functions only := by
  induction h with
  | done => exact List.forall_mem_nil _
  | step hmade _ _ ih => exact List.forall_mem_cons.2 ⟨hmade, ih⟩

theorem Unfolding.Made.distinct {x : Unfolding} (h : x.Made functions only)
    (hdistinct : functions.DistinctParams) : x.function.paramNames.Nodup := by
  obtain ⟨s, f, -, -, hfunction⟩ := h.call
  exact hdistinct _ (List.mem_of_find?_eq_some hfunction)

/-- **Each argument of an unfolded call that has a parameter is evaluated once.** It comes to stand at
    the one place outside methods where the body reads the parameter, and that place is in no branch.
    A missing argument is zero there, and an argument without a parameter is dropped. A call is
    unfolded if its function reads each parameter like that. -/
theorem Expr.unfold_uses_arguments_once (hdistinct : functions.DistinctParams) (only : List String)
    (e : Expr) :
    ∃ xs, Unfolds functions only e xs (e.unfold functions only).1 ∧
      (xs.map (·.path)).Pairwise Path.Before ∧
      ((e.unfold functions only).2 = none →
        ∀ p, e.UnfoldsAt functions only p ↔ p ∈ xs.map (·.path)) ∧
      ∀ x ∈ xs, x.StemsFrom functions only e ∧ ∃ site, x.PlacesArguments site := by
  obtain ⟨xs, hxs, hsorted, hall, hstems⟩ := Expr.unfolds_unfold functions only e
  refine ⟨xs, hxs, hsorted, hall, fun x hx => ⟨hstems x hx, ?_⟩⟩
  have hmade := hxs.made x hx
  exact hmade.exists_places (hmade.distinct hdistinct)

end

/-- A function that no source text holds. -/
def Function.plain (name : String) (params : List String) (body : Expr) : Function :=
  ⟨.nowhere, .plain name, false, false, params.map fun p => ⟨.nowhere, .plain p, none⟩, none,
    some body⟩

/-- `function inc(x) { x + 1 }` -/
def Functions.successor : Functions :=
  ⟨[Function.plain "inc" ["x"] (.binary .nowhere (.arith .add) (.var "x") (.ofNat 1))]⟩

/-- A call that no source text holds. -/
def Expr.callOf (f : String) (args : List Expr) : Expr :=
  .call .nowhere (.plain f) args

instance (functions : Functions) : Decidable functions.DistinctParams :=
  inferInstanceAs (Decidable (∀ f ∈ functions.toList, f.paramNames.Nodup))

/-- The calls in `inc(inc(a), b)`. -/
theorem Expr.unfold_uses_arguments_once_inc :
    let e := Expr.callOf "inc" [.callOf "inc" [.var "a"], .var "b"]
    Functions.successor.DistinctParams ∧
    ∃ xs, Unfolds Functions.successor [] e xs (e.unfold Functions.successor []).1 ∧
      (xs.map (·.path)).Pairwise Path.Before ∧
      ((e.unfold Functions.successor []).2 = none →
        ∀ p, e.UnfoldsAt Functions.successor [] p ↔ p ∈ xs.map (·.path)) ∧
      ∀ x ∈ xs, x.StemsFrom Functions.successor [] e ∧ ∃ site, x.PlacesArguments site :=
  ⟨by decide, Expr.unfold_uses_arguments_once (by decide) [] _⟩

/-- **An argument without a parameter is lost.** The call `inc(a, b)` becomes `a + 1`. -/
theorem Expr.unfold_drops_argument :
    Functions.successor.DistinctParams ∧
    (Expr.callOf "inc" [.var "a", .var "b"]).unfold Functions.successor [] =
      (.binary .nowhere (.arith .add) (.var "a") (.ofNat 1), none) :=
  ⟨by decide, rfl⟩

end GameHop
