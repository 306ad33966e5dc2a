import GameHop.Proofs.Inlining.Expansion

/-!
Which invocations inlining expands. A target is recognised by its name: what declares the name
around the invocation is not looked at, nor is what is assigned to it.
-/

namespace GameHop

/-! ## Names around a place -/

/-- A name is declared around a place by an object literal on the way to it. -/
theorem Expr.exists_literal_of_mem_declaredAt {e : Expr} {path : List Nat} {y : String}
    (hy : y ∈ e.declaredAt path) : ∃ p s o i r, path = p ++ i :: r ∧ e.at? p = some (.new s o) ∧
      y ∈ o.declaredIn i := by
  induction path generalizing e with
  | nil => cases hy
  | cons i path ih =>
    rcases List.mem_append.1 hy with hy | hy
    · cases e with
      | new s o => exact ⟨[], s, o, i, path, rfl, rfl, hy⟩
      | _ => cases hy
    · cases hc : e.children[i]? with
      | none => simp [hc] at hy
      | some c =>
        rw [hc, Option.map_some, Option.getD_some] at hy
        obtain ⟨p, s, o, j, r, rfl, hp, hy⟩ := ih hy
        exact ⟨i :: p, s, o, j, r, rfl, by simp [at?, hc, hp], hy⟩

/-- Outside methods, object literals declare the fields before. -/
theorem Expr.exists_field_of_mem_declaredAt {e : Expr} {path : List Nat} {y : String}
    (houtside : e.entersMethod path = false) (hy : y ∈ e.declaredAt path) :
    ∃ p s o i r, path = p ++ i :: r ∧ e.at? p = some (.new s o) ∧
      y ∈ (o.fields.take i).map (·.name.name) := by
  obtain ⟨p, s, o, i, r, rfl, hp, hy⟩ := exists_literal_of_mem_declaredAt hy
  refine ⟨p, s, o, i, r, rfl, hp, ?_⟩
  have hbody : (new s o).isBody i = false := by
    simp only [entersMethod_append, hp, entersMethod, Option.map_some, Option.getD_some,
      Bool.or_eq_false_iff] at houtside
    exact houtside.2.1
  have hi : i < o.fields.length := by simpa [isBody] using hbody
  simpa [Object.declaredIn, hi] using hy

/-! ## Objects in fields -/

/-- Whether no field of an object literal holds an object literal. -/
def Expr.IsFlat (e : Expr) : Prop :=
  ∀ o, e.unparen.object? = some o → ∀ f ∈ o.fields, f.value.unparen.object? = none

theorem Expr.isFlat_of_object?_eq_none {e : Expr} (h : e.unparen.object? = none) : e.IsFlat :=
  fun o ho => absurd (h.symm.trans ho) (Option.some_ne_none o).symm

theorem Expr.object?_unparen_rename (names : Renaming) (e : Expr) :
    (e.rename names).unparen.object? = none ↔ e.unparen.object? = none := by
  fun_induction unparen e with
  | case1 s e ih => exact ih
  | case2 e hparen =>
    have hunparen : (e.rename names).unparen = e.rename names := by
      cases e with
      | paren s l e =>
        cases l with
        | none => exact absurd rfl (hparen s e)
        | some l => rfl
      | new s o => obtain ⟨n, fs, ms⟩ := o; rfl
      | _ => rfl
    rw [hunparen, object?_rename]

namespace Inlining

/-- Lifted fields hold no objects, if the dissolved object was flat. -/
theorem Lifting.Made.object?_lifted {scope : Scope} {L : Lifting} {given : List String}
    (h : L.Made scope given) (hinner : ∀ f ∈ L.inner.fields, f.value.unparen.object? = none) :
    ∀ f ∈ L.lifted, f.value.unparen.object? = none := by
  intro f hf
  obtain ⟨i, hi⟩ := List.mem_iff_getElem?.1 hf
  obtain ⟨f₀, hf₀, hvalue⟩ := h.lifted.values i f hi
  rw [hvalue, Expr.object?_unparen_rename]
  exact hinner f₀ (List.mem_of_getElem? hf₀)

theorem object?_dissolveFields {scope : Scope} {done todo fields : List Field}
    {methods methods' : List Method} {given given' : List String}
    (hdone : ∀ f ∈ done, f.value.unparen.object? = none) (htodo : ∀ f ∈ todo, f.value.IsFlat)
    (h : (dissolveFields scope done methods todo).run given = .ok ((fields, methods'), given')) :
    ∀ f ∈ fields, f.value.unparen.object? = none := by
  induction todo generalizing done methods given with
  | nil =>
    obtain ⟨heq, -⟩ := Program.eq_of_pure h
    cases heq
    exact hdone
  | cons f fs ih =>
    rw [List.forall_mem_cons] at htodo
    unfold dissolveFields at h
    split at h
    · rename_i hf
      exact ih (List.forall_mem_append.2 ⟨hdone, by simpa using hf⟩) htodo.2 h
    · rename_i inner hinner
      obtain ⟨⟨lifted, ms⟩, given₁, hdissolve, hrest⟩ := Program.ok_of_bind h
      obtain ⟨L, hL, -, -, rfl, rfl, -⟩ := made_of_dissolve hinner hdissolve []
      have hlifted := hL.object?_lifted (htodo.1 L.inner hinner)
      exact ih (List.forall_mem_append.2 ⟨hdone, hlifted⟩) htodo.2 hrest

end Inlining

/-- A visit leaves a flat expression, if the children were flat. -/
theorem Expr.isFlat_visit {scope : Scope} {e e' : Expr} {given given' : List String}
    (hchildren : ∀ c ∈ e.children, c.IsFlat)
    (h : (Inlining.visit scope e).run given = .ok (e', given')) : e'.IsFlat := by
  unfold Inlining.visit at h
  split at h
  · rename_i s o
    obtain ⟨⟨fields, methods⟩, given₁, hdissolve, h⟩ := Program.ok_of_bind h
    obtain ⟨rfl, -⟩ := Program.eq_of_pure h
    have hfields : ∀ f ∈ o.fields, f.value.IsFlat := fun f hf =>
      hchildren _ (List.mem_append_left _ (List.mem_map_of_mem hf))
    rintro _ ⟨⟩
    exact Inlining.object?_dissolveFields (List.forall_mem_nil _) hfields hdissolve
  · rename_i hnew
    obtain ⟨rfl, -⟩ := Program.eq_of_pure h
    cases e with
    | new s o => exact absurd rfl (hnew s o)
    | paren s l e =>
      cases l with
      | none => exact hchildren e (.head _)
      | some l => exact isFlat_of_object?_eq_none rfl
    | _ => exact isFlat_of_object?_eq_none rfl

theorem Expr.isFlat_of_run {scope : Scope} {e e' : Expr} {given given' : List String}
    (h : (e.bottomUpM true (Inlining.visit scope)).run given = .ok (e', given')) : e'.IsFlat := by
  induction e using inductNode generalizing e' given given' with
  | step e ih =>
    obtain ⟨cs, given₁, hcs, hvisit⟩ := ok_of_bottomUpM h
    refine isFlat_visit ?_ hvisit
    rw [children_revisited_true hcs.length_eq]
    exact hcs.forall fun c hc _ _ _ hrun => ih c (List.mem_of_mem_take hc) hrun

/-- **After inlining, no field of the program holds an object.** -/
theorem Expr.isFlat_of_inlineObjects {scope : Scope} {names : List String} {e e' : Expr}
    (h : e.inlineObjects scope names = .ok e') : e'.IsFlat := by
  obtain ⟨⟨_, given⟩, hrun, heq⟩ := except_bind_eq_ok h
  cases heq
  exact isFlat_of_run hrun

namespace Inlining

/-! ## Invocations -/

/-- **The invocations that are expanded in a method around a dissolved object.** -/
structure Lifting.Calls (L : Lifting) (c : Caller) : Prop where
  /-- They are expanded from the left to the right, and inner ones first. -/
  sorted : (c.expansions.map (·.path)).Pairwise Path.Before
  /-- They are the invocations on the name of the field outside the methods of object literals. -/
  expanded : ∀ p, p ∈ c.expansions.map (·.path) ↔
    c.method.body.IsReached false p ∧ c.method.body.InvokesAt L.field.name.name p
  /-- The callee is the first method of the dissolved object with the name that is invoked. -/
  callee : ∀ x ∈ c.expansions, ∃ s target m cs args,
    c.method.body.at? x.path = some (.invoke s target m cs args) ∧
    L.inner.methods.find? (·.name.name == m.name) = some x.callee
  /-- The target denotes the field, unless the method has a parameter of this name, or the invocation
      stands in an object literal after a field of this name. -/
  denotes : ∀ x ∈ c.expansions, c.method.DenotesField x.path L.field.name.name ∨
    L.field.name.name ∈ c.method.paramNames ∨
    ∃ p s o i r, x.path = p ++ i :: r ∧ c.method.body.at? p = some (.new s o) ∧
      L.field.name.name ∈ (o.fields.take i).map (·.name.name)
  /-- No read of the field is left, but one of a parameter may be. -/
  read : L.field.name.name ∈ c.body.free → L.field.name.name ∈ c.method.paramNames
  /-- An assignment to the field is left, unless it is in an argument without a parameter. -/
  assigned : L.field.name.name ∈ c.method.body.assigned →
    L.field.name.name ∈ c.body.assigned ∨ ∃ x ∈ c.expansions, x.Drops L.field.name.name

theorem Lifting.Made.calls {scope : Scope} {L : Lifting} {given : List String}
    (h : L.Made scope given) {c : Caller} (hc : c ∈ L.callers) : L.Calls c := by
  have hmade := h.callers c hc
  obtain ⟨-, hmethods⟩ := isReferenced_eq_false.1 h.unread
  refine ⟨hmade.sorted, hmade.mem_paths, fun x hx => ?_, fun x hx => ?_, fun hread => ?_,
    fun hassigned => ?_⟩
  · obtain ⟨s, target, m, cs, args, hnode, -, hcallee⟩ := (hmade.stems x hx).invocation
    exact ⟨s, target, m, cs, args, hnode, hcallee⟩
  · by_cases hparam : L.field.name.name ∈ c.method.paramNames
    · exact .inr (.inl hparam)
    by_cases hdeclared : L.field.name.name ∈ c.method.body.declaredAt x.path
    · have hreached := ((hmade.mem_paths x.path).1 (List.mem_map_of_mem hx)).1
      exact .inr (.inr (Expr.exists_field_of_mem_declaredAt (hreached.2 rfl) hdeclared))
    · exact .inl ⟨hparam, hdeclared⟩
  · exact hmethods c.result (List.mem_map_of_mem hc) hread
  · by_cases hdrops : ∃ x ∈ c.expansions, x.Drops L.field.name.name
    · exact .inr hdrops
    · refine .inl (hmade.expands.mem_assigned (fun x hx hdrop => hdrops ⟨x, hx, hdrop⟩) hassigned)

end Inlining

/-- **The invocations that inlining expands.** Where an object is dissolved, the field that held it is
    read by no initial value of the object around it, and in every method of that object the
    invocations on the name of the field are expanded. At the end no field of the program itself
    holds an object. -/
theorem Expr.calls_of_inlineObjects {scope : Scope} {names : List String} {e e' : Expr}
    (h : e.inlineObjects scope names = .ok e') :
    e'.IsFlat ∧ ∃ Ls given, Inlining.Inlines scope e names Ls e' given ∧
      ∀ L ∈ Ls, L.field.value.unparen.object? = some L.inner ∧
        (∀ f ∈ L.before ++ L.lifted ++ L.after, L.field.name.name ∉ f.value.free) ∧
        ∀ c ∈ L.callers, L.Calls c := by
  obtain ⟨Ls, given, hLs⟩ := Expr.inlines_of_inlineObjects h
  refine ⟨Expr.isFlat_of_inlineObjects h, Ls, given, hLs, fun L hL => ?_⟩
  obtain ⟨given₁, hmade⟩ := hLs.made L hL
  exact ⟨hmade.object, (Inlining.isReferenced_eq_false.1 hmade.unread).1, fun c hc => hmade.calls hc⟩

/-- In `new (o = new () { method f(x) { x } }) { method g(p) { o.f(p.f(o.f(1))) } method h(o) { o } }`
    the two invocations on `o` are expanded, and the one on `p` is not. -/
theorem Expr.calls_nested :
    let assign (x : String) (e : Expr) : Expr := .assign .nowhere (.plain x) e
    let body (x : String) (arg : Expr) : Expr :=
      .paren .nowhere none (.seq .nowhere (assign x arg) (.var x))
    let e := Expr.literal [.plain "o" (.literal [] [.plain "f" ["x"] (.var "x")])]
      [.plain "g" ["p"] (.invocation "o" "f" [.invocation "p" "f" [.invocation "o" "f" [.ofNat 1]]]),
        .plain "h" ["o"] (.var "o")]
    let e' := Expr.literal []
      [.plain "g" ["p"] (body "l_1" (.invocation "p" "f" [body "l_0" (.ofNat 1)])),
        .plain "h" ["o"] (.var "o")]
    e.inlineObjects .empty [] = .ok e' ∧ e'.IsFlat ∧
      ∃ Ls given, Inlining.Inlines .empty e [] Ls e' given ∧
        ∀ L ∈ Ls, L.field.value.unparen.object? = some L.inner ∧
          (∀ f ∈ L.before ++ L.lifted ++ L.after, L.field.name.name ∉ f.value.free) ∧
          ∀ c ∈ L.callers, L.Calls c :=
  ⟨rfl, Expr.calls_of_inlineObjects rfl⟩

/-- Invocations are expanded that are not on the dissolved object
    `o = new () { method f() { 1 } }`: in `method g(o) { o.f() }` on a parameter, in
    `method g(p) { o = p; o.f() }` on what was assigned to the field, and in
    `method g(p) { new (o = p, q = o.f()) {} }` on a field of another object. -/
theorem Expr.calls_on_others :
    let call := Expr.invocation "o" "f" []
    let one := Expr.paren .nowhere none (.ofNat 1)
    let program (g : Method) : Expr :=
      .literal [.plain "o" (.literal [] [.plain "f" [] (.ofNat 1)])] [g]
    let onAssigned (e : Expr) : Expr := .seq .nowhere (.assign .nowhere (.plain "o") (.var "p")) e
    let onField (e : Expr) : Expr := .literal [.plain "o" (.var "p"), .plain "q" e] []
    (program (.plain "g" ["o"] call)).inlineObjects .empty [] =
      .ok (.literal [] [.plain "g" ["o"] one]) ∧
    (program (.plain "g" ["p"] (onAssigned call))).inlineObjects .empty [] =
      .ok (.literal [] [.plain "g" ["p"] (onAssigned one)]) ∧
    (program (.plain "g" ["p"] (onField call))).inlineObjects .empty [] =
      .ok (.literal [] [.plain "g" ["p"] (onField one)]) :=
  ⟨rfl, rfl, rfl⟩

end GameHop
