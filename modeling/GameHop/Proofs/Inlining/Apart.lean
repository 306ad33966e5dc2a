import GameHop.Proofs.Inlining.Expansion

/-!
How the names that inlining chooses keep apart from the names around them. New names are chosen
against what a method reads, its parameters and the fields of its object.
-/

namespace GameHop

namespace Inlining

/-! ## Variables -/

/-- Whether a name is a variable of a method of the dissolved object: a parameter, or a name that it
    reads or assigns besides the fields of the object and the names declared outside. -/
def Lifting.IsVariable (scope : Scope) (L : Lifting) (m : Method) (v : String) : Prop :=
  v ∈ m.paramNames ∨
    ((v ∈ m.body.free ∨ v ∈ m.body.assigned) ∧ v ∉ L.inner.fieldNames ∧ v ∉ scope.allNames)

/-- Whether a place in the body of a method of the dissolved object holds a name that stays as it is
    where the body goes. It stands in a method of an object literal; or it is neither a parameter nor a
    field, and it is declared outside or never read. -/
def Lifting.Keeps (scope : Scope) (L : Lifting) (m : Method) (q : List Nat) (y : String) : Prop :=
  m.body.namedAt? q = some y ∧ (m.body.entersMethod q = true ∨
    (y ∉ m.paramNames ∧ y ∉ L.inner.fieldNames ∧ (y ∈ scope.allNames ∨ y ∉ m.body.free)))

/-- **How the new name `y` of a variable `v` keeps apart** in the calling method of an expansion. -/
structure Lifting.Apart (scope : Scope) (L : Lifting) (c : Caller) (x : Expansion) (v y : String) :
    Prop where
  /-- It has the least number that is left. -/
  numbered : IsNumbered "l_" (c.method.body.free ++ c.method.paramNames ++ L.members ++
    c.expansions.flatMap fun x => ((L.site scope).newNames x).map (·.2)) y
  member : y ∉ L.members
  param : y ∉ c.method.paramNames
  read : y ∉ c.method.body.free
  /-- No other variable gets it in the method. -/
  unique : ∀ x' ∈ c.expansions, ∀ v', ((L.site scope).newNames x').lookup v' = some y →
    x' = x ∧ v' = v
  /-- It stands for the variable wherever it is, unless a callee keeps the same name. -/
  occurrence : ∀ x' ∈ c.expansions, ∀ q, ((L.site scope).spliced x').namedAt? q = some y →
    (x' = x ∧ x.callee.body.namedAt? q = some v) ∨ L.Keeps scope x'.callee q y
  /-- If it was in the method before, the method had it at first, or an earlier callee kept it. -/
  earlier : y ∈ x.before.variables → y ∈ c.method.body.variables ∨
    ∃ x' ∈ c.expansions, Path.Before x'.path x.path ∧ ∃ q, L.Keeps scope x'.callee q y

/-- The names in a calling method before an expansion: those at first, and those of the expansions
    before it. -/
theorem Caller.Made.mem_variables_before {site : CallSite} {members : List String} {c : Caller}
    (h : c.Made site members) {x : Expansion} (hx : x ∈ c.expansions) {y : String}
    (hy : y ∈ x.before.variables) :
    y ∈ c.method.body.variables ∨ ∃ x' ∈ c.expansions, Path.Before x'.path x.path ∧
      (y ∈ (site.newNames x').map (·.2) ∨ y ∈ (site.spliced x').variables) := by
  obtain ⟨as, bs, hsplit⟩ := List.append_of_mem hx
  have hexpands := h.expands
  have hsorted := h.sorted
  rw [hsplit] at hexpands
  rw [hsplit, List.map_append, List.map_cons, List.pairwise_append] at hsorted
  rcases hexpands.split.mem_variables hy with hy | ⟨x', hx', hy⟩
  · exact .inl hy
  · refine .inr ⟨x', hsplit ▸ List.mem_append_left _ hx', ?_, hy⟩
    exact hsorted.2.2 x'.path (List.mem_map_of_mem hx') x.path List.mem_cons_self

section
variable {scope : Scope} {L : Lifting} {given : List String} (h : L.Made scope given)
include h

/-- What a name in the body of a callee becomes: it keeps its name, or it is a variable or a field. -/
theorem Lifting.Made.spliced_cases {x : Expansion} {q : List Nat} {y : String}
    (hy : ((L.site scope).spliced x).namedAt? q = some y) :
    L.Keeps scope x.callee q y ∨ ∃ v, x.callee.body.namedAt? q = some v ∧
      (((L.site scope).newNames x).lookup v = some y ∨ y ∈ L.liftedNames) := by
  rw [CallSite.spliced, Expr.namedAt?_rename] at hy
  obtain ⟨u, hu, hy⟩ := Option.map_eq_some_iff.1 hy
  split at hy
  · rename_i henters
    subst hy
    exact .inl ⟨hu, .inl henters⟩
  · cases hlookup : ((L.site scope).names x).lookup u with
    | none =>
      obtain rfl : u = y := by rwa [Renaming.apply_of_lookup_eq_none hlookup] at hy
      obtain ⟨hvar, hfield⟩ := CallSite.lookup_names_eq_none.1 hlookup
      have hfield := h.lookup_eq_none.1 hfield
      rw [h.mem_variables, not_or] at hvar
      refine .inl ⟨hu, .inr ⟨hvar.1, hfield, ?_⟩⟩
      by_contra hfree
      simp only [not_or, not_not] at hfree
      exact hvar.2 ⟨hfree.2, hfield, hfree.1⟩
    | some z =>
      obtain rfl : z = y := by rwa [Renaming.apply_of_lookup hlookup] at hy
      refine .inr ⟨u, hu, ?_⟩
      rcases CallSite.lookup_names hlookup with ⟨-, hnew⟩ | ⟨-, hfield⟩
      · exact .inl hnew
      · exact .inr (h.mem_liftedNames hfield)

variable {c : Caller} (hc : c ∈ L.callers) {x : Expansion} (hx : x ∈ c.expansions) {v y : String}
  (hy : ((L.site scope).newNames x).lookup v = some y)
include hc hx hy

theorem Lifting.Made.newName_not_mem :
    y ∉ c.method.body.free ++ c.method.paramNames ++ L.members :=
  fun hmem => ((freshLocals_fresh _ _).2 y (CallSite.mem_of_lookup_newNames hy)).1
    ((h.callers c hc).expands.scope_subset x hx hmem)

theorem Lifting.Made.newName_unique : ∀ x' ∈ c.expansions, ∀ v',
    ((L.site scope).newNames x').lookup v' = some y → x' = x ∧ v' = v := by
  intro x' hx' v' hy'
  obtain rfl := (h.callers c hc).expands.eq_of_mem_newNames hx' hx
    (CallSite.mem_of_lookup_newNames hy') (CallSite.mem_of_lookup_newNames hy)
  exact ⟨rfl, CallSite.newNames_injective hy' hy⟩

theorem Lifting.Made.newName_occurrence : ∀ x' ∈ c.expansions, ∀ q,
    ((L.site scope).spliced x').namedAt? q = some y →
    (x' = x ∧ x.callee.body.namedAt? q = some v) ∨ L.Keeps scope x'.callee q y := by
  intro x' hx' q hq
  rcases h.spliced_cases hq with hkeeps | ⟨u, hu, hnew | hlifted⟩
  · exact .inr hkeeps
  · obtain ⟨rfl, rfl⟩ := h.newName_unique hc hx hy x' hx' u hnew
    exact .inl ⟨rfl, hu⟩
  · have hmember : y ∈ L.members := List.mem_append_right _ hlifted
    exact absurd (List.mem_append_right _ hmember) (h.newName_not_mem hc hx hy)

/-- **New names of variables keep apart.** -/
theorem Lifting.Made.apart : L.Apart scope c x v y := by
  have hmade := h.callers c hc
  have hnew := CallSite.mem_of_lookup_newNames hy
  have hscope := h.newName_not_mem hc hx hy
  simp only [List.mem_append, not_or] at hscope
  have hoccurrence := h.newName_occurrence hc hx hy
  refine ⟨((freshLocals_fresh _ _).2 y hnew).2.mono ?_, hscope.2, hscope.1.2, hscope.1.1,
    h.newName_unique hc hx hy, hoccurrence, fun hbefore => ?_⟩
  · refine List.append_subset.2 ⟨hmade.expands.scope_eq x hx, fun z hz => ?_⟩
    exact List.mem_append_right _ (List.mem_flatMap.2 ⟨x, hx, hz⟩)
  · rcases hmade.mem_variables_before hx hbefore with hbody | ⟨x', hx', hpath, hx'y⟩
    · exact .inl hbody
    -- no path is before itself
    have hne : x' ≠ x := by
      rintro rfl
      exact hpath.not_isPrefix (List.prefix_refl _)
    refine .inr ⟨x', hx', hpath, ?_⟩
    rcases hx'y with hnew' | hspliced
    · exact absurd (hmade.expands.eq_of_mem_newNames hx' hx hnew' hnew) hne
    · obtain ⟨q, hq⟩ := Expr.mem_variables_iff.1 hspliced
      exact ⟨q, (hoccurrence x' hx' q hq).resolve_left fun hsame => hne hsame.1⟩

end

/-- A numbered variable is a field only if its name is given for a field. -/
theorem Lifting.Made.mem_given_of_isNumbered {scope : Scope} {L : Lifting} {given taken : List String}
    (h : L.Made scope given) {y : String} (hy : IsNumbered "l_" taken y) (hmem : y ∈ L.liftedNames) :
    y ∈ L.given := by
  refine (h.lifted.fresh y hmem).2.resolve_right ?_
  rintro ⟨k, hk, -⟩
  obtain ⟨n, hn, -⟩ := hy
  have hchars := congrArg String.toList (hn.symm.trans hk)
  simp at hchars

end Inlining

/-- **The variables of inlined methods.** A parameter, and a variable that the method reads, get a new
    name that keeps apart; later it is the name of a field only if it is given for one. A variable that
    the method only assigns keeps its name. -/
theorem Expr.newNames_apart_of_inlineObjects {scope : Scope} {names : List String} {e e' : Expr}
    (h : e.inlineObjects scope names = .ok e') :
    ∃ Ls given, Inlining.Inlines scope e names Ls e' given ∧
      ∀ L ∈ Ls, ∀ c ∈ L.callers, ∀ x ∈ c.expansions, ∀ v, L.IsVariable scope x.callee v →
        let y := ((L.site scope).names x).apply v
        (v ∈ x.callee.paramNames ∨ v ∈ x.callee.body.free →
          L.Apart scope c x v y ∧ ∀ L' ∈ Ls, y ∈ L'.liftedNames → y ∈ names) ∧
        (v ∉ x.callee.paramNames → v ∉ x.callee.body.free → y = v) := by
  obtain ⟨Ls, given, hLs⟩ := Expr.inlines_of_inlineObjects h
  refine ⟨Ls, given, hLs, fun L hL c hc x hx v hv => ?_⟩
  obtain ⟨given₁, hmade⟩ := hLs.made L hL
  refine ⟨fun hread => ?_, fun hparam hfree => ?_⟩
  · have hvar : v ∈ (L.site scope).variables x.callee := by
      rw [hmade.mem_variables]
      exact hread.elim .inl fun hfree => hv.imp_right fun hv => ⟨hfree, hv.2⟩
    obtain ⟨y, hy, happly⟩ := Inlining.CallSite.exists_newName hvar
    have hapart := hmade.apart hc hx hy
    rw [happly]
    refine ⟨hapart, fun L' hL' hmem => ?_⟩
    obtain ⟨given₂, hmade'⟩ := hLs.made L' hL'
    exact hLs.given_subset L' hL' (hmade'.mem_given_of_isNumbered hapart.numbered hmem)
  · refine Renaming.apply_of_lookup_eq_none (Inlining.CallSite.lookup_names_eq_none.2 ⟨?_, ?_⟩)
    · rw [hmade.mem_variables]
      exact fun hvar => hvar.elim hparam fun hvar => hfree hvar.1
    · exact hmade.lookup_eq_none.2 (hv.resolve_left hparam).2.1

/-- In `new (o = new (k = 1) { method f(x) { t = x; x } }) { method g(l_0) { o.f(o.f(l_0)) } }` the
    parameter `x` becomes `l_1` and `l_2`, and the variable `t` stays. -/
theorem Expr.newNames_apart_twice :
    let assign (x : String) (e : Expr) : Expr := .assign .nowhere (.plain x) e
    let seq (a b : Expr) : Expr := .seq .nowhere a b
    let body (x : String) (arg : Expr) : Expr :=
      .paren .nowhere none (seq (assign x arg) (seq (assign "t" (.var x)) (.var x)))
    let e := Expr.literal
      [.plain "o" (.literal [.plain "k" (.ofNat 1)]
        [.plain "f" ["x"] (seq (assign "t" (.var "x")) (.var "x"))])]
      [.plain "g" ["l_0"] (.invocation "o" "f" [.invocation "o" "f" [.var "l_0"]])]
    let e' := Expr.literal [.plain "m_0" (.ofNat 1)]
      [.plain "g" ["l_0"] (body "l_2" (body "l_1" (.var "l_0")))]
    e.inlineObjects .empty [] = .ok e' ∧
      ∃ Ls given, Inlining.Inlines .empty e [] Ls e' given ∧
        ∀ L ∈ Ls, ∀ c ∈ L.callers, ∀ x ∈ c.expansions, ∀ v, L.IsVariable .empty x.callee v →
          let y := ((L.site .empty).names x).apply v
          (v ∈ x.callee.paramNames ∨ v ∈ x.callee.body.free →
            L.Apart .empty c x v y ∧ ∀ L' ∈ Ls, y ∈ L'.liftedNames → y ∈ []) ∧
          (v ∉ x.callee.paramNames → v ∉ x.callee.body.free → y = v) :=
  ⟨rfl, Expr.newNames_apart_of_inlineObjects rfl⟩

/-- The variables of inlined methods can meet other names: a parameter gets the name of a constant
    `l_0` that the method reads; a variable `t` that the method only assigns meets a parameter of the
    calling method; and a parameter gets the name of a variable `l_0` that the calling method only
    assigns. -/
theorem Expr.newNames_meet_others :
    let assign (x : String) (e : Expr) : Expr := .assign .nowhere (.plain x) e
    let seq (a b : Expr) : Expr := .seq .nowhere a b
    let add (a b : Expr) : Expr := .binary .nowhere (.arith .add) a b
    let paren (e : Expr) : Expr := .paren .nowhere none e
    let program (f g : Method) : Expr := .literal [.plain "o" (.literal [] [f])] [g]
    let constants : Scope := ⟨[⟨.constant, [("l_0", .value)]⟩]⟩
    (program (.plain "f" ["x"] (add (.var "l_0") (.var "x")))
        (.plain "g" [] (.invocation "o" "f" [.ofNat 1]))).inlineObjects constants [] =
      .ok (.literal [] [.plain "g" []
        (paren (seq (assign "l_0" (.ofNat 1)) (add (.var "l_0") (.var "l_0"))))]) ∧
    (program (.plain "f" [] (seq (assign "t" (.ofNat 1)) (.ofNat 2)))
        (.plain "g" ["t"] (add (.invocation "o" "f" []) (.var "t")))).inlineObjects .empty [] =
      .ok (.literal [] [.plain "g" ["t"]
        (add (paren (seq (assign "t" (.ofNat 1)) (.ofNat 2))) (.var "t"))]) ∧
    (program (.plain "f" ["x"] (.var "x"))
        (.plain "g" [] (seq (assign "l_0" (.ofNat 5)) (.invocation "o" "f" [.ofNat 1])))).inlineObjects
        .empty [] =
      .ok (.literal [] [.plain "g" [] (seq (assign "l_0" (.ofNat 5))
        (paren (seq (assign "l_0" (.ofNat 1)) (.var "l_0"))))]) :=
  ⟨rfl, rfl, rfl⟩

namespace Inlining

/-! ## Fields -/

/-- **How the new name `y` of a lifted field keeps apart.** -/
structure Lifting.FieldApart (scope : Scope) (L : Lifting) (y : String) : Prop where
  /-- The other fields of the object around have other names. -/
  other : y ∉ L.otherNames
  declared : y ∉ scope.allNames
  assigned : ∀ m ∈ L.inner.methods, y ∉ m.body.assigned
  newName : ∀ c ∈ L.callers, ∀ x ∈ c.expansions, y ∉ ((L.site scope).newNames x).map (·.2)
  /-- It is given, or it has the least number that is left. -/
  chosen : y ∈ L.given ∨ IsNumbered "m_" (L.taken scope ++ L.liftedNames) y

/-- **What becomes of a reference to a field `k`** at the place `q` of a callee. The body of the calling
    method after the expansion is `u`. -/
structure Lifting.Refers (L : Lifting) (c : Caller) (x : Expansion) (q : List Nat) (k : String)
    (u : Expr) : Prop where
  /-- In a method of an object literal it stays as it is. -/
  inMethod : x.callee.body.entersMethod q = true → u.namedAt? (x.place q) = some k
  /-- Elsewhere it has the new name of the field. It denotes the field, unless a parameter of the
      calling method or an object literal around it has this name. -/
  elsewhere : x.callee.body.entersMethod q = false → ∃ y ∈ L.liftedNames,
    L.names.lookup k = some y ∧ u.namedAt? (x.place q) = some y ∧
    (Method.DenotesField { c.method with body := u } (x.place q) y ↔ y ∉ c.method.paramNames ∧
      y ∉ c.method.body.declaredAt x.path ∧ y ∉ x.callee.body.declaredAt q)

section
variable {scope : Scope} {L : Lifting} {given : List String} (h : L.Made scope given)
include h

/-- **New names of fields keep apart.** -/
theorem Lifting.Made.fieldApart {y : String} (hy : y ∈ L.liftedNames) : L.FieldApart scope y := by
  obtain ⟨hfresh, hchosen⟩ := h.lifted.fresh y hy
  simp only [taken, List.mem_append, not_or] at hfresh
  obtain ⟨⟨hother, hlocals⟩, hdeclared⟩ := hfresh
  refine ⟨hother, hdeclared, fun m hm hassigned => hlocals ?_, fun c hc x hx hnew => ?_, hchosen⟩
  · refine List.mem_flatMap.2 ⟨m, hm, List.mem_eraseDups.2 (List.mem_filter.2 ⟨hassigned, ?_⟩)⟩
    simpa using mt Scope.mem_allNames_of_declares hdeclared
  · have hmember : y ∈ L.members := List.mem_append_right _ hy
    exact ((freshLocals_fresh _ _).2 y hnew).1
      ((h.callers c hc).expands.scope_subset x hx (List.mem_append_right _ hmember))

theorem Lifting.Made.exists_refers {c : Caller} (hc : c ∈ L.callers) {x : Expansion}
    (hx : x ∈ c.expansions) {q : List Nat} {k : String} (hq : x.callee.body.namedAt? q = some k)
    (hk : k ∈ L.inner.fieldNames) (hparam : k ∉ x.callee.paramNames) :
    ∃ u, x.before.replaceAt? x.path ((L.site scope).expanded x) = some u ∧
      L.Refers c x q k u := by
  obtain ⟨n, u, hu, hreplaces⟩ := (h.callers c hc).expands.replaces x hx
  have hnamed := CallSite.namedAt?_of_replaces hreplaces q
  rw [CallSite.spliced, Expr.namedAt?_rename, hq, Option.map_some] at hnamed
  refine ⟨u, hu, fun henters => ?_, fun henters => ?_⟩
  · rw [hnamed, if_pos henters]
  · rw [henters, if_neg Bool.false_ne_true] at hnamed
    obtain ⟨y, hy⟩ := Option.ne_none_iff_exists'.1 (mt h.lookup_eq_none.1 (not_not.2 hk))
    have hvar : k ∉ (L.site scope).variables x.callee := by
      rw [h.mem_variables]
      exact fun hvar => hvar.elim hparam fun hvar => hvar.2.1 hk
    have happly : ((L.site scope).names x).apply k = y := by
      refine Renaming.apply_of_lookup ?_
      rw [CallSite.names, List.lookup_append, CallSite.lookup_newNames_eq_none.2 hvar]
      exact hy
    refine ⟨y, h.mem_liftedNames hy, hy, by rw [hnamed, happly], ?_⟩
    have hdeclared := CallSite.declaredAt_of_replaces hreplaces q
    rw [((h.callers c hc).stems x hx).declared] at hdeclared
    simp only [Method.DenotesField, Method.paramNames, hdeclared, List.mem_append, not_or]

end

end Inlining

/-- **The fields of inlined objects.** They get different names, which keep apart. A reference to such a
    field in an expanded method denotes the field under its new name, unless a parameter of the calling
    method or an object literal around the reference has this name, or the reference stands in a method
    of an object literal. -/
theorem Expr.fields_apart_of_inlineObjects {scope : Scope} {names : List String} {e e' : Expr}
    (h : e.inlineObjects scope names = .ok e') :
    ∃ Ls given, Inlining.Inlines scope e names Ls e' given ∧
      ∀ L ∈ Ls, L.liftedNames.Nodup ∧
        (∀ y ∈ L.liftedNames, L.FieldApart scope y ∧ (y ∈ L.given → y ∈ names)) ∧
        ∀ c ∈ L.callers, ∀ x ∈ c.expansions, ∀ q k, x.callee.body.namedAt? q = some k →
          k ∈ L.inner.fieldNames → k ∉ x.callee.paramNames →
          ∃ u, x.before.replaceAt? x.path ((L.site scope).expanded x) = some u ∧
            L.Refers c x q k u := by
  obtain ⟨Ls, given, hLs⟩ := Expr.inlines_of_inlineObjects h
  refine ⟨Ls, given, hLs, fun L hL => ?_⟩
  obtain ⟨given₁, hmade⟩ := hLs.made L hL
  exact ⟨hmade.lifted.nodup, fun y hy => ⟨hmade.fieldApart hy, fun hgiven => hLs.given_subset L hL hgiven⟩,
    fun c hc x hx q k hq hk hparam => hmade.exists_refers hc hx hq hk hparam⟩

/-- In `new (p = 0, o = new (k = 1, j = k) { method f(x) { k; j; x } }) { method g() { o.f(2) } }` the
    given names `p` and `m_0` are taken when it is their turn, so `k` becomes `m_0` and `j` becomes
    `m_1`. -/
theorem Expr.fields_apart_given :
    let seq (a b : Expr) : Expr := .seq .nowhere a b
    let e := Expr.literal
      [.plain "p" (.ofNat 0), .plain "o" (.literal [.plain "k" (.ofNat 1), .plain "j" (.var "k")]
        [.plain "f" ["x"] (seq (.var "k") (seq (.var "j") (.var "x")))])]
      [.plain "g" [] (.invocation "o" "f" [.ofNat 2])]
    let e' := Expr.literal
      [.plain "p" (.ofNat 0), .plain "m_0" (.ofNat 1), .plain "m_1" (.var "m_0")]
      [.plain "g" [] (.paren .nowhere none (seq (.assign .nowhere (.plain "l_0") (.ofNat 2))
        (seq (.var "m_0") (seq (.var "m_1") (.var "l_0")))))]
    e.inlineObjects .empty ["p", "m_0"] = .ok e' ∧
      ∃ Ls given, Inlining.Inlines .empty e ["p", "m_0"] Ls e' given ∧
        ∀ L ∈ Ls, L.liftedNames.Nodup ∧
          (∀ y ∈ L.liftedNames, L.FieldApart .empty y ∧ (y ∈ L.given → y ∈ ["p", "m_0"])) ∧
          ∀ c ∈ L.callers, ∀ x ∈ c.expansions, ∀ q k, x.callee.body.namedAt? q = some k →
            k ∈ L.inner.fieldNames → k ∉ x.callee.paramNames →
            ∃ u, x.before.replaceAt? x.path ((L.site .empty).expanded x) = some u ∧
              L.Refers c x q k u :=
  ⟨rfl, Expr.fields_apart_of_inlineObjects rfl⟩

/-- A lifted field can meet names of the calling method. In
    `new (o = new (k = 1) { method f() { k } }) { method g(m_0) { o.f() } }` the field `k` becomes the
    parameter `m_0`. In the same way it becomes a variable that the calling method assigns, or a field
    of an object literal in it. -/
theorem Expr.fields_meet_others :
    let assign (x : String) (e : Expr) : Expr := .assign .nowhere (.plain x) e
    let seq (a b : Expr) : Expr := .seq .nowhere a b
    let call := Expr.invocation "o" "f" []
    let program (g : Method) : Expr :=
      .literal [.plain "o" (.literal [.plain "k" (.ofNat 1)] [.plain "f" [] (.var "k")])] [g]
    let result (g : Method) : Expr := .literal [.plain "m_0" (.ofNat 1)] [g]
    let field := Expr.paren .nowhere none (.var "m_0")
    (program (.plain "g" ["m_0"] call)).inlineObjects .empty [] =
      .ok (result (.plain "g" ["m_0"] field)) ∧
    (program (.plain "g" [] (seq (assign "m_0" (.ofNat 5)) call))).inlineObjects .empty [] =
      .ok (result (.plain "g" [] (seq (assign "m_0" (.ofNat 5)) field))) ∧
    (program (.plain "g" [] (.literal [.plain "m_0" (.ofNat 5), .plain "j" call] []))).inlineObjects
        .empty [] =
      .ok (result (.plain "g" [] (.literal [.plain "m_0" (.ofNat 5), .plain "j" field] []))) :=
  ⟨rfl, rfl, rfl⟩

end GameHop
