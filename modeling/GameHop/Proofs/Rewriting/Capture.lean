import GameHop.Proofs.Matching.Steps
import GameHop.Proofs.Rewriting.Derivation
import GameHop.Proofs.Term.Free

/-!
Names that are bound where a rule is applied. Matching compares the names of the pattern with them,
so no name of the left side is captured, propositions apart.
-/

namespace GameHop

/-! ## Names of patterns -/

/-- The names that the root reads, assigns or declares, and its label. -/
def Expr.rootNames : Expr → List String
  | .lookup _ x | .assign _ x _ => [x.name]
  | .paren _ l _ => l.toList.map (·.name)
  | .new _ o => o.className.toList.map (·.name) ++ o.fields.map (·.name.name) ++
      o.methods.flatMap fun m => m.name.name :: m.params.map (·.name.name)
  | _ => []

/-- The names that the expression reads, assigns or declares, and its labels. Functions and methods
    that are called and names in propositions are not among them. -/
def Expr.patternNames (e : Expr) : List String :=
  e.postorder.flatMap Expr.rootNames

theorem Expr.patternNames_eq (e : Expr) :
    e.patternNames = e.children.flatMap patternNames ++ e.rootNames := by
  rw [patternNames, postorder_eq, List.flatMap_append, List.flatMap_assoc,
    List.flatMap_singleton]
  rfl

theorem Expr.mem_patternNames {e : Expr} {x : String} :
    x ∈ e.patternNames ↔ (∃ c ∈ e.children, x ∈ c.patternNames) ∨ x ∈ e.rootNames := by
  rw [patternNames_eq, List.mem_append, List.mem_flatMap]

theorem Expr.patternNames_of_varName? {e : Expr} {x : String} (h : e.varName? = some x) :
    e.patternNames = [x] := by
  obtain ⟨s, i, rfl, rfl⟩ := eq_lookup_of_varName? h
  rfl

theorem Expr.fieldNames_subset_identifiers (fs : List Field) :
    fs.map (·.name.name) ⊆ identifiersFields fs := by
  induction fs with
  | nil => simp
  | cons f fs ih =>
    obtain ⟨s, x, v⟩ := f
    rw [List.map_cons, identifiersFields]
    exact List.cons_subset_cons _ fun y hy => List.mem_append_right _ (ih hy)

theorem Expr.methodNames_subset_identifiers (ms : List Method) :
    (ms.flatMap fun m => m.name.name :: m.params.map (·.name.name)) ⊆
      identifiersMethods ms := by
  induction ms with
  | nil => simp
  | cons m ms ih =>
    obtain ⟨s, x, ps, b⟩ := m
    intro y hy
    simp only [List.flatMap_cons, List.mem_append, identifiersMethods] at hy ⊢
    rcases hy with hy | hy
    · exact .inl (.inl hy)
    · exact .inr (ih hy)

theorem Expr.rootNames_subset_identifiers (e : Expr) : e.rootNames ⊆ e.identifiers := by
  intro x hx
  cases e with
  | new s o =>
    obtain ⟨c, fs, ms⟩ := o
    simp only [rootNames, identifiers, List.mem_append] at hx ⊢
    rcases hx with (hx | hx) | hx
    · exact .inl (.inl hx)
    · exact .inl (.inr (fieldNames_subset_identifiers fs hx))
    · exact .inr (methodNames_subset_identifiers ms hx)
  | paren s l e => cases l <;> simp_all [rootNames, identifiers]
  | _ => simp_all [rootNames, identifiers]

theorem Expr.patternNames_subset_identifiers (e : Expr) : e.patternNames ⊆ e.identifiers := by
  induction e using inductNode with
  | step e ih =>
    intro x hx
    rcases mem_patternNames.1 hx with ⟨c, hc, hx⟩ | hx
    · exact identifiers_child_subset hc (ih c hc hx)
    · exact e.rootNames_subset_identifiers hx

/-! ## Texts -/

theorem Expr.patternNames_wrap (least own : ExprPrec) (e : Expr) :
    (least.wrap own e).patternNames = e.patternNames := by
  unfold ExprPrec.wrap
  split
  · rw [patternNames_eq]
    simp [children, rootNames]
  · rfl

/-- An expression has the names of its children and its root. -/
theorem Expr.patternNames_congr {e e' : Expr} (hroot : e'.rootNames = e.rootNames)
    (hchildren : e'.children.map patternNames = e.children.map patternNames) :
    e'.patternNames = e.patternNames := by
  rw [patternNames_eq, e.patternNames_eq, List.flatMap_def, List.flatMap_def, hchildren,
    hroot]

theorem Expr.patternNames_spelled (e : Expr) :
    ∀ least, (e.spelled least).patternNames = e.patternNames := by
  induction e using inductNode with
  | step e ih =>
    intro least
    cases e with
    | unary s op a =>
      have ha : ∀ least, (a.spelled least).patternNames = a.patternNames :=
        ih a (by simp [children])
      cases op <;> simp only [spelled, patternNames_wrap] <;>
        exact patternNames_congr rfl (by simp [children, ha])
    | paren s l a =>
      rw [spelled]
      refine patternNames_congr ?_ (by simp_all [children])
      cases l <;> rfl
    | call s f args =>
      rw [spelled, spelledList_eq]
      refine patternNames_congr rfl ?_
      simp only [children, List.map_map]
      exact List.map_congr_left fun a ha => ih a ha .assign
    | invoke s t m cs args =>
      rw [spelled, spelledList_eq]
      refine patternNames_congr rfl ?_
      simp only [children, List.map_map, List.map_cons, ih t (by simp [children])]
      congr 1
      exact List.map_congr_left fun a ha => ih a (by simp [children, ha]) .assign
    | new s o =>
      obtain ⟨c, fs, ms⟩ := o
      rw [spelled, Object.spelled, Field.spelledList_eq, Method.spelledList_eq]
      refine patternNames_congr ?_ ?_
      · cases c <;>
          simp [rootNames, Function.comp_def, Ident.bare, Ident.plain, Param.bare,
            List.flatMap_map]
      · simp only [children, List.map_append, List.map_map]
        congr 1
        · exact List.map_congr_left fun f hf =>
            ih f.value (List.mem_append_left _ (List.mem_map_of_mem hf)) .assign
        · exact List.map_congr_left fun m hm =>
            ih m.body (List.mem_append_right _ (List.mem_map_of_mem hm)) .lowest
    | _ =>
      simp only [spelled, patternNames_wrap]
      exact patternNames_congr rfl (by simp_all [children])

theorem Expr.mem_patternNames_fill {e : Expr} {h x : String} (hx : x ≠ h) :
    x ∈ (e.fill h).patternNames ↔ x ∈ e.patternNames := by
  induction e using inductNode with
  | step e ih =>
    have hroot : x ∈ (e.fill h).rootNames ↔ x ∈ e.rootNames := by
      cases e with
      | hole s => simp [fill, fillRoot, rootNames, Ident.plain, hx]
      | new s o =>
        obtain ⟨c, fs, ms⟩ := o
        simp [fill, fillRoot, rootNames]
      | _ => rfl
    rw [mem_patternNames, mem_patternNames, children_fill, hroot]
    refine or_congr_left ?_
    simp only [List.mem_map, exists_exists_and_eq_and]
    exact exists_congr fun c => and_congr_right fun hc => ih c hc

/-- **Texts determine the names of patterns.** -/
theorem Expr.mem_patternNames_iff_of_text_eq {a b : Expr} (ha : a.Legible) (hb : b.Legible)
    (h : a.text = b.text) (y : String) : y ∈ a.patternNames ↔ y ∈ b.patternNames := by
  obtain ⟨x, hx, hfresh⟩ := exists_isName_not_mem [y]
  have hyx : y ≠ x := fun e => hfresh (List.mem_singleton.2 e.symm)
  rw [← mem_patternNames_fill hyx, ← patternNames_spelled _ .lowest,
    spelled_fill_eq ha hb h hx, patternNames_spelled, mem_patternNames_fill hyx]

/-! ## Matching -/

theorem Equation.map_left_zipWith {as bs : List Expr} (h : as.length = bs.length) :
    (List.zipWith exprs as bs).map (·.left) = as.map MatchTerm.expr := by
  induction as generalizing bs with
  | nil => simp
  | cons a as ih =>
    obtain ⟨b, bs, rfl⟩ := List.exists_of_length_succ _ h.symm
    rw [List.zipWith_cons_cons, List.map_cons, ih (by simpa using h), List.map_cons]
    rfl

/-- The left sides of the parts are the names of the root and the children. -/
theorem Expr.Splits.map_left {l r : Expr} {parts : List Equation} (h : l.Splits r parts) :
    parts.map (·.left) = l.rootNames.map MatchTerm.name ++ l.children.map MatchTerm.expr := by
  cases h with
  | call hf hlength => exact Equation.map_left_zipWith hlength
  | invoke hm hcs hlength =>
    rw [List.map_cons, Equation.map_left_zipWith hlength]
    rfl
  | _ => rfl

theorem Expr.Splits.mem_patternNames {l r : Expr} {parts : List Equation} (h : l.Splits r parts)
    {x : String} (hx : x ∈ l.patternNames) : ∃ e ∈ parts, x ∈ e.left.toExpr.patternNames := by
  suffices ∃ t ∈ parts.map (·.left), x ∈ t.toExpr.patternNames by simpa using this
  rw [h.map_left]
  rcases Expr.mem_patternNames.1 hx with ⟨c, hc, hx⟩ | hx
  · exact ⟨.expr c, List.mem_append_right _ (List.mem_map_of_mem hc), hx⟩
  · exact ⟨.name x, List.mem_append_left _ (List.mem_map_of_mem hx), List.mem_singleton.2 rfl⟩

theorem Expr.Splits.legible_left {l r : Expr} {parts : List Equation} (h : l.Splits r parts)
    (hl : l.Legible) : ∀ e ∈ parts, e.left.toExpr.Legible := by
  suffices ∀ t ∈ parts.map (·.left), t.toExpr.Legible from
    fun e he => this _ (List.mem_map_of_mem he)
  rw [h.map_left, List.forall_mem_append, List.forall_mem_map, List.forall_mem_map]
  refine ⟨fun x hx => ?_, fun c hc => hl.child hc⟩
  have hroot := hl.root
  cases h with
  | lookup | assign =>
    obtain rfl := List.mem_singleton.1 hx
    exact hroot
  | labelled =>
    obtain rfl := List.mem_singleton.1 hx
    have hlabel := hroot _ rfl
    exact hlabel
  | _ => cases hx

theorem MatchTerm.not_mem_patternNames {names : List String} {t : MatchTerm}
    (h : t.mentionsAny names = false) {x : String} (hx : x ∈ t.toExpr.patternNames) :
    x ∉ names := by
  intro hmem
  cases t with
  | expr e =>
    have := List.any_eq_false.1 h x (e.patternNames_subset_identifiers hx)
    simp [hmem] at this
  | name y =>
    obtain rfl : x = y := List.mem_singleton.1 hx
    simp [mentionsAny, hmem] at h

/-- **No name of a pattern that matches is bound around the program**, if it is not a variable. -/
theorem Matching.not_mem_bound_of_solve {vars bound : List String} {es : List Equation}
    {s : Substitution} (hes : ∀ e ∈ es, e.left.toExpr.Legible)
    (h : solve vars bound es = .ok (some s)) :
    ∀ e ∈ es, ∀ x ∈ e.left.toExpr.patternNames, x ∉ vars → x ∉ bound := by
  fun_induction solve vars bound es with
  | case1 es s' hsolved =>
    intro e he x hx hvars
    obtain ⟨y, hy, hget⟩ := get?_of_solved hsolved e he
    rw [MatchTerm.name?_eq] at hy
    rw [Expr.patternNames_of_varName? hy] at hx
    obtain rfl := List.mem_singleton.1 hx
    have hkeys := fun b hb => (mem_vars_of_solved hsolved b hb).1
    rw [Substitution.get?_of_not_mem hkeys hvars] at hget
    cases hget
  | case2 es hsolved es' hdel ih =>
    obtain ⟨before, e, after, rfl, rfl, hwhy⟩ := delete_spec hdel
    simp only [List.forall_mem_append, List.forall_mem_cons] at hes ⊢
    have hrest : ∀ e ∈ before ++ after, e.left.toExpr.Legible :=
      List.forall_mem_append.2 ⟨hes.1, hes.2.2⟩
    have ih := ih hrest h
    have he : ∀ x ∈ e.left.toExpr.patternNames, x ∉ vars → x ∉ bound := by
      rcases hwhy with htrivial | ⟨e', he', hsame⟩
      · simp only [Equation.isTrivial, Bool.and_eq_true, Bool.not_eq_true'] at htrivial
        exact fun x hx _ => MatchTerm.not_mem_patternNames htrivial.2 hx
      · simp only [Equation.sameTexts, Bool.and_eq_true, beq_iff_eq, MatchTerm.text_eq] at hsame
        intro x hx
        refine ih e' he' x ?_
        rwa [← Expr.mem_patternNames_iff_of_text_eq hes.2.1 (hrest e' he') hsame.1]
    rw [List.forall_mem_append] at ih
    exact ⟨ih.1, he, ih.2⟩
  | case3 => cases h
  | case4 => cases h
  | case5 es hsolved hdel es' hsplit ih =>
    obtain ⟨before, e, after, parts, rfl, hparts, rfl⟩ := split_spec hsplit
    obtain ⟨l, r, rfl, hlr⟩ := Equation.splits_of_parts hparts
    simp only [List.forall_mem_append, List.forall_mem_cons] at hes ih ⊢
    obtain ⟨⟨hbefore, hafter⟩, hnames⟩ :=
      ih ⟨⟨hes.1, hes.2.2⟩, hlr.legible_left hes.2.1⟩ h
    refine ⟨hbefore, fun x hx => ?_, hafter⟩
    obtain ⟨e, he, hx⟩ := hlr.mem_patternNames hx
    exact hnames e he x hx

/-! ## Rewriting -/

/-- **What rewriting may capture.** Where a rule is applied, the left side has no name that is bound
    there, unless it is a variable of the rule. So a constant of the rule that is bound there is one
    that the right side reads and that the left side does not have outside propositions. -/
theorem Rule.captured_only_from_right {rule : Rule} {program : Expr} {steps : List RewriteStep}
    (hleft : rule.left.Legible) (h : (rule.rewrite program).2 = .ok steps) :
    ∃ sites : List Site, sites.map Site.step = steps ∧
      rule.Derives program sites (rule.rewrite program).1 ∧
      ∀ site ∈ sites, ∀ x ∈ program.boundAt site.path, x ∉ rule.vars →
        x ∈ rule.left.patternNames ∨ x ∈ rule.right.free →
        x ∉ rule.left.patternNames ∧ x ∈ rule.right.free := by
  obtain ⟨st, sites, hlog, htraversal⟩ := Rule.traversal_of_rewrite h
  refine ⟨sites, hlog, htraversal.derives, fun site hsite x hbound hvars hx => ?_⟩
  obtain ⟨u, u', node, s, d, -, -, hmatch, -⟩ := htraversal.derives.rewrites site hsite
  obtain ⟨q, hq, hreach⟩ := htraversal.reaches site hsite
  obtain rfl : site.path = q := hq
  have hlegible : ∀ e ∈ [Equation.exprs rule.left node], e.left.toExpr.Legible :=
    List.forall_mem_singleton.2 hleft
  have hnot : x ∉ rule.left.patternNames := fun hpattern =>
    Matching.not_mem_bound_of_solve hlegible hmatch _ (.head _) x hpattern hvars
      (hreach.names_eq ▸ hbound)
  exact ⟨hnot, hx.resolve_left hnot⟩

/-- The rule that replaces calls of `f` by calls of `g` at no cost, for given arguments. -/
def Rule.ofCalls (args : List Expr) (vars : List String) (args' : List Expr) : Rule :=
  ⟨.call .nowhere (.plain "f") args, vars, .call .nowhere (.plain "g") args', .zero, true⟩

/-- The calls of `f(k, 1)` outside and of `f(k, 2)` inside of an object with a field `k`. -/
def Expr.twoCalls : Expr :=
  .seq .nowhere (.call .nowhere (.plain "f") [.var "k", .ofNat 1])
    (.cell (.call .nowhere (.plain "f") [.var "k", .ofNat 2]))

/-- The rule from `f(k, x)` to `g(k, x)` is applied to one of the two calls. -/
theorem Rule.captured_only_from_right_call :
    let rule := Rule.ofCalls [.var "k", .var "x"] ["x"] [.var "k", .var "x"]
    ∃ steps, rule.left.Legible ∧ (rule.rewrite .twoCalls).2 = .ok steps ∧ steps.length = 1 ∧
      ∃ sites : List Site, sites.map Site.step = steps ∧
        rule.Derives .twoCalls sites (rule.rewrite .twoCalls).1 ∧
        ∀ site ∈ sites, ∀ x ∈ Expr.twoCalls.boundAt site.path, x ∉ rule.vars →
          x ∈ rule.left.patternNames ∨ x ∈ rule.right.free →
          x ∉ rule.left.patternNames ∧ x ∈ rule.right.free := by
  intro rule
  have hlength : ((Rule.ofCalls [.var "k", .var "x"] ["x"] [.var "k", .var "x"]).rewrite
      .twoCalls).2.toOption.map List.length = some 1 := by
    decide +kernel
  have hleft : rule.left.Legible := ⟨rfl, rfl, rfl, trivial⟩
  obtain ⟨steps, hsteps, hlength⟩ := Option.map_eq_some_iff.1 hlength
  have hlog : (rule.rewrite .twoCalls).2 = .ok steps := by
    cases hlog : (rule.rewrite .twoCalls).2 with
    | error f => rw [hlog] at hsteps; cases hsteps
    | ok steps' => rw [hlog] at hsteps; rw [Option.some.inj hsteps]
  exact ⟨steps, hleft, hlog, hlength, Rule.captured_only_from_right hleft hlog⟩

/-- The proposition that `k` is zero. -/
def Expr.assertZero : Expr :=
  .assert .nowhere
    (.binary .nowhere (.compare .eq) (.lookup .nowhere (.plain "k")) (.int .nowhere 0))

/-- **Rewriting captures.** The rule from `f(x)` to `g(k)` is applied inside an object with a field
    `k`, and so is one that drops `assert(k == 0)`: the first brings in the name `k`, and the second
    has it in a proposition. -/
theorem Rule.rewrite_captures_field :
    let rule := Rule.ofCalls [.var "x"] ["x"] [.var "k"]
    let program := Expr.cell (.call .nowhere (.plain "f") [.ofNat 1])
    "k" ∉ rule.vars ∧ "k" ∈ rule.right.free ∧ "k" ∈ program.boundAt [1] ∧
      (rule.rewrite program).1.text = (Expr.cell (.call .nowhere (.plain "g") [.var "k"])).text ∧
    "k" ∈ (Expr.cell .assertZero).boundAt [1] ∧
      ((Rule.mk .assertZero [] (.ofNat 0) .zero true).rewrite (.cell .assertZero)).1.text =
        (Expr.cell (.ofNat 0)).text := by
  decide +kernel

end GameHop
