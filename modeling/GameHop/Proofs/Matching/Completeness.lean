import GameHop.Proofs.Matching.Steps

/-!
Completeness of matching. If the program is an instance of the pattern, then so is the right side of
every equation on the way, no equation is stuck unless it gives a variable its value, and the
variables that are left keep their values.
-/

namespace GameHop

/-- Whether a pattern can be taken apart: its object literals mention no variables and no bound names,
    its labels are neither, and the other names that it reads or assigns are not bound around the
    program. -/
structure Expr.PatternFor (vars bound : List String) (e : Expr) : Prop where
  objects : ∀ t o, Expr.new t o ∈ e.postorder →
    ∀ x ∈ (Expr.new t o).identifiers, x ∉ vars ∧ x ∉ bound
  labels : ∀ t l a, Expr.paren t (some l) a ∈ e.postorder → l.name ∉ vars ∧ l.name ∉ bound
  constants : ∀ x ∈ e.variables, x ∉ vars → x ∉ bound

/-- Whether the substitution has plain names for the variables that the expression assigns. -/
def Substitution.NamesTargets (s : Substitution) (vars : List String) (e : Expr) : Prop :=
  ∀ t x a, Expr.assign t x a ∈ e.postorder → x.name ∈ vars →
    ∃ u y, s.get? x.name = some (.lookup u y)

section
variable {vars bound : List String} {s : Substitution} {e c l r : Expr}

theorem Expr.PatternFor.child (h : e.PatternFor vars bound) (hc : c ∈ e.children) :
    c.PatternFor vars bound where
  objects t o hn := h.objects t o (mem_postorder_of_child hc hn)
  labels t l a hn := h.labels t l a (mem_postorder_of_child hc hn)
  constants x hx := h.constants x (mem_variables_of_child hc hx)

theorem Substitution.NamesTargets.child (h : s.NamesTargets vars e) (hc : c ∈ e.children) :
    s.NamesTargets vars c :=
  fun t x a hn => h t x a (Expr.mem_postorder_of_child hc hn)

/-! ## Instances -/

theorem Expr.children_bare (e : Expr) : e.bare.children = e.children.map bare := by
  cases e with
  | new t o =>
    obtain ⟨c, fs, ms⟩ := o
    simp [bare, Object.bare, children, Field.bareList_eq, Method.bareList_eq,
      Function.comp_def]
  | _ => simp [bare, children, bareList_eq]

/-- The equation that the heads of two expressions of one shape give. -/
def Expr.headParts : Expr → Expr → List Equation
  | .paren _ (some x) _, .paren _ (some y) _ => [.names x y]
  | .assign _ x _, .assign _ y _ => [.names x y]
  | _, _ => []

/-- Whether the expression is taken apart by matching, unless it is a variable. -/
def Expr.isCompound : Expr → Bool
  | .paren _ _ _ | .seq _ _ _ | .assign _ _ _ | .ternary _ _ _ _ | .unary _ _ _ | .binary _ _ _ _
  | .call _ _ _ | .invoke _ _ _ _ _ | .index _ _ _ | .update _ _ _ _ => true
  | _ => false

/-- **An instance splits like its pattern.** -/
theorem Expr.equateParts_of_instance (h : r.bare = (l.substitute s).bare)
    (hl : l.isCompound = true) :
    l.equateParts r =
      .ok (some (l.headParts r ++ List.zipWith .exprs l.children r.children)) := by
  cases l with
  | paren t x a =>
    cases x <;> cases r <;> simp [substitute, substituteRoot, bare] at h
    all_goals obtain ⟨hlabel, -⟩ := h
    · simp [hlabel, equateParts, headParts, children]
    · obtain ⟨y, rfl, -⟩ := hlabel
      rfl
  | assign t x a =>
    cases r <;> simp [substitute, substituteRoot_assign, bare] at h
    rfl
  | unary t op a =>
    cases r <;> simp [substitute, substituteRoot, bare] at h
    obtain ⟨rfl, -⟩ := h
    simp [equateParts, headParts, children]
  | binary t op a b =>
    cases r <;> simp [substitute, substituteRoot, bare] at h
    obtain ⟨rfl, -⟩ := h
    simp [equateParts, headParts, children]
  | call t f args =>
    cases r <;> simp [substitute, substituteRoot, bare, bareList_eq] at h
    obtain ⟨hf, hargs⟩ := h
    have hlength := congrArg List.length hargs
    simp only [List.length_map] at hlength
    simp [equateParts, headParts, children, (Ident.bare_inj.1 hf).symm, hlength]
  | invoke t a m cs args =>
    cases r <;> simp [substitute, substituteRoot, bare, bareList_eq] at h
    obtain ⟨-, hm, hcs, hargs⟩ := h
    have hlength := congrArg List.length hargs
    have hnames := congrArg (List.map Ident.name) hcs
    simp only [List.length_map, List.map_map, Function.comp_def, Ident.name_bare] at hlength hnames
    simp [equateParts, headParts, children, Ident.bare_inj.1 hm, hnames, hlength]
  | seq | ternary | index | update =>
    cases r <;> simp [substitute, substituteRoot, bare] at h
    rfl
  | _ => cases hl

theorem Expr.map_bare_children (h : r.bare = (l.substitute s).bare) (hl : l.varName? = none) :
    r.children.map bare = l.children.map fun c => (c.substitute s).bare := by
  rw [← children_bare, h, children_bare, children_substitute hl, List.map_map]
  rfl

/-- What is neither taken apart nor a variable has no parts. -/
theorem Expr.equateParts_of_not_isCompound (hl : l.isCompound = false) (hn : l.varName? = none)
    (r : Expr) : l.equateParts r = .ok none := by
  cases l with
  | lookup => cases hn
  | int | bool | new | assert | assume | ellipsis | hole => cases r <;> rfl
  | _ => cases hl

end

/-! ## Equations -/

/-- Whether one of the left sides reads or assigns the name. -/
def Matching.Mentions (x : String) (es : List Equation) : Prop :=
  ∃ e ∈ es, x ∈ e.left.toExpr.variables

theorem Matching.mentions_cons {x : String} {e : Equation} {es : List Equation} :
    Matching.Mentions x (e :: es) ↔ x ∈ e.left.toExpr.variables ∨ Matching.Mentions x es :=
  List.exists_mem_cons_iff _ _ _

theorem Matching.mentions_append {x : String} {es es' : List Equation} :
    Matching.Mentions x (es ++ es') ↔ Matching.Mentions x es ∨ Matching.Mentions x es' := by
  simp [Matching.Mentions, or_and_right, exists_or]

/-- An equation between a part of a pattern and the same part of its instance. -/
structure Equation.Fits (vars bound : List String) (s : Substitution) (e : Equation) : Prop where
  legible : e.left.toExpr.Legible
  pattern : e.left.toExpr.PatternFor vars bound
  targets : s.NamesTargets vars e.left.toExpr
  isInstance : e.right.toExpr.bare = (e.left.toExpr.substitute s).bare
  shape : (∃ l r, e = .exprs l r) ∨ ∃ x y, e = ⟨.name x, .name y⟩

section
variable {vars bound : List String} {s : Substitution} {l r : Expr}

theorem Expr.bare_substitute_lookup (s : Substitution) (t : Span) (x : Ident) :
    ((lookup t x).substitute s).bare = ((var x.name).substitute s).bare := by
  rw [substitute_lookup, var, substitute_lookup]
  cases h : s.get? x.name <;> simp [Ident.plain, h, bare, Ident.bare]

/-- The instance of a variable that stands for a name, if for anything. -/
theorem Expr.bare_substitute_var {x : String}
    (h : ∀ t, s.get? x = some t → ∃ u y, t = .lookup u y) :
    ((var x).substitute s).bare = (var (s.target x)).bare := by
  rw [var, substitute_lookup, Substitution.target]
  cases hx : s.get? x with
  | none => simp [Ident.plain, hx, var]
  | some t =>
    obtain ⟨u, y, rfl⟩ := h t hx
    simp [Ident.plain, hx, var, varName?, bare, Ident.bare]

theorem Expr.patternFor_var {x : String} (hx : x ∉ vars → x ∉ bound) :
    (var x).PatternFor vars bound where
  objects t o hn := by cases List.mem_singleton.1 hn
  labels t l a hn := by cases List.mem_singleton.1 hn
  constants y hy := by
    obtain rfl := List.mem_singleton.1 hy
    exact hx

theorem Equation.fits_names {x y : Ident} (hx : x.Legible) (hc : x.name ∉ vars → x.name ∉ bound)
    (h : (Expr.var y.name).bare = ((Expr.var x.name).substitute s).bare) :
    (names x y).Fits vars bound s where
  legible := hx
  pattern := Expr.patternFor_var hc
  targets t z a hn := by cases List.mem_singleton.1 hn
  isInstance := h
  shape := .inr ⟨x.name, y.name, rfl⟩

theorem Equation.fits_zipWith {as bs : List Expr} (hlegible : ∀ a ∈ as, a.Legible)
    (hpattern : ∀ a ∈ as, a.PatternFor vars bound) (htargets : ∀ a ∈ as, s.NamesTargets vars a)
    (h : bs.map Expr.bare = as.map fun a => (a.substitute s).bare) :
    ∀ e ∈ List.zipWith exprs as bs, e.Fits vars bound s := by
  induction as generalizing bs with
  | nil => simp
  | cons a as ih =>
    obtain ⟨b, bs, rfl, hb, hbs⟩ := List.map_eq_cons_iff.1 h
    rw [List.forall_mem_cons] at hlegible hpattern htargets
    rw [List.zipWith_cons_cons, List.forall_mem_cons]
    exact ⟨⟨hlegible.1, hpattern.1, htargets.1, hb, .inl ⟨a, b, rfl⟩⟩,
      ih hlegible.2 hpattern.2 htargets.2 hbs⟩

/-- The children of an instance fit the children of the pattern. -/
theorem Equation.Fits.children (h : (exprs l r).Fits vars bound s)
    (hl : l.varName? = none) :
    ∀ e ∈ List.zipWith exprs l.children r.children, e.Fits vars bound s :=
  fits_zipWith (fun _ hc => h.legible.child hc) (fun _ hc => h.pattern.child hc)
    (fun _ hc => h.targets.child hc) (Expr.map_bare_children h.isInstance hl)

section
variable (hs : ∀ x, (s.get? x).isSome = true ↔ x ∈ vars)
include hs

theorem Substitution.get?_eq_none {x : String} (hx : x ∉ vars) : s.get? x = none := by
  rw [← hs, Bool.not_eq_true, Option.isSome_eq_false_iff, Option.isNone_iff_eq_none] at hx
  exact hx

/-- The heads of an instance fit the heads of the pattern. -/
theorem Equation.Fits.heads (h : (exprs l r).Fits vars bound s) :
    ∀ e ∈ l.headParts r, e.Fits vars bound s := by
  have hbare : r.bare = (l.substitute s).bare := h.isInstance
  intro e he
  unfold Expr.headParts at he
  split at he
  · rename_i t x a t' y a'
    obtain rfl := List.mem_singleton.1 he
    obtain ⟨hvars, hbound⟩ := h.pattern.labels t x a (Expr.mem_postorder_self _)
    have hnone := Substitution.get?_eq_none hs hvars
    have hxy : x.name = y.name := by
      simp only [Expr.substitute, Expr.bottomUp_paren, Expr.substituteRoot, Expr.bare,
        Expr.paren.injEq, Option.map_some, Option.some.injEq, Ident.bare_inj] at hbare
      exact hbare.2.1.symm
    refine fits_names (h.legible.root x rfl) (fun _ => hbound) ?_
    rw [Expr.bare_substitute_var fun t ht => by simp [hnone] at ht, Substitution.target, hnone, hxy]
    rfl
  · rename_i t x a t' y a'
    obtain rfl := List.mem_singleton.1 he
    have hxy : s.target x.name = y.name := by
      simp only [Expr.substitute, Expr.bottomUp_assign, Expr.substituteRoot_assign, Expr.bare,
        Expr.assign.injEq, Ident.bare_inj] at hbare
      exact hbare.2.1.symm
    refine fits_names h.legible.root
      (h.pattern.constants x.name (Expr.mem_variables.2 (.inr rfl))) ?_
    rw [Expr.bare_substitute_var fun u hu => ?_, hxy]
    obtain ⟨u', z, hz⟩ := h.targets t x a (Expr.mem_postorder_self _)
      ((hs x.name).1 (by simp [hu]))
    exact ⟨u', z, Option.some.inj (hu.symm.trans hz)⟩
  · cases he

omit hs in
theorem Matching.mentions_zipWith {as bs : List Expr} (hlength : as.length = bs.length)
    (x : String) :
    Matching.Mentions x (List.zipWith .exprs as bs) ↔ ∃ a ∈ as, x ∈ a.variables := by
  induction as generalizing bs with
  | nil => simp [Matching.Mentions]
  | cons a as ih =>
    obtain ⟨b, bs, rfl⟩ := List.exists_of_length_succ _ hlength.symm
    rw [List.zipWith_cons_cons, mentions_cons, List.exists_mem_cons_iff,
      ih (by simpa using hlength)]
    rfl

omit hs in
/-- Heads give the variable of the root. -/
theorem Equation.Fits.mentions_heads (h : (exprs l r).Fits vars bound s)
    (hl : l.isCompound = true) {x : String} (hx : x ∈ vars) :
    Matching.Mentions x (l.headParts r) ↔ l.named? = some x := by
  have hbare : r.bare = (l.substitute s).bare := h.isInstance
  cases l with
  | assign t y a =>
    cases r <;> simp [Expr.substitute, Expr.substituteRoot_assign, Expr.bare] at hbare
    simp [Matching.Mentions, Expr.headParts, names, MatchTerm.toExpr, Expr.var, Ident.plain,
      Expr.named?, eq_comm]
  | paren t y a =>
    cases y with
    | none => cases r <;> simp [Matching.Mentions, Expr.headParts, Expr.named?]
    | some y =>
      have hxy : x ≠ y.name := by
        rintro rfl
        exact (h.pattern.labels t y a (Expr.mem_postorder_self _)).1 hx
      cases r <;> simp [Expr.substitute, Expr.substituteRoot, Expr.bare] at hbare
      obtain ⟨⟨z, rfl, -⟩, -⟩ := hbare
      simp [Matching.Mentions, Expr.headParts, names, MatchTerm.toExpr, Expr.var,
        Ident.plain, Expr.named?, hxy]
  | lookup => cases hl
  | _ => simp [Matching.Mentions, Expr.headParts, Expr.named?]

/-- An equation that mentions no variables and no bound names is trivial. -/
theorem Equation.Fits.isTrivial {e : Equation} (h : e.Fits vars bound s)
    (hvars : e.left.mentionsAny vars = false) (hbound : e.left.mentionsAny bound = false) :
    e.isTrivial vars bound = true := by
  have hsame : e.left.toExpr.substitute s = e.left.toExpr :=
    Expr.substitute_of_get?_none _ fun x hx =>
      Substitution.get?_eq_none hs (MatchTerm.not_mem_variables hvars x hx)
  have hbare := h.isInstance
  rw [hsame] at hbare
  have htext : e.left.text = e.right.text := by
    rw [MatchTerm.text_eq, MatchTerm.text_eq, ← Expr.text_bare e.left.toExpr, ← hbare,
      Expr.text_bare]
  simp [Equation.isTrivial, htext, hvars, hbound]

omit hs in
theorem Expr.PatternFor.identifiers_constant (h : l.PatternFor vars bound)
    (hl : l.isCompound = false) (hn : l.varName? = none) :
    ∀ x ∈ l.identifiers, x ∉ vars ∧ x ∉ bound := by
  cases l with
  | lookup => cases hn
  | new t o => exact h.objects t o (mem_postorder_self _)
  | int | bool | assert | assume | ellipsis | hole => simp [identifiers]
  | _ => cases hl

/-- A variable, or a name that is none, against its instance. -/
theorem Equation.Fits.parts_lookup {x : String} (h : (exprs l r).Fits vars bound s)
    (hl : l.varName? = some x) :
    (∃ parts, l.equateParts r = .ok (some parts) ∧ (∀ p ∈ parts, p.Fits vars bound s) ∧
      ∀ x ∈ vars, Matching.Mentions x parts ↔ x ∈ l.variables) ∨
    (l.equateParts r = .ok none ∧
      ((∃ x ∈ vars, l.varName? = some x) ∨ (exprs l r).isTrivial vars bound = true)) := by
  obtain ⟨t, i, rfl⟩ : ∃ t i, l = .lookup t i := by cases l <;> simp_all [Expr.varName?]
  have hbare : r.bare = ((Expr.lookup t i).substitute s).bare := h.isInstance
  cases hr : r.varName? with
  | some y =>
    obtain ⟨t', j, rfl⟩ : ∃ t j, r = .lookup t j := by cases r <;> simp_all [Expr.varName?]
    refine .inl ⟨[.names i j], rfl, ?_, fun x _ => ?_⟩
    · rw [List.forall_mem_singleton]
      refine fits_names h.legible.root
        (h.pattern.constants i.name (List.mem_singleton_self _)) ?_
      rw [← Expr.bare_substitute_lookup s t i, ← hbare]
      rfl
    · simp [Matching.Mentions, names, MatchTerm.toExpr, Expr.var, Ident.plain]
  | none =>
    have hi : i.name ∈ vars := by
      by_contra hi
      rw [Expr.substitute_lookup, Substitution.get?_eq_none hs hi] at hbare
      cases r <;> simp_all [Expr.bare, Expr.varName?]
    refine .inr ⟨?_, .inl ⟨i.name, hi, rfl⟩⟩
    cases r <;> first | rfl | cases hr

/-- **An equation that fits has parts that fit**, unless it gives a variable a value or is trivial. -/
theorem Equation.Fits.parts {e : Equation} (h : e.Fits vars bound s) :
    (∃ parts, e.parts = .ok (some parts) ∧ (∀ p ∈ parts, p.Fits vars bound s) ∧
      ∀ x ∈ vars, Matching.Mentions x parts ↔ x ∈ e.left.toExpr.variables) ∨
    (e.parts = .ok none ∧
      ((∃ x ∈ vars, e.left.name? = some x) ∨ e.isTrivial vars bound = true)) := by
  rcases h.shape with ⟨l, r, rfl⟩ | ⟨x, y, rfl⟩
  · have hbare : r.bare = (l.substitute s).bare := h.isInstance
    have hpattern : l.PatternFor vars bound := h.pattern
    cases hn : l.varName? with
    | none =>
      cases hc : l.isCompound with
      | true =>
        refine .inl ⟨_, Expr.equateParts_of_instance hbare hc, ?_, fun x hx => ?_⟩
        · exact List.forall_mem_append.2 ⟨h.heads hs, h.children hn⟩
        · have hlength : l.children.length = r.children.length := by
            simpa using (congrArg List.length (Expr.map_bare_children hbare hn)).symm
          rw [Matching.mentions_append, h.mentions_heads hc hx, Matching.mentions_zipWith hlength]
          exact Or.comm.trans Expr.mem_variables.symm
      | false =>
        have hconst := hpattern.identifiers_constant hc hn
        refine .inr ⟨Expr.equateParts_of_not_isCompound hc hn r, .inr (h.isTrivial hs ?_ ?_)⟩
        · simpa [exprs, MatchTerm.mentionsAny] using fun x hx => (hconst x hx).1
        · simpa [exprs, MatchTerm.mentionsAny] using fun x hx => (hconst x hx).2
    | some x => exact h.parts_lookup hs hn
  · by_cases hx : x ∈ vars
    · exact .inr ⟨rfl, .inl ⟨x, hx, rfl⟩⟩
    · have hbound := h.pattern.constants x (List.mem_singleton_self x) hx
      refine .inr ⟨rfl, .inr (h.isTrivial hs ?_ ?_)⟩
      · simpa [MatchTerm.mentionsAny] using hx
      · simpa [MatchTerm.mentionsAny] using hbound

/-! ## Runs -/

omit hs in
/-- Two equations for one variable are the same. -/
theorem Equation.Fits.sameTexts {e e' : Equation} (h : e.Fits vars bound s)
    (h' : e'.Fits vars bound s) {x : String} (hx : e.left.name? = some x)
    (hx' : e'.left.name? = some x) : e.sameTexts e' = true := by
  rw [MatchTerm.name?_eq] at hx hx'
  obtain ⟨t, i, hi, rfl⟩ := Expr.eq_lookup_of_varName? hx
  obtain ⟨t', i', hi', hii'⟩ := Expr.eq_lookup_of_varName? hx'
  have hleft : e.left.toExpr.bare = e'.left.toExpr.bare := by
    rw [hi, hi', Expr.bare, Expr.bare, Ident.bare_inj.2 hii']
  have hright : e.right.toExpr.bare = e'.right.toExpr.bare := by
    rw [h.isInstance, h'.isInstance, hi, hi', Expr.bare_substitute_lookup,
      Expr.bare_substitute_lookup, hii']
  simp [Equation.sameTexts, MatchTerm.text_eq, ← Expr.text_bare e.left.toExpr,
    ← Expr.text_bare e.right.toExpr, hleft, hright, Expr.text_bare]

/-- Where no equation can be deleted or split, the list is solved. -/
theorem Matching.solved_of_stuck {es : List Equation} (hes : ∀ e ∈ es, e.Fits vars bound s)
    (hdel : delete? vars bound [] es = none) (hsplit : split? [] es = .ok none) :
    ∃ s', solved? vars es = some s' := by
  obtain ⟨htrivial, hpair⟩ := delete_none hdel
  have hvars : ∀ e ∈ es, ∃ x ∈ vars, e.left.name? = some x := by
    intro e he
    rcases (hes e he).parts hs with ⟨parts, hparts, -⟩ | ⟨-, hx | htriv⟩
    · rw [split_none hsplit e he] at hparts
      cases hparts
    · exact hx
    · rw [htrivial e he] at htriv
      cases htriv
  refine exists_solved hvars (hpair.imp_of_mem fun {e e'} he he' hne hname => ?_)
  obtain ⟨x, -, hx⟩ := hvars e he
  rw [(hes e he).sameTexts (hes e' he') hx (hname ▸ hx)] at hne
  cases hne

/-- What a solved list says of the variables. -/
theorem Matching.values_of_solved {es : List Equation} {s' : Substitution}
    (hes : ∀ e ∈ es, e.Fits vars bound s) (hsolved : solved? vars es = some s') :
    (∀ x, (s'.get? x).isSome = true ↔ x ∈ vars ∧ Matching.Mentions x es) ∧
      ∀ x t, s'.get? x = some t → ∃ u, s.get? x = some u ∧ t.bare = u.bare := by
  have hvars : ∀ x t, s'.get? x = some t → x ∈ vars := by
    intro x t hx
    by_contra hmem
    rw [Substitution.get?_of_not_mem (fun b hb => (mem_vars_of_solved hsolved b hb).1) hmem]
      at hx
    cases hx
  refine ⟨fun x => ⟨fun hx => ?_, ?_⟩, fun x t hx => ?_⟩
  · obtain ⟨t, ht⟩ := Option.isSome_iff_exists.1 hx
    obtain ⟨e, he, hname, -⟩ := mem_of_solved hsolved ht
    rw [MatchTerm.name?_eq] at hname
    exact ⟨hvars x t ht, e, he, Expr.mem_variables_of_varName? hname⟩
  · rintro ⟨-, e, he, hx⟩
    obtain ⟨y, hy, hget⟩ := get?_of_solved hsolved e he
    rw [MatchTerm.name?_eq] at hy
    obtain ⟨t, i, hi, rfl⟩ := Expr.eq_lookup_of_varName? hy
    rw [hi, Expr.variables_lookup, List.mem_singleton] at hx
    simp [hx, hget]
  · obtain ⟨e, he, hname, rfl⟩ := mem_of_solved hsolved hx
    rw [MatchTerm.name?_eq] at hname
    obtain ⟨t, i, hi, rfl⟩ := Expr.eq_lookup_of_varName? hname
    obtain ⟨u, hu⟩ := Option.isSome_iff_exists.1 ((hs i.name).2 (hvars _ _ hx))
    refine ⟨u, hu, ?_⟩
    rw [(hes e he).isInstance, hi, Expr.substitute_lookup, hu, Option.getD_some]

/-- **Solving is complete**: equations that fit have a solution, which gives the variables of the left
    sides the values that they have. -/
theorem Matching.solve_complete {es : List Equation} (hes : ∀ e ∈ es, e.Fits vars bound s) :
    ∃ s', solve vars bound es = .ok (some s') ∧
      (∀ x, (s'.get? x).isSome = true ↔ x ∈ vars ∧ Matching.Mentions x es) ∧
      ∀ x t, s'.get? x = some t → ∃ u, s.get? x = some u ∧ t.bare = u.bare := by
  fun_induction solve vars bound es with
  | case1 es s' hsolved => exact ⟨s', rfl, values_of_solved hs hes hsolved⟩
  | case2 es hsolved es' hdel ih =>
    obtain ⟨before, e, after, rfl, rfl, hwhy⟩ := delete_spec hdel
    rw [List.forall_mem_append, List.forall_mem_cons] at hes
    have hrest : ∀ e ∈ before ++ after, e.Fits vars bound s :=
      List.forall_mem_append.2 ⟨hes.1, hes.2.2⟩
    obtain ⟨s', hs', hdom, hagree⟩ := ih hrest
    refine ⟨s', hs', fun x => (hdom x).trans (and_congr_right fun hx => ?_), hagree⟩
    have he : x ∈ e.left.toExpr.variables → Matching.Mentions x (before ++ after) := by
      intro hxe
      rcases hwhy with htrivial | ⟨e', he', hsame⟩
      · simp only [Equation.isTrivial, Bool.and_eq_true, Bool.not_eq_true'] at htrivial
        exact absurd hx (MatchTerm.not_mem_variables htrivial.1.2 x hxe)
      · simp only [Equation.sameTexts, Bool.and_eq_true, beq_iff_eq, MatchTerm.text_eq] at hsame
        exact ⟨e', he', (Expr.mem_variables_iff_of_text_eq hes.2.1.legible
          (hrest e' he').legible hsame.1 x).1 hxe⟩
    rw [mentions_append] at he
    rw [mentions_append, mentions_append, mentions_cons]
    tauto
  | case3 es hsolved hdel f hsplit =>
    obtain ⟨e, he, hparts⟩ := split_error hsplit
    rcases (hes e he).parts hs with ⟨parts, hok, -⟩ | ⟨hok, -⟩ <;> simp [hparts] at hok
  | case4 es hsolved hdel hsplit =>
    obtain ⟨s', hs'⟩ := solved_of_stuck hs hes hdel hsplit
    rw [hsolved] at hs'
    cases hs'
  | case5 es hsolved hdel es' hsplit ih =>
    obtain ⟨before, e, after, parts, rfl, hparts, rfl⟩ := split_spec hsplit
    rw [List.forall_mem_append, List.forall_mem_cons] at hes
    rcases hes.2.1.parts hs with ⟨parts', hparts', hfit, hvariables⟩ | ⟨hnone, -⟩
    · obtain rfl : parts = parts' := by simpa [hparts] using hparts'
      obtain ⟨s', hs', hdom, hagree⟩ := ih (List.forall_mem_append.2
        ⟨List.forall_mem_append.2 ⟨hes.1, hes.2.2⟩, hfit⟩)
      refine ⟨s', hs', fun x => (hdom x).trans (and_congr_right fun hx => ?_), hagree⟩
      have he := hvariables x hx
      rw [mentions_append, mentions_append, mentions_append,
        mentions_cons]
      tauto
    · simp [hparts] at hnone

end

/-- **Matching is complete.** If a substitution for the variables turns the pattern into the program,
    then there is a match, and it gives the variables that the pattern reads or assigns the values
    that they have. -/
theorem Expr.matchWith_complete {pattern program : Expr} (hlegible : pattern.Legible)
    (hpattern : pattern.PatternFor vars bound)
    (hs : ∀ x, (s.get? x).isSome = true ↔ x ∈ vars) (htargets : s.NamesTargets vars pattern)
    (hprogram : (pattern.substitute s).bare = program.bare) :
    ∃ s', pattern.matchWith vars program bound = .ok (some s') ∧
      (∀ x, (s'.get? x).isSome = true ↔ x ∈ vars ∧ x ∈ pattern.variables) ∧
      ∀ x t, s'.get? x = some t → ∃ u, s.get? x = some u ∧ t.bare = u.bare := by
  have hfits : ∀ e ∈ [Equation.exprs pattern program], e.Fits vars bound s := by
    rw [List.forall_mem_singleton]
    exact ⟨hlegible, hpattern, htargets, hprogram.symm, .inl ⟨pattern, program, rfl⟩⟩
  obtain ⟨s', hs', hdom, hagree⟩ := Matching.solve_complete hs hfits
  refine ⟨s', hs', fun x => (hdom x).trans (and_congr_right fun _ => ?_), hagree⟩
  rw [Matching.mentions_cons]
  exact or_iff_left (by simp [Matching.Mentions])

end

/-- `x = f(y, c)` with the variables `x`, `y` and `z` matches `k = f(3, c)`, whatever `z` is. -/
theorem Expr.matchWith_complete_assignment :
    let pattern := Expr.assign .nowhere (.plain "x")
      (.call .nowhere (.plain "f") [.var "y", .var "c"])
    let program := Expr.assign .nowhere (.plain "k")
      (.call .nowhere (.plain "f") [.int .nowhere 3, .var "c"])
    let s : Substitution := [("x", .var "k"), ("y", .int .nowhere 3), ("z", .bool .nowhere true)]
    ∃ s', pattern.matchWith ["x", "y", "z"] program ["b"] = .ok (some s') ∧
      (∀ x, (s'.get? x).isSome = true ↔ x ∈ ["x", "y", "z"] ∧ x ∈ pattern.variables) ∧
      ∀ x t, s'.get? x = some t → ∃ u, s.get? x = some u ∧ t.bare = u.bare := by
  intro pattern program s
  have hpattern : pattern.PatternFor ["x", "y", "z"] ["b"] := by
    refine ⟨?_, ?_, ?_⟩
    · simp [pattern, Expr.postorder, Expr.postorderList, Expr.var]
    · simp [pattern, Expr.postorder, Expr.postorderList, Expr.var]
    · simp [pattern, Expr.var, Ident.plain]
  have hs : ∀ x, (s.get? x).isSome = true ↔ x ∈ ["x", "y", "z"] := by
    intro x
    simp [s, Substitution.get?, List.lookup_isSome_iff]
  have htargets : s.NamesTargets ["x", "y", "z"] pattern := by
    intro t x a hn _
    obtain ⟨-, rfl, -⟩ : t = .nowhere ∧ x = .plain "x" ∧ _ := by
      simpa [pattern, Expr.postorder, Expr.postorderList, Expr.var] using hn
    exact ⟨_, _, rfl⟩
  exact Expr.matchWith_complete ⟨rfl, rfl, rfl, rfl, trivial⟩ hpattern hs htargets rfl

end GameHop
