import GameHop.Proofs.Check.Scoping
import GameHop.Proofs.Check.Soundness
import GameHop.Proofs.Check.Theory

/-!
What the facts that a proof uses speak of. The names that are free in a fact are its variables,
those that it assigns, and names that are declared outside of it (`Fact.Grounded`).
-/

namespace GameHop

variable {α β : Type}

open CheckM Ambient

/-! ## Facts -/

/-- Whether the names that are free in an expression are variables, or are assigned in it, or are
    declared. -/
def Expr.Grounded (vars : List String) (s : Scope) (e : Expr) : Prop :=
  ∀ y ∈ e.free, y ∉ e.assigned → y ∉ vars → s.declares y = true

/-- Whether both sides of a fact speak of what is declared, its own variables apart. -/
structure Fact.Grounded (s : Scope) (f : Fact) : Prop where
  left : f.left.Grounded f.vars s
  right : f.right.Grounded f.vars s

/-- Whether all facts that proofs may use speak of what is declared. -/
structure Checker.Grounded (c : Checker α) : Prop where
  frames : c.scope.frames ≠ []
  facts : ∀ p ∈ c.facts, p.2.Grounded c.scope

theorem Fact.Grounded.of_declares {s s' : Scope} {f : Fact} (h : f.Grounded s)
    (hs : ∀ y, s.declares y = true → s'.declares y = true) : f.Grounded s' :=
  ⟨fun y hy ha hv => hs y (h.left y hy ha hv), fun y hy ha hv => hs y (h.right y hy ha hv)⟩

/-- More frames declare more. -/
theorem Scope.declares_of_suffix {s s' : Scope} (h : s.frames <:+ s'.frames) {y : String}
    (hy : s.declares y = true) : s'.declares y = true := by
  obtain ⟨f, hf, hy⟩ := declares_iff.1 hy
  exact declares_iff.2 ⟨f, h.subset hf, hy⟩

/-- The sides of a statement are checked one after the other, each in a frame of its own. -/
theorem NamingM.of_sides {functions : Functions} {left right : Expr} {n n' : Naming}
    (h : (do inFrame .variables (left.check functions)
             inFrame .variables (right.check functions) : NamingM Unit).run.run n = (.ok (), n')) :
    n'.scope = n.scope ∧ ∀ e ∈ [left, right], ∀ y ∈ e.free, n.scope.declares y = true ∨ y ∈ e.assigned := by
  obtain ⟨⟨⟩, n₁, hleft, hright⟩ := ok_of_run_bind h
  obtain ⟨hn₁, _, hleft⟩ := of_inFrame (Expr.spills_check functions left.admitted_all) hleft
  obtain ⟨hn', _, hright⟩ := of_inFrame (Expr.spills_check functions right.admitted_all) hright
  have hleft := Expr.declares_of_check hleft
  have hright := Expr.declares_of_check hright
  rw [hn₁] at hn' hright
  simp only [Scope.declares_push] at hleft hright
  exact ⟨hn', List.forall_mem_cons.2 ⟨hleft, List.forall_mem_singleton.2 hright⟩⟩

namespace Checker

theorem Grounded.of_declares {c c' : Checker α} (hc : c.Grounded) (hfacts : c'.facts = c.facts)
    (hframes : c'.scope.frames ≠ [])
    (hscope : ∀ y, c.scope.declares y = true → c'.scope.declares y = true) : c'.Grounded :=
  ⟨hframes, fun p hp => (hc.facts p (hfacts ▸ hp)).of_declares hscope⟩

theorem grounded_start : (start : Checker α).Grounded :=
  ⟨List.cons_ne_nil _ _, by rintro p ⟨⟩⟩

section
variable {file : SourceFile} {s : Statement} {c c' : Checker α} {f : Fact}

/-- A statement whose names are in order makes a grounded fact. -/
theorem grounded_of_checkStatement (h : Ends (checkStatement file s) c f c') :
    s.fact.Grounded c.scope := by
  obtain ⟨-, n₁, n₂, hparams, hsides, -⟩ := ends_checkStatement h
  obtain ⟨g, hframes, hg⟩ := NamingM.declared_of_declareParams (c.scope.frames_push .logical) hparams
  have hreads := (NamingM.of_sides hsides).2
  rw [List.forall_mem_cons, List.forall_mem_singleton] at hreads
  -- what is found in the frame of the parameters is one of them
  have hdeclared : ∀ y, n₁.scope.declares y = true → y ∉ s.params.map (·.name.name) →
      c.scope.declares y = true := by
    intro y hy hparam
    rw [Scope.declares_iff, hframes, List.exists_mem_cons_iff] at hy
    refine Scope.declares_iff.2 (hy.resolve_left fun hy => hparam ?_)
    rw [hg, ScopeFrame.declared_empty, Set.empty_union] at hy
    exact hy
  exact ⟨fun y hy ha => hdeclared y ((hreads.1 y hy).resolve_right ha),
    fun y hy ha => hdeclared y ((hreads.2 y hy).resolve_right ha)⟩

/-- The parameters of a statement stay in a frame of their own. -/
theorem frames_of_checkStatement (h : Ends (checkStatement file s) c f c') :
    ∃ g, c'.scope.frames = g :: c.scope.frames ∧ ∀ p ∈ s.params, p.name.name ∈ g.declared := by
  obtain ⟨-, n₁, n₂, hparams, hsides, rfl⟩ := ends_checkStatement h
  obtain ⟨g, hframes, hg⟩ := NamingM.declared_of_declareParams (c.scope.frames_push .logical) hparams
  refine ⟨g, by rw [← hframes, ← (NamingM.of_sides hsides).1], fun p hp => ?_⟩
  rw [hg]
  exact .inr (List.mem_map.2 ⟨p, hp, rfl⟩)

end

/-- The statement of an item that is accepted makes a grounded fact. -/
theorem grounded_of_checkItem {setup : CheckSetup α} {checkSource : SourceFile → CheckM α Unit}
    {file : SourceFile} {i : Item} {s : Statement} (hs : i.statement? = some s) {c c' : Checker α}
    (h : Ends (checkItem setup checkSource file i) c () c') : s.fact.Grounded c.scope := by
  cases i with
  | assumed s' =>
    obtain rfl := Option.some.inj hs
    obtain ⟨f, _, hstatement, -⟩ := ends_bind h
    exact grounded_of_checkStatement hstatement
  | proved t =>
    obtain rfl := Option.some.inj hs
    obtain ⟨f, _, hstatement, -⟩ := ends_bind (ends_checkTheorem h)
    exact grounded_of_checkStatement hstatement
  | _ => cases hs

theorem keeps_grounded_checkItem (setup : CheckSetup α) {checkSource : SourceFile → CheckM α Unit}
    (h : ∀ file, Keeps Grounded (checkSource file)) (file : SourceFile) (i : Item) :
    Keeps Grounded (checkItem setup checkSource file i) := by
  cases himport : i.isImport with
  | true =>
    cases i with
    | imported i => exact keeps_checkImport setup (fun _ _ hc => ⟨hc.frames, hc.facts⟩) h file i
    | _ => cases himport
  | false =>
    refine keeps_of_settles setup himport (fun c c' hc hends hsettled => ?_) fun c c' e hc hfails => ?_
    · -- a constant adds a declaration to the innermost frame
      have hscope : (∀ y, c.scope.declares y = true → c'.scope.declares y = true) ∧
          c'.scope.frames ≠ [] := by
        rw [hsettled.scope]
        cases i with
        | constant k =>
          obtain ⟨g, base, hframes⟩ := List.exists_cons_of_ne_nil hc.frames
          have hdeclare := Scope.frames_declare hframes k.name.name (k.ty.getD .bits)
          refine ⟨fun y hy => ?_, fun hnil => List.cons_ne_nil _ _ (hdeclare.symm.trans hnil)⟩
          rw [Scope.declares_iff, hframes, List.exists_mem_cons_iff] at hy
          show (c.scope.declare _ _).declares y = true
          rw [Scope.declares_iff, hdeclare, List.exists_mem_cons_iff, ScopeFrame.declared_declare]
          exact hy.imp_left .inl
        | _ => exact ⟨fun _ hy => hy, hc.frames⟩
      refine ⟨hscope.2, fun p hp => ?_⟩
      rw [hsettled.facts] at hp
      rcases Item.mem_facts_register hp with hp | ⟨s, hs, hp⟩
      · exact (hc.facts p hp).of_declares hscope.1
      · rw [hp]
        exact (grounded_of_checkItem hs hends).of_declares hscope.1
    · have hsuffix := hfails.2.suffix.1
      exact hc.of_declares hfails.2.facts
        (fun hnil => hc.frames (List.eq_nil_of_suffix_nil (hnil ▸ hsuffix)))
        fun y => Scope.declares_of_suffix hsuffix

/-- **All facts that are registered speak of what is declared.** -/
theorem keeps_grounded_checkNested (setup : CheckSetup α) (depth : Nat) (file : SourceFile) :
    Keeps Grounded (checkNested setup depth file) :=
  keeps_checkNested_of_items setup (fun _ file _ ih _ i _ => keeps_grounded_checkItem setup ih file i)
    depth file

/-- The states in which items are checked. Before that, any items were checked of any files, and
    accepted or not, and imports were begun. -/
inductive Reached (setup : CheckSetup α) : Checker α → Prop
  | start : Reached setup .start
  | item {c : Checker α} (depth : Nat) (file : SourceFile) (i : Item) : Reached setup c →
    Reached setup ((checkItem setup (checkNested setup depth) file i).run.run c).2
  | importing {c : Checker α} (name : String) : Reached setup c →
    Reached setup { c with imported := name :: c.imported }

section
variable {setup : CheckSetup α} {c : Checker α}

theorem Reached.grounded (h : Reached setup c) : c.Grounded := by
  induction h with
  | start => exact grounded_start
  | item depth file i _ ih =>
    exact keeps_iff.1 (keeps_grounded_checkItem setup (keeps_grounded_checkNested setup depth) file i) _ ih
  | importing name _ ih => exact ⟨ih.frames, ih.facts⟩

theorem Reached.checkSource (h : Reached setup c) (file : SourceFile) :
    Reached setup ((checkSource setup file).run.run c).2 := by
  have hnested : Keeps (Reached setup) (checkNested setup (importDepth setup.files) file) :=
    keeps_checkNested_of_items setup (fun depth file _ _ _ i _ =>
      keeps_iff.2 fun _ hc => .item depth file i hc) _ file
  exact keeps_iff.1 hnested c h

end

end Checker

/-! ## Parameters -/

/-- The fact that a step rewrites with. -/
def Tactic.fact? : Tactic → Option Ident
  | .rewrite _ x | .hybrid _ x _ _ => some x
  | _ => none

section
variable {ctx : ProofContext α} {c c' : Checker α} {step : Tactic}

/-- Throughout a proof the theory is that before it, and the frame of its parameters is the innermost. -/
theorem Tactic.Visits.stands {A : Ambient α} {ts : List Tactic} {n : Nat}
    (h : Visits A.ctx ts c step c') (hA : A.spans = Set.univ)
    (hc : A.Stands (A.Above 0) (Obligation.Goals (n + 1)) c) :
    ∃ m, A.Stands (A.Above 0) (Obligation.Goals (m + 1)) c' := by
  induction h generalizing n with
  | head => exact ⟨n, hc⟩
  | tail hrun _ ih => exact ih ((works_run _ (hA ▸ placed_univ _)).ok hc hrun)
  | inside hopen _ ih =>
    exact ih ((Proof.works_openSubgoal ⟨_, by rw [hA]; trivial, rfl⟩ _
      (hA ▸ Target.placed_univ _)).ok hc hopen)

theorem Theorem.Visits.stands {t : Theorem} (h : t.Visits ctx c step c') :
    c'.facts = c.facts ∧ ∃ f, c'.scope.frames = f :: c.scope.frames ∧
      ∀ p ∈ t.statement.params, p.name.name ∈ f.declared := by
  obtain ⟨f, c₁, c₂, hstatement, hpush, hvisits⟩ := h
  obtain ⟨g, hframes, hdeclared⟩ := Checker.frames_of_checkStatement hstatement
  -- the frame that is opened for the statement declares the parameters to the end
  let A : Ambient α := ⟨ctx, Set.univ, c, {y | ∃ p ∈ t.statement.params, p.name.name = y}⟩
  have hopened := (Checker.stands_checkStatement (A := ⟨ctx, Set.univ, c, ∅⟩) rfl
    t.statement.admitted_all).ok (stands_before rfl (Obligation.goals_zero.2 rfl)) hstatement
  have hc₁ : A.Stands (A.Above 0) (Obligation.Goals 0) c₁ :=
    { hopened.2 with frames := ⟨[g], hframes, g, rfl, by rintro _ ⟨p, hp, rfl⟩; exact hdeclared p hp⟩ }
  have hc₂ := (works_pushObligation (.goal (.ofFact f)) fun _ htop => htop.cons _).ok hc₁ hpush
  obtain ⟨m, hc'⟩ := Tactic.Visits.stands (A := A) hvisits rfl hc₂
  obtain ⟨_, hframes', f', rfl, hf'⟩ := hc'.frames
  exact ⟨hc'.facts, f', hframes', fun p hp => hf' ⟨p, hp, rfl⟩⟩

theorem Tactic.lookup_of_fact? {name : Ident} (hstep : step.fact? = some name)
    (h : Ends (step.run ctx) c () c') : ∃ f, c.facts.lookup name.name = some f := by
  cases step with
  | rewrite | hybrid =>
    obtain rfl := Option.some.inj hstep
    rw [run] at h
    obtain ⟨f, _, hfact, -⟩ := ends_bind h
    exact ⟨f, (lookup_of_factNamed hfact).2⟩
  | _ => cases hstep

theorem Tactic.visits_of_runAll {ts : List Tactic} (h : Ends (runAll ctx ts) c () c') :
    ∀ step ∈ ts, ∃ c₁ c₂, Visits ctx ts c step c₁ ∧ Ends (step.run ctx) c₁ () c₂ := by
  induction ts generalizing c with
  | nil => simp
  | cons t ts ih =>
    rw [runAll] at h
    obtain ⟨⟨⟩, c₁, ht, h⟩ := ends_bind h
    refine List.forall_mem_cons.2 ⟨⟨c, c₁, .head, ht⟩, fun step hstep => ?_⟩
    obtain ⟨c₂, c₃, hvisits, hends⟩ := ih h step hstep
    exact ⟨c₂, c₃, .tail ht hvisits, hends⟩

/-- The steps of a theorem that is accepted end well. -/
theorem Theorem.visits_of_checkTheorem {t : Theorem} (h : Ends (Checker.checkTheorem ctx t) c () c') :
    ∀ step ∈ t.proof, ∃ c₁ c₂, t.Visits ctx c step c₁ ∧ Ends (step.run ctx) c₁ () c₂ := by
  intro step hstep
  obtain ⟨f, c₁, hstatement, h⟩ := ends_bind (ends_checkTheorem h)
  obtain ⟨⟨⟩, c₂, hpush, h⟩ := ends_bind h
  obtain ⟨⟨⟩, _, hproof, -⟩ := ends_bind h
  obtain ⟨c₃, c₄, hvisits, hends⟩ := Tactic.visits_of_runAll hproof step hstep
  exact ⟨c₃, c₄, ⟨f, c₁, c₂, hstatement, hpush, hvisits⟩, hends⟩

/-- Whether a name that is declared in the frames of a scope is declared again above them. -/
structure Scope.Shadowed (outer inner : Scope) (x : String) : Prop where
  declares : outer.declares x = true
  above : ∃ f top, inner.frames = top ++ outer.frames ∧ f ∈ top ∧ x ∈ f.declared

/-- **A fact that a proof uses speaks of a parameter of the theorem only if the parameter shadows a name
    that was declared before the theorem**, unless that side of the fact assigns the name. -/
theorem Theorem.mentioned_parameters_shadow {setup : CheckSetup α} {t : Theorem} {name : Ident}
    {c'' : Checker α} (hc : c.Reached setup) (hvisits : t.Visits ctx c step c')
    (hstep : step.fact? = some name) (hends : Ends (step.run ctx) c' () c'') :
    ∃ f, c'.facts.lookup name.name = some f ∧
      ∀ x ∈ t.statement.params.map (·.name.name), x ∉ f.vars →
        (x ∈ f.left.free ∧ x ∉ f.left.assigned ∨ x ∈ f.right.free ∧ x ∉ f.right.assigned) →
          c.scope.Shadowed c'.scope x := by
  obtain ⟨f, hf⟩ := Tactic.lookup_of_fact? hstep hends
  refine ⟨f, hf, List.forall_mem_map.2 fun p hp hvars hfree => ⟨?_, ?_⟩⟩
  · rw [hvisits.stands.1] at hf
    have hground := hc.grounded.facts _ (mem_of_lookup hf)
    rcases hfree with ⟨hfree, hassigned⟩ | ⟨hfree, hassigned⟩
    · exact hground.left _ hfree hassigned hvars
    · exact hground.right _ hfree hassigned hvars
  · obtain ⟨-, g, hframes, hdeclared⟩ := hvisits.stands
    exact ⟨g, [g], hframes, List.mem_singleton_self g, hdeclared p hp⟩

end

/-! ## A constant and a parameter of the same name -/

/-- A fact about a constant. -/
def Checker.constantSource : SourceFile :=
  ⟨"a.qvl", "const k; function f(x); function g(x); assume A(): f(k) ~ g(k);"⟩

/-- The state after that source. -/
def Checker.afterConstant : Checker (Location × Question) :=
  ((checkSource ⟨.record, .empty "/", []⟩ constantSource).run.run .start).2

/-- `theorem name(params): f(e) ~ g(e) { rewrite fact; }` -/
def Theorem.callsAlike (name : String) (params : List String) (e : Expr) (fact : String) : Theorem :=
  ⟨.nowhere, ⟨.nowhere, .plain name, params.map fun x => ⟨.nowhere, .plain x, none⟩,
    .call .nowhere (.plain "f") [e], none, .call .nowhere (.plain "g") [e]⟩,
    [.rewrite .nowhere (.plain fact)]⟩

/-- A theorem whose parameter has the name of the constant. -/
def Theorem.shadowing : Theorem :=
  .callsAlike "T" ["k"] (.var "k") "A"

/-- Where its proof is read from. -/
def Checker.constantContext : ProofContext (Location × Question) :=
  ⟨constantSource, .record⟩

/-- What a fact has for variables, and what its left side reads and assigns. -/
def Checker.factNames? (c : Checker α) (name : String) :
    Option (List String × List String × List String) :=
  (c.facts.lookup name).map fun f => (f.vars, f.left.free, f.left.assigned)

/-- If the theorem is accepted, it is for a fact that speaks of the name of its parameter. -/
theorem Theorem.visits_shadowing {c c' : Checker (Location × Question)}
    (hnames : c.factNames? "A" = some ([], ["k"], []))
    (h : Ends (Checker.checkTheorem Checker.constantContext .shadowing) c () c') :
    ∃ c₁ c₂ f, shadowing.Visits Checker.constantContext c (.rewrite .nowhere (.plain "A")) c₁ ∧
      Ends ((Tactic.rewrite .nowhere (.plain "A")).run Checker.constantContext) c₁ () c₂ ∧
      c₁.facts.lookup "A" = some f ∧ f.vars = [] ∧ f.left.free = ["k"] ∧ f.left.assigned = [] := by
  obtain ⟨c₁, c₂, hvisits, hends⟩ := visits_of_checkTheorem h _ (List.mem_singleton_self _)
  obtain ⟨f, hf, hnames⟩ := Option.map_eq_some_iff.1 hnames
  obtain ⟨hvars, hnames⟩ := Prod.mk.inj hnames
  obtain ⟨hfree, hassigned⟩ := Prod.mk.inj hnames
  exact ⟨c₁, c₂, f, hvisits, hends, by rw [hvisits.stands.1, hf], hvars, hfree, hassigned⟩

/-- The theorem is accepted after the source, and is used for one of its instances after that. -/
theorem Checker.accepts_shadowing : ∃ c c' c'',
    c.Reached ⟨.record, .empty "/", []⟩ ∧ c.factNames? "A" = some ([], ["k"], []) ∧
    Ends (checkTheorem constantContext .shadowing) c () c' ∧
    (c'.facts.lookup "T").map (·.vars) = some ["k"] ∧
    Ends (checkTheorem constantContext (.callsAlike "U" [] (.ofNat 1) "T")) c' () c'' := by
  have hrun : (fun c : Checker (Location × Question) => (c.factNames? "A",
      (fun r : Except CheckError Unit × Checker (Location × Question) =>
        (r.1.toOption, (r.2.facts.lookup "T").map (·.vars),
          ((checkTheorem constantContext (.callsAlike "U" [] (.ofNat 1) "T")).run.run
            r.2).1.toOption))
        ((checkTheorem constantContext .shadowing).run.run c))) afterConstant =
      (some ([], ["k"], []), some (), some ["k"], some ()) := by
    decide +kernel
  obtain ⟨hnames, hrest⟩ := Prod.mk.inj hrun
  obtain ⟨hcheck, hrest⟩ := Prod.mk.inj hrest
  obtain ⟨hvars, hone⟩ := Prod.mk.inj hrest
  have hreached : afterConstant.Reached ⟨.record, .empty "/", []⟩ :=
    Reached.start.checkSource constantSource
  -- from here on it does not matter what the state is
  generalize afterConstant = c at hnames hcheck hvars hone hreached
  exact ⟨c, _, _, hreached, hnames, ends_of_toOption hcheck, hvars, ends_of_toOption hone⟩

/-- The parameter of the theorem shadows the constant that the fact is about. -/
theorem Theorem.mentioned_parameters_shadow_constant :
    ∃ c c₁ c₂ f, c.Reached ⟨.record, .empty "/", []⟩ ∧
      shadowing.Visits Checker.constantContext c (.rewrite .nowhere (.plain "A")) c₁ ∧
      Ends ((Tactic.rewrite .nowhere (.plain "A")).run Checker.constantContext) c₁ () c₂ ∧
      c₁.facts.lookup "A" = some f ∧ "k" ∉ f.vars ∧ "k" ∈ f.left.free ∧
      c.scope.Shadowed c₁.scope "k" := by
  obtain ⟨c, _, _, hreached, hnames, hcheck, -, -⟩ := Checker.accepts_shadowing
  obtain ⟨c₁, c₂, f, hvisits, hends, hf, hvars, hfree, hassigned⟩ := visits_shadowing hnames hcheck
  obtain ⟨f', hf', hshadow⟩ := mentioned_parameters_shadow hreached hvisits rfl hends
  obtain rfl : f = f' := Option.some.inj (hf.symm.trans hf')
  have hk : "k" ∉ f.vars := by simp [hvars]
  exact ⟨c, c₁, c₂, f, hreached, hvisits, hends, hf, hk, by simp [hfree],
    hshadow "k" (List.mem_singleton_self _) hk (.inl (by simp [hfree, hassigned]))⟩

/-- **A theorem about all `k` is proved from a fact about the constant `k`**, and is then used where `k`
    is one. -/
theorem Theorem.proved_from_constant :
    ∃ c c₁ c₂ c₃ c₄ f, c.Reached ⟨.record, .empty "/", []⟩ ∧
      Ends (Checker.checkTheorem Checker.constantContext shadowing) c () c₃ ∧
      shadowing.Visits Checker.constantContext c (.rewrite .nowhere (.plain "A")) c₁ ∧
      Ends ((Tactic.rewrite .nowhere (.plain "A")).run Checker.constantContext) c₁ () c₂ ∧
      c₁.facts.lookup "A" = some f ∧ "k" ∈ f.left.free ∧ "k" ∉ f.vars ∧
      "k" ∈ shadowing.statement.params.map (·.name.name) ∧
      (c₃.facts.lookup "T").map (·.vars) = some ["k"] ∧
      Ends (Checker.checkTheorem Checker.constantContext (.callsAlike "U" [] (.ofNat 1) "T"))
        c₃ () c₄ := by
  obtain ⟨c, c₃, c₄, hreached, hnames, hcheck, hvars', hone⟩ := Checker.accepts_shadowing
  obtain ⟨c₁, c₂, f, hvisits, hends, hf, hvars, hfree, -⟩ := visits_shadowing hnames hcheck
  exact ⟨c, c₁, c₂, c₃, c₄, f, hreached, hcheck, hvisits, hends, hf, by simp [hfree],
    by simp [hvars], List.mem_singleton_self _, hvars', hone⟩

end GameHop
