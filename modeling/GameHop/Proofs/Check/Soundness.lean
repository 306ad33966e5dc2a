import GameHop.Check.Development
import GameHop.Proofs.Check.Distance
import GameHop.Proofs.Check.Runs
import Mathlib

/-!
Soundness of proofs. A goal is left with a gap: what its steps cost so far and the distance between
its two sides.
-/

namespace GameHop

open CheckM

variable {α : Type}

/-! ## Questions -/

/-- Whether the right answer to a question is yes. -/
def Question.Holds (v : Valuation) (D : Distance) : Question → Prop
  | .equivalent left right _ => D.dist left right = 0
  | .within actual required => v.value actual ≤ v.value required
  | .bisimilar left right _ => D.dist (.new .nowhere left) (.new .nowhere right) = 0

/-- Whether the answers of a back end tell what was asked. -/
def Backend.Reveals (backend : Backend α) (question : α → Question) : Prop :=
  ∀ env q a, backend env q = .ok a → question a = q

theorem Backend.reveals_record : record.Reveals Prod.snd := by
  rintro env q a ⟨⟩
  rfl

/-! ## Proofs -/

def Replacement.Readable : Replacement → Prop
  | .fields _ fs => ∀ f ∈ fs, f.Readable
  | .method m => m.Readable

def Target.Readable : Target → Prop
  | .expr e => e.Readable
  | .changed changes => ∀ r ∈ changes, r.Readable

mutual

/-- Whether the programs and names that a step mentions are readable. -/
def Tactic.Readable : Tactic → Prop
  | .subgoal _ _ target proof => target.Readable ∧ Tactic.ReadableAll proof
  | .inline _ names => ∀ x ∈ names, x.Legible
  | _ => True

def Tactic.ReadableAll : List Tactic → Prop
  | [] => True
  | t :: ts => t.Readable ∧ Tactic.ReadableAll ts

end

mutual

/-- Whether a step is no `admit` and no `hybrid` and has none inside. -/
def Tactic.Plain : Tactic → Prop
  | .subgoal _ _ _ proof => Tactic.PlainAll proof
  | .giveUp _ | .hybrid _ _ _ _ => False
  | _ => True

def Tactic.PlainAll : List Tactic → Prop
  | [] => True
  | t :: ts => t.Plain ∧ Tactic.PlainAll ts

end

/-- `Visits ctx ts c t c'`: if the steps `ts` are applied in the state `c`, the step `t`, which is one
    of them or is inside one, is applied in the state `c'`. -/
inductive Tactic.Visits (ctx : ProofContext α) :
    List Tactic → Checker α → Tactic → Checker α → Prop
  | head {t : Tactic} {ts : List Tactic} {c : Checker α} : Visits ctx (t :: ts) c t c
  | tail {t t' : Tactic} {ts : List Tactic} {c c₁ c' : Checker α} :
    Ends (t.run ctx) c () c₁ → Visits ctx ts c₁ t' c' → Visits ctx (t :: ts) c t' c'
  | inside {span : Span} {bound : Option Bound} {target : Target} {proof ts : List Tactic}
    {t' : Tactic} {c c₁ c' : Checker α} :
    Ends (Proof.openSubgoal ctx (ctx.file.locate span) (bound.getD .zero) target) c () c₁ →
    Visits ctx proof c₁ t' c' → Visits ctx (.subgoal span bound target proof :: ts) c t' c'

/-! ## Goals -/

/-- What the steps cost so far and what is still between the two sides. -/
def Goal.gap (v : Valuation) (D : Distance) (g : Goal) : ℝ :=
  v.value g.distance + D.dist g.left g.right

/-- Whether both sides of a goal are readable. -/
structure Goal.Readable (g : Goal) : Prop where
  left : g.left.Readable
  right : g.right.Readable

/-- Whether the facts that proofs may use are valid, and what proofs may use is readable. -/
structure Checker.Sound (v : Valuation) (D : Distance) (c : Checker α) : Prop where
  valid : ∀ f ∈ c.facts, f.2.Valid v D
  facts : ∀ f ∈ c.facts, f.2.Readable
  functions : c.functions.Readable

/-- **What a step does.** The goal under proof is still there, for the same fact and with readable
    sides, above what was below it, and its gap is not smaller if the answers are right that were
    added. -/
structure Checker.Advances (v : Valuation) (D : Distance) (question : α → Question)
    (c c' : Checker α) : Prop where
  facts : c'.facts = c.facts
  functions : c'.functions = c.functions
  goal : ∀ g rest, c.obligations.stack = .goal g :: rest → g.Readable →
    ∃ g' new, c'.obligations.stack = .goal g' :: rest ∧ g'.fact = g.fact ∧ g'.Readable ∧
      c'.answers = c.answers ++ new ∧
      ((∀ a ∈ new, (question a).Holds v D) → g.gap v D ≤ g'.gap v D)

theorem stack_inj {o : List Obligation} {g g' : Goal} {rest rest' : List Obligation}
    (h : o = .goal g :: rest) (h' : o = .goal g' :: rest') : g = g' ∧ rest = rest' := by
  rw [h] at h'
  obtain ⟨hg, hrest⟩ := List.cons.inj h'
  exact ⟨Obligation.goal.inj hg, hrest⟩

section
variable {v : Valuation} {D : Distance} {question : α → Question} {ctx : ProofContext α}
  {c c₁ c' : Checker α} {location : Location}

theorem Checker.Sound.of_eq (h : c.Sound v D) (hfacts : c'.facts = c.facts)
    (hfunctions : c'.functions = c.functions) : c'.Sound v D where
  valid := hfacts ▸ h.valid
  facts := hfacts ▸ h.facts
  functions := hfunctions ▸ h.functions

theorem Checker.Advances.sound (h : c.Advances v D question c') (hc : c.Sound v D) :
    c'.Sound v D :=
  hc.of_eq h.facts h.functions

theorem Checker.Advances.refl (c : Checker α) : c.Advances v D question c where
  facts := rfl
  functions := rfl
  goal g rest hstack hg := ⟨g, [], hstack, rfl, hg, by simp, fun _ => le_rfl⟩

/-- Steps that follow each other. -/
theorem Checker.Advances.trans (h : c.Advances v D question c₁)
    (h' : c₁.Advances v D question c') : c.Advances v D question c' where
  facts := h'.facts.trans h.facts
  functions := h'.functions.trans h.functions
  goal g rest hstack hg := by
    obtain ⟨g₁, new₁, hstack₁, hfact₁, hg₁, hnew₁, hgap₁⟩ := h.goal g rest hstack hg
    obtain ⟨g', new', hstack', hfact', hg', hnew', hgap'⟩ := h'.goal g₁ rest hstack₁ hg₁
    refine ⟨g', new₁ ++ new', hstack', hfact'.trans hfact₁, hg', ?_, fun hnew => ?_⟩
    · rw [hnew', hnew₁, List.append_assoc]
    · rw [List.forall_mem_append] at hnew
      exact (hgap₁ hnew.1).trans (hgap' hnew.2)

/-- A step that changes the goal on top from `g` to `g'`. -/
theorem Checker.Advances.of_goal (new : List α) {g g' : Goal} {rest : List Obligation}
    (hfacts : c'.facts = c.facts) (hfunctions : c'.functions = c.functions)
    (hstack : c.obligations.stack = .goal g :: rest)
    (hstack' : c'.obligations.stack = .goal g' :: rest) (hfact : g'.fact = g.fact)
    (hread : g.Readable → g'.Readable) (hanswers : c'.answers = c.answers ++ new)
    (hgap : g.Readable → (∀ a ∈ new, (question a).Holds v D) → g.gap v D ≤ g'.gap v D) :
    c.Advances v D question c' where
  facts := hfacts
  functions := hfunctions
  goal g₀ rest₀ hstack₀ hg₀ := by
    obtain ⟨rfl, rfl⟩ := stack_inj hstack hstack₀
    exact ⟨g', new, hstack', hfact, hread hg₀, hanswers, hgap hg₀⟩

/-! ## Steps -/

/-- Both sides of a goal may be made the same if they are at distance zero. -/
theorem Goal.gap_le_settled {g : Goal} (h : D.dist g.left g.right = 0) :
    g.gap v D ≤ gap v D { g with left := g.right } := by
  simp [gap, h, D.self]

/-- Another left side at distance zero leaves the gap as it is. -/
theorem Goal.gap_le_left {g : Goal} {left : Expr} (h : D.dist g.left left = 0) :
    g.gap v D ≤ gap v D { g with left } := by
  simp only [gap]
  rw [D.congr_left h]

theorem advances_symmetry
    (h : Ends (modifyGoal location fun g => { g with left := g.right, right := g.left }) c () c') :
    c.Advances v D question c' := by
  obtain ⟨g, rest, hstack, rfl⟩ := ends_modifyGoal h
  refine .of_goal [] rfl rfl hstack rfl rfl (fun hg => ⟨hg.right, hg.left⟩) (by simp) ?_
  intro _ _
  simp only [Goal.gap]
  rw [D.symm]

/-- Equal sides are at distance zero. -/
theorem ends_checkEqual {left right : Expr}
    (h : Ends (Proof.checkEqual location left right : CheckM α Unit) c () c') :
    c = c' ∧ D.dist left right = 0 := by
  unfold Proof.checkEqual at h
  split at h
  · exact ⟨(ends_pure h).2, D.eq_zero _ _ ‹_›⟩
  · exact (not_ends_fail h).elim

/-- Sides are made the same that are at distance zero if the new answers are right. -/
theorem Checker.Advances.of_settle {g : Goal} {rest : List Obligation} (new : List α)
    (hfacts : c'.facts = c.facts) (hfunctions : c'.functions = c.functions)
    (hstack : c.obligations.stack = .goal g :: rest)
    (hstack' : c'.obligations.stack = .goal { g with left := g.right } :: rest)
    (hanswers : c'.answers = c.answers ++ new)
    (hzero : (∀ a ∈ new, (question a).Holds v D) → D.dist g.left g.right = 0) :
    c.Advances v D question c' :=
  .of_goal new hfacts hfunctions hstack hstack' rfl (fun hg => ⟨hg.right, hg.right⟩) hanswers
    fun _ hnew => Goal.gap_le_settled (hzero hnew)

theorem advances_trivial {span : Span} (h : Ends ((Tactic.trivial span).run ctx) c () c') :
    c.Advances v D question c' := by
  rw [Tactic.run] at h
  obtain ⟨g, _, hgoal, h⟩ := ends_bind h
  obtain ⟨rfl, rest, hstack⟩ := ends_goal hgoal
  obtain ⟨⟨⟩, _, hequal, h⟩ := ends_bind h
  obtain ⟨rfl, hzero⟩ := ends_checkEqual (D := D) hequal
  obtain ⟨g', rest', hstack', rfl⟩ := ends_settle h
  obtain ⟨rfl, rfl⟩ := stack_inj hstack hstack'
  exact .of_settle [] rfl rfl hstack rfl (by simp) fun _ => hzero

theorem advances_auto (hback : ctx.backend.Reveals question)
    (h : Ends (Proof.auto ctx location) c () c') : c.Advances v D question c' := by
  unfold Proof.auto at h
  obtain ⟨⟨⟩, _, hscope, h⟩ := ends_bind h
  obtain rfl := ends_modifyScope hscope
  obtain ⟨g, _, hgoal, h⟩ := ends_bind h
  obtain ⟨rfl, rest, hstack⟩ := ends_goal hgoal
  obtain ⟨⟨⟩, _, hask, h⟩ := ends_bind h
  obtain ⟨env, a, ha, rfl⟩ := ends_askIn hask
  obtain ⟨⟨⟩, _, hsettle, h⟩ := ends_bind h
  obtain ⟨g', rest', hstack', rfl⟩ := ends_settle hsettle
  obtain ⟨rfl, rfl⟩ := stack_inj hstack hstack'
  obtain rfl := ends_modifyScope h
  refine .of_settle [a] rfl rfl hstack rfl rfl fun hnew => ?_
  have hholds := hnew a (.head _)
  rwa [hback env _ a ha] at hholds

/-- An object in parentheses is at distance zero from the object. -/
theorem ends_bisimSide {e : Expr} {o : Object}
    (h : Ends (Proof.bisimSide location e : CheckM α Object) c o c') :
    c = c' ∧ D.dist e (.new .nowhere o) = 0 := by
  unfold Proof.bisimSide at h
  split at h
  · rename_i o' ho
    obtain ⟨rfl, rfl⟩ := ends_pure h
    exact ⟨rfl, D.eq_zero _ _ (Expr.structurallyEqual_of_core (Expr.core_object [] .nowhere ho))⟩
  · exact (not_ends_fail h).elim

theorem advances_bisim (hback : ctx.backend.Reveals question) {clauses : Option (List BisimClause)}
    (h : Ends (Proof.bisim ctx location clauses) c () c') : c.Advances v D question c' := by
  unfold Proof.bisim at h
  obtain ⟨⟨⟩, _, hscope, h⟩ := ends_bind h
  obtain rfl := ends_modifyScope hscope
  obtain ⟨g, _, hgoal, h⟩ := ends_bind h
  obtain ⟨rfl, rest, hstack⟩ := ends_goal hgoal
  obtain ⟨left, _, hside, h⟩ := ends_bind h
  obtain ⟨rfl, hleft⟩ := ends_bisimSide (D := D) hside
  obtain ⟨right, _, hside, h⟩ := ends_bind h
  obtain ⟨rfl, hright⟩ := ends_bisimSide (D := D) hside
  obtain ⟨⟨⟩, _, hask, h⟩ := ends_bind h
  obtain ⟨env, a, ha, rfl⟩ := ends_askIn hask
  obtain ⟨⟨⟩, _, hsettle, h⟩ := ends_bind h
  obtain ⟨g', rest', hstack', rfl⟩ := ends_settle hsettle
  obtain ⟨rfl, rfl⟩ := stack_inj hstack hstack'
  obtain rfl := ends_modifyScope h
  refine .of_settle [a] rfl rfl hstack rfl rfl fun hnew => ?_
  have hholds := hnew a (.head _)
  rw [hback env _ a ha] at hholds
  rw [D.congr_left hleft, D.symm, D.congr_left hright, D.symm]
  exact hholds

/-! ## Rewriting -/

/-- The goal after its left side was rewritten. -/
theorem Goal.charge_steps (g : Goal) (steps : List RewriteStep) :
    ∃ d, steps.foldl (fun g s => g.charge s.distance) g = { g with distance := d } ∧
      ∀ v : Valuation, v.value d = v.value g.distance + (steps.map fun s => v.value s.distance).sum := by
  induction steps generalizing g with
  | nil => exact ⟨g.distance, rfl, by simp⟩
  | cons step steps ih =>
    obtain ⟨d, hd, hvalue⟩ := ih (g.charge step.distance)
    refine ⟨d, hd, fun v => ?_⟩
    rw [hvalue, charge, v.value_add, List.map_cons, List.sum_cons, add_assoc]

theorem lookup_of_factNamed {x : Ident} {f : Fact} (h : Ends (Proof.factNamed ctx x) c f c') :
    c = c' ∧ c.facts.lookup x.name = some f := by
  unfold Proof.factNamed at h
  obtain ⟨_, _, hget, h⟩ := ends_bind h
  obtain ⟨rfl, rfl⟩ := ends_get hget
  split at h
  · rename_i f' hf
    obtain ⟨rfl, rfl⟩ := ends_pure h
    exact ⟨rfl, hf⟩
  · exact (not_ends_fail h).elim

theorem ends_factNamed {x : Ident} {f : Fact} (h : Ends (Proof.factNamed ctx x) c f c') :
    c = c' ∧ (x.name, f) ∈ c.facts :=
  (lookup_of_factNamed h).imp id mem_of_lookup

/-- A rule that was applied has a place at least, and each of its places is charged. -/
theorem ends_applyRule {rule : Rule} {place : Location} {unused : Fault}
    (h : Ends (Proof.applyRule location rule place unused) c () c') :
    ∃ g rest steps d, c.obligations.stack = .goal g :: rest ∧ (rule.rewrite g.left).2 = .ok steps ∧
      steps ≠ [] ∧
      c' = { c with
        obligations := ⟨.goal { g with left := (rule.rewrite g.left).1, distance := d } :: rest⟩ } ∧
      ∀ v : Valuation, v.value d = v.value g.distance + (steps.map fun s => v.value s.distance).sum := by
  unfold Proof.applyRule at h
  obtain ⟨g, _, hgoal, h⟩ := ends_bind h
  obtain ⟨rfl, rest, hstack⟩ := ends_goal hgoal
  split at h
  rename_i left log hrewrite
  obtain ⟨steps, _, hinternal, h⟩ := ends_bind h
  obtain ⟨rfl, rfl⟩ := ends_internal hinternal
  obtain ⟨hsteps, h⟩ := ends_guard h
  obtain ⟨g', rest', hstack', rfl⟩ := ends_modifyGoal h
  obtain ⟨rfl, rfl⟩ := stack_inj hstack hstack'
  obtain ⟨d, hd, hvalue⟩ := Goal.charge_steps { g with left } steps
  refine ⟨g, rest, steps, d, hstack, by rw [hrewrite], by simpa using hsteps, ?_, hvalue⟩
  rw [hrewrite, hd]

theorem advances_rewriteWith {x : Ident} (hc : c.Sound v D)
    (h : Ends (Proof.rewriteWith ctx location x) c () c') : c.Advances v D question c' := by
  unfold Proof.rewriteWith at h
  obtain ⟨f, _, hfact, h⟩ := ends_bind h
  obtain ⟨rfl, hf⟩ := ends_factNamed hfact
  change Ends (Proof.applyRule location (f.rule f.distance.isZero) _ _) _ _ _ at h
  obtain ⟨g, rest, steps, d, hstack, hsteps, -, rfl, hvalue⟩ := ends_applyRule h
  have hcost (hg : g.Readable) := (hc.valid _ hf).rewrite (hc.facts _ hf) hg.left hsteps
  refine .of_goal [] rfl rfl hstack rfl rfl (fun hg => ⟨(hcost hg).1, hg.right⟩) (by simp) ?_
  intro hg _
  have htriangle := D.triangle g.left ((f.rule f.distance.isZero).rewrite g.left).1 g.right
  have hle := (hcost hg).2
  simp only [Goal.gap, hvalue, Rat.cast_add]
  linarith

/-! ## Unfolding and inlining -/

theorem advances_unfold (hback : ctx.backend.Reveals question) (hc : c.Sound v D)
    {names : List Ident} (h : Ends (Proof.unfold ctx location names) c () c') :
    c.Advances v D question c' := by
  unfold Proof.unfold at h
  obtain ⟨g, _, hgoal, h⟩ := ends_bind h
  obtain ⟨rfl, rest, hstack⟩ := ends_goal hgoal
  obtain ⟨_, _, hget, h⟩ := ends_bind h
  obtain ⟨rfl, rfl⟩ := ends_get hget
  split at h
  rename_i left failed hunfold
  cases failed with
  | some f => exact (not_ends_fail h).elim
  | none =>
    obtain ⟨⟨⟩, _, hmodify, h⟩ := ends_bind h
    obtain ⟨g', rest', hstack', rfl⟩ := ends_modifyGoal hmodify
    obtain ⟨rfl, rfl⟩ := stack_inj hstack hstack'
    obtain ⟨env, a, ha, rfl⟩ := ends_askIn h
    have hread (hg : g.Readable) := Expr.readable_unfold hc.functions (names.map (·.name)) hg.left
    rw [hunfold] at hread
    refine .of_goal [a] rfl rfl hstack rfl rfl (fun hg => ⟨hread hg, hg.right⟩) rfl ?_
    intro _ hnew
    have hholds := hnew a (.head _)
    rw [hback env _ a ha] at hholds
    exact Goal.gap_le_left hholds

/-- Whether inlining objects leaves the left side of the goal at distance zero. -/
def Checker.InlinesWell (D : Distance) (c : Checker α) (names : List Ident) : Prop :=
  ∀ g rest left, c.obligations.stack = .goal g :: rest →
    g.left.inlineObjects c.scope (names.map (·.name)) = .ok left → D.dist g.left left = 0

theorem advances_inline {names : List Ident} (hnames : ∀ x ∈ names, x.Legible)
    (hinline : c.InlinesWell D names) (h : Ends (Proof.inline location names) c () c') :
    c.Advances v D question c' := by
  unfold Proof.inline at h
  obtain ⟨g, _, hgoal, h⟩ := ends_bind h
  obtain ⟨rfl, rest, hstack⟩ := ends_goal hgoal
  obtain ⟨_, _, hget, h⟩ := ends_bind h
  obtain ⟨rfl, rfl⟩ := ends_get hget
  obtain ⟨left, _, hlocated, h⟩ := ends_bind h
  obtain ⟨hleft, rfl⟩ := ends_located hlocated
  obtain ⟨g', rest', hstack', rfl⟩ := ends_modifyGoal h
  obtain ⟨rfl, rfl⟩ := stack_inj hstack hstack'
  have hnames : ∀ x ∈ names.map (·.name), Lexer.isName x = true := List.forall_mem_map.2 hnames
  refine .of_goal [] rfl rfl hstack rfl rfl (fun hg => ?_) (by simp) fun _ _ => ?_
  · exact ⟨Expr.readable_inlineObjects hnames hg.left hleft, hg.right⟩
  · exact Goal.gap_le_left (hinline g rest left hstack hleft)

/-! ## Targets -/

/-- What a change of the right side does that is being put together. -/
structure Checker.Builds (c c' : Checker α) : Prop where
  facts : c'.facts = c.facts
  functions : c'.functions = c.functions
  answers : c'.answers = c.answers
  builder : ∀ f rest, c.obligations.stack = .builder f :: rest → f.right.Readable →
    ∃ right, c'.obligations.stack = .builder { f with right } :: rest ∧ right.Readable

theorem Checker.Builds.trans (h : c.Builds c₁) (h' : c₁.Builds c') : c.Builds c' where
  facts := h'.facts.trans h.facts
  functions := h'.functions.trans h.functions
  answers := h'.answers.trans h.answers
  builder f rest hstack hf := by
    obtain ⟨right₁, hstack₁, hright₁⟩ := h.builder f rest hstack hf
    exact h'.builder { f with right := right₁ } rest hstack₁ hright₁

/-- A change of anything else. -/
theorem Checker.Builds.of_eq (hfacts : c'.facts = c.facts) (hfunctions : c'.functions = c.functions)
    (hanswers : c'.answers = c.answers) (hobligations : c'.obligations = c.obligations) :
    c.Builds c' where
  facts := hfacts
  functions := hfunctions
  answers := hanswers
  builder f rest hstack hf := ⟨f.right, by rw [hobligations, hstack], hf⟩

theorem builds_modifyScope {f : Scope → Scope} (h : Ends (modifyScope f) c () c') :
    c.Builds c' := by
  obtain rfl := ends_modifyScope h
  exact .of_eq rfl rfl rfl rfl

theorem builds_naming {file : SourceFile} {x : NamingM Unit} (h : Ends (naming file x) c () c') :
    c.Builds c' := by
  obtain ⟨n, -, rfl⟩ := ends_naming h
  exact .of_eq rfl rfl rfl rfl

theorem builds_modifyBuilder {f : Fact → Fact} (h : Ends (modifyBuilder location f) c () c')
    (hf : ∀ g rest, c.obligations.stack = .builder g :: rest → g.right.Readable →
      ∃ right, f g = { g with right } ∧ right.Readable) : c.Builds c' := by
  obtain ⟨g, rest, hstack, rfl⟩ := ends_modifyBuilder h
  refine ⟨rfl, rfl, rfl, fun g' rest' hstack' hg' => ?_⟩
  rw [hstack] at hstack'
  obtain ⟨hg, rfl⟩ := List.cons.inj hstack'
  obtain rfl := Obligation.builder.inj hg
  obtain ⟨right, hright, hread⟩ := hf g rest hstack hg'
  exact ⟨right, by rw [← hright], hread⟩

/-- One change after the other. -/
theorem builds_forM {β : Type} {bs : List β} {f : β → CheckM α Unit}
    (hf : ∀ b ∈ bs, ∀ c c', Ends (f b) c () c' → c.Builds c') (h : Ends (bs.forM f) c () c') :
    c.Builds c' := by
  induction bs generalizing c with
  | nil =>
    obtain ⟨-, rfl⟩ := ends_pure h
    exact .of_eq rfl rfl rfl rfl
  | cons b bs ih =>
    rw [List.forall_mem_cons] at hf
    obtain ⟨⟨⟩, c₁, hb, h⟩ := ends_bind h
    exact (hf.1 c c₁ hb).trans (ih hf.2 h)

theorem Expr.readable_fillEllipsis {e previous : Expr} (he : e.Readable)
    (hprevious : previous.Readable) : (e.fillEllipsis previous).Readable := by
  refine readable_bottomUp _ (fun e he => ?_) he
  split
  · exact hprevious
  · exact he

theorem Object.readable_withMethod {o : Object} (ho : o.Readable) {m : Method} (hm : m.Readable) :
    (o.withMethod m).Readable where
  className := ho.className
  fields := ho.fields
  methods := by
    intro m₁ hm₁
    obtain ⟨m', hm', rfl⟩ := List.mem_map.1 hm₁
    split
    · exact ⟨hm.names, Expr.readable_fillEllipsis hm.body (ho.methods m' hm').body⟩
    · exact ho.methods m' hm'

theorem ends_targetObject {span : Span} {o : Object}
    (h : Ends (Proof.targetObject location) c (span, o) c') :
    c = c' ∧ ∃ f rest, c.obligations.stack = .builder f :: rest ∧
      f.right.unparen.object? = some o := by
  unfold Proof.targetObject at h
  obtain ⟨f, _, hbuilder, h⟩ := ends_bind h
  obtain ⟨rfl, rest, hstack⟩ := ends_builder hbuilder
  split at h
  · rename_i o' ho
    obtain ⟨hpair, rfl⟩ := ends_pure h
    obtain rfl := (Prod.mk.inj hpair).2
    exact ⟨rfl, f, rest, hstack, ho⟩
  · exact (not_ends_fail h).elim

/-- Another object in the place of the one that is being put together. -/
theorem builds_target {span : Span} {o o' : Object} {f : Fact} {rest : List Obligation}
    (hstack : c.obligations.stack = .builder f :: rest) (ho : f.right.unparen.object? = some o)
    (ho' : o.Readable → o'.Readable)
    (h : Ends (modifyBuilder location fun f => { f with right := .new span o' }) c () c') :
    c.Builds c' := by
  refine builds_modifyBuilder h fun g rest' hstack' hg => ⟨_, rfl, ?_⟩
  rw [hstack] at hstack'
  obtain rfl := Obligation.builder.inj (List.cons.inj hstack').1
  exact (Expr.readable_new _).2 (ho' (hg.object ho))

theorem builds_change {r : Replacement} (hr : r.Readable)
    (h : Ends (Proof.change ctx location r) c () c') : c.Builds c' := by
  cases r with
  | fields s fs =>
    unfold Proof.change at h
    obtain ⟨⟨⟩, c₁, hscope, h⟩ := ends_bind h
    obtain ⟨_, _, hget, h⟩ := ends_bind h
    obtain ⟨rfl, rfl⟩ := ends_get hget
    obtain ⟨⟨⟩, c₂, hnaming, h⟩ := ends_bind h
    obtain ⟨⟨span, o⟩, _, htarget, h⟩ := ends_bind h
    obtain ⟨rfl, f, rest, hstack, ho⟩ := ends_targetObject htarget
    have hfields : o.Readable → Object.Readable { o with fields := fs } :=
      fun ho => ⟨ho.className, hr, ho.methods⟩
    have hbuild := builds_target hstack ho hfields h
    exact ((builds_modifyScope hscope).trans (builds_naming hnaming)).trans hbuild
  | method m =>
    unfold Proof.change at h
    obtain ⟨_, _, hget, h⟩ := ends_bind h
    obtain ⟨rfl, rfl⟩ := ends_get hget
    obtain ⟨⟨⟩, c₂, hnaming, h⟩ := ends_bind h
    obtain ⟨⟨span, o⟩, _, htarget, h⟩ := ends_bind h
    obtain ⟨rfl, f, rest, hstack, ho⟩ := ends_targetObject htarget
    have hbuild := builds_target hstack ho (fun ho => Object.readable_withMethod ho hr) h
    exact (builds_naming hnaming).trans hbuild

theorem builds_declareMember {x : String} (h : Ends (Proof.declareMember location x) c () c') :
    c.Builds c' := by
  unfold Proof.declareMember at h
  obtain ⟨_, _, hget, h⟩ := ends_bind h
  obtain ⟨rfl, rfl⟩ := ends_get hget
  split at h
  · obtain ⟨_, _, hfail, -⟩ := ends_bind h
    exact (not_ends_fail hfail).elim
  · exact builds_modifyScope h

theorem builds_setTarget {target : Target} (htarget : target.Readable)
    (h : Ends (Proof.setTarget ctx location target) c () c') : c.Builds c' := by
  cases target with
  | expr e =>
    unfold Proof.setTarget at h
    obtain ⟨_, _, hget, h⟩ := ends_bind h
    obtain ⟨rfl, rfl⟩ := ends_get hget
    obtain ⟨⟨⟩, c₁, hnaming, h⟩ := ends_bind h
    exact (builds_naming hnaming).trans
      (builds_modifyBuilder h fun g rest _ _ => ⟨e, rfl, htarget⟩)
  | changed changes =>
    unfold Proof.setTarget at h
    obtain ⟨f, _, hbuilder, h⟩ := ends_bind h
    obtain ⟨rfl, rest, hstack⟩ := ends_builder hbuilder
    split at h
    · exact (not_ends_fail h).elim
    · rename_i o ho
      obtain ⟨⟨⟩, c₁, hpush, h⟩ := ends_bind h
      obtain ⟨⟨⟩, c₂, hdeclare, h⟩ := ends_bind h
      obtain ⟨⟨⟩, c₃, hchange, h⟩ := ends_bind h
      have hmembers := builds_forM (fun x _ c c' => builds_declareMember) hdeclare
      have hchanges := builds_forM (fun r hr c c' => builds_change (htarget r hr)) hchange
      exact (((builds_modifyScope hpush).trans hmembers).trans hchanges).trans
        (builds_modifyScope h)

/-! ## Subgoals -/

/-- The goal of a subgoal is above the goal that it is for. -/
theorem ends_openSubgoal {bound : Bound} {target : Target} (htarget : target.Readable)
    (h : Ends (Proof.openSubgoal ctx location bound target) c () c') :
    c'.facts = c.facts ∧ c'.functions = c.functions ∧ c'.answers = c.answers ∧
      ∀ g rest, c.obligations.stack = .goal g :: rest → g.Readable →
        ∃ right, right.Readable ∧ c'.obligations.stack =
          .goal (.ofFact ⟨g.left, right, g.fact.vars, bound⟩) :: .goal g :: rest := by
  unfold Proof.openSubgoal at h
  obtain ⟨g, _, hgoal, h⟩ := ends_bind h
  obtain ⟨rfl, rest, hstack⟩ := ends_goal hgoal
  obtain ⟨⟨⟩, _, hpush, h⟩ := ends_bind h
  obtain rfl := ends_modify hpush
  obtain ⟨⟨⟩, c₂, hset, h⟩ := ends_bind h
  have hbuilds := builds_setTarget htarget hset
  obtain ⟨f, rest₂, hstack₂, rfl⟩ := ends_finishBuilder h
  refine ⟨hbuilds.facts, hbuilds.functions, hbuilds.answers, fun g' rest' hstack' hg => ?_⟩
  obtain ⟨rfl, rfl⟩ := stack_inj hstack hstack'
  obtain ⟨right, hstack₁, hright⟩ := hbuilds.builder ⟨g.left, g.left, g.fact.vars, bound⟩
    (.goal g :: rest) (by simp [Obligations.push, hstack]) hg.left
  rw [hstack₁] at hstack₂
  obtain ⟨hf, rfl⟩ := List.cons.inj hstack₂
  obtain rfl := Obligation.builder.inj hf
  exact ⟨right, hright, rfl⟩

/-- A goal that is closed has equal sides, and its cost is said to be within the bound. -/
theorem ends_close (hback : ctx.backend.Reveals question)
    (h : Ends (Proof.close ctx location) c () c') :
    ∃ g rest a, c.obligations.stack = .goal g :: rest ∧ D.dist g.left g.right = 0 ∧
      question a = .within g.distance g.fact.distance ∧
      c' = { c with answers := c.answers ++ [a] } := by
  unfold Proof.close at h
  obtain ⟨g, _, hgoal, h⟩ := ends_bind h
  obtain ⟨rfl, rest, hstack⟩ := ends_goal hgoal
  obtain ⟨⟨⟩, _, hequal, h⟩ := ends_bind h
  obtain ⟨rfl, hzero⟩ := ends_checkEqual (D := D) hequal
  obtain ⟨env, a, ha, rfl⟩ := ends_askIn h
  exact ⟨g, rest, a, hstack, hzero, hback env _ a ha, rfl⟩

/-- **A closed goal is proved**: if the answers are right, the sides of its fact are no further apart
    than its bound says. -/
theorem Checker.Advances.proves (hback : ctx.backend.Reveals question)
    (h : c.Advances v D question c₁) (hclose : Ends (Proof.close ctx location) c₁ () c')
    {f : Fact} {rest : List Obligation}
    (hstack : c.obligations.stack = .goal (.ofFact f) :: rest) (hf : f.Readable) :
    ∃ g new, c'.obligations.stack = .goal g :: rest ∧ g.fact = f ∧
      c'.answers = c.answers ++ new ∧
      ((∀ a ∈ new, (question a).Holds v D) → D.dist f.left f.right ≤ v.value f.distance) := by
  obtain ⟨g, new, hstack₁, hfact, -, hanswers, hgap⟩ := h.goal _ rest hstack ⟨hf.left, hf.right⟩
  obtain ⟨g', rest', a, hstack', hzero, hquestion, rfl⟩ := ends_close (D := D) hback hclose
  obtain ⟨rfl, rfl⟩ := stack_inj hstack₁ hstack'
  obtain rfl : g.fact = f := hfact
  refine ⟨g, new ++ [a], hstack₁, rfl, by simp [hanswers], fun hnew => ?_⟩
  rw [List.forall_mem_append] at hnew
  have hgap := hgap hnew.1
  have hwithin : v.value g.distance ≤ v.value g.fact.distance := by
    have hholds := hnew.2 a (.head _)
    rwa [hquestion] at hholds
  have hwithin : (v.value g.distance : ℝ) ≤ v.value g.fact.distance := by exact_mod_cast hwithin
  simp only [Goal.gap, Goal.ofFact, Valuation.value_zero, Rat.cast_zero, hzero] at hgap
  linarith

theorem advances_subgoal (hback : ctx.backend.Reveals question) {c₂ c₃ : Checker α}
    {closing : Location} {bound : Bound} {target : Target} (htarget : target.Readable)
    (hopen : Ends (Proof.openSubgoal ctx location bound target) c () c₁)
    (hproof : c₁.Advances v D question c₂) (hclose : Ends (Proof.close ctx closing) c₂ () c₃)
    (hend : Ends (Proof.closeSubgoal location bound) c₃ () c') :
    c.Advances v D question c' := by
  obtain ⟨hfacts, hfunctions, hanswers, hgoal⟩ := ends_openSubgoal htarget hopen
  obtain ⟨_, _, a, -, -, -, hc₃⟩ := ends_close (D := D) hback hclose
  unfold Proof.closeSubgoal at hend
  obtain ⟨child, _, hpop, hend⟩ := ends_bind hend
  obtain ⟨rest₃, hstack₃, rfl⟩ := ends_popGoal hpop
  obtain ⟨g', rest', hstack', rfl⟩ := ends_modifyGoal hend
  refine ⟨?_, ?_, fun g rest hstack hg => ?_⟩
  · rw [← hfacts, ← hproof.facts, hc₃]
  · rw [← hfunctions, ← hproof.functions, hc₃]
  · obtain ⟨right, hright, hstack₁⟩ := hgoal g rest hstack hg
    obtain ⟨g₃, new, hstack, hfact, hnew, hdist⟩ :=
      hproof.proves hback hclose hstack₁ ⟨hg.left, hright⟩
    obtain ⟨rfl, rfl⟩ := stack_inj hstack hstack₃
    obtain ⟨rfl, rfl⟩ := stack_inj hstack' rfl
    refine ⟨_, new, rfl, rfl, ⟨by rw [hfact]; exact hright, hg.right⟩, ?_, fun hholds => ?_⟩
    · rw [← hanswers]
      exact hnew
    · have hdist := hdist hholds
      have htriangle := D.triangle g'.left right g'.right
      simp only [Goal.gap, Goal.charge, v.value_add, Rat.cast_add, hfact]
      simp only at hdist
      linarith

/-! ## Runs -/

theorem Tactic.Visits.cons {t t' : Tactic} (ts : List Tactic) (h : Visits ctx [t] c t' c') :
    Visits ctx (t :: ts) c t' c' := by
  cases h with
  | head => exact .head
  | tail _ h => cases h
  | inside hopen h => exact .inside hopen h

mutual

/-- **Every step advances.** -/
theorem Tactic.advances_run (hback : ctx.backend.Reveals question) :
    ∀ (t : Tactic) (c c' : Checker α), t.Plain → t.Readable → c.Sound v D →
      (∀ span names c₁, Visits ctx [t] c (.inline span names) c₁ → c₁.InlinesWell D names) →
      Ends (t.run ctx) c () c' → c.Advances v D question c'
  | .subgoal span bound target proof, c, c', hplain, hread, hc, hinline, h => by
    rw [run] at h
    obtain ⟨⟨⟩, c₁, hopen, h⟩ := ends_bind h
    obtain ⟨⟨⟩, c₂, hproof, h⟩ := ends_bind h
    obtain ⟨⟨⟩, c₃, hclose, hend⟩ := ends_bind h
    obtain ⟨hfacts, hfunctions, -, -⟩ := ends_openSubgoal hread.1 hopen
    have hproof := advances_runAll hback proof c₁ c₂ hplain hread.2
      (hc.of_eq hfacts hfunctions)
      (fun span names c' hvisits => hinline span names c' (.inside hopen hvisits)) hproof
    exact advances_subgoal hback hread.1 hopen hproof hclose hend
  | .symmetry span, c, c', _, _, _, _, h => by
    rw [run] at h
    exact advances_symmetry h
  | .giveUp span, c, c', hplain, _, _, _, _ => hplain.elim
  | .trivial span, c, c', _, _, _, _, h => advances_trivial h
  | .auto span, c, c', _, _, _, _, h => by
    rw [run] at h
    exact advances_auto hback h
  | .bisim span clauses, c, c', _, _, _, _, h => by
    rw [run] at h
    exact advances_bisim hback h
  | .rewrite span fact, c, c', _, _, hc, _, h => by
    rw [run] at h
    exact advances_rewriteWith hc h
  | .hybrid span fact start stop, c, c', hplain, _, _, _, _ => hplain.elim
  | .unfold span names, c, c', _, _, hc, _, h => by
    rw [run] at h
    exact advances_unfold hback hc h
  | .inline span names, c, c', _, hread, _, hinline, h => by
    rw [run] at h
    exact advances_inline hread (hinline span names c .head) h

/-- **Every proof advances.** -/
theorem Tactic.advances_runAll (hback : ctx.backend.Reveals question) :
    ∀ (ts : List Tactic) (c c' : Checker α), Tactic.PlainAll ts → Tactic.ReadableAll ts →
      c.Sound v D →
      (∀ span names c₁, Visits ctx ts c (.inline span names) c₁ → c₁.InlinesWell D names) →
      Ends (runAll ctx ts) c () c' → c.Advances v D question c'
  | [], c, c', _, _, _, _, h => by
    rw [runAll] at h
    obtain ⟨-, rfl⟩ := ends_pure h
    exact .refl c
  | t :: ts, c, c', hplain, hread, hc, hinline, h => by
    rw [runAll] at h
    obtain ⟨⟨⟩, c₁, ht, h⟩ := ends_bind h
    have hadvance := advances_run hback t c c₁ hplain.1 hread.1 hc
      (fun span names c' hvisits => hinline span names c' (hvisits.cons ts)) ht
    exact hadvance.trans (advances_runAll hback ts c₁ c' hplain.2 hread.2
      (hadvance.sound hc)
      (fun span names c' hvisits => hinline span names c' (.tail ht hvisits)) h)

end

/-! ## Theorems -/

/-- Whether the sides of a theorem and its proof are readable. -/
structure Theorem.Readable (t : Theorem) : Prop where
  left : t.statement.left.Readable
  right : t.statement.right.Readable
  proof : Tactic.ReadableAll t.proof

/-- If the theorem is checked in the state `c`, a step of its proof is applied in the state `c'`. -/
def Theorem.Visits (ctx : ProofContext α) (t : Theorem) (c : Checker α) (step : Tactic)
    (c' : Checker α) : Prop :=
  ∃ f c₁ c₂, Ends (Checker.checkStatement ctx.file t.statement) c f c₁ ∧
    Ends (pushObligation (.goal (.ofFact f))) c₁ () c₂ ∧ Tactic.Visits ctx t.proof c₂ step c'

/-- The names of a statement, first those of its parameters and then those of its sides. -/
theorem ends_checkStatement {file : SourceFile} {s : Statement} {f : Fact}
    (h : Ends (Checker.checkStatement file s) c f c') :
    f = ⟨s.left, s.right, s.params.map (·.name.name), s.bound.getD .zero⟩ ∧ ∃ n₁ n₂,
      (NamingM.declareParams .value s.params).run.run ⟨c.scope.push .logical, c.classes⟩ =
        (.ok (), n₁) ∧
      (do NamingM.inFrame .variables (s.left.check c.functions)
          NamingM.inFrame .variables (s.right.check c.functions) : NamingM Unit).run.run n₁ =
        (.ok (), n₂) ∧
      c' = { c with scope := n₂.scope, classes := n₂.classes } := by
  unfold Checker.checkStatement at h
  obtain ⟨⟨⟩, _, hnaming, h⟩ := ends_bind h
  obtain ⟨n₁, hparams, rfl⟩ := ends_naming hnaming
  obtain ⟨_, _, hget, h⟩ := ends_bind h
  obtain ⟨rfl, rfl⟩ := ends_get hget
  obtain ⟨-, h⟩ := ends_guard h
  obtain ⟨_, _, hget, h⟩ := ends_bind h
  obtain ⟨rfl, rfl⟩ := ends_get hget
  obtain ⟨⟨⟩, _, hnaming, h⟩ := ends_bind h
  obtain ⟨n₂, hsides, rfl⟩ := ends_naming hnaming
  obtain ⟨rfl, rfl⟩ := ends_pure h
  exact ⟨rfl, n₁, n₂, hparams, hsides, rfl⟩

/-- Up to the end of the proof, the check of a theorem adds answers only. -/
theorem ends_prove (hback : ctx.backend.Reveals question) {t : Theorem} (ht : t.Readable)
    (hplain : Tactic.PlainAll t.proof) (hc : c.Sound v D)
    (hinline : ∀ span names c₁, t.Visits ctx c (.inline span names) c₁ → c₁.InlinesWell D names)
    (h : Ends (Checker.prove ctx t) c () c') :
    ∃ new, c'.answers = c.answers ++ new ∧ ((∀ a ∈ new, (question a).Holds v D) →
      D.dist t.statement.left t.statement.right ≤ v.value (t.statement.bound.getD .zero)) := by
  unfold Checker.prove at h
  obtain ⟨f, c₁, hstatement, h⟩ := ends_bind h
  obtain ⟨⟨⟩, c₂, hpush, h⟩ := ends_bind h
  obtain ⟨⟨⟩, c₃, hproof, h⟩ := ends_bind h
  obtain ⟨⟨⟩, c₄, hclose, hrest⟩ := ends_bind h
  have hvisits : ∀ span names c', Tactic.Visits ctx t.proof c₂ (.inline span names) c' →
      c'.InlinesWell D names := fun span names c' hvisits =>
    hinline span names c' ⟨f, c₁, c₂, hstatement, hpush, hvisits⟩
  obtain ⟨hf, _, n, -, -, rfl⟩ := ends_checkStatement hstatement
  have hc₂ := ends_modify hpush
  have hadvance := Tactic.advances_runAll hback t.proof c₂ c₃ hplain ht.proof
    (hc.of_eq (by rw [hc₂]) (by rw [hc₂])) hvisits hproof
  have hstack : c₂.obligations.stack = .goal (.ofFact f) :: c.obligations.stack := by rw [hc₂]; rfl
  have hread : f.Readable := hf ▸ ⟨ht.left, ht.right⟩
  obtain ⟨g, new, -, -, hanswers, hdist⟩ := hadvance.proves hback hclose hstack hread
  rw [hc₂] at hanswers
  rw [hf] at hdist
  -- nothing is asked after the proof is closed
  obtain ⟨g', _, hpop, hrest⟩ := ends_bind hrest
  obtain ⟨rest, -, rfl⟩ := ends_popGoal hpop
  obtain ⟨_, _, hget, hrest⟩ := ends_bind hrest
  obtain ⟨rfl, rfl⟩ := ends_get hget
  obtain ⟨_, _, hlocated, hrest⟩ := ends_bind hrest
  obtain ⟨-, rfl⟩ := ends_located hlocated
  obtain ⟨⟨⟩, _, hscope, hrest⟩ := ends_bind hrest
  obtain rfl := ends_modifyScope hscope
  obtain rfl := ends_modify hrest
  exact ⟨new, hanswers, hdist⟩

theorem ends_checkTheorem {t : Theorem} (h : Ends (Checker.checkTheorem ctx t) c () c') :
    Ends (Checker.prove ctx t) c () c' := by
  unfold Checker.checkTheorem at h
  obtain ⟨_, _, hget, h⟩ := ends_bind h
  obtain ⟨rfl, rfl⟩ := ends_get hget
  refine ends_tryCatch (fun e c₁ c₂ hfail => ?_) h
  obtain ⟨_, _, -, hfail⟩ := ends_bind hfail
  exact not_ends_throw hfail

/-- **Proofs are sound.** Let bounds have any values, and programs any distances that ignore what the
    equality of programs ignores. If the facts that may be used are valid, the back end is right about
    all that it is asked, there is no `admit` and no `hybrid` in the proof and inlining leaves the
    goals at distance zero, the sides of a theorem that is accepted are no further apart than its
    bound says. -/
theorem Checker.checkTheorem_sound (v : Valuation) (D : Distance) {question : α → Question}
    {ctx : ProofContext α} (hback : ctx.backend.Reveals question) {t : Theorem} {c c' : Checker α}
    (h : Ends (Checker.checkTheorem ctx t) c () c') (hc : c.Sound v D)
    (hasked : ∀ a ∈ c'.answers.drop c.answers.length, (question a).Holds v D)
    (hplain : Tactic.PlainAll t.proof)
    (hinline : ∀ span names c₁, t.Visits ctx c (.inline span names) c₁ → c₁.InlinesWell D names)
    (ht : t.Readable) :
    D.dist t.statement.left t.statement.right ≤ v.value (t.statement.bound.getD .zero) := by
  obtain ⟨new, hanswers, hdist⟩ := ends_prove hback ht hplain hc hinline (ends_checkTheorem h)
  rw [hanswers, List.drop_left] at hasked
  exact hdist hasked

end

/-- Programs are at distance one unless they are structurally equal. -/
noncomputable def Distance.discrete : Distance where
  dist a b := if a.structurallyEqual b then 0 else 1
  symm a b := by
    rw [Expr.structurallyEqual, Expr.structurallyEqual, BEq.comm]
  triangle a b c := by
    simp only [Expr.structurallyEqual, beq_iff_eq]
    split_ifs <;> simp_all
  eq_zero a b h := by simp [h]

/-- From `F(x): f(x) ~[1] g(x)` the theorem `f(3) ~[1] g(3)` is proved by `rewrite F;`. -/
theorem Checker.checkTheorem_sound_rewrite :
    let call (f : String) (e : Expr) : Expr := .call .nowhere (.plain f) [e]
    let declare (f : String) : Function :=
      ⟨.nowhere, .plain f, false, false, [⟨.nowhere, .plain "x", none⟩], none, none⟩
    let one : Bound := .int .nowhere 1
    let three : Expr := .int .nowhere 3
    let ctx : ProofContext (Location × Question) := ⟨⟨"", ""⟩, .record⟩
    let c : Checker (Location × Question) :=
      { Checker.start with
        functions := ⟨[declare "f", declare "g"]⟩
        facts := [("F", ⟨call "f" (.var "x"), call "g" (.var "x"), ["x"], one⟩)] }
    let t : Theorem :=
      ⟨.nowhere, ⟨.nowhere, .plain "T", [], call "f" three, some one, call "g" three⟩,
        [.rewrite .nowhere (.plain "F")]⟩
    let v : Valuation := ⟨fun _ => 0, fun _ _ => 0, fun _ _ => 0, fun _ => 0⟩
    (∃ c', Ends (Checker.checkTheorem ctx t) c () c') ∧
      Distance.discrete.dist (call "f" three) (call "g" three) ≤ v.value one := by
  intro call declare one three ctx c t v
  let c' := ((Checker.checkTheorem ctx t).run.run c).2
  have hok : ((Checker.checkTheorem ctx t).run.run c).1 = .ok () := by cbv
  have hends : Ends (Checker.checkTheorem ctx t) c () c' := Prod.ext hok rfl
  have hanswers : (((Checker.checkTheorem ctx t).run.run c).2.answers.drop c.answers.length).map
      Prod.snd = [.within one one] := by cbv
  have hcall : ∀ f, Lexer.isName f = true → ∀ e, e.Readable → (call f e).Readable := fun f hf e he =>
    (Expr.readable_call _ _).2 ⟨hf, by simpa using he⟩
  have hx : (Expr.var "x").Readable := (Expr.readable_lookup _).2 rfl
  have hc : c.Sound v Distance.discrete := by
    refine ⟨?_, ?_, ?_⟩
    · simp only [c, List.forall_mem_singleton]
      rintro s program path left right context d - - - - ⟨⟩
      have hone : v.value (if path = [] then one else one.inContext context) = 1 := by
        split_ifs <;> simp [one, Bound.inContext, Valuation.value]
      rw [hone]
      simp only [Distance.discrete]
      split_ifs <;> simp
    · simp only [c, List.forall_mem_singleton]
      exact ⟨hcall "f" rfl _ hx, hcall "g" rfl _ hx⟩
    · simp [c, declare, Functions.Readable, Function.Readable]
  refine ⟨⟨c', hends⟩, ?_⟩
  refine Checker.checkTheorem_sound v Distance.discrete Backend.reveals_record hends hc ?_ ?_ ?_ ?_
  · intro a ha
    have ha := List.mem_map_of_mem (f := Prod.snd) ha
    rw [hanswers, List.mem_singleton] at ha
    rw [ha]
    exact le_rfl
  · exact ⟨trivial, trivial⟩
  · rintro span names c₁ ⟨f, c₂, c₃, -, -, hvisits⟩
    cases hvisits with
    | tail _ hvisits => cases hvisits
  · exact ⟨hcall "f" rfl _ (Expr.readable_int _), hcall "g" rfl _ (Expr.readable_int _),
      trivial, trivial⟩

end GameHop
