import GameHop.Proofs.Check.Declarations
import GameHop.Proofs.Check.Objections

/-!
What a proof does to the state of a check, whether it ends well or not. It works on goals and frames
that lie above those that were there before it, and touches neither these nor the theory
(`Ambient.Works`).
-/

namespace GameHop

variable {α β γ : Type}

/-! ## Shapes of stacks -/

namespace Obligation

/-- Whether obligations are `n` goals. -/
def Goals (n : Nat) (stack : List Obligation) : Prop :=
  ∃ gs : List Goal, gs.length = n ∧ stack = gs.map .goal

/-- Whether obligations are `n` goals below one whose right side is being put together. -/
def Building (n : Nat) (stack : List Obligation) : Prop :=
  ∃ f rest, stack = .builder f :: rest ∧ Goals n rest

variable {n : Nat} {stack : List Obligation}

theorem goals_zero : Goals 0 stack ↔ stack = [] := by
  constructor
  · rintro ⟨gs, hgs, rfl⟩
    rw [List.eq_nil_of_length_eq_zero hgs]
    rfl
  · rintro rfl
    exact ⟨[], rfl, rfl⟩

theorem Goals.cons (h : Goals n stack) (g : Goal) : Goals (n + 1) (.goal g :: stack) := by
  obtain ⟨gs, hgs, rfl⟩ := h
  exact ⟨g :: gs, by rw [List.length_cons, hgs], rfl⟩

theorem Goals.exists_cons (h : Goals (n + 1) stack) :
    ∃ g rest, stack = .goal g :: rest ∧ Goals n rest := by
  obtain ⟨gs, hgs, rfl⟩ := h
  obtain ⟨g, gs, rfl⟩ := List.exists_cons_of_length_eq_add_one hgs
  exact ⟨g, gs.map .goal, rfl, gs, by simpa using hgs, rfl⟩

end Obligation

open Obligation CheckM

/-! ## Places -/

/-- Whether the names of an expression stand in given places. -/
abbrev Expr.Placed (spans : Set Span) (e : Expr) : Prop :=
  e.Admitted ⟨Set.univ, spans⟩

def Replacement.Placed (spans : Set Span) : Replacement → Prop
  | .fields _ fs => ∀ f ∈ fs, f.name.span ∈ spans ∧ f.value.Placed spans
  | .method m => (∀ p ∈ m.params, p.name.span ∈ spans) ∧ m.body.Placed spans

def Target.Placed (spans : Set Span) : Target → Prop
  | .expr e => e.Placed spans
  | .changed changes => ∀ r ∈ changes, r.Placed spans

mutual

/-- Whether a step and the names in it stand in given places, and the ends of its blocks too. -/
def Tactic.Placed (spans : Set Span) : Tactic → Prop
  | .subgoal span _ target proof =>
    span ∈ spans ∧ span.closing ∈ spans ∧ target.Placed spans ∧ Tactic.AllPlaced spans proof
  | .rewrite span x | .hybrid span x _ _ => span ∈ spans ∧ x.span ∈ spans
  | .symmetry span | .giveUp span | .trivial span | .auto span | .bisim span _ | .unfold span _
  | .inline span _ => span ∈ spans

def Tactic.AllPlaced (spans : Set Span) : List Tactic → Prop
  | [] => True
  | t :: ts => t.Placed spans ∧ Tactic.AllPlaced spans ts

end

structure Theorem.Placed (spans : Set Span) (t : Theorem) : Prop where
  statement : t.statement.Admitted ⟨Set.univ, spans⟩
  proof : Tactic.AllPlaced spans t.proof
  closing : t.span.closing ∈ spans

def Item.Placed (spans : Set Span) : Item → Prop
  | .proved t => t.Placed spans
  | i => i.Admitted ⟨Set.univ, spans⟩

theorem Target.placed_univ (t : Target) : t.Placed Set.univ := by
  cases t with
  | expr e => exact e.admitted_all
  | changed changes =>
    intro r _
    cases r with
    | fields _ fields => exact fun f _ => ⟨trivial, f.value.admitted_all⟩
    | method m => exact ⟨fun _ _ => trivial, m.body.admitted_all⟩

mutual

theorem Tactic.placed_univ (t : Tactic) : t.Placed Set.univ := by
  cases t <;> simp [Placed, Target.placed_univ, allPlaced_univ]

theorem Tactic.allPlaced_univ (ts : List Tactic) : AllPlaced Set.univ ts := by
  cases ts <;> simp [AllPlaced, placed_univ, allPlaced_univ]

end

theorem Item.placed_univ (i : Item) : i.Placed Set.univ := by
  cases i with
  | imported | constant => trivial
  | function f =>
    exact ⟨trivial, fun _ _ => ⟨trivial, trivial⟩, fun e _ => e.admitted_all⟩
  | postulate p => exact fun _ _ => ⟨trivial, trivial⟩
  | proved t => exact ⟨t.statement.admitted_all, Tactic.allPlaced_univ _, trivial⟩
  | assumed s => exact s.admitted_all

/-! ## States above others -/

/-- What a proof starts from. -/
structure Ambient (α : Type) where
  ctx : ProofContext α
  /-- The places in the source where errors may be, and questions may be asked. -/
  spans : Set Span
  /-- The frames and the obligations of this state lie below those of the proof. -/
  before : Checker α
  /-- The names that the lowest frame of the proof declares. -/
  declared : Set String

namespace Ambient

variable (A : Ambient α)

def Place (location : Location) : Prop :=
  ∃ s ∈ A.spans, location = A.ctx.file.locate s

/-- Whether an error comes from the back end, or stands in its place and does not concern obligations,
    unless there were some before the proof. -/
def Allows (e : CheckError) : Prop :=
  (∃ env q, A.Place env.location ∧ A.ctx.backend env q = .error e) ∨
    (∀ location f, e = .located location f → A.Place location) ∧
      (e.concernsGoals = true → A.before.obligations.stack ≠ [])

/-- Whether there are frames like `F` and obligations like `S` above those before the proof, and all else
    but the classes is as before. -/
structure Stands (F : List ScopeFrame → Prop) (S : List Obligation → Prop) (c : Checker α) : Prop where
  frames : ∃ top, c.scope.frames = top ++ A.before.scope.frames ∧ F top
  stack : ∃ top, c.obligations.stack = top ++ A.before.obligations.stack ∧ S top
  answers : ∃ new, c.answers = A.before.answers ++ new ∧
    ∀ a ∈ new, ∃ env q, A.Place env.location ∧ A.ctx.backend env q = .ok a
  theory : c.theory = A.before.theory
  imported : c.imported = A.before.imported

/-- Whether a failure leaves all that was there before, and its error is allowed. -/
def Fails (e : CheckError) (c : Checker α) : Prop :=
  A.Allows e ∧ A.Stands (fun _ => True) (fun _ => True) c

/-- Whether a step leads from frames like `F` and obligations like `S` to frames like `F'` and obligations
    like `S'`. -/
def Works (F : List ScopeFrame → Prop) (S : List Obligation → Prop) (F' : List ScopeFrame → Prop)
    (S' : List Obligation → Prop) (x : CheckM α β) : Prop :=
  Leads (A.Stands F S) x (fun _ => A.Stands F' S') A.Fails

/-- Whether frames are `k` above one that declares what the lowest frame has to declare. -/
def Above : Nat → List ScopeFrame → Prop
  | 0, top => ∃ f, top = [f] ∧ A.declared ⊆ f.declared
  | k + 1, top => ∃ f rest, top = f :: rest ∧ Above k rest

/-- No frames. -/
def Closed (top : List ScopeFrame) : Prop :=
  top = []

variable {A} {F F' F'' : List ScopeFrame → Prop} {S S' S'' : List Obligation → Prop} {x : CheckM α β}
  {k n : Nat} {location : Location}

theorem Above.grow {top : List ScopeFrame} (h : A.Above k top) : ∃ f rest, top = f :: rest ∧
    ∀ f', f.declared ⊆ f'.declared → A.Above k (f' :: rest) := by
  cases k with
  | zero =>
    obtain ⟨f, rfl, hf⟩ := h
    exact ⟨f, [], rfl, fun f' hf' => ⟨f', rfl, hf.trans hf'⟩⟩
  | succ k =>
    obtain ⟨f, rest, rfl, hrest⟩ := h
    exact ⟨f, rest, rfl, fun f' _ => ⟨f', rest, rfl, hrest⟩⟩

theorem Stands.mono {c : Checker α} (h : A.Stands F S c) (hF : ∀ top, F top → F' top)
    (hS : ∀ top, S top → S' top) : A.Stands F' S' c :=
  { h with
    frames := h.frames.imp fun _ h => ⟨h.1, hF _ h.2⟩
    stack := h.stack.imp fun _ h => ⟨h.1, hS _ h.2⟩ }

theorem Stands.any {c : Checker α} (h : A.Stands F S c) : A.Stands (fun _ => True) (fun _ => True) c :=
  h.mono (fun _ _ => trivial) fun _ _ => trivial

/-- Names and classes may change, as far as the frames of before stay. -/
theorem Stands.renamed {c c' : Checker α} (h : A.Stands F S c) (hc : c.Renamed c')
    (hframes : ∃ top, c'.scope.frames = top ++ A.before.scope.frames ∧ F' top) : A.Stands F' S c' where
  frames := hframes
  stack := hc.obligations ▸ h.stack
  answers := hc.answers ▸ h.answers
  theory := hc.theory.trans h.theory
  imported := hc.imported.trans h.imported

theorem stands_before (hF : F []) (hS : S []) : A.Stands F S A.before :=
  ⟨⟨[], rfl, hF⟩, ⟨[], rfl, hS⟩, ⟨[], (List.append_nil _).symm, List.forall_mem_nil _⟩, rfl, rfl⟩

theorem allows_located (hl : A.Place location) {f : Fault} (hf : f.concernsGoals = false) :
    A.Allows (.located location f) := by
  refine .inr ⟨?_, fun h => ?_⟩
  · rintro _ _ ⟨⟩
    exact hl
  · rw [CheckError.concernsGoals, hf] at h
    cases h

/-- Without obligations before the proof, an error that concerns obligations comes from the back end. -/
theorem Allows.of_concernsGoals {e : CheckError} (h : A.Allows e)
    (hstack : A.before.obligations.stack = []) (he : e.concernsGoals = true) :
    ∃ env q, A.ctx.backend env q = .error e := by
  rcases h with ⟨env, q, -, h⟩ | ⟨-, h⟩
  · exact ⟨env, q, h⟩
  · exact (h he hstack).elim

/-! ## Steps -/

theorem Works.bind {f : β → CheckM α γ} (hx : A.Works F S F' S' x)
    (hf : ∀ b, A.Works F' S' F'' S'' (f b)) : A.Works F S F'' S'' (x >>= f) :=
  Leads.bind hx hf

theorem works_pure (b : β) : A.Works F S F S (pure b) := fun _ hc => hc

theorem works_get : A.Works F S F S get := fun _ hc => hc

theorem works_fail (hl : A.Place location) {f : Fault} (hf : f.concernsGoals = false) :
    A.Works F S F' S' (fail location f : CheckM α β) :=
  fun _ hc => ⟨allows_located hl hf, hc.any⟩

theorem works_guard {p : Prop} [Decidable p] (hl : A.Place location) {fault : Fault}
    (hfault : fault.concernsGoals = false) {rest : Unit → CheckM α β} (h : A.Works F S F' S' (rest ())) :
    A.Works F S F' S' (if p then fail location fault >>= rest else rest ()) :=
  leads_guard (fun _ hc => ⟨allows_located hl hfault, hc.any⟩) h

theorem works_forM {bs : List γ} {f : γ → CheckM α Unit} (h : ∀ b ∈ bs, A.Works F S F S (f b)) :
    A.Works F S F S (bs.forM f) :=
  Leads.forM h

theorem works_located (hl : A.Place location) {r : Except Fault β}
    (hr : ∀ f, r = .error f → f.concernsGoals = false) : A.Works F S F S (located location r) := by
  cases r with
  | ok b => exact works_pure b
  | error f => exact works_fail hl (hr f rfl)

theorem works_internal (r : Except InternalFault β) : A.Works F S F S (internal r) := by
  cases r with
  | ok b => exact works_pure b
  | error f => exact fun _ hc => ⟨.inr ⟨by rintro _ _ ⟨⟩, by rintro ⟨⟩⟩, hc.any⟩

/-- A question that the back end does not answer fails with the error of the back end. -/
theorem works_askIn (hl : A.Place location) (f : Environment → Environment)
    (hf : ∀ env, (f env).location = env.location) (q : Question) :
    A.Works F S F S (askIn A.ctx.backend location f q) := by
  refine works_get.bind fun c₀ => ?_
  have hplace : A.Place (f (c₀.environment location)).location := by rwa [hf]
  cases hq : A.ctx.backend (f (c₀.environment location)) q with
  | ok a =>
    intro c hc
    obtain ⟨new, hnew, hasked⟩ := hc.answers
    refine { hc with answers := ⟨new ++ [a], by simp [hnew], ?_⟩ }
    rw [List.forall_mem_append, List.forall_mem_singleton]
    exact ⟨hasked, _, q, hplace, hq⟩
  | error e => exact fun _ hc => ⟨.inl ⟨_, q, hplace, hq⟩, hc.any⟩

/-! ### Frames -/

theorem works_modifyScope {g : Scope → Scope}
    (h : ∀ top base, F top → ∃ top', (g ⟨top ++ base⟩).frames = top' ++ base ∧ F' top') :
    A.Works F S F' S (modifyScope g) := by
  intro c hc
  obtain ⟨top, hframes, htop⟩ := hc.frames
  refine { hc with frames := ?_ }
  show ∃ top', (g c.scope).frames = _ ∧ _
  rw [← show (⟨c.scope.frames⟩ : Scope) = c.scope from rfl, hframes]
  exact h top _ htop

theorem works_push (kind : FrameKind) :
    A.Works (A.Above k) S (A.Above (k + 1)) S (modifyScope (·.push kind)) :=
  works_modifyScope fun top _ htop => ⟨⟨kind, []⟩ :: top, rfl, _, _, rfl, htop⟩

theorem works_pop : A.Works (A.Above (k + 1)) S (A.Above k) S (modifyScope (·.pop)) :=
  works_modifyScope fun _ _ => by
    rintro ⟨f, rest, rfl, hrest⟩
    exact ⟨rest, rfl, hrest⟩

/-- The lowest frame is closed. -/
theorem works_close : A.Works (A.Above 0) S Closed S (modifyScope (·.pop)) :=
  works_modifyScope fun _ _ => by
    rintro ⟨f, rfl, -⟩
    exact ⟨[], rfl, rfl⟩

theorem works_naming {x : NamingM Unit} (hx : x.Spills ⟨Set.univ, A.spans⟩) :
    A.Works (A.Above k) S (A.Above k) S (naming A.ctx.file x) := by
  intro c hc
  obtain ⟨top, hframes, htop⟩ := hc.frames
  obtain ⟨f, rest, rfl, hgrow⟩ := htop.grow
  have hrun := hx f (rest ++ A.before.scope.frames) ⟨c.scope, c.classes⟩ (Allowance.grown_self _ hframes)
  rw [run_naming]
  cases hx : x.run.run ⟨c.scope, c.classes⟩ with
  | mk r n =>
    rw [hx] at hrun
    cases r with
    | ok u =>
      obtain ⟨f', hframes', hf', -⟩ := hrun
      exact { hc with frames := ⟨f' :: rest, hframes', hgrow f' hf'⟩ }
    | error o =>
      obtain ⟨hobjects, f', opened, hframes', -, -⟩ := hrun
      refine ⟨allows_located ⟨o.span, hobjects.span, rfl⟩ hobjects.names, ?_⟩
      refine { hc.any with frames := ⟨opened ++ f' :: rest, ?_, trivial⟩ }
      rw [List.append_assoc]
      exact hframes'

/-! ### Obligations -/

theorem works_of_stack (h : ∀ c top base, c.obligations.stack = top ++ base → S top →
    ∃ b top', x.run.run c = (.ok b, { c with obligations := ⟨top' ++ base⟩ }) ∧ S' top') :
    A.Works F S F S' x := by
  intro c hc
  obtain ⟨top, hstack, htop⟩ := hc.stack
  obtain ⟨b, top', hrun, htop'⟩ := h c top _ hstack htop
  rw [hrun]
  exact { hc with stack := ⟨top', rfl, htop'⟩ }

theorem works_goal : A.Works F (Goals (n + 1)) F (Goals (n + 1)) (goal location) := by
  refine works_of_stack fun c top base hc htop => ?_
  obtain ⟨g, rest, rfl, -⟩ := htop.exists_cons
  obtain ⟨_, _, _, _, _, ⟨_⟩, _, _⟩ := c
  cases hc
  exact ⟨g, _, rfl, htop⟩

theorem works_modifyGoal (f : Goal → Goal) :
    A.Works F (Goals (n + 1)) F (Goals (n + 1)) (modifyGoal location f) := by
  refine works_of_stack fun c top base hc htop => ?_
  obtain ⟨g, rest, rfl, hrest⟩ := htop.exists_cons
  obtain ⟨_, _, _, _, _, ⟨_⟩, _, _⟩ := c
  cases hc
  exact ⟨(), .goal (f g) :: rest, rfl, hrest.cons _⟩

theorem works_settle : A.Works F (Goals (n + 1)) F (Goals (n + 1)) (settle location) :=
  works_modifyGoal _

theorem works_popGoal : A.Works F (Goals (n + 1)) F (Goals n) (popGoal location) := by
  refine works_of_stack fun c top base hc htop => ?_
  obtain ⟨g, rest, rfl, hrest⟩ := htop.exists_cons
  obtain ⟨_, _, _, _, _, ⟨_⟩, _, _⟩ := c
  cases hc
  exact ⟨g, rest, rfl, hrest⟩

theorem works_builder : A.Works F (Building n) F (Building n) (builder location) := by
  refine works_of_stack fun c top base hc htop => ?_
  obtain ⟨f, rest, rfl, hrest⟩ := htop
  obtain ⟨_, _, _, _, _, ⟨_⟩, _, _⟩ := c
  cases hc
  exact ⟨f, _ :: rest, rfl, f, rest, rfl, hrest⟩

theorem works_modifyBuilder (k : Fact → Fact) :
    A.Works F (Building n) F (Building n) (modifyBuilder location k) := by
  refine works_of_stack fun c top base hc htop => ?_
  obtain ⟨f, rest, rfl, hrest⟩ := htop
  obtain ⟨_, _, _, _, _, ⟨_⟩, _, _⟩ := c
  cases hc
  exact ⟨(), _ :: rest, rfl, k f, rest, rfl, hrest⟩

theorem works_finishBuilder : A.Works F (Building n) F (Goals (n + 1)) (finishBuilder location) := by
  refine works_of_stack fun c top base hc htop => ?_
  obtain ⟨f, rest, rfl, hrest⟩ := htop
  obtain ⟨_, _, _, _, _, ⟨_⟩, _, _⟩ := c
  cases hc
  exact ⟨(), .goal (.ofFact f) :: rest, rfl, hrest.cons _⟩

theorem works_pushObligation (o : Obligation) (h : ∀ top, S top → S' (o :: top)) :
    A.Works F S F S' (pushObligation o) := by
  refine works_of_stack fun c top base hc htop => ⟨(), o :: top, ?_, h top htop⟩
  rw [List.cons_append, ← hc]
  rfl

/-- Without obligations below, none are left. -/
theorem leads_ensureEmpty (hl : A.Place location) {rest : CheckM α β}
    {Q : β → Checker α → Prop} (h : Leads (A.Stands F (Goals 0)) (rest) Q A.Fails) :
    Leads (A.Stands F (Goals 0)) (do
      located location (← get).obligations.ensureEmpty
      rest) Q A.Fails := by
  intro c hc
  obtain ⟨top, hstack, htop⟩ := hc.stack
  obtain rfl := goals_zero.1 htop
  have hrun : (do
      located location (← get).obligations.ensureEmpty
      rest : CheckM α β).run.run c =
        (located location c.obligations.ensureEmpty >>= fun _ => rest).run.run c := rfl
  rw [hrun]
  cases hempty : c.obligations.stack.isEmpty with
  | true =>
    rw [Obligations.ensureEmpty, hempty]
    exact h c hc
  | false =>
    rw [Obligations.ensureEmpty, hempty]
    refine ⟨.inr ⟨?_, fun _ hnil => ?_⟩, hc.any⟩
    · rintro _ _ ⟨⟩
      exact hl
    · rw [hstack, hnil] at hempty
      cases hempty

end Ambient

open Ambient

/-! ## Proofs -/

section
variable {A : Ambient α} {F : List ScopeFrame → Prop} {S : List Obligation → Prop} {k n : Nat}
  {location : Location} (hl : A.Place location)
include hl

theorem Proof.works_checkEqual (left right : Expr) :
    A.Works F S F S (checkEqual location left right) := by
  unfold checkEqual
  split
  · exact works_pure ()
  · exact works_fail hl rfl

theorem Proof.works_close :
    A.Works F (Goals (n + 1)) F (Goals (n + 1)) (close A.ctx location) :=
  works_goal.bind fun _ => (works_checkEqual hl _ _).bind fun _ => works_askIn hl _ (fun _ => rfl) _

omit hl in
theorem Proof.works_factNamed {x : Ident} (hx : x.span ∈ A.spans) :
    A.Works F S F S (factNamed A.ctx x) := by
  refine works_get.bind fun c => ?_
  split
  · exact works_pure _
  · exact works_fail ⟨x.span, hx, rfl⟩ rfl

theorem Proof.works_auto :
    A.Works (A.Above k) (Goals (n + 1)) (A.Above k) (Goals (n + 1)) (auto A.ctx location) :=
  (works_push _).bind fun _ => works_goal.bind fun _ => (works_askIn hl _ (fun _ => rfl) _).bind fun _ =>
    works_settle.bind fun _ => works_pop

theorem Proof.works_bisimSide (e : Expr) : A.Works F S F S (bisimSide location e) := by
  unfold bisimSide
  split
  · exact works_pure _
  · exact works_fail hl rfl

theorem Proof.works_bisim (clauses : Option (List BisimClause)) :
    A.Works (A.Above k) (Goals (n + 1)) (A.Above k) (Goals (n + 1)) (bisim A.ctx location clauses) :=
  (works_push _).bind fun _ => works_goal.bind fun _ => (works_bisimSide hl _).bind fun _ =>
    (works_bisimSide hl _).bind fun _ => (works_askIn hl _ (fun _ => rfl) _).bind fun _ =>
      works_settle.bind fun _ => works_pop

omit hl in
theorem Proof.works_applyRule (rule : Rule) {place : Location} (hplace : A.Place place) {unused : Fault}
    (hunused : unused.concernsGoals = false) :
    A.Works F (Goals (n + 1)) F (Goals (n + 1)) (applyRule location rule place unused) :=
  works_goal.bind fun _ => (works_internal _).bind fun _ =>
    works_guard hplace hunused (works_modifyGoal _)

omit hl in
theorem Proof.works_rewriteWith {x : Ident} (hx : x.span ∈ A.spans) :
    A.Works F (Goals (n + 1)) F (Goals (n + 1)) (rewriteWith A.ctx location x) :=
  (works_factNamed hx).bind fun _ => works_applyRule _ ⟨x.span, hx, rfl⟩ rfl

theorem Proof.works_hybridVariable (f : Fact) : A.Works F S F S (hybridVariable location f) := by
  unfold hybridVariable
  split
  · split
    · exact works_fail hl rfl
    · refine works_guard hl rfl ?_
      split
      · exact works_fail hl rfl
      · exact works_guard hl rfl (works_guard hl rfl (works_pure _))
  · exact works_fail hl rfl

theorem Proof.works_hybrid {x : Ident} (hx : x.span ∈ A.spans) (start stop : Bound) :
    A.Works F (Goals (n + 1)) F (Goals (n + 1)) (hybrid A.ctx location x start stop) :=
  (works_factNamed hx).bind fun f => (works_hybridVariable hl f).bind fun _ =>
    (works_internal _).bind fun _ => (works_internal _).bind fun _ =>
      works_applyRule _ ⟨x.span, hx, rfl⟩ rfl

theorem Proof.works_unfold (names : List Ident) :
    A.Works F (Goals (n + 1)) F (Goals (n + 1)) (unfold A.ctx location names) := by
  refine works_goal.bind fun g => works_get.bind fun c => ?_
  dsimp only
  split
  · rename_i f hf
    exact works_fail hl (Expr.concernsGoals_of_unfold hf)
  · exact (works_modifyGoal _).bind fun _ => works_askIn hl Environment.bare (fun _ => rfl) _

theorem Proof.works_inline (names : List Ident) :
    A.Works F (Goals (n + 1)) F (Goals (n + 1)) (inline location names) :=
  works_goal.bind fun _ => works_get.bind fun _ =>
    (works_located hl fun _ => Expr.concernsGoals_of_inlineObjects).bind fun _ => works_modifyGoal _

/-! ## Subgoals -/

theorem Proof.works_targetObject :
    A.Works F (Building n) F (Building n) (targetObject location) := by
  refine works_builder.bind fun f => ?_
  split
  · exact works_pure _
  · exact works_fail hl rfl

theorem Proof.works_change {r : Replacement} (hr : r.Placed A.spans) :
    A.Works (A.Above (k + 1)) (Building n) (A.Above (k + 1)) (Building n)
      (change A.ctx location r) := by
  cases r with
  | fields _ fields =>
    have hreopen : A.Works (A.Above (k + 1)) (Building n) (A.Above (k + 1)) (Building n)
        (modifyScope fun s => s.pop.push .variables) :=
      works_modifyScope fun _ _ => by
        rintro ⟨f, rest, rfl, hrest⟩
        exact ⟨_ :: rest, rfl, _, rest, rfl, hrest⟩
    refine hreopen.bind fun _ => works_get.bind fun c => (works_naming ?_).bind fun _ =>
      (works_targetObject hl).bind fun _ => works_modifyBuilder _
    exact Expr.spills_checkFields _ (fun f hf => ⟨⟨trivial, (hr f hf).1⟩, fun _ _ => trivial⟩)
      fun f hf => Expr.spills_check _ (hr f hf).2
  | method m =>
    refine works_get.bind fun c => (works_naming ?_).bind fun _ =>
      (works_targetObject hl).bind fun _ => works_modifyBuilder _
    refine (Expr.encloses_checkMethods _ ?_ ?_).spills
    · exact List.forall_mem_singleton.2 ⟨fun p hp => ⟨trivial, hr.1 p hp⟩, fun _ _ => trivial⟩
    · exact List.forall_mem_singleton.2 (Expr.spills_check _ hr.2)

theorem Proof.works_declareMember (x : String) :
    A.Works (A.Above k) S (A.Above k) S (declareMember location x) := by
  refine works_get.bind fun _ => works_guard hl rfl (works_modifyScope fun top base htop => ?_)
  obtain ⟨f, rest, rfl, hgrow⟩ := htop.grow
  refine ⟨f.declare x .value :: rest, rfl, hgrow _ ?_⟩
  rw [ScopeFrame.declared_declare]
  exact Set.subset_union_left

theorem Proof.works_setTarget {target : Target} (ht : target.Placed A.spans) :
    A.Works (A.Above k) (Building n) (A.Above k) (Building n) (setTarget A.ctx location target) := by
  cases target with
  | expr e =>
    exact works_get.bind fun _ => (works_naming (Expr.spills_check _ ht)).bind fun _ =>
      works_modifyBuilder _
  | changed changes =>
    refine works_builder.bind fun f => ?_
    split
    · exact works_fail hl rfl
    · exact (works_push _).bind fun _ => (works_forM fun _ _ => works_declareMember hl _).bind fun _ =>
        (works_forM fun r hr => works_change hl (ht r hr)).bind fun _ => works_pop

/-- A subgoal is a goal above the others. -/
theorem Proof.works_openSubgoal (bound : Bound) {target : Target} (ht : target.Placed A.spans) :
    A.Works (A.Above k) (Goals (n + 1)) (A.Above k) (Goals (n + 2))
      (openSubgoal A.ctx location bound target) :=
  works_goal.bind fun _ => (works_pushObligation _ fun top htop => ⟨_, top, rfl, htop⟩).bind fun _ =>
    (works_setTarget hl ht).bind fun _ => works_finishBuilder

omit hl in
theorem Proof.works_closeSubgoal (bound : Bound) :
    A.Works F (Goals (n + 2)) F (Goals (n + 1)) (closeSubgoal location bound) :=
  works_popGoal.bind fun _ => works_modifyGoal _

end

section
variable {A : Ambient α} {k : Nat}

mutual

/-- **A step of a proof** ends with the frames and as many goals as it starts with, and keeps the
    theory. -/
theorem Tactic.works_run {n : Nat} : (t : Tactic) → t.Placed A.spans →
    A.Works (A.Above k) (Goals (n + 1)) (A.Above k) (Goals (n + 1)) (t.run A.ctx)
  | .subgoal s _ _ proof, ⟨hs, hclosing, htarget, hproof⟩ =>
    (Proof.works_openSubgoal ⟨s, hs, rfl⟩ _ htarget).bind fun _ => (works_runAll proof hproof).bind
      fun _ => (Proof.works_close ⟨_, hclosing, rfl⟩).bind fun _ => Proof.works_closeSubgoal _
  | .symmetry _, _ => works_modifyGoal _
  | .giveUp _, _ => works_settle
  | .trivial s, hs =>
    works_goal.bind fun _ => (Proof.works_checkEqual ⟨s, hs, rfl⟩ _ _).bind fun _ => works_settle
  | .auto s, hs => Proof.works_auto ⟨s, hs, rfl⟩
  | .bisim s clauses, hs => Proof.works_bisim ⟨s, hs, rfl⟩ clauses
  | .rewrite _ _, hs => Proof.works_rewriteWith hs.2
  | .hybrid s _ start stop, hs => Proof.works_hybrid ⟨s, hs.1, rfl⟩ hs.2 start stop
  | .unfold s names, hs => Proof.works_unfold ⟨s, hs, rfl⟩ names
  | .inline s names, hs => Proof.works_inline ⟨s, hs, rfl⟩ names

theorem Tactic.works_runAll {n : Nat} : (ts : List Tactic) → AllPlaced A.spans ts →
    A.Works (A.Above k) (Goals (n + 1)) (A.Above k) (Goals (n + 1)) (runAll A.ctx ts)
  | [], _ => works_pure ()
  | t :: ts, hts => (works_run t hts.1).bind fun _ => works_runAll ts hts.2

end

end

/-! ## Theorems -/

theorem Allowance.Blames.allows {A : Ambient α} {e : CheckError}
    (h : Blames ⟨Set.univ, A.spans⟩ A.ctx.file e) : A.Allows e := by
  obtain ⟨o, ho, rfl⟩ := h
  exact allows_located ⟨o.span, ho.span, rfl⟩ ho.names

/-- Going back to the frames of another state. -/
theorem Scope.truncate_of_suffix {s s' : Scope} (h : s.frames <:+ s'.frames) :
    s'.truncate s.depth = s := by
  obtain ⟨top, h⟩ := h
  obtain ⟨frames⟩ := s
  simp [truncate, depth, ← h]

/-- Going back to the obligations of another state. -/
theorem Obligations.truncate_of_suffix {o o' : Obligations} (h : o.stack <:+ o'.stack) :
    o'.truncate o.size = o := by
  obtain ⟨top, h⟩ := h
  obtain ⟨stack⟩ := o
  simp [truncate, size, ← h]

section
variable {A : Ambient α}

theorem Ambient.Stands.suffix {F : List ScopeFrame → Prop} {S : List Obligation → Prop} {c : Checker α}
    (h : A.Stands F S c) : A.before.scope.frames <:+ c.scope.frames ∧
      A.before.obligations.stack <:+ c.obligations.stack :=
  ⟨h.frames.imp fun _ h => h.1.symm, h.stack.imp fun _ h => h.1.symm⟩

theorem Ambient.Stands.closed {c : Checker α} (h : A.Stands Closed (Goals 0) c) :
    c.scope = A.before.scope ∧ c.obligations = A.before.obligations := by
  obtain ⟨_, hframes, rfl⟩ := h.frames
  obtain ⟨_, hstack, hgoals⟩ := h.stack
  obtain rfl := goals_zero.1 hgoals
  exact ⟨congrArg Scope.mk hframes, congrArg Obligations.mk hstack⟩

theorem Ambient.Stands.goals {F : List ScopeFrame → Prop} {n : Nat} {c : Checker α}
    (h : A.Stands F (Goals n) c) (hbase : A.before.obligations.stack = []) :
    Goals n c.obligations.stack := by
  obtain ⟨top, hstack, htop⟩ := h.stack
  rwa [hstack, hbase, List.append_nil]

theorem Ambient.Stands.facts {F : List ScopeFrame → Prop} {S : List Obligation → Prop} {c : Checker α}
    (h : A.Stands F S c) : c.facts = A.before.facts :=
  congrArg Theory.facts h.theory

namespace Checker

/-- The parameters of a statement are declared in a frame above the others. -/
theorem stands_checkStatement {S : List Obligation → Prop} (hA : A.declared = ∅) {s : Statement}
    (hs : s.Admitted ⟨Set.univ, A.spans⟩) :
    Leads (A.Stands Closed S) (checkStatement A.ctx.file s)
      (fun f c => f = s.fact ∧ A.Stands (A.Above 0) S c) A.Fails := by
  intro c hc
  obtain ⟨_, hframes, rfl⟩ := hc.frames
  rw [List.nil_append] at hframes
  refine (leads_checkStatement hs c).mono (fun _ h => h) ?_ ?_ c rfl
  · rintro _ c' ⟨rfl, ⟨g, hframes', -, -⟩, hc'⟩
    refine ⟨rfl, hc.renamed hc' ⟨[g], by rw [hframes', hframes]; rfl, g, rfl, ?_⟩⟩
    rw [hA]
    exact Set.empty_subset _
  · rintro e c' ⟨hblames, ⟨g, opened, hframes', -, -⟩, hc'⟩
    exact ⟨hblames.allows, hc.any.renamed hc' ⟨opened ++ [g], by simp [hframes', hframes], trivial⟩⟩

/-- A proof registers its fact last, when the frames and the goals are those before it. -/
theorem leads_prove (hA : A.declared = ∅) {t : Theorem} (ht : t.Placed A.spans) :
    Leads (A.Stands Closed (Goals 0)) (prove A.ctx t)
      (fun _ c => ∃ c₁, A.Stands Closed (Goals 0) c₁ ∧
        c = { c₁ with facts := insertEntry t.statement.name.name t.statement.fact c₁.facts })
      A.Fails := by
  have hstop : A.Place (A.ctx.file.locate t.span.closing) := ⟨_, ht.closing, rfl⟩
  refine (stands_checkStatement hA ht.statement).bind fun f c => ?_
  rintro ⟨rfl, hc⟩
  refine Leads.bind (works_pushObligation _ fun _ htop => htop.cons _) (fun _ => ?_) c hc
  refine Leads.bind (Tactic.works_runAll t.proof ht.proof) fun _ => ?_
  refine Leads.bind (Proof.works_close hstop) fun _ => Leads.bind works_popGoal fun _ => ?_
  exact leads_ensureEmpty hstop (Leads.bind Ambient.works_close fun _ c hc => ⟨c, hc, rfl⟩)

/-- Whether the check of an item has registered it and changed nothing else but the classes. -/
structure Settled (A : Ambient α) (i : Item) (c : Checker α) : Prop where
  scope : c.scope = (i.register A.before).scope
  obligations : c.obligations = A.before.obligations
  answers : ∃ new, c.answers = A.before.answers ++ new ∧
    ∀ a ∈ new, ∃ env q, A.Place env.location ∧ A.ctx.backend env q = .ok a
  theory : c.theory = (i.register A.before).theory
  imported : c.imported = A.before.imported

theorem Settled.facts {i : Item} {c : Checker α} (h : Settled A i c) :
    c.facts = (i.register A.before).facts :=
  congrArg Theory.facts h.theory

/-- A failed item leaves no obligations, whatever it did before it failed. -/
def Settles (A : Ambient α) (i : Item) (x : CheckM α Unit) : Prop :=
  Leads (· = A.before) x (fun _ => Settled A i) fun e c =>
    A.Fails e c ∧ c.obligations = A.before.obligations

theorem Declares.settles {i : Item} {x : CheckM α Unit}
    (h : Declares ⟨Set.univ, A.spans⟩ A.ctx.file i x) : Settles A i x := by
  refine (h A.before).mono (fun _ h => h) ?_ ?_
  · rintro _ c ⟨hscope, hc⟩
    have hregister : (i.register A.before).obligations = A.before.obligations ∧
        (i.register A.before).answers = A.before.answers ∧
          (i.register A.before).imported = A.before.imported := by
      cases i <;> exact ⟨rfl, rfl, rfl⟩
    exact ⟨hscope, hc.obligations.trans hregister.1, ⟨[], by simp [hc.answers, hregister.2.1], by simp⟩,
      hc.theory, hc.imported.trans hregister.2.2⟩
  · rintro e c ⟨hblames, hc, hscope⟩
    have hbefore : A.Stands (fun _ => True) (fun _ => True) A.before := stands_before trivial trivial
    refine ⟨⟨hblames.allows, hbefore.renamed hc ?_⟩, hc.obligations⟩
    rcases hscope with ⟨g, opened, hframes, -⟩ | ⟨hscope, -⟩
    · exact ⟨opened ++ [g], by simp [hframes], trivial⟩
    · exact ⟨[], by rw [hscope]; rfl, trivial⟩

/-- A theorem that fails is rolled back. -/
theorem leads_checkTheorem (hA : A.declared = ∅) {t : Theorem} (ht : t.Placed A.spans) :
    Leads (· = A.before) (checkTheorem A.ctx t) (fun _ => Settled A (.proved t)) fun e c =>
      A.Fails e c ∧ c.scope = A.before.scope ∧ c.obligations = A.before.obligations := by
  rintro c rfl
  have hprove := leads_prove hA ht A.before (stands_before rfl (goals_zero.2 rfl))
  have hrun : (checkTheorem A.ctx t).run.run A.before = (tryCatch (prove A.ctx t) fun e => do
      modify (rollback A.before)
      throw e).run.run A.before := rfl
  rw [hrun, run_tryCatch]
  cases hx : (prove A.ctx t).run.run A.before with
  | mk r c =>
    rw [hx] at hprove
    cases r with
    | ok u =>
      obtain ⟨c₁, hc₁, rfl⟩ := hprove
      obtain ⟨hscope, hstack⟩ := hc₁.closed
      have htheory := hc₁.theory
      simp only [Checker.theory, Theory.mk.injEq] at htheory
      exact ⟨hscope, hstack, hc₁.answers, by simp [Checker.theory, Item.register, htheory], hc₁.imported⟩
    | error e =>
      obtain ⟨hallows, hc⟩ := hprove
      have hscope : (rollback A.before c).scope = A.before.scope :=
        Scope.truncate_of_suffix hc.suffix.1
      have hstack : (rollback A.before c).obligations = A.before.obligations :=
        Obligations.truncate_of_suffix hc.suffix.2
      refine ⟨⟨hallows, ?_⟩, hscope, hstack⟩
      exact ⟨⟨[], by rw [hscope]; rfl, trivial⟩, ⟨[], by rw [hstack]; rfl, trivial⟩, hc.answers,
        hc.theory, hc.imported⟩

end Checker

end

namespace Checker

/-- Where the check of an item starts. -/
def ambient (setup : CheckSetup α) (file : SourceFile) (spans : Set Span) (c : Checker α) : Ambient α :=
  ⟨⟨file, setup.backend⟩, spans, c, ∅⟩

/-- **An item that is accepted is registered, and one that fails leaves what was there before.** -/
theorem settles_checkItem (setup : CheckSetup α) (checkSource : SourceFile → CheckM α Unit)
    (file : SourceFile) {i : Item} (hi : i.isImport = false) {spans : Set Span} (hp : i.Placed spans)
    (c : Checker α) :
    Settles (ambient setup file spans c) i (checkItem setup checkSource file i) := by
  cases i with
  | imported => cases hi
  | constant k => exact (declares_checkConstant hp).settles
  | function f => exact (declares_checkFunction hp).settles
  | postulate p => exact (declares_checkPostulate hp).settles
  | proved t =>
    have hleads := leads_checkTheorem (A := ambient setup file spans c) (t := t) rfl hp
    exact hleads.mono (fun _ h => h) (fun _ _ h => h) fun _ _ h => ⟨h.1, h.2.2⟩
  | assumed s => exact (declares_checkAssumption hp).settles

end Checker

end GameHop
