import GameHop.Proofs.Check.Stack

/-!
Sessions. Sources are checked one after the other, and each starts with what the ones before it
left, also where they failed.
-/

namespace GameHop

variable {α β : Type}

open CheckM Obligation Ambient

/-! ## Moments -/

/-- A moment of a session and the state at that moment. -/
inductive Moment (α : Type) where
  /-- A step of a proof comes next or a block of steps ends. It lies in `depth` subgoals. -/
  | step (depth : Nat) (c : Checker α)
  /-- The items of a source come next. -/
  | opened (c : Checker α)
  /-- An item was checked. -/
  | checked (i : Item) (result : Except CheckError Unit) (c : Checker α)

/-- The moments after a step, if it ends well. -/
def CheckM.following (x : CheckM α β) (moments : β → Checker α → List (Moment α)) (c : Checker α) :
    List (Moment α) :=
  match x.run.run c with
  | (.ok b, c') => moments b c'
  | (.error _, _) => []

mutual

/-- The moments within a step. -/
def Tactic.moments (ctx : ProofContext α) : Tactic → (depth : Nat) → Checker α → List (Moment α)
  | .subgoal span bound target proof, depth =>
    following (Proof.openSubgoal ctx (ctx.file.locate span) (bound.getD .zero) target) fun _ =>
      Tactic.momentsAll ctx proof (depth + 1)
  | _, _ => fun _ => []

/-- The moments of a block of steps. -/
def Tactic.momentsAll (ctx : ProofContext α) :
    List Tactic → (depth : Nat) → Checker α → List (Moment α)
  | [], depth => fun c => [.step depth c]
  | t :: ts, depth => fun c =>
    .step depth c :: (t.moments ctx depth c ++
      following (t.run ctx) (fun _ => Tactic.momentsAll ctx ts depth) c)

end

/-- The moments of a proof. -/
def Theorem.moments (ctx : ProofContext α) (t : Theorem) : Checker α → List (Moment α) :=
  following (Checker.checkStatement ctx.file t.statement) fun f =>
    following (pushObligation (.goal (.ofFact f))) fun _ => Tactic.momentsAll ctx t.proof 0

namespace Checker

section
variable (setup : CheckSetup α) (sourceMoments : SourceFile → Checker α → List (Moment α))
  (checkSource : SourceFile → CheckM α Unit) (file : SourceFile)

/-- The moments within an import. -/
def importMoments (i : Import) (c : Checker α) : List (Moment α) :=
  if c.imported.contains i.moduleName then []
  else
    match findModule setup file i with
    | none => []
    | some module => sourceMoments module { c with imported := i.moduleName :: c.imported }

/-- The moments within an item. -/
def itemMoments : Item → Checker α → List (Moment α)
  | .imported i => importMoments setup sourceMoments file i
  | .proved t => t.moments ⟨file, setup.backend⟩
  | _ => fun _ => []

/-- The moments within an item and the one after it. -/
def checkedMoments (i : Item) (c : Checker α) : List (Moment α) :=
  let (result, c') := (checkItem setup checkSource file i).run.run c
  itemMoments setup sourceMoments file i c ++ [.checked i result c']

/-- The moments of items. -/
def itemsMoments : List Item → Checker α → List (Moment α)
  | [] => fun _ => []
  | i :: is => fun c =>
    checkedMoments setup sourceMoments checkSource file i c ++
      following (checkItem setup checkSource file i) (fun _ => itemsMoments is) c

end

/-- The moments of a source with imports nested less than `depth` deep. -/
def nestedMoments (setup : CheckSetup α) : (depth : Nat) → SourceFile → Checker α → List (Moment α)
  | 0, _ => fun _ => []
  | depth + 1, file => fun c =>
    match Development.parse file.text with
    | .error _ => []
    | .ok items =>
      .opened c :: itemsMoments setup (nestedMoments setup depth) (checkNested setup depth) file items c

/-- The state after sources were checked, each with its own back end and files. -/
def afterSources : List (CheckSetup α × SourceFile) → Checker α → Checker α
  | [], c => c
  | (setup, file) :: sources, c => afterSources sources ((checkSource setup file).run.run c).2

/-- The moments of a session. -/
def history : List (CheckSetup α × SourceFile) → Checker α → List (Moment α)
  | [], _ => []
  | (setup, file) :: sources, c =>
    nestedMoments setup (importDepth setup.files) file c ++
      history sources ((checkSource setup file).run.run c).2

end Checker

/-! ## Order -/

namespace Moment

/-- Whether an item has failed. -/
def isFailure : Moment α → Bool
  | .checked _ (.error _) _ => true
  | _ => false

/-- How many subgoals there are around a step. -/
def depth? : Moment α → Option Nat
  | .step depth _ => some depth
  | _ => none

/-- The constant that was declared. -/
def constant? : Moment α → Option (String × Ty)
  | .checked i (.ok _) _ => i.constant?
  | _ => none

end Moment

/-- Whether a state is one between items, after the given moments: nothing is under proof, and if no item
    has failed, the scope is the frame of the constants that were declared. -/
structure Checker.AtRest (past : List (Moment α)) (c : Checker α) : Prop where
  stack : c.obligations.stack = []
  frames : (∀ m ∈ past, m.isFailure = false) →
    c.scope.frames = [⟨.constant, past.filterMap Moment.constant?⟩]

/-- Whether the state of a moment is as it should be after the moments before. -/
def Moment.InOrder (past : List (Moment α)) : Moment α → Prop
  | .step depth c => Goals (depth + 1) c.obligations.stack
  | .opened c => c.AtRest past
  | .checked i result c => c.AtRest (past ++ [.checked i result c])

/-- Whether moments are in order, one after the other. -/
def Moment.AllInOrder : (past moments : List (Moment α)) → Prop
  | _, [] => True
  | past, m :: ms => m.InOrder past ∧ AllInOrder (past ++ [m]) ms

namespace Moment

variable {past ms ms' : List (Moment α)} {m : Moment α} {c c' : Checker α}

theorem AllInOrder.append (h : AllInOrder past ms) (h' : AllInOrder (past ++ ms) ms') :
    AllInOrder past (ms ++ ms') := by
  induction ms generalizing past with
  | nil => simpa using h'
  | cons m ms ih => exact ⟨h.1, ih h.2 (by simpa using h')⟩

theorem AllInOrder.inOrder (h : AllInOrder past (ms ++ m :: ms')) : m.InOrder (past ++ ms) := by
  induction ms generalizing past with
  | nil => simpa using h.1
  | cons m' ms ih => simpa using ih h.2

/-- Between the steps of a proof, whatever was before. -/
def IsStep (m : Moment α) : Prop :=
  ∃ depth c, m = .step depth c ∧ Goals (depth + 1) c.obligations.stack

theorem allInOrder_of_isStep (h : ∀ m ∈ ms, m.IsStep) : AllInOrder past ms := by
  induction ms generalizing past with
  | nil => trivial
  | cons m ms ih =>
    rw [List.forall_mem_cons] at h
    obtain ⟨⟨depth, c, rfl, hgoals⟩, h⟩ := h
    exact ⟨hgoals, ih h⟩

theorem filterMap_constant?_of_isStep (h : ∀ m ∈ ms, m.IsStep) :
    ms.filterMap Moment.constant? = [] := by
  refine List.filterMap_eq_nil_iff.2 fun m hm => ?_
  obtain ⟨depth, c, rfl, -⟩ := h m hm
  rfl

end Moment

open Moment

theorem Checker.AtRest.append {past ms : List (Moment α)} {c c' : Checker α} (h : c.AtRest past)
    (hstack : c'.obligations.stack = [])
    (hframes : (∀ m ∈ ms, m.isFailure = false) →
      ∀ symbols, c.scope.frames = [⟨.constant, symbols⟩] →
        c'.scope.frames = [⟨.constant, symbols ++ ms.filterMap Moment.constant?⟩]) :
    c'.AtRest (past ++ ms) := by
  refine ⟨hstack, fun hok => ?_⟩
  rw [List.forall_mem_append] at hok
  rw [List.filterMap_append]
  exact hframes hok.2 _ (h.frames hok.1)

/-! ## Proofs -/

section
variable {x : CheckM α β} {moments : β → Checker α → List (Moment α)} {c : Checker α}

theorem CheckM.mem_following {m : Moment α} (h : m ∈ following x moments c) :
    ∃ b c', Ends x c b c' ∧ m ∈ moments b c' := by
  unfold following at h
  split at h
  · rename_i b c' hrun
    exact ⟨b, c', hrun, h⟩
  · cases h

theorem CheckM.following_of_ends {b : β} {c' : Checker α} (h : Ends x c b c') :
    following x moments c = moments b c' := by
  rw [following, h]

theorem CheckM.following_of_error {e : CheckError} {c' : Checker α}
    (h : x.run.run c = (.error e, c')) : following x moments c = [] := by
  rw [following, h]

end

section
variable {A : Ambient α} (hA : A.spans = Set.univ)
include hA

mutual

theorem Tactic.isStep_moments {depth : Nat} {c : Checker α} (hbase : A.before.obligations.stack = []) :
    (t : Tactic) → A.Stands (A.Above 0) (Goals (depth + 1)) c →
      ∀ m ∈ t.moments A.ctx depth c, m.IsStep
  | .subgoal _ _ target proof, hc => by
    intro m hm
    rw [moments] at hm
    obtain ⟨_, c₁, hopen, hm⟩ := mem_following hm
    exact isStep_momentsAll hbase proof ((Proof.works_openSubgoal ⟨_, by rw [hA]; trivial, rfl⟩ _
      (hA ▸ target.placed_univ)).ok hc hopen) m hm
  | .symmetry _, _ | .giveUp _, _ | .trivial _, _ | .auto _, _ | .bisim _ _, _ | .rewrite _ _, _
  | .hybrid _ _ _ _, _ | .unfold _ _, _ | .inline _ _, _ => by
    rintro m ⟨⟩

/-- **Between the steps of a proof there are goals**, one more than there are subgoals around. -/
theorem Tactic.isStep_momentsAll {depth : Nat} {c : Checker α}
    (hbase : A.before.obligations.stack = []) :
    (ts : List Tactic) → A.Stands (A.Above 0) (Goals (depth + 1)) c →
      ∀ m ∈ momentsAll A.ctx ts depth c, m.IsStep
  | [], hc => by
    rw [momentsAll, List.forall_mem_singleton]
    exact ⟨depth, c, rfl, hc.goals hbase⟩
  | t :: ts, hc => by
    rw [momentsAll, List.forall_mem_cons, List.forall_mem_append]
    refine ⟨⟨depth, c, rfl, hc.goals hbase⟩, isStep_moments hbase t hc, fun m hm => ?_⟩
    obtain ⟨_, c₁, hrun, hm⟩ := mem_following hm
    exact isStep_momentsAll hbase ts ((works_run t (hA ▸ t.placed_univ)).ok hc hrun) m hm

end

end

theorem Theorem.isStep_moments {ctx : ProofContext α} {t : Theorem} {c : Checker α}
    (hc : c.obligations.stack = []) : ∀ m ∈ t.moments ctx c, m.IsStep := by
  intro m hm
  obtain ⟨f, c₁, hstatement, hm⟩ := mem_following hm
  obtain ⟨_, c₂, hpush, hm⟩ := mem_following hm
  let A : Ambient α := ⟨ctx, Set.univ, c, ∅⟩
  have hc₁ := (Checker.stands_checkStatement (A := A) rfl t.statement.admitted_all).ok
    (stands_before rfl (goals_zero.2 rfl)) hstatement
  have hc₂ := (works_pushObligation (.goal (.ofFact f)) fun _ htop => htop.cons _).ok hc₁.2 hpush
  exact Tactic.isStep_momentsAll (A := A) rfl hc t.proof hc₂ m hm

/-! ## Declarations -/

/-- A new entry comes last. -/
theorem insertEntry_of_lookup_eq_none {κ δ : Type} [BEq κ] [LawfulBEq κ] {k : κ}
    {table : List (κ × δ)} (h : table.lookup k = none) (a : δ) :
    insertEntry k a table = table ++ [(k, a)] := by
  induction table with
  | nil => rfl
  | cons p rest ih =>
    obtain ⟨l, b⟩ := p
    rw [List.lookup_cons] at h
    cases hkl : k == l with
    | true => simp [hkl] at h
    | false =>
      have hlk : (l == k) = false := by rw [BEq.comm, hkl]
      rw [hkl] at h
      simp [insertEntry, hlk, ih h]

namespace Checker

theorem frames_of_checkConstant {file : SourceFile} {k : Constant} {c c' : Checker α}
    {symbols : List (String × Ty)} (h : Ends (checkConstant file k) c () c')
    (hsymbols : c.scope.frames = [⟨.constant, symbols⟩]) :
    c'.scope.frames = [⟨.constant, symbols ++ [(k.name.name, k.ty.getD .bits)]⟩] := by
  obtain ⟨n, hdeclare, rfl⟩ := ends_naming h
  obtain ⟨hmay, rfl⟩ := NamingM.of_declareParam hdeclare
  rw [Scope.mayDeclare, hsymbols] at hmay
  refine (Scope.frames_declare hsymbols _ _).trans ?_
  rw [ScopeFrame.declare, insertEntry_of_lookup_eq_none (Option.isNone_iff_eq_none.1 hmay)]

/-- An item that is accepted adds its constant, if it declares one. -/
theorem frames_of_checkItem {setup : CheckSetup α} {checkSource : SourceFile → CheckM α Unit}
    {file : SourceFile} {i : Item} (hi : i.isImport = false) {c c' : Checker α}
    {symbols : List (String × Ty)} (h : Ends (checkItem setup checkSource file i) c () c')
    (hsymbols : c.scope.frames = [⟨.constant, symbols⟩]) :
    c'.scope.frames = [⟨.constant, symbols ++ i.constant?.toList⟩] := by
  have hscope := ((settles_checkItem setup checkSource file hi i.placed_univ c).ok rfl h).scope
  cases i with
  | imported => cases hi
  | constant k => exact frames_of_checkConstant h hsymbols
  | _ =>
    show c'.scope.frames = [⟨.constant, symbols ++ []⟩]
    rw [List.append_nil, hscope]
    exact hsymbols

/-! ## Items and sources -/

/-- Whether the moments of a check are in order, and the check ends between items and is excused if it
    fails. -/
structure EndsInOrder (backend : Backend α) (past moments : List (Moment α))
    (run : Except CheckError Unit × Checker α) : Prop where
  order : AllInOrder past moments
  rest : run.2.AtRest (past ++ moments)
  excused : ∀ e, run.1 = .error e → e.concernsGoals = true → ∃ env q, backend env q = .error e

def RunsInOrder (backend : Backend α) (x : CheckM α Unit)
    (moments : Checker α → List (Moment α)) : Prop :=
  ∀ past c, c.AtRest past → EndsInOrder backend past (moments c) (x.run.run c)

section
variable {backend : Backend α} {x y : CheckM α Unit} {ms ms' : Checker α → List (Moment α)} {i : Item}

theorem AtRest.endsInOrder {past : List (Moment α)} {c : Checker α} (hc : c.AtRest past)
    {r : Except CheckError Unit} (hr : ∀ e, r = .error e → e.concernsGoals = false) :
    EndsInOrder backend past [] (r, c) :=
  ⟨trivial, by rwa [List.append_nil], fun e he hconcerns => by rw [hr e he] at hconcerns; cases hconcerns⟩

/-- An item within which there are only steps of a proof. -/
theorem runsInOrder_of_isStep (setup : CheckSetup α) (checkSource : SourceFile → CheckM α Unit)
    (file : SourceFile) (hi : i.isImport = false)
    (hms : ∀ c, c.obligations.stack = [] → ∀ m ∈ ms c, m.IsStep) :
    RunsInOrder setup.backend (checkItem setup checkSource file i) fun c => ms c ++
      [.checked i ((checkItem setup checkSource file i).run.run c).1
        ((checkItem setup checkSource file i).run.run c).2] := by
  intro past c hc
  have hsteps := hms c hc.stack
  have hsettles := settles_checkItem setup checkSource file hi i.placed_univ c
  cases hrun : (checkItem setup checkSource file i).run.run c with
  | mk r c' =>
    dsimp only
    rw [hrun]
    have hstack : c'.obligations.stack = [] := by
      cases r with
      | ok u => rw [(hsettles.ok rfl hrun).obligations]; exact hc.stack
      | error e => rw [(hsettles.error rfl hrun).2]; exact hc.stack
    have hrest : c'.AtRest (past ++ (ms c ++ [.checked i r c'])) := by
      refine hc.append hstack fun hok symbols hsymbols => ?_
      rw [List.filterMap_append, filterMap_constant?_of_isStep hsteps, List.nil_append]
      have hlast := hok _ (List.mem_append_right _ (List.mem_singleton_self _))
      cases r with
      | error e => cases hlast
      | ok u =>
        rw [frames_of_checkItem hi hrun hsymbols]
        cases hconstant : i.constant? <;> simp [Moment.constant?, hconstant]
    refine ⟨(allInOrder_of_isStep hsteps).append ⟨?_, trivial⟩, hrest, ?_⟩
    · rw [← List.append_assoc] at hrest
      exact hrest
    · rintro e ⟨⟩
      exact (hsettles.error rfl hrun).1.1.of_concernsGoals hc.stack

/-- An item that declares no constant itself. -/
theorem RunsInOrder.checked (hx : RunsInOrder backend x ms) (hi : i.constant? = none) :
    RunsInOrder backend x fun c => ms c ++ [.checked i (x.run.run c).1 (x.run.run c).2] := by
  intro past c hc
  obtain ⟨horder, hrest, herror⟩ := hx past c hc
  have hrest' : (x.run.run c).2.AtRest
      (past ++ ms c ++ [.checked i (x.run.run c).1 (x.run.run c).2]) := by
    refine hrest.append hrest.stack fun _ symbols hsymbols => ?_
    have hnone : Moment.constant? (.checked i (x.run.run c).1 (x.run.run c).2) = none := by
      cases (x.run.run c).1 with
      | error e => rfl
      | ok u => exact hi
    simp [hnone, hsymbols]
  exact ⟨horder.append ⟨hrest', trivial⟩, by rwa [← List.append_assoc], herror⟩

theorem RunsInOrder.seq (hx : RunsInOrder backend x ms) (hy : RunsInOrder backend y ms') :
    RunsInOrder backend (x >>= fun _ => y) fun c => ms c ++ following x (fun _ => ms') c := by
  intro past c hc
  obtain ⟨horder, hrest, herror⟩ := hx past c hc
  dsimp only
  rw [run_bind]
  cases hrun : x.run.run c with
  | mk r c₁ =>
    rw [hrun] at hrest herror
    cases r with
    | error e =>
      rw [following_of_error hrun, List.append_nil]
      refine ⟨horder, hrest, ?_⟩
      rintro e' ⟨⟩
      exact herror e rfl
    | ok u =>
      obtain ⟨horder', hrest', herror'⟩ := hy (past ++ ms c) c₁ hrest
      rw [following_of_ends hrun]
      exact ⟨horder.append horder', by rwa [← List.append_assoc], herror'⟩

end

section
variable (setup : CheckSetup α) {sourceMoments : SourceFile → Checker α → List (Moment α)}
  {checkSource : SourceFile → CheckM α Unit}

theorem runsInOrder_checkImport
    (h : ∀ file, RunsInOrder setup.backend (checkSource file) (sourceMoments file))
    (file : SourceFile) (i : Import) :
    RunsInOrder setup.backend (checkImport setup checkSource file i)
      (importMoments setup sourceMoments file i) := by
  intro past c hc
  have hget : (get : CheckM α (Checker α)).run.run c = (.ok c, c) := rfl
  rw [checkImport, importMoments, run_bind, hget]
  dsimp only
  cases c.imported.contains i.moduleName with
  | true => exact hc.endsInOrder (by rintro e ⟨⟩)
  | false =>
    have hc' : AtRest past { c with imported := i.moduleName :: c.imported } :=
      ⟨hc.stack, hc.frames⟩
    cases findModule setup file i with
    | none => exact hc'.endsInOrder (by rintro e ⟨⟩; rfl)
    | some module => exact h module past _ hc'

theorem runsInOrder_checkItem
    (h : ∀ file, RunsInOrder setup.backend (checkSource file) (sourceMoments file))
    (file : SourceFile) (i : Item) :
    RunsInOrder setup.backend (checkItem setup checkSource file i)
      (checkedMoments setup sourceMoments checkSource file i) := by
  have hnone : ∀ c : Checker α, c.obligations.stack = [] → ∀ m ∈ ([] : List (Moment α)), m.IsStep :=
    fun _ _ => List.forall_mem_nil _
  cases i with
  | imported i => exact (runsInOrder_checkImport setup h file i).checked rfl
  | constant | function | postulate | assumed =>
    exact runsInOrder_of_isStep setup checkSource file rfl hnone
  | proved t =>
    exact runsInOrder_of_isStep setup checkSource file rfl fun _ hc => Theorem.isStep_moments hc

theorem runsInOrder_items
    (h : ∀ file, RunsInOrder setup.backend (checkSource file) (sourceMoments file))
    (file : SourceFile) (is : List Item) :
    RunsInOrder setup.backend (is.forM (checkItem setup checkSource file))
      (itemsMoments setup sourceMoments checkSource file is) := by
  induction is with
  | nil => exact fun past c hc => hc.endsInOrder (by rintro e ⟨⟩)
  | cons i is ih => exact (runsInOrder_checkItem setup h file i).seq ih

/-- **The check of a source runs in order**, and so do those of its imports. -/
theorem runsInOrder_checkNested (depth : Nat) (file : SourceFile) :
    RunsInOrder setup.backend (checkNested setup depth file) (nestedMoments setup depth file) := by
  induction depth generalizing file with
  | zero => exact fun past c hc => hc.endsInOrder (by rintro e ⟨⟩; rfl)
  | succ depth ih =>
    intro past c hc
    rw [checkNested, nestedMoments]
    cases Development.parse file.text with
    | error e => exact hc.endsInOrder (by rintro e ⟨⟩; rfl)
    | ok items =>
      have hopened : AtRest (past ++ [.opened c]) c :=
        hc.append hc.stack fun _ symbols hsymbols => by simp [hsymbols, Moment.constant?]
      obtain ⟨horder, hrest, herror⟩ := runsInOrder_items setup ih file items _ c hopened
      exact ⟨⟨hc, horder⟩, by simpa using hrest, herror⟩

end

/-! ## Sessions -/

theorem atRest_start : (start : Checker α).AtRest [] :=
  ⟨rfl, fun _ => rfl⟩

theorem history_endsInOrder (sources : List (CheckSetup α × SourceFile)) {past : List (Moment α)}
    {c : Checker α} (hc : c.AtRest past) :
    AllInOrder past (history sources c) ∧
      (afterSources sources c).AtRest (past ++ history sources c) := by
  induction sources generalizing past c with
  | nil => exact ⟨trivial, by rwa [history, List.append_nil]⟩
  | cons s sources ih =>
    obtain ⟨setup, file⟩ := s
    obtain ⟨horder, hrest, -⟩ :=
      runsInOrder_checkNested setup (importDepth setup.files) file past c hc
    obtain ⟨horder', hrest'⟩ := ih hrest
    rw [List.append_assoc] at hrest'
    exact ⟨horder.append horder', hrest'⟩

/-- **Every session is in order.** Between the steps of a proof the obligations are goals, one for the
    theorem and one for each subgoal around. Between items, also after items that failed, there are
    none, and if no item has failed the scope is one frame with the constants that were declared. So no
    source is rejected for its obligations, unless the back end says so itself. -/
theorem history_in_order (sources : List (CheckSetup α × SourceFile)) :
    (∀ past m future, history sources start = past ++ m :: future → m.InOrder past) ∧
    (afterSources sources start).AtRest (history sources start) ∧
    ∀ setup file e c', (checkSource setup file).run.run (afterSources sources start) = (.error e, c') →
      e.concernsGoals = true → ∃ env q, setup.backend env q = .error e := by
  obtain ⟨horder, hrest⟩ := history_endsInOrder sources (α := α) atRest_start
  refine ⟨fun past m future h => ?_, hrest, fun setup file e c' h hconcerns => ?_⟩
  · rw [h] at horder
    exact horder.inOrder
  · have hends := runsInOrder_checkNested setup (importDepth setup.files) file _ _ hrest
    rw [checkSource] at h
    rw [h] at hends
    exact hends.excused e rfl hconcerns

/-- A source with an import, and after it one with a proof that fails in a subgoal of a subgoal. -/
def nestedSession : List (CheckSetup (Location × Question) × SourceFile) :=
  [(⟨.record, ⟨"/", [(["lib.qvl"], "const k;")], []⟩, []⟩,
      ⟨"a.qvl", "import lib; const n; function f(x); theorem T(x): f(x) ~ f(x) \x7b \x7d"⟩),
    (⟨.record, .empty "/", []⟩,
      ⟨"b.qvl", "theorem U(): f(n) ~ f(k) \x7b ~ f(n) \x7b ~ f(k) \x7b trivial; \x7d \x7d \x7d"⟩)]

/-- There are three goals where that proof fails, and one frame with two constants before its source. -/
theorem history_in_order_nested :
    (∃ past c future, history nestedSession start = past ++ .step 2 c :: future ∧
      Goals 3 c.obligations.stack) ∧
    (∃ m ∈ history nestedSession start, m.isFailure = true) ∧
    (afterSources nestedSession start).obligations.stack = [] ∧
    (afterSources (nestedSession.take 1) start).scope.frames =
      [⟨.constant, [("k", .bits), ("n", .bits)]⟩] := by
  have hrun : (some 2 ∈ (history nestedSession start).map Moment.depth? ∧
      true ∈ (history nestedSession start).map Moment.isFailure) ∧
      (∀ b ∈ (history (nestedSession.take 1) start).map Moment.isFailure, b = false) ∧
      (history (nestedSession.take 1) start).filterMap Moment.constant? =
        [("k", .bits), ("n", .bits)] := by
    decide +kernel
  obtain ⟨⟨hstep, hfailure⟩, hok, hconstants⟩ := hrun
  obtain ⟨horder, hrest, -⟩ := history_in_order nestedSession
  obtain ⟨-, hrest₁, -⟩ := history_in_order (nestedSession.take 1)
  refine ⟨?_, List.mem_map.1 hfailure, hrest.stack, ?_⟩
  · obtain ⟨m, hm, hdepth⟩ := List.mem_map.1 hstep
    cases m with
    | step depth c =>
      obtain rfl := Option.some.inj hdepth
      obtain ⟨past, future, hhistory⟩ := List.append_of_mem hm
      exact ⟨past, c, future, hhistory, horder past _ future hhistory⟩
    | opened | checked => cases hdepth
  · rw [hrest₁.frames (List.forall_mem_map.1 hok), hconstants]

end Checker

end GameHop
