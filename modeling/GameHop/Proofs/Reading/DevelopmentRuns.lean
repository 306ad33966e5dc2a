import GameHop.Proofs.Reading.Sources
import GameHop.Proofs.Term.BareDevelopment

/-!
Runs of the parsers of proofs, items and developments on any tokens.
-/

namespace GameHop

/-! ## What it is to be as read -/

structure Statement.AsRead (s : Statement) : Prop where
  name : s.name.Legible
  params : ∀ p ∈ s.params, p.name.Legible
  left : s.left.AsRead .assign
  bound : ∀ b ∈ s.bound, b.AsRead .lowest
  right : s.right.AsRead .assign

def BisimScope.Legible : BisimScope → Prop
  | .invariant => True
  | .checkpoint left right => left.Legible ∧ right.Legible

structure BisimClause.AsRead (c : BisimClause) : Prop where
  scopes : ∀ s ∈ c.scopes, s.Legible
  claim : c.claim.AsRead .lowest
  /-- Or else the call would be taken for a scope. -/
  head : c.scopes = [] → c.claim.headCall? ≠ some "checkpoint"

def Replacement.AsRead : Replacement → Prop
  | .fields _ fs => ∀ f ∈ fs, f.AsRead
  | .method m => m.AsRead

def Target.AsRead : Target → Prop
  | .expr e => e.AsRead .assign
  | .changed changes => changes ≠ [] ∧ ∀ r ∈ changes, r.AsRead

mutual

/-- Whether a step is like those that the parser gives. -/
def Tactic.AsRead : Tactic → Prop
  | .subgoal _ bound target proof =>
    (∀ b ∈ bound, b.AsRead .lowest) ∧ target.AsRead ∧ Tactic.AsReadAll proof
  | .symmetry _ | .giveUp _ | .trivial _ | .auto _ => True
  | .bisim _ clauses => ∀ cs ∈ clauses, ∀ c ∈ cs, c.AsRead
  | .rewrite _ fact => fact.Legible
  | .hybrid _ fact start stop => fact.Legible ∧ start.AsRead .lowest ∧ stop.AsRead .lowest
  | .unfold _ functions => ∀ x ∈ functions, x.Legible
  | .inline _ names => ∀ x ∈ names, x.Legible

def Tactic.AsReadAll : List Tactic → Prop
  | [] => True
  | t :: ts => t.AsRead ∧ Tactic.AsReadAll ts

end

theorem Tactic.asReadAll_iff (ts : List Tactic) :
    Tactic.AsReadAll ts ↔ ∀ t ∈ ts, t.AsRead := by
  induction ts with
  | nil => simp [Tactic.AsReadAll]
  | cons t ts ih => rw [Tactic.AsReadAll, ih, List.forall_mem_cons]

structure Function.AsRead (f : Function) : Prop where
  name : f.name.Legible
  params : ∀ p ∈ f.params, p.name.Legible
  body : ∀ e ∈ f.body, e.AsRead .lowest

structure Theorem.AsRead (t : Theorem) : Prop where
  statement : t.statement.AsRead
  proof : Tactic.AsReadAll t.proof

def Item.AsRead : Item → Prop
  | .imported i => i.path ≠ [] ∧ ∀ x ∈ i.path, x.Legible
  | .constant c => c.name.Legible
  | .function f => f.AsRead
  | .postulate p => p.claim.AsRead .lowest
  | .proved t => t.AsRead
  | .assumed s => s.AsRead

/-- Whether a development is like those that the parser gives. -/
def Development.AsRead (d : Development) : Prop :=
  ∀ i ∈ d, i.AsRead

namespace Parser

open Stage Outline

section
variable {w : Setting} {m : Bool} {n : Nat} {xs : List Outline} {terms other : Level} (h : terms.Tied w false other)

/-! ## Facts -/

section
include h

theorem mirrors_distance : Reflects w false true (distance terms) (distance other) (Option.map Bound.bare)
    (fun _ bound => ∀ b ∈ bound, b.AsRead .lowest) fun bound => bound.toList.map Bound.outline := by
  intro m n _
  refine (mirrors_sym _).then fun _ => ?_
  refine (mirrors_accept _).same fun _ given => ?_
  cases given with
  | true =>
    refine h.bound.via fun _ b hb => ?_
    refine (mirrors_sym _).then fun _ => ?_
    exact mirrors_pure ⟨rfl, by simpa using hb⟩ .rfl
  | false => exact mirrors_pure ⟨rfl, by simp⟩ .rfl

theorem mirrors_statement : Reflects w false true (statement terms) (statement other) Statement.bare
    (fun _ => Statement.AsRead) fun s => [s.outline] := by
  intro m n _
  refine mirrors_ident.via fun _ x hx => ?_
  refine mirrors_params.via fun _ ps hps => ?_
  refine (mirrors_sym _).then fun _ => ?_
  refine h.assign.via fun _ left hleft => ?_
  refine (mirrors_distance h).via fun _ bound hbound => ?_
  refine h.assign.via fun _ right hright => ?_
  exact mirrors_pure ⟨by simp [Statement.bare], fun hw => ⟨hx hw, hps hw, hleft hw, hbound hw, hright hw⟩⟩
    yields_node

/-! ## Proofs -/

theorem mirrors_replacements : Reflects w false false (replacements terms) (replacements other)
    (List.map Replacement.bare) (fun _ rs => rs ≠ [] ∧ ∀ r ∈ rs, r.AsRead) (List.map Replacement.outline) := by
  let one (terms : Level) : Parser Replacement := do
    if ← sees (.keyword .new_) then
      let start ← keyword .new_
      let fields ← terms.fields
      return Replacement.fields (start.join (← prevSpan)) fields
    else
      return Replacement.method (← terms.method)
  have hone : Reflects w false true (one terms) (one other) Replacement.bare (fun _ => Replacement.AsRead)
      fun r => [r.outline] := by
    intro m n _
    refine (looks_sees _).same fun isNew => ?_
    cases isNew with
    | true =>
      refine (mirrors_keyword _).via fun _ start _ => ?_
      refine (mirrors_fields h.late).via fun _ fs hfs => ?_
      refine mirrors_toPrev (o := leaf start) (fun s => ⟨rfl, hfs⟩) (List.sublist_cons_self ..) fun s => ?_
      rw [Field.outlines_eq]
      rfl
    | false =>
      refine (mirrors_method h.late).via fun _ m hm => ?_
      exact mirrors_pure ⟨rfl, hm⟩ .rfl
  intro m n _
  refine (mirrors_many (List.map Replacement.outline) _ hone).via fun _ rs hrs => ?_
  rw [List.isEmpty_map]
  cases rs with
  | nil =>
    exact (mirrors_failHere (R := fun _ _ _ => False) (c := false) (t := fun _ => ⟨true, n, []⟩) _).bind
      fun _ _ _ hfalse => hfalse.elim
  | cons r rs => exact mirrors_pure ⟨rfl, fun hw => ⟨List.cons_ne_nil _ _, hrs hw⟩⟩ .rfl

end

theorem mirrors_bisimScope : Reflects w false true bisimScope bisimScope BisimScope.bare
    (fun _ => BisimScope.Legible) BisimScope.parts := by
  intro m n _
  refine mirrors_ident.via fun _ head _ => ?_
  rw [Ident.name_bare]
  split
  · exact mirrors_pure ⟨rfl, fun _ => trivial⟩ yields_tail
  · let points : Parser BisimScope := do
      let left ← ident
      discard <| sym .comma
      let right ← ident
      return .checkpoint left right
    have hpoints : Reflects w false true points points BisimScope.bare (fun _ => BisimScope.Legible)
        BisimScope.parts := by
      intro m n _
      refine mirrors_ident.via fun _ left hleft => ?_
      refine (mirrors_sym _).then fun _ => ?_
      refine mirrors_ident.via fun _ right hright => ?_
      exact mirrors_pure ⟨rfl, fun hw => ⟨hleft hw, hright hw⟩⟩ .rfl
    exact (mirrors_parens hpoints).tail fun _ => yields_tail
  · exact mirrors_fail _ _ _ (List.mem_singleton_self _)

theorem kinds_bareInput (ks : List TokenKind) : (bareInput ks).kinds = ks := by
  simp [Input.kinds, bareInput, Function.comp_def]

/-- Whether there are scopes is decided by the first two tokens, which have to be kept for the claim. -/
theorem mirrors_atBisimScope {α : Type} {s : Stage} {k k' l : Bool → Parser α} {S : Input → α → α → Prop} {c : Bool}
    {u : α → Stage} (hk : ∀ given, Mirrors w s (k given) (k' given) (l given)
      (fun i a b => startsScope i.kinds = given → S i a b) c u) :
    Mirrors w s (atBisimScope >>= k) (atBisimScope >>= k') (atBisimScope >>= l) S c u := by
  intro i hi
  rw [StateT.run_bind, StateT.run_bind, StateT.run_bind, run_atBisimScope, run_atBisimScope, kinds_bareInput]
  obtain ⟨heq, hends⟩ := hk _ i hi
  exact ⟨heq, hends.mono (fun _ _ hab => hab rfl) fun _ _ hj => hj⟩

/-- Tokens that do not look like a scope do not begin a call of `checkpoint`. -/
theorem headCall_ne_checkpoint {ks : List TokenKind} {p : Formula} (hp : BeginsWithCall ks p)
    (hks : startsScope ks = false) : p.headCall? ≠ some "checkpoint" := by
  intro hcall
  obtain ⟨rs, rfl⟩ := hp _ hcall
  cases hks

section
include h

theorem mirrors_bisimClause : Reflects w false true (bisimClause terms) (bisimClause other) BisimClause.bare
    (fun _ => BisimClause.AsRead) fun c => [c.outline] := by
  intro m n _
  refine mirrors_here (b := true) (o := fun c : BisimClause => [c.outline]) fun start hstart => ?_
  let rest (terms : Level) (start : Span) (scopes : List BisimScope) : Parser BisimClause := do
    let claim ← terms.formula
    let stop ← sym .semi
    return ⟨start.join stop, scopes, claim⟩
  have hrest (m c : Bool) (scopes : List BisimScope) (hscopes : w.Known → ∀ s ∈ scopes, s.Legible) :
      Mirrors w ⟨m, start.offset, scopes.flatMap BisimScope.parts⟩ (rest terms start scopes) (rest other start scopes)
        (rest terms .nowhere (scopes.map BisimScope.bare))
        (fun i => Via w BisimClause.bare fun c =>
          (scopes = [] → startsScope i.kinds = false) → c.AsRead) c fun c => ⟨true, start.offset, [c.outline]⟩ := by
    refine h.begins.via fun i claim hclaim => ?_
    refine (mirrors_sym _).via fun _ stop hstop => ?_
    refine mirrors_pure ⟨rfl, fun hw hnil => ⟨hscopes hw, (hclaim hw).1, fun he => ?_⟩⟩
      (yields_fromHere hstart hstop fun _ _ => List.sublist_append_left ..)
    exact headCall_ne_checkpoint (hclaim hw).2 (hnil he)
  refine mirrors_atBisimScope fun given => ?_
  cases given with
  | true =>
    refine (mirrors_items (List.flatMap BisimScope.parts) mirrors_bisimScope).via fun _ scopes hscopes => ?_
    refine (mirrors_sym _).then fun _ => ?_
    refine (hrest _ _ scopes fun hw => (hscopes hw).2).mono (fun _ c _ hc _ => ⟨hc.eq, fun hw => ?_⟩) fun _ => .rfl
    exact hc.prop hw fun hnil => absurd hnil (hscopes hw).1
  | false =>
    exact (hrest _ _ [] (by simp)).mono (fun _ c _ hc hno => ⟨hc.eq, fun hw => hc.prop hw fun _ => hno⟩) fun _ => .rfl

omit h in
theorem mirrors_stepEnd {build bareBuild : Span → Tactic} {start : Span}
    (hstart : w.Known → start.Opens w.text w.tokens)
    (hbuild : ∀ e, Via w Tactic.bare Tactic.AsRead (build e) (bareBuild .nowhere))
    (houtline : ∀ e, (build e).outline = .node e xs) :
    Mirrors w ⟨true, start.offset, xs⟩ (stepEnd start build) (stepEnd start build) (stepEnd .nowhere bareBuild)
      (fun _ => Via w Tactic.bare Tactic.AsRead) false fun t => ⟨true, start.offset, [t.outline]⟩ := by
  refine (mirrors_sym _).via fun _ stop hstop => ?_
  refine mirrors_pure (hbuild _) ?_
  rw [houtline]
  exact yields_fromHere hstart hstop fun _ _ => List.sublist_append_left ..

/-- What the parser of a block makes of its steps and the span of its closing brace. -/
def bareBlock (r : List Tactic × Span) : List Tactic × Span :=
  (Tactic.bareList r.1, .nowhere)

abbrev ReflectsBlock (w : Setting) (b : Bool) (block block' : Parser (List Tactic × Span)) : Prop :=
  Reflects w b true block block' bareBlock
    (fun _ r => Tactic.AsReadAll r.1 ∧ ⟨.sym .rBrace, r.2⟩ ∈ w.tokens) fun r => Tactic.outlines r.1 ++ [leaf r.2]

theorem mirrors_subgoal {block block' : Parser (List Tactic × Span)} (hblock : ReflectsBlock w true block block')
    {start : Span} (hstart : w.Known → start.Opens w.text w.tokens) :
    let step (terms : Level) (block : Parser (List Tactic × Span)) (start : Span) : Parser Tactic := do
      let bound ← distance terms
      let target ← if ← sees (.keyword .with_) then
          discard next
          Target.changed <$> replacements terms
        else
          Target.expr <$> terms.assign
      let (proof, stop) ← block
      return .subgoal (start.join stop) bound target proof
    Mirrors w ⟨m, start.offset, []⟩ (step terms block start) (step other block' start) (step terms block .nowhere)
      (fun _ => Via w Tactic.bare Tactic.AsRead) true fun t => ⟨true, start.offset, [t.outline]⟩ := by
  refine (mirrors_distance h).via fun _ bound hbound => ?_
  let rest (block : Parser (List Tactic × Span)) (start : Span) (bound : Option Bound) (target : Target) :
      Parser Tactic := do
    let (proof, stop) ← block
    return .subgoal (start.join stop) bound target proof
  have hrest (target : Target) (htarget : w.Known → target.AsRead) :
      Mirrors w ⟨true, start.offset, bound.toList.map Bound.outline ++ target.parts⟩
        (rest block start bound target) (rest block' start bound target)
        (rest block .nowhere (bound.map Bound.bare) target.bare)
        (fun _ => Via w Tactic.bare Tactic.AsRead) false fun t => ⟨true, start.offset, [t.outline]⟩ := by
    refine hblock.via fun _ r hr => ?_
    refine mirrors_pure ⟨rfl, fun hw => ⟨hbound hw, htarget hw, (hr hw).1⟩⟩ ?_
    rw [← List.append_assoc]
    refine yields_fromHere hstart (fun hw => (hr hw).2) fun hw hle => ?_
    rw [Tactic.parts, closing_join hw (hr hw).2 hle]
  refine (looks_sees _).same fun isWith => ?_
  cases isWith with
  | true =>
    refine mirrors_next.then fun _ => ?_
    have hchanged : Reflects w false false (Target.changed <$> replacements terms) (Target.changed <$> replacements other)
        Target.bare (fun _ => Target.AsRead) Target.parts := 
      (mirrors_replacements h).map (fun _ _ hrs => hrs) (fun _ => rfl) fun _ => rfl
    refine hchanged.via fun _ target htarget => ?_
    exact hrest target htarget
  | false =>
    have hexpr : Reflects w false true (Target.expr <$> terms.assign) (Target.expr <$> other.assign) Target.bare
        (fun _ => Target.AsRead) Target.parts :=
      h.assign.map (fun _ _ he => he) (fun _ => rfl) fun _ => rfl
    refine hexpr.via fun _ target htarget => ?_
    exact hrest target htarget

theorem mirrors_bisim {start : Span} (hstart : w.Known → start.Opens w.text w.tokens) :
    let step (terms : Level) (start : Span) : Parser Tactic := do
      if ← accept .lBrace then
        let clauses ← bisimClauses terms
        let stop ← sym .rBrace
        return .bisim (start.join stop) (some clauses)
      else
        stepEnd start (.bisim · none)
    Mirrors w ⟨true, start.offset, []⟩ (step terms start) (step other start) (step terms .nowhere)
      (fun _ => Via w Tactic.bare Tactic.AsRead) false fun t => ⟨true, start.offset, [t.outline]⟩ := by
  refine (mirrors_accept _).same fun _ given => ?_
  cases given with
  | true =>
    refine (mirrors_many (List.map BisimClause.outline) _ (mirrors_bisimClause h)).via fun _ clauses hclauses => ?_
    refine (mirrors_sym _).via fun _ stop hstop => ?_
    exact mirrors_pure ⟨rfl, by simpa [Tactic.AsRead] using hclauses⟩
      (yields_fromHere hstart hstop fun _ _ => List.sublist_append_left ..)
  | false =>
    simp only [Bool.false_eq_true, if_false]
    refine mirrors_stepEnd hstart (fun s => ⟨rfl, fun _ => ?_⟩) fun _ => rfl
    simp [Tactic.AsRead]

theorem mirrors_tactic {block block' : Parser (List Tactic × Span)} (hblock : ReflectsBlock w true block block') :
    Reflects w false true (tactic terms block) (tactic other block') Tactic.bare (fun _ => Tactic.AsRead)
      fun t => [t.outline] := by
  intro m n _
  refine mirrors_here (b := true) (o := fun t : Tactic => [t.outline]) fun start hstart => ?_
  refine looks_peek.same fun k => ?_
  split
  · exact mirrors_subgoal h hblock hstart
  · refine mirrors_next.then fun _ => ?_
    exact mirrors_stepEnd hstart (fun s => ⟨rfl, fun _ => trivial⟩) fun _ => rfl
  · refine mirrors_next.then fun _ => ?_
    exact mirrors_stepEnd hstart (fun s => ⟨rfl, fun _ => trivial⟩) fun _ => rfl
  · refine mirrors_next.then fun _ => ?_
    exact mirrors_stepEnd hstart (fun s => ⟨rfl, fun _ => trivial⟩) fun _ => rfl
  · refine mirrors_next.then fun _ => ?_
    exact mirrors_stepEnd hstart (fun s => ⟨rfl, fun _ => trivial⟩) fun _ => rfl
  · refine mirrors_next.then fun _ => ?_
    exact mirrors_bisim h hstart
  · refine mirrors_next.then fun _ => ?_
    refine mirrors_ident.via fun _ fact hfact => ?_
    exact mirrors_stepEnd hstart (fun s => ⟨rfl, hfact⟩) fun _ => rfl
  · refine mirrors_next.then fun _ => ?_
    refine (mirrors_sym _).then fun _ => ?_
    refine mirrors_ident.via fun _ fact hfact => ?_
    refine (mirrors_sym _).then fun _ => ?_
    refine h.bound.via fun _ first hfirst => ?_
    refine (mirrors_sym _).then fun _ => ?_
    refine h.bound.via fun _ last hlast => ?_
    refine (mirrors_sym _).then fun _ => ?_
    exact mirrors_stepEnd hstart (fun s => ⟨rfl, fun hw => ⟨hfact hw, hfirst hw, hlast hw⟩⟩) fun _ => rfl
  · refine mirrors_next.then fun _ => ?_
    refine (mirrors_itemsBefore (List.map Ident.outline) _ mirrors_ident).via fun _ xs hxs => ?_
    exact mirrors_stepEnd hstart (fun s => ⟨rfl, hxs⟩) fun _ => rfl
  · refine mirrors_next.then fun _ => ?_
    refine (mirrors_itemsBefore (List.map Ident.outline) _ mirrors_ident).via fun _ xs hxs => ?_
    exact mirrors_stepEnd hstart (fun s => ⟨rfl, hxs⟩) fun _ => rfl
  · exact mirrors_failHere _

/-- A block whose steps have blocks read by `block`. -/
def blockOver (terms : Level) (block : Parser (List Tactic × Span)) : Parser (List Tactic × Span) := do
  discard <| sym .lBrace
  let steps ← manyUntil (.sym .rBrace) (tactic terms block)
  let stop ← sym .rBrace
  return (steps, stop)

theorem mirrors_blockOver {block block' : Parser (List Tactic × Span)} (hblock : ReflectsBlock w true block block') :
    ReflectsBlock w false (blockOver terms block) (blockOver other block') := by
  intro m n _
  refine (mirrors_sym _).then fun _ => ?_
  refine (mirrors_many Tactic.outlines _ (mirrors_tactic h hblock)).via fun _ steps hsteps => ?_
  refine (mirrors_sym _).via fun _ stop hstop => ?_
  exact mirrors_pure ⟨by rw [bareBlock, Tactic.bareList_eq], fun hw =>
    ⟨(Tactic.asReadAll_iff steps).2 (hsteps hw), hstop hw⟩⟩ .rfl

theorem mirrors_proofBlock (k : Nat) : ReflectsBlock w false (proofBlock terms k) (proofBlock other k) := by
  induction k with
  | zero => exact fun _ _ _ => mirrors_fail_nowhere _ _
  | succ k ih => exact mirrors_blockOver h fun m n _ => ih m n

omit h in
/-- Levels of proofs that there are no tokens for make no difference. -/
theorem mirrors_proofBlock_full {k l : Nat} (hk : w.tokens.length < k) (hl : w.tokens.length < l) :
    ReflectsBlock w false (proofBlock .full k) (proofBlock .full l) := by
  induction k generalizing w l with
  | zero => cases hk
  | succ k ih =>
    obtain ⟨l, rfl⟩ : ∃ n, l = n + 1 := ⟨l - 1, by omega⟩
    refine mirrors_blockOver (Level.tied_full (Nat.le_refl _)).left (.widen fun ts hts hlt => ?_)
    exact (ih (w := w.suffix ts hts) (by change ts.length < k; omega) (by change ts.length < l; omega)).mono
      fun _ _ hr => ⟨hr.1, hts.subset hr.2⟩

end

/-- A proof in braces, with blocks in it to any depth. -/
def block : Parser (List Tactic × Span) :=
  atLength fun n => proofBlock .full (n + 1)

/-- **The blocks in a block are read as it is.** -/
theorem block_eq : block = blockOver .full block := by
  funext i
  have hrest : ReflectsBlock (.ofInput i) true block (proofBlock .full i.rest.length) := by
    refine .widen fun ts hts hlt => .atLength ((mirrors_proofBlock_full (w := Setting.suffix _ ts hts) hlt hlt).mono
      fun _ _ hr => ⟨hr.1, hts.subset hr.2⟩) fun j hj => ?_
    exact (mirrors_proofBlock_full (w := .ofInput j) (Nat.lt_succ_self _) (Nat.lt_of_le_of_lt hj hlt)).run_eq
  exact (mirrors_blockOver (Level.tied_full (Nat.le_refl _)).left hrest).run_eq

theorem theoremItem_full : theoremItem .full = do
    let start ← keyword .theorem_
    let fact ← statement .full
    let (proof, stop) ← block
    return ⟨start.join stop, fact, proof⟩ :=
  rfl

/-! ## Items -/

theorem mirrors_importItem : Reflects w false true importItem importItem Import.bare
    (fun _ i => i.path ≠ [] ∧ ∀ x ∈ i.path, x.Legible) fun i => [(Item.imported i).outline] := by
  intro m n _
  refine (mirrors_keyword _).via fun _ start _ => ?_
  refine mirrors_ident.via fun _ x hx => ?_
  let more : Parser Ident := do
    discard next
    ident
  have hmore : Reflects w false true more more Ident.bare (fun _ => Ident.Legible) fun x => [x.outline] := by
    intro m n _
    refine mirrors_next.then fun _ => ?_
    exact mirrors_ident.tail fun _ => .rfl
  refine (mirrors_many (List.map Ident.outline) _ hmore).via fun _ xs hxs => ?_
  refine (mirrors_sym _).via fun _ stop _ => ?_
  exact mirrors_pure ⟨rfl, fun hw => ⟨List.cons_ne_nil _ _, List.forall_mem_cons.2 ⟨hx hw, hxs hw⟩⟩⟩
    yields_node_between

theorem mirrors_constantItem : Reflects w false true constantItem constantItem Constant.bare
    (fun _ c => c.name.Legible) fun c => [(Item.constant c).outline] := by
  intro m n _
  refine (mirrors_keyword _).via fun _ start _ => ?_
  refine mirrors_ident.via fun _ x hx => ?_
  refine mirrors_typeAnnotation.same fun _ ty => ?_
  refine (mirrors_sym _).via fun _ stop _ => ?_
  exact mirrors_pure ⟨rfl, hx⟩ yields_node_between

section
include h

theorem mirrors_functionItem : Reflects w false true (functionItem terms) (functionItem other) Function.bare
    (fun _ => Function.AsRead) fun f => [(Item.function f).outline] := by
  intro m n _
  refine mirrors_here (b := true) (o := fun f : Function => [(Item.function f).outline]) fun start hstart => ?_
  refine (mirrors_many (List.map fun t : Token => leaf t.span) _ mirrors_next).via fun _ modifiers _ => ?_
  refine Mirrors.from ?_ (yields_sublist (List.nil_sublist _))
  refine (mirrors_keyword _).then fun _ => ?_
  refine mirrors_ident.via fun _ x hx => ?_
  refine mirrors_params.via fun _ ps hps => ?_
  refine mirrors_typeAnnotation.same fun _ ty => ?_
  simp only [List.any_map, Function.comp_def]
  refine (looks_sees _).same fun abstract => ?_
  cases abstract with
  | true =>
    refine (mirrors_sym _).via fun _ stop hstop => ?_
    refine mirrors_pure ⟨rfl, fun hw => ⟨hx hw, hps hw, by simp⟩⟩ (yields_fromHere hstart hstop fun _ _ => ?_)
    simp
  | false =>
    refine (mirrors_sym _).then fun _ => ?_
    refine h.expr.via fun _ body hbody => ?_
    refine (mirrors_sym _).via fun _ stop hstop => ?_
    exact mirrors_pure ⟨rfl, fun hw => ⟨hx hw, hps hw, by simpa using hbody hw⟩⟩
      (yields_fromHere hstart hstop fun _ _ => List.sublist_append_left ..)

theorem mirrors_postulateItem : Reflects w false true (postulateItem terms) (postulateItem other) Postulate.bare
    (fun _ p => p.claim.AsRead .lowest) fun p => [(Item.postulate p).outline] := by
  intro m n _
  refine (mirrors_keyword _).via fun _ start _ => ?_
  refine h.formula.via fun _ p hp => ?_
  refine (mirrors_sym _).via fun _ stop _ => ?_
  exact mirrors_pure ⟨rfl, hp⟩ yields_node_between

theorem mirrors_theoremItem : Reflects w false true (theoremItem terms) (theoremItem other) Theorem.bare
    (fun _ => Theorem.AsRead) fun t => [(Item.proved t).outline] := by
  intro m n _
  refine (mirrors_keyword _).via fun _ start _ => ?_
  refine (mirrors_statement h).via fun _ s hs => ?_
  refine looks_remaining.same fun k => ?_
  refine (mirrors_proofBlock h _).via fun _ r hr => ?_
  refine mirrors_pure ⟨rfl, fun hw => ⟨hs hw, (hr hw).1⟩⟩ (yields_of_spread fun hw _ hread => ?_)
  rw [← List.append_assoc] at hread
  have hle : start.Upto r.2 := hread.upto_last (leaf start) (by simp)
  simp only [Item.outline]
  rw [closing_join hw (hr hw).2 hle]
  exact hread.node_last (o := leaf start) (l := leaf r.2) (List.sublist_cons_self ..)

omit h in
theorem Reflects.item {α : Type} {g : α → Item} {p p' : Parser α} {f : α → α} {P : List TokenKind → α → Prop}
    (h : Reflects w false true p p' f P fun a => [(g a).outline]) (hP : ∀ ks a, P ks a → (g a).AsRead)
    (hf : ∀ a, g (f a) = (g a).bare) :
    Mirrors w ⟨m, n, []⟩ (g <$> p) (g <$> p') (g <$> p) (fun _ => Via w Item.bare Item.AsRead) true
      fun i => ⟨true, n, [i.outline]⟩ :=
  have hmap : Reflects w false true (g <$> p) (g <$> p') Item.bare (fun _ => Item.AsRead)
    fun i => [i.outline] := h.map hP hf fun _ => rfl
  hmap m n

theorem mirrors_item : Reflects w false true (item terms) (item other) Item.bare (fun _ => Item.AsRead)
    fun i => [i.outline] := by
  intro m n _
  refine looks_peek.same fun k => ?_
  split
  · exact mirrors_importItem.item (fun _ _ hi => hi) fun _ => rfl
  · exact mirrors_constantItem.item (fun _ _ hc => hc) fun _ => rfl
  · exact (mirrors_functionItem h).item (fun _ _ hf => hf) fun _ => rfl
  · exact (mirrors_functionItem h).item (fun _ _ hf => hf) fun _ => rfl
  · exact (mirrors_functionItem h).item (fun _ _ hf => hf) fun _ => rfl
  · exact (mirrors_postulateItem h).item (fun _ _ hp => hp) fun _ => rfl
  · exact (mirrors_theoremItem h).item (fun _ _ ht => ht) fun _ => rfl
  · refine mirrors_next.then fun _ => ?_
    refine (mirrors_statement h).via fun _ s hs => ?_
    refine (mirrors_sym _).then fun _ => ?_
    exact mirrors_pure ⟨rfl, hs⟩ .rfl
  · exact mirrors_failHere _

/-- **The parser of developments mirrors itself and gives developments as read.** -/
theorem mirrors_development : Reflects w false false (development terms) (development other) Development.bare
    (fun _ => Development.AsRead) (List.map Item.outline) :=
  mirrors_many _ _ (mirrors_item h)

end

end

end Parser

open GameHop.Parser

theorem Development.faithful : Faithful false development bare AsRead (List.map Item.outline) :=
  fun _ _ h => mirrors_development h

theorem Development.asRead_of_parse {source : String} {d : Development} (h : parse source = .ok d) : d.AsRead :=
  (faithful.ok_of_readSource h).1

end GameHop
