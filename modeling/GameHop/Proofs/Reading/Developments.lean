import GameHop.Proofs.Reading.DevelopmentRuns
import GameHop.Proofs.Reading.Terms

/-!
Developments are read back from their layouts: **the parser reads the layout of a development as read as
the development without its places** (`Development.AsRead.run_development`).
-/

namespace GameHop

open GameHop.Parser

namespace Parser

@[simp] theorem run_here (ks : List TokenKind) :
    Runs here ks .nowhere ks := by
  cases ks <;> rfl

/-- No expression begins with a bracket or with `with`. -/
theorem run_assign_error {k : TokenKind} (hk : k = .sym .lBracket ∨ k = .keyword .with_) (ks : List TokenKind) :
    ∃ e, StateT.run Level.full.assign (bareInput (k :: ks)) = .error e := by
  rw [Level.full_assign]
  rcases hk with rfl | rfl <;> exact ⟨_, rfl⟩

/-- Items up to a token that begins none. -/
theorem run_manyUntil {α ι : Type} {p : Parser α} {l : ι → Layout} {f : ι → α} {xs : List ι} {stop : TokenKind}
    (h : ∀ x ∈ xs, Reads p (fun _ => True) (l x) (f x)) (hl : ∀ x ∈ xs, ∃ k ks, (l x).kinds = k :: ks ∧ k ≠ stop)
    (rs : List TokenKind) :
    Runs (manyUntil stop p) (xs.flatMap (fun x => (l x).kinds) ++ stop :: rs) (xs.map f) (stop :: rs) := by
  refine run_many (fun _ => True) (fun x hx => ⟨h x hx, ?_⟩) (stop :: rs) trivial (by simp)
  obtain ⟨k, ks, hk, hne⟩ := hl x hx
  exact ⟨k, ks, hk, by simpa using hne, fun _ => trivial⟩

end Parser

/-! ## Terms -/

section
variable {rs : List TokenKind}

theorem Expr.AsRead.read {least : ExprPrec} {e : Expr} (h : e.AsRead least) : e.Read :=
  e.read h.legible h.holeFree

theorem Expr.AsRead.run_assign {e : Expr} (h : e.AsRead .assign) (depth : Nat) (hrs : Stops exprRank? 1 rs) :
    Runs Level.full.assign ((e.layout depth (.operand .assign)).kinds ++ rs) e.bare rs := by
  rw [← h.spelled]
  exact h.read.run_assign depth hrs

theorem Expr.AsRead.run_body {e : Expr} (h : e.AsRead .lowest) (depth : Nat) (hrs : Stops exprRank? 0 rs) :
    Runs Level.full.expr ((e.layout depth .body).kinds ++ rs) e.bare rs := by
  rw [← h.spelled]
  exact h.read.run_body depth hrs

theorem Formula.AsRead.run_formula {p : Formula} (h : p.AsRead .lowest) (hrs : Stops formulaRank? 0 rs) :
    Runs Level.full.formula ((p.layout .lowest).kinds ++ rs) p.bare rs := by
  rw [← h.spelled]
  exact (p.read h.legible).run_formula hrs

theorem Bound.AsRead.run_bound {b : Bound} (h : b.AsRead .lowest) (hrs : Stops boundRank? 0 rs) :
    Runs Level.full.bound ((b.layout .lowest).kinds ++ rs) b.bare rs := by
  rw [← h.spelled]
  exact (b.read h.legible).run_bound hrs

/-- What an expression does not begin with. -/
theorem Expr.AsRead.head_ne {e : Expr} (h : e.AsRead .assign) (depth : Nat) {k : TokenKind}
    (hk : k = .sym .lBracket ∨ k = .keyword .with_) (rs : List TokenKind) :
    ((e.layout depth (.operand .assign)).kinds ++ rs).head? ≠ some k := by
  obtain ⟨l, ls, hkinds, -⟩ := h.read.opens depth (.operand .assign)
  have hrun := h.run_assign depth (stops_nil : Stops exprRank? 1 [])
  obtain ⟨err, herr⟩ := run_assign_error hk ls
  rw [hkinds] at hrun ⊢
  rintro ⟨⟩
  rw [Runs, List.append_nil, herr] at hrun
  cases hrun

/-! ## Facts -/

theorem run_distance {bound : Option Bound} (h : ∀ b ∈ bound, b.AsRead .lowest)
    (hrs : rs.head? ≠ some (.sym .lBracket)) :
    Runs (distance .full) ((Layout.distance bound).kinds ++ rs) (bound.map Bound.bare) rs := by
  cases bound with
  | none => simp [distance, Layout.distance, run_accept_of_ne hrs]
  | some b => simp [distance, Layout.distance, (h b rfl).run_bound]

theorem Statement.AsRead.run_statement {s : Statement} (h : s.AsRead) (hrs : Stops exprRank? 1 rs) :
    Runs (statement .full) (s.layout.kinds ++ rs) s.bare rs := by
  have hbound := run_distance h.bound (h.right.head_ne 0 (.inl rfl) rs)
  have hstops : Stops exprRank? 1 ((Layout.distance s.bound).kinds ++
      ((s.right.layout 0 (.operand .assign)).kinds ++ rs)) := by
    cases s.bound <;> simp [Layout.distance, exprRank?]
  simp [statement, layout, run_params, h.left.run_assign 0 hstops, hbound, h.right.run_assign 0 hrs, bare,
    Ident.bare]

/-! ## Bisimulations -/

theorem reads_bisimScope (s : BisimScope) : Reads bisimScope (fun _ => True) s.layout s.bare := by
  intro rs _
  cases s with
  | invariant => simp [bisimScope, BisimScope.layout, BisimScope.bare, Ident.plain]
  | checkpoint left right =>
    simp [bisimScope, parens, BisimScope.layout, BisimScope.bare, Ident.plain, Ident.bare,
      Layout.kinds_commas_cons, Layout.kinds_commas_singleton]

theorem run_bisimScopes (s : BisimScope) (ss : List BisimScope) (rs : List TokenKind) :
    Runs (items bisimScope)
      ((Layout.commas ((s :: ss).map BisimScope.layout)).kinds ++ .sym .colon :: rs)
      ((s :: ss).map BisimScope.bare) (.sym .colon :: rs) := by
  refine run_items (fun _ => True) s (fun s _ => ⟨reads_bisimScope s, ?_⟩) .colon rs (by simp) (by simp) (by simp)
  cases s <;> exact ⟨_, _, rfl, rfl⟩

/-- Scopes look like scopes. -/
theorem startsScope_scopes (s : BisimScope) (ss : List BisimScope) (rs : List TokenKind) :
    startsScope ((Layout.commas ((s :: ss).map BisimScope.layout)).kinds ++ .sym .colon :: rs) =
      true := by
  cases s <;> cases ss <;> rfl

theorem BisimClause.AsRead.reads {c : BisimClause} (h : c.AsRead) :
    Reads (bisimClause .full) (fun _ => True) c.layout c.bare := by
  intro rs _
  obtain ⟨span, scopes, claim⟩ := c
  have hclaim : Runs Level.full.formula _ _ (.sym .semi :: rs) := h.claim.run_formula (by simp [formulaRank?])
  cases scopes with
  | nil =>
    have hscope := claim.startsScope_layout (h.head rfl) .lowest (.sym .semi :: rs)
      (by simp [FollowsName])
    simp [bisimClause, layout, run_atBisimScope, kinds_bareInput, hscope, hclaim,
      bare]
  | cons scope scopes =>
    have hscope := startsScope_scopes scope scopes
      ((claim.layout .lowest).kinds ++ .sym .semi :: rs)
    have hscopes := run_bisimScopes scope scopes
      ((claim.layout .lowest).kinds ++ .sym .semi :: rs)
    rw [List.map_cons] at hscope hscopes
    simp [bisimClause, layout, run_atBisimScope, kinds_bareInput, hscope, hscopes,
      hclaim, bare]

theorem BisimClause.AsRead.opens {c : BisimClause} (h : c.AsRead) : Opens c.layout := by
  obtain ⟨span, scopes, claim⟩ := c
  cases scopes with
  | nil =>
    obtain ⟨k, ks, hk, hopen⟩ := ((claim.read h.claim.legible) .lowest).plain.opens
    exact ⟨k, ks ++ [.sym .semi], by simp [layout, hk], hopen⟩
  | cons scope scopes => cases scope <;> cases scopes <;> exact ⟨_, _, rfl, rfl⟩

theorem run_bisimClauses {cs : List BisimClause} (h : ∀ c ∈ cs, c.AsRead) (rs : List TokenKind) :
    Runs (bisimClauses .full) (cs.flatMap (fun c => c.layout.kinds) ++ .sym .rBrace :: rs)
      (cs.map BisimClause.bare) (.sym .rBrace :: rs) := by
  refine run_manyUntil (fun c hc => (h c hc).reads) (fun c hc => ?_) rs
  obtain ⟨k, ks, hk, hopen⟩ := (h c hc).opens
  exact ⟨k, ks, hk, by rintro rfl; cases hopen⟩

/-! ## Targets -/

theorem Replacement.AsRead.reads {r : Replacement} (h : r.AsRead) (depth : Nat) : Reads (do
      if ← sees (.keyword .new_) then
        let start ← keyword .new_
        let fields ← Level.full.fields
        return Replacement.fields (start.join (← prevSpan)) fields
      else
        return Replacement.method (← Level.full.method)) (fun _ => True) (r.layout depth) r.bare := by
  intro rs _
  cases r with
  | fields s fs =>
    have hfields := Field.run_fields depth (fun f hf => (h f hf).value.read) rs
    rw [Field.spelledList_asRead h, Field.bareList_eq] at hfields
    simp only [layout, bare, Layout.kinds_append, Layout.kinds_word, Layout.kinds_parens]
    simp [hfields]
    exact fun _ _ => rfl
  | method m =>
    have hmethod := Method.reads_method depth (Method.AsRead.body h).read rs trivial
    obtain ⟨ks, hks⟩ := m.head_layout depth
    rw [hks, List.cons_append, (Method.AsRead.body h).spelled] at hmethod
    simp [layout, bare, hks, hmethod, Method.bare]

theorem run_replacements {changes : List Replacement} (hne : changes ≠ [])
    (h : ∀ r ∈ changes, r.AsRead) (depth : Nat) (rs : List TokenKind) :
    Runs (replacements .full) (changes.flatMap (fun r => (r.layout depth).kinds) ++ .sym .lBrace :: rs)
      (changes.map Replacement.bare) (.sym .lBrace :: rs) := by
  have hstart (r : Replacement) : GoesOn
      (fun k => k == some (.keyword .new_) || k == some (.keyword .method_)) (fun _ => True) (r.layout depth) := by
    cases r with
    | fields s fs => exact ⟨_, _, rfl, rfl, fun _ => trivial⟩
    | method m =>
      obtain ⟨ks, hks⟩ := m.head_layout depth
      exact ⟨_, ks, hks, rfl, fun _ => trivial⟩
  have hmany := run_many _ (fun r hr => ⟨(h r hr).reads depth, hstart r⟩) (.sym .lBrace :: rs) trivial rfl
  rw [Runs, replacements, StateT.run_bind, hmany, ok_bind]
  simp [hne]

theorem Target.kinds_layout_changed (depth : Nat) (changes : List Replacement) :
    (layout depth (.changed changes)).kinds =
      .keyword .with_ :: changes.flatMap fun r => (r.layout depth).kinds := by
  have hkinds : Layout.kinds (changes.map fun c => Layout.space ++ c.layout depth).flatten =
      changes.flatMap fun r => (r.layout depth).kinds := by
    induction changes with
    | nil => rfl
    | cons c changes ih => simp [ih]
  simp [layout, hkinds]

theorem Target.AsRead.head_ne {t : Target} (h : t.AsRead) (depth : Nat) (rs : List TokenKind) :
    ((t.layout depth).kinds ++ rs).head? ≠ some (.sym .lBracket) := by
  cases t with
  | expr e => exact Expr.AsRead.head_ne h depth (.inl rfl) rs
  | changed changes => simp [kinds_layout_changed]

/-! ## Steps -/

theorem Layout.kinds_named (k : Keyword) (xs : List Ident) :
    (named k xs).kinds = .keyword k :: ((idents xs).kinds ++ [.sym .semi]) := by
  cases xs with
  | nil => rfl
  | cons x xs => simp [named]

/-- No step begins with a closing brace. -/
theorem Tactic.head_layout (t : Tactic) (depth : Nat) :
    ∃ k ks, (t.layout depth).kinds = k :: ks ∧ k ≠ .sym .rBrace := by
  cases t with
  | subgoal s bound target proof => cases bound <;> exact ⟨_, _, rfl, by simp⟩
  | bisim s clauses => cases clauses <;> exact ⟨_, _, rfl, by simp⟩
  | unfold s xs => exact ⟨_, _, Layout.kinds_named .unfold_ xs, by simp⟩
  | inline s xs => exact ⟨_, _, Layout.kinds_named .inline_ xs, by simp⟩
  | _ => exact ⟨_, _, rfl, by simp⟩

theorem Tactic.layouts_eq (depth : Nat) (ts : List Tactic) : layouts depth ts = ts.map (layout depth) := by
  induction ts with
  | nil => rfl
  | cons t ts ih => exact congrArg (t.layout depth :: ·) ih

theorem run_block {proof : List Tactic} (depth : Nat)
    (h : ∀ t ∈ proof, Reads (tactic .full block) (fun _ => True) (t.layout depth) t.bare) (rs : List TokenKind) :
    Runs block (.sym .lBrace :: ((Tactic.layouts depth proof).flatMap Layout.kinds ++ .sym .rBrace :: rs))
      (Tactic.bareList proof, .nowhere) rs := by
  have hsteps := run_manyUntil h (fun t _ => t.head_layout depth) rs
  rw [block_eq, Tactic.layouts_eq, List.flatMap_map, Tactic.bareList_eq]
  simp [blockOver, hsteps]

theorem run_subgoal (span : Span) {bound : Option Bound} {target : Target} {proof : List Tactic}
    (depth : Nat) (hbound : ∀ b ∈ bound, b.AsRead .lowest) (htarget : target.AsRead)
    (hproof : ∀ t ∈ proof, Reads (tactic .full block) (fun _ => True) (t.layout (depth + 1)) t.bare) :
    Reads (tactic .full block) (fun _ => True) (Tactic.layout depth (.subgoal span bound target proof))
      (Tactic.subgoal span bound target proof).bare := by
  intro rs _
  have hblock := run_block (depth + 1) hproof rs
  obtain ⟨tail, htail⟩ : ∃ tail, tail = .sym .lBrace ::
      ((Tactic.layouts (depth + 1) proof).flatMap Layout.kinds ++ .sym .rBrace :: rs) := ⟨_, rfl⟩
  have hkinds : (Tactic.layout depth (.subgoal span bound target proof)).kinds ++ rs =
      (Layout.distance bound).kinds ++ ((target.layout depth).kinds ++ tail) := by
    simp [Tactic.layout, htail]
  have hdistance := run_distance hbound (htarget.head_ne depth tail)
  obtain ⟨ks, hks⟩ : ∃ ks, (Layout.distance bound).kinds = .sym .tilde :: ks := by
    cases bound <;> exact ⟨_, rfl⟩
  rw [hkinds, hks, List.cons_append]
  rw [hks, List.cons_append] at hdistance
  rw [← htail] at hblock
  simp only [Runs, tactic, StateT.run_bind, run_here, ok_bind, run_peek, List.head?_cons, hdistance,
    run_sees]
  cases target with
  | expr e =>
    have hassign := Expr.AsRead.run_assign htarget depth (show Stops exprRank? 1 tail by simp [htail, exprRank?])
    have hwith := Expr.AsRead.head_ne htarget depth (.inr rfl) tail
    simp only [Target.layout, beq_false_of_ne hwith]
    simp [hassign, hblock, Tactic.bare, Target.bare]
  | changed changes =>
    have hchanges := run_replacements htarget.1 htarget.2 depth
      ((Tactic.layouts (depth + 1) proof).flatMap Layout.kinds ++ .sym .rBrace :: rs)
    rw [← htail] at hchanges
    simp [Target.kinds_layout_changed, hchanges, hblock, Tactic.bare, Target.bare]

mutual

/-- **A step of a proof is read from its layout.** -/
theorem Tactic.reads : ∀ (t : Tactic), t.AsRead → ∀ depth : Nat,
    Reads (tactic .full block) (fun _ => True) (t.layout depth) t.bare
  | .subgoal span _ _ proof, h, depth =>
    run_subgoal span depth h.1 h.2.1 (Tactic.readsAll proof h.2.2 (depth + 1))
  | .symmetry _, _, _ | .giveUp _, _, _ | .trivial _, _, _ | .auto _, _, _ =>
    fun rs _ => by simp [tactic, stepEnd, layout, bare]
  | .bisim _ none, _, _ => fun rs _ => by
    have hend : Runs (accept .lBrace) (.sym .semi :: rs) _ _ :=
      run_accept_of_ne (by simp)
    simp [tactic, stepEnd, layout, bare, hend]
  | .bisim _ (some clauses), h, depth => fun rs _ => by
    simp [tactic, layout, bare, List.flatMap_map, run_bisimClauses (h clauses rfl)]
  | .rewrite _ _, _, _ => fun rs _ => by
    simp [tactic, stepEnd, layout, bare, Ident.bare]
  | .hybrid _ fact start stop, h, depth => fun rs _ => by
    simp [tactic, stepEnd, layout, bare, Ident.bare, Layout.kinds_commas_cons,
      Layout.kinds_commas_singleton, h.2.1.run_bound, h.2.2.run_bound]
  | .unfold _ names, _, _ | .inline _ names, _, _ => fun rs _ => by
    simp [tactic, stepEnd, layout, bare, Layout.kinds_named, run_idents .semi names _ rfl (by simp)]

theorem Tactic.readsAll : ∀ (ts : List Tactic), Tactic.AsReadAll ts → ∀ depth : Nat,
    ∀ t ∈ ts, Reads (tactic .full block) (fun _ => True) (t.layout depth) t.bare
  | [], _, _ => List.forall_mem_nil _
  | t :: ts, h, depth => List.forall_mem_cons.2 ⟨t.reads h.1 depth, Tactic.readsAll ts h.2 depth⟩

end

/-! ## Items -/

theorem run_typeAnnotation (ty : Option Ty) {rs : List TokenKind}
    (hrs : rs.head? ≠ some (.sym .colon)) :
    Runs typeAnnotation (( Layout.typeAnnotation ty).kinds ++ rs) ty rs := by
  cases ty with
  | none =>
    have hend := run_accept_of_ne hrs
    simp [hend, typeAnnotation, Layout.typeAnnotation]
  | some ty =>
    have hty : Ty.ofKeyword? ty.keyword = some ty := by cases ty <;> rfl
    simp [hty, typeAnnotation, Layout.typeAnnotation, Ident.plain]

theorem Layout.kinds_dotted (x : Ident) (xs : List Ident) :
    (dotted (x :: xs)).kinds = .ident x.name :: xs.flatMap fun y => [.sym .dot, .ident y.name] := by
  induction xs generalizing x with
  | nil => rfl
  | cons y ys ih => simp [dotted, ih]

theorem run_importItem (s : Span) (x : Ident) (xs : List Ident) (rs : List TokenKind) :
    Runs importItem (.keyword .import_ :: ((Layout.dotted (x :: xs)).kinds ++ .sym .semi :: rs))
      (Import.bare ⟨s, x :: xs⟩) rs := by
  have hone (y : Ident) : Reads (do discard next; ident) (fun _ => True)
      (Layout.sym .dot ++ Layout.ident y.name) y.bare := fun rs _ => by simp [Ident.bare]
  have hmany : Runs (many (· == some (.sym .dot)) _) _ _ _ := run_many _
    (fun y (_ : y ∈ xs) => ⟨hone y, _, _, rfl, rfl, fun _ => trivial⟩) (.sym .semi :: rs) trivial rfl
  simp only [Layout.kinds_append, Layout.kinds_sym, Layout.kinds_ident, List.singleton_append] at hmany
  simp [importItem, Layout.kinds_dotted, hmany, Import.bare, Ident.bare]

/-- The words before `function`. -/
def Function.modifiers (f : Function) : List Keyword :=
  (if f.isPure then [.pure_] else []) ++ if f.isStatic then [.static_] else []

theorem Function.kinds_layout (f : Function) :
    f.layout.kinds = f.modifiers.flatMap (fun k => [.keyword k]) ++ .keyword .function_ ::
      .ident f.name.name :: ((Layout.formals f.params).kinds ++
        (( Layout.typeAnnotation f.result).kinds ++ match f.body with
          | none => [.sym .semi]
          | some body => .sym .lBrace :: ((body.layout 1 .body).kinds ++ [.sym .rBrace]))) := by
  obtain ⟨s, x, isPure, isStatic, ps, result, body⟩ := f
  cases isPure <;> cases isStatic <;> cases body <;> simp [layout, modifiers]

theorem Function.head_layout (f : Function) :
    ∃ k ks, f.layout.kinds = .keyword k :: ks ∧ (k = .pure_ ∨ k = .static_ ∨ k = .function_) := by
  rw [kinds_layout, modifiers]
  cases f.isPure with
  | true => exact ⟨_, _, rfl, .inl rfl⟩
  | false =>
    cases f.isStatic with
    | true => exact ⟨_, _, rfl, .inr (.inl rfl)⟩
    | false => exact ⟨_, _, rfl, .inr (.inr rfl)⟩

theorem run_modifiers (f : Function) (rs : List TokenKind) :
    Runs (many isModifier next)
      (f.modifiers.flatMap (fun k => [.keyword k]) ++ .keyword .function_ :: rs)
      (f.modifiers.map fun k => ⟨.keyword k, .nowhere⟩) (.keyword .function_ :: rs) := by
  have hmodifier : ∀ k ∈ f.modifiers, isModifier (some (.keyword k)) = true := by
    unfold Function.modifiers
    cases f.isPure <;> cases f.isStatic <;> decide
  exact run_many (l := Layout.word) (fun _ => True)
    (fun k hk => ⟨fun rs _ => by simp, _, _, rfl, hmodifier k hk, fun _ => trivial⟩) _ trivial rfl

theorem Function.AsRead.run_functionItem {f : Function} (h : f.AsRead) (rs : List TokenKind) :
    Runs (functionItem .full) (f.layout.kinds ++ rs) f.bare rs := by
  have hpure : (f.modifiers.any fun k => TokenKind.keyword k == .keyword .pure_) = f.isPure := by
    unfold modifiers
    cases f.isPure <;> cases f.isStatic <;> rfl
  have hstatic : (f.modifiers.any fun k => TokenKind.keyword k == .keyword .static_) =
      f.isStatic := by
    unfold modifiers
    cases f.isPure <;> cases f.isStatic <;> rfl
  rw [kinds_layout]
  have hmodifiers := run_modifiers f
  have hparams := run_params f.params
  cases hbody : f.body with
  | none =>
    have hsemi : (TokenKind.sym .semi :: rs).head? ≠ some (.sym .colon) := by simp
    have hty := run_typeAnnotation f.result hsemi
    simp [functionItem, hmodifiers, hparams, hty, hpure, hstatic, bare, hbody, Ident.bare,
      Function.comp_def]
  | some body =>
    have hbrace : (TokenKind.sym .lBrace ::
        ((body.layout 1 .body).kinds ++ .sym .rBrace :: rs)).head? ≠ some (.sym .colon) := by simp
    have hty := run_typeAnnotation f.result hbrace
    simp [functionItem, hmodifiers, hparams, hty, (h.body body hbody).run_body 1, hpure, hstatic, bare, hbody,
      Ident.bare, Function.comp_def]

theorem Item.AsRead.reads {i : Item} (h : i.AsRead) : Reads (item .full) (fun _ => True) i.layout i.bare := by
  intro rs _
  cases i with
  | imported i =>
    obtain ⟨s, _ | ⟨x, xs⟩⟩ := i
    · exact absurd rfl h.1
    · simp [item, layout, bare, run_importItem s x xs]
  | constant c =>
    have hsemi : (TokenKind.sym .semi :: rs).head? ≠ some (.sym .colon) := by simp
    have hty := run_typeAnnotation c.ty hsemi
    simp [item, constantItem, layout, bare, Constant.bare, Ident.bare, hty]
  | function f =>
    have hfunction := h.run_functionItem rs
    obtain ⟨k, ks, hks, hk⟩ := f.head_layout
    rw [hks, List.cons_append] at hfunction
    rw [layout, hks, List.cons_append]
    rcases hk with rfl | rfl | rfl <;> simp [item, hfunction, bare]
  | postulate p =>
    have hclaim : Runs Level.full.formula _ _ (.sym .semi :: rs) :=
      Formula.AsRead.run_formula h (by simp [formulaRank?])
    simp [item, postulateItem, layout, bare, Postulate.bare, hclaim]
  | proved t =>
    have hstatement := h.statement.run_statement (show Stops exprRank? 1 (.sym .lBrace ::
      ((Tactic.layouts 1 t.proof).flatMap Layout.kinds ++ .sym .rBrace :: rs)) by simp [exprRank?])
    have hproof := run_block 1 (Tactic.readsAll t.proof h.proof 1) rs
    simp [item, theoremItem_full, layout, hstatement, hproof, bare, Theorem.bare]
  | assumed s =>
    have hstatement := Statement.AsRead.run_statement h (show Stops exprRank? 1 (.sym .semi :: rs) by simp [exprRank?])
    simp [item, layout, bare, hstatement]

theorem Item.head_layout (i : Item) : ∃ k ks, i.layout.kinds = k :: ks ∧ k ≠ .eof := by
  cases i with
  | function f =>
    obtain ⟨k, ks, hks, -⟩ := f.head_layout
    exact ⟨_, ks, hks, by simp⟩
  | _ => exact ⟨_, _, rfl, by simp⟩

theorem Development.kinds_layout (d : Development) :
    d.layout.kinds = d.flatMap fun i => i.layout.kinds := by
  fun_induction layout d with
  | case1 => rfl
  | case2 i => simp
  | case3 i j rest ih => simp [ih]

/-- **A development is read from its layout.** -/
theorem Development.AsRead.run_development {d : Development} (h : d.AsRead) :
    Runs (development .full) (d.layout.kinds ++ [.eof]) d.bare [.eof] := by
  rw [kinds_layout]
  exact run_manyUntil (fun i hi => (h i hi).reads) (fun i _ => i.head_layout) []

end

end GameHop
