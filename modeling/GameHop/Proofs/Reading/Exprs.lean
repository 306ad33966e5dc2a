import GameHop.Proofs.Reading.Grammar

/-!
Expressions that are read from their layouts, one constructor at a time: if the subterms of an expression are read as
what they spell then so is the expression.
-/

namespace GameHop.Parser

open Level

/-! ## The grammar of expressions -/

def exprRank? : TokenKind → Option Nat
  | .sym .lParen | .sym .at_ | .sym .eq => some 10
  | .sym .dot | .sym .lBracket => some 9
  | .sym .star | .sym .slash | .sym .percent => some 8
  | .sym .plus | .sym .minus => some 7
  | .sym .eqEq | .sym .neq | .sym .lt | .sym .le | .sym .gt | .sym .ge => some 6
  | .sym .amp => some 4
  | .sym .pipe => some 3
  | .sym .question => some 2
  | .sym .semi => some 0
  | _ => none

@[simp] theorem exprRank_close : exprRank? (.sym .rParen) = none ∧ exprRank? (.sym .rBracket) = none ∧
    exprRank? (.sym .rBrace) = none ∧ exprRank? (.sym .comma) = none ∧ exprRank? (.sym .colon) = none ∧
    exprRank? (.sym .colonEq) = none := by
  decide

/-- A negation begins no comparison, and the target of an assignment no conditional. -/
def exprs : Grammar Expr where
  rank? := exprRank?
  first? k := if k = .sym .bang then some 6 else none
  second? k := if k = .sym .eq then some 2 else none
  top := 9
  parser
    | 0 => full.sequence
    | 1 => full.assignment
    | 2 => full.conditional
    | 3 => full.disjunction
    | 4 => full.conjunction
    | 5 => full.negated
    | 6 => full.compared
    | 7 => full.sum
    | 8 => full.product
    | _ => full.suffixed
  loop
    | 0 | 1 | 2 | 5 | 6 => .none
    | 3 => .chain fun k => if k == .sym .pipe then some (binaryExpr (.logic .or)) else none
    | 4 => .chain fun k => if k == .sym .amp then some (binaryExpr (.logic .and)) else none
    | 7 => .chain fun k => (addOp? k).map fun op => binaryExpr (.arith op)
    | 8 => .chain fun k => (mulOp? k).map fun op => binaryExpr (.arith op)
    | _ => .suffix full.suffix?
  start := full.primaryFrom
  paren s e := .paren s none e

theorem rank_addOp {k : TokenKind} {op : ArithOp} (h : addOp? k = some op) : exprRank? k = some 7 := by
  unfold addOp? at h
  split at h <;> first | rfl | cases h

theorem rank_mulOp {k : TokenKind} {op : ArithOp} (h : mulOp? k = some op) : exprRank? k = some 8 := by
  unfold mulOp? at h
  split at h <;> first | rfl | cases h

theorem rank_compareOp {k : TokenKind} {op : CmpOp} (h : compareOp? k = some op) : exprRank? k = some 6 := by
  unfold compareOp? at h
  split at h <;> first | rfl | cases h

theorem rank_suffix (e : Expr) {k : TokenKind} {p : Parser Expr} (h : full.suffix? e k = some p) :
    exprRank? k = some 9 := by
  unfold Level.suffix? at h
  split at h <;> first | rfl | cases h

theorem lawful_exprs : exprs.Lawful where
  chain {r op?} h := by
    rcases r with _ | _ | _ | _ | _ | _ | _ | _ | _ | r <;> cases h <;>
      refine ⟨by decide, rfl, fun k combine hk => ?_⟩
    · obtain ⟨hk, -⟩ : k = .sym .pipe ∧ _ := by simpa using hk
      rw [hk]; rfl
    · obtain ⟨hk, -⟩ : k = .sym .amp ∧ _ := by simpa using hk
      rw [hk]; rfl
    · obtain ⟨op, hop, -⟩ := Option.map_eq_some_iff.1 hk
      exact rank_addOp hop
    · obtain ⟨op, hop, -⟩ := Option.map_eq_some_iff.1 hk
      exact rank_mulOp hop
  suffix h := by
    cases h
    exact ⟨rfl, fun a k p hk => rank_suffix a hk⟩
  primary h := by cases h
  loop_top _ := nofun
  loop_lt r hr _ h := by
    rcases r with _ | _ | _ | _ | _ | _ | _ | _ | _ | r <;> cases h
    exact absurd hr (Nat.not_lt.2 (Nat.le_add_left 9 r))
  looser {r ks a rs} _ hl hks hrs h := by
    rcases r with _ | _ | _ | _ | _ | _ | _ | _ | _ | r <;> cases hl <;> simp only [exprs] at h hrs ⊢
    · have hend := run_accept_of_ne (hrs.ne (k := .sym .semi) rfl (by decide))
      simp [Level.sequence, h, hend]
    · obtain ⟨k, ks, rfl, -⟩ := hks.opens
      have hsecond : (k :: ks ++ rs).tail.head? ≠ some (.sym .eq) := by
        cases ks with
        | nil => exact hrs.ne (k := .sym .eq) rfl (by decide)
        | cons l ks => simpa [exprs] using hks.second l
      simp only [Runs, assignment, StateT.run_bind, run_peek, ok_bind, run_peekSecond]
      split
      · rename_i heq
        exact absurd heq hsecond
      · exact h
    · have hend := run_accept_of_ne (hrs.ne (k := .sym .question) rfl (by decide))
      simp [conditional, h, hend]
    · obtain ⟨k, ks, rfl, -⟩ := hks.opens
      have hk : k ≠ .sym .bang := by simpa [exprs] using hks.first k
      rw [List.cons_append] at h ⊢
      simp [negated, hk, h]
    · have hend : rs.head?.bind compareOp? = none := hrs.bind_eq_none fun _ _ => rank_compareOp
      simp [compared, comparison, h, hend]
  start := by
    rw [show exprs.parser 0 = full.expr from full_expr.symm]
    rfl
  second k h := by
    have : k ≠ .sym .eq := by rintro rfl; cases h
    simp [exprs, this]
  first := rfl
  close := rfl

/-- Nothing goes on after an expression at the level of assignments only. -/
theorem Stops.assign {rs : List TokenKind} (h : Stops exprRank? 2 rs) : Stops exprRank? 1 rs := by
  intro k hk r hr
  have hlt := h k hk r hr
  have hne : r ≠ 1 := by
    rintro rfl
    cases k with
    | sym s => cases s <;> cases hr
    | _ => cases hr
  omega

end GameHop.Parser

namespace GameHop

open GameHop.Parser

/-! ## What it is to be read -/

/-- The level that a position asks for. -/
def Position.level : Position → ExprPrec
  | .body => .lowest
  | .operand least => least

/-- Whether the parsers read the layouts of an expression as what it spells. -/
def Expr.Read (e : Expr) : Prop :=
  ∀ depth (position : Position),
    exprs.Reads position.level.rank (e.layout depth position).kinds (e.spelled position.level)

section
variable {e : Expr} {rs : List TokenKind} (h : e.Read) (depth : Nat)
include h

theorem Expr.Read.at (least : ExprPrec) :
    exprs.Reads least.rank (e.layout depth (.operand least)).kinds (e.spelled least) :=
  h depth (.operand least)

theorem Expr.Read.run_expr (hrs : Stops exprRank? 0 rs) :
    Runs Level.full.expr ((e.layout depth (.operand .lowest)).kinds ++ rs) (e.spelled .lowest) rs :=
  Level.full_expr ▸ (h.at depth .lowest).run lawful_exprs hrs

theorem Expr.Read.run_body (hrs : Stops exprRank? 0 rs) :
    Runs Level.full.expr ((e.layout depth .body).kinds ++ rs) (e.spelled .lowest) rs :=
  Level.full_expr ▸ (h depth .body).run lawful_exprs hrs

theorem Expr.Read.run_assign (hrs : Stops exprRank? 1 rs) :
    Runs Level.full.assign ((e.layout depth (.operand .assign)).kinds ++ rs) (e.spelled .assign) rs :=
  Level.full_assign ▸ (h.at depth .assign).run lawful_exprs hrs

theorem Expr.Read.opens (position : Position) : Opens (e.layout depth position) :=
  (h depth position).plain.opens

end

/-- **Reading an expression of a level of its own.** In a position that asks for more the parentheses are read as
    parentheses. -/
theorem Expr.read_of_own {e : Expr} (own : ExprPrec) (a : Expr) (inner : Nat → Position → Layout)
    (hlayout : ∀ depth position, e.layout depth position = position.place own (inner depth position))
    (hspelled : ∀ least : ExprPrec, e.spelled least = least.wrap own a)
    (h : ∀ depth position, exprs.Reads own.rank (inner depth position).kinds a) : e.Read := by
  intro depth position
  rw [hlayout, hspelled]
  cases position with
  | body =>
    simpa [Position.place, Position.level, ExprPrec.wrap, ExprPrec.rank] using
      (h depth .body).loosen lawful_exprs (Nat.zero_le _)
  | operand least => exact (h depth _).place lawful_exprs (by cases least <;> decide)

/-- Reading an expression that never needs parentheses. -/
theorem Expr.read_of_top {e a : Expr}
    (hlayout : ∀ depth position, e.layout depth position = e.layout depth (.operand .lowest))
    (hspelled : ∀ least : ExprPrec, e.spelled least = a)
    (h : ∀ depth, exprs.Reads exprs.top (e.layout depth (.operand .lowest)).kinds a) : e.Read := by
  intro depth position
  rw [hlayout, hspelled]
  exact (h depth).loosen lawful_exprs (by cases position.level <;> decide)

/-- Reading an expression from its first token on. -/
theorem Expr.read_of_start {e : Expr} (k : TokenKind) (ks : Nat → List TokenKind) (build : Span → Expr)
    (hk : opens k = true ∧ exprs.first? k = none)
    (hlayout : ∀ depth position, e.layout depth position = e.layout depth (.operand .lowest))
    (hspelled : ∀ least : ExprPrec, e.spelled least = build .nowhere)
    (hkinds : ∀ depth, (e.layout depth (.operand .lowest)).kinds = k :: ks depth)
    (hsecond : ∀ depth, (ks depth).head? ≠ some (.sym .eq))
    (h : ∀ depth rs, Stops exprRank? 10 rs →
      Runs (Level.full.primaryFrom ⟨k, .nowhere⟩) (ks depth ++ rs) build rs) : e.Read := by
  refine read_of_top hlayout hspelled fun depth => ?_
  rw [hkinds]
  refine Grammar.reads_start lawful_exprs build (fun l hl => ?_) (h depth) hk.1 hk.2
  have : l ≠ .sym .eq := by
    rintro rfl
    exact hsecond depth hl
  simp [exprs, this]

/-! ## Words and parentheses -/

theorem Expr.read_int (s : Span) (v : UInt64) : (int s v).Read :=
  read_of_start (.int v) (fun _ => []) (int · v) ⟨rfl, rfl⟩ (fun _ _ => rfl) (fun _ => rfl) (fun _ => rfl) (by simp) fun _ _ _ => rfl

theorem Expr.read_bool (s : Span) (b : Bool) : (bool s b).Read := by
  cases b with
  | false =>
    exact read_of_start (.keyword .false_) (fun _ => []) (bool · false) ⟨rfl, rfl⟩ (fun _ _ => rfl) (fun _ => rfl) (fun _ => rfl) (by simp) fun _ _ _ => rfl
  | true =>
    exact read_of_start (.keyword .true_) (fun _ => []) (bool · true) ⟨rfl, rfl⟩ (fun _ _ => rfl) (fun _ => rfl) (fun _ => rfl) (by simp) fun _ _ _ => rfl

theorem Expr.read_ellipsis (s : Span) : (ellipsis s).Read :=
  read_of_start (.sym .ellipsis) (fun _ => []) ellipsis ⟨rfl, rfl⟩ (fun _ _ => rfl) (fun _ => rfl) (fun _ => rfl) (by simp) fun _ _ _ => rfl

/-- A name alone is a variable: neither a parenthesis nor the sign of a label follows. -/
theorem Expr.read_lookup (s : Span) (x : Ident) : (lookup s x).Read := by
  refine read_of_start (.ident x.name) (fun _ => []) (lookup · x.bare) ⟨rfl, rfl⟩ (fun _ _ => rfl) (fun _ => rfl) (fun _ => rfl) (by simp) fun _ rs hrs => ?_
  have hparen := hrs.ne (k := .sym .lParen) rfl (by decide)
  have hat := hrs.ne (k := .sym .at_) rfl (by decide)
  simp [Level.primaryFrom, Level.afterIdent]
  rfl

theorem head_ne_eq {l : Layout} (h : Opens l) (rs : List TokenKind) : (l.kinds ++ rs).head? ≠ some (.sym .eq) := by
  obtain ⟨k, ks, hk, ho⟩ := h
  rw [hk, List.cons_append, List.head?_cons, ne_eq, Option.some.injEq]
  rintro rfl
  cases ho

theorem Expr.read_paren (s : Span) (l : Option Ident) {e : Expr} (he : e.Read) : (paren s l e).Read := by
  cases l with
  | none =>
    refine read_of_start (.sym .lParen) (fun depth => (e.layout depth (.operand .lowest)).kinds ++ [.sym .rParen])
      (paren · none (e.spelled .lowest)) ⟨rfl, rfl⟩ (fun _ _ => rfl) (fun _ => rfl)
      (fun depth => by simp [layout, Layout.label]) (fun depth => head_ne_eq (he.opens depth _) _) fun depth rs _ => ?_
    simp [Level.primaryFrom, he.run_expr]
  | some l =>
    refine read_of_start (.ident l.name) (fun depth => .sym .at_ :: (Layout.parens (e.layout depth (.operand .lowest))).kinds)
      (paren · (some l.bare) (e.spelled .lowest)) ⟨rfl, rfl⟩ (fun _ _ => rfl) (fun _ => rfl) (fun _ => rfl) (by simp)
      fun depth rs _ => ?_
    simp [Level.primaryFrom, Level.afterIdent, Parser.parens, he.run_expr]
    rfl

/-- A keyword and an expression in parentheses. -/
theorem Expr.read_unary_word (s : Span) {op : UnaryOp} (k : Keyword) {e : Expr} (he : e.Read)
    (hlayout : ∀ depth position, (unary s op e).layout depth position =
      Layout.word k ++ Layout.parens (e.layout depth (.operand .lowest)))
    (hspelled : ∀ least : ExprPrec, (unary s op e).spelled least = .unary .nowhere op (e.spelled .lowest))
    (hfrom : Level.full.primaryFrom ⟨.keyword k, .nowhere⟩ = do
      let e ← parens Level.full.expr
      return (unary · op e)) : (unary s op e).Read := by
  refine read_of_start (.keyword k) (fun depth => (Layout.parens (e.layout depth (.operand .lowest))).kinds)
    (unary · op (e.spelled .lowest)) ⟨rfl, rfl⟩ (fun depth position => ?_) hspelled (fun depth => ?_) (by simp)
    fun depth rs _ => ?_
  · rw [hlayout, hlayout]
  · simp [hlayout]
  · simp [hfrom, Parser.parens, he.run_expr]

/-! ## Sequences, assignments, conditionals and negations -/

theorem closesSequence_of_opens {k : TokenKind} (h : opens k = true) :
    Level.closesSequence (some k) = false := by
  cases k with
  | sym s => cases s <;> first | rfl | simp [opens] at h
  | eof => simp [opens] at h
  | _ => rfl

/-- Where the tail of a sequence stands: that of a body is a body. -/
def Position.tail : Position → Position
  | .body => .body
  | .operand _ => .operand .lowest

/-- What separates the tail of a sequence from its head. -/
def Position.gap (depth : Nat) : Position → Layout
  | .body => Layout.newline depth
  | .operand _ => Layout.space

@[simp] theorem Position.kinds_gap (depth : Nat) (position : Position) :
    (position.gap depth).kinds = [] := by
  cases position <;> rfl

theorem Expr.read_seq (s : Span) {a b : Expr} (ha : a.Read) (hb : b.Read) :
    (seq s a b).Read := by
  refine read_of_own .lowest _ (fun depth position => a.layout depth (.operand .assign) ++
    Layout.sym .semi ++ position.gap depth ++ b.layout depth position.tail)
    (fun depth position => by cases position <;> rfl) (fun _ => rfl) fun depth position => ?_
  have hplain := ((ha.at depth .assign).plain.mono (Nat.zero_le _)).append (k := .sym .semi) (by simp [exprs])
    (b.layout depth position.tail).kinds
  simp only [Layout.kinds_append, Layout.kinds_sym, Position.kinds_gap, List.append_assoc,
    List.singleton_append]
  refine Grammar.reads_of_run (Nat.zero_le _) rfl hplain fun rs hrs => ?_
  obtain ⟨k, ks, hk, ho⟩ := hb.opens depth position.tail
  have hrest : Runs Level.full.expr ((b.layout depth position.tail).kinds ++ rs) (b.spelled .lowest) rs := by
    cases position with
    | body => exact hb.run_body depth hrs
    | operand => exact hb.run_expr depth hrs
  have hgo := closesSequence_of_opens ho
  have hhead : Runs Level.full.assignment _ _ (.sym .semi :: ((b.layout depth position.tail).kinds ++ rs)) :=
    Level.full_assign ▸ ha.run_assign depth (by simp [exprRank?])
  rw [hk, List.cons_append] at hhead hrest
  simp [exprs, ExprPrec.rank, Level.sequence, hk, hhead, hgo, hrest]

theorem Expr.read_assign (s : Span) (x : Ident) {e : Expr} (he : e.Read) : (assign s x e).Read := by
  refine read_of_own .assign _ (fun depth _ =>
    Layout.infixed (Layout.ident x.name) .eq (e.layout depth (.operand .assign))) (fun _ _ => rfl) (fun _ => rfl)
    fun depth _ => ?_
  refine Grammar.reads_of_run (by decide) rfl ⟨⟨_, _, rfl, rfl⟩, nofun, ?_⟩ fun rs hrs => ?_
  · simp [exprs, ExprPrec.rank]
  · simp [exprs, ExprPrec.rank, Level.assignment, he.run_assign depth hrs, Ident.bare]

theorem Expr.read_ternary (s : Span) {a b c : Expr} (ha : a.Read) (hb : b.Read) (hc : c.Read) :
    (ternary s a b c).Read := by
  refine read_of_own .ternary _ (fun depth _ => a.layout depth (.operand .or) ++ Layout.space ++
    Layout.sym .question ++ Layout.space ++ b.layout depth (.operand .assign) ++ Layout.space ++
    Layout.sym .colon ++ Layout.space ++ c.layout depth (.operand .assign))
    (fun _ _ => rfl) (fun _ => rfl) fun depth _ => ?_
  have hplain := ((ha.at depth .or).plain.mono (Nat.le_succ _)).append (k := .sym .question) (by simp [exprs])
    ((b.layout depth (.operand .assign)).kinds ++ .sym .colon :: (c.layout depth (.operand .assign)).kinds)
  simp only [Layout.kinds_append, Layout.kinds_sym, Layout.kinds_space, List.append_assoc,
    List.singleton_append]
  refine Grammar.reads_of_run (by decide) rfl hplain fun rs hrs => ?_
  have hcond : Runs Level.full.disjunction _ _ (.sym .question :: ((b.layout depth (.operand .assign)).kinds ++
      .sym .colon :: ((c.layout depth (.operand .assign)).kinds ++ rs))) :=
    (ha.at depth .or).run lawful_exprs (by simp [exprs, exprRank?, ExprPrec.rank])
  simp only [exprs, ExprPrec.rank] at hrs ⊢
  simp [Level.conditional, hcond, hb.run_assign, hc.run_assign depth hrs.assign]

theorem Expr.read_not (s : Span) {e : Expr} (he : e.Read) : (unary s .not e).Read := by
  refine read_of_own .not _ (fun depth _ => Layout.sym .bang ++ e.layout depth (.operand .not))
    (fun _ _ => rfl) (fun _ => rfl) fun depth _ => ?_
  refine Grammar.reads_of_run (by decide) rfl ⟨⟨_, _, rfl, rfl⟩, by simp [exprs, ExprPrec.rank], ?_⟩ fun rs hrs => ?_
  · rintro k hk
    have : k ≠ .sym .eq := by
      rintro rfl
      exact head_ne_eq (he.opens depth (.operand .not)) [] (by simpa using hk)
    simp [exprs, this]
  · have hrun := (he.at depth .not).run lawful_exprs hrs
    simp only [exprs, ExprPrec.rank, ← Level.full_negation] at hrun
    simp [exprs, ExprPrec.rank, Level.negated, hrun]

/-! ## Operations -/

/-- Operations that group to the left. -/
theorem Expr.read_chain (own right : ExprPrec) (s : Span) {op : BinaryOp} {a b : Expr} (ha : a.Read) (hb : b.Read)
    {op? : TokenKind → Option (Expr → Expr → Expr)} (hloop : exprs.loop own.rank = .chain op?)
    (hop : op? (.sym op.sym) = some (binaryExpr op)) (hright : right.rank = own.rank + 1)
    (hprecs : op.precs = (own, own, right)) (hsecond : exprs.second? (.sym op.sym) = none) :
    (binary s op a b).Read := by
  refine read_of_own own (.binary .nowhere op (a.spelled own) (b.spelled right))
    (fun depth _ => Layout.infixed (a.layout depth (.operand own)) op.sym (b.layout depth (.operand right)))
    (fun depth position => ?_) (fun least => ?_) fun depth _ => ?_
  · simp only [layout, hprecs]
  · simp only [spelled, hprecs]
  · have hround := (ha.at depth own).chain (hright ▸ hb.at depth right) lawful_exprs hloop hop hsecond
    simpa [binaryExpr] using hround

theorem Expr.read_compare (s : Span) {op : CmpOp} {a b : Expr} (ha : a.Read) (hb : b.Read)
    (hop : op ≠ .same) : (binary s (.compare op) a b).Read := by
  have hsome : compareOp? (.sym op.sym) = some op := by cases op <;> first | rfl | contradiction
  have hrank := rank_compareOp hsome
  refine read_of_own .cmp (.binary .nowhere (.compare op) (a.spelled .add) (b.spelled .add))
    (fun depth _ => Layout.infixed (a.layout depth (.operand .add)) op.sym (b.layout depth (.operand .add)))
    (fun _ _ => rfl) (fun _ => rfl) fun depth _ => ?_
  have hsecond : exprs.second? (.sym op.sym) = none := by cases op <;> first | rfl | contradiction
  have hplain := ((ha.at depth .add).plain.mono (Nat.le_succ _)).append (k := .sym op.sym) (by simp [hsecond])
    (b.layout depth (.operand .add)).kinds
  simp only [Layout.kinds_infixed]
  refine Grammar.reads_of_run (by decide) rfl hplain fun rs hrs => ?_
  have hleft : Runs Level.full.sum _ _ (.sym op.sym :: ((b.layout depth (.operand .add)).kinds ++ rs)) :=
    (ha.at depth .add).run lawful_exprs (by simp [exprs, hrank, ExprPrec.rank])
  have hright : Runs Level.full.sum _ _ _ := (hb.at depth .add).run lawful_exprs (hrs.mono (by decide))
  have hend : rs.head?.bind compareOp? = none := hrs.bind_eq_none fun _ _ => rank_compareOp
  simp [exprs, ExprPrec.rank, Level.compared, comparison, hleft, hsome, hright, hend, binaryExpr]

theorem Expr.read_binary (s : Span) {op : BinaryOp} {a b : Expr} (ha : a.Read) (hb : b.Read)
    (hop : op ≠ .compare .same) : (binary s op a b).Read := by
  cases op with
  | logic op =>
    cases op with
    | or => exact read_chain .or .and s ha hb rfl rfl rfl rfl rfl
    | and => exact read_chain .and .not s ha hb rfl rfl rfl rfl rfl
  | compare op => exact read_compare s ha hb (by simpa using hop)
  | arith op =>
    cases op with
    | add | sub => exact read_chain .add .mul s ha hb rfl rfl rfl rfl rfl
    | mul | div | mod => exact read_chain .mul .suffix s ha hb rfl rfl rfl rfl rfl

/-! ## Arguments -/

theorem Expr.run_args (depth : Nat) {args : List Expr} (h : ∀ a ∈ args, a.Read) (rs : List TokenKind) :
    Runs Level.full.args (.sym .lParen :: ((Layout.commas (layouts depth args)).kinds ++ .sym .rParen :: rs))
      (spelledList args) rs := by
  rw [layouts_eq, spelledList_eq]
  exact run_parens (run_itemsBefore (Stops exprRank? 1)
    (fun a ha => ⟨fun rs hrs => (h a ha).run_assign depth hrs, (h a ha).opens depth _⟩) .rParen rs rfl (by simp) (by simp) (by simp))

theorem Expr.read_call (s : Span) (f : Ident) {args : List Expr} (h : ∀ a ∈ args, a.Read) :
    (call s f args).Read := by
  refine read_of_start (.ident f.name) (fun depth => (Layout.parens (Layout.commas (layouts depth args))).kinds)
    (call · f.bare (spelledList args)) ⟨rfl, rfl⟩ (fun _ _ => rfl) (fun _ => rfl) (fun _ => rfl) (by simp) fun depth rs _ => ?_
  simp [Level.primaryFrom, Level.afterIdent, run_args depth h]
  rfl

theorem run_idents (close : Sym) (xs : List Ident) (rs : List TokenKind)
    (ho : opens (.sym close) = false) (hne : close ≠ .comma) :
    Runs (itemsBefore close ident) ((Layout.idents xs).kinds ++ .sym close :: rs)
      (xs.map Ident.bare) (.sym close :: rs) :=
  run_itemsBefore (fun _ => True) (fun x _ => ⟨fun rs _ => by simp [Ident.bare], _, _, rfl, rfl⟩) close rs ho hne (by simp) (by simp)

theorem run_classHints (cs : List Ident) (rs : List TokenKind) :
    Runs Level.classHints ((Layout.classHints cs).kinds ++ .sym .lParen :: rs) (cs.map Ident.bare)
      (.sym .lParen :: rs) := by
  cases cs with
  | nil =>
    have : Runs (accept .lt) (.sym .lParen :: rs) _ _ := run_accept_of_ne (by simp)
    simp [Layout.classHints, Level.classHints, this]
  | cons c cs => simp [Layout.classHints, Level.classHints, run_idents .gt (c :: cs) _ rfl (by simp)]

theorem Expr.read_invoke (s : Span) {t : Expr} (m : Ident) (cs : List Ident) {args : List Expr}
    (ht : t.Read) (h : ∀ a ∈ args, a.Read) : (invoke s t m cs args).Read := by
  refine read_of_top (fun _ _ => rfl) (fun _ => rfl) fun depth => ?_
  have hsuffix := (ht.at depth .suffix).suffix (k := .sym .dot) (.ident m.name ::
    ((Layout.classHints cs).kinds ++ (Layout.parens (Layout.commas (layouts depth args))).kinds))
    (b := .invoke .nowhere (t.spelled .suffix) m.bare (cs.map Ident.bare) (spelledList args)) lawful_exprs rfl rfl rfl
    fun rs => by simp [Level.invocation, run_classHints, run_args depth h]; rfl
  simpa [layout] using hsuffix

/-! ## Maps -/

theorem Expr.read_index (s : Span) {a b : Expr} (ha : a.Read) (hb : b.Read) : (index s a b).Read := by
  refine read_of_top (fun _ _ => rfl) (fun _ => rfl) fun depth => ?_
  have hsuffix := (ha.at depth .suffix).suffix (k := .sym .lBracket)
    ((b.layout depth (.operand .assign)).kinds ++ [.sym .rBracket])
    (b := .index .nowhere (a.spelled .suffix) (b.spelled .assign)) lawful_exprs rfl rfl rfl fun rs => by
      have hend : Runs (accept .colonEq) (.sym .rBracket :: rs) _ _ := run_accept_of_ne (by simp)
      simp [Level.access, hb.run_assign, hend]
  simpa [layout] using hsuffix

theorem Expr.read_update (s : Span) {a b c : Expr} (ha : a.Read) (hb : b.Read) (hc : c.Read) :
    (update s a b c).Read := by
  refine read_of_top (fun _ _ => rfl) (fun _ => rfl) fun depth => ?_
  have hsuffix := (ha.at depth .suffix).suffix (k := .sym .lBracket)
    ((b.layout depth (.operand .assign)).kinds ++ .sym .colonEq ::
      ((c.layout depth (.operand .assign)).kinds ++ [.sym .rBracket]))
    (b := .update .nowhere (a.spelled .suffix) (b.spelled .assign) (c.spelled .assign)) lawful_exprs rfl rfl rfl
    fun rs => by simp [Level.access, hb.run_assign, hc.run_assign]
  simpa [layout] using hsuffix

/-! ## Objects -/

@[simp] theorem Layout.kinds_braces (depth : Nat) (ls : List Layout) :
    (braces depth ls).kinds = .sym .lBrace :: (ls.flatMap kinds ++ [.sym .rBrace]) := by
  have : kinds (ls.map fun l => newline (depth + 1) ++ l).flatten = ls.flatMap kinds := by
    induction ls with
    | nil => rfl
    | cons l ls ih => simp [ih]
  simp only [braces, kinds_append, this, kinds_sym, kinds_newline]
  simp

theorem run_param (p : Param) {rs : List TokenKind} (hrs : rs.head? ≠ some (.sym .colon)) :
    Runs param ((Layout.ident p.name.name ++ Layout.typeAnnotation p.ty).kinds ++ rs) p.bare
      rs := by
  obtain ⟨s, x, ty⟩ := p
  cases ty with
  | none =>
    have hend := run_accept_of_ne hrs
    simp [param, typeAnnotation, Layout.typeAnnotation, hend, Param.bare, Ident.bare]
  | some ty =>
    have hty : Ty.ofKeyword? ty.keyword = some ty := by cases ty <;> rfl
    simp [param, typeAnnotation, Layout.typeAnnotation, Ident.plain, Param.bare, Ident.bare, hty]

/-- **Parameters are read without their places.** -/
theorem run_params (ps : List Param) (rs : List TokenKind) :
    Runs params ((Layout.formals ps).kinds ++ rs) (ps.map Param.bare) rs := by
  rw [Layout.formals, Layout.kinds_parens, List.cons_append, List.append_assoc]
  exact run_parens (run_itemsBefore (fun rs => rs.head? ≠ some (.sym .colon))
    (fun p _ => ⟨fun rs hrs => run_param p hrs, _, _, rfl, rfl⟩) .rParen rs rfl (by simp) (by simp) (by simp))

theorem Field.run_fields (depth : Nat) {fs : List Field} (h : ∀ f ∈ fs, f.value.Read) (rs : List TokenKind) :
    Runs Level.full.fields (.sym .lParen :: ((Layout.commas (layouts depth fs)).kinds ++ .sym .rParen :: rs))
      (spelledList fs) rs := by
  rw [layouts_eq, spelledList_eq]
  refine run_parens (run_itemsBefore (Stops exprRank? 1)
    (fun f hf => ⟨fun rs hrs => ?_, _, _, rfl, rfl⟩) .rParen rs rfl (by simp) (by simp) (by simp))
  simp [Level.field, (h f hf).run_assign depth hrs, Ident.bare]

theorem Method.reads_method (depth : Nat) {m : Method} (h : m.body.Read) :
    Reads Level.full.method (fun _ => True) (m.layout depth)
      ⟨.nowhere, m.name.bare, m.params.map Param.bare, m.body.spelled .lowest⟩ := by
  intro rs _
  obtain ⟨s, x, ps, body⟩ := m
  have hread : body.Read := h
  obtain ⟨k, ks, hk, ho⟩ := hread.opens (depth + 1) .body
  have hbody : Runs Level.full.expr _ _ (.sym .rBrace :: rs) := hread.run_body (depth + 1) (by simp)
  have hne : k ≠ .sym .rBrace := by rintro rfl; cases ho
  rw [hk, List.cons_append] at hbody
  simp [layout, Level.method, run_params, hk, hne, hbody, Ident.bare]

theorem Method.head_layout (depth : Nat) (m : Method) :
    ∃ ks, (m.layout depth).kinds = .keyword .method_ :: ks := by
  obtain ⟨s, x, ps, body⟩ := m
  exact ⟨_, by simp [layout]; rfl⟩

theorem Method.run_methods (depth : Nat) {ms : List Method} (h : ∀ m ∈ ms, m.body.Read) (rs : List TokenKind) :
    Runs (many (· == some (.keyword .method_)) Level.full.method)
      ((layouts depth ms).flatMap Layout.kinds ++ .sym .rBrace :: rs) (spelledList ms) (.sym .rBrace :: rs) := by
  rw [layouts_eq, spelledList_eq, List.flatMap_map]
  refine run_many (fun _ => True) (fun m hm => ⟨reads_method depth (h m hm), ?_⟩) _ trivial rfl
  obtain ⟨ks, hks⟩ := m.head_layout depth
  exact ⟨_, ks, hks, by simp, fun _ => trivial⟩

/-- The tokens of an object after its first word. -/
def Object.tailKinds (depth : Nat) (o : Object) : List TokenKind :=
  (o.className.map fun c => TokenKind.ident c.name).toList ++ .sym .lParen ::
    ((Layout.commas (Field.layouts depth o.fields)).kinds ++ .sym .rParen :: .sym .lBrace ::
      ((Method.layouts (depth + 1) o.methods).flatMap Layout.kinds ++ [.sym .rBrace]))

theorem Object.kinds_layout (depth : Nat) (o : Object) :
    (o.layout depth).kinds = .keyword .new_ :: o.tailKinds depth := by
  obtain ⟨c, fields, methods⟩ := o
  cases c <;> cases methods <;> simp [layout, tailKinds, Method.layouts]

theorem Object.run_object (depth : Nat) {o : Object} (hf : ∀ f ∈ o.fields, f.value.Read)
    (hm : ∀ m ∈ o.methods, m.body.Read) (rs : List TokenKind) :
    Runs Level.full.object (o.tailKinds depth ++ rs) o.spelled rs := by
  obtain ⟨c, fields, methods⟩ := o
  cases c <;> simp [tailKinds, Level.object, Field.run_fields depth hf, Method.run_methods (depth + 1) hm,
    spelled, Ident.bare]

theorem Expr.read_new (s : Span) {o : Object} (hf : ∀ f ∈ o.fields, f.value.Read)
    (hm : ∀ m ∈ o.methods, m.body.Read) : (new s o).Read := by
  refine read_of_start (.keyword .new_) o.tailKinds (new · o.spelled) ⟨rfl, rfl⟩ (fun _ _ => rfl) (fun _ => rfl)
    (fun depth => ?_) (fun depth => ?_) fun depth rs _ => ?_
  · rw [layout, Object.kinds_layout]
  · rw [Object.tailKinds]
    cases o.className <;> simp
  · simp [Level.primaryFrom, Object.run_object depth hf hm]

end GameHop
