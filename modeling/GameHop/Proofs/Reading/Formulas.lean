import GameHop.Proofs.Reading.Exprs

/-!
Formulas, objects and heaps that are read from their layouts, one constructor at a time.
-/

namespace GameHop.Parser

open Level

/-! ## The grammar of formulas -/

def formulaRank? : TokenKind → Option Nat
  | .sym .lParen => some 9
  | .sym .lBracket => some 8
  | .sym .star | .sym .slash | .sym .percent => some 7
  | .sym .plus | .sym .minus => some 6
  | .sym .eqEq | .sym .neq | .sym .lt | .sym .le | .sym .gt | .sym .ge | .sym .eq => some 5
  | .sym .andAnd => some 3
  | .sym .orOr => some 2
  | .sym .arrow => some 1
  | _ => none

@[simp] theorem formulaRank_close : formulaRank? (.sym .rParen) = none ∧ formulaRank? (.sym .rBracket) = none ∧
    formulaRank? (.sym .comma) = none ∧ formulaRank? (.sym .colonEq) = none ∧ formulaRank? (.sym .semi) = none := by
  decide

/-- Quantified formulas and implications have one parser. -/
def formulas : Grammar Formula where
  rank? := formulaRank?
  first?
    | .keyword .forall_ | .keyword .exists_ => some 1
    | .sym .bang => some 5
    | _ => none
  second? _ := none
  top := 8
  parser
    | 0 | 1 => full.anyFormula
    | 2 => full.disjunctionFormula
    | 3 => full.conjunctionFormula
    | 4 => full.negationFormula
    | 5 => full.comparedFormula
    | 6 => full.sumFormula
    | 7 => full.productFormula
    | _ => full.suffixedFormula
  loop
    | 0 | 1 | 4 | 5 => .none
    | 2 => .chain fun k => if k == .sym .orOr then some (binaryFormula (.logic .or)) else none
    | 3 => .chain fun k => if k == .sym .andAnd then some (binaryFormula (.logic .and)) else none
    | 6 => .chain fun k => (addOp? k).map fun op => binaryFormula (.arith op)
    | 7 => .chain fun k => (mulOp? k).map fun op => binaryFormula (.arith op)
    | _ => .suffix fun p k => if k == .sym .lBracket then some (full.accessFormula p) else none
  start := full.primaryFormulaFrom
  paren := .paren

theorem rank_formulaCompareOp {k : TokenKind} {op : CmpOp} (h : formulaCompareOp? k = some op) :
    formulaRank? k = some 5 := by
  unfold formulaCompareOp? compareOp? at h
  split at h
  · rfl
  · split at h <;> first | rfl | cases h

theorem lawful_formulas : formulas.Lawful where
  chain {r op?} h := by
    rcases r with _ | _ | _ | _ | _ | _ | _ | _ | r <;> cases h <;>
      refine ⟨by decide, rfl, fun k combine hk => ?_⟩
    · obtain ⟨hk, -⟩ : k = .sym .orOr ∧ _ := by simpa using hk
      rw [hk]; rfl
    · obtain ⟨hk, -⟩ : k = .sym .andAnd ∧ _ := by simpa using hk
      rw [hk]; rfl
    · obtain ⟨op, hop, -⟩ := Option.map_eq_some_iff.1 hk
      unfold addOp? at hop
      split at hop <;> first | rfl | cases hop
    · obtain ⟨op, hop, -⟩ := Option.map_eq_some_iff.1 hk
      unfold mulOp? at hop
      split at hop <;> first | rfl | cases hop
  suffix h := by
    cases h
    refine ⟨rfl, fun a k p hk => ?_⟩
    obtain ⟨hk, -⟩ : k = .sym .lBracket ∧ _ := by simpa using hk
    rw [hk]; rfl
  primary h := by cases h
  loop_top _ := nofun
  loop_lt r hr _ h := by
    rcases r with _ | _ | _ | _ | _ | _ | _ | _ | r <;> cases h
    exact absurd hr (Nat.not_lt.2 (Nat.le_add_left 8 r))
  looser {r ks a rs} _ hl hks hrs h := by
    rcases r with _ | _ | _ | _ | _ | _ | _ | _ | r <;> cases hl <;> simp only [formulas] at h hrs ⊢
    · exact h
    · obtain ⟨k, ks, rfl, -⟩ := hks.opens
      have hall : k ≠ .keyword .forall_ := by
        rintro rfl
        exact absurd (hks.first _ rfl 1 rfl) (by decide)
      have hsome : k ≠ .keyword .exists_ := by
        rintro rfl
        exact absurd (hks.first _ rfl 1 rfl) (by decide)
      have hend := run_accept_of_ne (hrs.ne (k := .sym .arrow) rfl (by decide))
      rw [List.cons_append] at h ⊢
      simp [anyFormula, hall, hsome, h, hend]
    · obtain ⟨k, ks, rfl, -⟩ := hks.opens
      have hk : k ≠ .sym .bang := by
        rintro rfl
        exact absurd (hks.first _ rfl 5 rfl) (by decide)
      rw [List.cons_append] at h ⊢
      simp [negationFormula, hk, h]
    · have hend : rs.head?.bind formulaCompareOp? = none := hrs.bind_eq_none fun _ _ => rank_formulaCompareOp
      simp [comparedFormula, comparison, h, hend]
  start := by
    rw [show formulas.parser 0 = full.formula from full_formula.symm]
    rfl
  second _ _ := rfl
  first := rfl
  close := rfl

/-- Nothing goes on after a formula at the level of quantifiers only. -/
theorem Stops.lowest {rs : List TokenKind} (h : Stops formulaRank? 1 rs) : Stops formulaRank? 0 rs := by
  intro k hk r hr
  have hlt := h k hk r hr
  have hne : r ≠ 0 := by
    rintro rfl
    cases k with
    | sym s => cases s <;> cases hr
    | _ => cases hr
  omega

end GameHop.Parser

namespace GameHop

open GameHop.Parser

/-! ## What it is to be read -/

/-- Whether the parsers read the layouts of a formula as what it spells. -/
def Formula.Read (p : Formula) : Prop :=
  ∀ least : FormulaPrec, formulas.Reads least.rank (p.layout least).kinds (p.spelled least)

theorem Formula.Read.run_formula {p : Formula} {rs : List TokenKind} (h : p.Read) (hrs : Stops formulaRank? 0 rs) :
    Runs Level.full.formula ((p.layout .lowest).kinds ++ rs) (p.spelled .lowest) rs :=
  Level.full_formula ▸ (h .lowest).run lawful_formulas hrs

/-- **Reading a formula of a level of its own.** -/
theorem Formula.read_of_own {p : Formula} (own : FormulaPrec) (a : Formula) (inner : Layout)
    (hp : ∀ least : FormulaPrec, p.layout least = least.place own inner ∧ p.spelled least = least.wrap own a)
    (h : formulas.Reads own.rank inner.kinds a) : p.Read := by
  intro least
  rw [(hp least).1, (hp least).2]
  exact h.place lawful_formulas (by cases least <;> decide)

/-- Reading a formula that never needs parentheses. -/
theorem Formula.read_of_top {p a : Formula}
    (hp : ∀ least : FormulaPrec, p.layout least = p.layout .lowest ∧ p.spelled least = a)
    (h : formulas.Reads formulas.top (p.layout .lowest).kinds a) : p.Read := by
  intro least
  rw [(hp least).1, (hp least).2]
  exact h.loosen lawful_formulas (by cases least <;> decide)

/-- Reading a formula from its first token on. -/
theorem Formula.read_of_start {p : Formula} (k : TokenKind) (ks : List TokenKind) (build : Span → Formula)
    (hk : opens k = true ∧ formulas.first? k = none)
    (hp : ∀ least : FormulaPrec, p.layout least = p.layout .lowest ∧ p.spelled least = build .nowhere)
    (hkinds : (p.layout .lowest).kinds = k :: ks)
    (h : ∀ rs, Stops formulaRank? 9 rs →
      Runs (Level.full.primaryFormulaFrom ⟨k, .nowhere⟩) (ks ++ rs) build rs) : p.Read := by
  refine read_of_top hp ?_
  rw [hkinds]
  exact Grammar.reads_start lawful_formulas build (fun _ _ => rfl) h hk.1 hk.2

/-! ## Words -/

theorem Formula.read_int (s : Span) (v : UInt64) : (int s v).Read :=
  read_of_start (.int v) [] (int · v) ⟨rfl, rfl⟩ (fun _ => ⟨rfl, rfl⟩) rfl fun _ _ => rfl

theorem Formula.read_bool (s : Span) (b : Bool) : (bool s b).Read := by
  cases b with
  | false => exact read_of_start (.keyword .false_) [] (bool · false) ⟨rfl, rfl⟩ (fun _ => ⟨rfl, rfl⟩) rfl fun _ _ => rfl
  | true => exact read_of_start (.keyword .true_) [] (bool · true) ⟨rfl, rfl⟩ (fun _ => ⟨rfl, rfl⟩) rfl fun _ _ => rfl

theorem Formula.read_fieldsEqual (s : Span) : (fieldsEqual s).Read :=
  read_of_start (.keyword .fieldsEqual_) [] fieldsEqual ⟨rfl, rfl⟩ (fun _ => ⟨rfl, rfl⟩) rfl fun _ _ => rfl

theorem Formula.read_frameAll (s : Span) : (frameAll s).Read := by
  refine read_of_start (.keyword .frame_) [] frameAll ⟨rfl, rfl⟩ (fun _ => ⟨rfl, rfl⟩) rfl fun rs hrs => ?_
  have hparen := hrs.ne (k := .sym .lParen) rfl (by decide)
  simp [Level.primaryFormulaFrom, hparen]

theorem Formula.read_lookup (s : Span) {x : Ident} (hx : x.name ∉ objectNames) : (lookup s x).Read := by
  refine read_of_start (.ident x.name) [] (lookup · x.bare) ⟨rfl, rfl⟩ (fun _ => ⟨rfl, rfl⟩) rfl fun rs hrs => ?_
  have hparen := hrs.ne (k := .sym .lParen) rfl (by decide)
  simp only [objectNames, List.mem_cons, List.not_mem_nil, or_false, not_or] at hx
  simp [Level.primaryFormulaFrom, Level.formulaAfterIdent, hparen, hx]
  rfl

/-! ## Words before parentheses -/

theorem Formula.read_paren (s : Span) {p : Formula} (hp : p.Read) : (paren s p).Read := by
  refine read_of_start (.sym .lParen) ((p.layout .lowest).kinds ++ [.sym .rParen]) (paren · (p.spelled .lowest))
    ⟨rfl, rfl⟩ (fun _ => ⟨rfl, rfl⟩) (by simp [layout]) fun rs _ => ?_
  simp [Level.primaryFormulaFrom, hp.run_formula]

/-- Reading a formula that is a word and something in parentheses. -/
theorem Formula.read_of_parens {p : Formula} (k : TokenKind) (inner : Layout) (build : Span → Formula)
    (hk : opens k = true ∧ formulas.first? k = none)
    (hp : ∀ least : FormulaPrec, p.layout least = [.tok k] ++ inner.parens ∧ p.spelled least = build .nowhere)
    (h : ∀ rs, Runs (Level.full.primaryFormulaFrom ⟨k, .nowhere⟩)
      (.sym .lParen :: (inner.kinds ++ .sym .rParen :: rs)) build rs) : p.Read := by
  refine read_of_start k inner.parens.kinds build hk (fun least => ⟨?_, (hp least).2⟩) ?_ fun rs _ => ?_
  · rw [(hp _).1, (hp _).1]
  · rw [(hp _).1]; rfl
  · simpa using h rs

theorem Formula.read_tobits (s : Span) {p : Formula} (hp : p.Read) : (unary s .tobits p).Read :=
  read_of_parens (.keyword .tobits_) (p.layout .lowest) (unary · .tobits (p.spelled .lowest)) ⟨rfl, rfl⟩ (fun _ => ⟨rfl, rfl⟩)
    fun rs => by simp [Level.primaryFormulaFrom, Parser.parens, hp.run_formula]

theorem Formula.read_isBits (s : Span) {p : Formula} (hp : p.Read) : (unary s .isBits p).Read :=
  read_of_parens (.keyword .isbits_) (p.layout .lowest) (unary · .isBits (p.spelled .lowest)) ⟨rfl, rfl⟩ (fun _ => ⟨rfl, rfl⟩)
    fun rs => by simp [Level.primaryFormulaFrom, Parser.parens, hp.run_formula]

theorem Formula.read_fieldsEqualExcept (s : Span) (xs : List Ident) : (fieldsEqualExcept s xs).Read :=
  read_of_parens (.keyword .fieldsEqualExcept_) (Layout.idents xs) (fieldsEqualExcept · (xs.map Ident.bare))
    ⟨rfl, rfl⟩ (fun _ => ⟨rfl, rfl⟩) fun rs => by simp [Level.primaryFormulaFrom, Parser.parens, run_idents .rParen xs _ rfl (by simp)]

theorem Formula.run_args {args : List Formula} (h : ∀ p ∈ args, p.Read) (rs : List TokenKind) :
    Runs (Parser.parens (itemsBefore .rParen Level.full.formula))
      (.sym .lParen :: ((Layout.commas (layouts args)).kinds ++ .sym .rParen :: rs)) (spelledList args) rs := by
  rw [layouts_eq, spelledList_eq]
  exact run_parens (run_itemsBefore (Stops formulaRank? 0)
    (fun p hp => ⟨fun rs hrs => (h p hp).run_formula hrs, (h p hp .lowest).plain.opens⟩) .rParen rs rfl (by simp) (by simp) (by simp))

theorem Formula.read_call (s : Span) {f : Ident} {args : List Formula}
    (hf : f.name ∉ calledNames) (h : ∀ p ∈ args, p.Read) : (call s f args).Read := by
  refine read_of_parens (.ident f.name) (Layout.commas (layouts args)) (call · f.bare (spelledList args))
    ⟨rfl, rfl⟩ (fun _ => ⟨rfl, rfl⟩) fun rs => ?_
  simp only [calledNames, List.mem_cons, List.not_mem_nil, or_false, not_or] at hf
  simp [Level.primaryFormulaFrom, Level.formulaAfterIdent, hf, run_args h]
  rfl

/-! ## Heaps and objects -/

/-- Whether the parsers read the layout of a heap as what it spells. -/
def HeapTerm.Read (h : HeapTerm) : Prop :=
  ∀ rs, Runs Level.full.heap (h.layout.kinds ++ rs) h.spelled rs

/-- The word that an object begins with. -/
def ObjectTerm.word : ObjectTerm → String
  | .side s => s.text
  | .inHeap _ _ => "object"

/-- The tokens of an object after its first word. -/
def ObjectTerm.tailKinds : ObjectTerm → List TokenKind
  | .side _ => []
  | .inHeap h p =>
    .sym .lParen :: (h.layout.kinds ++ .sym .comma :: ((p.layout .lowest).kinds ++ [.sym .rParen]))

theorem ObjectTerm.kinds_layout (o : ObjectTerm) :
    o.layout.kinds = .ident o.word :: o.tailKinds := by
  cases o <;> simp [layout, word, tailKinds, Layout.commas]

/-- Whether the parsers read the layout of an object, from its first word on, as what it spells. -/
def ObjectTerm.Read (o : ObjectTerm) : Prop :=
  ∀ rs, Runs (Level.full.objectFrom (.plain o.word)) (o.tailKinds ++ rs) o.spelled rs

theorem HeapTerm.read_side (s : Side) : (side s).Read := by
  intro rs
  cases s <;> simp [layout, Level.full_heap, Level.heapTerm, Ident.plain, Parser.parens, Side.text, spelled]

theorem HeapTerm.read_inHeap {h : HeapTerm} {p : Formula} (hh : h.Read) (hp : p.Read) : (h.inHeap p).Read := by
  intro rs
  have hheap := hh (.sym .comma :: ((p.layout .lowest).kinds ++ .sym .rParen :: rs))
  rw [Runs, Level.full_heap]
  simp [layout, Layout.commas, Level.heapTerm, Level.heapReference, Parser.parens, Ident.plain, hheap,
    hp.run_formula, spelled]

theorem ObjectTerm.read_side (s : Side) : (side s).Read := by
  intro rs
  cases s <;> rfl

theorem ObjectTerm.read_inHeap {h : HeapTerm} {p : Formula} (hh : h.Read) (hp : p.Read) : (inHeap h p).Read := by
  intro rs
  have hheap := hh (.sym .comma :: ((p.layout .lowest).kinds ++ .sym .rParen :: rs))
  simp [Level.objectFrom, Level.heapReference, Parser.parens, word, tailKinds, Ident.plain, hheap, hp.run_formula, spelled]

/-- Reading a formula that begins with an object. -/
theorem Formula.read_of_object {p : Formula} {o : ObjectTerm} (k : TokenKind) (x : String)
    (build : Span → Formula) (ho : o.Read)
    (hp : ∀ least : FormulaPrec, p.layout least = p.layout .lowest ∧ p.spelled least = build .nowhere)
    (hkinds : (p.layout .lowest).kinds = o.layout.kinds ++ [k, .ident x])
    (hmember : ∀ rs, Runs (Level.member o.spelled) (k :: .ident x :: rs) build rs) : p.Read := by
  rw [ObjectTerm.kinds_layout] at hkinds
  refine read_of_start (.ident o.word) (o.tailKinds ++ [k, .ident x]) build ⟨rfl, rfl⟩ hp hkinds fun rs _ => ?_
  rw [List.append_assoc, List.cons_append, List.singleton_append]
  have hfrom : StateT.run (Level.full.primaryFormulaFrom ⟨.ident o.word, .nowhere⟩)
      (bareInput (o.tailKinds ++ k :: .ident x :: rs)) =
      (StateT.run (Level.full.objectFrom (.plain o.word)) (bareInput (o.tailKinds ++ k :: .ident x :: rs)) >>= fun r =>
        StateT.run (Level.member r.1) r.2) := by
    cases o with
    | side s => cases s <;> rfl
    | inHeap h q => simp [Level.primaryFormulaFrom, Level.formulaAfterIdent, ObjectTerm.word,
        ObjectTerm.tailKinds, Ident.plain]
  rw [Runs, hfrom, ho]
  exact hmember rs

theorem Formula.read_field (s : Span) {o : ObjectTerm} (x : Ident) (ho : o.Read) : (field s o x).Read :=
  read_of_object (.sym .dot) x.name (field · o.spelled x.bare) ho (fun _ => ⟨rfl, rfl⟩) (by simp [layout])
    fun rs => by simp [Level.member, Ident.bare]

theorem Formula.read_objectIs (s : Span) {o : ObjectTerm} {c : ClassRef} (ho : o.Read)
    (hc : ∀ x, c = .named x → x.name ≠ "invalid") : (objectIs s o c).Read := by
  refine read_of_object (.keyword .is_) _ (objectIs · o.spelled c.bare) ho (fun _ => ⟨rfl, rfl⟩) (by simp [layout]; rfl)
    fun rs => ?_
  cases c with
  | named x =>
    have := hc x rfl
    simp [Level.member, Ident.plain, ClassRef.bare, Ident.bare, this]
  | invalid => simp [Level.member, Ident.plain, ClassRef.bare]

theorem ObjectTerm.Read.run_term {o : ObjectTerm} (h : o.Read) (rs : List TokenKind) :
    Runs Level.full.objectTerm (o.layout.kinds ++ rs) o.spelled rs := by
  simpa [kinds_layout, Level.objectTerm] using h rs

theorem Formula.read_sameObject (s : Span) {a b : ObjectTerm} (ha : a.Read) (hb : b.Read) :
    (sameObject s a b).Read :=
  read_of_parens (.ident "same") (Layout.commas [a.layout, b.layout]) (sameObject · a.spelled b.spelled)
    ⟨rfl, rfl⟩ (fun _ => ⟨rfl, rfl⟩) fun rs => by
    simp [Level.primaryFormulaFrom, Level.formulaAfterIdent, Layout.commas, Parser.parens, ha.run_term, hb.run_term]

theorem Formula.read_independence (s : Span) {h : HeapTerm} {p q : Formula} (hh : h.Read)
    (hp : p.Read) (hq : q.Read) : (independence s h p q).Read :=
  read_of_parens (.keyword .independence_) (Layout.commas [h.layout, p.layout .lowest, q.layout .lowest])
    (independence · h.spelled (p.spelled .lowest) (q.spelled .lowest)) ⟨rfl, rfl⟩ (fun _ => ⟨rfl, rfl⟩) fun rs => by
      have hheap := fun rs => hh rs
      simp [Level.primaryFormulaFrom, Layout.commas, hheap, hp.run_formula, hq.run_formula]

theorem Formula.read_frame (s : Span) {p q : Formula} (hp : p.Read) (hq : q.Read) : (frame s p q).Read :=
  read_of_parens (.keyword .frame_) (Layout.commas [p.layout .lowest, q.layout .lowest])
    (frame · (p.spelled .lowest) (q.spelled .lowest)) ⟨rfl, rfl⟩ (fun _ => ⟨rfl, rfl⟩) fun rs => by
      simp [Level.primaryFormulaFrom, Level.formulaPair, Parser.parens, Layout.commas, hp.run_formula, hq.run_formula]

theorem Formula.read_frameHeap (s : Span) {h k : HeapTerm} {p q : Formula} (hh : h.Read)
    (hk : k.Read) (hp : p.Read) (hq : q.Read) : (frameHeap s h k p q).Read :=
  read_of_parens (.keyword .frameHeap_) (Layout.commas [h.layout, k.layout, p.layout .lowest, q.layout .lowest])
    (frameHeap · h.spelled k.spelled (p.spelled .lowest) (q.spelled .lowest)) ⟨rfl, rfl⟩ (fun _ => ⟨rfl, rfl⟩) fun rs => by
      have hleft := fun rs => hh rs
      have hright := fun rs => hk rs
      simp [Level.primaryFormulaFrom, Layout.commas, hleft, hright, hp.run_formula, hq.run_formula]

/-! ## Contexts -/

theorem Expr.kinds_contextLayout (cs : List Expr) :
    (contextLayout cs).kinds = cs.flatMap fun c => (Layout.parens (c.layout 0 (.operand .lowest))).kinds := by
  induction cs with
  | nil => rfl
  | cons c cs ih => simp [contextLayout, ih]

theorem Expr.spelledContexts_eq (cs : List Expr) : spelledContexts cs = cs.map (spelled .lowest) := by
  induction cs with
  | nil => rfl
  | cons c cs ih => rw [spelledContexts, ih, List.map_cons]

/-- Contexts are read up to a token that opens no further one. -/
theorem Expr.run_contexts {cs : List Expr} (h : ∀ c ∈ cs, c.Read) {rs : List TokenKind}
    (hrs : rs.head? ≠ some (.sym .lParen)) :
    Runs Level.full.contexts ((contextLayout cs).kinds ++ rs) (spelledContexts cs) rs := by
  rw [kinds_contextLayout, spelledContexts_eq]
  refine run_many (fun _ => True) (fun c hc => ⟨fun rs _ => ?_, _, _, Layout.kinds_parens _, by simp, fun _ => trivial⟩) rs
    trivial (by simpa using hrs)
  simp [Parser.parens, (h c hc).run_expr]

theorem Formula.read_env (s : Span) {cs : List Expr} (h : ∀ c ∈ cs, c.Read) : (env s cs).Read := by
  refine read_of_start (.keyword .env_) (Expr.contextLayout cs).kinds (env · (Expr.spelledContexts cs)) ⟨rfl, rfl⟩ (fun _ => ⟨rfl, rfl⟩) rfl
    fun rs hrs => ?_
  simp [Level.primaryFormulaFrom, Expr.run_contexts h (hrs.ne (k := .sym .lParen) rfl (by decide))]

/-! ## Quantifiers, negations and operations -/

/-- The word of a quantifier. -/
def Quantifier.word : Quantifier → Keyword
  | .all => .forall_
  | .some => .exists_

theorem Formula.read_quant (s : Span) (q : Quantifier) (ps : List Param) {p : Formula}
    (hp : p.Read) : (quant s q ps p).Read := by
  refine read_of_own .lowest _ (Layout.word q.word ++ Layout.space ++ Layout.formals ps ++
    Layout.sym .dot ++ Layout.space ++ p.layout .lowest) (fun least => ⟨by cases q <;> rfl, rfl⟩) ?_
  refine Grammar.reads_of_run (Nat.zero_le _) rfl ⟨⟨_, _, rfl, rfl⟩, ?_, nofun⟩ fun rs hrs => ?_
  · cases q <;> simp [formulas, Quantifier.word, FormulaPrec.rank]
  · cases q <;> simp [formulas, FormulaPrec.rank, Level.anyFormula, Quantifier.word, Level.quantified, run_params,
      hp.run_formula hrs]

theorem Formula.read_not (s : Span) {p : Formula} (hp : p.Read) : (unary s .not p).Read := by
  refine read_of_own .not _ (Layout.sym .bang ++ p.layout .not) (fun _ => ⟨rfl, rfl⟩) ?_
  refine Grammar.reads_of_run (by decide) rfl ⟨⟨_, _, rfl, rfl⟩, ?_, nofun⟩ fun rs hrs => ?_
  · simp [formulas, FormulaPrec.rank]
  · have hrun : Runs Level.full.negationFormula _ _ _ := (hp .not).run lawful_formulas hrs
    rw [← Level.full_negatedFormula] at hrun
    simp [formulas, FormulaPrec.rank, Level.negationFormula, hrun]

theorem Formula.read_chain (own right : FormulaPrec) (s : Span) {op : FormulaOp} {p q : Formula} (hp : p.Read)
    (hq : q.Read) {op? : TokenKind → Option (Formula → Formula → Formula)} (hloop : formulas.loop own.rank = .chain op?)
    (hop : op? (.sym op.sym) = some (binaryFormula op)) (hright : right.rank = own.rank + 1)
    (hprecs : op.precs = (own, own, right)) : (binary s op p q).Read := by
  refine read_of_own own (.binary .nowhere op (p.spelled own) (q.spelled right))
    (Layout.infixed (p.layout own) op.sym (q.layout right)) (fun least => ?_) ?_
  · simp only [layout, spelled, hprecs, and_self]
  · have hround := (hp own).chain (hright ▸ hq right) lawful_formulas hloop hop rfl
    simpa [binaryFormula] using hround

theorem Formula.read_implies (s : Span) {p q : Formula} (hp : p.Read) (hq : q.Read) :
    (binary s (.logic .implies) p q).Read := by
  refine read_of_own .implies (.binary .nowhere (.logic .implies) (p.spelled .or) (q.spelled .lowest))
    (Layout.infixed (p.layout .or) .arrow (q.layout .lowest)) (fun _ => ⟨rfl, rfl⟩) ?_
  have hplain := (hp .or).plain
  simp only [Layout.kinds_infixed]
  refine Grammar.reads_of_run (by decide) rfl ((hplain.mono (Nat.le_succ _)).append nofun _) fun rs hrs => ?_
  have hleft : Runs Level.full.disjunctionFormula _ _ (.sym .arrow :: ((q.layout .lowest).kinds ++ rs)) :=
    (hp .or).run lawful_formulas (by simp [formulas, formulaRank?, FormulaPrec.rank])
  obtain ⟨k, ks, hk, -⟩ := hplain.opens
  rw [hk] at hplain hleft ⊢
  have hall : k ≠ .keyword .forall_ := by
    rintro rfl
    exact absurd (hplain.first _ rfl 1 rfl) (by decide)
  have hsome : k ≠ .keyword .exists_ := by
    rintro rfl
    exact absurd (hplain.first _ rfl 1 rfl) (by decide)
  rw [List.cons_append] at hleft
  simp [formulas, FormulaPrec.rank, Level.anyFormula, hall, hsome, hleft, hq.run_formula hrs.lowest, binaryFormula]

theorem Formula.read_compare (s : Span) (op : CmpOp) {p q : Formula} (hp : p.Read) (hq : q.Read) :
    (binary s (.compare op) p q).Read := by
  have hsome : formulaCompareOp? (.sym op.sym) = some op := by cases op <;> rfl
  refine read_of_own .cmp (.binary .nowhere (.compare op) (p.spelled .add) (q.spelled .add))
    (Layout.infixed (p.layout .add) op.sym (q.layout .add)) (fun _ => ⟨rfl, rfl⟩) ?_
  simp only [Layout.kinds_infixed]
  refine Grammar.reads_of_run (by decide) rfl (((hp .add).plain.mono (Nat.le_succ _)).append nofun _) fun rs hrs => ?_
  have hleft : Runs Level.full.sumFormula _ _ (.sym op.sym :: ((q.layout .add).kinds ++ rs)) :=
    (hp .add).run lawful_formulas (by simp [formulas, rank_formulaCompareOp hsome, FormulaPrec.rank])
  have hright : Runs Level.full.sumFormula _ _ _ := (hq .add).run lawful_formulas (hrs.mono (by decide))
  have hend : rs.head?.bind formulaCompareOp? = none := hrs.bind_eq_none fun _ _ => rank_formulaCompareOp
  simp [formulas, FormulaPrec.rank, Level.comparedFormula, comparison, hleft, hsome, hright, hend, binaryFormula]

theorem Formula.read_binary (s : Span) (op : FormulaOp) {p q : Formula} (hp : p.Read) (hq : q.Read) :
    (binary s op p q).Read := by
  cases op with
  | logic op =>
    cases op with
    | implies => exact read_implies s hp hq
    | or => exact read_chain .or .and s hp hq rfl rfl rfl rfl
    | and => exact read_chain .and .not s hp hq rfl rfl rfl rfl
  | compare op => exact read_compare s op hp hq
  | arith op =>
    cases op with
    | add | sub => exact read_chain .add .mul s hp hq rfl rfl rfl rfl
    | mul | div | mod => exact read_chain .mul .suffix s hp hq rfl rfl rfl rfl

/-! ## Maps -/

theorem Formula.read_index (s : Span) {p q : Formula} (hp : p.Read) (hq : q.Read) : (index s p q).Read := by
  refine read_of_top (fun _ => ⟨rfl, rfl⟩) ?_
  have hsuffix := (hp .suffix).suffix (k := .sym .lBracket) ((q.layout .lowest).kinds ++ [.sym .rBracket])
    (b := .index .nowhere (p.spelled .suffix) (q.spelled .lowest)) lawful_formulas rfl rfl rfl fun rs => by
      have hend : Runs (accept .colonEq) (.sym .rBracket :: rs) _ _ := run_accept_of_ne (by simp)
      simp [Level.accessFormula, hq.run_formula, hend]
  simpa [layout] using hsuffix

theorem Formula.read_update (s : Span) {p q r : Formula} (hp : p.Read) (hq : q.Read)
    (hr : r.Read) : (update s p q r).Read := by
  refine read_of_top (fun _ => ⟨rfl, rfl⟩) ?_
  have hsuffix := (hp .suffix).suffix (k := .sym .lBracket) ((q.layout .lowest).kinds ++ .sym .colonEq ::
      ((r.layout .lowest).kinds ++ [.sym .rBracket]))
    (b := .update .nowhere (p.spelled .suffix) (q.spelled .lowest) (r.spelled .lowest)) lawful_formulas rfl rfl rfl
    fun rs => by simp [Level.accessFormula, hq.run_formula, hr.run_formula]
  simpa [layout] using hsuffix

/-! ## Claims of expressions -/

theorem Expr.read_assert (s : Span) {p : Formula} (hp : p.Read) : (assert s p).Read :=
  read_of_start (.keyword .assert_) (fun _ => (Layout.parens (p.layout .lowest)).kinds)
    (assert · (p.spelled .lowest)) ⟨rfl, rfl⟩ (fun _ _ => rfl) (fun _ => rfl) (fun _ => rfl) (by simp)
    fun _ rs _ => by simp [Level.primaryFrom, Parser.parens, hp.run_formula]

theorem Expr.read_assume (s : Span) {p : Formula} (hp : p.Read) : (assume s p).Read :=
  read_of_start (.keyword .admit_) (fun _ => (Layout.parens (p.layout .lowest)).kinds)
    (assume · (p.spelled .lowest)) ⟨rfl, rfl⟩ (fun _ _ => rfl) (fun _ => rfl) (fun _ => rfl) (by simp)
    fun _ rs _ => by simp [Level.primaryFrom, Parser.parens, hp.run_formula]

end GameHop
