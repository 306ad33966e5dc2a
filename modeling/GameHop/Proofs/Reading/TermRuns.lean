import GameHop.Proofs.Reading.AsRead
import GameHop.Proofs.Reading.Heads

/-!
Runs of the parsers of terms on any tokens.
-/

namespace GameHop.Parser

open Stage Outline

abbrev ReflectsExpr (w : Setting) (b : Bool) (least : ExprPrec) (p p' : Parser Expr) : Prop :=
  Reflects w b true p p' Expr.bare (fun _ => Expr.AsRead least) fun e => [e.outline]

abbrev ReflectsFormula (w : Setting) (b : Bool) (least : FormulaPrec) (p p' : Parser Formula) : Prop :=
  Reflects w b true p p' Formula.bare (fun _ => Formula.AsRead least) fun p => [p.outline]

abbrev ReflectsBound (w : Setting) (b : Bool) (least : BoundPrec) (p p' : Parser Bound) : Prop :=
  Reflects w b true p p' Bound.bare (fun _ => Bound.AsRead least) fun b => [b.outline]

/-- Whether a parser of formulas begins with a call if the formula it gives does. -/
abbrev BeginsFormula (w : Setting) (b : Bool) (least : FormulaPrec) (p p' : Parser Formula) : Prop :=
  Reflects w b true p p' Formula.bare (fun ks p => p.AsRead least ∧ BeginsWithCall ks p) fun p => [p.outline]

/-- Whether the parsers of two levels do the same, and give terms as read. -/
structure Level.Tied (w : Setting) (b : Bool) (below other : Level) : Prop where
  expr : ReflectsExpr w b .lowest below.expr other.expr
  assign : ReflectsExpr w b .assign below.assign other.assign
  negation : ReflectsExpr w b .not below.negation other.negation
  begins : BeginsFormula w b .lowest below.formula other.formula
  negatedFormula : ReflectsFormula w b .not below.negatedFormula other.negatedFormula
  heap : Reflects w b true below.heap other.heap HeapTerm.bare (fun _ => HeapTerm.AsRead) HeapTerm.parts
  bound : ReflectsBound w b .lowest below.bound other.bound
  power : ReflectsBound w b .pow below.power other.power

theorem Level.Tied.formula {w : Setting} {b : Bool} {below other : Level} (h : below.Tied w b other) :
    ReflectsFormula w b .lowest below.formula other.formula :=
  h.begins.mono fun _ _ hp => hp.1

theorem Level.Tied.left {w : Setting} {b : Bool} {below other : Level} (h : below.Tied w b other) :
    below.Tied w b below where
  expr := h.expr.left
  assign := h.assign.left
  negation := h.negation.left
  begins := h.begins.left
  negatedFormula := h.negatedFormula.left
  heap := h.heap.left
  bound := h.bound.left
  power := h.power.left

theorem Level.Tied.late {w : Setting} {below other : Level} (h : below.Tied w false other) : below.Tied w true other :=
  ⟨fun m n _ => h.expr m n, fun m n _ => h.assign m n, fun m n _ => h.negation m n,
    fun m n _ => h.begins m n, fun m n _ => h.negatedFormula m n, fun m n _ => h.heap m n,
    fun m n _ => h.bound m n, fun m n _ => h.power m n⟩

@[simp] theorem span_bare_ident (x : Ident) : x.bare.span = .nowhere := rfl

@[simp] theorem span_bare_expr (e : Expr) : e.bare.span = .nowhere := by
  cases e <;> rfl

@[simp] theorem span_bare_formula (p : Formula) : p.bare.span = .nowhere := by
  cases p <;> rfl

@[simp] theorem span_bare_bound (b : Bound) : b.bare.span = .nowhere := by
  cases b <;> rfl

variable {w : Setting} {m d : Bool} {n : Nat} {xs : List Outline}

/-- A comparison has no comparison for an operand. -/
theorem mirrors_comparison {α : Type} {p p' : Parser α} {op? : TokenKind → Option CmpOp}
    {combine : CmpOp → α → α → α} {f : α → α} {P Q : List TokenKind → α → Prop} {out : α → List Outline}
    (h : Reflects w false true p p' f Q out) (hfirst : ∀ ks a, Q ks a → P ks a)
    (hop : ∀ k op, op? k = some op → Combines w f Q Q P out (combine op)) :
    Reflects w false true (comparison p op? combine) (comparison p' op? combine) f P out := by
  intro m n _
  refine h.via fun i a ha => ?_
  refine looks_peek.same fun k => ?_
  split
  · exact mirrors_pure ⟨rfl, fun hw => hfirst _ a (ha hw)⟩ .rfl
  · rename_i op hk
    obtain ⟨k, -, hk⟩ := Option.bind_eq_some_iff.1 hk
    refine mirrors_next.then fun _ => ?_
    refine h.via fun _ b hb => ?_
    obtain ⟨⟨heq, hab⟩, hyields⟩ := hop k op hk a b
    refine looks_peek.same fun l => ?_
    split
    · exact (mirrors_failHere (R := fun _ _ _ => False) (c := false) (t := fun _ => ⟨true, n, []⟩) _).bind
        fun _ _ _ hfalse => hfalse.elim
    · exact mirrors_pure ⟨heq, fun hw => hab hw _ _ (ha hw) (hb hw)⟩ (hyields _)

section
variable {below other : Level} (h : below.Tied w true other)
include h

/-! ## Expressions -/

theorem mirrors_args : Reflects w false true below.args other.args (List.map Expr.bare)
    (fun _ args => ∀ a ∈ args, a.AsRead .assign) Expr.outlines :=
  mirrors_parens (mirrors_itemsBefore _ _ h.assign)

theorem mirrors_field : Reflects w false true below.field other.field Field.bare (fun _ => Field.AsRead)
    fun f => [f.outline] := by
  intro m n _
  refine mirrors_ident.via fun _ x hx => ?_
  refine (mirrors_sym _).then fun _ => ?_
  refine h.assign.via fun _ e he => ?_
  exact mirrors_pure ⟨by simp [Field.bare], fun hw => ⟨hx hw, he hw⟩⟩ yields_node

theorem mirrors_fields : Reflects w false true below.fields other.fields (List.map Field.bare)
    (fun _ fs => ∀ f ∈ fs, f.AsRead) Field.outlines :=
  mirrors_parens (mirrors_itemsBefore _ _ (mirrors_field h))

theorem mirrors_method : Reflects w false true below.method other.method Method.bare (fun _ => Method.AsRead)
    fun m => [m.outline] := by
  intro m n _
  refine (mirrors_keyword _).via fun _ start _ => ?_
  refine mirrors_ident.via fun _ x hx => ?_
  refine mirrors_params.via fun _ ps hps => ?_
  refine (mirrors_sym _).via fun _ open_ _ => ?_
  let rest (start : Span) (x : Ident) (ps : List Param) (body : Expr) : Parser Method := do
    let stop ← sym .rBrace
    return ⟨start.join stop, x, ps, body⟩
  have hrest (body : Expr) (hbody : w.Known → body.AsRead .lowest) :
      Mirrors w ⟨true, n, [leaf start] ++ [x.outline] ++ ps.map Param.outline ++ [body.outline]⟩
        (rest start x ps body) (rest start x ps body) (rest .nowhere x.bare (ps.map Param.bare) body.bare)
        (fun _ => Via w Method.bare Method.AsRead) false fun m => ⟨true, n, [m.outline]⟩ := by
    refine (mirrors_sym _).via fun _ stop _ => ?_
    exact mirrors_pure ⟨rfl, fun hw => ⟨⟨hx hw, hps hw⟩, hbody hw⟩⟩ yields_node_between
  refine (looks_sees _).same fun empty => ?_
  cases empty with
  | true => exact hrest (.int open_ 0) fun _ => (Expr.asRead_int _ _).loosen (by decide)
  | false =>
    refine (h.expr.via fun _ body hbody => ?_).from (yields_sublist (List.sublist_append_left ..))
    exact hrest body hbody

theorem mirrors_object : Reflects w false true below.object other.object Object.bare (fun _ => Object.AsRead)
    Object.parts := by
  let rest (below : Level) (className : Option Ident) : Parser Object := do
    let fields ← below.fields
    discard <| sym .lBrace
    let methods ← many (· == some (.keyword .method_)) below.method
    discard <| sym .rBrace
    return ⟨className, fields, methods⟩
  have hrest (m d : Bool) (n : Nat) (c : Option Ident) (hc : w.Known → ∀ x ∈ c, x.Legible) :
      Mirrors w ⟨m, n, c.toList.map Ident.outline⟩ (rest below c) (rest other c) (rest below (c.map Ident.bare))
        (fun _ => Via w Object.bare Object.AsRead) d fun o => ⟨true, n, o.parts⟩ := by
    refine (mirrors_fields h).via fun _ fs hfs => ?_
    refine (mirrors_sym _).then fun _ => ?_
    refine (mirrors_many Method.outlines _ (mirrors_method h)).via fun _ ms hms => ?_
    refine (mirrors_sym _).then fun _ => ?_
    exact mirrors_pure ⟨by rw [Object.bare, Field.bareList_eq, Method.bareList_eq]; rfl,
      fun hw => ⟨hc hw, hfs hw, hms hw⟩⟩ .rfl
  intro m n _
  refine looks_peek.same fun k => ?_
  split
  · have hsome : Reflects w false true (some <$> ident) (some <$> ident) (Option.map Ident.bare)
        (fun _ c => ∀ x ∈ c, x.Legible) (fun c => c.toList.map Ident.outline) :=
      mirrors_ident.map (fun _ x hx => by simpa using hx) (fun _ => rfl) fun _ => rfl
    refine hsome.via fun _ c hc => ?_
    exact hrest _ _ n c hc
  · exact hrest _ _ n none (by simp)

abbrev BuildsExpr (w : Setting) : (Span → Expr) → (Span → Expr) → Prop :=
  Builds w Expr.bare (Expr.AsRead .suffix) Expr.outline Expr.parts

theorem mirrors_afterIdent {x : Ident} (hx : w.Known → x.Legible) :
    Mirrors w ⟨true, n, [x.outline]⟩ (below.afterIdent x) (other.afterIdent x) (below.afterIdent x.bare)
      (fun _ => BuildsExpr w) false fun build => ⟨true, n, (build .nowhere).parts⟩ := by
  refine looks_peek.same fun k => ?_
  split
  · refine (mirrors_args h).via fun _ args hargs => ?_
    exact mirrors_builds (fun _ e => ⟨by rw [Expr.bare, Expr.bareList_eq],
      fun hw => Expr.asRead_call e (hx hw) (hargs hw)⟩) .rfl fun _ => rfl
  · refine mirrors_next.then fun _ => ?_
    refine (mirrors_parens h.expr).via fun _ e he => ?_
    exact mirrors_builds (fun _ s => ⟨rfl, fun hw => Expr.asRead_paren s (by simpa using hx hw) (he hw)⟩) .rfl fun _ => rfl
  · exact mirrors_builds (fun _ e => ⟨rfl, fun hw => Expr.asRead_lookup e (hx hw)⟩) .rfl fun _ => rfl

theorem mirrors_primaryFrom {t : Token} (ht : w.Known → t ∈ w.tokens) :
    Mirrors w ⟨true, n, [leaf t.span]⟩ (below.primaryFrom t) (other.primaryFrom t) (below.primaryFrom t.bare)
      (fun _ => BuildsExpr w) false fun build => ⟨true, n, (build .nowhere).parts⟩ := by
  obtain ⟨k, s⟩ := t
  cases k with
  | int v => exact mirrors_builds (fun _ e => ⟨rfl, fun _ => Expr.asRead_int e v⟩) yields_tail fun _ => rfl
  | ident x =>
    exact mirrors_afterIdent h (x := ⟨s, x⟩) fun hw => (w.scanned hw).legible _ (ht hw) x rfl
  | sym y =>
    cases y with
    | lParen =>
      refine h.expr.via fun _ e he => ?_
      refine (mirrors_sym _).then fun _ => ?_
      exact mirrors_builds (fun _ s => ⟨rfl, fun hw => Expr.asRead_paren s (by simp) (he hw)⟩) yields_tail fun _ => rfl
    | ellipsis => exact mirrors_builds (fun _ e => ⟨rfl, fun _ => Expr.asRead_ellipsis e⟩) yields_tail fun _ => rfl
    | _ => exact mirrors_fail _ _ _ (List.mem_singleton_self _)
  | keyword k =>
    cases k with
    | true_ => exact mirrors_builds (fun _ e => ⟨rfl, fun _ => Expr.asRead_bool e _⟩) yields_tail fun _ => rfl
    | false_ => exact mirrors_builds (fun _ e => ⟨rfl, fun _ => Expr.asRead_bool e _⟩) yields_tail fun _ => rfl
    | new_ =>
      refine (mirrors_object h).via fun _ o ho => ?_
      exact mirrors_builds (fun _ e => ⟨rfl, fun hw => Expr.asRead_new e (ho hw)⟩) yields_tail fun _ => rfl
    | ref_ =>
      refine (mirrors_parens h.expr).via fun _ e he => ?_
      exact mirrors_builds (fun _ s => ⟨rfl, fun hw => Expr.asRead_unary s (by decide) (he hw)⟩) yields_tail fun _ => rfl
    | tobits_ =>
      refine (mirrors_parens h.expr).via fun _ e he => ?_
      exact mirrors_builds (fun _ s => ⟨rfl, fun hw => Expr.asRead_unary s (by decide) (he hw)⟩) yields_tail fun _ => rfl
    | assert_ =>
      refine (mirrors_parens h.formula).via fun _ p hp => ?_
      exact mirrors_builds (fun _ s => ⟨rfl, fun hw => Expr.asRead_assert s (hp hw)⟩) yields_tail fun _ => rfl
    | admit_ =>
      refine (mirrors_parens h.formula).via fun _ p hp => ?_
      exact mirrors_builds (fun _ s => ⟨rfl, fun hw => Expr.asRead_assume s (hp hw)⟩) yields_tail fun _ => rfl
    | _ => exact mirrors_fail _ _ _ (List.mem_singleton_self _)
  | eof => exact mirrors_fail _ _ _ (List.mem_singleton_self _)

theorem mirrors_primary : ReflectsExpr w false .suffix below.primary other.primary :=
  mirrors_build (P := fun _ => Expr.AsRead .suffix) fun _ ht => mirrors_primaryFrom h ht

omit h in
theorem mirrors_classHints : Reflects w false false Level.classHints Level.classHints (List.map Ident.bare)
    (fun _ cs => ∀ c ∈ cs, c.Legible) (List.map Ident.outline) := by
  intro m n _
  refine (mirrors_accept _).same fun _ given => ?_
  cases given with
  | true =>
    refine (mirrors_itemsBefore (List.map Ident.outline) _ mirrors_ident).via fun _ cs hcs => ?_
    refine (mirrors_sym _).then fun _ => ?_
    exact mirrors_pure ⟨rfl, hcs⟩ yields_moved
  | false => exact mirrors_pure ⟨rfl, fun _ => List.forall_mem_nil _⟩ .rfl

theorem mirrors_invocation (e : Expr) :
    Mirrors w ⟨true, n, [e.outline]⟩ (below.invocation e) (other.invocation e) (below.invocation e.bare)
      (fun _ => Via w Expr.bare fun t => ∀ _ : List TokenKind, e.AsRead .suffix → t.AsRead .suffix) d
      fun t => ⟨true, n, [t.outline]⟩ := by
  refine mirrors_next.then fun _ => ?_
  refine mirrors_ident.via fun _ x hx => ?_
  refine mirrors_classHints.via fun _ cs hcs => ?_
  refine (mirrors_args h).via fun _ args hargs => ?_
  exact mirrors_toPrev (o := e.outline) (fun s => ⟨by simp [Expr.bare, Expr.bareList_eq],
    fun hw _ he => Expr.asRead_invoke _ he (hx hw) (hcs hw) (hargs hw)⟩) (List.Sublist.refl _) fun _ => rfl

theorem mirrors_access (e : Expr) :
    Mirrors w ⟨true, n, [e.outline]⟩ (below.access e) (other.access e) (below.access e.bare)
      (fun _ => Via w Expr.bare fun t => ∀ _ : List TokenKind, e.AsRead .suffix → t.AsRead .suffix) d
      fun t => ⟨true, n, [t.outline]⟩ := by
  refine mirrors_next.then fun _ => ?_
  refine h.assign.via fun _ key hkey => ?_
  refine (mirrors_accept _).same fun _ updates => ?_
  cases updates with
  | true =>
    refine h.assign.via fun _ value hvalue => ?_
    refine (mirrors_sym _).via fun _ stop _ => ?_
    exact mirrors_pure ⟨by simp [Expr.bare], fun hw _ he => Expr.asRead_update _ he (hkey hw) (hvalue hw)⟩
      yields_node_to
  | false =>
    refine (mirrors_sym _).via fun _ stop _ => ?_
    exact mirrors_pure ⟨by simp [Expr.bare], fun hw _ he => Expr.asRead_index _ he (hkey hw)⟩ yields_node_to

theorem mirrors_suffixed : ReflectsExpr w false .suffix below.suffixed other.suffixed := by
  refine mirrors_suffixes (mirrors_primary h) fun e k => ?_
  unfold Level.suffix?
  split
  · exact mirrors_invocation h e
  · exact mirrors_access h e
  · trivial

omit h in
theorem combines_binaryExpr (op : BinaryOp) (hop : op ≠ .compare .same) :
    Combines w Expr.bare (fun _ => Expr.AsRead op.precs.2.1) (fun _ => Expr.AsRead op.precs.2.2)
      (fun _ => Expr.AsRead op.precs.1) (fun e => [e.outline]) (binaryExpr op) :=
  fun _ _ => ⟨⟨by simp [binaryExpr, Expr.bare], fun _ _ _ ha hb => Expr.asRead_binary _ hop ha hb⟩,
    fun _ => yields_node⟩

theorem mirrors_product : ReflectsExpr w false .mul below.product other.product := by
  refine mirrors_chain (mirrors_suffixed h) (fun _ e he => he.loosen (by decide)) ?_
  intro k combine hk
  obtain ⟨op, hop, rfl⟩ := Option.map_eq_some_iff.1 hk
  unfold mulOp? at hop
  split at hop <;> cases hop
  · exact combines_binaryExpr (.arith .mul) (by decide)
  · exact combines_binaryExpr (.arith .div) (by decide)
  · exact combines_binaryExpr (.arith .mod) (by decide)

theorem mirrors_sum : ReflectsExpr w false .add below.sum other.sum := by
  refine mirrors_chain (mirrors_product h) (fun _ e he => he.loosen (by decide)) ?_
  intro k combine hk
  obtain ⟨op, hop, rfl⟩ := Option.map_eq_some_iff.1 hk
  unfold addOp? at hop
  split at hop <;> cases hop
  · exact combines_binaryExpr (.arith .add) (by decide)
  · exact combines_binaryExpr (.arith .sub) (by decide)

theorem mirrors_compared : ReflectsExpr w false .cmp below.compared other.compared := by
  refine mirrors_comparison (mirrors_sum h) (fun _ e he => he.loosen (by decide)) fun k op hk => ?_
  refine combines_binaryExpr (.compare op) ?_
  rintro ⟨⟩
  unfold compareOp? at hk
  split at hk <;> cases hk

theorem mirrors_negated : ReflectsExpr w false .not below.negated other.negated := by
  intro m n _
  refine (looks_sees _).same fun negative => ?_
  cases negative with
  | true =>
    refine (mirrors_sym _).via fun _ start _ => ?_
    refine h.negation.via fun _ e he => ?_
    exact mirrors_pure ⟨by simp [Expr.bare], fun hw => Expr.asRead_not _ (he hw)⟩ yields_node_from
  | false => exact (mirrors_compared h).mono (fun _ e he => he.loosen (by decide)) m n

theorem mirrors_conjunction : ReflectsExpr w false .and below.conjunction other.conjunction := by
  refine mirrors_chain (mirrors_negated h) (fun _ e he => he.loosen (by decide)) fun k combine hk => ?_
  split at hk <;> cases hk
  exact combines_binaryExpr (.logic .and) (by decide)

theorem mirrors_disjunction : ReflectsExpr w false .or below.disjunction other.disjunction := by
  refine mirrors_chain (mirrors_conjunction h) (fun _ e he => he.loosen (by decide)) fun k combine hk => ?_
  split at hk <;> cases hk
  exact combines_binaryExpr (.logic .or) (by decide)

theorem mirrors_conditional : ReflectsExpr w false .ternary below.conditional other.conditional := by
  intro m n _
  refine (mirrors_disjunction h).via fun _ cond hcond => ?_
  refine (mirrors_accept _).same fun _ asks => ?_
  cases asks with
  | true =>
    refine h.assign.via fun _ yes hyes => ?_
    refine (mirrors_sym _).then fun _ => ?_
    refine h.assign.via fun _ no hno => ?_
    exact mirrors_pure ⟨by simp [Expr.bare], fun hw => Expr.asRead_ternary _ (hcond hw) (hyes hw) (hno hw)⟩
      yields_node
  | false => exact mirrors_pure ⟨rfl, fun hw => (hcond hw).loosen (by decide)⟩ .rfl

theorem mirrors_assignment : ReflectsExpr w false .assign below.assignment other.assignment := by
  intro m n _
  refine looks_peek.same fun k => ?_
  refine looks_peekSecond.same fun l => ?_
  split
  · refine mirrors_ident.via fun _ x hx => ?_
    refine mirrors_next.then fun _ => ?_
    refine h.assign.via fun _ e he => ?_
    exact mirrors_pure ⟨by simp [Expr.bare], fun hw => Expr.asRead_assign _ (hx hw) (he hw)⟩ yields_node
  · exact (mirrors_conditional h).mono (fun _ e he => he.loosen (by decide)) m n

theorem mirrors_sequence : ReflectsExpr w false .lowest below.sequence other.sequence := by
  intro m n _
  refine (mirrors_assignment h).via fun _ head hhead => ?_
  refine (mirrors_accept _).same fun _ more => ?_
  cases more with
  | true =>
    refine looks_peek.same fun k => ?_
    split
    · exact mirrors_pure ⟨rfl, fun hw => (hhead hw).loosen (by decide)⟩ .rfl
    · refine h.expr.via fun _ tail htail => ?_
      exact mirrors_pure ⟨by simp [Expr.bare], fun hw => Expr.asRead_seq _ (hhead hw) (htail hw)⟩ yields_node
  | false => exact mirrors_pure ⟨rfl, fun hw => (hhead hw).loosen (by decide)⟩ .rfl

theorem mirrors_contexts : Reflects w false false below.contexts other.contexts (List.map Expr.bare)
    (fun _ cs => ∀ c ∈ cs, c.AsRead .lowest) Expr.outlines :=
  mirrors_many _ _ (mirrors_parens h.expr)

/-! ## Formulas -/

theorem mirrors_heapReference : Reflects w false true below.heapReference other.heapReference
    (fun r => (r.1.bare, r.2.bare)) (fun _ r => r.1.AsRead ∧ r.2.AsRead .lowest)
    fun r => r.1.parts ++ [r.2.outline] := by
  refine mirrors_parens (b := true) (d := true) fun m n _ => ?_
  refine h.heap.via fun _ heap hheap => ?_
  refine (mirrors_sym _).then fun _ => ?_
  refine h.formula.via fun _ p hp => ?_
  exact mirrors_pure ⟨rfl, fun hw => ⟨hheap hw, hp hw⟩⟩ .rfl

theorem mirrors_heapTerm : Reflects w false true below.heapTerm other.heapTerm HeapTerm.bare
    (fun _ => HeapTerm.AsRead) HeapTerm.parts := by
  intro m n _
  refine mirrors_ident.via fun _ head _ => ?_
  rw [Ident.name_bare]
  split
  · refine (mirrors_parens (b := false) (d := true) (Q := HeapTerm.AsRead) fun m n _ => ?_).tail fun _ => yields_tail
    refine mirrors_ident.via fun _ side _ => ?_
    rw [Ident.name_bare]
    split
    · exact mirrors_pure ⟨rfl, fun _ => HeapTerm.asRead_side _⟩ yields_tail
    · exact mirrors_pure ⟨rfl, fun _ => HeapTerm.asRead_side _⟩ yields_tail
    · exact mirrors_fail _ _ _ (List.mem_singleton_self _)
  · refine ((mirrors_heapReference h).via fun _ r hr => ?_).from yields_tail
    exact mirrors_pure ⟨rfl, fun hw => HeapTerm.asRead_inHeap (hr hw).1 (hr hw).2⟩ .rfl
  · exact mirrors_fail _ _ _ (List.mem_singleton_self _)

theorem mirrors_objectFrom (head : Ident) :
    Mirrors w ⟨true, n, [head.outline]⟩ (below.objectFrom head) (other.objectFrom head)
      (below.objectFrom head.bare) (fun _ => Via w ObjectTerm.bare ObjectTerm.AsRead) false
      fun o => ⟨true, n, o.parts⟩ := by
  unfold Level.objectFrom
  rw [Ident.name_bare]
  split
  · exact mirrors_pure ⟨rfl, fun _ => ObjectTerm.asRead_side _⟩ yields_tail
  · exact mirrors_pure ⟨rfl, fun _ => ObjectTerm.asRead_side _⟩ yields_tail
  · refine ((mirrors_heapReference h).via fun _ r hr => ?_).from yields_tail
    exact mirrors_pure ⟨rfl, fun hw => ObjectTerm.asRead_inHeap (hr hw).1 (hr hw).2⟩ .rfl
  · exact mirrors_fail _ _ _ (List.mem_singleton_self _)

theorem mirrors_objectTerm : Reflects w false true below.objectTerm other.objectTerm ObjectTerm.bare
    (fun _ => ObjectTerm.AsRead) ObjectTerm.parts := by
  intro m n _
  refine mirrors_ident.via fun _ head _ => ?_
  exact mirrors_objectFrom h head

/-- What waits for its span, if the formula does not begin with a call. -/
abbrev BuildsFormula (w : Setting) (ks : List TokenKind) : (Span → Formula) → (Span → Formula) → Prop :=
  Builds w Formula.bare (fun p => p.AsRead .suffix ∧ BeginsWithCall ks p) Formula.outline Formula.parts

omit h in
theorem mirrors_noCall {build bareBuild : Span → Formula} {s : Stage} {ks : Input → List TokenKind}
    (hs : s.Yields w ⟨m, n, (build .nowhere).parts⟩) (h : ∀ e, w.Known → (build e).AsRead .suffix)
    (hb : ∀ e, bareBuild .nowhere = (build e).bare ∧ (build e).headCall? = none ∧
      (build e).outline = .node e (build .nowhere).parts) :
    Mirrors w s (pure build) (pure build) (pure bareBuild) (fun i => BuildsFormula w (ks i)) false
      fun build => ⟨m, n, (build .nowhere).parts⟩ :=
  mirrors_builds (fun _ e => ⟨(hb e).1, fun hw => ⟨h e hw, beginsWithCall_of_none (hb e).2.1 _⟩⟩) hs fun e => (hb e).2.2

omit h in
theorem mirrors_member {o : ObjectTerm} (ho : w.Known → o.AsRead) (ks : List TokenKind) :
    Mirrors w ⟨true, n, o.parts⟩ (Level.member o) (Level.member o) (Level.member o.bare)
      (fun _ => BuildsFormula w ks) d fun build => ⟨true, n, (build .nowhere).parts⟩ := by
  refine looks_peek.same fun k => ?_
  split
  · refine mirrors_next.then fun _ => ?_
    refine mirrors_ident.via fun _ x hx => ?_
    exact mirrors_noCall .rfl (fun e hw => Formula.asRead_field e (ho hw) (hx hw)) fun _ => ⟨rfl, rfl, rfl⟩
  · refine mirrors_next.then fun _ => ?_
    refine mirrors_ident.via fun _ c hc => ?_
    by_cases hname : c.name = "invalid"
    · simp only [Ident.name_bare, hname, beq_self_eq_true, if_true]
      exact mirrors_noCall (yields_sublist (by simp [Formula.parts, ClassRef.parts]))
        (fun e hw => Formula.asRead_objectIs_invalid e (ho hw)) fun _ => ⟨rfl, rfl, rfl⟩
    · simp only [Ident.name_bare, beq_iff_eq, hname, if_false]
      exact mirrors_noCall .rfl (fun e hw => Formula.asRead_objectIs_named e (ho hw) (hc hw) hname) fun _ => ⟨rfl, rfl, rfl⟩
  · exact mirrors_failHere _

theorem mirrors_formulaPair : Reflects w false true below.formulaPair other.formulaPair
    (fun r => (r.1.bare, r.2.bare)) (fun _ r => r.1.AsRead .lowest ∧ r.2.AsRead .lowest)
    fun r => [r.1.outline] ++ [r.2.outline] := by
  refine mirrors_parens (b := true) (d := true) fun m n _ => ?_
  refine h.formula.via fun _ p hp => ?_
  refine (mirrors_sym _).then fun _ => ?_
  refine h.formula.via fun _ q hq => ?_
  exact mirrors_pure ⟨rfl, fun hw => ⟨hp hw, hq hw⟩⟩ .rfl

omit h in
/-- A parser that looks at the next token knows something of the tokens to come. -/
theorem mirrors_sees {α : Type} {y : TokenKind} {k k' : Bool → Parser α} {l : Bool → Parser α} {s : Stage}
    {S : List TokenKind → α → α → Prop} {u : α → Stage}
    (hk : ∀ ks seen, (seen = true → ∃ rs, ks = y :: rs) → Mirrors w s (k seen) (k' seen) (l seen) (fun _ => S ks) d u) :
    Mirrors w s (sees y >>= k) (sees y >>= k') (sees y >>= l) (fun i => S i.kinds) d u := by
  rintro ⟨prev, rest⟩ hi
  obtain ⟨seen, hp, hq⟩ := looks_sees y ⟨prev, rest⟩
  have hseen : seen = (rest.head?.map (·.kind) == some y) := by cases hp; rfl
  rw [StateT.run_bind, StateT.run_bind, StateT.run_bind, hp, hq]
  refine hk _ seen (fun htrue => ?_) _ hi
  cases rest with
  | nil => cases hseen.symm.trans htrue
  | cons t rest => exact ⟨_, congrArg (· :: _) (by simpa [htrue] using hseen)⟩

theorem mirrors_formulaAfterIdent {x : Ident} (hx : w.Known → x.Legible) :
    Mirrors w ⟨true, n, [x.outline]⟩ (below.formulaAfterIdent x) (other.formulaAfterIdent x)
      (below.formulaAfterIdent x.bare) (fun i => BuildsFormula w (.ident x.name :: i.kinds)) false
      fun build => ⟨true, n, (build .nowhere).parts⟩ := by
  refine mirrors_sees (S := fun ks => BuildsFormula w (.ident x.name :: ks)) fun ks called hcalled => ?_
  rw [Ident.name_bare]
  split
  · exact (mirrors_objectFrom h x).bind fun _ o _ ho => ho.eq ▸ mirrors_member ho.prop _
  · rename_i hobject
    simp only [Bool.or_eq_true, Bool.and_eq_true, beq_iff_eq, not_or, not_and] at hobject
    split
    · let pair (below : Level) : Parser (ObjectTerm × ObjectTerm) := do
        let a ← below.objectTerm
        discard <| sym .comma
        let b ← below.objectTerm
        return (a, b)
      have hpair : Reflects w false true (pair below) (pair other) (fun r => (r.1.bare, r.2.bare))
          (fun _ r => r.1.AsRead ∧ r.2.AsRead) fun r => r.1.parts ++ r.2.parts := by
        intro m n _
        refine (mirrors_objectTerm h).via fun _ a ha => ?_
        refine (mirrors_sym _).then fun _ => ?_
        refine (mirrors_objectTerm h).via fun _ b hb => ?_
        exact mirrors_pure ⟨rfl, fun hw => ⟨ha hw, hb hw⟩⟩ .rfl
      refine ((mirrors_parens hpair).via fun _ r hr => ?_).from yields_tail
      exact mirrors_noCall .rfl (fun s hw => Formula.asRead_sameObject s (hr hw).1 (hr hw).2) fun _ => ⟨rfl, rfl, rfl⟩
    · rename_i hsame
      simp only [Bool.and_eq_true, beq_iff_eq, not_and] at hsame
      split
      · rename_i htrue
        obtain ⟨rs, rfl⟩ := hcalled htrue
        refine (mirrors_parens (mirrors_itemsBefore Formula.outlines _ h.formula)).via fun _ args hargs => ?_
        have hname : x.name ∉ Formula.calledNames := by
          simp only [Formula.calledNames, List.mem_cons, List.not_mem_nil, or_false, not_or]
          exact ⟨hobject.1.1, hobject.1.2, fun he => hobject.2 he htrue, fun he => hsame he htrue⟩
        refine mirrors_builds (fun _ s => ⟨by rw [Formula.bare, Formula.bareList_eq], fun hw =>
          ⟨Formula.asRead_call s (hx hw) hname (hargs hw), ?_⟩⟩) .rfl fun _ => rfl
        rintro f ⟨⟩
        exact ⟨rs, rfl⟩
      · have hname : x.name ∉ Formula.objectNames := by
          simpa [Formula.objectNames] using hobject.1
        exact mirrors_noCall .rfl (fun s hw => Formula.asRead_lookup s (hx hw) hname) fun _ => ⟨rfl, rfl, rfl⟩

theorem mirrors_primaryFormulaFrom {t : Token} (ht : w.Known → t ∈ w.tokens) :
    Mirrors w ⟨true, n, [leaf t.span]⟩ (below.primaryFormulaFrom t) (other.primaryFormulaFrom t)
      (below.primaryFormulaFrom t.bare) (fun i => BuildsFormula w (t.kind :: i.kinds)) false
      fun build => ⟨true, n, (build .nowhere).parts⟩ := by
  obtain ⟨k, s⟩ := t
  cases k with
  | int v => exact mirrors_noCall yields_tail (fun s _ => Formula.asRead_int s v) fun _ => ⟨rfl, rfl, rfl⟩
  | ident x =>
    exact mirrors_formulaAfterIdent h (x := ⟨s, x⟩) fun hw => (w.scanned hw).legible _ (ht hw) x rfl
  | sym y =>
    cases y with
    | lParen =>
      refine h.formula.via fun _ p hp => ?_
      refine (mirrors_sym _).then fun _ => ?_
      exact mirrors_noCall yields_tail (fun s hw => Formula.asRead_paren s (hp hw)) fun _ => ⟨rfl, rfl, rfl⟩
    | _ => exact mirrors_fail _ _ _ (List.mem_singleton_self _)
  | keyword k =>
    cases k with
    | true_ => exact mirrors_noCall yields_tail (fun s _ => Formula.asRead_bool s _) fun _ => ⟨rfl, rfl, rfl⟩
    | false_ => exact mirrors_noCall yields_tail (fun s _ => Formula.asRead_bool s _) fun _ => ⟨rfl, rfl, rfl⟩
    | tobits_ =>
      refine (mirrors_parens h.formula).via fun _ p hp => ?_
      exact mirrors_noCall yields_tail (fun s hw => Formula.asRead_unary s (by decide) (hp hw)) fun _ => ⟨rfl, rfl, rfl⟩
    | isbits_ =>
      refine (mirrors_parens h.formula).via fun _ p hp => ?_
      exact mirrors_noCall yields_tail (fun s hw => Formula.asRead_unary s (by decide) (hp hw)) fun _ => ⟨rfl, rfl, rfl⟩
    | env_ =>
      refine (mirrors_contexts h).via fun _ cs hcs => ?_
      exact mirrors_noCall yields_tail (fun s hw => Formula.asRead_env s (hcs hw))
        fun s => ⟨by rw [Formula.bare, Expr.bareList_eq], rfl, rfl⟩
    | independence_ =>
      refine (mirrors_sym _).then fun _ => ?_
      refine h.heap.via fun _ heap hheap => ?_
      refine (mirrors_sym _).then fun _ => ?_
      refine h.formula.via fun _ p hp => ?_
      refine (mirrors_sym _).then fun _ => ?_
      refine h.formula.via fun _ q hq => ?_
      refine (mirrors_sym _).then fun _ => ?_
      refine mirrors_noCall (yields_sublist ?_)
        (fun s hw => Formula.asRead_independence s (hheap hw) (hp hw) (hq hw)) fun _ => ⟨rfl, rfl, rfl⟩
      simp [Formula.parts, Formula.outline]
    | frame_ =>
      refine (looks_sees _).same fun called => ?_
      cases called with
      | true =>
        refine (mirrors_formulaPair h).via fun _ r hr => ?_
        exact mirrors_noCall yields_tail (fun s hw => Formula.asRead_frame s (hr hw).1 (hr hw).2) fun _ => ⟨rfl, rfl, rfl⟩
      | false => exact mirrors_noCall yields_tail (fun s _ => Formula.asRead_frameAll s) fun _ => ⟨rfl, rfl, rfl⟩
    | frameHeap_ =>
      refine (mirrors_sym _).then fun _ => ?_
      refine h.heap.via fun _ left hleft => ?_
      refine (mirrors_sym _).then fun _ => ?_
      refine h.heap.via fun _ right hright => ?_
      refine (mirrors_sym _).then fun _ => ?_
      refine h.formula.via fun _ p hp => ?_
      refine (mirrors_sym _).then fun _ => ?_
      refine h.formula.via fun _ q hq => ?_
      refine (mirrors_sym _).then fun _ => ?_
      refine mirrors_noCall (yields_sublist ?_)
        (fun s hw => Formula.asRead_frameHeap s (hleft hw) (hright hw) (hp hw) (hq hw)) fun _ => ⟨rfl, rfl, rfl⟩
      simp [Formula.parts, Formula.outline]
    | fieldsEqual_ => exact mirrors_noCall yields_tail (fun s _ => Formula.asRead_fieldsEqual s) fun _ => ⟨rfl, rfl, rfl⟩
    | fieldsEqualExcept_ =>
      refine (mirrors_parens (mirrors_itemsBefore (List.map Ident.outline) _ mirrors_ident)).via fun _ xs hxs => ?_
      exact mirrors_noCall yields_tail (fun s hw => Formula.asRead_fieldsEqualExcept s (hxs hw)) fun _ => ⟨rfl, rfl, rfl⟩
    | _ => exact mirrors_fail _ _ _ (List.mem_singleton_self _)
  | eof => exact mirrors_fail _ _ _ (List.mem_singleton_self _)

theorem mirrors_primaryFormula : BeginsFormula w false .suffix below.primaryFormula other.primaryFormula :=
  mirrors_build (P := fun ks p => Formula.AsRead .suffix p ∧ BeginsWithCall ks p) fun _ ht => mirrors_primaryFormulaFrom h ht

theorem mirrors_accessFormula (p : Formula) :
    Mirrors w ⟨true, n, [p.outline]⟩ (below.accessFormula p) (other.accessFormula p) (below.accessFormula p.bare)
      (fun _ => Via w Formula.bare fun q => ∀ ks : List TokenKind, p.AsRead .suffix ∧ BeginsWithCall ks p →
        q.AsRead .suffix ∧ BeginsWithCall ks q) d
      fun q => ⟨true, n, [q.outline]⟩ := by
  refine mirrors_next.then fun _ => ?_
  refine h.formula.via fun _ key hkey => ?_
  refine (mirrors_accept _).same fun _ updates => ?_
  cases updates with
  | true =>
    refine h.formula.via fun _ value hvalue => ?_
    refine (mirrors_sym _).via fun _ stop _ => ?_
    exact mirrors_pure ⟨by simp [Formula.bare], fun hw _ hp =>
      ⟨Formula.asRead_update _ hp.1 (hkey hw) (hvalue hw), hp.2⟩⟩ yields_node_to
  | false =>
    refine (mirrors_sym _).via fun _ stop _ => ?_
    exact mirrors_pure ⟨by simp [Formula.bare], fun hw _ hp => ⟨Formula.asRead_index _ hp.1 (hkey hw), hp.2⟩⟩
      yields_node_to

theorem mirrors_suffixedFormula : BeginsFormula w false .suffix below.suffixedFormula other.suffixedFormula := by
  refine mirrors_suffixes (mirrors_primaryFormula h) fun p k => ?_
  split
  · exact mirrors_accessFormula h p
  · trivial

omit h in
theorem beginsFormula_loosen {least least' : FormulaPrec} (hle : least'.rank ≤ least.rank) (ks : List TokenKind) (p : Formula)
    (hp : p.AsRead least ∧ BeginsWithCall ks p) : p.AsRead least' ∧ BeginsWithCall ks p :=
  ⟨hp.1.loosen hle, hp.2⟩

omit h in
theorem combines_binaryFormula (op : FormulaOp) :
    Combines w Formula.bare (fun ks p => p.AsRead op.precs.2.1 ∧ BeginsWithCall ks p)
      (fun ks q => q.AsRead op.precs.2.2 ∧ BeginsWithCall ks q)
      (fun ks r => r.AsRead op.precs.1 ∧ BeginsWithCall ks r) (fun p => [p.outline]) (binaryFormula op) :=
  fun _ _ => ⟨⟨by simp [binaryFormula, Formula.bare], fun _ _ _ hp hq =>
    ⟨Formula.asRead_binary _ op hp.1 hq.1, hp.2⟩⟩, fun _ => yields_node⟩

theorem mirrors_productFormula : BeginsFormula w false .mul below.productFormula other.productFormula := by
  refine mirrors_chain (mirrors_suffixedFormula h) (beginsFormula_loosen (by decide)) ?_
  intro k combine hk
  obtain ⟨op, hop, rfl⟩ := Option.map_eq_some_iff.1 hk
  unfold mulOp? at hop
  split at hop <;> cases hop
  · exact combines_binaryFormula (.arith .mul)
  · exact combines_binaryFormula (.arith .div)
  · exact combines_binaryFormula (.arith .mod)

theorem mirrors_sumFormula : BeginsFormula w false .add below.sumFormula other.sumFormula := by
  refine mirrors_chain (mirrors_productFormula h) (beginsFormula_loosen (by decide)) ?_
  intro k combine hk
  obtain ⟨op, hop, rfl⟩ := Option.map_eq_some_iff.1 hk
  unfold addOp? at hop
  split at hop <;> cases hop
  · exact combines_binaryFormula (.arith .add)
  · exact combines_binaryFormula (.arith .sub)

theorem mirrors_comparedFormula : BeginsFormula w false .cmp below.comparedFormula other.comparedFormula :=
  mirrors_comparison (mirrors_sumFormula h) (beginsFormula_loosen (by decide))
    fun _ op _ => combines_binaryFormula (.compare op)

theorem mirrors_negationFormula : BeginsFormula w false .not below.negationFormula other.negationFormula := by
  intro m n _
  refine (looks_sees _).same fun negative => ?_
  cases negative with
  | true =>
    refine (mirrors_sym _).via fun _ start _ => ?_
    refine h.negatedFormula.via fun _ p hp => ?_
    exact mirrors_pure ⟨by simp [Formula.bare], fun hw =>
      ⟨Formula.asRead_not _ (hp hw), beginsWithCall_of_none rfl _⟩⟩ yields_node_from
  | false => exact (mirrors_comparedFormula h).mono (beginsFormula_loosen (by decide)) m n

theorem mirrors_conjunctionFormula : BeginsFormula w false .and below.conjunctionFormula other.conjunctionFormula := by
  refine mirrors_chain (mirrors_negationFormula h) (beginsFormula_loosen (by decide)) fun k combine hk => ?_
  split at hk <;> cases hk
  exact combines_binaryFormula (.logic .and)

theorem mirrors_disjunctionFormula : BeginsFormula w false .or below.disjunctionFormula other.disjunctionFormula := by
  refine mirrors_chain (mirrors_conjunctionFormula h) (beginsFormula_loosen (by decide)) fun k combine hk => ?_
  split at hk <;> cases hk
  exact combines_binaryFormula (.logic .or)

theorem mirrors_quantified (q : Quantifier) :
    BeginsFormula w false .lowest (below.quantified q) (other.quantified q) := by
  intro m n _
  refine mirrors_next.via fun _ t _ => ?_
  refine mirrors_params.via fun _ ps hps => ?_
  refine (mirrors_sym _).then fun _ => ?_
  refine h.formula.via fun _ p hp => ?_
  exact mirrors_pure ⟨by simp [Formula.bare, Token.bare], fun hw =>
    ⟨Formula.asRead_quant _ q (hps hw) (hp hw), beginsWithCall_of_none rfl _⟩⟩ yields_node_from

theorem mirrors_anyFormula : BeginsFormula w false .lowest below.anyFormula other.anyFormula := by
  intro m n _
  refine looks_peek.same fun k => ?_
  split
  · exact mirrors_quantified h _ m n
  · exact mirrors_quantified h _ m n
  · refine (mirrors_disjunctionFormula h).via fun _ p hp => ?_
    refine (mirrors_accept _).same fun _ implies => ?_
    cases implies with
    | true =>
      refine h.formula.via fun _ q hq => ?_
      exact mirrors_pure ⟨by simp [binaryFormula, Formula.bare], fun hw =>
        ⟨(Formula.asRead_binary _ (.logic .implies) (hp hw).1 (hq hw)).loosen (by decide), (hp hw).2⟩⟩ yields_node
    | false => exact mirrors_pure ⟨rfl, fun hw => beginsFormula_loosen (by decide) _ p (hp hw)⟩ .rfl

/-! ## Bounds -/

theorem mirrors_primaryBoundFrom {t : Token} (ht : w.Known → t ∈ w.tokens) :
    Mirrors w ⟨true, n, [leaf t.span]⟩ (below.primaryBoundFrom t) (other.primaryBoundFrom t)
      (below.primaryBoundFrom t.bare) (fun _ => Builds w Bound.bare (Bound.AsRead .primary) Bound.outline Bound.parts)
      false fun build => ⟨true, n, (build .nowhere).parts⟩ := by
  obtain ⟨k, s⟩ := t
  cases k with
  | int v => exact mirrors_builds (fun _ e => ⟨rfl, fun _ => Bound.asRead_int e v⟩) yields_tail fun _ => rfl
  | ident x =>
    have hx (hw : w.Known) : Ident.Legible ⟨s, x⟩ := (w.scanned hw).legible _ (ht hw) x rfl
    refine (looks_sees _).same fun called => ?_
    cases called with
    | true =>
      refine (mirrors_parens (mirrors_itemsBefore Bound.outlines _ h.bound)).via fun _ args hargs => ?_
      exact mirrors_builds (fun _ s => ⟨by rw [Bound.bare, Bound.bareList_eq]; rfl,
        fun hw => Bound.asRead_call s (hx hw) (hargs hw)⟩) .rfl fun _ => rfl
    | false => exact mirrors_builds (fun _ s => ⟨rfl, fun hw => Bound.asRead_lookup s (hx hw)⟩) .rfl fun _ => rfl
  | sym y =>
    cases y with
    | lParen =>
      refine h.bound.via fun _ b hb => ?_
      refine (mirrors_sym _).then fun _ => ?_
      exact mirrors_builds (fun _ s => ⟨rfl, fun hw => Bound.asRead_paren s (hb hw)⟩) yields_tail fun _ => rfl
    | _ => exact mirrors_fail _ _ _ (List.mem_singleton_self _)
  | keyword k =>
    cases k with
    | env_ =>
      refine (mirrors_contexts h).via fun _ cs hcs => ?_
      exact mirrors_builds (fun _ s => ⟨by rw [Bound.bare, Expr.bareList_eq], fun hw => Bound.asRead_env s (hcs hw)⟩)
        yields_tail fun _ => rfl
    | _ => exact mirrors_fail _ _ _ (List.mem_singleton_self _)
  | eof => exact mirrors_fail _ _ _ (List.mem_singleton_self _)

theorem mirrors_primaryBound : ReflectsBound w false .primary below.primaryBound other.primaryBound :=
  mirrors_build (P := fun _ => Bound.AsRead .primary) fun _ ht => mirrors_primaryBoundFrom h ht

omit h in
theorem combines_binaryBound (op : BoundOp) :
    Combines w Bound.bare (fun _ => Bound.AsRead op.precs.2.1) (fun _ => Bound.AsRead op.precs.2.2)
      (fun _ => Bound.AsRead op.precs.1) (fun b => [b.outline]) (binaryBound op) :=
  fun _ _ => ⟨⟨by simp [binaryBound, Bound.bare], fun _ _ _ ha hb => Bound.asRead_binary _ op ha hb⟩,
    fun _ => yields_node⟩

theorem mirrors_powerBound : ReflectsBound w false .pow below.powerBound other.powerBound := by
  intro m n _
  refine (mirrors_primaryBound h).via fun _ a ha => ?_
  refine (mirrors_accept _).same fun _ raised => ?_
  cases raised with
  | true =>
    refine h.power.via fun _ b hb => ?_
    exact mirrors_pure ⟨by simp [binaryBound, Bound.bare], fun hw => Bound.asRead_binary _ .pow (ha hw) (hb hw)⟩
      yields_node
  | false => exact mirrors_pure ⟨rfl, fun hw => (ha hw).loosen (by decide)⟩ .rfl

theorem mirrors_productBound : ReflectsBound w false .mul below.productBound other.productBound := by
  refine mirrors_chain (mirrors_powerBound h) (fun _ b hb => hb.loosen (by decide)) fun k combine hk => ?_
  split at hk <;> cases hk
  · exact combines_binaryBound .mul
  · exact combines_binaryBound .div

theorem mirrors_sumBound : ReflectsBound w false .lowest below.sumBound other.sumBound := by
  refine mirrors_chain (mirrors_productBound h) (fun _ b hb => hb.loosen (by decide)) fun k combine hk => ?_
  split at hk <;> cases hk
  · exact combines_binaryBound .add
  · exact combines_binaryBound .sub

/-! ## The knot -/

theorem tied_above : below.above.Tied w false other.above where
  expr := mirrors_sequence h
  assign := mirrors_assignment h
  negation := mirrors_negated h
  begins := mirrors_anyFormula h
  negatedFormula := (mirrors_negationFormula h).mono fun _ _ hp => hp.1
  heap := mirrors_heapTerm h
  bound := mirrors_sumBound h
  power := mirrors_powerBound h

end

/-- The end of the tokens. -/
def Setting.suffix (w : Setting) (ts : List Token) (h : ts <:+ w.tokens) : Setting where
  tokens := ts
  text := w.text
  Known := w.Known
  scanned hw := (w.scanned hw).sublist h.sublist

/-- What is so for fewer tokens is so once a token was read. -/
theorem Reflects.widen {α : Type} {p p' : Parser α} {f : α → α} {P : List TokenKind → α → Prop} {out : α → List Outline}
    (h : ∀ ts hts, ts.length < w.tokens.length → Reflects (w.suffix ts hts) false d p p' f P out) :
    Reflects w true d p p' f P out := by
  intro m n hm i hi
  have hmoved := hi.moved (hm.moved rfl)
  obtain ⟨heq, hends⟩ := h i.rest hi.within hmoved false n i
    ⟨List.suffix_refl _, nofun, hi.prev, hi.ahead, hi.read⟩
  refine ⟨heq, ?_⟩
  generalize StateT.run p i = x at hends ⊢
  generalize StateT.run p (bareInput i.kinds) = y at hends ⊢
  cases hends with
  | error he => exact .error he
  | ok hab hij hj =>
    exact .ok ⟨hab.eq, hab.prop⟩ ⟨hij.rest, hij.moved, hij.prev⟩ ⟨hj.within.trans hi.within,
      fun _ => Nat.lt_of_le_of_lt hj.within.length_le hmoved, hj.prev, hj.ahead, hj.read⟩

theorem Level.Tied.widen {L M : Level}
    (h : ∀ ts hts, ts.length < w.tokens.length → L.Tied (w.suffix ts hts) false M) : L.Tied w true M where
  expr := .widen fun ts hts hlt => (h ts hts hlt).expr
  assign := .widen fun ts hts hlt => (h ts hts hlt).assign
  negation := .widen fun ts hts hlt => (h ts hts hlt).negation
  begins := .widen fun ts hts hlt => (h ts hts hlt).begins
  negatedFormula := .widen fun ts hts hlt => (h ts hts hlt).negatedFormula
  heap := .widen fun ts hts hlt => (h ts hts hlt).heap
  bound := .widen fun ts hts hlt => (h ts hts hlt).bound
  power := .widen fun ts hts hlt => (h ts hts hlt).power

/-- Whether a level has `k` levels below it at least. -/
inductive Level.Over : Nat → Level → Prop
  | zero (L : Level) : Over 0 L
  | succ {k : Nat} {L : Level} : Over k L → Over (k + 1) L.above

theorem Level.over_ofDepth {k n : Nat} (h : k ≤ n) : Level.Over k (Level.ofDepth n) := by
  induction k generalizing n with
  | zero => exact .zero _
  | succ k ih =>
    cases n with
    | zero => cases h
    | succ n => exact .succ (ih (Nat.le_of_succ_le_succ h))

/-- **Levels with as many levels below them as there are tokens do the same.** -/
theorem Level.Over.tied {k : Nat} {L M : Level} (hL : L.Over k) (hM : M.Over k) (h : w.tokens.length ≤ k) :
    L.Tied w true M := by
  induction hL generalizing w M with
  | zero L => exact .widen fun ts _ hlt => absurd hlt (by omega)
  | succ hL ih =>
    cases hM with
    | succ hM => exact .widen fun ts _ hlt => tied_above (ih hM (by change ts.length ≤ _; omega))

theorem Level.Over.tied_above {k : Nat} {L M : Level} (hL : L.Over (k + 1)) (hM : M.Over (k + 1))
    (h : w.tokens.length ≤ k) : L.Tied w false M := by
  cases hL with
  | succ hL =>
    cases hM with
    | succ hM => exact Parser.tied_above (hL.tied hM h)

/-! ## The unbounded parsers -/

/-- The tokens of an input, of an unknown text. -/
def Setting.ofInput (i : Input) : Setting :=
  ⟨i.rest, "", False, False.elim⟩

theorem Reflects.run_eq {α : Type} {p p' : Parser α} {f : α → α} {P : List TokenKind → α → Prop}
    {out : α → List Outline} {i : Input} (h : Reflects (.ofInput i) false d p p' f P out) :
    StateT.run p' i = StateT.run p i :=
  (h false 0 i ⟨List.suffix_refl _, nofun, False.elim, False.elim, False.elim⟩).1

theorem Reflects.congr {α : Type} {p p' q : Parser α} {f : α → α} {P : List TokenKind → α → Prop}
    {out : α → List Outline} {b : Bool} (h : Reflects w b d p p' f P out)
    (hq : ∀ i : Input, i.rest.length ≤ w.tokens.length → StateT.run p i = StateT.run q i) :
    Reflects w b d q p' f P out := by
  intro m n _ i hi
  have hlen := hi.within.length_le
  rw [← hq i hlen, ← hq (bareInput i.kinds) (by simpa [bareInput, Input.kinds] using hlen)]
  exact h m n i hi

/-- The parser for the number of tokens to come. -/
def atLength {α : Type} (p : Nat → Parser α) : Parser α :=
  fun i => p i.rest.length i

theorem Reflects.atLength {α : Type} {p : Nat → Parser α} {q p' : Parser α} {f : α → α}
    {P : List TokenKind → α → Prop} {out : α → List Outline} {b : Bool} (h : Reflects w b d q p' f P out)
    (hp : ∀ i : Input, i.rest.length ≤ w.tokens.length → StateT.run q i = StateT.run (p i.rest.length) i) :
    Reflects w b d (Parser.atLength p) p' f P out :=
  h.congr hp

/-- The parsers of terms of any number of levels: as many as there are tokens do. -/
def Level.full : Level where
  expr := atLength fun n => (ofDepth (n + 1)).expr
  assign := atLength fun n => (ofDepth (n + 1)).assign
  negation := atLength fun n => (ofDepth (n + 1)).negation
  formula := atLength fun n => (ofDepth (n + 1)).formula
  negatedFormula := atLength fun n => (ofDepth (n + 1)).negatedFormula
  heap := atLength fun n => (ofDepth (n + 1)).heap
  bound := atLength fun n => (ofDepth (n + 1)).bound
  power := atLength fun n => (ofDepth (n + 1)).power

theorem Level.tied_full {k : Nat} (h : w.tokens.length ≤ k) : Level.full.Tied w false (.ofDepth (k + 1)) := by
  have hk := (over_ofDepth (Nat.le_refl (k + 1))).tied_above (over_ofDepth (Nat.le_refl (k + 1))) h
  have hat (i : Input) (hi : i.rest.length ≤ w.tokens.length) :
      (ofDepth (i.rest.length + 1)).Tied (.ofInput i) false (ofDepth (k + 1)) :=
    (over_ofDepth (Nat.le_refl _)).tied_above (over_ofDepth (by omega)) (Nat.le_refl _)
  generalize ofDepth (k + 1) = L at hk hat ⊢
  constructor <;> dsimp only [full]
  · exact hk.expr.atLength fun i hi => (hat i hi).expr.run_eq
  · exact hk.assign.atLength fun i hi => (hat i hi).assign.run_eq
  · exact hk.negation.atLength fun i hi => (hat i hi).negation.run_eq
  · exact hk.begins.atLength fun i hi => (hat i hi).begins.run_eq
  · exact hk.negatedFormula.atLength fun i hi => (hat i hi).negatedFormula.run_eq
  · exact hk.heap.atLength fun i hi => (hat i hi).heap.run_eq
  · exact hk.bound.atLength fun i hi => (hat i hi).bound.run_eq
  · exact hk.power.atLength fun i hi => (hat i hi).power.run_eq

/-- **The parsers of terms are those that they ask for below them.** -/
theorem Level.above_full : Level.full.above = Level.full := by
  have hfull (i : Input) : full.Tied (.ofInput i) false (ofDepth (i.rest.length + 2)) := tied_full (Nat.le_succ _)
  have habove (i : Input) : full.above.Tied (.ofInput i) false (ofDepth (i.rest.length + 2)) :=
    Parser.tied_above (tied_full (Nat.le_refl i.rest.length)).late
  unfold Level.full Level.above
  congr 1 <;> funext i
  · exact (habove i).expr.run_eq.symm.trans (hfull i).expr.run_eq
  · exact (habove i).assign.run_eq.symm.trans (hfull i).assign.run_eq
  · exact (habove i).negation.run_eq.symm.trans (hfull i).negation.run_eq
  · exact (habove i).begins.run_eq.symm.trans (hfull i).begins.run_eq
  · exact (habove i).negatedFormula.run_eq.symm.trans (hfull i).negatedFormula.run_eq
  · exact (habove i).heap.run_eq.symm.trans (hfull i).heap.run_eq
  · exact (habove i).bound.run_eq.symm.trans (hfull i).bound.run_eq
  · exact (habove i).power.run_eq.symm.trans (hfull i).power.run_eq

namespace Level

theorem full_expr : full.expr = full.sequence :=
  congrArg expr (above_full).symm

theorem full_assign : full.assign = full.assignment :=
  congrArg assign (above_full).symm

theorem full_negation : full.negation = full.negated :=
  congrArg negation (above_full).symm

theorem full_formula : full.formula = full.anyFormula :=
  congrArg formula (above_full).symm

theorem full_negatedFormula : full.negatedFormula = full.negationFormula :=
  congrArg negatedFormula (above_full).symm

theorem full_heap : full.heap = full.heapTerm :=
  congrArg heap (above_full).symm

theorem full_bound : full.bound = full.sumBound :=
  congrArg bound (above_full).symm

theorem full_power : full.power = full.powerBound :=
  congrArg power (above_full).symm

end Level

end GameHop.Parser
