import GameHop.Proofs.Term.Bare
import GameHop.Source.Lexer
import GameHop.Term.Postorder

/-!
What the canonical text of a term spells.
-/

namespace GameHop

/-! ## Levels -/

/-- The expression in parentheses if it binds less tightly than asked for. -/
def ExprPrec.wrap (least own : ExprPrec) (e : Expr) : Expr :=
  if own.rank < least.rank then .paren .nowhere none e else e

/-- The formula in parentheses if it binds less tightly than asked for. -/
def FormulaPrec.wrap (least own : FormulaPrec) (p : Formula) : Formula :=
  if own.rank < least.rank then .paren .nowhere p else p

/-! ## Spelled terms -/

mutual

/-- What the text of an expression spells in a position that asks for `least`. -/
def Expr.spelled (least : ExprPrec) : Expr → Expr
  | .int _ n => .int .nowhere n
  | .bool _ b => .bool .nowhere b
  | .lookup _ x => .lookup .nowhere x.bare
  | .paren _ l e => .paren .nowhere (l.map Ident.bare) (e.spelled .lowest)
  | .seq _ a b => least.wrap .lowest (.seq .nowhere (a.spelled .assign) (b.spelled .lowest))
  | .assign _ x e => least.wrap .assign (.assign .nowhere x.bare (e.spelled .assign))
  | .ternary _ a b c =>
    least.wrap .ternary
      (.ternary .nowhere (a.spelled .or) (b.spelled .assign) (c.spelled .assign))
  | .unary _ .not e => least.wrap .not (.unary .nowhere .not (e.spelled .not))
  | .unary _ .ref e => .unary .nowhere .ref (e.spelled .lowest)
  | .unary _ .tobits e => .unary .nowhere .tobits (e.spelled .lowest)
  | .binary _ op a b =>
    least.wrap op.precs.1
      (.binary .nowhere op (a.spelled op.precs.2.1) (b.spelled op.precs.2.2))
  | .call _ f args => .call .nowhere f.bare (Expr.spelledList args)
  | .invoke _ t m cs args =>
    .invoke .nowhere (t.spelled .suffix) m.bare (cs.map Ident.bare) (Expr.spelledList args)
  | .new _ o => .new .nowhere o.spelled
  | .index _ a b => .index .nowhere (a.spelled .suffix) (b.spelled .assign)
  | .update _ a b c =>
    .update .nowhere (a.spelled .suffix) (b.spelled .assign) (c.spelled .assign)
  | .assert _ p => .assert .nowhere (p.spelled .lowest)
  | .assume _ p => .assume .nowhere (p.spelled .lowest)
  | .ellipsis _ => .ellipsis .nowhere
  | .hole _ => .hole .nowhere

def Expr.spelledList : List Expr → List Expr
  | [] => []
  | e :: es => e.spelled .assign :: Expr.spelledList es

def Object.spelled : Object → Object
  | ⟨c, fields, methods⟩ =>
    ⟨c.map Ident.bare, Field.spelledList fields, Method.spelledList methods⟩

def Field.spelledList : List Field → List Field
  | [] => []
  | ⟨_, x, value⟩ :: fs => ⟨.nowhere, x.bare, value.spelled .assign⟩ :: Field.spelledList fs

def Method.spelledList : List Method → List Method
  | [] => []
  | ⟨_, m, ps, body⟩ :: ms =>
    ⟨.nowhere, m.bare, ps.map Param.bare, body.spelled .lowest⟩ :: Method.spelledList ms

/-- What contexts spell, each in its parentheses. -/
def Expr.spelledContexts : List Expr → List Expr
  | [] => []
  | e :: es => e.spelled .lowest :: Expr.spelledContexts es

/-- What the text of a formula spells in a position that asks for `least`. -/
def Formula.spelled (least : FormulaPrec) : Formula → Formula
  | .int _ n => .int .nowhere n
  | .bool _ b => .bool .nowhere b
  | .lookup _ x => .lookup .nowhere x.bare
  | .paren _ p => .paren .nowhere (p.spelled .lowest)
  | .quant _ q ps p => least.wrap .lowest (.quant .nowhere q (ps.map Param.bare) (p.spelled .lowest))
  | .unary _ .not p => least.wrap .not (.unary .nowhere .not (p.spelled .not))
  | .unary _ .tobits p => .unary .nowhere .tobits (p.spelled .lowest)
  | .unary _ .isBits p => .unary .nowhere .isBits (p.spelled .lowest)
  | .binary _ op p q =>
    least.wrap op.precs.1
      (.binary .nowhere op (p.spelled op.precs.2.1) (q.spelled op.precs.2.2))
  | .call _ f args => .call .nowhere f.bare (Formula.spelledList args)
  | .index _ p q => .index .nowhere (p.spelled .suffix) (q.spelled .lowest)
  | .update _ p q r => .update .nowhere (p.spelled .suffix) (q.spelled .lowest) (r.spelled .lowest)
  | .env _ cs => .env .nowhere (Expr.spelledContexts cs)
  | .sameObject _ a b => .sameObject .nowhere a.spelled b.spelled
  | .independence _ h p q =>
    .independence .nowhere h.spelled (p.spelled .lowest) (q.spelled .lowest)
  | .objectIs _ o c => .objectIs .nowhere o.spelled c.bare
  | .field _ o x => .field .nowhere o.spelled x.bare
  | .frameAll _ => .frameAll .nowhere
  | .frame _ p q => .frame .nowhere (p.spelled .lowest) (q.spelled .lowest)
  | .frameHeap _ h k p q =>
    .frameHeap .nowhere h.spelled k.spelled (p.spelled .lowest) (q.spelled .lowest)
  | .fieldsEqual _ => .fieldsEqual .nowhere
  | .fieldsEqualExcept _ xs => .fieldsEqualExcept .nowhere (xs.map Ident.bare)

def Formula.spelledList : List Formula → List Formula
  | [] => []
  | p :: ps => p.spelled .lowest :: Formula.spelledList ps

def ObjectTerm.spelled : ObjectTerm → ObjectTerm
  | .side s => .side s
  | .inHeap h p => .inHeap h.spelled (p.spelled .lowest)

def HeapTerm.spelled : HeapTerm → HeapTerm
  | .side s => .side s
  | .inHeap h p => .inHeap h.spelled (p.spelled .lowest)

end

/-! ## Legible terms -/

/-- Whether the lexer reads the name as one identifier. -/
def Lexer.isName (x : String) : Bool :=
  match x.toList with
  | [] => false
  | c :: cs => isIdentStart c && cs.all isIdentRest && (Keyword.ofText? x).isNone

/-- Whether the name of the identifier is one. -/
def Ident.Legible (x : Ident) : Prop :=
  Lexer.isName x.name = true

/-- Whether the expression is the place that a context leaves open. -/
def Expr.isHole : Expr → Bool
  | .hole _ => true
  | _ => false

/-- Whether no place outside formulas is left open. -/
def Expr.HoleFree (e : Expr) : Prop :=
  ∀ n ∈ e.postorder, n.isHole = false

theorem Expr.holeFree_iff (e : Expr) :
    e.HoleFree ↔ e.isHole = false ∧ ∀ c ∈ e.children, c.HoleFree := by
  unfold Expr.HoleFree
  rw [postorder_eq]
  constructor
  · intro h
    refine ⟨h e (by simp), fun c hc n hn => h n ?_⟩
    exact List.mem_append_left _ (List.mem_flatMap.2 ⟨c, hc, hn⟩)
  · rintro ⟨he, h⟩ n hn
    rcases List.mem_append.1 hn with hn | hn
    · obtain ⟨c, hc, hn⟩ := List.mem_flatMap.1 hn
      exact h c hc n hn
    · obtain rfl := List.mem_singleton.1 hn
      exact he

/-- The formula that the root asserts or takes for granted. -/
def Expr.claim? : Expr → Option Formula
  | .assert _ p => some p
  | .assume _ p => some p
  | _ => none

/-- The formulas that the expression asserts or takes for granted. -/
def Expr.claims (e : Expr) : List Formula :=
  e.postorder.filterMap Expr.claim?

/-- The names that a formula does not use for variables: they begin objects. -/
def Formula.objectNames : List String :=
  ["left", "right"]

/-- The names that a formula does not use for functions: with a parenthesis after them they begin
    objects or the comparison of two objects. -/
def Formula.calledNames : List String :=
  ["left", "right", "object", "same"]

mutual

/-- Whether all names are identifiers and no comparison is the one that only formulas have. -/
def Expr.Legible : Expr → Prop
  | .int _ _ | .bool _ _ | .ellipsis _ | .hole _ => True
  | .lookup _ x => x.Legible
  | .paren _ l e => (∀ x ∈ l, x.Legible) ∧ e.Legible
  | .seq _ a b | .index _ a b => a.Legible ∧ b.Legible
  | .assign _ x e => x.Legible ∧ e.Legible
  | .ternary _ a b c | .update _ a b c => a.Legible ∧ b.Legible ∧ c.Legible
  | .unary _ _ e => e.Legible
  | .binary _ op a b => op ≠ .compare .same ∧ a.Legible ∧ b.Legible
  | .call _ f args => f.Legible ∧ Expr.LegibleList args
  | .invoke _ t m cs args =>
    m.Legible ∧ (∀ c ∈ cs, c.Legible) ∧ t.Legible ∧ Expr.LegibleList args
  | .new _ o => o.Legible
  | .assert _ p | .assume _ p => p.Legible

def Expr.LegibleList : List Expr → Prop
  | [] => True
  | e :: es => e.Legible ∧ Expr.LegibleList es

def Object.Legible : Object → Prop
  | ⟨c, fields, methods⟩ =>
    (∀ x ∈ c, x.Legible) ∧ Field.LegibleList fields ∧ Method.LegibleList methods

def Field.LegibleList : List Field → Prop
  | [] => True
  | ⟨_, x, value⟩ :: fs => x.Legible ∧ value.Legible ∧ Field.LegibleList fs

def Method.LegibleList : List Method → Prop
  | [] => True
  | ⟨_, m, ps, body⟩ :: ms =>
    m.Legible ∧ (∀ p ∈ ps, p.name.Legible) ∧ body.Legible ∧ Method.LegibleList ms

/-- Whether contexts are legible and whole. -/
def Expr.LegibleContexts : List Expr → Prop
  | [] => True
  | c :: cs => c.Legible ∧ c.HoleFree ∧ Expr.LegibleContexts cs

/-- Whether all names are identifiers and none of them reads as something else. -/
def Formula.Legible : Formula → Prop
  | .int _ _ | .bool _ _ | .frameAll _ | .fieldsEqual _ => True
  | .lookup _ x => x.Legible ∧ x.name ∉ Formula.objectNames
  | .paren _ p | .unary _ _ p => p.Legible
  | .quant _ _ ps p => (∀ x ∈ ps, x.name.Legible) ∧ p.Legible
  | .binary _ _ p q | .index _ p q | .frame _ p q => p.Legible ∧ q.Legible
  | .call _ f args => f.Legible ∧ f.name ∉ Formula.calledNames ∧ Formula.LegibleList args
  | .update _ p q r => p.Legible ∧ q.Legible ∧ r.Legible
  | .env _ cs => Expr.LegibleContexts cs
  | .sameObject _ a b => a.Legible ∧ b.Legible
  | .independence _ h p q => h.Legible ∧ p.Legible ∧ q.Legible
  | .objectIs _ o (.named c) => o.Legible ∧ c.Legible ∧ c.name ≠ "invalid"
  | .objectIs _ o .invalid => o.Legible
  | .field _ o x => o.Legible ∧ x.Legible
  | .frameHeap _ h k p q => h.Legible ∧ k.Legible ∧ p.Legible ∧ q.Legible
  | .fieldsEqualExcept _ xs => ∀ x ∈ xs, x.Legible

def Formula.LegibleList : List Formula → Prop
  | [] => True
  | p :: ps => p.Legible ∧ Formula.LegibleList ps

def ObjectTerm.Legible : ObjectTerm → Prop
  | .side _ => True
  | .inHeap h p => h.Legible ∧ p.Legible

def HeapTerm.Legible : HeapTerm → Prop
  | .side _ => True
  | .inHeap h p => h.Legible ∧ p.Legible

end

/-- Whether the text of the formula needs no parentheses but its own. -/
def Formula.Settled (p : Formula) : Prop :=
  p.spelled .lowest = p.bare

/-- Whether an expression can be read from its text and its claims are like claims that were read. -/
structure Expr.Readable (e : Expr) : Prop where
  legible : e.Legible
  settled : ∀ p ∈ e.claims, p.Settled

theorem Expr.spelledList_eq (es : List Expr) :
    spelledList es = es.map (spelled .assign) := by
  induction es with
  | nil => rfl
  | cons e es ih => rw [spelledList, ih, List.map_cons]

theorem Expr.layouts_eq (depth : Nat) (es : List Expr) :
    layouts depth es = es.map (layout depth (.operand .assign)) := by
  induction es with
  | nil => rfl
  | cons e es ih => rw [layouts, ih, List.map_cons]

theorem Field.spelledList_eq (fs : List Field) :
    spelledList fs = fs.map fun f => ⟨.nowhere, f.name.bare, f.value.spelled .assign⟩ := by
  induction fs with
  | nil => rfl
  | cons f fs ih =>
    obtain ⟨s, x, value⟩ := f
    rw [spelledList, ih, List.map_cons]

theorem Field.layouts_eq (depth : Nat) (fs : List Field) : layouts depth fs =
    fs.map fun f => Layout.infixed (Layout.ident f.name.name) .eq (f.value.layout depth (.operand .assign)) := by
  induction fs with
  | nil => rfl
  | cons f fs ih =>
    obtain ⟨s, x, value⟩ := f
    rw [layouts, ih, List.map_cons]

theorem Method.spelledList_eq (ms : List Method) :
    spelledList ms = ms.map fun m =>
      ⟨.nowhere, m.name.bare, m.params.map Param.bare, m.body.spelled .lowest⟩ := by
  induction ms with
  | nil => rfl
  | cons m ms ih =>
    obtain ⟨s, x, ps, body⟩ := m
    rw [spelledList, ih, List.map_cons]

theorem Method.layouts_eq (depth : Nat) (ms : List Method) : layouts depth ms = ms.map (layout depth) := by
  induction ms with
  | nil => rfl
  | cons m ms ih => rw [layouts, ih, List.map_cons]

theorem Formula.spelledList_eq (ps : List Formula) : spelledList ps = ps.map (spelled .lowest) := by
  induction ps with
  | nil => rfl
  | cons p ps ih => rw [spelledList, ih, List.map_cons]

theorem Formula.layouts_eq (ps : List Formula) : layouts ps = ps.map (layout .lowest) := by
  induction ps with
  | nil => rfl
  | cons p ps ih => rw [layouts, ih, List.map_cons]

/-! ## Bare, spelled and legible bounds -/

/-- The bound in parentheses if it binds less tightly than asked for. -/
def BoundPrec.wrap (least own : BoundPrec) (b : Bound) : Bound :=
  if own.rank < least.rank then .paren .nowhere b else b

mutual

/-- The bound without places. -/
def Bound.bare : Bound → Bound
  | .int _ n => .int .nowhere n
  | .lookup _ x => .lookup .nowhere x.bare
  | .paren _ b => .paren .nowhere b.bare
  | .call _ f args => .call .nowhere f.bare (Bound.bareList args)
  | .env _ cs => .env .nowhere (Expr.bareList cs)
  | .binary _ op a b => .binary .nowhere op a.bare b.bare

def Bound.bareList : List Bound → List Bound
  | [] => []
  | b :: bs => b.bare :: Bound.bareList bs

end

mutual

/-- What the text of a bound spells in a position that asks for `least`. -/
def Bound.spelled (least : BoundPrec) : Bound → Bound
  | .int _ n => .int .nowhere n
  | .lookup _ x => .lookup .nowhere x.bare
  | .paren _ b => .paren .nowhere (b.spelled .lowest)
  | .call _ f args => .call .nowhere f.bare (Bound.spelledList args)
  | .env _ cs => .env .nowhere (Expr.spelledContexts cs)
  | .binary _ op a b =>
    least.wrap op.precs.1 (.binary .nowhere op (a.spelled op.precs.2.1) (b.spelled op.precs.2.2))

def Bound.spelledList : List Bound → List Bound
  | [] => []
  | b :: bs => b.spelled .lowest :: Bound.spelledList bs

end

mutual

/-- Whether all names are identifiers and all contexts are whole. -/
def Bound.Legible : Bound → Prop
  | .int _ _ => True
  | .lookup _ x => x.Legible
  | .paren _ b => b.Legible
  | .call _ f args => f.Legible ∧ Bound.LegibleList args
  | .env _ cs => Expr.LegibleContexts cs
  | .binary _ _ a b => a.Legible ∧ b.Legible

def Bound.LegibleList : List Bound → Prop
  | [] => True
  | b :: bs => b.Legible ∧ Bound.LegibleList bs

end

theorem Bound.bareList_eq (bs : List Bound) : bareList bs = bs.map bare := by
  induction bs with
  | nil => rfl
  | cons b bs ih => rw [bareList, ih, List.map_cons]

theorem Bound.spelledList_eq (bs : List Bound) :
    spelledList bs = bs.map (spelled .lowest) := by
  induction bs with
  | nil => rfl
  | cons b bs ih => rw [spelledList, ih, List.map_cons]

theorem Bound.layouts_eq (bs : List Bound) : layouts bs = bs.map (layout .lowest) := by
  induction bs with
  | nil => rfl
  | cons b bs ih => rw [layouts, ih, List.map_cons]

theorem Bound.legibleList_iff (bs : List Bound) :
    Bound.LegibleList bs ↔ ∀ b ∈ bs, b.Legible := by
  induction bs with
  | nil => simp [Bound.LegibleList]
  | cons b bs ih => simp [Bound.LegibleList, ih]

@[simp] theorem Expr.span_spelled (least : ExprPrec) (e : Expr) :
    (e.spelled least).span = .nowhere := by
  cases e with
  | unary s op e => cases op <;> simp only [spelled, ExprPrec.wrap] <;> try split
                    all_goals rfl
  | seq | assign | ternary | binary => simp only [spelled, ExprPrec.wrap]; split <;> rfl
  | _ => rfl

@[simp] theorem Formula.span_spelled (least : FormulaPrec) (p : Formula) :
    (p.spelled least).span = .nowhere := by
  cases p with
  | unary s op p => cases op <;> simp only [spelled, FormulaPrec.wrap] <;> try split
                    all_goals rfl
  | quant | binary => simp only [spelled, FormulaPrec.wrap]; split <;> rfl
  | _ => rfl

@[simp] theorem Bound.span_spelled (least : BoundPrec) (b : Bound) :
    (b.spelled least).span = .nowhere := by
  cases b with
  | binary s op a b => simp only [spelled, BoundPrec.wrap]; split <;> rfl
  | _ => rfl

end GameHop
