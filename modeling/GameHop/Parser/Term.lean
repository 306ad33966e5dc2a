import GameHop.Parser.Basic
import GameHop.Term.Bound

/-!
Parsers of expressions, formulas and bounds.
-/

namespace GameHop.Parser

structure Level where
  /-- A sequence of expressions. -/
  expr : Parser Expr
  /-- An expression that is no sequence. -/
  assign : Parser Expr
  /-- An expression with leading negations. -/
  negation : Parser Expr
  formula : Parser Formula
  /-- A formula with leading negations. -/
  negatedFormula : Parser Formula
  heap : Parser HeapTerm
  bound : Parser Bound
  /-- A bound that is no sum and no product. -/
  power : Parser Bound

def Level.bottom : Level where
  expr := fail .outOfTokens .nowhere
  assign := fail .outOfTokens .nowhere
  negation := fail .outOfTokens .nowhere
  formula := fail .outOfTokens .nowhere
  negatedFormula := fail .outOfTokens .nowhere
  heap := fail .outOfTokens .nowhere
  bound := fail .outOfTokens .nowhere
  power := fail .outOfTokens .nowhere

/-! ## Operators -/

def compareOp? : TokenKind → Option CmpOp
  | .sym .eqEq => some .eq
  | .sym .neq => some .ne
  | .sym .lt => some .lt
  | .sym .le => some .le
  | .sym .gt => some .gt
  | .sym .ge => some .ge
  | _ => none

/-- In formulas a single `=` compares too. -/
def formulaCompareOp? : TokenKind → Option CmpOp
  | .sym .eq => some .same
  | k => compareOp? k

def addOp? : TokenKind → Option ArithOp
  | .sym .plus => some .add
  | .sym .minus => some .sub
  | _ => none

def mulOp? : TokenKind → Option ArithOp
  | .sym .star => some .mul
  | .sym .slash => some .div
  | .sym .percent => some .mod
  | _ => none

/-- An operand, or two operands with a comparison between them. A second comparison is a fault. -/
def comparison {α : Type} (operand : Parser α) (op? : TokenKind → Option CmpOp)
    (combine : CmpOp → α → α → α) : Parser α := do
  let left ← operand
  match (← peek).bind op? with
  | none => return left
  | some op =>
    discard next
    let right ← operand
    if ((← peek).bind op?).isSome then failHere .chainedComparison
    return combine op left right

/-! ## Expressions -/

namespace Level

variable (below : Level)

/-- `(e, e)` -/
def args : Parser (List Expr) :=
  parens (itemsBefore .rParen below.assign)

/-- `x = e` -/
def field : Parser Field := do
  let name ← ident
  discard <| sym .eq
  let value ← below.assign
  return ⟨name.span.join value.span, name, value⟩

/-- `(x = e, y = e)` -/
def fields : Parser (List Field) :=
  parens (itemsBefore .rParen below.field)

/-- `method m(x) { e }`; an empty body is zero. -/
def method : Parser Method := do
  let start ← keyword .method_
  let name ← ident
  let params ← params
  let open_ ← sym .lBrace
  let body ← if ← sees (.sym .rBrace) then pure (Expr.int open_ 0) else below.expr
  let stop ← sym .rBrace
  return ⟨start.join stop, name, params, body⟩

/-- `C(x = e) { method ... }`, with or without the class. -/
def object : Parser Object := do
  let className ← match ← peek with
    | some (.ident _) => some <$> ident
    | _ => pure none
  let fields ← below.fields
  discard <| sym .lBrace
  let methods ← many (· == some (.keyword .method_)) below.method
  discard <| sym .rBrace
  return ⟨className, fields, methods⟩

/-- What an identifier starts: a call, a labelled parenthesis or a variable. -/
def afterIdent (x : Ident) : Parser (Span → Expr) := do
  match ← peek with
  | some (.sym .lParen) =>
    let args ← below.args
    return (Expr.call · x args)
  | some (.sym .at_) =>
    discard next
    let inner ← parens below.expr
    return (Expr.paren · (some x) inner)
  | _ => return (Expr.lookup · x)

/-- An expression that no operator opens, read from its first token on. -/
def primaryFrom (t : Token) : Parser (Span → Expr) := do
  match t.kind with
  | .int n => return (Expr.int · n)
  | .keyword .true_ => return (Expr.bool · true)
  | .keyword .false_ => return (Expr.bool · false)
  | .ident name => below.afterIdent ⟨t.span, name⟩
  | .sym .lParen =>
    let inner ← below.expr
    discard <| sym .rParen
    return (Expr.paren · none inner)
  | .keyword .new_ =>
    let o ← below.object
    return (Expr.new · o)
  | .keyword .ref_ =>
    let e ← parens below.expr
    return (Expr.unary · .ref e)
  | .keyword .tobits_ =>
    let e ← parens below.expr
    return (Expr.unary · .tobits e)
  | .keyword .assert_ =>
    let p ← parens below.formula
    return (Expr.assert · p)
  | .keyword .admit_ =>
    let p ← parens below.formula
    return (Expr.assume · p)
  | .sym .ellipsis => return Expr.ellipsis
  | _ => fail .expectedExpr t.span

def primary : Parser Expr := do
  let t ← next
  let build ← below.primaryFrom t
  return build (t.span.join (← prevSpan))

/-- `<C, D>`, if there is an angle bracket. -/
def classHints : Parser (List Ident) := do
  if ← accept .lt then
    let classes ← itemsBefore .gt ident
    discard <| sym .gt
    return classes
  else
    return []

/-- `.m<C>(e)` after a target. -/
def invocation (target : Expr) : Parser Expr := do
  discard next
  let method ← ident
  let classes ← classHints
  let args ← below.args
  return .invoke (target.span.join (← prevSpan)) target method classes args

/-- `[e]` or `[e := e]` after a map. -/
def access (map : Expr) : Parser Expr := do
  discard next
  let key ← below.assign
  if ← accept .colonEq then
    let value ← below.assign
    let stop ← sym .rBracket
    return .update (map.span.join stop) map key value
  else
    let stop ← sym .rBracket
    return .index (map.span.join stop) map key

def suffix? (e : Expr) : TokenKind → Option (Parser Expr)
  | .sym .dot => some (below.invocation e)
  | .sym .lBracket => some (below.access e)
  | _ => none

def suffixed : Parser Expr :=
  suffixes below.primary below.suffix?

end Level

def binaryExpr (op : BinaryOp) (left right : Expr) : Expr :=
  .binary (left.span.join right.span) op left right

namespace Level

variable (below : Level)

def product : Parser Expr :=
  chain below.suffixed fun k => (mulOp? k).map fun op => binaryExpr (.arith op)

def sum : Parser Expr :=
  chain below.product fun k => (addOp? k).map fun op => binaryExpr (.arith op)

def compared : Parser Expr :=
  comparison below.sum compareOp? fun op => binaryExpr (.compare op)

def negated : Parser Expr := do
  if ← sees (.sym .bang) then
    let start ← sym .bang
    let inner ← below.negation
    return .unary (start.join inner.span) .not inner
  else
    below.compared

def conjunction : Parser Expr :=
  chain below.negated fun k =>
    if k == .sym .amp then some (binaryExpr (.logic .and)) else none

def disjunction : Parser Expr :=
  chain below.conjunction fun k =>
    if k == .sym .pipe then some (binaryExpr (.logic .or)) else none

/-- `c ? a : b`, or only `c`. -/
def conditional : Parser Expr := do
  let cond ← below.disjunction
  if ← accept .question then
    let yes ← below.assign
    discard <| sym .colon
    let no ← below.assign
    return .ternary (cond.span.join no.span) cond yes no
  else
    return cond

/-- `x = e`, or an expression that assigns nothing at its root. -/
def assignment : Parser Expr := do
  match ← peek, ← peekSecond with
  | some (.ident _), some (.sym .eq) =>
    let target ← ident
    discard next
    let value ← below.assign
    return .assign (target.span.join value.span) target value
  | _, _ => below.conditional

/-- Whether a token closes a sequence, so that a semicolon before it ends nothing. -/
def closesSequence (k : Option TokenKind) : Bool :=
  k == some (.sym .rBrace) || k == some (.sym .rParen) || k == some .eof

/-- `e; e; e`. A semicolon before a closing token is dropped. -/
def sequence : Parser Expr := do
  let head ← below.assignment
  if ← accept .semi then
    if closesSequence (← peek) then
      return head
    else
      let tail ← below.expr
      return .seq (head.span.join tail.span) head tail
  else
    return head

/-! ## Contexts -/

/-- `(e)(e)` -/
def contexts : Parser (List Expr) :=
  many (· == some (.sym .lParen)) (parens below.expr)

/-! ## Formulas -/

def heapReference : Parser (HeapTerm × Formula) :=
  parens do
    let heap ← below.heap
    discard <| sym .comma
    let reference ← below.formula
    return (heap, reference)

/-- `heap(left)`, `heap(right)` or `from_heap(h, p)` -/
def heapTerm : Parser HeapTerm := do
  let head ← ident
  match head.name with
  | "heap" => parens do
    let side ← ident
    match side.name with
    | "left" => return .side .left
    | "right" => return .side .right
    | _ => fail .expectedSide side.span
  | "from_heap" =>
    let (heap, reference) ← below.heapReference
    return .inHeap heap reference
  | _ => fail .expectedHeap head.span

/-- The object that an identifier starts. -/
def objectFrom (head : Ident) : Parser ObjectTerm := do
  match head.name with
  | "left" => return .side .left
  | "right" => return .side .right
  | "object" =>
    let (heap, reference) ← below.heapReference
    return .inHeap heap reference
  | _ => fail .expectedObject head.span

/-- `left`, `right` or `object(h, p)` -/
def objectTerm : Parser ObjectTerm := do
  below.objectFrom (← ident)

/-- `.f` or `is C` after an object. -/
def member (object : ObjectTerm) : Parser (Span → Formula) := do
  match ← peek with
  | some (.sym .dot) =>
    discard next
    let field ← ident
    return (Formula.field · object field)
  | some (.keyword .is_) =>
    discard next
    let cls ← ident
    let cls := if cls.name == "invalid" then ClassRef.invalid else ClassRef.named cls
    return (Formula.objectIs · object cls)
  | _ => failHere .expectedMember

def formulaPair : Parser (Formula × Formula) :=
  parens do
    let left ← below.formula
    discard <| sym .comma
    let right ← below.formula
    return (left, right)

def formulaAfterIdent (x : Ident) : Parser (Span → Formula) := do
  let called ← sees (.sym .lParen)
  if x.name == "left" || x.name == "right" || (x.name == "object" && called) then
    let object ← below.objectFrom x
    member object
  else if x.name == "same" && called then
    let (a, b) ← parens do
      let a ← below.objectTerm
      discard <| sym .comma
      let b ← below.objectTerm
      return (a, b)
    return (Formula.sameObject · a b)
  else if called then
    let args ← parens (itemsBefore .rParen below.formula)
    return (Formula.call · x args)
  else
    return (Formula.lookup · x)

/-- A formula that no operator opens, read from its first token on. -/
def primaryFormulaFrom (t : Token) : Parser (Span → Formula) := do
  match t.kind with
  | .int n => return (Formula.int · n)
  | .keyword .true_ => return (Formula.bool · true)
  | .keyword .false_ => return (Formula.bool · false)
  | .sym .lParen =>
    let inner ← below.formula
    discard <| sym .rParen
    return (Formula.paren · inner)
  | .keyword .tobits_ =>
    let p ← parens below.formula
    return (Formula.unary · .tobits p)
  | .keyword .isbits_ =>
    let p ← parens below.formula
    return (Formula.unary · .isBits p)
  | .keyword .env_ =>
    let cs ← below.contexts
    return (Formula.env · cs)
  | .keyword .independence_ =>
    discard <| sym .lParen
    let heap ← below.heap
    discard <| sym .comma
    let left ← below.formula
    discard <| sym .comma
    let right ← below.formula
    discard <| sym .rParen
    return (Formula.independence · heap left right)
  | .keyword .frame_ =>
    if ← sees (.sym .lParen) then
      let (left, right) ← below.formulaPair
      return (Formula.frame · left right)
    else
      return Formula.frameAll
  | .keyword .frameHeap_ =>
    discard <| sym .lParen
    let leftHeap ← below.heap
    discard <| sym .comma
    let rightHeap ← below.heap
    discard <| sym .comma
    let left ← below.formula
    discard <| sym .comma
    let right ← below.formula
    discard <| sym .rParen
    return (Formula.frameHeap · leftHeap rightHeap left right)
  | .keyword .fieldsEqual_ => return Formula.fieldsEqual
  | .keyword .fieldsEqualExcept_ =>
    let fields ← parens (itemsBefore .rParen ident)
    return (Formula.fieldsEqualExcept · fields)
  | .ident name => below.formulaAfterIdent ⟨t.span, name⟩
  | _ => fail .expectedFormula t.span

def primaryFormula : Parser Formula := do
  let t ← next
  let build ← below.primaryFormulaFrom t
  return build (t.span.join (← prevSpan))

/-- `[p]` or `[p := p]` after a map. -/
def accessFormula (map : Formula) : Parser Formula := do
  discard next
  let key ← below.formula
  if ← accept .colonEq then
    let value ← below.formula
    let stop ← sym .rBracket
    return .update (map.span.join stop) map key value
  else
    let stop ← sym .rBracket
    return .index (map.span.join stop) map key

def suffixedFormula : Parser Formula :=
  suffixes below.primaryFormula fun p k =>
    if k == .sym .lBracket then some (below.accessFormula p) else none

end Level

def binaryFormula (op : FormulaOp) (left right : Formula) : Formula :=
  .binary (left.span.join right.span) op left right

namespace Level

variable (below : Level)

def productFormula : Parser Formula :=
  chain below.suffixedFormula fun k => (mulOp? k).map fun op => binaryFormula (.arith op)

def sumFormula : Parser Formula :=
  chain below.productFormula fun k => (addOp? k).map fun op => binaryFormula (.arith op)

def comparedFormula : Parser Formula :=
  comparison below.sumFormula formulaCompareOp? fun op => binaryFormula (.compare op)

def negationFormula : Parser Formula := do
  if ← sees (.sym .bang) then
    let start ← sym .bang
    let inner ← below.negatedFormula
    return .unary (start.join inner.span) .not inner
  else
    below.comparedFormula

def conjunctionFormula : Parser Formula :=
  chain below.negationFormula fun k =>
    if k == .sym .andAnd then some (binaryFormula (.logic .and)) else none

def disjunctionFormula : Parser Formula :=
  chain below.conjunctionFormula fun k =>
    if k == .sym .orOr then some (binaryFormula (.logic .or)) else none

def quantified (q : Quantifier) : Parser Formula := do
  let start := (← next).span
  let params ← params
  discard <| sym .dot
  let body ← below.formula
  return .quant (start.join body.span) q params body

/-- A quantified formula, an implication or a disjunction. -/
def anyFormula : Parser Formula := do
  match ← peek with
  | some (.keyword .forall_) => below.quantified .all
  | some (.keyword .exists_) => below.quantified .some
  | _ =>
    let left ← below.disjunctionFormula
    if ← accept .arrow then
      let right ← below.formula
      return binaryFormula (.logic .implies) left right
    else
      return left

/-! ## Bounds -/

/-- A bound that no operator opens, read from its first token on. -/
def primaryBoundFrom (t : Token) : Parser (Span → Bound) := do
  match t.kind with
  | .int n => return (Bound.int · n)
  | .ident name =>
    if ← sees (.sym .lParen) then
      let args ← parens (itemsBefore .rParen below.bound)
      return (Bound.call · ⟨t.span, name⟩ args)
    else
      return (Bound.lookup · ⟨t.span, name⟩)
  | .sym .lParen =>
    let inner ← below.bound
    discard <| sym .rParen
    return (Bound.paren · inner)
  | .keyword .env_ =>
    let cs ← below.contexts
    return (Bound.env · cs)
  | _ => fail .expectedBound t.span

def primaryBound : Parser Bound := do
  let t ← next
  let build ← below.primaryBoundFrom t
  return build (t.span.join (← prevSpan))

end Level

def binaryBound (op : BoundOp) (left right : Bound) : Bound :=
  .binary (left.span.join right.span) op left right

namespace Level

variable (below : Level)

/-- Powers group to the right. -/
def powerBound : Parser Bound := do
  let base ← below.primaryBound
  if ← accept .caret then
    let exponent ← below.power
    return binaryBound .pow base exponent
  else
    return base

def productBound : Parser Bound :=
  chain below.powerBound fun
    | .sym .star => some (binaryBound .mul)
    | .sym .slash => some (binaryBound .div)
    | _ => none

def sumBound : Parser Bound :=
  chain below.productBound fun
    | .sym .plus => some (binaryBound .add)
    | .sym .minus => some (binaryBound .sub)
    | _ => none

/-! ## The knot -/

/-- The parsers of terms whose subterms the given level reads. -/
def above : Level where
  expr := below.sequence
  assign := below.assignment
  negation := below.negated
  formula := below.anyFormula
  negatedFormula := below.negationFormula
  heap := below.heapTerm
  bound := below.sumBound
  power := below.powerBound

/-- The parsers of terms of at most `n` levels. -/
def ofDepth : Nat → Level
  | 0 => bottom
  | n + 1 => (ofDepth n).above

end Level

/-- Runs a parser on a whole token list. As a term has no more levels than tokens, the parsers of
    terms it is given read all of them. -/
def run {α : Type} (p : Level → Parser α) (tokens : List Token) : Except ParseError α :=
  (p (Level.ofDepth (tokens.length + 1))).run' ⟨.nowhere, tokens⟩

/-- Runs a parser of a term and checks that the text ends there. -/
def runToEnd {α : Type} (p : Level → Parser α) (tokens : List Token) : Except ParseError α :=
  run (fun level => do let a ← p level; atEnd; return a) tokens

end GameHop.Parser

namespace GameHop

def Expr.ofTokens : List Token → Except ParseError Expr :=
  Parser.runToEnd (·.expr)

def Formula.ofTokens : List Token → Except ParseError Formula :=
  Parser.runToEnd (·.formula)

def Bound.ofTokens : List Token → Except ParseError Bound :=
  Parser.runToEnd (·.bound)

end GameHop
