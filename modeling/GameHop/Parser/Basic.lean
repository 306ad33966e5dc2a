import GameHop.Source.Error
import GameHop.Term.Basic

/-!
Parsers over token lists. A parser reads tokens from the front of its input and gives a value and
what is left, or a fault.
-/

namespace GameHop

/-- Where a parser stands: the tokens to come, and the span of the token before them. -/
structure Input where
  prev : Span
  rest : List Token

/-- A parser of phrases that denote an `α`. -/
abbrev Parser (α : Type) := StateT Input (Except ParseError) α

namespace Parser

variable {α : Type}

/-! ## Single tokens -/

def fail (fault : ParseFault) (span : Span) : Parser α :=
  throw ⟨fault, span⟩

/-- The kind of the next token. -/
def peek : Parser (Option TokenKind) := do
  return (← get).rest.head?.map (·.kind)

/-- The kind of the token after the next. -/
def peekSecond : Parser (Option TokenKind) := do
  return (← get).rest.tail.head?.map (·.kind)

def here : Parser Span := do
  return ((← get).rest.head?.map (·.span)).getD .nowhere

def prevSpan : Parser Span := do
  return (← get).prev

def remaining : Parser Nat := do
  return (← get).rest.length

def failHere (fault : ParseFault) : Parser α := do
  fail fault (← here)

def next : Parser Token := do
  match (← get).rest with
  | [] => fail .outOfTokens .nowhere
  | t :: rest =>
    set (Input.mk t.span rest)
    return t

def sees (kind : TokenKind) : Parser Bool := do
  return (← peek) == some kind

/-- Reads a token of the given kind and gives its span. -/
def expect (kind : TokenKind) : Parser Span := do
  let t ← next
  if t.kind == kind then return t.span else fail (.expectedToken kind) t.span

def sym (s : Sym) : Parser Span :=
  expect (.sym s)

def keyword (k : Keyword) : Parser Span :=
  expect (.keyword k)

/-- Reads the token if it is the given symbol, and says whether it was. -/
def accept (s : Sym) : Parser Bool := do
  if ← sees (.sym s) then
    discard next
    return true
  else
    return false

def ident : Parser Ident := do
  let t ← next
  match t.kind with
  | .ident name => return ⟨t.span, name⟩
  | _ => fail .expectedIdent t.span

/-- Checks that nothing but the end marker is left. -/
def atEnd : Parser Unit := do
  unless ← sees .eof do failHere .expectedEnd

/-! ## Repetition -/

/-- `item, item, ...`, at most `n` of them. -/
def itemsFrom (item : Parser α) : Nat → Parser (List α)
  | 0 => return []
  | n + 1 => do
    let a ← item
    if ← accept .comma then return a :: (← itemsFrom item n) else return [a]

/-- One or more items with commas between them. -/
def items (item : Parser α) : Parser (List α) := do
  itemsFrom item ((← remaining) + 1)

/-- Items with commas between them, none if the closing symbol comes first. The closing symbol
    stays. -/
def itemsBefore (close : Sym) (item : Parser α) : Parser (List α) := do
  if ← sees (.sym close) then return [] else items item

/-- Items for as long as the next token is one that `goesOn` accepts, at most `n` of them. -/
def manyFrom (goesOn : Option TokenKind → Bool) (item : Parser α) : Nat → Parser (List α)
  | 0 => return []
  | n + 1 => do
    if goesOn (← peek) then
      let a ← item
      return a :: (← manyFrom goesOn item n)
    else
      return []

/-- Items for as long as the next token is one that `goesOn` accepts. -/
def many (goesOn : Option TokenKind → Bool) (item : Parser α) : Parser (List α) := do
  manyFrom goesOn item ((← remaining) + 1)

/-- Items up to the given token, which stays. -/
def manyUntil (stop : TokenKind) (item : Parser α) : Parser (List α) :=
  many (· != some stop) item

/-- `left op operand op operand ...`, grouped to the left, at most `n` operators. -/
def chainFrom (operand : Parser α) (op? : TokenKind → Option (α → α → α)) : Nat → α → Parser α
  | 0, left => return left
  | n + 1, left => do
    match (← peek).bind op? with
    | none => return left
    | some combine =>
      discard next
      let right ← operand
      chainFrom operand op? n (combine left right)

/-- Operands with operators between them, grouped to the left. -/
def chain (operand : Parser α) (op? : TokenKind → Option (α → α → α)) : Parser α := do
  let left ← operand
  chainFrom operand op? (← remaining) left

/-- A value followed by suffixes, each of which extends it; at most `n` of them. -/
def suffixesFrom (suffix? : α → TokenKind → Option (Parser α)) : Nat → α → Parser α
  | 0, a => return a
  | n + 1, a => do
    match (← peek).bind (suffix? a) with
    | none => return a
    | some suffix =>
      let b ← suffix
      suffixesFrom suffix? n b

/-- A value followed by suffixes. The next token decides whether one follows. -/
def suffixes (first : Parser α) (suffix? : α → TokenKind → Option (Parser α)) : Parser α := do
  let a ← first
  suffixesFrom suffix? (← remaining) a

/-! ## Brackets, parameters -/

/-- `(p)` -/
def parens (p : Parser α) : Parser α := do
  discard <| sym .lParen
  let a ← p
  discard <| sym .rParen
  return a

/-- `: ty`, if there is a colon. -/
def typeAnnotation : Parser (Option Ty) := do
  if ← accept .colon then
    let name ← ident
    match Ty.ofKeyword? name.name with
    | some ty => return some ty
    | none => fail (.unknownType name.name) name.span
  else
    return none

/-- `x` or `x: ty` -/
def param : Parser Param := do
  let name ← ident
  let ty ← typeAnnotation
  return ⟨name.span.join (← prevSpan), name, ty⟩

def params : Parser (List Param) :=
  parens (itemsBefore .rParen param)

end Parser

end GameHop
