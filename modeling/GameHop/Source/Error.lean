import GameHop.Source.Token

/-!
What can be wrong with a source text. The causes are data; `LexFault.message` and
`ParseFault.message` give their wording.
-/

namespace GameHop

inductive LexFault where
  /-- No token starts with this character. -/
  | unexpectedChar (c : Char)
  /-- An integer literal of more than 64 bits. -/
  | oversizedInt
deriving DecidableEq, Repr

def LexFault.message : LexFault → String
  | unexpectedChar c => "unexpected character `" ++ c.toString ++ "`"
  | oversizedInt => "invalid integer literal"

inductive ParseFault where
  /-- There are no tokens left, not even an end marker. -/
  | outOfTokens
  | expectedToken (kind : TokenKind)
  | expectedIdent
  | expectedEnd
  | expectedDeclaration
  | expectedTactic
  | expectedReplacement
  | expectedScope
  | expectedExpr
  | expectedBound
  | expectedFormula
  | expectedMember
  | expectedObject
  | expectedHeap
  | expectedSide
  | unknownType (name : String)
  | chainedComparison
deriving DecidableEq, Repr

def ParseFault.message : ParseFault → String
  | outOfTokens => "unexpected end of input"
  | expectedToken kind => "expected " ++ kind.label
  | expectedIdent => "expected identifier"
  | expectedEnd => "expected end of input"
  | expectedDeclaration => "expected declaration"
  | expectedTactic => "expected tactic"
  | expectedReplacement => "expected `new(...)` or `method` after `with`"
  | expectedScope => "expected `invariant` or `checkpoint(L1, L2)`"
  | expectedExpr => "expected expression"
  | expectedBound => "expected bound"
  | expectedFormula => "expected proposition"
  | expectedMember => "expected `.field` or `is` after object"
  | expectedObject => "expected object (`left`, `right` or `object(h, p)`)"
  | expectedHeap => "expected heap (`heap(left)`, `heap(right)` or `from_heap(h, p)`)"
  | expectedSide => "expected `left` or `right`"
  | unknownType name => "unknown type `" ++ name ++ "`"
  | chainedComparison =>
    "chained comparisons are not supported; use parentheses or boolean operators"

/-- A fault of the lexer and the bytes it concerns. -/
structure LexError where
  fault : LexFault
  span : Span
deriving DecidableEq, Repr

/-- A fault of the parser and the bytes it concerns. -/
structure ParseError where
  fault : ParseFault
  span : Span
deriving DecidableEq, Repr

inductive SourceError where
  | lex (e : LexError)
  | parse (e : ParseError)
deriving DecidableEq, Repr

namespace SourceError

def message : SourceError → String
  | lex e => e.fault.message
  | parse e => e.fault.message

def span : SourceError → Span
  | lex e => e.span
  | parse e => e.span

/-- The message with the stage that failed. -/
def report : SourceError → String
  | lex e => "lex error: " ++ e.fault.message
  | parse e => "parse error: " ++ e.fault.message

end SourceError

end GameHop
