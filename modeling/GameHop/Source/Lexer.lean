import GameHop.Source.Error

/-!
From characters to tokens. Blanks and comments are skipped; of the lexemes that start at a character
the longest is taken, and a reserved word is not an identifier. Spans count bytes.
-/

namespace GameHop.Lexer

/-! ## Character classes -/

/-- Space, tab, form feed, carriage return and line feed. -/
def isBlank (c : Char) : Bool :=
  c == ' ' || c == '\t' || c == '\x0c' || c == '\r' || c == '\n'

/-- `0` to `9`. -/
def isDigit (c : Char) : Bool :=
  '0' ≤ c && c ≤ '9'

/-- What an identifier may start with: a Latin letter or an underscore. -/
def isIdentStart (c : Char) : Bool :=
  ('a' ≤ c && c ≤ 'z') || ('A' ≤ c && c ≤ 'Z') || c == '_'

/-- What an identifier may go on with: also digits and apostrophes. -/
def isIdentRest (c : Char) : Bool :=
  isIdentStart c || isDigit c || c == '\''

def decimal (digits : List Char) : Nat :=
  digits.foldl (fun n c => 10 * n + (c.toNat - '0'.toNat)) 0

/-! ## Lexemes -/

/-- What a run of characters stands for. -/
inductive Lexeme where
  /-- A blank or a comment. -/
  | blank
  | token (kind : TokenKind)
  /-- Digits of a number that does not fit in 64 bits. -/
  | oversized
deriving DecidableEq, Repr

/-- The number of characters up to and with the first `*/`. -/
def commentEnd? : List Char → Option Nat
  | '*' :: '/' :: _ => some 2
  | _ :: cs => (commentEnd? cs).map (· + 1)
  | [] => none

def wordLexeme (word : List Char) : Lexeme :=
  let text := String.ofList word
  match Keyword.ofText? text with
  | some k => .token (.keyword k)
  | none => .token (.ident text)

def numberLexeme (digits : List Char) : Lexeme :=
  if decimal digits < UInt64.size then .token (.int (UInt64.ofNat (decimal digits)))
  else .oversized

/-- The symbol that `cs` starts with, and the number of its characters after the first. -/
def symbolLexeme? (cs : List Char) : Option (Lexeme × Nat) :=
  (Sym.ofChars? cs).map fun s => (.token (.sym s), s.text.toList.length - 1)

/-- The longest lexeme that starts with `c` and goes on in `rest`, and the number of its characters
    in `rest`. A comment that is not closed is no lexeme: its first slash is an operator. -/
def lexeme? (c : Char) (rest : List Char) : Option (Lexeme × Nat) :=
  if isBlank c then some (.blank, 0)
  else if isDigit c then
    let more := rest.takeWhile isDigit
    some (numberLexeme (c :: more), more.length)
  else if isIdentStart c then
    let more := rest.takeWhile isIdentRest
    some (wordLexeme (c :: more), more.length)
  else
    match c, rest with
    | '/', '/' :: more => some (.blank, 1 + (more.takeWhile (· != '\n')).length)
    | '/', '*' :: more =>
      match commentEnd? more with
      | some n => some (.blank, 1 + n)
      | none => symbolLexeme? (c :: rest)
    | _, _ => symbolLexeme? (c :: rest)

/-! ## Token lists -/

def byteLen : List Char → Nat
  | [] => 0
  | c :: cs => c.utf8Size + byteLen cs

/-- The tokens from byte `offset` on. The first `skip` characters belong to a lexeme that was
    already read. -/
def tokensFrom : Nat → Nat → List Char → Except LexError (List Token)
  | offset, _, [] => .ok [⟨.eof, ⟨offset, 0⟩⟩]
  | offset, skip + 1, c :: cs => tokensFrom (offset + c.utf8Size) skip cs
  | offset, 0, c :: cs =>
    match lexeme? c cs with
    | none => .error ⟨.unexpectedChar c, ⟨offset, c.utf8Size⟩⟩
    | some (.blank, n) => tokensFrom (offset + c.utf8Size) n cs
    | some (.oversized, n) => .error ⟨.oversizedInt, ⟨offset, byteLen (c :: cs.take n)⟩⟩
    | some (.token kind, n) => do
      let tokens ← tokensFrom (offset + c.utf8Size) n cs
      return ⟨kind, ⟨offset, byteLen (c :: cs.take n)⟩⟩ :: tokens

end GameHop.Lexer

namespace GameHop

/-- The tokens of a source text, with an end marker. -/
def tokenize (source : String) : Except LexError (List Token) :=
  Lexer.tokensFrom 0 0 source.toList

end GameHop
