import GameHop.Source.Token

/-!
Laid out text: tokens with blanks between them. Printing a term gives a layout; its text is what is
shown and its tokens are what a reader of that text sees.
-/

namespace GameHop

/-- A token or a blank. -/
inductive Piece where
  | tok (kind : TokenKind)
  | space
  /-- A line end, and the indentation of the next line in steps of four spaces. -/
  | newline (depth : Nat)
deriving DecidableEq, Repr

/-- A text in the making. -/
abbrev Layout := List Piece

namespace Piece

def text : Piece → String
  | tok k => k.text
  | space => " "
  | newline depth => "\n" ++ "".pushn ' ' (4 * depth)

def kind? : Piece → Option TokenKind
  | tok k => some k
  | _ => none

end Piece

namespace Layout

def text (l : Layout) : String :=
  String.join (l.map Piece.text)

def kinds (l : Layout) : List TokenKind :=
  l.filterMap Piece.kind?

@[simp] theorem kinds_append (a b : Layout) : kinds (a ++ b) = kinds a ++ kinds b := by
  simp [kinds]

/-! ## Building blocks -/

def sym (s : Sym) : Layout :=
  [.tok (.sym s)]

def word (k : Keyword) : Layout :=
  [.tok (.keyword k)]

def ident (name : String) : Layout :=
  [.tok (.ident name)]

def number (n : UInt64) : Layout :=
  [.tok (.int n)]

def space : Layout :=
  [.space]

def newline (depth : Nat) : Layout :=
  [.newline depth]

/-- `true` or `false`. -/
def truth (b : Bool) : Layout :=
  word (if b then .true_ else .false_)

/-- `(inner)` -/
def parens (inner : Layout) : Layout :=
  sym .lParen ++ inner ++ sym .rParen

def parensIf (needed : Bool) (inner : Layout) : Layout :=
  if needed then parens inner else inner

/-- `a, b, c` -/
def commas : List Layout → Layout
  | [] => []
  | [a] => a
  | a :: b :: rest => a ++ sym .comma ++ space ++ commas (b :: rest)

/-- `left op right` -/
def infixed (left : Layout) (op : Sym) (right : Layout) : Layout :=
  left ++ space ++ sym op ++ space ++ right

/-- Braces around lines, which stand one step deeper than the closing brace. -/
def braces (depth : Nat) (lines : List Layout) : Layout :=
  sym .lBrace ++ (lines.map fun l => newline (depth + 1) ++ l).flatten ++ newline depth ++
    sym .rBrace

end Layout

end GameHop
