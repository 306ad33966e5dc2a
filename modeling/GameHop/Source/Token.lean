import GameHop.Source.Span

/-!
Tokens: keywords, symbols, integer literals and identifiers. `text` is the spelling of a token in a
source text, `label` is the name by which messages and listings refer to its kind.
-/

namespace GameHop

inductive Keyword where
  | import_ | const_ | pure_ | static_ | function_ | axiom_ | theorem_ | assume_
  | new_ | method_ | ref_ | tobits_ | assert_ | admit_ | true_ | false_
  | forall_ | exists_ | isbits_ | env_ | is_
  | independence_ | frame_ | frameHeap_ | fieldsEqual_ | fieldsEqualExcept_
  | with_ | symmetry_ | trivial_ | auto_ | bisim_ | rewrite_ | hybrid_ | unfold_ | inline_
deriving DecidableEq, Repr

namespace Keyword

def text : Keyword → String
  | import_ => "import" | const_ => "const" | pure_ => "pure" | static_ => "static"
  | function_ => "function" | axiom_ => "axiom" | theorem_ => "theorem" | assume_ => "assume"
  | new_ => "new" | method_ => "method" | ref_ => "ref" | tobits_ => "tobits"
  | assert_ => "assert" | admit_ => "admit" | true_ => "true" | false_ => "false"
  | forall_ => "forall" | exists_ => "exists" | isbits_ => "isbits" | env_ => "env" | is_ => "is"
  | independence_ => "independence" | frame_ => "frame" | frameHeap_ => "frame_heap"
  | fieldsEqual_ => "fields_equal" | fieldsEqualExcept_ => "fields_equal_except"
  | with_ => "with" | symmetry_ => "symmetry" | trivial_ => "trivial" | auto_ => "auto"
  | bisim_ => "bisim" | rewrite_ => "rewrite" | hybrid_ => "hybrid" | unfold_ => "unfold"
  | inline_ => "inline"

def label : Keyword → String
  | import_ => "KwImport" | const_ => "KwConst" | pure_ => "KwPure" | static_ => "KwStatic"
  | function_ => "KwFunction" | axiom_ => "KwAxiom" | theorem_ => "KwTheorem"
  | assume_ => "KwAssume" | new_ => "KwNew" | method_ => "KwMethod" | ref_ => "KwRef"
  | tobits_ => "KwTobits" | assert_ => "KwAssert" | admit_ => "KwAdmit" | true_ => "KwTrue"
  | false_ => "KwFalse" | forall_ => "KwForall" | exists_ => "KwExists" | isbits_ => "KwIsbits"
  | env_ => "KwEnv" | is_ => "KwIs" | independence_ => "KwIndependence" | frame_ => "KwFrame"
  | frameHeap_ => "KwFrameHeap" | fieldsEqual_ => "KwFieldsEqual"
  | fieldsEqualExcept_ => "KwFieldsEqualExcept" | with_ => "KwWith" | symmetry_ => "KwSymmetry"
  | trivial_ => "KwTrivial" | auto_ => "KwAuto" | bisim_ => "KwBisim" | rewrite_ => "KwRewrite"
  | hybrid_ => "KwHybrid" | unfold_ => "KwUnfold" | inline_ => "KwInline"

def all : List Keyword :=
  [import_, const_, pure_, static_, function_, axiom_, theorem_, assume_, new_, method_, ref_,
    tobits_, assert_, admit_, true_, false_, forall_, exists_, isbits_, env_, is_, independence_,
    frame_, frameHeap_, fieldsEqual_, fieldsEqualExcept_, with_, symmetry_, trivial_, auto_,
    bisim_, rewrite_, hybrid_, unfold_, inline_]

def ofText? (s : String) : Option Keyword :=
  all.find? (·.text == s)

theorem mem_all (k : Keyword) : k ∈ all := by
  cases k <;> simp [all]

end Keyword

inductive Sym where
  | arrow | colonEq | colon | semi | eqEq | neq | le | ge | lt | gt | eq
  | andAnd | orOr | amp | pipe | bang | question | tilde | at_
  | plus | minus | star | slash | percent | caret
  | ellipsis | dot | comma
  | lParen | rParen | lBrace | rBrace | lBracket | rBracket
deriving DecidableEq, Repr

namespace Sym

def text : Sym → String
  | arrow => "->" | colonEq => ":=" | colon => ":" | semi => ";"
  | eqEq => "==" | neq => "!=" | le => "<=" | ge => ">=" | lt => "<" | gt => ">" | eq => "="
  | andAnd => "&&" | orOr => "||" | amp => "&" | pipe => "|" | bang => "!" | question => "?"
  | tilde => "~" | at_ => "@"
  | plus => "+" | minus => "-" | star => "*" | slash => "/" | percent => "%" | caret => "^"
  | ellipsis => "..." | dot => "." | comma => ","
  | lParen => "(" | rParen => ")" | lBrace => "\x7b" | rBrace => "\x7d"
  | lBracket => "[" | rBracket => "]"

def label : Sym → String
  | arrow => "Arrow" | colonEq => "ColonEq" | colon => "Colon" | semi => "Semi"
  | eqEq => "EqEq" | neq => "Neq" | le => "Le" | ge => "Ge" | lt => "Lt" | gt => "Gt" | eq => "Eq"
  | andAnd => "AndAnd" | orOr => "OrOr" | amp => "Amp" | pipe => "Pipe" | bang => "Bang"
  | question => "Question" | tilde => "Tilde" | at_ => "At"
  | plus => "Plus" | minus => "Minus" | star => "Star" | slash => "Slash" | percent => "Percent"
  | caret => "Caret" | ellipsis => "Ellipsis" | dot => "Dot" | comma => "Comma"
  | lParen => "LParen" | rParen => "RParen" | lBrace => "LBrace" | rBrace => "RBrace"
  | lBracket => "LBracket" | rBracket => "RBracket"

/-- All symbols, each before the symbols whose spelling is a beginning of its own. -/
def all : List Sym :=
  [ellipsis, arrow, colonEq, eqEq, neq, le, ge, andAnd, orOr, colon, semi, lt, gt, eq, amp, pipe,
    bang, question, tilde, at_, plus, minus, star, slash, percent, caret, dot, comma, lParen,
    rParen, lBrace, rBrace, lBracket, rBracket]

/-- The longest symbol that `cs` begins with. -/
def ofChars? (cs : List Char) : Option Sym :=
  all.find? (·.text.toList.isPrefixOf cs)

theorem mem_all (s : Sym) : s ∈ all := by
  cases s <;> simp [all]

end Sym

inductive TokenKind where
  | keyword (k : Keyword)
  | sym (s : Sym)
  | int (value : UInt64)
  | ident (name : String)
  | eof
deriving DecidableEq, Repr

namespace TokenKind

def text : TokenKind → String
  | keyword k => k.text
  | sym s => s.text
  | int n => toString n.toNat
  | ident x => x
  | eof => ""

def label : TokenKind → String
  | keyword k => k.label
  | sym s => s.label
  | int _ => "Int"
  | ident _ => "Ident"
  | eof => "Eof"

end TokenKind

/-- A token and the bytes it takes. -/
structure Token where
  kind : TokenKind
  span : Span
deriving DecidableEq, Repr

end GameHop
