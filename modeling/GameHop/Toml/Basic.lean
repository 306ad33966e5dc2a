/-!
TOML: its values, and the characters that they are written with.
-/

namespace GameHop.Toml

inductive Value where
  | text (s : String)
  | int (n : Int)
  /-- A floating point number as it is written. -/
  | float (s : String)
  | truth (b : Bool)
  /-- A date, a time or both, as they are written. -/
  | moment (s : String)
  | list (vs : List Value)
  /-- An inline table; a key is a list of names. -/
  | table (entries : List (List String × Value))

/-- A reader takes some characters off, or refuses. -/
abbrev Reader (α : Type) :=
  List Char → Option (α × List Char)

/-! ## Characters -/

def quote : Char := '\x22'

def apostrophe : Char := '\x27'

def isSpace (c : Char) : Bool :=
  c == ' ' || c == '\t'

/-- Characters that comments and quoted texts may hold: all but control characters. -/
def isPrintable (c : Char) : Bool :=
  c == '\t' || (0x20 ≤ c.toNat && c.toNat != 0x7F)

def isBare (c : Char) : Bool :=
  c.isAlphanum || c == '_' || c == '-'

def skipSpaces (cs : List Char) : List Char :=
  cs.dropWhile isSpace

def newline? : List Char → Option (List Char)
  | '\n' :: cs => some cs
  | '\r' :: '\n' :: cs => some cs
  | _ => none

/-- Skips a comment up to the end of its line. -/
def skipComment (cs : List Char) : List Char :=
  match cs with
  | '#' :: rest => rest.dropWhile isPrintable
  | _ => cs

/-- Skips blanks, comments and line ends. -/
def skipLines : (fuel : Nat) → List Char → List Char
  | 0, cs => cs
  | fuel + 1, cs =>
    let cs := skipComment (skipSpaces cs)
    match newline? cs with
    | some rest => skipLines fuel rest
    | none => cs

def skipBlank (cs : List Char) : List Char :=
  skipLines (cs.length + 1) cs

/-- The end of a line, or of the text, after blanks and a comment. -/
def lineEnd? (cs : List Char) : Option (List Char) :=
  match skipComment (skipSpaces cs) with
  | [] => some []
  | rest => newline? rest

/-! ## Digits -/

def hexDigit? (c : Char) : Option Nat :=
  if '0' ≤ c && c ≤ '9' then some (c.toNat - '0'.toNat)
  else if 'a' ≤ c && c ≤ 'f' then some (c.toNat - 'a'.toNat + 10)
  else if 'A' ≤ c && c ≤ 'F' then some (c.toNat - 'A'.toNat + 10)
  else none

/-- The number that digits of a base mean. -/
def number? (base : Nat) (ds : List Char) : Option Nat :=
  ds.foldlM (fun n c => do
    let d ← hexDigit? c
    if d < base then some (base * n + d) else none) 0

end GameHop.Toml
