import GameHop.Toml.Value

/-!
Documents in TOML, line by line. Headers of lists of tables are refused.
-/

namespace GameHop.Toml

inductive Line where
  /-- `[a.b]` -/
  | header (key : List String)
  /-- `a.b = value` -/
  | entry (key : List String) (value : Value)

def line? (cs : List Char) : Option (Line × List Char) :=
  match cs with
  | '[' :: rest => do
    let (key, rest) ← key? rest
    match rest with
    | ']' :: rest => return (.header key, rest)
    | _ => none
  | _ => do
    let (key, rest) ← key? cs
    match rest with
    | '=' :: rest =>
      let (v, rest) ← value? (skipSpaces rest)
      return (.entry key v, rest)
    | _ => none

def lines? : (fuel : Nat) → List Char → Option (List Line)
  | 0, _ => none
  | fuel + 1, cs =>
    match skipBlank cs with
    | [] => some []
    | cs => do
      let (l, rest) ← line? cs
      let rest ← lineEnd? rest
      let ls ← lines? fuel rest
      return l :: ls

/-- The lines of a text, which may start with a byte order mark. -/
def parse? (text : String) : Option (List Line) :=
  let cs := text.toList
  let cs := if cs.head? == some '\ufeff' then cs.drop 1 else cs
  lines? (cs.length + 1) cs

end GameHop.Toml
