import GameHop.Toml.Moment
import GameHop.Toml.Number
import GameHop.Toml.Text

/-!
Keys and values in TOML.
-/

namespace GameHop.Toml

/-! ## Keys -/

def name? (cs : List Char) : Option (String × List Char) :=
  match shortText? cs with
  | some r => some r
  | none =>
    match cs.takeWhile isBare with
    | [] => none
    | bare => some (String.ofList bare, cs.dropWhile isBare)

/-- Reads names with dots between them. -/
def keyParts : (fuel : Nat) → Reader (List String)
  | 0, _ => none
  | fuel + 1, cs => do
    let (x, cs) ← name? (skipSpaces cs)
    match skipSpaces cs with
    | '.' :: rest =>
      let (xs, rest) ← keyParts fuel rest
      return (x :: xs, rest)
    | rest => return ([x], rest)

/-- One more than the number of names in a key, and of lists and tables inside one another. -/
def maxDepth : Nat :=
  80

def key? (cs : List Char) : Option (List String × List Char) := do
  let (key, rest) ← keyParts (cs.length + 1) cs
  if key.length < maxDepth then some (key, rest) else none

/-- Whether no key is the beginning of another one, so that each has a place of its own. -/
def areApart : List (List String) → Bool
  | [] => true
  | k :: ks => !ks.any (fun l => k.isPrefixOf l || l.isPrefixOf k) && areApart ks

/-! ## Values -/

/-- A number or a truth value. -/
def scalar? (cs : List Char) : Option Value :=
  if cs == "true".toList then some (.truth true)
  else if cs == "false".toList then some (.truth false)
  else if isFloat cs then some (.float (String.ofList cs))
  else (integer? cs).map .int

/-- Whether a character ends a number or a truth value. -/
def isDelimiter (c : Char) : Bool :=
  isSpace c || c == '\n' || c == '\r' || c == ',' || c == ']' || c == '\x7d' || c == '#'

def plainValue? (cs : List Char) : Option (Value × List Char) :=
  if cs.head? == some quote || cs.head? == some apostrophe then
    (text? cs).map fun (s, rest) => (.text s, rest)
  else
    match moment? cs with
    | some (s, rest) => some (.moment s, rest)
    | none => (scalar? (cs.takeWhile (!isDelimiter ·))).map (·, cs.dropWhile (!isDelimiter ·))

mutual

/-- Reads a value with lists and tables at most `room` deep. -/
def valueIn? : (fuel room : Nat) → Reader Value
  | 0, _, _ => none
  | fuel + 1, room, cs =>
    match room, cs with
    | room + 1, '[' :: rest => do
      let (vs, rest) ← items? fuel room (skipBlank rest)
      return (.list vs, rest)
    | room + 1, '\x7b' :: rest => do
      let (es, rest) ← entries? fuel room true (skipSpaces rest)
      if areApart (es.map (·.1)) then some (.table es, rest) else none
    | _, cs => plainValue? cs

def items? : (fuel room : Nat) → Reader (List Value)
  | 0, _, _ => none
  | fuel + 1, room, cs =>
    match cs with
    | ']' :: rest => some ([], rest)
    | cs => do
      let (v, rest) ← valueIn? fuel room cs
      match skipBlank rest with
      | ',' :: rest =>
        let (vs, rest) ← items? fuel room (skipBlank rest)
        return (v :: vs, rest)
      | ']' :: rest => return ([v], rest)
      | _ => none

/-- Reads the rest of an inline table. No comma stands before its end. -/
def entries? : (fuel room : Nat) → (first : Bool) → Reader (List (List String × Value))
  | 0, _, _, _ => none
  | fuel + 1, room, first, cs =>
    match cs with
    | [] => none
    | c :: rest =>
      if first && c == '\x7d' then some ([], rest)
      else do
        let (key, rest) ← key? cs
        match rest with
        | '=' :: rest =>
          let (v, rest) ← valueIn? fuel room (skipSpaces rest)
          match skipSpaces rest with
          | ',' :: rest =>
            let (es, rest) ← entries? fuel room false (skipSpaces rest)
            return ((key, v) :: es, rest)
          | '\x7d' :: rest => return ([(key, v)], rest)
          | _ => none
        | _ => none

end

def value? (cs : List Char) : Option (Value × List Char) :=
  valueIn? (cs.length + 1) (maxDepth - 1) cs

end GameHop.Toml
