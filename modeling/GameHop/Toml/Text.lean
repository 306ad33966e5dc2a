import GameHop.Toml.Basic

/-!
Texts in TOML. Quotes allow escapes and apostrophes do not; three of them enclose several lines.
-/

namespace GameHop.Toml

/-! ## One line -/

/-- The character of a code given in hexadecimal digits. -/
def coded? (size : Nat) (cs : List Char) : Option (Char × List Char) := do
  let ds := cs.take size
  if ds.length != size then none
  let n ← number? 16 ds
  if n.isValidChar then some (Char.ofNat n, cs.drop size) else none

/-- Reads what follows a backslash. -/
def escape? : Reader Char
  | 'b' :: cs => some ('\x08', cs)
  | 't' :: cs => some ('\t', cs)
  | 'n' :: cs => some ('\n', cs)
  | 'f' :: cs => some ('\x0c', cs)
  | 'r' :: cs => some ('\r', cs)
  | '\\' :: cs => some ('\\', cs)
  | 'u' :: cs => coded? 4 cs
  | 'U' :: cs => coded? 8 cs
  | c :: cs => if c == quote then some (quote, cs) else none
  | [] => none

/-- Reads a text with escapes up to its closing quote. -/
def basicText : (fuel : Nat) → List Char → Reader String
  | 0, _, _ => none
  | _ + 1, _, [] => none
  | fuel + 1, acc, c :: cs =>
    if c == quote then some (String.ofList acc.reverse, cs)
    else if c == '\\' then do
      let (c, cs) ← escape? cs
      basicText fuel (c :: acc) cs
    else if isPrintable c then basicText fuel (c :: acc) cs
    else none

/-- Reads a text without escapes up to its closing apostrophe. -/
def literalText (cs : List Char) : Option (String × List Char) :=
  let body := cs.takeWhile fun c => c != apostrophe && isPrintable c
  match cs.dropWhile fun c => c != apostrophe && isPrintable c with
  | c :: rest => if c == apostrophe then some (String.ofList body, rest) else none
  | [] => none

def shortText? : Reader String
  | [] => none
  | c :: cs =>
    if c == quote then basicText (cs.length + 1) [] cs
    else if c == apostrophe then literalText cs
    else none

/-! ## Several lines -/

/-- Reads the end of a text of several lines: three to five quotes, of which the last three close. -/
def closing? (q : Char) (cs : List Char) : Option (List Char × List Char) :=
  let run := cs.takeWhile (· == q)
  if run.length < 3 then none
  else
    let extra := min (run.length - 3) 2
    some (List.replicate extra q, cs.drop (extra + 3))

/-- Skips blanks and line ends. -/
def skipBreaks : List Char → List Char
  | '\r' :: '\n' :: cs => skipBreaks cs
  | c :: cs => if isSpace c || c == '\n' then skipBreaks cs else c :: cs
  | [] => []

/-- Skips the blanks and line ends after a backslash at the end of a line. -/
def skipContinuation (cs : List Char) : Option (List Char) :=
  (newline? (skipSpaces cs)).map skipBreaks

/-- Reads a text of several lines up to its closing quotes. -/
def longText (q : Char) (escapes : Bool) : (fuel : Nat) → List Char → Reader String
  | 0, _, _ => none
  | fuel + 1, acc, cs =>
    match closing? q cs with
    | some (extra, rest) => some (String.ofList (acc.reverse ++ extra), rest)
    | none =>
      match newline? cs with
      | some rest => longText q escapes fuel ('\n' :: acc) rest
      | none =>
        match cs with
        | [] => none
        | c :: rest =>
          if escapes && c == '\\' then
            match skipContinuation rest with
            | some rest => longText q escapes fuel acc rest
            | none => do
              let (c, rest) ← escape? rest
              longText q escapes fuel (c :: acc) rest
          else if isPrintable c then longText q escapes fuel (c :: acc) rest
          else none

/-- Reads a text of several lines. A line end right after the opening quotes does not count. -/
def readLongText (q : Char) (escapes : Bool) (cs : List Char) : Option (String × List Char) :=
  longText q escapes (cs.length + 1) [] ((newline? cs).getD cs)

def text? (cs : List Char) : Option (String × List Char) :=
  let long := fun q => cs.take 3 == [q, q, q]
  if long quote then readLongText quote true (cs.drop 3)
  else if long apostrophe then readLongText apostrophe false (cs.drop 3)
  else shortText? cs

end GameHop.Toml
