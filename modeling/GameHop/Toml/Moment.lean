import GameHop.Toml.Basic

/-!
Dates and times in TOML: a date, a time of day, or a date with a time of day and perhaps an offset.
-/

namespace GameHop.Toml

def fixedDigits? (size : Nat) (cs : List Char) : Option (Nat × List Char) := do
  let ds := cs.take size
  if ds.length == size then return (← number? 10 ds, cs.drop size) else none

/-- Reads two digits within bounds. -/
def twoDigits? (low high : Nat) (cs : List Char) : Option (Nat × List Char) := do
  let (n, rest) ← fixedDigits? 2 cs
  if low ≤ n && n ≤ high then some (n, rest) else none

def skip? (c : Char) : List Char → Option (List Char)
  | d :: cs => if d == c then some cs else none
  | [] => none

def isLeapYear (year : Nat) : Bool :=
  year % 4 == 0 && (year % 100 != 0 || year % 400 == 0)

def daysIn (year month : Nat) : Nat :=
  if month == 2 then (if isLeapYear year then 29 else 28)
  else if month == 4 || month == 6 || month == 9 || month == 11 then 30
  else 31

def skipDate? (cs : List Char) : Option (List Char) := do
  let (year, cs) ← fixedDigits? 4 cs
  let (month, cs) ← twoDigits? 1 12 (← skip? '-' cs)
  let (_, cs) ← twoDigits? 1 (daysIn year month) (← skip? '-' cs)
  return cs

/-- Skips the fraction of a second, if there is one. -/
def skipFraction : List Char → List Char
  | '.' :: cs =>
    let rest := cs.dropWhile fun c => '0' ≤ c && c ≤ '9'
    if rest.length < cs.length then rest else '.' :: cs
  | cs => cs

/-- Skips a time of day. A minute may have a leap second. -/
def skipTime? (cs : List Char) : Option (List Char) := do
  let (_, cs) ← twoDigits? 0 23 cs
  let (_, cs) ← twoDigits? 0 59 (← skip? ':' cs)
  let (_, cs) ← twoDigits? 0 60 (← skip? ':' cs)
  return skipFraction cs

def skipOffset? (cs : List Char) : Option (List Char) :=
  match cs with
  | [] => none
  | c :: rest =>
    if c == 'Z' || c == 'z' then some rest
    else if c == '+' || c == '-' then do
      let (_, rest) ← twoDigits? 0 23 rest
      let (_, rest) ← twoDigits? 0 59 (← skip? ':' rest)
      return rest
    else none

/-- Skips the time of day that may follow a date. -/
def skipTimeOfDate (cs : List Char) : List Char :=
  match cs with
  | [] => []
  | c :: rest =>
    if c == 'T' || c == 't' || c == ' ' then
      match skipTime? rest with
      | some rest => (skipOffset? rest).getD rest
      | none => cs
    else cs

/-- Skips a date, a time of day or both. -/
def skipMoment? (cs : List Char) : Option (List Char) :=
  match skipDate? cs with
  | some rest => some (skipTimeOfDate rest)
  | none => skipTime? cs

/-- Reads a date, a time of day or both. -/
def moment? (cs : List Char) : Option (String × List Char) := do
  let rest ← skipMoment? cs
  return (String.ofList (cs.take (cs.length - rest.length)), rest)

end GameHop.Toml
