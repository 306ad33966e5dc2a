import GameHop.Toml.Basic

/-!
Numbers in TOML, as whole runs of characters. An integer has 64 bits. A floating point number has a
fraction or an exponent, and does not exceed what 64 bits can hold; below zero there is no such bound.
-/

namespace GameHop.Toml

/-- Digits with single underscores between them. -/
def ungroup? (cs : List Char) : Option (List Char) :=
  let groups := cs.splitOn '_'
  if groups.any List.isEmpty then none else some groups.flatten

/-- The decimal digits of a run, with leading zeros or without. -/
def digits? (cs : List Char) : Option (List Char) := do
  let ds ← ungroup? cs
  if ds.all (fun c => '0' ≤ c && c ≤ '9') then some ds else none

/-- The decimal digits of a run without leading zeros. -/
def wholeDigits? (cs : List Char) : Option (List Char) := do
  let ds ← digits? cs
  if ds.length > 1 && ds.head? == some '0' then none else some ds

/-- A run with its sign; `true` stands for a minus. -/
def signed : List Char → Bool × List Char
  | '+' :: cs => (false, cs)
  | '-' :: cs => (true, cs)
  | cs => (false, cs)

/-! ## Integers -/

def decimal? (cs : List Char) : Option Nat := do
  number? 10 (← wholeDigits? cs)

/-- A number without a sign, in one of four bases. -/
def natural? : List Char → Option Nat
  | '0' :: 'x' :: ds => do number? 16 (← ungroup? ds)
  | '0' :: 'o' :: ds => do number? 8 (← ungroup? ds)
  | '0' :: 'b' :: ds => do number? 2 (← ungroup? ds)
  | ds => decimal? ds

/-- An integer of 64 bits. Only decimal numbers have signs. -/
def integer? (cs : List Char) : Option Int := do
  let n : Int ← match cs with
    | '+' :: ds => (decimal? ds).map Int.ofNat
    | '-' :: ds => (decimal? ds).map fun n => -Int.ofNat n
    | ds => (natural? ds).map Int.ofNat
  if Int64.minValue.toInt ≤ n && n ≤ Int64.maxValue.toInt then some n else none

/-! ## Floating point numbers -/

/-- The least number that rounds to infinity in 64 bits. -/
def overflowBound : Nat :=
  Nat.pow 2 1024 - Nat.pow 2 970

/-- Whether digits with a point before the last `places` of them, times a power of ten, reach
    `overflowBound`. A power so large or so small that it alone decides is not computed. -/
def overflows (ds : List Char) (places : Nat) (exponent : Int) : Bool :=
  let n := (number? 10 ds).getD 0
  let shift := exponent - places
  if n == 0 || shift < -Int.ofNat ds.length then false
  else if shift > 400 then true
  else if shift ≥ 0 then n * Nat.pow 10 shift.toNat ≥ overflowBound
  else n ≥ overflowBound * Nat.pow 10 (-shift).toNat

/-- The exponent in a run that follows an `e`. -/
def exponent? (cs : List Char) : Option Int := do
  let (negative, cs) := signed cs
  let n ← number? 10 (← digits? cs)
  return if negative then -Int.ofNat n else Int.ofNat n

/-- The digits of a run before an `e`, and how many of them follow the point. -/
def significand? (cs : List Char) : Option (List Char × Nat) := do
  let whole ← wholeDigits? (cs.takeWhile (· != '.'))
  match cs.dropWhile (· != '.') with
  | [] => return (whole, 0)
  | _ :: fraction =>
    let fraction ← digits? fraction
    return (whole ++ fraction, fraction.length)

/-- Whether a run is a floating point number. -/
def isFloat (cs : List Char) : Bool :=
  let (negative, run) := signed cs
  if run == "inf".toList || run == "nan".toList then true
  else
    let isExp := fun c => c == 'e' || c == 'E'
    let power := run.dropWhile (!isExp ·)
    match significand? (run.takeWhile (!isExp ·)), power with
    | none, _ => false
    | some (ds, places), [] => run.contains '.' && (negative || !overflows ds places 0)
    | some (ds, places), _ :: power =>
      match exponent? power with
      | none => false
      | some x => negative || !overflows ds places x

end GameHop.Toml
