import Stencil.Number.Fixed

/-!
The fewest decimal digits that read back as the same number, written without an
exponent. The reals that round to a number form an interval whose ends belong
to it when the mantissa is even; the coarsest decimal grid with a point in the
interval wins, and of two points the nearer one, the upper if both are equally
near.
-/

namespace Stencil.Number

/-- An interval around a value, all three over one denominator. -/
structure Around where
  low : Nat
  value : Nat
  high : Nat
  den : Nat
  closed : Bool

/-- The interval of reals that round to `mantissa * 2 ^ exponent`. Below a power
of two the gap is half as wide. -/
def around (mantissa : Nat) (exponent : Int) : Around :=
  let below : Nat := if mantissa = Nat.pow 2 52 ∧ -1074 < exponent then 1 else 2
  let up : Nat := Nat.pow 2 exponent.toNat
  { low := (4 * mantissa - below) * up
    value := 4 * mantissa * up
    high := (4 * mantissa + 2) * up
    den := 4 * Nat.pow 2 (-exponent).toNat
    closed := mantissa % 2 = 0 }

def Around.inUnits (a : Around) (power : Int) : Around :=
  let grow : Nat := Nat.pow 10 (-power).toNat
  { a with
    low := a.low * grow
    value := a.value * grow
    high := a.high * grow
    den := a.den * Nat.pow 10 power.toNat }

def Around.holds (a : Around) (n : Nat) : Bool :=
  if a.closed then a.low ≤ n * a.den && n * a.den ≤ a.high
  else a.low < n * a.den && n * a.den < a.high

def Around.nearest? (a : Around) : Option Nat :=
  let down := a.value / a.den
  let up := down + 1
  if a.holds down && a.holds up then
    if a.value - down * a.den < up * a.den - a.value then some down else some up
  else if a.holds down then some down
  else if a.holds up then some up
  else none

def shortestFrom (a : Around) (power : Int) : Nat → Nat × Int
  | 0 => (a.value / a.den, 0)
  | tries + 1 =>
    match (a.inUnits power).nearest? with
    | some n => (n, power)
    | none => shortestFrom a (power - 1) tries

/-- The power of ten of the leading decimal digit, or one more. -/
def leadingPower (mantissa : Nat) (exponent : Int) : Int :=
  (((mantissa.log2 : Int) + exponent + 1) * 30103) / 100000 + 1

def shortest (mantissa : Nat) (exponent : Int) : Nat × Int :=
  shortestFrom (around mantissa exponent) (leadingPower mantissa exponent) 20

def positional (digits : Nat) (power : Int) : List Char :=
  match power with
  | .ofNat zeros => Nat.toDigits 10 (digits * Nat.pow 10 zeros)
  | .negSucc n =>
    let places := n + 1
    Nat.toDigits 10 (digits / Nat.pow 10 places) ++
      '.' :: paddedDigits places (digits % Nat.pow 10 places)

/-- The shortest decimal that reads back as the number: `1`, `1.5`, `0.1`. -/
def displayShortest (x : Float) : String :=
  match Binary64.ofFloat x with
  | .nan => "NaN"
  | .infinite negative => if negative then "-inf" else "inf"
  | .finite negative mantissa exponent =>
    if mantissa = 0 then String.ofList (signText negative ++ ['0'])
    else
      let (digits, power) := shortest mantissa exponent
      String.ofList (signText negative ++ positional digits power)

end Stencil.Number
