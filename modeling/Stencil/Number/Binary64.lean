/-!
Double precision numbers taken apart into a whole mantissa and a power of two,
and put together again by rounding an exact ratio to the nearest number, a half
to the even mantissa. The remainder of a division is exact and takes the sign
of the dividend.
-/

namespace Stencil

/-- A double precision number; a finite one is `mantissa * 2 ^ exponent`. -/
inductive Binary64
  | nan
  | infinite (negative : Bool)
  | finite (negative : Bool) (mantissa : Nat) (exponent : Int)

namespace Binary64

def ofFloat (x : Float) : Binary64 :=
  let bits : Nat := x.toBits.toNat
  let negative := bits / Nat.pow 2 63 == 1
  let biased : Nat := bits / Nat.pow 2 52 % Nat.pow 2 11
  let fraction : Nat := bits % Nat.pow 2 52
  if biased = 2047 then
    if fraction = 0 then .infinite negative else .nan
  else if biased = 0 then .finite negative fraction (-1074)
  else .finite negative (fraction + Nat.pow 2 52) ((biased : Int) - 1075)

/-- The quotient to the nearest whole number, a half to the even one. -/
def roundDiv (num den : Nat) : Nat :=
  let quotient := num / den
  let rest := num % den
  if den < 2 * rest ∨ (2 * rest = den ∧ quotient % 2 = 1) then quotient + 1 else quotient

def roundScaled (num den : Nat) (exponent : Int) : Nat :=
  match exponent with
  | .ofNat e => roundDiv (num * Nat.pow 2 e) den
  | .negSucc e => roundDiv num (den * Nat.pow 2 (e + 1))

/-- The exponent at which the ratio has 53 binary digits, or the least one. -/
def ratioExponent (num den : Nat) : Int :=
  let guess : Int := (num.log2 : Int) - den.log2 - 52
  let fits : Bool := match guess with
    | .ofNat e => den * Nat.pow 2 (e + 52) ≤ num
    | .negSucc e => den * Nat.pow 2 52 ≤ num * Nat.pow 2 (e + 1)
  max (if fits then guess else guess - 1) (-1074)

/-- The number nearest to the ratio. The binary digits of the rounded mantissa
carry into the exponent by themselves, and past the greatest number lies
infinity. -/
def nearestRatio (negative : Bool) (num den : Nat) : Float :=
  let sign : Nat := if negative then Nat.pow 2 63 else 0
  if num = 0 then Float.ofBits (UInt64.ofNat sign)
  else
    let exponent := ratioExponent num den
    let mantissa := roundScaled num den (-exponent)
    let bits := (exponent + 1074).toNat * Nat.pow 2 52 + mantissa
    Float.ofBits (UInt64.ofNat (sign + min bits (2047 * Nat.pow 2 52)))

def toFloat (negative : Bool) (mantissa : Nat) : Int → Float
  | .ofNat e => nearestRatio negative (mantissa * Nat.pow 2 e) 1
  | .negSucc e => nearestRatio negative mantissa (Nat.pow 2 (e + 1))

def notANumber : Float := Float.ofBits 0x7FF8000000000000

/-- What is left of the dividend after taking away the divisor as often as it
fits, in exact arithmetic; the divisor is not zero. -/
def remainder (x y : Float) : Float :=
  match ofFloat x, ofFloat y with
  | .nan, _ => notANumber
  | _, .nan => notANumber
  | .infinite _, _ => notANumber
  | .finite .., .infinite _ => x
  | .finite negative m e, .finite _ n f =>
    let base := min e f
    let dividend := m * Nat.pow 2 (e - base).toNat
    let divisor := n * Nat.pow 2 (f - base).toNat
    toFloat negative (dividend % divisor) base

end Binary64

end Stencil
