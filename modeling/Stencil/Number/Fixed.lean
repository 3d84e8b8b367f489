import Stencil.Number.Binary64

/-!
Numbers written with a fixed count of decimal places, and the same with the
trailing zeros taken away down to one place. The digits are those of the exact
binary value, a half going to the even digit.
-/

namespace Stencil.Number

def paddedDigits (width n : Nat) : List Char :=
  let digits := Nat.toDigits 10 n
  List.replicate (width - digits.length) '0' ++ digits

def fixedDigits (places mantissa : Nat) (exponent : Int) : List Char × List Char :=
  let scaled := Binary64.roundScaled (mantissa * Nat.pow 10 places) 1 exponent
  (Nat.toDigits 10 (scaled / Nat.pow 10 places), paddedDigits places (scaled % Nat.pow 10 places))

def signText (negative : Bool) : List Char := if negative then ['-'] else []

def trimZeros : List Char → List Char
  | [] => []
  | first :: rest => first :: (rest.reverse.dropWhile (· = '0')).reverse

/-- Six places at most and one at least: `2.0`, `0.125`, `0.333333`. -/
def display (x : Float) : String :=
  match Binary64.ofFloat x with
  | .nan => "NaN"
  | .infinite negative => if negative then "-inf" else "inf"
  | .finite negative mantissa exponent =>
    let (whole, fraction) := fixedDigits 6 mantissa exponent
    String.ofList (signText negative ++ whole ++ '.' :: trimZeros fraction)

end Stencil.Number
