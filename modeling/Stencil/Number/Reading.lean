import Stencil.Number.Binary64

/-!
Whole and decimal numbers read from text. A whole number is an optional sign
and digits and must fit into 64 bits; a decimal may have a point, an exponent
or be the word for infinity or for no number. The nearest double precision
number is taken.
-/

namespace Stencil.Number

def digitValue (c : Char) : Nat := c.toNat - '0'.toNat

def readDigitsFrom (acc : Nat) (cs : List Char) : Nat :=
  cs.foldl (fun n c => 10 * n + digitValue c) acc

def readDigits (cs : List Char) : Nat := readDigitsFrom 0 cs

def splitSign : List Char → Bool × List Char
  | '-' :: rest => (true, rest)
  | '+' :: rest => (false, rest)
  | cs => (false, cs)

def greatestInt : Nat := Nat.pow 2 63 - 1

def readInt? (s : String) : Option Int64 :=
  let (negative, digits) := splitSign s.toList
  if digits.isEmpty || !digits.all Char.isDigit then none
  else
    let n := readDigits digits
    if negative then if n ≤ greatestInt + 1 then some (Int64.ofInt (-n)) else none
    else if n ≤ greatestInt then some (Int64.ofInt n) else none

/-- The number nearest to `digits * 10 ^ power`. Powers beyond every double are
settled without being computed. -/
def nearestDecimal (negative : Bool) (digits : Nat) (power : Int) : Float :=
  let size : Int := (Nat.toDigits 10 digits).length + power
  if digits = 0 || size < -400 then Binary64.nearestRatio negative 0 1
  else if size > 400 then Binary64.toFloat negative 1 1024
  else match power with
    | .ofNat p => Binary64.nearestRatio negative (digits * Nat.pow 10 p) 1
    | .negSucc p => Binary64.nearestRatio negative digits (Nat.pow 10 (p + 1))

/-- The power of ten after the mark of an exponent, or zero without one. -/
def readExponent? : List Char → Option Int
  | [] => some 0
  | mark :: rest =>
    if mark = 'e' || mark = 'E' then
      let (negative, digits) := splitSign rest
      if digits.isEmpty || !digits.all Char.isDigit then none
      else some (if negative then -(readDigits digits : Int) else readDigits digits)
    else none

def readUnsigned? (negative : Bool) (cs : List Char) : Option Float :=
  let whole := cs.takeWhile Char.isDigit
  let afterWhole := cs.dropWhile Char.isDigit
  let (fraction, afterFraction) := match afterWhole with
    | '.' :: rest => (rest.takeWhile Char.isDigit, rest.dropWhile Char.isDigit)
    | rest => ([], rest)
  if whole.isEmpty && fraction.isEmpty then none
  else (readExponent? afterFraction).map fun power =>
    nearestDecimal negative (readDigits (whole ++ fraction)) (power - fraction.length)

def readFloat? (s : String) : Option Float :=
  let (negative, cs) := splitSign s.toList
  let word := String.ofList (cs.map Char.toLower)
  if word = "inf" || word = "infinity" then some (Binary64.toFloat negative 1 1024)
  else if word = "nan" then some Binary64.notANumber
  else readUnsigned? negative cs

end Stencil.Number
