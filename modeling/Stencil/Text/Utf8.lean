/-!
Bytes read as UTF-8. The strict reading refuses malformed bytes; the lenient
one puts a replacement character for each longest stretch that begins a
character and breaks off, and for each byte that begins none.
-/

namespace Stencil.Text

def ofUtf8? (bytes : ByteArray) : Option String := String.fromUTF8? bytes

/-- What a leading byte promises: how many more bytes follow, and the least and
the greatest value of the first of them. -/
def leadingByte (b : UInt8) : Option (Nat × UInt8 × UInt8) :=
  if b < 0xC2 then none
  else if b < 0xE0 then some (1, 0x80, 0xBF)
  else if b = 0xE0 then some (2, 0xA0, 0xBF)
  else if b = 0xED then some (2, 0x80, 0x9F)
  else if b < 0xF0 then some (2, 0x80, 0xBF)
  else if b = 0xF0 then some (3, 0x90, 0xBF)
  else if b < 0xF4 then some (3, 0x80, 0xBF)
  else if b = 0xF4 then some (3, 0x80, 0x8F)
  else none

def isTrailingByte (b : UInt8) : Bool := 0x80 ≤ b && b ≤ 0xBF

def codePoint (leading : UInt8) (trailing : List UInt8) : Char :=
  let mask : Nat := match trailing.length with
    | 1 => 0x1F
    | 2 => 0x0F
    | _ => 0x07
  Char.ofNat (trailing.foldl (fun acc b => acc * 64 + b.toNat % 64) (leading.toNat &&& mask))

def replacement : Char := '\uFFFD'

def lenientChars : List UInt8 → List Char
  | [] => []
  | b :: rest =>
    if b < 0x80 then Char.ofNat b.toNat :: lenientChars rest
    else match leadingByte b with
      | none => replacement :: lenientChars rest
      | some (count, least, greatest) =>
        match rest with
        | [] => [replacement]
        | b₂ :: rest₂ =>
          if !(least ≤ b₂ && b₂ ≤ greatest) then replacement :: lenientChars (b₂ :: rest₂)
          else if count = 1 then codePoint b [b₂] :: lenientChars rest₂
          else match rest₂ with
            | [] => [replacement]
            | b₃ :: rest₃ =>
              if !isTrailingByte b₃ then replacement :: lenientChars (b₃ :: rest₃)
              else if count = 2 then codePoint b [b₂, b₃] :: lenientChars rest₃
              else match rest₃ with
                | [] => [replacement]
                | b₄ :: rest₄ =>
                  if !isTrailingByte b₄ then replacement :: lenientChars (b₄ :: rest₄)
                  else codePoint b [b₂, b₃, b₄] :: lenientChars rest₄

def ofUtf8Lenient (bytes : ByteArray) : String :=
  String.ofList (lenientChars bytes.toList)

end Stencil.Text
