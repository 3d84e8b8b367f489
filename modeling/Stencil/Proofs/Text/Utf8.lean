import Stencil.Text.Utf8

/-!
Characters spelled in UTF-8. A character below 128 is one byte, any other one is a first byte
and one to three trailing bytes, all of them from 128 on. The lenient reading gives back what
was spelled, so it puts no replacement character into text that was UTF-8.
-/

namespace Stencil

namespace Text

variable {b b₂ b₃ b₄ : UInt8} {rest : List UInt8} {n : Nat}

/-- Text that has been encoded is read back. -/
theorem ofUtf8?_toUTF8 (text : String) : ofUtf8? text.toUTF8 = some text := by
  unfold ofUtf8? String.fromUTF8?
  exact dif_pos text.isValidUTF8

def utf8Bytes (cs : List Char) : List UInt8 := cs.flatMap String.utf8EncodeChar

@[simp] theorem utf8Bytes_nil : utf8Bytes [] = [] := rfl

@[simp] theorem utf8Bytes_cons (c : Char) (cs : List Char) :
    utf8Bytes (c :: cs) = String.utf8EncodeChar c ++ utf8Bytes cs := rfl

theorem utf8Bytes_append (cs cs' : List Char) :
    utf8Bytes (cs ++ cs') = utf8Bytes cs ++ utf8Bytes cs' := List.flatMap_append

theorem toList_loop (bytes : ByteArray) (i : Nat) (read : List UInt8) :
    ByteArray.toList.loop bytes i read = read.reverse ++ bytes.data.toList.drop i := by
  fun_induction ByteArray.toList.loop bytes i read with
  | case1 i read hi ih =>
    have hi' : i < bytes.data.toList.length := by simpa using hi
    rw [ih, List.drop_eq_getElem_cons hi']
    simp [ByteArray.get!, hi]
  | case2 i read hi =>
    rw [List.drop_eq_nil_of_le (by simpa using Nat.le_of_not_lt hi), List.append_nil]

theorem toList_toByteArray (bytes : List UInt8) : bytes.toByteArray.toList = bytes := by
  rw [ByteArray.toList, toList_loop, List.toList_data_toByteArray]
  rfl

theorem toList_toByteArray_string (s : String) : s.toByteArray.toList = utf8Bytes s.toList := by
  have hs : (String.ofList s.toList).toByteArray = (utf8Bytes s.toList).toByteArray :=
    String.toByteArray_ofList
  rw [String.ofList_toList] at hs
  rw [hs, toList_toByteArray]

/-- A character is one byte below 128 or a row of bytes from 128 on. -/
theorem utf8EncodeChar_cases (c : Char) :
    (c.toNat < 0x80 ∧ String.utf8EncodeChar c = [UInt8.ofNat c.toNat]) ∨
      (0x80 ≤ c.toNat ∧ ∀ b ∈ String.utf8EncodeChar c, 0x80 ≤ b.toNat) := by
  have htrailing : ∀ n, 0x80 ≤ (UInt8.ofNat (n % 64 + 0x80)).toNat := by
    intro n
    rw [UInt8.toNat_ofNat']
    omega
  unfold String.utf8EncodeChar Char.toNat
  dsimp only
  by_cases hone : c.val.toNat ≤ 127
  · left
    exact ⟨by omega, if_pos hone⟩
  · right
    refine ⟨by omega, ?_⟩
    rw [if_neg hone]
    split
    · simp only [List.forall_mem_cons]
      refine ⟨?_, htrailing _, List.forall_mem_nil _⟩
      rw [UInt8.toNat_ofNat']
      omega
    · split
      · simp only [List.forall_mem_cons]
        refine ⟨?_, htrailing _, htrailing _, List.forall_mem_nil _⟩
        rw [UInt8.toNat_ofNat']
        omega
      · simp only [List.forall_mem_cons]
        refine ⟨?_, htrailing _, htrailing _, htrailing _, List.forall_mem_nil _⟩
        rw [UInt8.toNat_ofNat']
        omega

/-! The lenient reading gives back what was spelled in UTF-8. -/

/-- The leading bytes by their ranges, each with the number and the bounds of the bytes that
follow. -/
theorem leadingByte_eq (b : UInt8) : leadingByte b =
    if b.toNat < 0xC2 then none
    else if b.toNat < 0xE0 then some (1, 0x80, 0xBF)
    else if b.toNat = 0xE0 then some (2, 0xA0, 0xBF)
    else if b.toNat = 0xED then some (2, 0x80, 0x9F)
    else if b.toNat < 0xF0 then some (2, 0x80, 0xBF)
    else if b.toNat = 0xF0 then some (3, 0x90, 0xBF)
    else if b.toNat < 0xF4 then some (3, 0x80, 0xBF)
    else if b.toNat = 0xF4 then some (3, 0x80, 0x8F)
    else none := by
  simp only [leadingByte, UInt8.lt_iff_toNat_lt, ← UInt8.toNat_inj]
  rfl

/-- The first byte of a character tells how many more there are, and the second one is within
the bounds that the first one sets. -/
def Begins (count : Nat) (b b₂ : UInt8) : Prop :=
  ∃ least greatest, leadingByte b = some (count, least, greatest) ∧ least ≤ b₂ ∧ b₂ ≤ greatest

theorem Begins.not_lt {count : Nat} (h : Begins count b b₂) : ¬b < 0x80 := by
  obtain ⟨least, greatest, hlead, -⟩ := h
  intro hb
  have hb' : b.toNat < 0x80 := UInt8.lt_iff_toNat_lt.mp hb
  rw [leadingByte_eq, if_pos (by omega)] at hlead
  cases hlead

theorem lenientChars_two (h : Begins 1 b b₂) :
    lenientChars (b :: b₂ :: rest) = codePoint b [b₂] :: lenientChars rest := by
  rw [lenientChars, if_neg h.not_lt]
  obtain ⟨least, greatest, hlead, hleast, hgreatest⟩ := h
  simp [hlead, hleast, hgreatest]

theorem lenientChars_three (h : Begins 2 b b₂) (h₃ : isTrailingByte b₃ = true) :
    lenientChars (b :: b₂ :: b₃ :: rest) = codePoint b [b₂, b₃] :: lenientChars rest := by
  rw [lenientChars, if_neg h.not_lt]
  obtain ⟨least, greatest, hlead, hleast, hgreatest⟩ := h
  simp [hlead, hleast, hgreatest, h₃]

theorem lenientChars_four (h : Begins 3 b b₂) (h₃ : isTrailingByte b₃ = true)
    (h₄ : isTrailingByte b₄ = true) :
    lenientChars (b :: b₂ :: b₃ :: b₄ :: rest) =
      codePoint b [b₂, b₃, b₄] :: lenientChars rest := by
  rw [lenientChars, if_neg h.not_lt]
  obtain ⟨least, greatest, hlead, hleast, hgreatest⟩ := h
  simp [hlead, hleast, hgreatest, h₃, h₄]

def trailingByte (n : Nat) : UInt8 := UInt8.ofNat (n % 64 + 0x80)

theorem toNat_trailingByte (n : Nat) : (trailingByte n).toNat = n % 64 + 0x80 := by
  rw [trailingByte, UInt8.toNat_ofNat']
  omega

theorem isTrailingByte_trailingByte (n : Nat) : isTrailingByte (trailingByte n) = true := by
  have hn := toNat_trailingByte n
  simp only [isTrailingByte, Bool.and_eq_true, decide_eq_true_eq, UInt8.le_iff_toNat_le,
    UInt8.reduceToNat]
  omega

theorem codePoint_two (b b₂ : UInt8) :
    codePoint b [b₂] = Char.ofNat (b.toNat % 32 * 64 + b₂.toNat % 64) := by
  have hmask := Nat.and_two_pow_sub_one_eq_mod b.toNat 5
  simp only [codePoint, List.length_cons, List.length_nil, List.foldl_cons, List.foldl_nil]
  rw [hmask]

theorem codePoint_three (b b₂ b₃ : UInt8) : codePoint b [b₂, b₃] =
    Char.ofNat ((b.toNat % 16 * 64 + b₂.toNat % 64) * 64 + b₃.toNat % 64) := by
  have hmask := Nat.and_two_pow_sub_one_eq_mod b.toNat 4
  simp only [codePoint, List.length_cons, List.length_nil, List.foldl_cons, List.foldl_nil]
  rw [hmask]

theorem codePoint_four (b b₂ b₃ b₄ : UInt8) : codePoint b [b₂, b₃, b₄] =
    Char.ofNat (((b.toNat % 8 * 64 + b₂.toNat % 64) * 64 + b₃.toNat % 64) * 64 +
      b₄.toNat % 64) := by
  have hmask := Nat.and_two_pow_sub_one_eq_mod b.toNat 3
  simp only [codePoint, List.length_cons, List.length_nil, List.foldl_cons, List.foldl_nil]
  rw [hmask]

theorem begins_two (hleast : 0x80 ≤ n) (hgreatest : n < 0x800) :
    Begins 1 (UInt8.ofNat (n / 64 % 32 + 0xC0)) (trailingByte n) := by
  have hfirst : (UInt8.ofNat (n / 64 % 32 + 0xC0)).toNat = n / 64 + 0xC0 := by
    rw [UInt8.toNat_ofNat']
    omega
  have hsecond := toNat_trailingByte n
  refine ⟨0x80, 0xBF, ?_, ?_⟩
  · rw [leadingByte_eq, hfirst, if_neg (by omega), if_pos (by omega)]
  · simp only [UInt8.le_iff_toNat_le, UInt8.reduceToNat]
    omega

/-- Characters below 2048 and surrogates are left out by the bounds of the second byte. -/
theorem begins_three (hleast : 0x800 ≤ n) (hgreatest : n < 0x10000)
    (hvalid : n < 0xD800 ∨ 0xDFFF < n) :
    Begins 2 (UInt8.ofNat (n / 4096 % 16 + 0xE0)) (trailingByte (n / 64)) := by
  have hfirst : (UInt8.ofNat (n / 4096 % 16 + 0xE0)).toNat = n / 4096 + 0xE0 := by
    rw [UInt8.toNat_ofNat']
    omega
  have hsecond := toNat_trailingByte (n / 64)
  unfold Begins
  simp only [leadingByte_eq, hfirst, UInt8.le_iff_toNat_le]
  rw [if_neg (by omega), if_neg (by omega)]
  by_cases hlow : n / 4096 = 0
  · refine ⟨0xA0, 0xBF, if_pos (by omega), ?_⟩
    simp only [UInt8.reduceToNat]
    omega
  rw [if_neg (by omega)]
  by_cases hsurrogate : n / 4096 = 13
  · refine ⟨0x80, 0x9F, if_pos (by omega), ?_⟩
    simp only [UInt8.reduceToNat]
    omega
  · refine ⟨0x80, 0xBF, by rw [if_neg (by omega), if_pos (by omega)], ?_⟩
    simp only [UInt8.reduceToNat]
    omega

/-- Characters below 65536 and numbers beyond the last character are left out by the bounds
of the second byte. -/
theorem begins_four (hleast : 0x10000 ≤ n) (hgreatest : n < 0x110000) :
    Begins 3 (UInt8.ofNat (n / 262144 % 8 + 0xF0)) (trailingByte (n / 4096)) := by
  have hfirst : (UInt8.ofNat (n / 262144 % 8 + 0xF0)).toNat = n / 262144 + 0xF0 := by
    rw [UInt8.toNat_ofNat']
    omega
  have hsecond := toNat_trailingByte (n / 4096)
  unfold Begins
  simp only [leadingByte_eq, hfirst, UInt8.le_iff_toNat_le]
  rw [if_neg (by omega), if_neg (by omega), if_neg (by omega), if_neg (by omega),
    if_neg (by omega)]
  by_cases hlow : n / 262144 = 0
  · refine ⟨0x90, 0xBF, if_pos (by omega), ?_⟩
    simp only [UInt8.reduceToNat]
    omega
  rw [if_neg (by omega)]
  by_cases hhigh : n / 262144 = 4
  · refine ⟨0x80, 0x8F, by rw [if_neg (by omega), if_pos (by omega)], ?_⟩
    simp only [UInt8.reduceToNat]
    omega
  · refine ⟨0x80, 0xBF, if_pos (by omega), ?_⟩
    simp only [UInt8.reduceToNat]
    omega

/-- A character that has been encoded is read back, with one case for each number of bytes. -/
theorem lenientChars_utf8EncodeChar_append (c : Char) (rest : List UInt8) :
    lenientChars (String.utf8EncodeChar c ++ rest) = c :: lenientChars rest := by
  have hvalid : c.toNat < 0xD800 ∨ 0xDFFF < c.toNat ∧ c.toNat < 0x110000 := c.valid
  have hencode : String.utf8EncodeChar c =
      if c.toNat ≤ 127 then [UInt8.ofNat c.toNat]
      else if c.toNat ≤ 2047 then
        [UInt8.ofNat (c.toNat / 64 % 32 + 0xC0), trailingByte c.toNat]
      else if c.toNat ≤ 65535 then
        [UInt8.ofNat (c.toNat / 4096 % 16 + 0xE0), trailingByte (c.toNat / 64),
          trailingByte c.toNat]
      else
        [UInt8.ofNat (c.toNat / 262144 % 8 + 0xF0), trailingByte (c.toNat / 4096),
          trailingByte (c.toNat / 64), trailingByte c.toNat] := rfl
  have hchar : ∀ {n}, n = c.toNat → Char.ofNat n = c := fun h => h ▸ Char.ofNat_toNat c
  by_cases hone : c.toNat ≤ 127
  · have hbyte : (UInt8.ofNat c.toNat).toNat = c.toNat := by
      rw [UInt8.toNat_ofNat']
      omega
    have hlt : UInt8.ofNat c.toNat < 0x80 := by
      simp only [UInt8.lt_iff_toNat_lt, hbyte, UInt8.reduceToNat]
      omega
    rw [hencode, if_pos hone, List.singleton_append, lenientChars, if_pos hlt, hchar hbyte]
  rw [if_neg hone] at hencode
  by_cases htwo : c.toNat ≤ 2047
  · have hbegins : Begins 1 _ _ := begins_two (n := c.toNat) (by omega) (by omega)
    rw [hencode, if_pos htwo, List.cons_append, List.singleton_append,
      lenientChars_two hbegins, codePoint_two, toNat_trailingByte, UInt8.toNat_ofNat', hchar]
    omega
  rw [if_neg htwo] at hencode
  by_cases hthree : c.toNat ≤ 65535
  · have hbegins : Begins 2 _ _ :=
      begins_three (n := c.toNat) (by omega) (by omega) (hvalid.imp_right And.left)
    rw [hencode, if_pos hthree, List.cons_append, List.cons_append, List.singleton_append,
      lenientChars_three hbegins (isTrailingByte_trailingByte _), codePoint_three,
      toNat_trailingByte, toNat_trailingByte, UInt8.toNat_ofNat', hchar]
    omega
  · have hbegins : Begins 3 _ _ := begins_four (n := c.toNat) (by omega) (by omega)
    rw [hencode, if_neg hthree, List.cons_append, List.cons_append, List.cons_append,
      List.singleton_append, lenientChars_four hbegins (isTrailingByte_trailingByte _)
        (isTrailingByte_trailingByte _), codePoint_four,
      toNat_trailingByte, toNat_trailingByte, toNat_trailingByte, UInt8.toNat_ofNat', hchar]
    omega

theorem lenientChars_utf8Bytes (cs : List Char) : lenientChars (utf8Bytes cs) = cs := by
  induction cs with
  | nil => rfl
  | cons c cs ih => rw [utf8Bytes_cons, lenientChars_utf8EncodeChar_append, ih]

end Text

end Stencil
