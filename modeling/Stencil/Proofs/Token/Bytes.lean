import Stencil.Proofs.Token.Lines
import Stencil.Proofs.Token.Literal

/-!
The lexer on bytes. Delimiters, line breaks, blanks, quotes, digits, letters and marks are
characters below 128, which are one byte each, and no byte of any other character is below
128. So a lexer that takes the bytes of the source one after the other finds the same pieces,
and counts the same lines in them, as one that takes whole characters. An offset is then
simply the number of bytes that the pieces before it have.
-/

namespace Stencil

open Lexer Text

structure Marker.IsAscii (m : Marker) : Prop where
  first : m.first.toNat < 0x80
  second : m.second.toNat < 0x80

structure Delimiters.IsAscii (d : Delimiters) : Prop where
  refOpen : d.refOpen.IsAscii
  refClose : d.refClose.IsAscii

/-- Bytes taken as characters of their own. -/
def ofBytes (bytes : List UInt8) : List Char := bytes.map fun b => Char.ofNat b.toNat

def bytewise (cs : List Char) : List Char := ofBytes (utf8Bytes cs)

def TokenKind.bytewise : TokenKind → TokenKind
  | .text content => .text (String.ofList (Stencil.bytewise content.toList))
  | .str content => .str (String.ofList (Stencil.bytewise content.toList))
  | kind => kind

def Token.bytewise (t : Token) : Token := ⟨t.kind.bytewise, t.pos⟩

namespace Lexer

def Piece.bytewise (p : Piece) : Piece :=
  ⟨p.token.map TokenKind.bytewise, Stencil.bytewise p.read, p.lines, Stencil.bytewise p.rest,
    p.mode⟩

/-- Reads piece after piece as `tokensFrom` does, with an offset that goes on by one for each
byte. Of a fault it tells the place. -/
def byteTokensFrom (d : Delimiters) : Nat → Mode → Position → List Char →
    Except Position (List Token)
  | 0, mode, pos, _ => if mode = .text then .ok [] else .error pos
  | _ + 1, mode, pos, [] => if mode = .text then .ok [] else .error pos
  | steps + 1, mode, pos, b :: bytes => do
    let p ← (piece d mode pos b bytes).mapError Prod.snd
    let later ← byteTokensFrom d steps p.mode ⟨pos.offset + p.read.length, pos.line + p.lines⟩
      p.rest
    return (p.token.map fun kind => ⟨kind, pos⟩).toList ++ later

def byteTokens (d : Delimiters) (source : String) : Except Position (List Token) :=
  byteTokensFrom d source.utf8ByteSize .text .start (ofBytes source.toUTF8.toList)

variable {d : Delimiters} {mode : Mode} {pos : Position} {b c : Char}
  {cs rest read read' bytes wide : List Char}

/-! Characters and their bytes. -/

@[simp] theorem bytewise_nil : bytewise [] = [] := rfl

theorem bytewise_append (cs cs' : List Char) :
    bytewise (cs ++ cs') = bytewise cs ++ bytewise cs' := by
  rw [bytewise, utf8Bytes_append, ofBytes, List.map_append]
  rfl

theorem bytewise_cons (c : Char) (cs : List Char) :
    bytewise (c :: cs) = bytewise [c] ++ bytewise cs :=
  bytewise_append [c] cs

theorem bytewise_singleton (hc : c.toNat < 0x80) : bytewise [c] = [c] := by
  rw [bytewise, utf8Bytes_cons, utf8EncodeChar_of_lt hc, utf8Bytes_nil, List.append_nil, ofBytes,
    List.map_singleton, toNat_asciiByte hc, Char.ofNat_toNat]

theorem bytewise_cons_of_lt (hc : c.toNat < 0x80) (cs : List Char) :
    bytewise (c :: cs) = c :: bytewise cs := by
  rw [bytewise_cons, bytewise_singleton hc, List.singleton_append]

theorem bytewise_pair {a b : Char} (ha : a.toNat < 0x80) (hb : b.toNat < 0x80) :
    bytewise [a, b] = [a, b] := by
  rw [bytewise_cons_of_lt ha, bytewise_singleton hb]

theorem bytewise_eq_self (h : ∀ c ∈ cs, c.toNat < 0x80) : bytewise cs = cs := by
  induction cs with
  | nil => rfl
  | cons c cs ih =>
    rw [List.forall_mem_cons] at h
    rw [bytewise_cons_of_lt h.1, ih h.2]

theorem toNat_ofNat_byte (b : UInt8) : (Char.ofNat b.toNat).toNat = b.toNat := by
  have hvalid : b.toNat.isValidChar := Or.inl (Nat.lt_trans b.toNat_lt (by decide))
  unfold Char.ofNat
  rw [dif_pos hvalid]
  rfl

/-- A character from 128 on has bytes from 128 on only. -/
theorem le_of_mem_bytewise (hc : 0x80 ≤ c.toNat) : ∀ b ∈ bytewise [c], 0x80 ≤ b.toNat := by
  rcases utf8EncodeChar_cases c with ⟨hlt, -⟩ | ⟨-, hbytes⟩
  · omega
  · rw [bytewise, utf8Bytes_cons, utf8Bytes_nil, List.append_nil, ofBytes, List.forall_mem_map]
    intro b hb
    rw [toNat_ofNat_byte]
    exact hbytes b hb

/-- A character from 128 on begins with such a byte and goes on with such bytes. -/
theorem exists_bytewise_cons (hc : 0x80 ≤ c.toNat) : ∃ b wide, bytewise [c] = b :: wide ∧
    0x80 ≤ b.toNat ∧ ∀ b' ∈ wide, 0x80 ≤ b'.toNat := by
  have hbytes := le_of_mem_bytewise hc
  cases hwide : bytewise [c] with
  | nil =>
    have hencode := String.utf8EncodeChar_ne_nil (c := c)
    rw [bytewise, utf8Bytes_cons, utf8Bytes_nil, List.append_nil, ofBytes,
      List.map_eq_nil_iff] at hwide
    exact absurd hwide hencode
  | cons b wide =>
    rw [hwide, List.forall_mem_cons] at hbytes
    exact ⟨b, wide, rfl, hbytes⟩

theorem length_bytewise (cs : List Char) : (bytewise cs).length = utf8Length cs := by
  rw [bytewise, ofBytes, List.length_map, length_utf8Bytes]

/-- A byte below 128 is a character of the text. -/
theorem exists_of_bytewise_eq_cons (hb : b.toNat < 0x80) (h : bytewise cs = b :: bytes) :
    ∃ rest, cs = b :: rest ∧ bytes = bytewise rest := by
  cases cs with
  | nil => cases h
  | cons c rest =>
    rcases Nat.lt_or_ge c.toNat 0x80 with hc | hc
    · rw [bytewise_cons_of_lt hc] at h
      obtain ⟨rfl, rfl⟩ := List.cons.inj h
      exact ⟨rest, rfl, rfl⟩
    · obtain ⟨b', wide, hwide, hb', -⟩ := exists_bytewise_cons hc
      rw [bytewise_cons, hwide, List.cons_append] at h
      obtain ⟨rfl, -⟩ := List.cons.inj h
      omega

theorem ne_of_wide (hb : 0x80 ≤ b.toNat) (hc : c.toNat < 0x80) : b ≠ c := by
  rintro rfl
  omega

theorem head?_bytewise (hc : c.toNat < 0x80) (cs : List Char) :
    (bytewise cs).head? = some c ↔ cs.head? = some c := by
  rw [List.head?_eq_some_iff, List.head?_eq_some_iff]
  constructor
  · rintro ⟨bytes, hbytes⟩
    obtain ⟨rest, hcs, -⟩ := exists_of_bytewise_eq_cons hc hbytes
    exact ⟨rest, hcs⟩
  · rintro ⟨rest, rfl⟩
    exact ⟨bytewise rest, bytewise_cons_of_lt hc rest⟩

theorem heads_bytewise {m : Marker} (hm : m.IsAscii) (cs : List Char) :
    m.heads (bytewise cs) = m.heads cs := by
  rw [Bool.eq_iff_iff, heads_iff, heads_iff]
  constructor
  · rintro ⟨bytes, hbytes⟩
    obtain ⟨rest, rfl, hrest⟩ := exists_of_bytewise_eq_cons hm.first hbytes
    obtain ⟨rest', rfl, -⟩ := exists_of_bytewise_eq_cons hm.second hrest.symm
    exact ⟨rest', rfl⟩
  · rintro ⟨rest, rfl⟩
    refine ⟨bytewise rest, ?_⟩
    rw [bytewise_cons_of_lt hm.first, bytewise_cons_of_lt hm.second]

theorem heads_of_wide {m : Marker} (hm : m.IsAscii) (hb : 0x80 ≤ b.toNat) :
    m.heads (b :: bytes) = false :=
  heads_eq_false_of_ne (ne_of_wide hb hm.first)

theorem isAscii_codeOpen : Marker.codeOpen.IsAscii := ⟨by decide, by decide⟩

theorem isAscii_codeClose : Marker.codeClose.IsAscii := ⟨by decide, by decide⟩

/-! Tests of characters. -/

/-- The test treats all characters from 128 on alike. -/
def Lumps (test : Char → Bool) : Prop :=
  ∀ ⦃b c : Char⦄, 0x80 ≤ b.toNat → 0x80 ≤ c.toNat → test b = test c

theorem Lumps.of_eq_false {test : Char → Bool}
    (h : ∀ ⦃c : Char⦄, 0x80 ≤ c.toNat → test c = false) : Lumps test :=
  fun _ _ hb hc => (h hb).trans (h hc).symm

theorem Lumps.not {test : Char → Bool} (h : Lumps test) : Lumps (!test ·) :=
  fun _ _ hb hc => congrArg Bool.not (h hb hc)

theorem not_le_of_wide (hc : 0x80 ≤ c.toNat) {bound : Char} (hbound : bound.toNat < 0x80) :
    ¬c.val ≤ bound.val := fun h =>
  Nat.not_le_of_gt (Nat.lt_of_lt_of_le hbound hc) (UInt32.le_iff_toNat_le.mp h)

theorem isDigit_of_wide ⦃c : Char⦄ (hc : 0x80 ≤ c.toNat) : c.isDigit = false :=
  Bool.and_eq_false_iff.mpr (Or.inr (decide_eq_false (not_le_of_wide hc (by decide))))

theorem isAlphanum_of_wide (hc : 0x80 ≤ c.toNat) : c.isAlphanum = false := by
  have hupper : c.isUpper = false := decide_eq_false fun h => not_le_of_wide hc (by decide) h.2
  have hlower : c.isLower = false :=
    Bool.and_eq_false_iff.mpr (Or.inr (decide_eq_false (not_le_of_wide hc (by decide))))
  have halphanum : c.isAlphanum = (c.isUpper || c.isLower || c.isDigit) := rfl
  rw [halphanum, hupper, hlower, isDigit_of_wide hc]
  rfl

theorem isIdentRest_of_wide ⦃c : Char⦄ (hc : 0x80 ≤ c.toNat) : isIdentRest c = false := by
  rw [isIdentRest, isAlphanum_of_wide hc, decide_eq_false (ne_of_wide hc (by decide))]
  rfl

theorem isIdentStart_of_wide (hc : 0x80 ≤ c.toNat) : isIdentStart c = false := by
  by_contra hstart
  rw [Bool.not_eq_false] at hstart
  have hrest := isIdentRest_of_isIdentStart hstart
  rw [isIdentRest_of_wide hc] at hrest
  cases hrest

theorem isLineBreak_of_wide ⦃c : Char⦄ (hc : 0x80 ≤ c.toNat) : isLineBreak c = false := by
  rw [isLineBreak, decide_eq_false (ne_of_wide hc (by decide)),
    decide_eq_false (ne_of_wide hc (by decide))]
  rfl

theorem isCodeBlank_of_wide (hc : 0x80 ≤ c.toNat) : isCodeBlank c = false := by
  have hne : ∀ c' : Char, c'.toNat < 0x80 → decide (c = c') = false :=
    fun c' hc' => decide_eq_false (ne_of_wide hc hc')
  rw [isCodeBlank, hne ' ' (by decide), hne '\t' (by decide), hne '\x0b' (by decide),
    hne '\x0c' (by decide)]
  rfl

/-- A test that takes all characters from 128 on or none cuts the bytes where it cuts the text.
-/
theorem takeWhile_bytewise {test : Char → Bool} (h : Lumps test) (cs : List Char) :
    (bytewise cs).takeWhile test = bytewise (cs.takeWhile test) := by
  induction cs with
  | nil => rfl
  | cons c cs ih =>
    cases htest : test c with
    | true =>
      have hwide : ∀ b ∈ bytewise [c], test b = true := by
        intro b hb
        rcases Nat.lt_or_ge c.toNat 0x80 with hc | hc
        · rw [bytewise_singleton hc, List.mem_singleton] at hb
          rw [hb, htest]
        · rw [h (le_of_mem_bytewise hc b hb) hc, htest]
      rw [bytewise_cons, List.takeWhile_append_of_pos hwide, ih, ← bytewise_cons,
        List.takeWhile_cons_of_pos htest]
    | false =>
      have hfalse : ¬test c = true := by rw [htest]; exact Bool.false_ne_true
      rw [List.takeWhile_cons_of_neg hfalse]
      rcases Nat.lt_or_ge c.toNat 0x80 with hc | hc
      · rw [bytewise_cons_of_lt hc, List.takeWhile_cons_of_neg hfalse]
        rfl
      · obtain ⟨b, wide, hwide, hb, -⟩ := exists_bytewise_cons hc
        rw [bytewise_cons, hwide, List.cons_append, List.takeWhile_cons_of_neg]
        · rfl
        · rwa [h hb hc]

theorem dropWhile_bytewise {test : Char → Bool} (h : Lumps test) (cs : List Char) :
    (bytewise cs).dropWhile test = bytewise (cs.dropWhile test) := by
  have hbytes := List.takeWhile_append_dropWhile (p := test) (l := bytewise cs)
  have hcs := congrArg bytewise (List.takeWhile_append_dropWhile (p := test) (l := cs))
  rw [bytewise_append, ← hbytes, takeWhile_bytewise h] at hcs
  exact (List.append_cancel_left hcs).symm

/-! Stretches. -/

/-- A loop that puts each character from 128 on to what it has read puts a row of them to it. -/
theorem loop_wide {α : Type} {loop : List Char → List Char → α}
    (hstep : ∀ read b bytes, 0x80 ≤ b.toNat → loop read (b :: bytes) = loop (b :: read) bytes)
    (hwide : ∀ b ∈ wide, 0x80 ≤ b.toNat) :
    loop read (wide ++ bytes) = loop (wide.reverse ++ read) bytes := by
  induction wide generalizing read with
  | nil => rfl
  | cons b wide ih =>
    rw [List.forall_mem_cons] at hwide
    rw [List.cons_append, hstep read b _ hwide.1, ih hwide.2, List.reverse_cons,
      List.append_assoc, List.singleton_append]

theorem bytewise_cons_eq (c : Char) (cs : List Char) :
    ∃ b bytes, bytewise (c :: cs) = b :: bytes := by
  rcases Nat.lt_or_ge c.toNat 0x80 with hc | hc
  · exact ⟨c, bytewise cs, bytewise_cons_of_lt hc cs⟩
  · obtain ⟨b, wide, hwide, -⟩ := exists_bytewise_cons hc
    exact ⟨b, wide ++ bytewise cs, by rw [bytewise_cons, hwide, List.cons_append]⟩

theorem lineBreak_bytewise (cs : List Char) : lineBreak (bytewise cs) = lineBreak cs := by
  cases cs with
  | nil => rfl
  | cons c rest =>
    rcases Nat.lt_or_ge c.toNat 0x80 with hc | hc
    · have hnext := head?_bytewise (by decide : '\n'.toNat < 0x80) rest
      simp only [bytewise_cons_of_lt hc, lineBreak_cons, hnext]
    · obtain ⟨b, wide, hwide, hb, -⟩ := exists_bytewise_cons hc
      rw [bytewise_cons, hwide, List.cons_append, lineBreak_cons, lineBreak_cons,
        if_neg (ne_of_wide hb (by decide)), if_neg (ne_of_wide hb (by decide)),
        if_neg (ne_of_wide hc (by decide)), if_neg (ne_of_wide hc (by decide))]

theorem bytewise_lineBreak (cs : List Char) : bytewise (lineBreak cs) = lineBreak cs := by
  have hbreak := lineBreak_mem cs
  generalize lineBreak cs = ending at hbreak
  simp only [List.mem_cons, List.not_mem_nil, or_false] at hbreak
  rcases hbreak with rfl | rfl | rfl | rfl
  · rfl
  · exact bytewise_singleton (by decide)
  · exact bytewise_singleton (by decide)
  · exact bytewise_pair (by decide) (by decide)

theorem drop_lineBreak_bytewise (cs : List Char) :
    (bytewise cs).drop (lineBreak cs).length = bytewise (cs.drop (lineBreak cs).length) := by
  have hcs := congrArg bytewise (lineBreak_append_drop cs)
  rw [bytewise_append, bytewise_lineBreak] at hcs
  rw [← hcs, List.drop_left]

theorem textFrom_of_opens (h : opens d cs = true) : textFrom d read cs = (read.reverse, cs) := by
  cases cs with
  | nil => rfl
  | cons c rest => exact if_pos h

theorem textFrom_of_not_opens (h : opens d (c :: rest) = false) :
    textFrom d read (c :: rest) = textFrom d (c :: read) rest := by
  rw [opens] at h
  rw [textFrom, h]
  rfl

theorem opens_bytewise (hd : d.IsAscii) (cs : List Char) : opens d (bytewise cs) = opens d cs := by
  rw [opens, heads_bytewise isAscii_codeOpen, heads_bytewise hd.refOpen, opens]

theorem textFrom_wide (hd : d.IsAscii) (hwide : ∀ b ∈ wide, 0x80 ≤ b.toNat) :
    textFrom d read (wide ++ bytes) = textFrom d (wide.reverse ++ read) bytes := by
  refine loop_wide (fun read b bytes hb => textFrom_of_not_opens ?_) hwide
  rw [opens, heads_of_wide isAscii_codeOpen hb, heads_of_wide hd.refOpen hb]
  rfl

theorem reverse_bytewise_cons (hread : read'.reverse = bytewise read.reverse) (c : Char) :
    ((bytewise [c]).reverse ++ read').reverse = bytewise (c :: read).reverse := by
  rw [List.reverse_append, List.reverse_reverse, hread, List.reverse_cons, bytewise_append]

theorem reverse_bytewise_nil : ([] : List Char).reverse = bytewise ([] : List Char).reverse := rfl

/-- Text ends at the same opener when its bytes are read. -/
theorem textFrom_bytewise (hd : d.IsAscii) (hread : read'.reverse = bytewise read.reverse) :
    textFrom d read' (bytewise cs) = (textFrom d read cs).map bytewise bytewise := by
  induction cs generalizing read read' with
  | nil => rw [bytewise_nil, textFrom, textFrom, hread]; rfl
  | cons c rest ih =>
    have hopens := opens_bytewise hd (c :: rest)
    cases h : opens d (c :: rest) with
    | true =>
      rw [h] at hopens
      rw [textFrom_of_opens hopens, textFrom_of_opens h, hread]
      rfl
    | false =>
      rw [h] at hopens
      rw [textFrom_of_not_opens h, ← ih (reverse_bytewise_cons hread c), bytewise_cons]
      rcases Nat.lt_or_ge c.toNat 0x80 with hc | hc
      · rw [bytewise_cons_of_lt hc] at hopens
        rw [bytewise_singleton hc, List.singleton_append, textFrom_of_not_opens hopens]
        rfl
      · exact textFrom_wide hd (le_of_mem_bytewise hc)

theorem blockCommentFrom_cons (h : ∀ after, c = '*' → rest = '/' :: after → False) :
    blockCommentFrom read (c :: rest) = blockCommentFrom (c :: read) rest :=
  blockCommentFrom.eq_3 _ _ _ h

theorem blockCommentFrom_wide (hwide : ∀ b ∈ wide, 0x80 ≤ b.toNat) :
    blockCommentFrom read (wide ++ bytes) = blockCommentFrom (wide.reverse ++ read) bytes := by
  refine loop_wide (fun read b bytes hb => blockCommentFrom_cons fun _ hstar => ?_) hwide
  exact absurd hstar (ne_of_wide hb (by decide))

/-- A comment in stars ends at the same closer when its bytes are read. -/
theorem blockCommentFrom_bytewise (hread : read'.reverse = bytewise read.reverse) :
    blockCommentFrom read' (bytewise cs) = (blockCommentFrom read cs).map bytewise bytewise := by
  fun_induction blockCommentFrom read cs generalizing read' with
  | case1 read => rw [bytewise_nil, blockCommentFrom, hread]; rfl
  | case2 read rest =>
    have hcloser : bytewise ['*', '/'] = ['*', '/'] := bytewise_pair (by decide) (by decide)
    rw [bytewise_cons_of_lt (by decide), bytewise_cons_of_lt (by decide), blockCommentFrom]
    simp [hread, bytewise_append, hcloser]
  | case3 read c rest hcloser ih =>
    rw [← ih (reverse_bytewise_cons hread c), bytewise_cons]
    rcases Nat.lt_or_ge c.toNat 0x80 with hc | hc
    · have hne : ∀ after, c = '*' → bytewise rest = '/' :: after → False := by
        intro after hstar hslash
        obtain ⟨rest', hrest, -⟩ := exists_of_bytewise_eq_cons (by decide) hslash
        exact hcloser rest' hstar hrest
      rw [bytewise_singleton hc, List.singleton_append, blockCommentFrom_cons hne]
      rfl
    · exact blockCommentFrom_wide (le_of_mem_bytewise hc)

theorem quotedFrom_wide (hwide : ∀ b ∈ wide, 0x80 ≤ b.toNat) :
    quotedFrom read (wide ++ bytes) = quotedFrom (wide.reverse ++ read) bytes := by
  refine loop_wide (fun read b bytes hb => ?_) hwide
  exact quotedFrom.eq_4 _ _ _ (ne_of_wide hb (by decide)) fun _ _ hslash =>
    absurd hslash (ne_of_wide hb (by decide))

/-- A backslash that begins no pair of characters begins no pair of bytes. -/
theorem not_pair_bytewise
    (hpair : ∀ c' rest', c = '\\' → rest = c' :: rest' → False) (b : Char) (bytes : List Char)
    (hslash : c = '\\') (hbytes : bytewise rest = b :: bytes) : False := by
  cases rest with
  | nil => cases hbytes
  | cons c' rest' => exact hpair c' rest' hslash rfl

/-- A literal ends at the same quote when its bytes are read. -/
theorem quotedFrom_bytewise (hread : read'.reverse = bytewise read.reverse) :
    quotedFrom read' (bytewise cs) =
      (quotedFrom read cs).map (Prod.map bytewise bytewise) := by
  fun_induction quotedFrom read cs generalizing read' with
  | case1 read => rfl
  | case2 read rest =>
    rw [bytewise_cons_of_lt (by decide), quotedFrom, hread]
    rfl
  | case3 read c rest ih =>
    have hslash := reverse_bytewise_cons hread '\\'
    rw [bytewise_singleton (by decide), List.reverse_singleton, List.singleton_append] at hslash
    rw [← ih (reverse_bytewise_cons hslash c), bytewise_cons_of_lt (by decide), bytewise_cons]
    rcases Nat.lt_or_ge c.toNat 0x80 with hc | hc
    · rw [bytewise_singleton hc, List.singleton_append, quotedFrom]
      rfl
    · obtain ⟨b, wide, hwide, -, hmore⟩ := exists_bytewise_cons hc
      rw [hwide, List.cons_append, quotedFrom, quotedFrom_wide hmore, List.reverse_cons,
        List.append_assoc, List.singleton_append]
  | case4 read c rest hquote hpair ih =>
    rw [← ih (reverse_bytewise_cons hread c), bytewise_cons]
    rcases Nat.lt_or_ge c.toNat 0x80 with hc | hc
    · have hne := not_pair_bytewise hpair
      rw [bytewise_singleton hc, List.singleton_append, quotedFrom.eq_4 _ _ _ hquote hne]
      rfl
    · exact quotedFrom_wide (le_of_mem_bytewise hc)

/-! Meanings of literals. -/

theorem escape?_of_wide (hc : 0x80 ≤ c.toNat) : escape? c = none := by
  rw [escape?_eq_lookup]
  cases hlookup : LiteralUnit.meanings.lookup c with
  | none => rfl
  | some meaning =>
    have hascii := (ascii_of_lookup hlookup).1
    omega

theorem unescape_wide (hwide : ∀ b ∈ wide, 0x80 ≤ b.toNat) :
    unescape (wide ++ bytes) = wide ++ unescape bytes := by
  induction wide with
  | nil => rfl
  | cons b wide ih =>
    rw [List.forall_mem_cons] at hwide
    rw [List.cons_append, unescape.eq_3 _ _ fun _ _ hslash =>
      absurd hslash (ne_of_wide hwide.1 (by decide)), ih hwide.2, List.cons_append]

/-- Escapes are ASCII characters, so replacing them commutes with taking bytes. -/
theorem unescape_bytewise (cs : List Char) : unescape (bytewise cs) = bytewise (unescape cs) := by
  fun_induction unescape cs with
  | case1 => rfl
  | case2 c rest meaning hmeaning ih =>
    rw [escape?_eq_lookup] at hmeaning
    obtain ⟨hc, hmeant⟩ := ascii_of_lookup hmeaning
    rw [bytewise_cons_of_lt (by decide), bytewise_cons_of_lt hc, bytewise_cons_of_lt hmeant,
      unescape, escape?_eq_lookup, hmeaning, ← ih]
  | case3 c rest hmeaning ih =>
    have hslash : '\\'.toNat < 0x80 := by decide
    rw [bytewise_cons_of_lt hslash, bytewise_cons_of_lt hslash, bytewise_cons c rest,
      bytewise_cons c (unescape rest), ← ih]
    rcases Nat.lt_or_ge c.toNat 0x80 with hc | hc
    · rw [bytewise_singleton hc, List.singleton_append, unescape, hmeaning]
      rfl
    · obtain ⟨b, wide, hwide, hb, hmore⟩ := exists_bytewise_cons hc
      rw [hwide, List.cons_append, unescape, escape?_of_wide hb, unescape_wide hmore]
      rfl
  | case4 c rest hpair ih =>
    rw [bytewise_cons c rest, bytewise_cons c (unescape rest), ← ih]
    rcases Nat.lt_or_ge c.toNat 0x80 with hc | hc
    · have hne := not_pair_bytewise hpair
      rw [bytewise_singleton hc, List.singleton_append, unescape.eq_3 _ _ hne]
      rfl
    · exact unescape_wide (le_of_mem_bytewise hc)

/-! Line breaks. -/

theorem lineBreaks_bytewise (cs : List Char) : lineBreaks (bytewise cs) = lineBreaks cs := by
  induction cs with
  | nil => rfl
  | cons c cs ih =>
    rcases Nat.lt_or_ge c.toNat 0x80 with hc | hc
    · have hnext := head?_bytewise (by decide : '\n'.toNat < 0x80) cs
      simp only [bytewise_cons_of_lt hc, lineBreaks, ih, ne_eq, hnext]
    · have hbytes := le_of_mem_bytewise hc
      have hlast : (bytewise [c]).getLast? ≠ some '\r' := fun hreturn =>
        absurd (hbytes '\r' (List.mem_of_getLast? hreturn)) (by decide)
      have hwide : ∀ b ∈ bytewise [c], isLineBreak b = false :=
        fun b hb => isLineBreak_of_wide (hbytes b hb)
      rw [bytewise_cons, lineBreaks_append (Or.inl hlast), lineBreaks_eq_zero hwide, ih,
        Nat.zero_add, lineBreaks, if_neg, Nat.zero_add]
      rintro (rfl | ⟨rfl, -⟩)
      · exact absurd hc (by decide)
      · exact absurd hc (by decide)

theorem plainNewlines_wide (hwide : ∀ b ∈ wide, 0x80 ≤ b.toNat) :
    plainNewlines (wide ++ bytes) = plainNewlines bytes := by
  induction wide with
  | nil => rfl
  | cons b wide ih =>
    rw [List.forall_mem_cons] at hwide
    have hne : ∀ c : Char, c.toNat < 0x80 → b ≠ c := fun c hc => ne_of_wide hwide.1 hc
    rw [List.cons_append, plainNewlines.eq_4 _ _
      (fun _ _ hslash => absurd hslash (hne _ (by decide))) (hne _ (by decide)), ih hwide.2]

theorem plainNewlines_bytewise (cs : List Char) :
    plainNewlines (bytewise cs) = plainNewlines cs := by
  fun_induction plainNewlines cs with
  | case1 => rfl
  | case2 c rest ih =>
    rw [bytewise_cons_of_lt (by decide), bytewise_cons, ← ih]
    rcases Nat.lt_or_ge c.toNat 0x80 with hc | hc
    · rw [bytewise_singleton hc, List.singleton_append, plainNewlines]
    · obtain ⟨b, wide, hwide, -, hmore⟩ := exists_bytewise_cons hc
      rw [hwide, List.cons_append, plainNewlines, plainNewlines_wide hmore]
  | case3 rest ih => rw [bytewise_cons_of_lt (by decide), plainNewlines, ih]
  | case4 c rest hpair hnewline ih =>
    rw [← ih, bytewise_cons]
    rcases Nat.lt_or_ge c.toNat 0x80 with hc | hc
    · have hne := not_pair_bytewise hpair
      rw [bytewise_singleton hc, List.singleton_append, plainNewlines.eq_4 _ _ hne hnewline]
    · exact plainNewlines_wide (le_of_mem_bytewise hc)

theorem count_newline_bytewise (cs : List Char) : (bytewise cs).count '\n' = cs.count '\n' := by
  induction cs with
  | nil => rfl
  | cons c cs ih =>
    have hcs : (c :: cs).count '\n' = [c].count '\n' + cs.count '\n' := by
      rw [← List.count_append, List.singleton_append]
    rw [bytewise_cons, List.count_append, ih, hcs]
    rcases Nat.lt_or_ge c.toNat 0x80 with hc | hc
    · rw [bytewise_singleton hc]
    · have hbytes : '\n' ∉ bytewise [c] := by
        intro hnewline
        exact absurd (le_of_mem_bytewise hc '\n' hnewline) (by decide)
      have hchar : '\n' ∉ [c] := by
        rw [List.mem_singleton]
        exact (ne_of_wide hc (by decide)).symm
      rw [List.count_eq_zero_of_not_mem hbytes, List.count_eq_zero_of_not_mem hchar]

/-! Pieces. -/

theorem textPiece_bytewise (hd : d.IsAscii) (cs : List Char) :
    textPiece d (bytewise cs) = (textPiece d cs).bytewise := by
  have hopener : ∀ {m : Marker} {kind : TokenKind} {mode : Mode}, m.IsAscii → m.heads cs = true →
      kind.bytewise = kind → (⟨some kind, (bytewise cs).take 2, 0, (bytewise cs).drop 2, mode⟩ :
        Piece) = Piece.bytewise ⟨some kind, cs.take 2, 0, cs.drop 2, mode⟩ := by
    intro m kind mode hm hheads hkind
    obtain ⟨rest, rfl⟩ := (heads_iff m cs).mp hheads
    have hmarker : bytewise [m.first, m.second] = [m.first, m.second] :=
      bytewise_pair hm.first hm.second
    rw [bytewise_cons_of_lt hm.first, bytewise_cons_of_lt hm.second]
    simp [Piece.bytewise, hkind, hmarker]
  unfold textPiece
  rw [heads_bytewise isAscii_codeOpen, heads_bytewise hd.refOpen]
  split
  · next hcode => exact hopener isAscii_codeOpen hcode rfl
  split
  · next href => exact hopener hd.refOpen href rfl
  rw [textFrom_bytewise hd reverse_bytewise_nil]
  simp [Piece.bytewise, TokenKind.bytewise, lineBreaksFrom_eq, lineBreaks_bytewise]

theorem codeClosePiece_bytewise (cs : List Char) :
    codeClosePiece (bytewise cs) = (codeClosePiece cs).bytewise := by
  have hread : bytewise ('@' :: '\x7d' :: lineBreak cs) = '@' :: '\x7d' :: lineBreak cs := by
    rw [bytewise_cons_of_lt (by decide), bytewise_cons_of_lt (by decide), bytewise_lineBreak]
  simp [codeClosePiece, Piece.bytewise, TokenKind.bytewise, lineBreak_bytewise,
    drop_lineBreak_bytewise, hread]

theorem lineCommentPiece_bytewise (mode : Mode) (cs : List Char) :
    lineCommentPiece mode (bytewise cs) = (lineCommentPiece mode cs).bytewise := by
  have hlumps : Lumps (!isLineBreak ·) := (Lumps.of_eq_false isLineBreak_of_wide).not
  simp only [lineCommentPiece, takeWhile_bytewise hlumps, dropWhile_bytewise hlumps,
    lineBreak_bytewise, drop_lineBreak_bytewise, Piece.bytewise, Option.map_some,
    TokenKind.bytewise]
  rw [bytewise_append, bytewise_lineBreak, bytewise_cons_of_lt (by decide),
    bytewise_cons_of_lt (by decide)]

theorem blockCommentPiece_bytewise (mode : Mode) (cs : List Char) :
    blockCommentPiece mode (bytewise cs) = (blockCommentPiece mode cs).bytewise := by
  have hcomment : blockCommentFrom [] (bytewise cs) = _ :=
    blockCommentFrom_bytewise reverse_bytewise_nil
  simp only [blockCommentPiece, hcomment, Prod.map_fst, Prod.map_snd, count_newline_bytewise,
    Piece.bytewise, Option.map_some, TokenKind.bytewise]
  rw [bytewise_cons_of_lt (by decide), bytewise_cons_of_lt (by decide)]

theorem quotedPiece_bytewise (mode : Mode) (pos : Position) (cs : List Char) :
    quotedPiece mode pos (bytewise cs) = (quotedPiece mode pos cs).map Piece.bytewise := by
  unfold quotedPiece
  rw [quotedFrom_bytewise reverse_bytewise_nil]
  cases quotedFrom [] cs with
  | none => rfl
  | some quoted =>
    have hquotes : bytewise ('"' :: (quoted.1 ++ ['"'])) = '"' :: (bytewise quoted.1 ++ ['"']) := by
      rw [bytewise_cons_of_lt (by decide), bytewise_append, bytewise_singleton (by decide)]
    simp [Except.map, Piece.bytewise, TokenKind.bytewise, unescape_bytewise,
      plainNewlines_bytewise, hquotes]

theorem bytewise_takeWhile {test : Char → Bool} (h : ∀ ⦃c : Char⦄, 0x80 ≤ c.toNat → test c = false)
    (cs : List Char) : bytewise (cs.takeWhile test) = cs.takeWhile test := by
  apply bytewise_eq_self
  intro c hc
  by_contra hwide
  have htest := of_mem_takeWhile hc
  rw [h (by omega)] at htest
  cases htest

theorem numberPiece_bytewise (mode : Mode) (pos : Position) (cs : List Char) :
    numberPiece mode pos (bytewise cs) = (numberPiece mode pos cs).map Piece.bytewise := by
  have hlumps : Lumps Char.isDigit := .of_eq_false isDigit_of_wide
  unfold numberPiece
  simp only [takeWhile_bytewise hlumps, dropWhile_bytewise hlumps,
    bytewise_takeWhile isDigit_of_wide]
  split
  · next after hafter =>
    obtain ⟨rest, hrest, rfl⟩ := exists_of_bytewise_eq_cons (by decide) hafter
    have hfraction := takeWhile_bytewise hlumps rest
    rw [bytewise_takeWhile isDigit_of_wide] at hfraction
    have hread : bytewise (cs.takeWhile Char.isDigit ++ '.' :: rest.takeWhile Char.isDigit) =
        cs.takeWhile Char.isDigit ++ '.' :: rest.takeWhile Char.isDigit := by
      rw [bytewise_append, bytewise_cons_of_lt (by decide), bytewise_takeWhile isDigit_of_wide,
        bytewise_takeWhile isDigit_of_wide]
    simp only [hrest, hfraction, dropWhile_bytewise hlumps]
    split
    · rfl
    · simp [Except.map, Piece.bytewise, TokenKind.bytewise, hread]
  · next hpoint =>
    have hne : ∀ rest, cs.dropWhile Char.isDigit = '.' :: rest → False := by
      intro rest hrest
      rw [hrest] at hpoint
      exact hpoint _ (bytewise_cons_of_lt (by decide) rest)
    generalize cs.dropWhile Char.isDigit = rest at hne
    split
    · split
      · exact (hne _ rfl).elim
      · simp [Except.map, Piece.bytewise, TokenKind.bytewise,
          bytewise_takeWhile isDigit_of_wide]
    · split
      · exact (hne _ rfl).elim
      · rfl

theorem wordPiece_bytewise (mode : Mode) (cs : List Char) :
    wordPiece mode (bytewise cs) = (wordPiece mode cs).bytewise := by
  have hlumps : Lumps isIdentRest := .of_eq_false isIdentRest_of_wide
  unfold wordPiece
  simp only [takeWhile_bytewise hlumps, dropWhile_bytewise hlumps,
    bytewise_takeWhile isIdentRest_of_wide]
  unfold Piece.bytewise
  rw [bytewise_takeWhile isIdentRest_of_wide]
  split
  · rfl
  · rfl

theorem mark?_congr {next next' : Option Char} (h : next = some '=' ↔ next' = some '=') :
    mark? c next = mark? c next' := by
  have hequals : (next = some '=') = (next' = some '=') := propext h
  simp only [mark?, hequals]

theorem mark?_of_wide (hc : 0x80 ≤ c.toNat) (next : Option Char) : mark? c next = none := by
  have hne : ∀ c' : Char, c'.toNat < 0x80 → c ≠ c' := fun c' hc' => ne_of_wide hc hc'
  unfold mark?
  dsimp only
  split <;> first | rfl | exact absurd rfl (hne _ (by decide))

theorem bytewise_of_isPlain {kind : TokenKind} (h : kind.isPlain = true) :
    kind.bytewise = kind := by
  cases kind with
  | text content => cases h
  | str content => cases h
  | _ => rfl

theorem markPiece_bytewise (mode : Mode) (pos : Position) (hc : c.toNat < 0x80)
    (rest : List Char) :
    markPiece mode pos c (bytewise rest) = (markPiece mode pos c rest).map Piece.bytewise := by
  unfold markPiece
  rw [mark?_congr (head?_bytewise (by decide) rest)]
  split
  · next kind hmark =>
    obtain ⟨hkind, hwide⟩ := isPlain_of_mark? hmark
    obtain ⟨after, rfl⟩ := List.head?_eq_some_iff.mp (hwide rfl)
    have hread : bytewise [c, '='] = [c, '='] := bytewise_pair hc (by decide)
    rw [bytewise_cons_of_lt (by decide)]
    simp [Except.map, Piece.bytewise, bytewise_of_isPlain hkind, hread]
  · next kind hmark =>
    have hkind := bytewise_of_isPlain (isPlain_of_mark? hmark).1
    simp [Except.map, Piece.bytewise, hkind, bytewise_singleton hc]
  · rfl

theorem innerPiece_bytewise (mode : Mode) (pos : Position) (hc : c.toNat < 0x80)
    (rest : List Char) :
    innerPiece mode pos c (bytewise rest) = (innerPiece mode pos c rest).map Piece.bytewise := by
  have hcs := bytewise_cons_of_lt hc rest
  have hcomment : ∀ {next : Char}, (c = '/' && rest.head? = some next) = true →
      next.toNat < 0x80 → (bytewise rest).drop 1 = bytewise (rest.drop 1) := by
    intro next h hnext
    rw [Bool.and_eq_true, decide_eq_true_iff, decide_eq_true_iff] at h
    obtain ⟨after, rfl⟩ := List.head?_eq_some_iff.mp h.2
    rw [bytewise_cons_of_lt hnext]
    rfl
  have hnext : ∀ next : Char, next.toNat < 0x80 →
      decide ((bytewise rest).head? = some next) = decide (rest.head? = some next) :=
    fun next hnext => decide_eq_decide.mpr (head?_bytewise hnext rest)
  unfold innerPiece
  rw [hnext '/' (by decide), hnext '*' (by decide), ← hcs]
  split
  · simp [Except.map, Piece.bytewise, TokenKind.bytewise, lineBreak_bytewise, bytewise_lineBreak,
      drop_lineBreak_bytewise]
  split
  · simp [Except.map, Piece.bytewise, bytewise_singleton hc]
  split
  · next hline =>
    rw [hcomment hline (by decide), lineCommentPiece_bytewise]
    rfl
  split
  · next hblock =>
    rw [hcomment hblock (by decide), blockCommentPiece_bytewise]
    rfl
  split
  · exact quotedPiece_bytewise mode pos rest
  split
  · exact numberPiece_bytewise mode pos (c :: rest)
  split
  · rw [wordPiece_bytewise]
    rfl
  · exact markPiece_bytewise mode pos hc rest

/-- No token inside a block begins with a character from 128 on, nor with a byte of one. -/
theorem innerPiece_of_wide (mode : Mode) (pos : Position) (hc : 0x80 ≤ c.toNat)
    (rest : List Char) :
    innerPiece mode pos c rest = .error (.unsupported c, pos) := by
  have hslash : decide (c = '/') = false := decide_eq_false (ne_of_wide hc (by decide))
  unfold innerPiece
  rw [isLineBreak_of_wide hc, isCodeBlank_of_wide hc, hslash, isDigit_of_wide hc,
    isIdentStart_of_wide hc, if_neg (ne_of_wide hc (by decide)), markPiece, mark?_of_wide hc]
  rfl

theorem codePiece_bytewise (hd : d.IsAscii) (pos : Position) (hc : c.toNat < 0x80)
    (rest : List Char) :
    codePiece d mode pos c (bytewise rest) = (codePiece d mode pos c rest).map Piece.bytewise := by
  rw [codePiece_eq, codePiece_eq, ← bytewise_cons_of_lt hc, heads_bytewise isAscii_codeClose,
    heads_bytewise hd.refClose]
  split
  · split
    · next hclose =>
      obtain ⟨after, hcs⟩ := (heads_iff _ _).mp hclose
      obtain ⟨-, rfl⟩ := List.cons.inj hcs
      rw [bytewise_cons_of_lt (by decide)]
      exact congrArg Except.ok (codeClosePiece_bytewise after)
    · rfl
  split
  · next hclose =>
    rw [Bool.and_eq_true] at hclose
    obtain ⟨after, hcs⟩ := (heads_iff _ _).mp hclose.2
    obtain ⟨-, rfl⟩ := List.cons.inj hcs
    have hsecond := hd.refClose.second
    have hread : bytewise [c, d.refClose.second] = [c, d.refClose.second] :=
      bytewise_pair hc hsecond
    rw [bytewise_cons_of_lt hsecond]
    simp [Except.map, Piece.bytewise, TokenKind.bytewise, hread]
  · exact innerPiece_bytewise mode pos hc rest

theorem codePiece_of_wide (hd : d.IsAscii) (pos : Position) (hc : 0x80 ≤ c.toNat)
    (rest : List Char) : codePiece d mode pos c rest = .error (.unsupported c, pos) := by
  rw [codePiece_eq, if_neg (ne_of_wide hc (by decide)), heads_of_wide hd.refClose hc,
    Bool.and_false, if_neg Bool.false_ne_true, innerPiece_of_wide mode pos hc]

/-- The piece that begins with the first byte of a character is the one that begins with the
character, and a fault is found at the same place. -/
theorem piece_bytewise (hd : d.IsAscii) (mode : Mode) (pos : Position)
    (hbytes : bytewise (c :: rest) = b :: bytes) :
    (piece d mode pos b bytes).mapError Prod.snd =
      ((piece d mode pos c rest).map Piece.bytewise).mapError Prod.snd := by
  by_cases hmode : mode = .text
  · subst hmode
    rw [piece, piece, ← hbytes, textPiece_bytewise hd]
    rfl
  rw [piece_of_mode_ne hmode, piece_of_mode_ne hmode]
  rcases Nat.lt_or_ge c.toNat 0x80 with hc | hc
  · rw [bytewise_cons_of_lt hc] at hbytes
    obtain ⟨rfl, rfl⟩ := List.cons.inj hbytes
    rw [codePiece_bytewise hd pos hc]
  · obtain ⟨b', wide, hwide, hb, -⟩ := exists_bytewise_cons hc
    rw [bytewise_cons, hwide, List.cons_append] at hbytes
    obtain ⟨rfl, -⟩ := List.cons.inj hbytes
    rw [codePiece_of_wide hd pos hc, codePiece_of_wide hd pos hb]
    rfl

theorem byteTokensFrom_nil (steps : Nat) :
    byteTokensFrom d steps mode pos [] = if mode = .text then .ok [] else .error pos := by
  cases steps with
  | zero => rfl
  | succ steps => rfl

/-- A step reads the bytes of the characters that a piece has. -/
theorem byteTokensFrom_of_ok (hd : d.IsAscii) {steps : Nat} {p : Piece}
    (h : piece d mode pos c rest = .ok p) :
    byteTokensFrom d (steps + 1) mode pos (bytewise (c :: rest)) =
      (byteTokensFrom d steps p.mode (advance pos p.read p.lines) (bytewise p.rest)).map
        (((p.token.map fun kind => ⟨kind, pos⟩).toList.map Token.bytewise) ++ ·) := by
  obtain ⟨b, bytes, hbytes⟩ := bytewise_cons_eq c rest
  have hpiece := piece_bytewise hd mode pos hbytes
  have htoken : (p.bytewise.token.map fun kind => (⟨kind, pos⟩ : Token)).toList =
      (p.token.map fun kind => ⟨kind, pos⟩).toList.map Token.bytewise := by
    cases htoken : p.token with
    | none => simp [Piece.bytewise, htoken]
    | some kind => simp [Piece.bytewise, htoken, Token.bytewise]
  rw [h] at hpiece
  rw [hbytes, byteTokensFrom, hpiece]
  dsimp only [Except.map, Except.mapError, bind, Except.bind]
  rw [htoken, advance, ← length_bytewise]
  rfl

theorem byteTokensFrom_of_error (hd : d.IsAscii) {steps : Nat} {fault : LexFault × Position}
    (h : piece d mode pos c rest = .error fault) :
    byteTokensFrom d (steps + 1) mode pos (bytewise (c :: rest)) = .error fault.2 := by
  obtain ⟨b, bytes, hbytes⟩ := bytewise_cons_eq c rest
  have hpiece := piece_bytewise hd mode pos hbytes
  rw [h] at hpiece
  rw [hbytes, byteTokensFrom, hpiece]
  rfl

/-- The tokens read off the bytes are those of the pieces of the text. -/
theorem Cut.byteTokensFrom_eq (hd : d.IsAscii) {pieces : List Piece} {steps : Nat}
    (h : Cut d mode cs pieces) (hsteps : cs.length ≤ steps) :
    byteTokensFrom d steps mode pos (bytewise cs) =
      .ok ((tokensOf pos pieces).map Token.bytewise) := by
  induction h generalizing steps pos with
  | nil => exact byteTokensFrom_nil steps
  | @cons mode c rest p pieces hpiece hrest ih =>
    have hlength := (piece_suffix (hpiece pos)).length_le
    obtain ⟨steps, rfl⟩ : ∃ n, steps = n + 1 := ⟨steps - 1, by simp at hsteps; omega⟩
    rw [List.length_cons, Nat.succ_le_succ_iff] at hsteps
    rw [byteTokensFrom_of_ok hd (hpiece pos), ih (by omega), tokensOf, List.map_append]
    rfl

/-- What is wrong with a text is found at the same place when its bytes are read. -/
theorem byteTokensFrom_eq_error (hd : d.IsAscii) {steps : Nat} {tokens : List Token}
    {e : Diagnostic} (h : tokensFrom d steps mode pos tokens cs = .error e)
    (hsteps : cs.length ≤ steps) :
    ∃ place, e.pos = some place ∧
      byteTokensFrom d steps mode pos (bytewise cs) = .error place := by
  induction steps generalizing mode pos tokens cs with
  | zero =>
    obtain rfl : cs = [] := List.eq_nil_of_length_eq_zero (Nat.le_zero.mp hsteps)
    obtain ⟨hmode, rfl⟩ := finish_eq_error_iff.mp h
    exact ⟨pos, rfl, if_neg hmode⟩
  | succ steps ih =>
    cases cs with
    | nil =>
      obtain ⟨hmode, rfl⟩ := finish_eq_error_iff.mp h
      exact ⟨pos, rfl, if_neg hmode⟩
    | cons c rest =>
      rw [tokensFrom] at h
      cases hpiece : piece d mode pos c rest with
      | error fault =>
        rw [hpiece] at h
        cases h
        exact ⟨fault.2, rfl, byteTokensFrom_of_error hd hpiece⟩
      | ok p =>
        have hlength := (piece_suffix hpiece).length_le
        rw [List.length_cons, Nat.succ_le_succ_iff] at hsteps
        simp only [hpiece] at h
        obtain ⟨place, hplace, hrest⟩ := ih h (by omega)
        refine ⟨place, hplace, ?_⟩
        rw [byteTokensFrom_of_ok hd hpiece, hrest]
        rfl

theorem ofBytes_toUTF8 (source : String) :
    ofBytes source.toUTF8.toList = bytewise source.toList :=
  congrArg ofBytes (toList_toByteArray_string source)

theorem length_toList_le (source : String) : source.toList.length ≤ source.utf8ByteSize := by
  rw [← String.ofList_toList (s := source), utf8ByteSize_ofList, String.toList_ofList]
  generalize source.toList = cs
  induction cs with
  | nil => exact Nat.zero_le _
  | cons c cs ih =>
    have hc := c.utf8Size_pos
    rw [List.length_cons, utf8Length_cons]
    omega

/-- Reading the bytes of an accepted source, one finds the same tokens at the same places. -/
theorem byteTokens_of_ok (hd : d.IsAscii) {source : String} {tokens : List Token}
    (h : tokenizeWith d source = .ok tokens) :
    byteTokens d source = .ok (tokens.map Token.bytewise) := by
  obtain ⟨pieces, hcut, rfl⟩ := exists_cut h
  rw [byteTokens, ofBytes_toUTF8]
  exact hcut.byteTokensFrom_eq hd (length_toList_le source)

/-- What is wrong with a refused source is found at the same place when its bytes are read. -/
theorem byteTokens_of_error (hd : d.IsAscii) {source : String} {e : Diagnostic}
    (h : tokenizeWith d source = .error e) :
    ∃ pos, e.pos = some pos ∧ byteTokens d source = .error pos := by
  have hlength := length_toList_le source
  rw [tokenizeWith, tokensFrom_eq_of_le (Nat.le_refl _) hlength] at h
  rw [byteTokens, ofBytes_toUTF8]
  exact byteTokensFrom_eq_error hd h hlength

end Lexer

theorem Marker.isAscii_of_of? {s : String} {m : Marker} (h : Marker.of? s = some m) :
    m.IsAscii := by
  unfold Marker.of? at h
  split at h
  · split at h
    · next hascii =>
      cases h
      exact ⟨hascii.1, hascii.2⟩
    · cases h
  · cases h

/-- Delimiters that are accepted have one byte for each character. -/
theorem Delimiters.isAscii_of_of? {refOpen refClose : String} {d : Delimiters}
    (h : Delimiters.of? refOpen refClose = some d) : d.IsAscii := by
  unfold Delimiters.of? at h
  split at h
  · next opener closer hopener hcloser =>
    split at h
    · cases h
    · cases h
      exact ⟨Marker.isAscii_of_of? hopener, Marker.isAscii_of_of? hcloser⟩
  · cases h

end Stencil
