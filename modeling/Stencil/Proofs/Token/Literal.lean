import Stencil.Proofs.Text.Utf8
import Stencil.Proofs.Token.Cut

/-!
Text literals. Between its quotes a literal is a row of units, each a character that stands
for itself or a backslash with the character behind it, so the closing quote is the first one
that no backslash takes. The units can also be read byte by byte, where a backslash takes only
the first byte of a character: the other bytes mean nothing in a literal and are passed on, so
what is gathered is UTF-8 again.
-/

namespace Stencil

/-- A character that stands for itself, or one behind a backslash. -/
inductive LiteralUnit
  | plain (c : Char) (hquote : c ≠ '"') (hslash : c ≠ '\\')
  | escape (c : Char)

namespace LiteralUnit

def meanings : List (Char × Char) :=
  [('0', '\x00'), ('a', '\x07'), ('b', '\x08'), ('f', '\x0c'), ('n', '\n'), ('r', '\r'),
    ('t', '\t'), ('\\', '\\'), ('\'', '\''), ('"', '"')]

def spelled : LiteralUnit → List Char
  | plain c _ _ => [c]
  | escape c => ['\\', c]

def meant : LiteralUnit → List Char
  | plain c _ _ => [c]
  | escape c =>
    match meanings.lookup c with
    | some meaning => [meaning]
    | none => ['\\', c]

end LiteralUnit

namespace Lexer

open LiteralUnit Text

variable {d : Delimiters} {mode : Mode} {pos : Position} {c : Char} {cs rest read raw : List Char}
  {p : Piece} {pieces : List Piece} {gathered : List UInt8}

/-! Literals as rows of units. -/

theorem escape?_eq_lookup (c : Char) : escape? c = meanings.lookup c := by
  unfold escape?
  split
  case h_11 =>
    refine (List.lookup_eq_none_iff.mpr ?_).symm
    simp_all [meanings]
  all_goals rfl

/-- The units of a literal are replaced one by one. -/
theorem unescape_units (units : List LiteralUnit) :
    unescape (units.flatMap spelled) = units.flatMap meant := by
  induction units with
  | nil => rfl
  | cons u units ih =>
    rw [List.flatMap_cons, List.flatMap_cons, ← ih]
    cases u with
    | plain c hquote hslash =>
      rw [spelled, List.singleton_append, unescape.eq_3 _ _ fun c' rest' h _ => hslash h]
      rfl
    | escape c =>
      rw [spelled, List.cons_append, List.singleton_append, unescape, escape?_eq_lookup, meant]
      cases meanings.lookup c with
      | some meaning => rfl
      | none => rfl

/-- What is read up to the closing quote is a row of units. -/
theorem exists_units (h : quotedFrom read cs = some (raw, rest)) : ∃ units : List LiteralUnit,
    raw = read.reverse ++ units.flatMap spelled ∧
      cs = units.flatMap spelled ++ '"' :: rest := by
  fun_induction quotedFrom read cs with
  | case1 read => cases h
  | case2 read rest' =>
    cases h
    exact ⟨[], (List.append_nil _).symm, rfl⟩
  | case3 read c rest' ih =>
    obtain ⟨units, rfl, rfl⟩ := ih h
    exact ⟨.escape c :: units, by simp [spelled], rfl⟩
  | case4 read c rest' hquote hpair ih =>
    obtain ⟨units, rfl, rfl⟩ := ih h
    have hslash : c ≠ '\\' := by
      intro hslash
      obtain ⟨c', after, hrest⟩ : ∃ c' after, units.flatMap spelled ++ '"' :: rest = c' :: after :=
        List.exists_cons_of_ne_nil (by simp)
      exact hpair c' after hslash hrest
    exact ⟨.plain c hquote hslash :: units, by simp [spelled], rfl⟩

/-! The reading of bytes. -/

def asciiByte (c : Char) : UInt8 := UInt8.ofNat c.toNat

def escapedBytes (e : UInt8) : List UInt8 :=
  match (meanings.map (Prod.map asciiByte asciiByte)).lookup e with
  | some meaning => [meaning]
  | none => [asciiByte '\\', e]

/-- The bytes that the literal stands for and those behind its closing quote, read byte by
byte. -/
def gatherBytes (gathered : List UInt8) : List UInt8 → Option (List UInt8 × List UInt8)
  | [] => none
  | b :: rest =>
    if b = asciiByte '"' then some (gathered, rest)
    else if b = asciiByte '\\' then
      match rest with
      | [] => none
      | e :: rest => gatherBytes (gathered ++ escapedBytes e) rest
    else gatherBytes (gathered ++ [b]) rest

theorem asciiByte_inj {c c' : Char} (hc : c.toNat < 0x80) (hc' : c'.toNat < 0x80) :
    asciiByte c = asciiByte c' ↔ c = c' := by
  refine ⟨fun h => ?_, congrArg asciiByte⟩
  have hnat := congrArg UInt8.toNat h
  rw [asciiByte, asciiByte, UInt8.toNat_ofNat', UInt8.toNat_ofNat'] at hnat
  rw [← Char.toNat_inj]
  omega

theorem ascii_meanings : ∀ q ∈ meanings, q.1.toNat < 0x80 ∧ q.2.toNat < 0x80 := by
  decide

theorem ascii_of_lookup {meaning : Char} (h : meanings.lookup c = some meaning) :
    c.toNat < 0x80 ∧ meaning.toNat < 0x80 := by
  obtain ⟨before, after, hmeanings, -⟩ := List.lookup_eq_some_iff.mp h
  exact ascii_meanings (c, meaning) (by rw [hmeanings]; simp)

theorem utf8EncodeChar_of_lt (h : c.toNat < 0x80) : String.utf8EncodeChar c = [asciiByte c] := by
  rcases utf8EncodeChar_cases c with hc | hc
  · exact hc.2
  · omega

theorem toNat_asciiByte (h : c.toNat < 0x80) : (asciiByte c).toNat = c.toNat := by
  rw [asciiByte, UInt8.toNat_ofNat']
  omega

theorem lookup_asciiByte (hc : c.toNat < 0x80) :
    (meanings.map (Prod.map asciiByte asciiByte)).lookup (asciiByte c) =
      (meanings.lookup c).map asciiByte := by
  have hmeanings := ascii_meanings
  generalize meanings = table at hmeanings
  induction table with
  | nil => rfl
  | cons q table ih =>
    rw [List.forall_mem_cons] at hmeanings
    have hbyte : (asciiByte c == asciiByte q.1) = (c == q.1) := by
      rw [Bool.eq_iff_iff, beq_iff_eq, beq_iff_eq, asciiByte_inj hc hmeanings.1.1]
    rw [List.map_cons, Prod.map, List.lookup_cons, List.lookup_cons, hbyte, ih hmeanings.2]
    cases c == q.1 with
    | true => rfl
    | false => rfl

theorem escapedBytes_asciiByte (hc : c.toNat < 0x80) :
    escapedBytes (asciiByte c) = utf8Bytes (escape c).meant := by
  rw [escapedBytes, lookup_asciiByte hc, meant]
  cases hlookup : meanings.lookup c with
  | none =>
    dsimp only [Option.map_none]
    rw [utf8Bytes_cons, utf8Bytes_cons, utf8EncodeChar_of_lt hc]
    rfl
  | some meaning =>
    dsimp only [Option.map_some]
    rw [utf8Bytes_cons, utf8EncodeChar_of_lt (ascii_of_lookup hlookup).2]
    rfl

/-- The first byte of a character of more than one byte keeps its backslash. -/
theorem escapedBytes_of_le {e : UInt8} (he : 0x80 ≤ e.toNat) :
    escapedBytes e = [asciiByte '\\', e] := by
  have hlookup : (meanings.map (Prod.map asciiByte asciiByte)).lookup e = none := by
    rw [List.lookup_eq_none_iff, List.forall_mem_map]
    intro q hq
    have hbyte := toNat_asciiByte (ascii_meanings q hq).1
    have hascii := (ascii_meanings q hq).1
    rw [bne_iff_ne]
    intro heq
    rw [heq, Prod.map] at he
    dsimp only at he
    omega
  rw [escapedBytes, hlookup]

/-- A quote ends the loop. -/
theorem gatherBytes_quote (after : List UInt8) :
    gatherBytes gathered (asciiByte '"' :: after) = some (gathered, after) := by
  rw [gatherBytes.eq_def]
  exact if_pos rfl

theorem gatherBytes_slash (e : UInt8) (after : List UInt8) :
    gatherBytes gathered (asciiByte '\\' :: e :: after) =
      gatherBytes (gathered ++ escapedBytes e) after := by
  rw [gatherBytes, if_neg (by decide), if_pos rfl]

theorem gatherBytes_cons {b : UInt8} {after : List UInt8} (hquote : b ≠ asciiByte '"')
    (hslash : b ≠ asciiByte '\\') :
    gatherBytes gathered (b :: after) = gatherBytes (gathered ++ [b]) after := by
  rw [gatherBytes.eq_def]
  dsimp only
  rw [if_neg hquote, if_neg hslash]

/-- Bytes from 128 on are neither quotes nor backslashes. -/
theorem gatherBytes_append {bytes after : List UInt8} (hbytes : ∀ b ∈ bytes, 0x80 ≤ b.toNat) :
    gatherBytes gathered (bytes ++ after) = gatherBytes (gathered ++ bytes) after := by
  induction bytes generalizing gathered with
  | nil => rw [List.nil_append, List.append_nil]
  | cons b bytes ih =>
    rw [List.forall_mem_cons] at hbytes
    have hne : ∀ c : Char, c.toNat < 0x80 → b ≠ asciiByte c := by
      intro c hc heq
      have hbyte := toNat_asciiByte hc
      rw [← heq] at hbyte
      omega
    rw [List.cons_append, gatherBytes_cons (hne '"' (by decide)) (hne '\\' (by decide)),
      ih hbytes.2, List.append_assoc, List.singleton_append]

/-- The units are gathered as what they mean. A backslash takes the first byte of the character
behind it, and the others follow on their own. -/
theorem gatherBytes_unit (u : LiteralUnit) (cs : List Char) :
    gatherBytes gathered (utf8Bytes (u.spelled ++ cs)) =
      gatherBytes (gathered ++ utf8Bytes u.meant) (utf8Bytes cs) := by
  rw [utf8Bytes_append]
  cases u with
  | plain c hquote hslash =>
    rw [spelled, meant, utf8Bytes_cons, utf8Bytes_nil, List.append_nil]
    rcases utf8EncodeChar_cases c with ⟨hc, -⟩ | ⟨-, hbytes⟩
    · rw [utf8EncodeChar_of_lt hc, List.singleton_append]
      apply gatherBytes_cons
      · exact (asciiByte_inj hc (by decide)).not.mpr hquote
      · exact (asciiByte_inj hc (by decide)).not.mpr hslash
    · exact gatherBytes_append hbytes
  | escape c =>
    have hslash : String.utf8EncodeChar '\\' = [asciiByte '\\'] := utf8EncodeChar_of_lt (by decide)
    rw [spelled, utf8Bytes_cons, utf8Bytes_cons, utf8Bytes_nil, List.append_nil, hslash,
      List.singleton_append, List.cons_append]
    rcases utf8EncodeChar_cases c with ⟨hc, -⟩ | ⟨hc, hbytes⟩
    · rw [utf8EncodeChar_of_lt hc, List.singleton_append, gatherBytes_slash,
        escapedBytes_asciiByte hc]
    · obtain ⟨e, trailing, hencode⟩ :=
        List.exists_cons_of_ne_nil (String.utf8EncodeChar_ne_nil (c := c))
      have hlookup : meanings.lookup c = none := by
        cases hlookup : meanings.lookup c with
        | none => rfl
        | some meaning =>
          have hascii := (ascii_of_lookup hlookup).1
          omega
      rw [meant, hlookup, utf8Bytes_cons, utf8Bytes_cons, utf8Bytes_nil, List.append_nil, hslash]
      rw [hencode, List.forall_mem_cons] at hbytes
      rw [hencode, List.cons_append, gatherBytes_slash, escapedBytes_of_le hbytes.1,
        gatherBytes_append hbytes.2]
      simp

theorem gatherBytes_units (units : List LiteralUnit) (cs : List Char) :
    gatherBytes gathered (utf8Bytes (units.flatMap spelled ++ cs)) =
      gatherBytes (gathered ++ utf8Bytes (units.flatMap meant)) (utf8Bytes cs) := by
  induction units generalizing gathered with
  | nil => rw [List.flatMap_nil, List.flatMap_nil, List.nil_append, utf8Bytes_nil, List.append_nil]
  | cons u units ih =>
    rw [List.flatMap_cons, List.flatMap_cons, List.append_assoc, gatherBytes_unit, ih,
      utf8Bytes_append, List.append_assoc]

/-- Without a closing quote the bytes run out too: a backslash that makes no pair is the last
byte. -/
theorem gatherBytes_eq_none (h : quotedFrom read cs = none) :
    gatherBytes gathered (utf8Bytes cs) = none := by
  fun_induction quotedFrom read cs generalizing gathered with
  | case1 read => rfl
  | case2 read rest => cases h
  | case3 read c rest ih => exact (gatherBytes_unit (.escape c) rest).trans (ih h)
  | case4 read c rest hquote hpair ih =>
    by_cases hslash : c = '\\'
    · obtain rfl : rest = [] := by
        by_contra hne
        obtain ⟨c', after, hrest⟩ := List.exists_cons_of_ne_nil hne
        exact hpair c' after hslash hrest
      subst hslash
      rfl
    · exact (gatherBytes_unit (.plain c hquote hslash) rest).trans (ih h)

/-- Reading bytes and reading characters come to the same. -/
theorem gatherBytes_utf8Bytes (cs : List Char) :
    gatherBytes [] (utf8Bytes cs) =
      (quotedFrom [] cs).map fun q => (utf8Bytes (unescape q.1), utf8Bytes q.2) := by
  cases hquoted : quotedFrom [] cs with
  | none => exact gatherBytes_eq_none hquoted
  | some q =>
    obtain ⟨units, hraw, rfl⟩ := exists_units hquoted
    have hquote : String.utf8EncodeChar '"' = [asciiByte '"'] := utf8EncodeChar_of_lt (by decide)
    rw [gatherBytes_units, utf8Bytes_cons, hquote, List.singleton_append, gatherBytes_quote]
    rw [List.reverse_nil, List.nil_append] at hraw
    rw [Option.map_some, hraw, unescape_units, List.nil_append]

/-! The text and its bytes. -/

theorem length_utf8Bytes (cs : List Char) : (utf8Bytes cs).length = utf8Length cs := by
  induction cs with
  | nil => rfl
  | cons c cs ih =>
    rw [utf8Bytes_cons, List.length_append, String.length_utf8EncodeChar, ih, utf8Length_cons]

theorem drop_utf8Bytes (cs rest : List Char) :
    (utf8Bytes (cs ++ '"' :: rest)).drop (utf8Length cs + 1) = utf8Bytes rest := by
  have hquote : String.utf8EncodeChar '"' = [asciiByte '"'] := utf8EncodeChar_of_lt (by decide)
  rw [utf8Bytes_append, utf8Bytes_cons, hquote, ← length_utf8Bytes, ← List.drop_drop,
    List.drop_left, List.singleton_append, List.drop_one, List.tail_cons]

/-- A meaning takes no replacement character away and puts none in. -/
theorem count_replacement_meant (u : LiteralUnit) :
    u.meant.count replacement = u.spelled.count replacement := by
  have hne : ∀ {c : Char}, c.toNat < 0x80 → c ≠ replacement := by
    rintro c hc rfl
    exact absurd hc (by decide)
  cases u with
  | plain c hquote hslash => rfl
  | escape c =>
    rw [meant]
    cases hlookup : meanings.lookup c with
    | none => rfl
    | some meaning =>
      obtain ⟨hc, hmeaning⟩ := ascii_of_lookup hlookup
      have hslash : '\\' ≠ replacement := by decide
      simp [spelled, hne hc, hne hmeaning, hslash]

/-! Tokens of literals. -/

theorem token_ne_str_of_numberPiece {content : String} (h : numberPiece mode pos cs = .ok p) :
    p.token ≠ some (.str content) := by
  rcases numberPiece_forms h with ⟨after, -, -, rfl⟩ | ⟨-, rfl⟩
  · exact nofun
  · exact nofun

theorem token_ne_str_of_wordPiece (mode : Mode) (cs : List Char) (content : String) :
    (wordPiece mode cs).token ≠ some (.str content) := by
  unfold wordPiece
  dsimp only
  split
  · exact nofun
  · exact nofun

theorem token_ne_str_of_markPiece {content : String} (h : markPiece mode pos c rest = .ok p) :
    p.token ≠ some (.str content) := by
  intro htoken
  obtain ⟨kind, ⟨hmark, rfl⟩ | ⟨hmark, rfl⟩⟩ := markPiece_forms h
  · cases htoken
    cases (isPlain_of_mark? hmark).1
  · cases htoken
    cases (isPlain_of_mark? hmark).1

/-- Only a quote begins a text literal. -/
theorem quotedFrom_of_innerPiece {content : String} (h : innerPiece mode pos c rest = .ok p)
    (htoken : p.token = some (.str content)) :
    c = '"' ∧ ∃ raw, quotedFrom [] rest = some (raw, p.rest) ∧
      content = String.ofList (unescape raw) := by
  cases innerForm_of_eq h with
  | quoted hquoted =>
    obtain ⟨raw, after, hraw, rfl⟩ := quotedPiece_forms hquoted
    cases htoken
    exact ⟨rfl, raw, hraw, rfl⟩
  | number _ hnumber => exact absurd htoken (token_ne_str_of_numberPiece hnumber)
  | word _ => exact absurd htoken (token_ne_str_of_wordPiece mode _ content)
  | mark _ hmark => exact absurd htoken (token_ne_str_of_markPiece hmark)
  | _ => cases htoken

/-- A text literal is read from its opening quote. -/
theorem quotedFrom_of_piece {content : String} (h : piece d mode pos c rest = .ok p)
    (htoken : p.token = some (.str content)) :
    c = '"' ∧ ∃ raw, quotedFrom [] rest = some (raw, p.rest) ∧
      content = String.ofList (unescape raw) := by
  by_cases hmode : mode = .text
  · subst hmode
    cases h
    unfold textPiece at htoken
    split at htoken
    · cases htoken
    split at htoken
    · cases htoken
    · cases htoken
  rw [piece_of_mode_ne hmode] at h
  rcases codePiece_forms h with ⟨after, -, -, rfl⟩ | ⟨after, -, -, -, rfl⟩ | hinner
  · cases htoken
  · cases htoken
  · exact quotedFrom_of_innerPiece hinner htoken

/-- A piece is read at the head of what the pieces before it leave. -/
theorem Cut.exists_piece {before after : List Piece} (h : Cut d mode cs (before ++ p :: after)) :
    ∃ mode' c rest, (∀ pos, piece d mode' pos c rest = .ok p) ∧
      cs = before.flatMap Piece.read ++ c :: rest := by
  induction before generalizing mode cs with
  | nil =>
    cases h with
    | cons hpiece hrest => exact ⟨_, _, _, hpiece, rfl⟩
  | cons q before ih =>
    obtain ⟨-, hread, hrest⟩ := h.head
    obtain ⟨mode', c, rest, hpiece, hq⟩ := ih hrest
    exact ⟨mode', c, rest, hpiece, by rw [hread, hq, List.flatMap_cons, List.append_assoc]⟩

end Lexer

open Lexer LiteralUnit

/-- A text literal means its units, whichever delimiters are used: known escapes are replaced
and everything else is kept. The loop over the bytes behind the opening quote gathers exactly
these characters and stops at the same quote, and reading what it gathered leniently puts in
no replacement character that the literal does not have. -/
theorem literals_decode (d : Delimiters) (source : String) (tokens : List Token)
    (h : tokenizeWith d source = .ok tokens) (t : Token) (ht : t ∈ tokens) (content : String)
    (hkind : t.kind = .str content) :
    ∃ (before : List Char) (units : List LiteralUnit) (after : List Char),
      source.toList = before ++ '"' :: units.flatMap spelled ++ '"' :: after ∧
      utf8Length before = t.pos.offset ∧
      content.toList = units.flatMap meant ∧
      ∃ gathered,
        gatherBytes [] (source.toByteArray.toList.drop (t.pos.offset + 1)) =
          some (gathered, Text.utf8Bytes after) ∧
        Text.ofUtf8Lenient gathered.toByteArray = content ∧
        (Text.lenientChars gathered).count Text.replacement =
          (units.flatMap spelled).count Text.replacement := by
  obtain ⟨pieces, hcut, rfl⟩ := exists_cut h
  obtain ⟨earlier, p, later, rfl, htoken, hpos⟩ := exists_piece_of_mem_tokensOf ht
  obtain ⟨mode, c, rest, hpiece, hsource⟩ := hcut.exists_piece
  rw [hkind] at htoken
  obtain ⟨rfl, raw, hquoted, rfl⟩ := quotedFrom_of_piece (hpiece .start) htoken
  obtain ⟨units, hraw, hrest⟩ := exists_units hquoted
  rw [List.reverse_nil, List.nil_append] at hraw
  have hmeant : unescape raw = units.flatMap meant := by rw [hraw, unescape_units]
  have hoffset : utf8Length (earlier.flatMap Piece.read) = t.pos.offset := by
    rw [hpos, offset_positionAfter]
    exact (Nat.zero_add _).symm
  have hbytes : source.toByteArray.toList.drop (t.pos.offset + 1) = Text.utf8Bytes rest := by
    rw [Text.toList_toByteArray_string, hsource, ← hoffset, drop_utf8Bytes]
  refine ⟨earlier.flatMap Piece.read, units, p.rest, ?_, hoffset, ?_,
    Text.utf8Bytes (unescape raw), ?_, ?_, ?_⟩
  · rw [hsource, hrest, List.append_assoc, List.cons_append]
  · rw [String.toList_ofList, hmeant]
  · rw [hbytes, gatherBytes_utf8Bytes, hquoted]
    rfl
  · rw [Text.ofUtf8Lenient, Text.toList_toByteArray, Text.lenientChars_utf8Bytes]
  · rw [Text.lenientChars_utf8Bytes, hmeant, List.count_flatMap, List.count_flatMap]
    exact congrArg List.sum (List.map_congr_left fun u _ => count_replacement_meant u)

/-! A literal with an escape without a meaning, one of a character of three bytes, a line
break and an escape with a meaning. -/

namespace Escaping

def source : String := "\x7b@ \"é\\q\\€\n\\t\" @\x7d"

def literal : Token := ⟨.str "é\\q\\€\n\t", ⟨3, 1⟩⟩

theorem tokenizeWith_source :
    tokenizeWith .standard source = .ok [⟨.codeOpen, ⟨0, 1⟩⟩, literal, ⟨.codeClose, ⟨17, 2⟩⟩] := by
  have htokens : (tokenizeWith .standard source).toOption =
      some [⟨.codeOpen, ⟨0, 1⟩⟩, literal, ⟨.codeClose, ⟨17, 2⟩⟩] := by decide +kernel
  generalize tokenizeWith .standard source = result at htokens
  cases result with
  | error e => cases htokens
  | ok found => exact congrArg Except.ok (Option.some.inj htokens)

theorem literal_decodes : ∃ (before : List Char) (units : List LiteralUnit) (after : List Char),
    source.toList = before ++ '"' :: units.flatMap spelled ++ '"' :: after ∧
    utf8Length before = 3 ∧
    "é\\q\\€\n\t".toList = units.flatMap meant ∧
    ∃ gathered,
      gatherBytes [] (source.toByteArray.toList.drop 4) = some (gathered, Text.utf8Bytes after) ∧
      Text.ofUtf8Lenient gathered.toByteArray = "é\\q\\€\n\t" ∧
      (Text.lenientChars gathered).count Text.replacement =
        (units.flatMap spelled).count Text.replacement :=
  literals_decode .standard source _ tokenizeWith_source literal
    (List.mem_cons_of_mem _ List.mem_cons_self) _ rfl

end Escaping

end Stencil
