import Stencil.Proofs.Token.Bytes

/-!
Where tokens stand. Each token is read off a piece of the source that begins with its own
lexeme, and each piece has a character, so the offsets of the tokens increase, lie between
two characters and are followed by the lexemes. A place that is reported as wrong lies
between two characters too, or at the end. All this holds for any delimiters that are
accepted.
-/

namespace Stencil

/-- The characters that a token is told from, given the delimiters of references: a literal
is told from its opening quote, and a newline may be a line break or a comment. -/
inductive IsLexeme (refOpen refClose : String) : TokenKind → List Char → Prop
  | text (content : String) : IsLexeme refOpen refClose (.text content) content.toList
  | codeOpen : IsLexeme refOpen refClose .codeOpen ['\x7b', '@']
  | codeClose : IsLexeme refOpen refClose .codeClose ['@', '\x7d']
  | refOpen : IsLexeme refOpen refClose .refOpen refOpen.toList
  | refClose : IsLexeme refOpen refClose .refClose refClose.toList
  | int {digits : List Char} (hne : digits ≠ []) (hdigits : ∀ c ∈ digits, c.isDigit = true)
    (hbound : Number.readDigits digits ≤ Number.greatestInt) :
    IsLexeme refOpen refClose (.int (Int64.ofNat (Number.readDigits digits))) digits
  | float {whole fraction : List Char} (hwhole : whole ≠ []) (hfraction : fraction ≠ [])
    (hdigits : ∀ c ∈ whole ++ fraction, c.isDigit = true) :
    IsLexeme refOpen refClose
      (.float (Number.nearestDecimal false (Number.readDigits (whole ++ fraction))
        (-(fraction.length : Int))))
      (whole ++ '.' :: fraction)
  | str (content : String) : IsLexeme refOpen refClose (.str content) ['"']
  | ident (name : String) : IsLexeme refOpen refClose (.ident name) name.toList
  | word (keyword : Keyword) : IsLexeme refOpen refClose (.word keyword) keyword.spelling.toList
  | arith (op : ArithOp) : IsLexeme refOpen refClose (.arith op) op.symbol.toList
  | assign : IsLexeme refOpen refClose .assign ['=']
  | augment (op : ArithOp) : IsLexeme refOpen refClose (.augment op) (op.symbol.toList ++ ['='])
  | comp (op : CompOp) : IsLexeme refOpen refClose (.comp op) op.symbol.toList
  | punct (mark : Punct) : IsLexeme refOpen refClose (.punct mark) mark.spelling.toList
  | lineBreak {ending : List Char} (hending : ending ∈ [['\n'], ['\r'], ['\r', '\n']]) :
    IsLexeme refOpen refClose .newline ending
  | lineComment {body : List Char} (hbody : ∀ c ∈ body, Lexer.isLineBreak c = false) :
    IsLexeme refOpen refClose .newline ('/' :: '/' :: body)
  | blockComment {body : List Char} (hbody : ¬['*', '/'] <:+: body) :
    IsLexeme refOpen refClose .newline ('/' :: '*' :: body ++ ['*', '/'])

namespace Lexer

variable {d : Delimiters} {mode : Mode} {pos : Position} {c : Char} {cs rest read : List Char}
  {p : Piece} {pieces : List Piece} {kind : TokenKind} {refOpen refClose : String}

/-- What is read begins with a lexeme of the token, if there is one. -/
def Tells (refOpen refClose : String) (p : Piece) : Prop :=
  ∀ kind ∈ p.token, ∃ lexeme more, p.read = lexeme ++ more ∧ IsLexeme refOpen refClose kind lexeme

theorem tells_of_isLexeme (h : ∀ kind ∈ p.token, IsLexeme refOpen refClose kind p.read) :
    Tells refOpen refClose p :=
  fun kind hkind => ⟨p.read, [], (List.append_nil _).symm, h kind hkind⟩

/-- The digits of a number are its lexeme. -/
theorem tells_of_numberPiece (hdigit : c.isDigit = true)
    (h : numberPiece mode pos (c :: rest) = .ok p) : Tells refOpen refClose p := by
  have hne : (c :: rest).takeWhile Char.isDigit ≠ [] := by simp [hdigit]
  have hwhole : ∀ c' ∈ (c :: rest).takeWhile Char.isDigit, c'.isDigit = true :=
    fun c' => of_mem_takeWhile
  apply tells_of_isLexeme
  intro kind hkind
  rcases numberPiece_forms h with ⟨after, -, hfraction, rfl⟩ | ⟨hrange, rfl⟩
  · cases hkind
    refine .float hne hfraction fun c' hc' => ?_
    rw [List.mem_append] at hc'
    exact hc'.elim (hwhole c') of_mem_takeWhile
  · cases hkind
    exact .int hne hwhole hrange

theorem spelling_of_ofSpelling? {word : String} {keyword : Keyword}
    (h : Keyword.ofSpelling? word = some keyword) : keyword.spelling = word := by
  have hfound := List.find?_some h
  exact of_decide_eq_true hfound

/-- A word is a keyword or a name, and is spelled as it is read. -/
theorem tells_wordPiece (mode : Mode) (cs : List Char) :
    Tells refOpen refClose (wordPiece mode cs) := by
  apply tells_of_isLexeme
  intro kind hkind
  have hread : (wordPiece mode cs).read = (String.ofList (cs.takeWhile isIdentRest)).toList :=
    String.toList_ofList.symm
  rw [hread]
  unfold wordPiece at hkind
  dsimp only at hkind
  split at hkind
  · next keyword hkeyword =>
    cases hkind
    rw [← spelling_of_ofSpelling? hkeyword]
    exact .word keyword
  · cases hkind
    exact .ident _

/-- A mark is told from its own character and the equals sign that it may take along. -/
theorem isLexeme_of_mark? {next : Option Char} {wide : Bool}
    (h : mark? c next = some (kind, wide)) :
    IsLexeme refOpen refClose kind (if wide then [c, '='] else [c]) := by
  unfold mark? at h
  by_cases hnext : next = some '='
  · simp only [hnext, if_true] at h
    split at h <;> cases h <;>
      first
        | exact .augment _
        | exact .comp _
        | exact .punct _
  · simp only [hnext, if_false] at h
    split at h <;> cases h <;>
      first
        | exact .arith _
        | exact .assign
        | exact .comp _
        | exact .punct _

theorem tells_of_markPiece (h : markPiece mode pos c rest = .ok p) :
    Tells refOpen refClose p := by
  apply tells_of_isLexeme
  intro kind' hkind
  obtain ⟨kind, ⟨hmark, rfl⟩ | ⟨hmark, rfl⟩⟩ := markPiece_forms h
  · cases hkind
    obtain ⟨after, rfl⟩ := List.head?_eq_some_iff.mp ((isPlain_of_mark? hmark).2 rfl)
    exact isLexeme_of_mark? hmark
  · cases hkind
    exact isLexeme_of_mark? hmark

/-- A comment that does not reach the end of the input ends with the first closer. -/
theorem exists_blockCommentFrom (h : (blockCommentFrom read cs).2 ≠ []) :
    ∃ body, (blockCommentFrom read cs).1 = read.reverse ++ (body ++ ['*', '/']) ∧
      ¬['*', '/'] <:+: body ∧ body ++ ['*', '/'] <+: cs := by
  fun_induction blockCommentFrom read cs with
  | case1 read => exact absurd rfl h
  | case2 read rest => exact ⟨[], by simp, by simp, ⟨rest, rfl⟩⟩
  | case3 read c rest hcloser ih =>
    obtain ⟨body, hread, hbody, hprefix⟩ := ih h
    refine ⟨c :: body, by simp [hread], ?_, (List.prefix_cons_inj c).mpr hprefix⟩
    rw [List.infix_cons_iff]
    rintro (⟨after, hafter⟩ | hinfix)
    · obtain ⟨rfl, rfl⟩ := List.cons.inj hafter
      obtain ⟨more, rfl⟩ := hprefix
      exact hcloser (after ++ ['*', '/'] ++ more) rfl rfl
    · exact hbody hinfix

/-- Inside a block the end of the input is not reached, so a comment is closed. -/
theorem tells_of_innerPiece (h : innerPiece mode pos c rest = .ok p) (hrest : p.rest ≠ []) :
    Tells refOpen refClose p := by
  cases innerForm_of_eq h with
  | lineBreak hbreak =>
    apply tells_of_isLexeme
    rintro kind ⟨⟩
    have hne : lineBreak (c :: rest) ≠ [] :=
      List.ne_nil_of_length_pos (length_lineBreak_pos hbreak rest)
    exact .lineBreak (List.mem_of_ne_of_mem hne (lineBreak_mem _))
  | blank _ => exact fun kind hkind => absurd hkind (Option.not_mem_none kind)
  | lineComment after =>
    rintro kind ⟨⟩
    refine ⟨_, _, rfl, .lineComment fun c' hc' => ?_⟩
    simpa using of_mem_takeWhile hc'
  | blockComment after =>
    apply tells_of_isLexeme
    rintro kind ⟨⟩
    obtain ⟨body, hread, hbody, -⟩ := exists_blockCommentFrom hrest
    have hcomment : (blockCommentPiece mode after).read = '/' :: '*' :: body ++ ['*', '/'] :=
      congrArg ('/' :: '*' :: ·) hread
    rw [hcomment]
    exact .blockComment hbody
  | quoted hquoted =>
    obtain ⟨raw, after, -, rfl⟩ := quotedPiece_forms hquoted
    rintro kind ⟨⟩
    exact ⟨['"'], _, rfl, .str _⟩
  | number hdigit hnumber => exact tells_of_numberPiece hdigit hnumber
  | word _ => exact tells_wordPiece mode (c :: rest)
  | mark _ hmark => exact tells_of_markPiece hmark

section Delimited

variable (hopen : refOpen.toList = [d.refOpen.first, d.refOpen.second])
  (hclose : refClose.toList = [d.refClose.first, d.refClose.second])

include hclose in
theorem tells_of_codePiece (h : codePiece d mode pos c rest = .ok p) (hmode : mode ≠ .text)
    (hrest : p.mode = .text ∨ p.rest ≠ []) : Tells refOpen refClose p := by
  rcases codePiece_forms h with ⟨after, rfl, rfl, rfl⟩ | ⟨after, -, rfl, rfl, rfl⟩ | hinner
  · rintro kind ⟨⟩
    exact ⟨['@', '\x7d'], _, rfl, .codeClose⟩
  · apply tells_of_isLexeme
    rintro kind ⟨⟩
    have hread : IsLexeme refOpen refClose .refClose refClose.toList := .refClose
    rwa [hclose] at hread
  · apply tells_of_innerPiece hinner
    rw [mode_of_innerPiece hinner] at hrest
    exact hrest.resolve_left hmode

include hopen in
theorem OuterStretch.tells (h : OuterStretch d p) : Tells refOpen refClose p := by
  apply tells_of_isLexeme
  intro kind hkind
  cases h with
  | @text content rest hne hrest hcontent =>
    cases hkind
    have hread : IsLexeme refOpen refClose (.text (String.ofList content))
        (String.ofList content).toList := .text _
    rwa [String.toList_ofList] at hread
  | codeOpen =>
    cases hkind
    exact .codeOpen
  | refOpen =>
    cases hkind
    have hread : IsLexeme refOpen refClose .refOpen refOpen.toList := .refOpen
    rwa [hopen] at hread

include hopen hclose in
/-- Each piece of an input that lexes begins with the lexeme of its token. -/
theorem Cut.tells (h : Cut d mode cs pieces) : ∀ p ∈ pieces, Tells refOpen refClose p := by
  induction h with
  | nil => exact fun p hp => absurd hp List.not_mem_nil
  | @cons mode c rest p pieces hpiece hrest ih =>
    rw [List.forall_mem_cons]
    refine ⟨?_, ih⟩
    have hnext : p.mode = .text ∨ p.rest ≠ [] := by
      by_contra hend
      rw [not_or, not_not] at hend
      obtain ⟨hmode, hnil⟩ := hend
      rw [hnil] at hrest
      generalize p.mode = mode' at hmode hrest
      cases hrest
      exact hmode rfl
    by_cases hmode : mode = .text
    · subst hmode
      exact OuterStretch.tells hopen (stretch_of_piece (hpiece .start)).1
    · have hcode := hpiece .start
      rw [piece_of_mode_ne hmode] at hcode
      exact tells_of_codePiece hclose hcode hmode hnext

end Delimited

/-! Offsets. -/

/-- Pieces have characters. -/
theorem Cut.read_ne_nil (h : Cut d mode cs pieces) : ∀ p ∈ pieces, p.read ≠ [] := by
  induction h with
  | nil => exact fun p hp => absurd hp List.not_mem_nil
  | @cons mode c rest p pieces hpiece hrest ih =>
    rw [List.forall_mem_cons]
    refine ⟨fun hnil => ?_, ih⟩
    have hlength := (piece_suffix (hpiece .start)).length_le
    have hread := (stretch_of_piece (hpiece .start)).2
    rw [hnil, List.nil_append] at hread
    rw [hread, List.length_cons] at hlength
    omega

/-- Tokens stand one behind the other. -/
theorem Cut.pairwise_offset (h : Cut d mode cs pieces) (pos : Position) :
    (tokensOf pos pieces).Pairwise (·.pos.offset < ·.pos.offset) := by
  induction pieces generalizing mode cs pos with
  | nil => exact .nil
  | cons p pieces ih =>
    obtain ⟨-, -, hrest⟩ := h.head
    have hlater := ih hrest (advance pos p.read p.lines)
    have hread := utf8Length_pos (h.read_ne_nil p List.mem_cons_self)
    rw [tokensOf]
    cases p.token with
    | none => exact hlater
    | some kind =>
      refine List.pairwise_cons.mpr ⟨fun t ht => ?_, hlater⟩
      obtain ⟨before, -, -, -, -, hpos⟩ := exists_piece_of_mem_tokensOf ht
      have hoffset := offset_positionAfter (advance pos p.read p.lines) before
      rw [← hpos, advance] at hoffset
      dsimp only at hoffset ⊢
      omega

/-- The place lies behind some of the characters that follow the position. -/
def Reaches (pos place : Position) (cs : List Char) : Prop :=
  ∃ taken after, cs = taken ++ after ∧ place.offset = pos.offset + utf8Length taken

theorem Reaches.refl (pos : Position) (cs : List Char) : Reaches pos pos cs :=
  ⟨[], cs, rfl, rfl⟩

theorem Reaches.advance {place : Position} {lines : Nat}
    (h : Reaches (Lexer.advance pos read lines) place rest) : Reaches pos place (read ++ rest) := by
  obtain ⟨taken, after, rfl, hoffset⟩ := h
  refine ⟨read ++ taken, after, (List.append_assoc ..).symm, ?_⟩
  rw [hoffset, Lexer.advance, utf8Length_append]
  dsimp only
  omega

theorem reaches_of_numberPiece {fault : LexFault} {place : Position}
    (h : numberPiece mode pos cs = .error (fault, place)) : Reaches pos place cs := by
  unfold numberPiece at h
  dsimp only at h
  split at h
  · split at h
    · cases h
      exact ⟨cs.takeWhile Char.isDigit, _, List.takeWhile_append_dropWhile.symm, rfl⟩
    · cases h
  · split at h
    · cases h
    · cases h
      exact .refl pos cs

theorem reaches_of_innerPiece {fault : LexFault} {place : Position}
    (h : innerPiece mode pos c rest = .error (fault, place)) : Reaches pos place (c :: rest) := by
  cases innerForm_of_eq h with
  | quoted hquoted =>
    unfold quotedPiece at hquoted
    split at hquoted
    · cases hquoted
    · cases hquoted
      exact .refl pos _
  | number _ hnumber => exact reaches_of_numberPiece hnumber
  | mark _ hmark =>
    unfold markPiece at hmark
    split at hmark
    · cases hmark
    · cases hmark
    · cases hmark
      exact .refl pos _

/-- A fault of a piece is placed in what the piece is read from. -/
theorem reaches_of_piece {fault : LexFault} {place : Position}
    (h : piece d mode pos c rest = .error (fault, place)) : Reaches pos place (c :: rest) := by
  by_cases hmode : mode = .text
  · subst hmode
    cases h
  · rw [piece_of_mode_ne hmode, codePiece_eq] at h
    split at h
    · split at h
      · cases h
      · cases h
        exact .refl pos _
    split at h
    · cases h
    · exact reaches_of_innerPiece h

/-- A fault of the input is placed at one of its characters or at its end. -/
theorem reaches_of_tokensFrom {steps : Nat} {tokens : List Token} {e : Diagnostic}
    (h : tokensFrom d steps mode pos tokens cs = .error e) :
    ∃ place, e.pos = some place ∧ Reaches pos place cs := by
  induction steps generalizing mode pos tokens cs with
  | zero =>
    obtain ⟨-, rfl⟩ := finish_eq_error_iff.mp h
    exact ⟨pos, rfl, .refl pos cs⟩
  | succ steps ih =>
    cases cs with
    | nil =>
      obtain ⟨-, rfl⟩ := finish_eq_error_iff.mp h
      exact ⟨pos, rfl, .refl pos []⟩
    | cons c rest =>
      rw [tokensFrom] at h
      cases hpiece : piece d mode pos c rest with
      | error fault =>
        rw [hpiece] at h
        cases h
        exact ⟨fault.2, rfl, reaches_of_piece hpiece⟩
      | ok p =>
        simp only [hpiece] at h
        obtain ⟨place, hplace, hreaches⟩ := ih h
        refine ⟨place, hplace, ?_⟩
        rw [← (stretch_of_piece hpiece).2]
        exact hreaches.advance

theorem Reaches.isValid {source : String} {place : Position}
    (h : Reaches .start place source.toList) : (⟨place.offset⟩ : String.Pos.Raw).IsValid source := by
  obtain ⟨taken, after, hsource, hoffset⟩ := h
  exact isValid_iff.mpr ⟨taken, after, hsource, by rw [hoffset]; exact (Nat.zero_add _).symm⟩

end Lexer

open Lexer

theorem Marker.toList_of_of? {s : String} {m : Marker} (h : Marker.of? s = some m) :
    s.toList = [m.first, m.second] := by
  unfold Marker.of? at h
  split at h
  · next a b hs =>
    split at h
    · cases h
      exact hs
    · cases h
  · cases h

theorem Delimiters.toList_of_of? {refOpen refClose : String} {d : Delimiters}
    (h : Delimiters.of? refOpen refClose = some d) :
    refOpen.toList = [d.refOpen.first, d.refOpen.second] ∧
      refClose.toList = [d.refClose.first, d.refClose.second] := by
  unfold Delimiters.of? at h
  split at h
  · next opener closer hopener hcloser =>
    split at h
    · cases h
    · cases h
      exact ⟨Marker.toList_of_of? hopener, Marker.toList_of_of? hcloser⟩
  · cases h

/-- Between any accepted delimiters each step of the lexer reads a character, so a step for
each character is enough. The tokens stand one behind the other, each between two characters
and before its own lexeme, and the place of a fault lies between two characters or at the
end. A lexer that steps from byte to byte finds the same tokens and the same faults at the same
places. -/
theorem tokens_stand_before_lexemes (refOpen refClose source : String) (d : Delimiters)
    (hd : Delimiters.of? refOpen refClose = some d) :
    (∀ mode pos c rest p, piece d mode pos c rest = .ok p →
      p.rest.length < (c :: rest).length) ∧
    (∀ steps, source.toList.length ≤ steps →
      tokensFrom d steps .text .start [] source.toList =
        tokenizeBetween refOpen refClose source) ∧
    (∀ tokens, tokenizeBetween refOpen refClose source = .ok tokens →
      tokens.Pairwise (·.pos.offset < ·.pos.offset) ∧
      ∀ t ∈ tokens, t.pos.offset < source.utf8ByteSize ∧
        (⟨t.pos.offset⟩ : String.Pos.Raw).IsValid source ∧
        ∃ before lexeme after, IsLexeme refOpen refClose t.kind lexeme ∧
          source.toList = before ++ lexeme ++ after ∧ utf8Length before = t.pos.offset) ∧
    (∀ e, tokenizeBetween refOpen refClose source = .error e →
      ∃ pos, e.pos = some pos ∧ pos.offset ≤ source.utf8ByteSize ∧
        (⟨pos.offset⟩ : String.Pos.Raw).IsValid source ∧ byteTokens d source = .error pos) ∧
    (∀ tokens, tokenizeBetween refOpen refClose source = .ok tokens →
      byteTokens d source = .ok (tokens.map Token.bytewise)) := by
  have hbetween : tokenizeBetween refOpen refClose source = tokenizeWith d source := by
    rw [tokenizeBetween, hd]
  obtain ⟨hopen, hclose⟩ := Delimiters.toList_of_of? hd
  have hascii := Delimiters.isAscii_of_of? hd
  rw [hbetween]
  refine ⟨fun mode pos c rest p hpiece => ?_, fun steps hsteps => ?_, fun tokens htokens => ?_,
    fun e herror => ?_, fun tokens htokens => byteTokens_of_ok hascii htokens⟩
  · have hlength := (piece_suffix hpiece).length_le
    rw [List.length_cons]
    omega
  · exact tokensFrom_eq_of_le hsteps (Nat.le_refl _)
  · obtain ⟨pieces, hcut, rfl⟩ := exists_cut htokens
    refine ⟨hcut.pairwise_offset .start, fun t ht => ?_⟩
    obtain ⟨before, p, after, rfl, htoken, hpos⟩ := exists_piece_of_mem_tokensOf ht
    obtain ⟨lexeme, more, hread, hlexeme⟩ :=
      hcut.tells hopen hclose p (by simp) t.kind htoken
    have hoffset : utf8Length (before.flatMap Piece.read) = t.pos.offset := by
      rw [hpos, offset_positionAfter]
      exact (Nat.zero_add _).symm
    have hsource : source.toList =
        before.flatMap Piece.read ++ lexeme ++ (more ++ after.flatMap Piece.read) := by
      rw [← hcut.flatMap_read, List.flatMap_append, List.flatMap_cons, hread]
      simp only [List.append_assoc]
    refine ⟨?_, ?_, before.flatMap Piece.read, lexeme, _, hlexeme, hsource, hoffset⟩
    · have hp := utf8Length_pos (hcut.read_ne_nil p (by simp))
      rw [← String.ofList_toList (s := source), utf8ByteSize_ofList, hsource, ← hoffset]
      rw [hread] at hp
      simp only [utf8Length_append] at hp ⊢
      omega
    · exact isValid_iff.mpr ⟨_, lexeme ++ _, by rw [hsource, List.append_assoc], hoffset⟩
  · obtain ⟨pos, hpos, hreaches⟩ := reaches_of_tokensFrom herror
    obtain ⟨pos', hpos', hbytes⟩ := byteTokens_of_error hascii herror
    obtain rfl : pos = pos' := Option.some.inj (hpos.symm.trans hpos')
    exact ⟨pos, hpos, hreaches.isValid.le_utf8ByteSize, hreaches.isValid, hbytes⟩

/-! References between brackets, with characters of more than one byte in a text and in a
comment. -/

namespace Bracketed

def source : String := "é[[ x // €\n]]\n"

def delimiters : Delimiters := ⟨⟨'[', '['⟩, ⟨']', ']'⟩⟩

def tokens : List Token :=
  [⟨.text "é", ⟨0, 1⟩⟩, ⟨.refOpen, ⟨2, 1⟩⟩, ⟨.ident "x", ⟨5, 1⟩⟩, ⟨.newline, ⟨7, 1⟩⟩,
    ⟨.refClose, ⟨14, 2⟩⟩, ⟨.text "\n", ⟨16, 2⟩⟩]

theorem of?_brackets : Delimiters.of? "[[" "]]" = some delimiters := by decide

theorem tokenizeBetween_source : tokenizeBetween "[[" "]]" source = .ok tokens := by
  have htokens : (tokenizeBetween "[[" "]]" source).toOption = some tokens := by decide +kernel
  generalize tokenizeBetween "[[" "]]" source = result at htokens
  cases result with
  | error e => cases htokens
  | ok found => exact congrArg Except.ok (Option.some.inj htokens)

theorem tokens_between_brackets : Delimiters.of? "[[" "]]" = some delimiters ∧
    tokenizeBetween "[[" "]]" source = .ok tokens ∧
    tokens.Pairwise (·.pos.offset < ·.pos.offset) ∧
    ∀ t ∈ tokens, t.pos.offset < source.utf8ByteSize ∧
      (⟨t.pos.offset⟩ : String.Pos.Raw).IsValid source ∧
      ∃ before lexeme after, IsLexeme "[[" "]]" t.kind lexeme ∧
        source.toList = before ++ lexeme ++ after ∧ utf8Length before = t.pos.offset := by
  obtain ⟨-, -, hok, -⟩ := tokens_stand_before_lexemes "[[" "]]" source delimiters of?_brackets
  exact ⟨of?_brackets, tokenizeBetween_source, hok tokens tokenizeBetween_source⟩

end Bracketed

end Stencil
