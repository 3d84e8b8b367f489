import Stencil.Proofs.Token.Seam

/-!
A template that lexes is cut into pieces. Each piece is a stretch of one of a few
shapes, and the stretches put together are the template, so nothing is lost or read
twice. The tokens are those of the pieces, each at the place where its stretch begins.
-/

namespace Stencil

/-- Tokens inside a block that are neither delimiters nor made of characters that may be
line breaks: numbers, words and marks. -/
def TokenKind.isPlain : TokenKind → Bool
  | .text _ | .codeOpen | .codeClose | .refOpen | .refClose | .str _ | .newline => false
  | _ => true

namespace Lexer

variable {d : Delimiters} {mode mode' : Mode} {pos : Position} {c : Char}
  {cs rest read raw : List Char} {p : Piece} {pieces : List Piece}

/-! Byte lengths. -/

@[simp] theorem utf8Length_cons (c : Char) (cs : List Char) :
    utf8Length (c :: cs) = c.utf8Size + utf8Length cs := rfl

theorem utf8Length_append (cs cs' : List Char) :
    utf8Length (cs ++ cs') = utf8Length cs + utf8Length cs' := by
  induction cs with
  | nil => simp [utf8Length]
  | cons c cs ih =>
    rw [List.cons_append, utf8Length_cons, utf8Length_cons, ih]
    omega

theorem utf8Length_pos (h : cs ≠ []) : 0 < utf8Length cs := by
  obtain ⟨c, rest, rfl⟩ := List.exists_cons_of_ne_nil h
  have hc := c.utf8Size_pos
  rw [utf8Length_cons]
  omega

theorem utf8ByteSize_ofList (cs : List Char) : (String.ofList cs).utf8ByteSize = utf8Length cs := by
  induction cs with
  | nil => rfl
  | cons c cs ih =>
    rw [← List.singleton_append, String.ofList_append, String.utf8ByteSize_append, ih,
      utf8Length_append]
    simp [utf8Length]

/-- Places between two characters, as byte offsets. -/
theorem isValid_iff {source : String} {offset : Nat} :
    (⟨offset⟩ : String.Pos.Raw).IsValid source ↔
      ∃ taken rest, source.toList = taken ++ rest ∧ utf8Length taken = offset := by
  rw [String.Pos.Raw.isValid_iff_exists_append]
  constructor
  · rintro ⟨taken, rest, rfl, hoffset⟩
    refine ⟨taken.toList, rest.toList, String.toList_append, ?_⟩
    rw [← utf8ByteSize_ofList, String.ofList_toList]
    exact (congrArg String.Pos.Raw.byteIdx hoffset).symm
  · rintro ⟨taken, rest, hsource, rfl⟩
    refine ⟨String.ofList taken, String.ofList rest, ?_, ?_⟩
    · rw [← String.ofList_append, ← hsource, String.ofList_toList]
    · rw [String.Pos.Raw.ext_iff, String.byteIdx_rawEndPos, utf8ByteSize_ofList]

/-! What is read and what is left are the input. -/

theorem blockCommentFrom_fst_append_snd (read cs : List Char) :
    (blockCommentFrom read cs).1 ++ (blockCommentFrom read cs).2 = read.reverse ++ cs := by
  fun_induction blockCommentFrom read cs with
  | case1 read => rfl
  | case2 read rest => simp
  | case3 read c rest hne ih => simpa using ih

theorem append_of_quotedFrom (h : quotedFrom read cs = some (raw, rest)) :
    raw ++ '"' :: rest = read.reverse ++ cs := by
  fun_induction quotedFrom read cs with
  | case1 read => cases h
  | case2 read rest' =>
    cases h
    rfl
  | case3 read c rest' ih => simpa using ih h
  | case4 read c rest' hquote hslash ih => simpa using ih h

theorem lineBreak_mem (cs : List Char) : lineBreak cs ∈ [[], ['\n'], ['\r'], ['\r', '\n']] := by
  unfold lineBreak
  split <;> simp

theorem lineBreak_append_drop (cs : List Char) :
    lineBreak cs ++ cs.drop (lineBreak cs).length = cs := by
  unfold lineBreak
  split <;> rfl

/-- A comment in stars ends with its closer or with the input. -/
theorem blockCommentFrom_ends (read cs : List Char) :
    (blockCommentFrom read cs).2 = [] ∨ (blockCommentFrom read cs).1.getLast? = some '/' := by
  fun_induction blockCommentFrom read cs with
  | case1 read => exact Or.inl rfl
  | case2 read rest => exact Or.inr (by simp)
  | case3 read c rest hne ih => exact ih

/-! The shapes of pieces. -/

def opens (d : Delimiters) (cs : List Char) : Bool :=
  Marker.codeOpen.heads cs || d.refOpen.heads cs

inductive InnerStretch (mode : Mode) : Piece → Prop
  | newline {ending rest : List Char} (hne : ending ≠ [])
    (hending : lineBreak (ending ++ rest) = ending) :
    InnerStretch mode ⟨some .newline, ending, 1, rest, mode⟩
  | blank {c : Char} {rest : List Char} (hblank : isCodeBlank c = true) :
    InnerStretch mode ⟨none, [c], 0, rest, mode⟩
  | lineComment {body ending rest : List Char} (hbody : ∀ c ∈ body, isLineBreak c = false)
    (hending : lineBreak (ending ++ rest) = ending) :
    InnerStretch mode ⟨some .newline, '/' :: '/' :: body ++ ending,
      if ending.isEmpty then 0 else 1, rest, mode⟩
  | blockComment {body rest : List Char} (hend : rest = [] ∨ body.getLast? = some '/') :
    InnerStretch mode ⟨some .newline, '/' :: '*' :: body, body.count '\n', rest, mode⟩
  | quoted {raw rest : List Char} :
    InnerStretch mode ⟨some (.str (String.ofList (unescape raw))), '"' :: raw ++ ['"'],
      plainNewlines raw, rest, mode⟩
  | plain {kind : TokenKind} {read rest : List Char} (hkind : kind.isPlain = true)
    (hne : read ≠ []) (hread : ∀ c ∈ read, isLineBreak c = false) :
    InnerStretch mode ⟨some kind, read, 0, rest, mode⟩

inductive ClosingStretch (d : Delimiters) : Mode → Piece → Prop
  | codeClose {mode : Mode} {ending rest : List Char}
    (hending : lineBreak (ending ++ rest) = ending) :
    ClosingStretch d mode ⟨some .codeClose, '@' :: '\x7d' :: ending,
      if ending.isEmpty then 0 else 1, rest, .text⟩
  | refClose {rest : List Char} :
    ClosingStretch d .reference ⟨some .refClose, [d.refClose.first, d.refClose.second], 0, rest,
      .text⟩

inductive OuterStretch (d : Delimiters) : Piece → Prop
  | text {content rest : List Char} (hne : content ≠ []) (hrest : rest = [] ∨ opens d rest = true)
    (hcontent : ∀ before after, content = before ++ after → after ≠ [] →
      opens d (after ++ rest) = false) :
    OuterStretch d ⟨some (.text (String.ofList content)), content, lineBreaksFrom 0 content, rest,
      .text⟩
  | codeOpen {rest : List Char} : OuterStretch d ⟨some .codeOpen, ['\x7b', '@'], 0, rest, .code⟩
  | refOpen {rest : List Char} :
    OuterStretch d ⟨some .refOpen, [d.refOpen.first, d.refOpen.second], 0, rest, .reference⟩

/-- Text goes on up to an opener and has none in it. -/
theorem exists_textFrom (d : Delimiters) (read cs : List Char) : ∃ content rest,
    textFrom d read cs = (read.reverse ++ content, rest) ∧ content ++ rest = cs ∧
      (rest = [] ∨ opens d rest = true) ∧
      ∀ before after, content = before ++ after → after ≠ [] →
        opens d (after ++ rest) = false := by
  induction cs generalizing read with
  | nil => exact ⟨[], [], by simp [textFrom], rfl, Or.inl rfl, by simp⟩
  | cons c cs ih =>
    by_cases hopens : opens d (c :: cs) = true
    · refine ⟨[], c :: cs, ?_, rfl, Or.inr hopens, by simp⟩
      rw [List.append_nil]
      exact if_pos hopens
    · obtain ⟨content, rest, hfrom, rfl, hrest, hcontent⟩ := ih (c :: read)
      rw [Bool.not_eq_true] at hopens
      refine ⟨c :: content, rest, ?_, rfl, hrest, fun before after heq hne => ?_⟩
      · rw [opens, Bool.or_eq_false_iff] at hopens
        simp [textFrom, hopens, hfrom]
      · cases before with
        | nil => rwa [← List.nil_append after, ← heq]
        | cons c' before => exact hcontent before after (List.cons.inj heq).2 hne

/-- A piece of text has a character and no opener. -/
theorem outerStretch_of_textPiece (hcs : cs ≠ []) :
    OuterStretch d (textPiece d cs) ∧ (textPiece d cs).read ++ (textPiece d cs).rest = cs := by
  have htake : ∀ {marker : Marker}, marker.heads cs = true →
      cs.take 2 = [marker.first, marker.second] := by
    intro marker hheads
    obtain ⟨rest, rfl⟩ := (heads_iff marker cs).mp hheads
    rfl
  unfold textPiece
  by_cases hcode : Marker.codeOpen.heads cs = true
  · rw [if_pos hcode]
    refine ⟨?_, List.take_append_drop 2 cs⟩
    rw [htake hcode]
    exact .codeOpen
  rw [if_neg hcode]
  by_cases hreference : d.refOpen.heads cs = true
  · rw [if_pos hreference]
    refine ⟨?_, List.take_append_drop 2 cs⟩
    rw [htake hreference]
    exact .refOpen
  rw [if_neg hreference]
  obtain ⟨content, rest, hfrom, hcontent, hrest, hopens⟩ := exists_textFrom d [] cs
  have hne : content ≠ [] := by
    rintro rfl
    rw [List.nil_append] at hcontent
    subst hcontent
    rcases hrest with hnil | hopener
    · exact hcs hnil
    · rw [opens, Bool.or_eq_true] at hopener
      exact hopener.elim hcode hreference
  rw [List.reverse_nil, List.nil_append] at hfrom
  rw [hfrom]
  exact ⟨.text hne hrest hopens, hcontent⟩

theorem isLineBreak_eq_false_of_isIdentRest (h : isIdentRest c = true) :
    isLineBreak c = false := by
  by_contra hbreak
  rw [Bool.not_eq_false, isLineBreak, Bool.or_eq_true, decide_eq_true_iff, decide_eq_true_iff]
    at hbreak
  rcases hbreak with rfl | rfl
  · exact absurd h (by decide)
  · exact absurd h (by decide)

theorem isIdentRest_of_isDigit (h : c.isDigit = true) : isIdentRest c = true := by
  simp [isIdentRest, Char.isAlphanum, h]

theorem of_mem_takeWhile {keep : Char → Bool} (h : c ∈ cs.takeWhile keep) : keep c = true :=
  List.all_eq_true.mp (List.all_takeWhile ..) c h

theorem innerStretch_of_numberPiece (hdigit : c.isDigit = true)
    (h : numberPiece mode pos (c :: rest) = .ok p) :
    InnerStretch mode p ∧ p.read ++ p.rest = c :: rest := by
  have hwhole : ∀ c' ∈ (c :: rest).takeWhile Char.isDigit, isLineBreak c' = false := fun c' hc' =>
    isLineBreak_eq_false_of_isIdentRest (isIdentRest_of_isDigit (of_mem_takeWhile hc'))
  have hne : (c :: rest).takeWhile Char.isDigit ≠ [] := by simp [hdigit]
  have hparts := List.takeWhile_append_dropWhile (p := Char.isDigit) (l := c :: rest)
  rcases numberPiece_forms h with ⟨after, hafter, -, rfl⟩ | ⟨-, rfl⟩
  · refine ⟨.plain rfl (by simp) ?_, ?_⟩
    · intro c' hc'
      rw [List.mem_append, List.mem_cons] at hc'
      rcases hc' with hc' | rfl | hc'
      · exact hwhole c' hc'
      · rfl
      · exact isLineBreak_eq_false_of_isIdentRest (isIdentRest_of_isDigit (of_mem_takeWhile hc'))
    · rw [List.append_assoc, List.cons_append, List.takeWhile_append_dropWhile, ← hafter, hparts]
  · exact ⟨.plain rfl hne hwhole, hparts⟩

theorem innerStretch_wordPiece (hstart : isIdentStart c = true) :
    InnerStretch mode (wordPiece mode (c :: rest)) ∧
      (wordPiece mode (c :: rest)).read ++ (wordPiece mode (c :: rest)).rest = c :: rest := by
  have hread : ∀ c' ∈ (c :: rest).takeWhile isIdentRest, isLineBreak c' = false :=
    fun c' hc' => isLineBreak_eq_false_of_isIdentRest (of_mem_takeWhile hc')
  have hne : (c :: rest).takeWhile isIdentRest ≠ [] := by
    simp [isIdentRest_of_isIdentStart hstart]
  refine ⟨?_, List.takeWhile_append_dropWhile⟩
  unfold wordPiece
  dsimp only
  split
  · exact .plain rfl hne hread
  · exact .plain rfl hne hread

/-- Marks are plain tokens of one character or of two, the second an equals sign. -/
theorem isPlain_of_mark? {next : Option Char} {kind : TokenKind} {wide : Bool}
    (h : mark? c next = some (kind, wide)) :
    kind.isPlain = true ∧ (wide = true → next = some '=') := by
  unfold mark? at h
  by_cases hnext : next = some '='
  · simp only [hnext, if_true] at h
    split at h <;> cases h <;> exact ⟨rfl, fun _ => hnext⟩
  · simp only [hnext, if_false] at h
    split at h <;> cases h <;> exact ⟨rfl, nofun⟩

theorem innerStretch_of_markPiece (hbreak : isLineBreak c = false)
    (h : markPiece mode pos c rest = .ok p) :
    InnerStretch mode p ∧ p.read ++ p.rest = c :: rest := by
  obtain ⟨kind, ⟨hmark, rfl⟩ | ⟨hmark, rfl⟩⟩ := markPiece_forms h
  · obtain ⟨hkind, hwide⟩ := isPlain_of_mark? hmark
    obtain ⟨rest, rfl⟩ := List.head?_eq_some_iff.mp (hwide rfl)
    refine ⟨.plain hkind (by simp) fun c' hc' => ?_, rfl⟩
    have hc' : c' = c ∨ c' = '=' := by simpa using hc'
    rcases hc' with rfl | rfl
    · exact hbreak
    · rfl
  · exact ⟨.plain (isPlain_of_mark? hmark).1 (by simp) (by simp [hbreak]), rfl⟩

/-- A piece inside a block is a stretch of the input that counts its own lines. -/
theorem innerStretch_of_innerPiece (h : innerPiece mode pos c rest = .ok p) :
    InnerStretch mode p ∧ p.read ++ p.rest = c :: rest := by
  have hending : ∀ cs, lineBreak (lineBreak cs ++ cs.drop (lineBreak cs).length) =
      lineBreak cs := fun cs => by rw [lineBreak_append_drop]
  cases innerForm_of_eq h with
  | lineBreak hbreak =>
    have hne : lineBreak (c :: rest) ≠ [] :=
      List.ne_nil_of_length_pos (length_lineBreak_pos hbreak rest)
    exact ⟨.newline hne (hending _), lineBreak_append_drop _⟩
  | blank hblank => exact ⟨.blank hblank, rfl⟩
  | lineComment after =>
    refine ⟨.lineComment (fun c' hc' => ?_) (hending _), ?_⟩
    · simpa using of_mem_takeWhile hc'
    · simp [lineCommentPiece, lineBreak_append_drop]
  | blockComment after =>
    refine ⟨.blockComment (blockCommentFrom_ends [] after), ?_⟩
    simp [blockCommentPiece, blockCommentFrom_fst_append_snd]
  | quoted hquoted =>
    obtain ⟨raw, after, hraw, rfl⟩ := quotedPiece_forms hquoted
    refine ⟨.quoted, ?_⟩
    simpa using append_of_quotedFrom hraw
  | number hdigit hnumber => exact innerStretch_of_numberPiece hdigit hnumber
  | word hstart => exact innerStretch_wordPiece hstart
  | mark hbreak hmark => exact innerStretch_of_markPiece hbreak hmark

theorem stretch_of_codePiece (h : codePiece d mode pos c rest = .ok p) :
    (InnerStretch mode p ∨ ClosingStretch d mode p) ∧ p.read ++ p.rest = c :: rest := by
  rcases codePiece_forms h with ⟨after, rfl, rfl, rfl⟩ | ⟨after, rfl, rfl, rfl, rfl⟩ | hinner
  · refine ⟨Or.inr (.codeClose ?_), ?_⟩
    · rw [lineBreak_append_drop]
    · simp [codeClosePiece, lineBreak_append_drop]
  · exact ⟨Or.inr .refClose, rfl⟩
  · obtain ⟨hstretch, hread⟩ := innerStretch_of_innerPiece hinner
    exact ⟨Or.inl hstretch, hread⟩

def Stretch (d : Delimiters) : Mode → Piece → Prop
  | .text, p => OuterStretch d p
  | mode, p => InnerStretch mode p ∨ ClosingStretch d mode p

theorem Stretch.inner_or_closing (h : Stretch d mode p) (hmode : mode ≠ .text) :
    InnerStretch mode p ∨ ClosingStretch d mode p := by
  cases mode with
  | text => exact absurd rfl hmode
  | code => exact h
  | reference => exact h

/-- A piece and what it leaves are the input again. -/
theorem stretch_of_piece (h : piece d mode pos c rest = .ok p) :
    Stretch d mode p ∧ p.read ++ p.rest = c :: rest := by
  cases mode with
  | text =>
    obtain rfl : textPiece d (c :: rest) = p := Except.ok.inj h
    exact outerStretch_of_textPiece (List.cons_ne_nil c rest)
  | code => exact stretch_of_codePiece h
  | reference => exact stretch_of_codePiece h

/-! Whole inputs. -/

/-- The input is cut into pieces. Each is the one that the lexer reads at the head of what
the pieces before it leave, and the last one leaves nothing outside of a block. -/
inductive Cut (d : Delimiters) : Mode → List Char → List Piece → Prop
  | nil : Cut d .text [] []
  | cons {mode : Mode} {c : Char} {rest : List Char} {p : Piece} {pieces : List Piece}
    (h : ∀ pos, piece d mode pos c rest = .ok p) (hrest : Cut d p.mode p.rest pieces) :
    Cut d mode (c :: rest) (p :: pieces)

def tokensOf (pos : Position) : List Piece → List Token
  | [] => []
  | p :: pieces =>
    (p.token.map fun kind => ⟨kind, pos⟩).toList ++ tokensOf (advance pos p.read p.lines) pieces

def positionAfter (pos : Position) (pieces : List Piece) : Position :=
  pieces.foldl (fun pos p => advance pos p.read p.lines) pos

theorem tokensOf_append (pos : Position) (pieces pieces' : List Piece) :
    tokensOf pos (pieces ++ pieces') =
      tokensOf pos pieces ++ tokensOf (positionAfter pos pieces) pieces' := by
  induction pieces generalizing pos with
  | nil => rfl
  | cons p pieces ih =>
    rw [List.cons_append, tokensOf, tokensOf, ih, List.append_assoc]
    rfl

/-- Offsets count the bytes of the pieces before. -/
theorem offset_positionAfter (pos : Position) (pieces : List Piece) :
    (positionAfter pos pieces).offset = pos.offset + utf8Length (pieces.flatMap Piece.read) := by
  induction pieces generalizing pos with
  | nil => rfl
  | cons p pieces ih =>
    have hrest : positionAfter pos (p :: pieces) =
        positionAfter (advance pos p.read p.lines) pieces := rfl
    rw [hrest, ih, List.flatMap_cons, utf8Length_append, advance, Nat.add_assoc]

/-- A token stands behind the pieces before its own. -/
theorem exists_piece_of_mem_tokensOf {t : Token} (h : t ∈ tokensOf pos pieces) :
    ∃ before p after, pieces = before ++ p :: after ∧ p.token = some t.kind ∧
      t.pos = positionAfter pos before := by
  induction pieces generalizing pos with
  | nil => cases h
  | cons p pieces ih =>
    rw [tokensOf, List.mem_append] at h
    rcases h with h | h
    · obtain ⟨kind, htoken, rfl⟩ := Option.map_eq_some_iff.mp (Option.mem_toList.mp h)
      exact ⟨[], p, pieces, rfl, htoken, rfl⟩
    · obtain ⟨before, p', after, rfl, htoken, hpos⟩ := ih h
      exact ⟨p :: before, p', after, rfl, htoken, hpos⟩

/-- The tokens are those of a division of the input into pieces. Nothing is open at the end, or
the lexer would have complained. -/
theorem exists_cut_of_tokensFrom {steps : Nat} {tokens all : List Token}
    (h : tokensFrom d steps mode pos tokens cs = .ok all) (hsteps : cs.length ≤ steps) :
    ∃ pieces, Cut d mode cs pieces ∧ all = tokens.reverse ++ tokensOf pos pieces := by
  induction steps generalizing mode pos tokens cs with
  | zero =>
    obtain rfl : cs = [] := List.eq_nil_of_length_eq_zero (Nat.le_zero.mp hsteps)
    obtain ⟨rfl, rfl⟩ := finish_eq_ok_iff.mp h
    exact ⟨[], .nil, (List.append_nil _).symm⟩
  | succ steps ih =>
    cases cs with
    | nil =>
      obtain ⟨rfl, rfl⟩ := finish_eq_ok_iff.mp h
      exact ⟨[], .nil, (List.append_nil _).symm⟩
    | cons c rest =>
      unfold tokensFrom at h
      cases hpiece : piece d mode pos c rest with
      | error fault =>
        rw [hpiece] at h
        cases h
      | ok p =>
        have hrest := (piece_suffix hpiece).length_le
        rw [List.length_cons] at hsteps
        simp only [hpiece] at h
        obtain ⟨pieces, hcut, hall⟩ := ih h (by omega)
        refine ⟨p :: pieces, .cons (piece_of_piece hpiece) hcut, hall.trans ?_⟩
        cases htoken : p.token with
        | none => simp [tokensOf, htoken]
        | some kind => simp [tokensOf, htoken]

/-- The number of steps does not matter as long as there is one for each character. -/
theorem tokensFrom_eq_of_le {steps steps' : Nat} {tokens : List Token} (hsteps : cs.length ≤ steps)
    (hsteps' : cs.length ≤ steps') :
    tokensFrom d steps mode pos tokens cs = tokensFrom d steps' mode pos tokens cs := by
  induction steps generalizing steps' mode pos tokens cs with
  | zero =>
    obtain rfl : cs = [] := List.eq_nil_of_length_eq_zero (Nat.le_zero.mp hsteps)
    rw [tokensFrom_nil, tokensFrom_nil]
  | succ steps ih =>
    cases cs with
    | nil => rw [tokensFrom_nil, tokensFrom_nil]
    | cons c rest =>
      obtain ⟨steps', rfl⟩ : ∃ n, steps' = n + 1 := ⟨steps' - 1, by simp at hsteps'; omega⟩
      rw [List.length_cons, Nat.succ_le_succ_iff] at hsteps hsteps'
      rw [tokensFrom, tokensFrom]
      cases hpiece : piece d mode pos c rest with
      | error fault => rfl
      | ok p =>
        have hrest := (piece_suffix hpiece).length_le
        dsimp only
        apply ih
        · omega
        · omega

/-- The tokens of a template are those of its pieces. -/
theorem exists_cut {source : String} {tokens : List Token}
    (h : tokenizeWith d source = .ok tokens) :
    ∃ pieces, Cut d .text source.toList pieces ∧ tokens = tokensOf .start pieces :=
  exists_cut_of_tokensFrom h (Nat.le_refl _)

namespace Cut

theorem head (h : Cut d mode cs (p :: pieces)) :
    Stretch d mode p ∧ cs = p.read ++ p.rest ∧ Cut d p.mode p.rest pieces := by
  cases h with
  | @cons _ c rest _ _ hpiece hrest =>
    obtain ⟨hstretch, hread⟩ := stretch_of_piece (hpiece .start)
    exact ⟨hstretch, hread.symm, hrest⟩

/-- The stretches put together are the input. -/
theorem flatMap_read (h : Cut d mode cs pieces) : pieces.flatMap Piece.read = cs := by
  induction pieces generalizing mode cs with
  | nil =>
    cases h
    rfl
  | cons p pieces ih =>
    obtain ⟨-, hread, hrest⟩ := h.head
    rw [List.flatMap_cons, ih hrest, hread]

end Cut

end Lexer

end Stencil
