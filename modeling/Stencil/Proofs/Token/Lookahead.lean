import Mathlib.Data.List.Basic
import Stencil.Proofs.Token.Lexing

/-!
What a piece sees of the input behind it. A piece that leaves something is the same
when there is more input after that, and so is a closer, unless a line break comes
next, which the closer of a code block takes along. A piece is the same wherever it
stands.
-/

namespace Stencil.Lexer

/-- The input does not begin with a line break. -/
def Flush (cs : List Char) : Prop := ∀ c ∈ cs.head?, isLineBreak c = false

section Append

variable {c : Char} {cs rest more : List Char}

theorem lineBreak_cons (c : Char) (cs : List Char) : lineBreak (c :: cs) =
    if c = '\r' then if cs.head? = some '\n' then ['\r', '\n'] else ['\r']
    else if c = '\n' then ['\n'] else [] := by
  by_cases hreturn : c = '\r'
  · subst hreturn
    cases cs with
    | nil => rfl
    | cons c' cs =>
      by_cases hnewline : c' = '\n'
      · subst hnewline
        rfl
      · simp [lineBreak, hnewline]
  · by_cases hnewline : c = '\n'
    · subst hnewline
      rfl
    · simp [lineBreak, hreturn, hnewline]

theorem Flush.head?_ne (h : Flush more) : more.head? ≠ some '\n' :=
  fun hhead => absurd (h '\n' hhead) (by decide)

theorem Flush.lineBreak_eq_nil (h : Flush more) : lineBreak more = [] := by
  cases more with
  | nil => rfl
  | cons c more =>
    have hc := h c rfl
    simp only [isLineBreak, Bool.or_eq_false_iff, decide_eq_false_iff_not] at hc
    rw [lineBreak_cons, if_neg hc.2, if_neg hc.1]

theorem lineBreak_append (h : Flush more) : lineBreak (cs ++ more) = lineBreak cs := by
  cases cs with
  | nil => exact h.lineBreak_eq_nil
  | cons c cs =>
    have hhead : (cs ++ more).head? = some '\n' ↔ cs.head? = some '\n' := by
      cases cs with
      | nil => simp [h.head?_ne]
      | cons c' cs => rfl
    simp only [List.cons_append, lineBreak_cons, hhead]

theorem length_lineBreak_pos (h : isLineBreak c = true) (cs : List Char) :
    0 < (lineBreak (c :: cs)).length := by
  rw [isLineBreak, Bool.or_eq_true, decide_eq_true_iff, decide_eq_true_iff] at h
  rw [lineBreak_cons]
  rcases h with rfl | rfl
  · rw [if_neg (by decide)]
    exact Nat.zero_lt_one
  · rw [if_pos rfl]
    split <;> simp

theorem length_lineBreak_le (cs : List Char) : (lineBreak cs).length ≤ cs.length := by
  unfold lineBreak
  split <;> simp

theorem drop_lineBreak_append : (cs ++ more).drop (lineBreak cs).length =
    cs.drop (lineBreak cs).length ++ more :=
  List.drop_append_of_le_length (length_lineBreak_le cs)

theorem takeWhile_append_of_rest {keep : Char → Bool} (h : more ≠ [] → cs.dropWhile keep ≠ []) :
    (cs ++ more).takeWhile keep = cs.takeWhile keep := by
  induction cs with
  | nil =>
    obtain rfl : more = [] := not_imp_not.mp h rfl
    rfl
  | cons c cs ih =>
    by_cases hkeep : keep c = true
    · rw [List.dropWhile_cons_of_pos hkeep] at h
      rw [List.cons_append, List.takeWhile_cons_of_pos hkeep, List.takeWhile_cons_of_pos hkeep,
        ih h]
    · rw [List.cons_append, List.takeWhile_cons_of_neg hkeep, List.takeWhile_cons_of_neg hkeep]

theorem dropWhile_append_of_rest {keep : Char → Bool} (h : more ≠ [] → cs.dropWhile keep ≠ []) :
    (cs ++ more).dropWhile keep = cs.dropWhile keep ++ more := by
  rw [List.dropWhile_append]
  split
  · next hempty =>
    obtain rfl : more = [] := not_imp_not.mp h (List.isEmpty_iff.mp hempty)
    rw [List.isEmpty_iff.mp hempty]
    rfl
  · rfl

theorem heads_append {marker : Marker} (h : more ≠ [] → rest ≠ []) :
    marker.heads (c :: (rest ++ more)) = marker.heads (c :: rest) := by
  cases rest with
  | cons c' rest => rfl
  | nil =>
    obtain rfl : more = [] := not_imp_not.mp h rfl
    rfl

theorem blockCommentFrom_append {read : List Char}
    (h : more ≠ [] → (blockCommentFrom read cs).2 ≠ []) :
    blockCommentFrom read (cs ++ more) =
      ((blockCommentFrom read cs).1, (blockCommentFrom read cs).2 ++ more) := by
  fun_induction blockCommentFrom read cs with
  | case1 read =>
    obtain rfl : more = [] := not_imp_not.mp h rfl
    rfl
  | case2 read rest => rfl
  | case3 read c rest hne ih =>
    have hnone : ∀ after, c = '*' → rest ++ more ≠ '/' :: after := by
      rintro after rfl hafter
      cases rest with
      | cons c' rest =>
        obtain ⟨rfl, -⟩ := List.cons.inj hafter
        exact hne rest rfl rfl
      | nil =>
        rw [List.nil_append] at hafter
        subst hafter
        exact h (List.cons_ne_nil _ _) rfl
    rw [List.cons_append, ← ih h, blockCommentFrom]
    exact hnone

theorem blockCommentFrom_suffix (read cs : List Char) : (blockCommentFrom read cs).2 <:+ cs := by
  fun_induction blockCommentFrom read cs with
  | case1 read => exact List.suffix_refl _
  | case2 read rest => exact ⟨['*', '/'], rfl⟩
  | case3 read c rest hne ih => exact ih.trans (List.suffix_cons c rest)

/-- A literal that is closed does not see what comes behind it. -/
theorem quotedFrom_append {read raw : List Char} (h : quotedFrom read cs = some (raw, rest)) :
    quotedFrom read (cs ++ more) = some (raw, rest ++ more) := by
  fun_induction quotedFrom read cs with
  | case1 read => cases h
  | case2 read rest' =>
    cases h
    rfl
  | case3 read c rest' ih => exact ih h
  | case4 read c rest' hquote hslash ih =>
    have hnone : ∀ c' after, c = '\\' → rest' ++ more ≠ c' :: after := by
      rintro c' after rfl hafter
      cases rest' with
      | cons c'' rest' => exact hslash c'' rest' rfl rfl
      | nil => cases h
    rw [List.cons_append, quotedFrom]
    · exact ih h
    · exact hquote
    · exact hnone

theorem quotedFrom_suffix {read raw : List Char} (h : quotedFrom read cs = some (raw, rest)) :
    rest <:+ cs := by
  fun_induction quotedFrom read cs with
  | case1 read => cases h
  | case2 read rest' =>
    cases h
    exact List.suffix_cons _ _
  | case3 read c rest' ih => exact (ih h).trans ⟨['\\', c], rfl⟩
  | case4 read c rest' hquote hslash ih => exact (ih h).trans (List.suffix_cons c rest')

end Append

section Piece

variable {d : Delimiters} {mode : Mode} {pos pos' : Position} {c : Char}
  {cs rest more : List Char} {p : Piece}

def Piece.extend (p : Piece) (more : List Char) : Piece := { p with rest := p.rest ++ more }

/-! What each reader can make of its input. -/

/-- A number has a point with a digit behind it, or is in the range of the integers. -/
theorem numberPiece_forms (h : numberPiece mode pos cs = .ok p) :
    (∃ after, cs.dropWhile Char.isDigit = '.' :: after ∧ after.takeWhile Char.isDigit ≠ [] ∧
      p = ⟨some (.float (Number.nearestDecimal false
          (Number.readDigits (cs.takeWhile Char.isDigit ++ after.takeWhile Char.isDigit))
          (-((after.takeWhile Char.isDigit).length : Int)))),
        cs.takeWhile Char.isDigit ++ '.' :: after.takeWhile Char.isDigit, 0,
        after.dropWhile Char.isDigit, mode⟩) ∨
    Number.readDigits (cs.takeWhile Char.isDigit) ≤ Number.greatestInt ∧
      p = ⟨some (.int (Int64.ofNat (Number.readDigits (cs.takeWhile Char.isDigit)))),
        cs.takeWhile Char.isDigit, 0, cs.dropWhile Char.isDigit, mode⟩ := by
  unfold numberPiece at h
  dsimp only at h
  split at h
  · next after hafter =>
    split at h
    · cases h
    · next hfraction =>
      cases h
      exact Or.inl ⟨after, hafter, fun hnil => hfraction (by rw [hnil]; rfl), rfl⟩
  · split at h
    · next hrange =>
      cases h
      exact Or.inr ⟨hrange, rfl⟩
    · cases h

theorem quotedPiece_forms (h : quotedPiece mode pos rest = .ok p) :
    ∃ raw after, quotedFrom [] rest = some (raw, after) ∧
      p = ⟨some (.str (String.ofList (unescape raw))), '"' :: raw ++ ['"'], plainNewlines raw,
        after, mode⟩ := by
  unfold quotedPiece at h
  split at h
  · next raw after hquoted =>
    cases h
    exact ⟨raw, after, hquoted, rfl⟩
  · cases h

/-- A mark takes the character after its own or leaves it. -/
theorem markPiece_forms (h : markPiece mode pos c rest = .ok p) :
    ∃ kind, mark? c rest.head? = some (kind, true) ∧
        p = ⟨some kind, c :: rest.take 1, 0, rest.drop 1, mode⟩ ∨
      mark? c rest.head? = some (kind, false) ∧ p = ⟨some kind, [c], 0, rest, mode⟩ := by
  unfold markPiece at h
  split at h
  · next kind hmark =>
    cases h
    exact ⟨kind, Or.inl ⟨hmark, rfl⟩⟩
  · next kind hmark =>
    cases h
    exact ⟨kind, Or.inr ⟨hmark, rfl⟩⟩
  · cases h

def innerPiece (mode : Mode) (pos : Position) (c : Char) (rest : List Char) :
    Except (LexFault × Position) Piece :=
  if isLineBreak c then
    let ending := lineBreak (c :: rest)
    .ok ⟨some .newline, ending, 1, (c :: rest).drop ending.length, mode⟩
  else if isCodeBlank c then .ok ⟨none, [c], 0, rest, mode⟩
  else if c = '/' && rest.head? = some '/' then .ok (lineCommentPiece mode (rest.drop 1))
  else if c = '/' && rest.head? = some '*' then .ok (blockCommentPiece mode (rest.drop 1))
  else if c = '"' then quotedPiece mode pos rest
  else if c.isDigit then numberPiece mode pos (c :: rest)
  else if isIdentStart c then .ok (wordPiece mode (c :: rest))
  else markPiece mode pos c rest

theorem codePiece_eq (d : Delimiters) (mode : Mode) (pos : Position) (c : Char)
    (rest : List Char) : codePiece d mode pos c rest =
      if c = '@' then
        if Marker.codeClose.heads (c :: rest) then .ok (codeClosePiece (rest.drop 1))
        else .error (.loneAt, pos)
      else if mode = .reference && d.refClose.heads (c :: rest) then
        .ok ⟨some .refClose, c :: rest.take 1, 0, rest.drop 1, .text⟩
      else innerPiece mode pos c rest := rfl

/-- The forms of what stands inside a block, each told by the character that it begins with
or by the two of a comment. -/
inductive InnerForm (mode : Mode) (pos : Position) :
    Char → List Char → Except (LexFault × Position) Piece → Prop
  | lineBreak {c : Char} {rest : List Char} (h : isLineBreak c = true) :
      InnerForm mode pos c rest (.ok ⟨some .newline, Lexer.lineBreak (c :: rest), 1,
        (c :: rest).drop (Lexer.lineBreak (c :: rest)).length, mode⟩)
  | blank {c : Char} {rest : List Char} (h : isCodeBlank c = true) :
      InnerForm mode pos c rest (.ok ⟨none, [c], 0, rest, mode⟩)
  | lineComment (after : List Char) :
      InnerForm mode pos '/' ('/' :: after) (.ok (lineCommentPiece mode after))
  | blockComment (after : List Char) :
      InnerForm mode pos '/' ('*' :: after) (.ok (blockCommentPiece mode after))
  | quoted {rest : List Char} {result : Except (LexFault × Position) Piece}
      (h : quotedPiece mode pos rest = result) : InnerForm mode pos '"' rest result
  | number {c : Char} {rest : List Char} {result : Except (LexFault × Position) Piece}
      (hdigit : c.isDigit = true) (h : numberPiece mode pos (c :: rest) = result) :
      InnerForm mode pos c rest result
  | word {c : Char} {rest : List Char} (hstart : isIdentStart c = true) :
      InnerForm mode pos c rest (.ok (wordPiece mode (c :: rest)))
  | mark {c : Char} {rest : List Char} {result : Except (LexFault × Position) Piece}
      (hbreak : isLineBreak c = false) (h : markPiece mode pos c rest = result) :
      InnerForm mode pos c rest result

theorem innerForm (mode : Mode) (pos : Position) (c : Char) (rest : List Char) :
    InnerForm mode pos c rest (innerPiece mode pos c rest) := by
  have hcomment : ∀ {next : Char}, (c = '/' && rest.head? = some next) = true →
      c = '/' ∧ ∃ after, rest = next :: after := by
    intro next h
    rw [Bool.and_eq_true, decide_eq_true_iff, decide_eq_true_iff] at h
    exact ⟨h.1, List.head?_eq_some_iff.mp h.2⟩
  unfold innerPiece
  split
  · next hbreak => exact .lineBreak hbreak
  next hbreak =>
  split
  · next hblank => exact .blank hblank
  split
  · next hline =>
    obtain ⟨rfl, after, rfl⟩ := hcomment hline
    exact .lineComment after
  split
  · next hstar =>
    obtain ⟨rfl, after, rfl⟩ := hcomment hstar
    exact .blockComment after
  split
  · next hquote =>
    subst hquote
    exact .quoted rfl
  split
  · next hdigit => exact .number hdigit rfl
  split
  · next hstart => exact .word hstart
  · exact .mark (Bool.eq_false_iff.mpr hbreak) rfl

theorem innerForm_of_eq {result : Except (LexFault × Position) Piece}
    (h : innerPiece mode pos c rest = result) : InnerForm mode pos c rest result :=
  h ▸ innerForm mode pos c rest

/-- A piece inside a block closes it or stands between opener and closer. -/
theorem codePiece_forms (h : codePiece d mode pos c rest = .ok p) :
    (∃ after, c = '@' ∧ rest = '\x7d' :: after ∧ p = codeClosePiece after) ∨
    (∃ after, mode = .reference ∧ c = d.refClose.first ∧ rest = d.refClose.second :: after ∧
      p = ⟨some .refClose, [d.refClose.first, d.refClose.second], 0, after, .text⟩) ∨
    innerPiece mode pos c rest = .ok p := by
  rw [codePiece_eq] at h
  split at h
  · split at h
    · next hclose =>
      cases h
      obtain ⟨after, hcs⟩ := (heads_iff _ _).mp hclose
      obtain ⟨rfl, rfl⟩ := List.cons.inj hcs
      exact Or.inl ⟨after, rfl, rfl, rfl⟩
    · cases h
  split at h
  · next hclose =>
    cases h
    rw [Bool.and_eq_true, decide_eq_true_iff] at hclose
    obtain ⟨rfl, hclose⟩ := hclose
    obtain ⟨after, hcs⟩ := (heads_iff _ _).mp hclose
    obtain ⟨rfl, rfl⟩ := List.cons.inj hcs
    exact Or.inr (Or.inl ⟨after, rfl, rfl, rfl, rfl⟩)
  · exact Or.inr (Or.inr h)

theorem isIdentRest_of_isIdentStart (h : isIdentStart c = true) : isIdentRest c = true := by
  rw [isIdentStart, Bool.or_eq_true] at h
  rw [isIdentRest, Bool.or_eq_true, Char.isAlphanum, Bool.or_eq_true]
  exact h.imp_left Or.inl

theorem numberPiece_suffix (hdigit : c.isDigit = true)
    (h : numberPiece mode pos (c :: rest) = .ok p) : p.rest <:+ rest := by
  have hwhole : (c :: rest).dropWhile Char.isDigit <:+ rest := by
    rw [List.dropWhile_cons_of_pos hdigit]
    exact List.dropWhile_suffix _
  rcases numberPiece_forms h with ⟨after, hafter, -, rfl⟩ | ⟨-, rfl⟩
  · rw [hafter] at hwhole
    exact (List.dropWhile_suffix _).trans ((List.suffix_cons _ after).trans hwhole)
  · exact hwhole

theorem innerPiece_suffix (h : innerPiece mode pos c rest = .ok p) : p.rest <:+ rest := by
  cases innerForm_of_eq h with
  | lineBreak hbreak =>
    obtain ⟨n, hn⟩ := Nat.exists_eq_succ_of_ne_zero (length_lineBreak_pos hbreak rest).ne'
    dsimp only
    rw [hn, List.drop_succ_cons]
    exact List.drop_suffix n rest
  | blank _ => exact List.suffix_refl rest
  | lineComment after =>
    have hcomment := List.dropWhile_suffix (!isLineBreak ·) (l := after)
    exact (List.drop_suffix _ _).trans (hcomment.trans (List.suffix_cons '/' after))
  | blockComment after => exact (blockCommentFrom_suffix _ _).trans (List.suffix_cons '*' after)
  | quoted hquoted =>
    obtain ⟨raw, after, hraw, rfl⟩ := quotedPiece_forms hquoted
    exact quotedFrom_suffix hraw
  | number hdigit hnumber => exact numberPiece_suffix hdigit hnumber
  | word hstart =>
    dsimp only [wordPiece]
    rw [List.dropWhile_cons_of_pos (isIdentRest_of_isIdentStart hstart)]
    exact List.dropWhile_suffix _
  | mark _ hmark =>
    obtain ⟨kind, ⟨-, rfl⟩ | ⟨-, rfl⟩⟩ := markPiece_forms hmark
    · exact List.drop_suffix 1 rest
    · exact List.suffix_refl rest

theorem codePiece_suffix (h : codePiece d mode pos c rest = .ok p) : p.rest <:+ rest := by
  rcases codePiece_forms h with ⟨after, -, rfl, rfl⟩ | ⟨after, -, -, rfl, rfl⟩ | hinner
  · exact (List.drop_suffix _ _).trans (List.suffix_cons _ after)
  · exact List.suffix_cons _ after
  · exact innerPiece_suffix hinner

theorem numberPiece_append (h : numberPiece mode pos cs = .ok p)
    (hseam : more ≠ [] → p.rest ≠ []) :
    numberPiece mode pos' (cs ++ more) = .ok (p.extend more) := by
  unfold numberPiece at h
  dsimp only at h
  split at h
  · next after hafter =>
    have hwhole : more ≠ [] → cs.dropWhile Char.isDigit ≠ [] := by
      rw [hafter]
      exact fun _ => List.cons_ne_nil _ _
    split at h
    · cases h
    · next hfraction =>
      cases h
      simp only [numberPiece, dropWhile_append_of_rest hwhole, takeWhile_append_of_rest hwhole,
        hafter, List.cons_append, takeWhile_append_of_rest hseam, dropWhile_append_of_rest hseam,
        hfraction, Piece.extend]
      rfl
  · next hpoint =>
    split at h
    · next hrange =>
      cases h
      simp only [numberPiece, dropWhile_append_of_rest hseam, takeWhile_append_of_rest hseam]
      split
      · next after hafter =>
        cases hrest : cs.dropWhile Char.isDigit with
        | nil => exact absurd hrest (hseam (by rintro rfl; simp [hrest] at hafter))
        | cons c' rest =>
          rw [hrest] at hafter
          obtain ⟨rfl, -⟩ := List.cons.inj hafter
          exact (hpoint rest hrest).elim
      · rw [if_pos hrange]
        rfl
    · cases h

theorem quotedPiece_append (h : quotedPiece mode pos rest = .ok p) :
    quotedPiece mode pos' (rest ++ more) = .ok (p.extend more) := by
  obtain ⟨raw, after, hquoted, rfl⟩ := quotedPiece_forms h
  simp only [quotedPiece, quotedFrom_append hquoted, Piece.extend]

theorem head?_append_of_rest (hrest : more ≠ [] → rest ≠ []) :
    (rest ++ more).head? = rest.head? := by
  cases rest with
  | nil =>
    obtain rfl : more = [] := not_imp_not.mp hrest rfl
    rfl
  | cons c rest => rfl

/-- A mark looks at one character behind its own. -/
theorem markPiece_append (h : markPiece mode pos c rest = .ok p) (hrest : more ≠ [] → rest ≠ []) :
    markPiece mode pos' c (rest ++ more) = .ok (p.extend more) := by
  unfold markPiece at h ⊢
  rw [head?_append_of_rest hrest]
  split at h
  · cases h
    cases rest with
    | nil =>
      obtain rfl : more = [] := not_imp_not.mp hrest rfl
      rfl
    | cons c rest => rfl
  · cases h
    rfl
  · cases h

theorem lineCommentPiece_append (hmore : Flush more)
    (hseam : more ≠ [] → (lineCommentPiece mode cs).rest ≠ []) :
    lineCommentPiece mode (cs ++ more) = (lineCommentPiece mode cs).extend more := by
  have hcomment : more ≠ [] → cs.dropWhile (!isLineBreak ·) ≠ [] := by
    intro hne hnil
    refine hseam hne ?_
    simp only [lineCommentPiece, hnil, List.drop_nil]
  simp only [lineCommentPiece, takeWhile_append_of_rest hcomment,
    dropWhile_append_of_rest hcomment, lineBreak_append hmore, drop_lineBreak_append,
    Piece.extend]

theorem wordPiece_append (hseam : more ≠ [] → (wordPiece mode cs).rest ≠ []) :
    wordPiece mode (cs ++ more) = (wordPiece mode cs).extend more := by
  simp only [wordPiece, takeWhile_append_of_rest hseam, dropWhile_append_of_rest hseam,
    Piece.extend]

theorem drop_one_append (hrest : more ≠ [] → rest ≠ []) :
    (rest ++ more).drop 1 = rest.drop 1 ++ more := by
  cases rest with
  | nil =>
    obtain rfl : more = [] := not_imp_not.mp hrest rfl
    rfl
  | cons c rest => rfl

theorem mode_of_innerPiece (h : innerPiece mode pos c rest = .ok p) : p.mode = mode := by
  cases innerForm_of_eq h with
  | quoted hquoted =>
    obtain ⟨raw, after, -, rfl⟩ := quotedPiece_forms hquoted
    rfl
  | number _ hnumber =>
    rcases numberPiece_forms hnumber with ⟨after, -, -, rfl⟩ | ⟨-, rfl⟩
    · rfl
    · rfl
  | mark _ hmark =>
    obtain ⟨kind, ⟨-, rfl⟩ | ⟨-, rfl⟩⟩ := markPiece_forms hmark
    · rfl
    · rfl
  | _ => rfl

/-- A piece that leaves something does not see what comes behind that. What may take more is
asked to leave something of the input itself. -/
theorem innerPiece_append (h : innerPiece mode pos c rest = .ok p) (hmore : Flush more)
    (hseam : more ≠ [] → p.rest ≠ []) :
    innerPiece mode pos' c (rest ++ more) = .ok (p.extend more) := by
  have hsuffix := innerPiece_suffix h
  have hrest : more ≠ [] → rest ≠ [] := by
    rintro hne rfl
    exact hseam hne (List.suffix_nil.mp hsuffix)
  unfold innerPiece at h ⊢
  rw [head?_append_of_rest hrest, drop_one_append hrest, ← List.cons_append,
    lineBreak_append hmore]
  split at h
  · next hbreak =>
    cases h
    rw [if_pos hbreak]
    simp only [drop_lineBreak_append, Piece.extend]
  next hbreak =>
  rw [if_neg hbreak]
  split at h
  · next hblank =>
    cases h
    rw [if_pos hblank]
    rfl
  next hblank =>
  rw [if_neg hblank]
  split at h
  · next hline =>
    cases h
    rw [if_pos hline, lineCommentPiece_append hmore hseam]
  next hline =>
  rw [if_neg hline]
  split at h
  · next hstar =>
    cases h
    rw [if_pos hstar]
    simp only [blockCommentPiece, blockCommentFrom_append hseam, Piece.extend]
  next hstar =>
  rw [if_neg hstar]
  split at h
  · next hquote =>
    rw [if_pos hquote]
    exact quotedPiece_append h
  next hquote =>
  rw [if_neg hquote]
  split at h
  · next hdigit =>
    rw [if_pos hdigit]
    exact numberPiece_append h hseam
  next hdigit =>
  rw [if_neg hdigit]
  split at h
  · next hstart =>
    cases h
    rw [if_pos hstart, wordPiece_append hseam]
  next hstart =>
  rw [if_neg hstart]
  exact markPiece_append h hrest

/-- Closers see nothing of what follows but a line break. -/
theorem codePiece_append (h : codePiece d mode pos c rest = .ok p) (hmore : Flush more)
    (hmode : mode ≠ .text) (hseam : more ≠ [] → p.mode = .text ∨ p.rest ≠ []) :
    codePiece d mode pos' c (rest ++ more) = .ok (p.extend more) := by
  rw [codePiece_eq] at h ⊢
  split at h
  · next hat =>
    rw [if_pos hat]
    split at h
    · next hclose =>
      cases h
      cases rest with
      | nil => cases hclose
      | cons c' rest =>
        rw [if_pos (show Marker.codeClose.heads (c :: (c' :: rest ++ more)) = true from hclose)]
        simp only [codeClosePiece, List.cons_append, List.drop_succ_cons, List.drop_zero,
          lineBreak_append hmore, drop_lineBreak_append, Piece.extend]
    · cases h
  next hat =>
  rw [if_neg hat]
  split at h
  · next hclose =>
    cases h
    cases rest with
    | nil => simp [Marker.heads] at hclose
    | cons c' rest =>
      rw [if_pos (show (mode = .reference && d.refClose.heads (c :: (c' :: rest ++ more))) = true
        from hclose)]
      rfl
  · next hclose =>
    have hinside : more ≠ [] → p.rest ≠ [] := by
      intro hne
      rcases hseam hne with hclosed | hleft
      · exact absurd ((mode_of_innerPiece h).symm.trans hclosed) hmode
      · exact hleft
    have hrest : more ≠ [] → rest ≠ [] := by
      rintro hne rfl
      exact hinside hne (List.suffix_nil.mp (innerPiece_suffix h))
    rw [heads_append hrest, if_neg hclose]
    exact innerPiece_append h hmore hinside

theorem Piece.extend_nil (p : Piece) : p.extend [] = p := by
  rw [extend, List.append_nil]

/-- A piece is the same wherever it stands. -/
theorem piece_of_piece (h : piece d mode pos c rest = .ok p) (pos' : Position) :
    piece d mode pos' c rest = .ok p := by
  have hcode : mode ≠ .text → codePiece d mode pos c rest = .ok p →
      codePiece d mode pos' c rest = .ok p := by
    intro hmode h
    have happend : codePiece d mode pos' c (rest ++ []) = .ok (p.extend []) :=
      codePiece_append h (by simp [Flush]) hmode fun hne => absurd rfl hne
    rwa [List.append_nil, p.extend_nil] at happend
  cases mode with
  | text => exact h
  | code => exact hcode (by decide) h
  | reference => exact hcode (by decide) h

end Piece

end Stencil.Lexer
