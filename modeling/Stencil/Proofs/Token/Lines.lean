import Stencil.Proofs.Token.Cut

/-!
The line of a token against the line breaks before it. Each stretch of a template counts
its own line breaks, and a break of two characters never lies across two stretches, so the
counts add up. Two kinds of stretches do not count all they have: a comment in stars
leaves out a return without its newline, and a string literal leaves out that and a
newline behind a backslash. The line of a token is short by what was left out before it.
-/

namespace Stencil

namespace Lexer

variable {mode : Mode} {c : Char} {cs cs' rest body raw : List Char} {p : Piece}
  {pieces : List Piece}

/-- Line breaks of every form. One of two characters is counted at its second. -/
def lineBreaks : List Char → Nat
  | [] => 0
  | c :: rest =>
    (if c = '\n' ∨ c = '\r' ∧ rest.head? ≠ some '\n' then 1 else 0) + lineBreaks rest

def bareReturns : List Char → Nat
  | [] => 0
  | c :: rest => (if c = '\r' ∧ rest.head? ≠ some '\n' then 1 else 0) + bareReturns rest

def escapedNewlines : List Char → Nat
  | [] => 0
  | '\\' :: c :: rest => (if c = '\n' then 1 else 0) + escapedNewlines rest
  | _ :: rest => escapedNewlines rest

/-- The line breaks of a piece that are not counted in it. -/
def Piece.missed (p : Piece) : Nat :=
  match p.token, p.read with
  | some (.str _), read => bareReturns read + escapedNewlines read
  | some .newline, '/' :: '*' :: body => bareReturns body
  | _, _ => 0

def missedIn : List Piece → Nat
  | [] => 0
  | p :: pieces => p.missed + missedIn pieces

/-- Line breaks are newlines, and returns that no newline follows. -/
theorem lineBreaks_eq (cs : List Char) : lineBreaks cs = cs.count '\n' + bareReturns cs := by
  induction cs with
  | nil => rfl
  | cons c cs ih =>
    rw [lineBreaks, bareReturns, ih, List.count_cons]
    by_cases hnewline : c = '\n'
    · subst hnewline
      simp
      omega
    · simp [hnewline]
      omega

theorem lineBreaks_eq_zero (h : ∀ c ∈ cs, isLineBreak c = false) : lineBreaks cs = 0 := by
  induction cs with
  | nil => rfl
  | cons c cs ih =>
    have hc : c ≠ '\n' ∧ c ≠ '\r' := by simpa [isLineBreak] using h c List.mem_cons_self
    have hcs : lineBreaks cs = 0 := ih fun c' hc' => h c' (List.mem_cons_of_mem c hc')
    simp [lineBreaks, hc, hcs]

/-- The breaks of two stretches add up unless one of two characters lies across them. -/
theorem lineBreaks_append (h : cs.getLast? ≠ some '\r' ∨ cs'.head? ≠ some '\n') :
    lineBreaks (cs ++ cs') = lineBreaks cs + lineBreaks cs' := by
  induction cs with
  | nil => simp [lineBreaks]
  | cons c cs ih =>
    cases cs with
    | nil =>
      rcases h with hlast | hhead
      · have hc : c ≠ '\r' := by simpa using hlast
        simp [lineBreaks, hc]
      · simp [lineBreaks, hhead]
    | cons c' cs =>
      rw [List.getLast?_cons_cons] at h
      have hcons : ∀ rest, lineBreaks (c :: c' :: rest) =
          (if c = '\n' ∨ c = '\r' ∧ some c' ≠ some '\n' then 1 else 0) +
            lineBreaks (c' :: rest) := fun _ => rfl
      rw [List.cons_append] at ih ⊢
      rw [List.cons_append, hcons, hcons, ih h, Nat.add_assoc]

theorem lineBreaksFrom_eq (count : Nat) (cs : List Char) :
    lineBreaksFrom count cs = count + lineBreaks cs := by
  fun_induction lineBreaksFrom count cs with
  | case1 count => rfl
  | case2 count rest ih =>
    rw [ih]
    simp [lineBreaks]
    omega
  | case3 count rest hne ih =>
    have hhead : rest.head? ≠ some '\n' := by
      rw [Ne, List.head?_eq_some_iff]
      rintro ⟨rest', rfl⟩
      exact hne rest' rfl
    rw [ih]
    simp [lineBreaks, hhead]
    omega
  | case4 count rest ih =>
    rw [ih]
    simp [lineBreaks]
    omega
  | case5 count c rest hpair hreturn hnewline ih =>
    have hc : c ≠ '\n' ∧ c ≠ '\r' := ⟨hnewline, hreturn⟩
    rw [ih]
    simp [lineBreaks, hc]

/-- A newline in a literal is plain or escaped. -/
theorem count_newline_eq (raw : List Char) :
    raw.count '\n' = plainNewlines raw + escapedNewlines raw := by
  fun_induction plainNewlines raw with
  | case1 => rfl
  | case2 c rest ih =>
    simp [escapedNewlines, List.count_cons, ih]
    omega
  | case3 rest ih =>
    simp [escapedNewlines, ih]
    omega
  | case4 c rest hescape hnewline ih =>
    have hrest : escapedNewlines (c :: rest) = escapedNewlines rest := by
      rw [escapedNewlines]
      exact hescape
    have hc : c ≠ '\n' := hnewline
    simp [hrest, hc, ih]

theorem escapedNewlines_append_quote (raw : List Char) :
    escapedNewlines (raw ++ ['"']) = escapedNewlines raw := by
  fun_induction escapedNewlines raw with
  | case1 => rfl
  | case2 c rest ih => simp [escapedNewlines, ih]
  | case3 c rest hescape ih =>
    cases rest with
    | nil =>
      by_cases hc : c = '\\'
      · simp [escapedNewlines, hc]
      · simp [escapedNewlines, hc]
    | cons c' rest =>
      have hc : c ≠ '\\' := fun hc => hescape c' rest hc rfl
      rw [List.cons_append] at ih
      simp [escapedNewlines, hc, ih]

/-- A line break at the head of the input is one break, and nothing behind it belongs
to it. -/
theorem lineBreaks_of_lineBreak {ending : List Char} (h : lineBreak (ending ++ rest) = ending) :
    lineBreaks ending = (if ending.isEmpty then 0 else 1) ∧
      (ending.getLast? ≠ some '\r' ∨ rest.head? ≠ some '\n') := by
  have hmem : ending ∈ [[], ['\n'], ['\r'], ['\r', '\n']] := by
    rw [← h]
    exact lineBreak_mem _
  simp only [List.mem_cons, List.not_mem_nil, or_false] at hmem
  rcases hmem with rfl | rfl | rfl | rfl
  · exact ⟨rfl, Or.inl (by simp)⟩
  · exact ⟨rfl, Or.inl (by simp)⟩
  · refine ⟨rfl, Or.inr ?_⟩
    rw [Ne, List.head?_eq_some_iff]
    rintro ⟨rest, rfl⟩
    cases h
  · exact ⟨rfl, Or.inl (by simp)⟩

theorem getLast?_ne_return (h : ∀ c ∈ cs, isLineBreak c = false) : cs.getLast? ≠ some '\r' := by
  intro hlast
  have hreturn := h '\r' (List.mem_of_getLast? hlast)
  cases hreturn

theorem Piece.missed_eq_zero (hstr : ∀ content, p.token ≠ some (.str content))
    (hcomment : p.token = some .newline → ∀ body, p.read ≠ '/' :: '*' :: body) :
    p.missed = 0 := by
  unfold missed
  split
  · next htoken => exact absurd htoken (hstr _)
  · next body htoken hread => exact absurd hread (hcomment htoken body)
  · rfl

/-- The piece counts its line breaks but for those it misses, and none is cut at its end. -/
structure CountsLines (p : Piece) : Prop where
  breaks : lineBreaks p.read = p.lines + p.missed
  seam : p.read.getLast? ≠ some '\r' ∨ p.rest.head? ≠ some '\n'

theorem InnerStretch.countsLines (h : InnerStretch mode p) : CountsLines p := by
  cases h with
  | newline hne hending =>
    obtain ⟨hbreaks, hseam⟩ := lineBreaks_of_lineBreak hending
    refine ⟨?_, hseam⟩
    rw [Piece.missed_eq_zero (by simp), hbreaks]
    · simp [hne]
    · rintro - body rfl
      cases hending
  | @blank c rest hblank =>
    have hc : c ≠ '\n' ∧ c ≠ '\r' := by
      constructor
      · rintro rfl
        cases hblank
      · rintro rfl
        cases hblank
    refine ⟨?_, Or.inl (by simpa using hc.2)⟩
    simp [lineBreaks, hc, Piece.missed]
  | @lineComment body ending rest hbody hending =>
    obtain ⟨hbreaks, hseam⟩ := lineBreaks_of_lineBreak hending
    have hread : ∀ c ∈ '/' :: '/' :: body, isLineBreak c = false := by
      simpa [isLineBreak] using hbody
    have hlast := getLast?_ne_return hread
    refine ⟨?_, ?_⟩
    · dsimp only
      rw [lineBreaks_append (Or.inl hlast), lineBreaks_eq_zero hread, hbreaks,
        Piece.missed_eq_zero (by simp) (by simp), Nat.zero_add, Nat.add_zero]
    · dsimp only
      by_cases hne : ending = []
      · rw [hne, List.append_nil]
        exact Or.inl hlast
      · rwa [List.getLast?_append_of_ne_nil _ hne]
  | @blockComment body rest hend =>
    refine ⟨?_, ?_⟩
    · simp [lineBreaks_eq, bareReturns, Piece.missed]
    · rcases hend with hend | hend
      · exact Or.inr (by simp [hend])
      · refine Or.inl ?_
        simp [List.getLast?_cons, hend]
  | @quoted raw rest =>
    have hquote : ('"' :: raw ++ ['"']).getLast? ≠ some '\r' := by
      rw [List.getLast?_append_of_ne_nil _ (by simp), List.getLast?_singleton]
      decide
    refine ⟨?_, Or.inl hquote⟩
    have hcount := count_newline_eq raw
    have hescaped : escapedNewlines ('"' :: raw ++ ['"']) = escapedNewlines raw := by
      simp [escapedNewlines, escapedNewlines_append_quote]
    simp only [lineBreaks_eq, Piece.missed, hescaped]
    simp
    omega
  | plain hkind hne hread =>
    refine ⟨?_, Or.inl (getLast?_ne_return hread)⟩
    rw [Piece.missed_eq_zero ?_ ?_, lineBreaks_eq_zero hread]
    · rintro content ⟨⟩
      cases hkind
    · rintro ⟨⟩
      cases hkind

theorem ClosingStretch.countsLines (h : ClosingStretch .standard mode p) : CountsLines p := by
  cases h with
  | @codeClose _ ending rest hending =>
    obtain ⟨hbreaks, hseam⟩ := lineBreaks_of_lineBreak hending
    refine ⟨?_, ?_⟩
    · simp [lineBreaks, hbreaks, Piece.missed]
    · by_cases hne : ending = []
      · exact Or.inl (by simp [hne])
      · have hlast : ('@' :: '\x7d' :: ending).getLast? = ending.getLast? :=
          List.getLast?_append_of_ne_nil ['@', '\x7d'] hne
        rwa [hlast]
  | refClose => exact ⟨rfl, Or.inl (by simp [Delimiters.standard])⟩

theorem OuterStretch.countsLines (h : OuterStretch .standard p) : CountsLines p := by
  cases h with
  | codeOpen => exact ⟨rfl, Or.inl (by simp)⟩
  | refOpen => exact ⟨rfl, Or.inl (by simp [Delimiters.standard])⟩
  | @text content rest hne hrest hcontent =>
    refine ⟨?_, Or.inr ?_⟩
    · rw [Piece.missed_eq_zero (by simp) (by simp), lineBreaksFrom_eq, Nat.zero_add]
      rfl
    · rcases hrest with rfl | hopens
      · simp
      · rw [Ne, List.head?_eq_some_iff]
        rintro ⟨rest', rfl⟩
        rw [opens, heads_eq_false_of_ne (by decide), heads_eq_false_of_ne (by decide)] at hopens
        cases hopens

/-- The lexer counts the line breaks of a piece but those that are missed. -/
theorem Stretch.countsLines (h : Stretch .standard mode p) : CountsLines p := by
  cases mode with
  | text => exact OuterStretch.countsLines h
  | code => exact h.elim InnerStretch.countsLines ClosingStretch.countsLines
  | reference => exact h.elim InnerStretch.countsLines ClosingStretch.countsLines

/-- Over all pieces up to a place the counts add up. -/
theorem Cut.line_positionAfter {before after : List Piece}
    (h : Cut .standard mode cs (before ++ after)) (pos : Position) :
    (positionAfter pos before).line + missedIn before =
      pos.line + lineBreaks (before.flatMap Piece.read) := by
  induction before generalizing mode cs pos with
  | nil => rfl
  | cons p before ih =>
    obtain ⟨hstretch, -, hrest⟩ := h.head
    obtain ⟨hbreaks, hseam⟩ := hstretch.countsLines
    have hnext := ih hrest (advance pos p.read p.lines)
    have hcut : p.read.getLast? ≠ some '\r' ∨
        (before.flatMap Piece.read).head? ≠ some '\n' := by
      refine hseam.imp_right fun hhead hbefore => hhead ?_
      have hrest : (before ++ after).flatMap Piece.read = p.rest := hrest.flatMap_read
      rw [← hrest, List.flatMap_append, List.head?_append, hbefore]
      rfl
    have hline : (positionAfter pos (p :: before)).line =
        (positionAfter (advance pos p.read p.lines) before).line := rfl
    rw [hline, missedIn, List.flatMap_cons, lineBreaks_append hcut, hbreaks]
    have hadvance : (advance pos p.read p.lines).line = pos.line + p.lines := rfl
    omega

end Lexer

open Lexer

/-- The line of a token is one more than the number of line breaks before it, less those
that the pieces before it miss. -/
theorem tokenize_line {source : String} {tokens : List Token} (h : tokenize source = .ok tokens)
    {t : Token} (ht : t ∈ tokens) :
    ∃ before p after, Cut .standard .text source.toList (before ++ p :: after) ∧
      p.token = some t.kind ∧ t.pos.offset = utf8Length (before.flatMap Piece.read) ∧
      t.pos.line + missedIn before = 1 + lineBreaks (before.flatMap Piece.read) := by
  obtain ⟨pieces, hcut, rfl⟩ := exists_cut h
  obtain ⟨before, p, after, rfl, htoken, hpos⟩ := exists_piece_of_mem_tokensOf ht
  have hoffset := offset_positionAfter .start before
  have hline := hcut.line_positionAfter .start
  rw [← hpos] at hoffset hline
  exact ⟨before, p, after, hcut, htoken, hoffset.trans (Nat.zero_add _), hline⟩

/-! A return in a comment, a return in a literal and a newline behind a backslash. -/

namespace Slips

def source : String := "\x7b@ /*\r*/ \"\r\" \"\\\n\" x @\x7d"

def tokens : List Token :=
  [⟨.codeOpen, ⟨0, 1⟩⟩, ⟨.newline, ⟨3, 1⟩⟩, ⟨.str "\r", ⟨9, 1⟩⟩, ⟨.str "\\\n", ⟨13, 1⟩⟩,
    ⟨.ident "x", ⟨18, 1⟩⟩, ⟨.codeClose, ⟨20, 1⟩⟩]

theorem tokenize_source : tokenize source = .ok tokens :=
  tokenize_eq_ok (by decide +kernel)

/-- What is missed before the name makes up for its line. -/
theorem line_of_name : tokenize source = .ok tokens ∧ ⟨.ident "x", ⟨18, 1⟩⟩ ∈ tokens ∧
    ∃ before p after, Cut .standard .text source.toList (before ++ p :: after) ∧
      p.token = some (.ident "x") ∧ 18 = utf8Length (before.flatMap Piece.read) ∧
      1 + missedIn before = 1 + lineBreaks (before.flatMap Piece.read) :=
  ⟨tokenize_source, by decide, tokenize_line tokenize_source (t := ⟨.ident "x", ⟨18, 1⟩⟩)
    (by decide)⟩

/-- The name stands on the fourth line and is said to be on the first. -/
theorem not_lines_right : ¬∀ (source : String) (tokens : List Token),
    tokenize source = .ok tokens → ∀ t ∈ tokens, ∀ before after : String,
      source = before ++ after → before.utf8ByteSize = t.pos.offset →
        t.pos.line = 1 + lineBreaks before.toList := by
  intro hlines
  have hline := hlines source tokens tokenize_source ⟨.ident "x", ⟨18, 1⟩⟩ (by decide)
    "\x7b@ /*\r*/ \"\r\" \"\\\n\" " "x @\x7d" (by decide) (by decide)
  exact absurd hline (by decide)

end Slips

end Stencil
