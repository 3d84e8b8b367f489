import Mathlib.Data.List.Infix
import Stencil.Token.Lexer

/-!
Lexing piece by piece. A stretch of the input is lexed into tokens of given kinds
when the lexer, started at its head in a given mode, comes to its end in another
mode with just these tokens added; where they stand is left open. Stretches that
follow each other are lexed one after the other, so the kinds of a whole template
are put together from those of its pieces.
-/

namespace Stencil

theorem tokenize_eq_ok {source : String} {tokens : List Token}
    (h : (tokenize source).toOption = some tokens) : tokenize source = .ok tokens := by
  cases hresult : tokenize source with
  | error d =>
    rw [hresult] at h
    cases h
  | ok found =>
    rw [hresult] at h
    exact congrArg Except.ok (Option.some.inj h)

namespace Lexer

section End

variable {mode : Mode} {pos : Position} {tokens all : List Token} {e : Diagnostic}

theorem finish_eq_ok_iff :
    finish mode pos tokens = .ok all ↔ mode = .text ∧ tokens.reverse = all := by
  unfold finish
  split
  · next hmode => simp [hmode]
  · next hmode => simp [hmode]

/-- The only complaint at the end of the input is about a block that is open there. -/
theorem finish_eq_error_iff :
    finish mode pos tokens = .error e ↔
      mode ≠ .text ∧ Diagnostic.ofLexFault .unclosedBlock pos = e := by
  unfold finish
  split
  · next hmode => simp [hmode]
  · next hmode => simp [hmode]

theorem tokensFrom_nil (d : Delimiters) (steps : Nat) (mode : Mode) (pos : Position)
    (tokens : List Token) : tokensFrom d steps mode pos tokens [] = finish mode pos tokens := by
  cases steps with
  | zero => rfl
  | succ steps => rfl

end End

/-- From the head of `cs` the lexer gets to `rest` and has found tokens of the
kinds. It has a step left for each character that is still to come. -/
def Lexes (d : Delimiters) (mode : Mode) (cs : List Char) (kinds : List TokenKind)
    (mode' : Mode) (rest : List Char) : Prop :=
  ∀ steps pos tokens, cs.length ≤ steps → ∃ steps' pos', ∃ found : List Token,
    rest.length ≤ steps' ∧ found.map Token.kind = kinds ∧
      tokensFrom d steps mode pos tokens cs =
        tokensFrom d steps' mode' pos' (found.reverse ++ tokens) rest

section Lexes

variable {d : Delimiters} {mode mode' mode'' : Mode} {cs cs' rest : List Char}
  {kinds kinds' : List TokenKind}

theorem Lexes.refl (d : Delimiters) (mode : Mode) (cs : List Char) :
    Lexes d mode cs [] mode cs := by
  intro steps pos tokens hsteps
  exact ⟨steps, pos, [], hsteps, rfl, rfl⟩

/-- What one part leaves, the next part may read. -/
theorem Lexes.trans (h : Lexes d mode cs kinds mode' cs')
    (h' : Lexes d mode' cs' kinds' mode'' rest) :
    Lexes d mode cs (kinds ++ kinds') mode'' rest := by
  intro steps pos tokens hsteps
  obtain ⟨steps₁, pos₁, found₁, hsteps₁, hkinds₁, heq₁⟩ := h steps pos tokens hsteps
  obtain ⟨steps₂, pos₂, found₂, hsteps₂, hkinds₂, heq₂⟩ :=
    h' steps₁ pos₁ (found₁.reverse ++ tokens) hsteps₁
  refine ⟨steps₂, pos₂, found₁ ++ found₂, hsteps₂, ?_, ?_⟩
  · rw [List.map_append, hkinds₁, hkinds₂]
  · rw [heq₁, heq₂, List.reverse_append, List.append_assoc]

/-- One piece at the head of the input. -/
theorem lexes_piece {c : Char} {p : Piece} (h : ∀ pos, piece d mode pos c rest = .ok p)
    (hrest : p.rest.length ≤ rest.length) :
    Lexes d mode (c :: rest) p.token.toList p.mode p.rest := by
  intro steps pos tokens hsteps
  obtain ⟨steps, rfl⟩ : ∃ n, steps = n + 1 := ⟨steps - 1, by simp at hsteps; omega⟩
  rw [List.length_cons] at hsteps
  cases htoken : p.token with
  | none =>
    refine ⟨steps, advance pos p.read p.lines, [], by omega, rfl, ?_⟩
    simp only [tokensFrom, h pos, htoken]
    rfl
  | some kind =>
    refine ⟨steps, advance pos p.read p.lines, [⟨kind, pos⟩], by omega, rfl, ?_⟩
    simp only [tokensFrom, h pos, htoken]
    rfl

/-- A whole template. -/
theorem exists_tokens_of_lexes (h : Lexes d .text cs kinds .text []) :
    ∃ tokens, tokensFrom d cs.length .text .start [] cs = .ok tokens ∧
      tokens.map Token.kind = kinds := by
  obtain ⟨steps, pos, found, -, hkinds, heq⟩ := h cs.length .start [] (Nat.le_refl _)
  refine ⟨found, ?_, hkinds⟩
  rw [heq, List.append_nil, tokensFrom_nil, finish_eq_ok_iff]
  exact ⟨rfl, List.reverse_reverse found⟩

end Lexes

/-! Text between blocks, with the standard delimiters. -/

structure IsLiteral (text : List Char) : Prop where
  code : ¬['\x7b', '@'] <:+: text
  reference : ¬['\x7b', ':'] <:+: text

instance (text : List Char) : Decidable (IsLiteral text) :=
  decidable_of_iff (¬['\x7b', '@'] <:+: text ∧ ¬['\x7b', ':'] <:+: text)
    ⟨fun h => ⟨h.1, h.2⟩, fun h => ⟨h.code, h.reference⟩⟩

def atOpener (cs : List Char) : Bool :=
  Marker.codeOpen.heads cs || Delimiters.standard.refOpen.heads cs

/-- What can come after a text: nothing, or a block. -/
def FollowsText (rest : List Char) : Prop := rest = [] ∨ atOpener rest = true

def textKinds (text : List Char) : List TokenKind :=
  if text.isEmpty then [] else [.text (String.ofList text)]

section Text

variable {c : Char} {text rest : List Char}

theorem heads_iff (marker : Marker) (cs : List Char) :
    marker.heads cs = true ↔ ∃ rest, cs = marker.first :: marker.second :: rest := by
  match cs with
  | [] => simp [Marker.heads]
  | [a] => simp [Marker.heads]
  | a :: b :: rest => simp [Marker.heads]

theorem heads_eq_false_of_ne {marker : Marker} (hne : c ≠ marker.first) :
    marker.heads (c :: rest) = false := by
  rw [Bool.eq_false_iff]
  intro hheads
  obtain ⟨after, heq⟩ := (heads_iff marker _).mp hheads
  exact hne (List.cons.inj heq).1

theorem IsLiteral.tail (h : IsLiteral (c :: text)) : IsLiteral text :=
  ⟨fun hinfix => h.code (List.infix_cons hinfix),
    fun hinfix => h.reference (List.infix_cons hinfix)⟩

theorem FollowsText.head_eq (h : FollowsText (c :: rest)) : c = '\x7b' := by
  rcases h with hnil | hopener
  · cases hnil
  · rw [atOpener, Bool.or_eq_true, heads_iff, heads_iff] at hopener
    rcases hopener with ⟨after, heq⟩ | ⟨after, heq⟩
    · exact (List.cons.inj heq).1
    · exact (List.cons.inj heq).1

/-- A marker does not begin inside a text, not even one that would end in what
follows: openers begin with a brace and have none in the second place. -/
theorem heads_append_eq_false {marker : Marker}
    (htext : ¬[marker.first, marker.second] <:+: c :: text) (hrest : FollowsText rest)
    (hne : marker.second ≠ '\x7b') : marker.heads (c :: (text ++ rest)) = false := by
  rw [Bool.eq_false_iff]
  intro hheads
  obtain ⟨after, heq⟩ := (heads_iff marker _).mp hheads
  obtain ⟨rfl, hsecond⟩ := List.cons.inj heq
  cases text with
  | cons c' text =>
    obtain ⟨rfl, -⟩ := List.cons.inj hsecond
    exact htext ⟨[], text, rfl⟩
  | nil =>
    rw [List.nil_append] at hsecond
    subst hsecond
    exact hne hrest.head_eq

theorem IsLiteral.not_atOpener (htext : IsLiteral (c :: text)) (hrest : FollowsText rest) :
    atOpener (c :: (text ++ rest)) = false := by
  have hcode : Marker.codeOpen.heads (c :: (text ++ rest)) = false :=
    heads_append_eq_false htext.code hrest (by decide)
  have hreference : Delimiters.standard.refOpen.heads (c :: (text ++ rest)) = false :=
    heads_append_eq_false htext.reference hrest (by decide)
  rw [atOpener, hcode, hreference, Bool.or_self]

/-- A text without openers is read up to what follows. -/
theorem textFrom_append (htext : IsLiteral text) (hrest : FollowsText rest) (read : List Char) :
    textFrom .standard read (text ++ rest) = (read.reverse ++ text, rest) := by
  induction text generalizing read with
  | nil =>
    rw [List.nil_append, List.append_nil]
    rcases hrest with rfl | hopener
    · rfl
    · cases rest with
      | nil => rfl
      | cons c rest => exact if_pos hopener
  | cons c text ih =>
    have hopener : textFrom .standard read (c :: (text ++ rest)) =
        textFrom .standard (c :: read) (text ++ rest) :=
      if_neg (Bool.eq_false_iff.mp (htext.not_atOpener hrest))
    rw [List.cons_append, hopener, ih htext.tail, List.reverse_cons, List.append_assoc,
      List.singleton_append]

/-- A text is one token, however it ends. -/
theorem lexes_text (htext : IsLiteral text) (hrest : FollowsText rest) :
    Lexes .standard .text (text ++ rest) (textKinds text) .text rest := by
  cases text with
  | nil => exact .refl _ _ _
  | cons c text =>
    have hopener := htext.not_atOpener hrest
    rw [atOpener, Bool.or_eq_false_iff] at hopener
    rw [List.cons_append]
    refine lexes_piece (p := ⟨some (.text (String.ofList (c :: text))), c :: text,
      lineBreaksFrom 0 (c :: text), rest, .text⟩) ?_ ?_
    · intro pos
      have hfrom := textFrom_append htext hrest []
      rw [List.cons_append] at hfrom
      simp only [piece, textPiece, hopener.1, hopener.2, Bool.false_eq_true, if_false, hfrom,
        List.reverse_nil, List.nil_append]
    · simp

end Text

/-! Blocks. -/

def escaped (content : List Char) : List Char :=
  content.flatMap fun c => if c = '\\' ∨ c = '"' then ['\\', c] else [c]

section Block

variable {mode : Mode} {c : Char} {content rest : List Char}

/-- Content that has been escaped is read back. -/
theorem unescape_escaped (content : List Char) : unescape (escaped content) = content := by
  induction content with
  | nil => rfl
  | cons c content ih =>
    rw [escaped, List.flatMap_cons, ← escaped]
    by_cases hslash : c = '\\'
    · subst hslash
      simp [unescape, escape?, ih]
    · by_cases hquote : c = '"'
      · subst hquote
        simp [unescape, escape?, ih]
      · simp [hslash, hquote, unescape, ih]

/-- The literal ends at the quote that was put after its content. -/
theorem quotedFrom_escaped (content rest read : List Char) :
    quotedFrom read (escaped content ++ '"' :: rest) =
      some (read.reverse ++ escaped content, rest) := by
  induction content generalizing read with
  | nil => simp [escaped, quotedFrom]
  | cons c content ih =>
    rw [escaped, List.flatMap_cons, ← escaped]
    by_cases hslash : c = '\\'
    · subst hslash
      simp [quotedFrom, ih]
    · by_cases hquote : c = '"'
      · subst hquote
        simp [quotedFrom, ih]
      · simp [hslash, hquote, quotedFrom, ih]

theorem lexes_refOpen (rest : List Char) :
    Lexes .standard .text ('\x7b' :: ':' :: rest) [.refOpen] .reference rest :=
  lexes_piece (p := ⟨some .refOpen, ['\x7b', ':'], 0, rest, .reference⟩) (fun _ => rfl) (by simp)

theorem lexes_refClose (rest : List Char) :
    Lexes .standard .reference (':' :: '\x7d' :: rest) [.refClose] .text rest :=
  lexes_piece (p := ⟨some .refClose, [':', '\x7d'], 0, rest, .text⟩) (fun _ => rfl) (by simp)

theorem lexes_blank (hmode : mode ≠ .text) (hblank : isCodeBlank c = true) (rest : List Char) :
    Lexes .standard mode (c :: rest) [] mode rest := by
  have hc : c ≠ '@' ∧ c ≠ ':' ∧ isLineBreak c = false := by
    simp only [isCodeBlank, Bool.or_eq_true, decide_eq_true_iff] at hblank
    rcases hblank with ((rfl | rfl) | rfl) | rfl <;> decide
  have hclose : Delimiters.standard.refClose.heads (c :: rest) = false :=
    heads_eq_false_of_ne hc.2.1
  refine lexes_piece (p := ⟨none, [c], 0, rest, mode⟩) (fun pos => ?_) (Nat.le_refl _)
  cases mode with
  | text => exact absurd rfl hmode
  | _ => simp [piece, codePiece, hclose, hc, hblank]

theorem lexes_quoted (hmode : mode ≠ .text) (content rest : List Char) :
    Lexes .standard mode ('"' :: (escaped content ++ '"' :: rest))
      [.str (String.ofList content)] mode rest := by
  have hquoted := quotedFrom_escaped content rest []
  rw [List.reverse_nil, List.nil_append] at hquoted
  have hclose : Delimiters.standard.refClose.heads ('"' :: (escaped content ++ '"' :: rest)) =
      false := heads_eq_false_of_ne (by decide)
  refine lexes_piece (p := ⟨some (.str (String.ofList content)), '"' :: escaped content ++ ['"'],
    plainNewlines (escaped content), rest, mode⟩) (fun pos => ?_) (by simp; omega)
  cases mode with
  | text => exact absurd rfl hmode
  | _ =>
    simp [piece, codePiece, hclose, isLineBreak, isCodeBlank, quotedPiece, hquoted,
      unescape_escaped]

end Block

end Lexer

end Stencil
