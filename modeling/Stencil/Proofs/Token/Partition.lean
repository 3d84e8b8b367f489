import Stencil.Proofs.Token.Cut

/-!
A template is texts and blocks. Its tokens are those of the texts and of the blocks in
turn, no text follows a text, and the template is what the texts and the blocks are made
of, one after the other; a block that is closed like code takes along the line break
behind its closer.
-/

namespace Stencil

def TokenKind.isInner : TokenKind → Bool
  | .text _ | .codeOpen | .codeClose | .refOpen | .refClose => false
  | _ => true

theorem TokenKind.isInner_of_isPlain {kind : TokenKind} (h : kind.isPlain = true) :
    kind.isInner = true := by
  cases kind <;> first | rfl | cases h

inductive Encloses : TokenKind → TokenKind → Prop
  | code : Encloses .codeOpen .codeClose
  | reference : Encloses .refOpen .refClose
  | referenceAsCode : Encloses .refOpen .codeClose

theorem Encloses.utf8Length_spelling {opener closer : TokenKind} (h : Encloses opener closer) :
    Lexer.utf8Length opener.spelling.toList = 2 ∧ Lexer.utf8Length closer.spelling.toList = 2 := by
  cases h <;> decide

theorem Encloses.text?_eq_none {opener closer : TokenKind} (h : Encloses opener closer) :
    opener.text? = none ∧ closer.text? = none := by
  cases h <;> exact ⟨rfl, rfl⟩

structure TextSegment where
  pos : Position
  content : List Char
  nonempty : content ≠ []
  literal : Lexer.IsLiteral content

/-- A block from its opener to its closer, and the line break that goes with it. -/
structure BlockSegment where
  opener : Token
  inner : List Token
  closer : Token
  /-- The characters between the delimiters. -/
  between : List Char
  /-- The line break behind the closer, if there is one and the closer takes it along. -/
  ending : List Char
  encloses : Encloses opener.kind closer.kind
  inner_isInner : ∀ t ∈ inner, t.kind.isInner = true
  ending_isLineBreak : ending ∈ [[], ['\n'], ['\r'], ['\r', '\n']]
  ending_of_refClose : closer.kind = .refClose → ending = []

inductive Segment
  | text (t : TextSegment)
  | block (b : BlockSegment)

namespace BlockSegment

def tokens (b : BlockSegment) : List Token := b.opener :: (b.inner ++ [b.closer])

def span (b : BlockSegment) : List Char :=
  b.opener.kind.spelling.toList ++ b.between ++ b.closer.kind.spelling.toList

structure IsAt (b : BlockSegment) (offset : Nat) : Prop where
  opener : b.opener.pos.offset = offset
  closer : b.closer.pos.offset = offset + 2 + Lexer.utf8Length b.between
  inner : ∀ t ∈ b.inner, offset + 2 ≤ t.pos.offset ∧ t.pos.offset < b.closer.pos.offset

end BlockSegment

namespace Segment

def tokens : Segment → List Token
  | .text t => [⟨.text (String.ofList t.content), t.pos⟩]
  | .block b => b.tokens

def chars : Segment → List Char
  | .text t => t.content
  | .block b => b.span ++ b.ending

def isText : Segment → Bool
  | .text _ => true
  | .block _ => false

def IsAt (offset : Nat) : Segment → Prop
  | .text t => t.pos.offset = offset
  | .block b => b.IsAt offset

/-- No text comes after a text, and a closer that takes a line break along takes the whole
of the one that comes after it. -/
def Precedes (next : List Segment) : Segment → Prop
  | .text _ => ∀ s ∈ next.head?, s.isText = false
  | .block b => b.closer.kind = .codeClose →
    b.ending = Lexer.lineBreak (b.ending ++ next.flatMap chars)

end Segment

def Arranged : Nat → List Segment → Prop
  | _, [] => True
  | offset, s :: next =>
    s.IsAt offset ∧ s.Precedes next ∧ Arranged (offset + Lexer.utf8Length s.chars) next

namespace Lexer

variable {mode : Mode} {pos : Position} {cs : List Char} {p : Piece} {pieces : List Piece}

theorem InnerStretch.read_ne_nil (h : InnerStretch mode p) : p.read ≠ [] := by
  cases h with
  | newline hne => exact hne
  | plain hkind hne => exact hne
  | _ => simp

/-- A piece between two delimiters has no text and no delimiter as its token. -/
theorem InnerStretch.isInner {kind : TokenKind} (h : InnerStretch mode p)
    (hkind : p.token = some kind) : kind.isInner = true := by
  cases h with
  | plain hplain =>
    cases hkind
    exact TokenKind.isInner_of_isPlain hplain
  | blank => cases hkind
  | _ =>
    cases hkind
    rfl

theorem InnerStretch.mode_eq (h : InnerStretch mode p) : p.mode = mode := by
  cases h <;> rfl

/-- The pieces of a block up to its closer. -/
theorem Cut.exists_closing (h : Cut .standard mode cs pieces) (hmode : mode ≠ .text) :
    ∃ inner closing after, pieces = inner ++ closing :: after ∧
      (∀ p ∈ inner, InnerStretch mode p) ∧ ClosingStretch .standard mode closing ∧
      Cut .standard .text closing.rest after := by
  induction pieces generalizing cs with
  | nil =>
    cases h
    exact absurd rfl hmode
  | cons p pieces ih =>
    obtain ⟨hstretch, -, hrest⟩ := h.head
    rcases hstretch.inner_or_closing hmode with hinner | hclosing
    · rw [hinner.mode_eq] at hrest
      obtain ⟨inner, closing, after, rfl, hall, hclosing, hafter⟩ := ih hrest
      refine ⟨p :: inner, closing, after, rfl, ?_, hclosing, hafter⟩
      simpa [hinner] using hall
    · have htext : p.mode = .text := by cases hclosing <;> rfl
      rw [htext] at hrest
      exact ⟨[], p, pieces, rfl, by simp, hclosing, hrest⟩

/-- The tokens of the pieces between two delimiters. -/
theorem mem_tokensOf_inner (h : ∀ p ∈ pieces, InnerStretch mode p) {t : Token}
    (ht : t ∈ tokensOf pos pieces) : t.kind.isInner = true ∧ pos.offset ≤ t.pos.offset ∧
      t.pos.offset < pos.offset + utf8Length (pieces.flatMap Piece.read) := by
  obtain ⟨before, p, after, rfl, htoken, hpos⟩ := exists_piece_of_mem_tokensOf ht
  have hp : InnerStretch mode p := h p (by simp)
  have hread : 0 < utf8Length p.read := utf8Length_pos hp.read_ne_nil
  rw [hpos, offset_positionAfter]
  refine ⟨hp.isInner htoken, by omega, ?_⟩
  simp only [List.flatMap_append, List.flatMap_cons, utf8Length_append]
  omega

inductive Enters : TokenKind → Mode → Prop
  | code : Enters .codeOpen .code
  | reference : Enters .refOpen .reference

theorem Enters.mode_ne {opener : TokenKind} (h : Enters opener mode) : mode ≠ .text := by
  cases h <;> decide

/-- A closer is read with the line break that goes with it. -/
theorem ClosingStretch.exists_closer (h : ClosingStretch .standard mode p) {opener : TokenKind}
    (hopener : Enters opener mode) :
    ∃ closer ending, p.token = some closer ∧ p.read = closer.spelling.toList ++ ending ∧
      Encloses opener closer ∧ ending ∈ [[], ['\n'], ['\r'], ['\r', '\n']] ∧
      (closer = .refClose → ending = []) ∧
      (closer = .codeClose → ending = lineBreak (ending ++ p.rest)) := by
  cases h with
  | @codeClose _ ending rest hending =>
    have hencloses : Encloses opener .codeClose := by
      cases hopener with
      | code => exact .code
      | reference => exact .referenceAsCode
    have hmem : ending ∈ [[], ['\n'], ['\r'], ['\r', '\n']] := by
      rw [← hending]
      exact lineBreak_mem _
    exact ⟨.codeClose, ending, rfl, rfl, hencloses, hmem, nofun, fun _ => hending.symm⟩
  | refClose =>
    cases hopener
    exact ⟨.refClose, [], rfl, rfl, .reference, by simp, fun _ => rfl, nofun⟩

/-- What is read behind an opener is the rest of its block and what follows that. -/
theorem Cut.exists_block (h : Cut .standard mode cs pieces) (opener : Token)
    (hopener : Enters opener.kind mode) (hpos : pos.offset = opener.pos.offset + 2) :
    ∃ (b : BlockSegment) (pos' : Position) (rest : List Char) (after : List Piece),
      opener :: tokensOf pos pieces = b.tokens ++ tokensOf pos' after ∧
      opener.kind.spelling.toList ++ cs = b.span ++ b.ending ++ rest ∧
      b.IsAt opener.pos.offset ∧
      (b.closer.kind = .codeClose → b.ending = lineBreak (b.ending ++ rest)) ∧
      pos'.offset = opener.pos.offset + utf8Length (b.span ++ b.ending) ∧
      Cut .standard .text rest after ∧ after.length < pieces.length := by
  obtain ⟨inner, closing, after, rfl, hinner, hclosing, hafter⟩ := h.exists_closing hopener.mode_ne
  obtain ⟨closer, ending, htoken, hread, hencloses, hmem, hreference, hcode⟩ :=
    hclosing.exists_closer hopener
  obtain ⟨hopening, hlength⟩ := hencloses.utf8Length_spelling
  have hcs : cs = inner.flatMap Piece.read ++ (closing.read ++ closing.rest) := by
    rw [← h.flatMap_read, List.flatMap_append, List.flatMap_cons, hafter.flatMap_read]
  have htokens : ∀ t ∈ tokensOf pos inner, t.kind.isInner = true ∧ pos.offset ≤ t.pos.offset ∧
      t.pos.offset < pos.offset + utf8Length (inner.flatMap Piece.read) :=
    fun t ht => mem_tokensOf_inner hinner ht
  have hoffset := offset_positionAfter pos inner
  refine ⟨⟨opener, tokensOf pos inner, ⟨closer, positionAfter pos inner⟩,
    inner.flatMap Piece.read, ending, hencloses, fun t ht => (htokens t ht).1, hmem, hreference⟩,
    advance (positionAfter pos inner) closing.read closing.lines, closing.rest, after, ?_, ?_,
    ⟨rfl, ?_, ?_⟩, hcode, ?_, hafter, ?_⟩
  · simp [tokensOf_append, tokensOf, htoken, BlockSegment.tokens]
  · simp [hcs, hread, BlockSegment.span]
  · dsimp only
    omega
  · intro t ht
    have hbounds := htokens t ht
    dsimp only
    omega
  · simp only [advance, BlockSegment.span, utf8Length_append, hread]
    omega
  · simp only [List.length_append, List.length_cons]
    omega

/-- Outside of blocks an opener is read or a text that no text follows. -/
theorem OuterStretch.opener_or_text (h : OuterStretch .standard p) :
    (∃ opener, p.token = some opener ∧ p.read = opener.spelling.toList ∧ utf8Length p.read = 2 ∧
      Enters opener p.mode) ∨
    (p.token = some (.text (String.ofList p.read)) ∧ p.mode = .text ∧ p.read ≠ [] ∧
      IsLiteral p.read ∧ (p.rest = [] ∨ opens .standard p.rest = true) ∧
      opens .standard (p.read ++ p.rest) = false) := by
  cases h with
  | codeOpen => exact Or.inl ⟨.codeOpen, rfl, rfl, rfl, .code⟩
  | refOpen => exact Or.inl ⟨.refOpen, rfl, rfl, rfl, .reference⟩
  | @text content rest hne hrest hcontent =>
    refine Or.inr ⟨rfl, rfl, hne, ⟨?_, ?_⟩, hrest, hcontent [] content rfl hne⟩
    · rintro ⟨before, after, rfl⟩
      have hopens := hcontent before ('\x7b' :: '@' :: after) (by simp) (by simp)
      exact absurd hopens (by simp [opens, Marker.heads, Marker.codeOpen])
    · rintro ⟨before, after, rfl⟩
      have hopens := hcontent before ('\x7b' :: ':' :: after) (by simp) (by simp)
      exact absurd hopens (by simp [opens, Marker.heads, Delimiters.standard])

/-- Induction on the pieces that are left: a text is one of them, and a block is as many
as there are up to its closer. -/
theorem Cut.exists_segments (h : Cut .standard .text cs pieces) (pos : Position) :
    ∃ segments : List Segment, tokensOf pos pieces = segments.flatMap Segment.tokens ∧
      cs = segments.flatMap Segment.chars ∧ Arranged pos.offset segments ∧
      (cs = [] ∨ opens .standard cs = true → ∀ s ∈ segments.head?, s.isText = false) := by
  induction hn : pieces.length using Nat.strong_induction_on generalizing cs pieces pos with
  | _ n ih =>
    cases pieces with
    | nil =>
      cases h
      exact ⟨[], rfl, rfl, trivial, by simp⟩
    | cons p pieces =>
      obtain ⟨hstretch, rfl, hrest⟩ := h.head
      rw [List.length_cons] at hn
      rcases hstretch.opener_or_text with
        ⟨opener, htoken, hread, hlength, hopener⟩ | ⟨htoken, hmode, hne, hliteral, hnext, hopens⟩
      · have hpos : (advance pos p.read p.lines).offset = pos.offset + 2 := by
          rw [advance, hlength]
        obtain ⟨b, pos', rest, after, htokens, hchars, hat, hending, hoffset, hafter, hlt⟩ :=
          hrest.exists_block ⟨opener, pos⟩ hopener hpos
        obtain ⟨segments, htokens', rfl, harranged, -⟩ :=
          ih after.length (by omega) hafter pos' rfl
        rw [hoffset] at harranged
        refine ⟨.block b :: segments, ?_, ?_, ⟨hat, hending, harranged⟩, by simp [Segment.isText]⟩
        · simp [tokensOf, htoken, htokens, htokens', Segment.tokens]
        · simp [hread, hchars, Segment.chars]
      · rw [hmode] at hrest
        obtain ⟨segments, htokens, hchars, harranged, hhead⟩ :=
          ih pieces.length (by omega) hrest (advance pos p.read p.lines) rfl
        refine ⟨.text ⟨pos, p.read, hne, hliteral⟩ :: segments, ?_, ?_,
          ⟨rfl, hhead hnext, harranged⟩, ?_⟩
        · simp [tokensOf, htoken, htokens, Segment.tokens]
        · rw [List.flatMap_cons, ← hchars, Segment.chars]
        · rintro (hnil | hopens')
          · exact absurd (List.append_eq_nil_iff.mp hnil).1 hne
          · rw [hopens] at hopens'
            cases hopens'

end Lexer

/-- A text that is among segments stands in their characters where its token says. -/
theorem Arranged.exists_slice {offset : Nat} {segments : List Segment}
    (h : Arranged offset segments) {t : TextSegment} (ht : .text t ∈ segments) :
    ∃ before after, segments.flatMap Segment.chars = before ++ (t.content ++ after) ∧
      t.pos.offset = offset + Lexer.utf8Length before := by
  induction segments generalizing offset with
  | nil => cases ht
  | cons s segments ih =>
    obtain ⟨hat, -, hnext⟩ := h
    rw [List.mem_cons] at ht
    rcases ht with rfl | ht
    · exact ⟨[], segments.flatMap Segment.chars, rfl, hat⟩
    · obtain ⟨before, after, hchars, hoffset⟩ := ih hnext ht
      refine ⟨s.chars ++ before, after, ?_, ?_⟩
      · rw [List.flatMap_cons, hchars, List.append_assoc]
      · rw [hoffset, Lexer.utf8Length_append, Nat.add_assoc]

/-- The only texts among the tokens of segments are those of the texts. -/
theorem Segment.eq_text_of_mem_tokens {s : Segment} {t : Token} {content : String}
    (ht : t ∈ s.tokens) (hkind : t.kind = .text content) :
    ∃ segment, s = .text segment ∧ content = String.ofList segment.content ∧
      t.pos = segment.pos := by
  cases s with
  | text segment =>
    obtain rfl := List.mem_singleton.mp ht
    cases hkind
    exact ⟨segment, rfl, rfl, rfl⟩
  | block b =>
    rw [Segment.tokens, BlockSegment.tokens, List.mem_cons, List.mem_append,
      List.mem_singleton] at ht
    obtain ⟨hopener, hcloser⟩ := b.encloses.text?_eq_none
    rcases ht with rfl | ht | rfl
    · rw [hkind] at hopener
      cases hopener
    · have hinner := b.inner_isInner t ht
      rw [hkind] at hinner
      cases hinner
    · rw [hkind] at hcloser
      cases hcloser

/-- A template that lexes is texts and blocks, and each text is the part of the template
that stands at its offset. -/
theorem tokenize_partition {source : String} {tokens : List Token}
    (h : tokenize source = .ok tokens) :
    ∃ segments : List Segment, tokens = segments.flatMap Segment.tokens ∧
      source.toList = segments.flatMap Segment.chars ∧ Arranged 0 segments ∧
      ∀ t ∈ tokens, ∀ content, t.kind = .text content → ∃ before after : String,
        source = before ++ content ++ after ∧ before.utf8ByteSize = t.pos.offset := by
  obtain ⟨pieces, hcut, rfl⟩ := Lexer.exists_cut h
  obtain ⟨segments, htokens, hchars, harranged, -⟩ := hcut.exists_segments .start
  refine ⟨segments, htokens, hchars, harranged, fun t ht content hkind => ?_⟩
  rw [htokens, List.mem_flatMap] at ht
  obtain ⟨s, hs, ht⟩ := ht
  obtain ⟨segment, rfl, rfl, hpos⟩ := Segment.eq_text_of_mem_tokens ht hkind
  obtain ⟨before, after, hslice, hoffset⟩ := harranged.exists_slice hs
  refine ⟨String.ofList before, String.ofList after, ?_, ?_⟩
  · rw [← String.ofList_append, ← String.ofList_append, List.append_assoc, ← hslice, ← hchars,
      String.ofList_toList]
  · rw [Lexer.utf8ByteSize_ofList, hpos, hoffset]
    exact (Nat.zero_add _).symm

/-! A reference that ends like code, with its line break, and closers in a string and in a
comment. -/

namespace Page

def source : String :=
  "<p>\x7b: \"@\x7d\" @\x7d\r\n\x7b@ /* :\x7d */ x @\x7d\n\n\x7b: y :\x7d\n"

def tokens : List Token :=
  [⟨.text "<p>", ⟨0, 1⟩⟩, ⟨.refOpen, ⟨3, 1⟩⟩, ⟨.str "@\x7d", ⟨6, 1⟩⟩, ⟨.codeClose, ⟨11, 1⟩⟩,
    ⟨.codeOpen, ⟨15, 2⟩⟩, ⟨.newline, ⟨18, 2⟩⟩, ⟨.ident "x", ⟨27, 2⟩⟩, ⟨.codeClose, ⟨29, 2⟩⟩,
    ⟨.text "\n", ⟨32, 3⟩⟩, ⟨.refOpen, ⟨33, 4⟩⟩, ⟨.ident "y", ⟨36, 4⟩⟩, ⟨.refClose, ⟨38, 4⟩⟩,
    ⟨.text "\n", ⟨40, 4⟩⟩]

theorem tokenize_source : tokenize source = .ok tokens :=
  tokenize_eq_ok (by decide +kernel)

theorem source_partitioned : tokenize source = .ok tokens ∧
    ∃ segments : List Segment, tokens = segments.flatMap Segment.tokens ∧
      source.toList = segments.flatMap Segment.chars ∧ Arranged 0 segments ∧
      ∀ t ∈ tokens, ∀ content, t.kind = .text content → ∃ before after : String,
        source = before ++ content ++ after ∧ before.utf8ByteSize = t.pos.offset :=
  ⟨tokenize_source, tokenize_partition tokenize_source⟩

end Page

end Stencil
