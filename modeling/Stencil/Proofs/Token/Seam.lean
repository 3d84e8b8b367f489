import Stencil.Proofs.Token.Lookahead

/-!
The tokens of two templates put together. Inside a block a template that lexes reads
nothing at its very end but a closer, so it is read in the same way when there is more
input behind it, but for the text after its last block: that one goes on with the text
at the beginning of what follows. This asks that no line break follows, which a closer
would take, and that no brace stands at the end, which might begin an opener.
-/

namespace Stencil

def TokenKind.text? : TokenKind → Option String
  | .text content => some content
  | _ => none

namespace Lexer

/-! Whole templates, with the standard delimiters. -/

section Template

variable {mode mode' : Mode} {steps steps' : Nat} {pos pos' : Position}
  {tokens tokens' : List Token} {c : Char} {cs text rest more : List Char} {p : Piece}
  {kinds kinds' : List TokenKind}

theorem textFrom_suffix (d : Delimiters) (read cs : List Char) : (textFrom d read cs).2 <:+ cs := by
  induction cs generalizing read with
  | nil => exact List.suffix_refl _
  | cons c cs ih =>
    unfold textFrom
    split
    · exact List.suffix_refl _
    · exact (ih _).trans (List.suffix_cons c cs)

theorem piece_suffix {d : Delimiters} (h : piece d mode pos c rest = .ok p) : p.rest <:+ rest := by
  cases mode with
  | code => exact codePiece_suffix h
  | reference => exact codePiece_suffix h
  | text =>
    cases h
    unfold textPiece
    split
    · exact List.drop_suffix 1 rest
    split
    · exact List.drop_suffix 1 rest
    · next hcode hreference =>
      dsimp only
      unfold textFrom
      rw [if_neg (by simp [hcode, hreference])]
      exact textFrom_suffix d [c] rest

/-- Two runs of the lexer find tokens of the same kinds after those at hand, or both
fail. -/
inductive FindAlike (tokens tokens' : List Token) :
    Except Diagnostic (List Token) → Except Diagnostic (List Token) → Prop
  | ok (found found' : List Token) (hkinds : found.map Token.kind = found'.map Token.kind) :
    FindAlike tokens tokens' (.ok (tokens.reverse ++ found)) (.ok (tokens'.reverse ++ found'))
  | error (d d' : Diagnostic) : FindAlike tokens tokens' (.error d) (.error d')

theorem FindAlike.cons (t t' : Token) {result result' : Except Diagnostic (List Token)}
    (hkind : t.kind = t'.kind) (h : FindAlike (t :: tokens) (t' :: tokens') result result') :
    FindAlike tokens tokens' result result' := by
  cases h with
  | error d d' => exact .error d d'
  | ok found found' hkinds =>
    simp only [List.reverse_cons, List.append_assoc, List.singleton_append]
    exact .ok (t :: found) (t' :: found') (by simp only [List.map_cons, hkind, hkinds])

/-- What is found in an input depends neither on where it stands nor on what stands
before it. -/
theorem findAlike_tokensFrom (d : Delimiters) (hsteps : cs.length ≤ steps)
    (hsteps' : cs.length ≤ steps') :
    FindAlike tokens tokens' (tokensFrom d steps mode pos tokens cs)
      (tokensFrom d steps' mode pos' tokens' cs) := by
  have hend : ∀ {steps steps' mode pos pos' tokens tokens'}, FindAlike tokens tokens'
      (tokensFrom d steps mode pos tokens []) (tokensFrom d steps' mode pos' tokens' []) := by
    intro steps steps' mode pos pos' tokens tokens'
    rw [tokensFrom_nil, tokensFrom_nil, finish, finish]
    split
    · have hfound : FindAlike tokens tokens' (.ok (tokens.reverse ++ []))
          (.ok (tokens'.reverse ++ [])) := .ok [] [] rfl
      rwa [List.append_nil, List.append_nil] at hfound
    · exact .error _ _
  induction steps generalizing steps' mode pos pos' tokens tokens' cs with
  | zero =>
    obtain rfl : cs = [] := List.eq_nil_of_length_eq_zero (Nat.le_zero.mp hsteps)
    exact hend
  | succ steps ih =>
    cases cs with
    | nil => exact hend
    | cons c rest =>
      obtain ⟨steps', rfl⟩ : ∃ n, steps' = n + 1 := ⟨steps' - 1, by simp at hsteps'; omega⟩
      rw [List.length_cons, Nat.succ_le_succ_iff] at hsteps hsteps'
      unfold tokensFrom
      cases hpiece : piece d mode pos c rest with
      | error fault =>
        cases hpiece' : piece d mode pos' c rest with
        | error fault' => exact .error _ _
        | ok p =>
          rw [piece_of_piece hpiece' pos] at hpiece
          cases hpiece
      | ok p =>
        have hrest := (piece_suffix hpiece).length_le
        simp only [piece_of_piece hpiece pos']
        cases p.token with
        | none => exact ih (Nat.le_trans hrest hsteps) (Nat.le_trans hrest hsteps')
        | some kind =>
          exact .cons ⟨kind, pos⟩ ⟨kind, pos'⟩ rfl
            (ih (Nat.le_trans hrest hsteps) (Nat.le_trans hrest hsteps'))

theorem IsLiteral.cons (h : IsLiteral text) (hopener : ¬atOpener (c :: (text ++ rest)) = true) :
    IsLiteral (c :: text) := by
  rw [atOpener, Bool.or_eq_true, not_or, heads_iff, heads_iff] at hopener
  constructor
  · rw [List.infix_cons_iff]
    rintro (⟨after, hafter⟩ | hinfix)
    · obtain ⟨rfl, rfl⟩ := List.cons.inj hafter
      exact hopener.1 ⟨after ++ rest, rfl⟩
    · exact h.code hinfix
  · rw [List.infix_cons_iff]
    rintro (⟨after, hafter⟩ | hinfix)
    · obtain ⟨rfl, rfl⟩ := List.cons.inj hafter
      exact hopener.2 ⟨after ++ rest, rfl⟩
    · exact h.reference hinfix

theorem exists_literal_append (cs : List Char) :
    ∃ text rest, cs = text ++ rest ∧ IsLiteral text ∧ FollowsText rest := by
  induction cs with
  | nil => exact ⟨[], [], rfl, by decide, Or.inl rfl⟩
  | cons c cs ih =>
    by_cases hopener : atOpener (c :: cs) = true
    · exact ⟨[], c :: cs, rfl, by decide, Or.inr hopener⟩
    · obtain ⟨text, rest, rfl, htext, hrest⟩ := ih
      exact ⟨c :: text, rest, rfl, htext.cons hopener, hrest⟩

theorem not_pair_infix_append {a b : Char} {text' : List Char} (h : ¬[a, b] <:+: text)
    (h' : ¬[a, b] <:+: text') (hlast : text.getLast? ≠ some a) : ¬[a, b] <:+: text ++ text' := by
  induction text with
  | nil => exact h'
  | cons c text ih =>
    rw [List.cons_append, List.infix_cons_iff]
    rintro (⟨after, hafter⟩ | hinfix)
    · obtain ⟨rfl, hsecond⟩ := List.cons.inj hafter
      cases text with
      | nil => exact hlast rfl
      | cons c' text =>
        obtain ⟨hsecond, -⟩ := List.cons.inj hsecond
        exact h ⟨[], text, by rw [hsecond]; rfl⟩
    · refine ih (fun hinfix => h (List.infix_cons hinfix)) ?_ hinfix
      cases text with
      | nil => exact nofun
      | cons c' text => rwa [List.getLast?_cons_cons] at hlast

theorem IsLiteral.append {text' : List Char} (h : IsLiteral text) (h' : IsLiteral text')
    (hbrace : text.getLast? ≠ some '\x7b') : IsLiteral (text ++ text') :=
  ⟨not_pair_infix_append h.code h'.code hbrace,
    not_pair_infix_append h.reference h'.reference hbrace⟩

/-- From here the input is read up to a text at its end, which may be empty. What comes
before that text is read in the same way when there is more input behind. -/
structure ClosesWith (mode : Mode) (cs : List Char) (kinds : List TokenKind)
    (text : List Char) : Prop where
  literal : IsLiteral text
  isSuffix : text <:+ cs
  opened : mode ≠ .text ∨ atOpener cs = true → kinds ≠ []
  closed : ∀ kind ∈ kinds.getLast?, kind.text? = none
  lexes : ∀ more, Flush more → Lexes .standard mode (cs ++ more) kinds .text (text ++ more)

theorem ClosesWith.prepend
    (hlexes : ∀ more, Flush more → Lexes .standard mode (cs ++ more) kinds mode' (rest ++ more))
    (hrest : rest <:+ cs) (hend : kinds' ≠ [] ∨ ∃ kind, kinds = [kind] ∧ kind.text? = none)
    (h : ClosesWith mode' rest kinds' text) : ClosesWith mode cs (kinds ++ kinds') text := by
  refine ⟨h.literal, h.isSuffix.trans hrest, fun _ hnil => ?_, fun kind hkind => ?_,
    fun more hmore => (hlexes more hmore).trans (h.lexes more hmore)⟩
  · obtain ⟨rfl, rfl⟩ := List.append_eq_nil_iff.mp hnil
    rcases hend with hne | ⟨kind, hkind, -⟩
    · exact hne rfl
    · cases hkind
  · by_cases hne : kinds' = []
    · subst hne
      obtain ⟨kind', rfl, hkind'⟩ := hend.resolve_left (not_not_intro rfl)
      obtain rfl : kind' = kind := Option.some.inj hkind
      exact hkind'
    · rw [List.getLast?_append_of_ne_nil _ hne] at hkind
      exact h.closed kind hkind

theorem IsLiteral.atOpener_eq_false (h : IsLiteral text) : atOpener text = false := by
  cases text with
  | nil => rfl
  | cons c text =>
    have hopener := h.not_atOpener (Or.inl rfl)
    rwa [List.append_nil] at hopener

theorem atOpener_append (h : atOpener cs = true) : atOpener (cs ++ more) = true := by
  rw [atOpener, Bool.or_eq_true, heads_iff, heads_iff] at h ⊢
  rcases h with ⟨rest, rfl⟩ | ⟨rest, rfl⟩
  · exact Or.inl ⟨rest ++ more, rfl⟩
  · exact Or.inr ⟨rest ++ more, rfl⟩

/-- At an opener the block is entered. -/
theorem exists_lexes_of_atOpener (h : atOpener cs = true) :
    ∃ kind mode' rest, mode' ≠ .text ∧ kind.text? = none ∧ rest.length < cs.length ∧ rest <:+ cs ∧
      ∀ more, Lexes .standard .text (cs ++ more) [kind] mode' (rest ++ more) := by
  rw [atOpener, Bool.or_eq_true, heads_iff, heads_iff] at h
  have hlt : ∀ {rest : List Char} (c : Char), rest.length < ('\x7b' :: c :: rest).length := by
    intro rest c
    rw [List.length_cons, List.length_cons]
    omega
  rcases h with ⟨rest, rfl⟩ | ⟨rest, rfl⟩
  · refine ⟨.codeOpen, .code, rest, by decide, rfl, hlt '@', ⟨['\x7b', '@'], rfl⟩, fun more => ?_⟩
    exact lexes_piece (p := ⟨some .codeOpen, ['\x7b', '@'], 0, rest ++ more, .code⟩)
      (fun _ => rfl) (by simp)
  · exact ⟨.refOpen, .reference, rest, by decide, rfl, hlt ':', ⟨['\x7b', ':'], rfl⟩,
      fun more => lexes_refOpen (rest ++ more)⟩

theorem closes_or_stays_of_codePiece {d : Delimiters} (h : codePiece d mode pos c rest = .ok p) :
    p.mode = mode ∨ ∃ kind, p.token = some kind ∧ kind.text? = none := by
  rcases codePiece_forms h with ⟨after, -, -, rfl⟩ | ⟨after, -, -, -, rfl⟩ | hinner
  · exact Or.inr ⟨_, rfl, rfl⟩
  · exact Or.inr ⟨_, rfl, rfl⟩
  · exact Or.inl (mode_of_innerPiece hinner)

theorem piece_of_mode_ne {d : Delimiters} (hmode : mode ≠ .text) (pos : Position) :
    piece d mode pos c rest = codePiece d mode pos c rest := by
  cases mode with
  | text => exact absurd rfl hmode
  | code => rfl
  | reference => rfl

/-- Inside a block a template that lexes has a piece that leaves something or closes the
block. -/
theorem exists_lexes_of_mode_ne {all : List Token} (hmode : mode ≠ .text)
    (h : tokensFrom .standard steps mode pos tokens cs = .ok all) (hsteps : cs.length ≤ steps) :
    ∃ p : Piece, p.rest.length < cs.length ∧ p.rest <:+ cs ∧
      (p.mode ≠ .text ∨ ∃ kind, p.token = some kind ∧ kind.text? = none) ∧
      ∀ more, Flush more →
        Lexes .standard mode (cs ++ more) p.token.toList p.mode (p.rest ++ more) := by
  cases cs with
  | nil =>
    rw [tokensFrom_nil, finish_eq_ok_iff] at h
    exact absurd h.1 hmode
  | cons c rest =>
    obtain ⟨p, hpiece⟩ : ∃ p, piece .standard mode pos c rest = .ok p := by
      obtain ⟨steps, rfl⟩ : ∃ n, steps = n + 1 := ⟨steps - 1, by simp at hsteps; omega⟩
      cases hpiece : piece .standard mode pos c rest with
      | ok p => exact ⟨p, rfl⟩
      | error fault =>
        rw [tokensFrom, hpiece] at h
        cases h
    have hsuffix := piece_suffix hpiece
    have hat : ∀ pos', piece .standard mode pos' c rest = .ok p := piece_of_piece hpiece
    rw [piece_of_mode_ne hmode] at hpiece
    refine ⟨p, Nat.lt_succ_of_le hsuffix.length_le, hsuffix.trans (List.suffix_cons c rest), ?_,
      fun more hmore => ?_⟩
    · rcases closes_or_stays_of_codePiece hpiece with hstays | hcloses
      · exact Or.inl (hstays ▸ hmode)
      · exact Or.inr hcloses
    · have hseam : more ≠ [] → p.mode = .text ∨ p.rest ≠ [] := by
        refine fun _ => or_iff_not_imp_left.mpr fun hinside hnil => ?_
        obtain ⟨steps', pos', found, -, -, heq⟩ :=
          lexes_piece hat hsuffix.length_le steps pos tokens hsteps
        rw [heq, hnil, tokensFrom_nil, finish_eq_ok_iff] at h
        exact hinside h.1
      refine lexes_piece (p := p.extend more) (fun pos' => ?_) ?_
      · rw [piece_of_mode_ne hmode]
        exact codePiece_append hpiece hmore hmode hseam
      · simpa [Piece.extend] using hsuffix.length_le

/-- From any place on, a template that lexes closes its blocks, and what stands behind the last
one is a text. -/
theorem exists_closesWith {all : List Token}
    (h : tokensFrom .standard steps mode pos tokens cs = .ok all) (hsteps : cs.length ≤ steps) :
    ∃ kinds text, ClosesWith mode cs kinds text := by
  induction hn : cs.length using Nat.strong_induction_on
    generalizing steps mode pos tokens cs with
  | _ n ih =>
    have hnext : ∀ {kinds mode' rest}, rest.length < cs.length →
        Lexes .standard mode cs kinds mode' rest →
        ∃ kinds' text, ClosesWith mode' rest kinds' text := by
      intro kinds mode' rest hlt hlexes
      obtain ⟨steps', pos', found, hsteps', -, heq⟩ := hlexes steps pos tokens hsteps
      rw [heq] at h
      exact ih rest.length (hn ▸ hlt) h hsteps' rfl
    by_cases hmode : mode = .text
    · subst hmode
      obtain ⟨text, rest, rfl, htext, hrest⟩ := exists_literal_append cs
      rcases hrest with rfl | hopener
      · rw [List.append_nil]
        refine ⟨[], text, htext, List.suffix_refl _, ?_, nofun, fun more _ => .refl _ _ _⟩
        rintro (htext' | hopener)
        · exact absurd rfl htext'
        · rw [htext.atOpener_eq_false] at hopener
          cases hopener
      · obtain ⟨kind, mode', after, hmode', -, hlt, hsuffix, hopen⟩ :=
          exists_lexes_of_atOpener hopener
        have hlexes : ∀ more, Lexes .standard .text (text ++ rest ++ more)
            (textKinds text ++ [kind]) mode' (after ++ more) := by
          intro more
          rw [List.append_assoc]
          exact (lexes_text htext (Or.inr (atOpener_append hopener))).trans (hopen more)
        have hhere := hlexes []
        rw [List.append_nil, List.append_nil] at hhere
        obtain ⟨kinds, closing, hcloses⟩ := hnext (by rw [List.length_append]; omega) hhere
        exact ⟨_, closing, hcloses.prepend (fun more _ => hlexes more)
          (hsuffix.trans (List.suffix_append text rest)) (Or.inl (hcloses.opened (Or.inl hmode')))⟩
    · obtain ⟨p, hlt, hsuffix, hend, hlexes⟩ := exists_lexes_of_mode_ne hmode h hsteps
      have hhere := hlexes [] (by simp [Flush])
      rw [List.append_nil, List.append_nil] at hhere
      obtain ⟨kinds, text, hcloses⟩ := hnext hlt hhere
      refine ⟨_, text, hcloses.prepend hlexes hsuffix ?_⟩
      rcases hend with hinside | ⟨kind, htoken, hkind⟩
      · exact Or.inl (hcloses.opened (Or.inl hinside))
      · exact Or.inr ⟨kind, by rw [htoken]; rfl, hkind⟩

end Template

end Lexer

open Lexer

/-! Templates put together. -/

def closingText (kinds : List TokenKind) : String :=
  (kinds.getLast?.bind TokenKind.text?).getD ""

def openingText (kinds : List TokenKind) : String :=
  (kinds.head?.bind TokenKind.text?).getD ""

theorem closingText_append_textKinds {kinds : List TokenKind} {text : List Char}
    (h : ∀ kind ∈ kinds.getLast?, kind.text? = none) :
    closingText (kinds ++ textKinds text) = String.ofList text := by
  cases text with
  | cons c text => simp [closingText, textKinds, TokenKind.text?]
  | nil =>
    rw [show textKinds [] = [] from rfl, List.append_nil, closingText]
    cases hlast : kinds.getLast? with
    | none => rfl
    | some kind =>
      rw [Option.bind_some, h kind hlast]
      rfl

theorem openingText_textKinds_append {kinds : List TokenKind} {text : List Char}
    (h : ∀ kind ∈ kinds.head?, kind.text? = none) :
    openingText (textKinds text ++ kinds) = String.ofList text := by
  cases text with
  | cons c text => simp [openingText, textKinds, TokenKind.text?]
  | nil =>
    rw [show textKinds [] = [] from rfl, List.nil_append, openingText]
    cases hhead : kinds.head? with
    | none => rfl
    | some kind =>
      rw [Option.bind_some, h kind hhead]
      rfl

/-- The tokens of a template that follows tokens of some kinds, and those of the two put
together: the texts at the seam are one. -/
inductive LexAlike (before : List TokenKind) (closing : String) :
    Except Diagnostic (List Token) → Except Diagnostic (List Token) → Prop
  | ok {us vs : List Token} (after : List TokenKind)
    (hus : us.map Token.kind =
      textKinds (openingText (us.map Token.kind)).toList ++ after)
    (hvs : vs.map Token.kind = before ++
      textKinds (closing ++ openingText (us.map Token.kind)).toList ++ after) :
    LexAlike before closing (.ok us) (.ok vs)
  | error (d d' : Diagnostic) : LexAlike before closing (.error d) (.error d')

/-- The two templates are read alike behind the texts, and whatever is wrong with the second one
is found in both. -/
theorem lexAlike_of_lexes {before : List TokenKind} {text text' rest : List Char} {p q : String}
    (hq : Lexes .standard .text q.toList (textKinds text') .text rest)
    (hboth : Lexes .standard .text (p ++ q).toList (before ++ textKinds (text ++ text')) .text rest)
    (hrest : FollowsText rest) :
    LexAlike before (String.ofList text) (tokenize q) (tokenize (p ++ q)) := by
  have hopening : ∀ {us : List Token} {after}, us.map Token.kind = textKinds text' ++ after →
      (∀ kind ∈ after.head?, kind.text? = none) →
      openingText (us.map Token.kind) = String.ofList text' := by
    intro us after hus hafter
    rw [hus, openingText_textKinds_append hafter]
  rcases hrest with rfl | hopener
  · obtain ⟨us, htokens, hus⟩ := exists_tokens_of_lexes hq
    obtain ⟨vs, htokens', hvs⟩ := exists_tokens_of_lexes hboth
    rw [show tokenize q = .ok us from htokens, show tokenize (p ++ q) = .ok vs from htokens']
    have hopen := hopening (hus.trans (List.append_nil _).symm) nofun
    refine .ok [] ?_ ?_
    · rw [hopen, String.toList_ofList, hus, List.append_nil]
    · rw [hopen, ← String.ofList_append, String.toList_ofList, hvs, List.append_nil]
  · obtain ⟨kind, mode', after, -, hkind, -, -, hopen⟩ := exists_lexes_of_atOpener hopener
    have henter := hopen []
    rw [List.append_nil, List.append_nil] at henter
    obtain ⟨steps, pos, found, hsteps, hfound, heq⟩ :=
      hq.trans henter q.toList.length .start [] (Nat.le_refl _)
    obtain ⟨steps', pos', found', hsteps', hfound', heq'⟩ :=
      hboth.trans henter (p ++ q).toList.length .start [] (Nat.le_refl _)
    have halike : FindAlike (found.reverse ++ []) (found'.reverse ++ []) (tokenize q)
        (tokenize (p ++ q)) := by
      change FindAlike _ _ (tokensFrom _ q.toList.length _ _ _ _)
        (tokensFrom _ (p ++ q).toList.length _ _ _ _)
      rw [heq, heq']
      exact findAlike_tokensFrom .standard hsteps hsteps'
    generalize tokenize q = result at halike ⊢
    generalize tokenize (p ++ q) = result' at halike ⊢
    cases halike with
    | error d d' => exact .error d d'
    | ok more more' hmore =>
      rw [List.append_nil, List.append_nil, List.reverse_reverse, List.reverse_reverse]
      have hus : (found ++ more).map Token.kind =
          textKinds text' ++ kind :: more.map Token.kind := by
        rw [List.map_append, hfound, List.append_assoc, List.singleton_append]
      have hopen := hopening hus (by simpa using hkind)
      refine .ok (kind :: more.map Token.kind) ?_ ?_
      · rw [hopen, String.toList_ofList, hus]
      · rw [hopen, ← String.ofList_append, String.toList_ofList, List.map_append, hfound', hmore,
          List.append_assoc, List.singleton_append]

/-- Two templates that are put together are lexed as they are lexed alone, but for the texts at
the seam. -/
theorem lexAlike_tokenize {p q : String} {ts : List Token} (hp : tokenize p = .ok ts)
    (hbrace : p.toList.getLast? ≠ some '\x7b') (hbreak : Flush q.toList) :
    ∃ before closing, ts.map Token.kind = before ++ textKinds closing.toList ∧
      closing = closingText (ts.map Token.kind) ∧
      LexAlike before closing (tokenize q) (tokenize (p ++ q)) := by
  obtain ⟨before, text, hcloses⟩ := exists_closesWith hp (Nat.le_refl _)
  have hwhole := (hcloses.lexes [] (by simp [Flush])).trans
    (lexes_text hcloses.literal (Or.inl rfl))
  rw [List.append_nil] at hwhole
  obtain ⟨ts', hts', hkinds⟩ := exists_tokens_of_lexes hwhole
  obtain rfl : ts = ts' := Except.ok.inj (hp.symm.trans hts')
  refine ⟨before, String.ofList text, by rw [String.toList_ofList, hkinds],
    by rw [hkinds, closingText_append_textKinds hcloses.closed], ?_⟩
  have hbrace' : text.getLast? ≠ some '\x7b' := by
    obtain ⟨pre, hpre⟩ := hcloses.isSuffix
    intro hlast
    rw [← hpre, List.getLast?_append, hlast] at hbrace
    exact hbrace rfl
  obtain ⟨text', rest, hq, htext', hrest⟩ := exists_literal_append q.toList
  have hsecond : Lexes .standard .text q.toList (textKinds text') .text rest := by
    rw [hq]
    exact lexes_text htext' hrest
  have hbefore := hcloses.lexes q.toList hbreak
  rw [← String.toList_append, hq, ← List.append_assoc] at hbefore
  have hboth := hbefore.trans (lexes_text (hcloses.literal.append htext' hbrace') hrest)
  exact lexAlike_of_lexes hsecond hboth hrest

end Stencil
