import Stencil.Proofs.Grammar.Texts

/-!
Complaints about a text. A text that is no program is reported as what it is: its
characters make no tokens, or its tokens follow no rule of the grammar. Readers that carry
texts fail with nothing else, and the reader of programs is one of them.
-/

namespace Stencil

/-- A complaint is one of the lexer or of the grammar, and no frame has passed it on. -/
theorem Diagnostic.kind_and_trace_of_isAboutText {d : Diagnostic} (h : d.isAboutText = true) :
    d.kind ∈ [DiagnosticKind.lexical, .grammar] ∧ d.trace = [] := by
  unfold isAboutText at h
  unfold kind
  split at h
  · next hcause =>
    rw [hcause]
    exact ⟨List.mem_cons_self .., List.isEmpty_iff.mp h⟩
  · next hcause =>
    rw [hcause]
    exact ⟨List.mem_cons_of_mem _ (List.mem_cons_self ..), List.isEmpty_iff.mp h⟩
  · cases h

/-- The lexer complains about the text. -/
theorem Lexer.isAboutText_of_tokensFrom {delimiters : Delimiters} {steps : Nat} {mode : Mode}
    {pos : Position} {tokens : List Token} {cs : List Char} {d : Diagnostic}
    (h : tokensFrom delimiters steps mode pos tokens cs = .error d) : d.isAboutText = true := by
  induction steps generalizing mode pos tokens cs with
  | zero =>
    obtain ⟨-, rfl⟩ := finish_eq_error_iff.mp h
    rfl
  | succ steps ih =>
    cases cs with
    | nil =>
      obtain ⟨-, rfl⟩ := finish_eq_error_iff.mp h
      rfl
    | cons c rest =>
      unfold tokensFrom at h
      split at h
      · cases h
        rfl
      · exact ih h

/-- A text is read as its tokens are. -/
theorem Program.ofSource_of_tokens {source : String} {tokens : List Token}
    (h : (tokenize source).toOption = some tokens) : ofSource source = ofTokens tokens := by
  rw [ofSource, tokenize_eq_ok h]

/-- A text that is no program is reported as such. -/
theorem Program.isAboutText_of_ofSource {source : String} {d : Diagnostic}
    (h : ofSource source = .error d) : d.isAboutText = true := by
  unfold ofSource at h
  split at h
  · next tokens htokens =>
    have hblocks := Grammar.Carries.blocks tokens.length (Grammar.lastPosition tokens) tokens
    unfold ofTokens at h
    split at h
    · cases h
    · next d' hread =>
      cases h
      rw [hread] at hblocks
      exact hblocks
  · next d' htokens =>
    cases h
    exact Lexer.isAboutText_of_tokensFrom htokens

end Stencil
