import Stencil.Proofs.Grammar.Agreement.Program
import Stencil.Proofs.Grammar.Complaints

/-!
Templates put together. If a template is a program, then what is put behind it is a
program exactly if it is one by itself, and the statements are those of the one followed
by those of the other, up to positions. Only a text at the end of the first and a text at
the beginning of the second become one. The exceptions are a brace at the end, which might
open a block together with what follows, and a line break at the seam, which a code block
would take along.
-/

namespace Stencil

namespace Program

def literal (text : String) : Program := if text = "" then [] else [.text text]

def closingText (source : String) : String :=
  match tokenize source with
  | .ok tokens => Stencil.closingText (tokens.map Token.kind)
  | .error _ => ""

def openingText (source : String) : String :=
  match tokenize source with
  | .ok tokens => Stencil.openingText (tokens.map Token.kind)
  | .error _ => ""

end Program

open Lexer Grammar

section Literal

variable {text : String} {after : List TokenKind} {m : Nat} {last : Position} {ts : List Token}

theorem allText_textKinds (text : List Char) : AllText (textKinds text) := by
  intro kind hkind
  unfold textKinds at hkind
  split at hkind
  · cases hkind
  · obtain rfl := List.mem_singleton.mp hkind
    exact Option.some_ne_none _

theorem length_textKinds_le (text more : List Char) :
    (textKinds text).length ≤ (textKinds (text ++ more)).length := by
  cases text with
  | nil => exact Nat.zero_le _
  | cons c text => exact Nat.le_refl _

/-- A text is a block of its own. -/
theorem exists_blocks_after_text (h : ts.map Token.kind = textKinds text.toList ++ after)
    (hm : ts.length ≤ m) : ∃ m' rest, rest.map Token.kind = after ∧ rest.length ≤ m' ∧
      blocks m last ts = behind (Program.literal text) (blocks m' last rest) := by
  by_cases htext : text = ""
  · subst htext
    exact ⟨m, ts, h, hm, (behind_nil _).symm⟩
  · have hkinds : textKinds text.toList = [.text text] := by
      rw [textKinds, if_neg (by simpa using htext), String.ofList_toList]
    rw [hkinds, List.singleton_append, List.map_eq_cons_iff] at h
    obtain ⟨⟨_, pos⟩, rest, rfl, rfl, hrest⟩ := h
    obtain ⟨m, rfl⟩ : ∃ l, m = l + 1 := ⟨m - 1, by rw [List.length_cons] at hm; omega⟩
    refine ⟨m, rest, hrest, Nat.le_of_succ_le_succ hm, ?_⟩
    rw [Program.literal, if_neg htext]
    exact bind_append_eq_behind [.text text] (blocks m) last rest

/-- Tokens of text alone make the literal of that text. -/
theorem blocks_of_textKinds (h : ts.map Token.kind = textKinds text.toList) (hm : ts.length ≤ m) :
    blocks m last ts = .ok (Program.literal text, []) := by
  obtain ⟨m', rest, hrest, -, hread⟩ : ∃ m' rest, _ ∧ _ ∧ blocks m last ts = _ :=
    exists_blocks_after_text (h.trans (List.append_nil _).symm) hm
  obtain rfl := List.map_eq_nil_iff.mp hrest
  have hend : blocks m' last [] = .ok ([], []) := by
    cases m' <;> rfl
  rw [hread, hend]
  exact congrArg (fun program => Except.ok (program, [])) (List.append_nil _)

end Literal

namespace Program

/-- A program that has been read so far is put before what the rest is read as. -/
theorem ofTokens_of_behind {tokens : List Token} {before : Program}
    {result : Except Diagnostic (Program × List Token)}
    (h : blocks tokens.length (lastPosition tokens) tokens = behind before result) :
    ofTokens tokens = result.map fun read => before ++ read.1 := by
  rw [ofTokens, h]
  cases result <;> rfl

/-- The texts at the seam make one block. What stands behind them is read alike in both token
lists, whether it is read or refused. -/
theorem exists_ofTokens_append {before : List TokenKind} {closing : String} {ts us vs : List Token}
    {after : List TokenKind} {ps : Program} (hp : ofTokens ts = .ok ps)
    (hts : ts.map Token.kind = before ++ textKinds closing.toList)
    {opening : String} (hus : us.map Token.kind = textKinds opening.toList ++ after)
    (hvs : vs.map Token.kind = before ++ textKinds (closing ++ opening).toList ++ after) :
    (∃ d d', ofTokens us = .error d ∧ ofTokens vs = .error d') ∨
      ∃ first rest first' rest', ps = first ++ literal closing ∧
        ofTokens us = .ok (literal opening ++ rest) ∧
        ofTokens vs = .ok (first' ++ literal (closing ++ opening) ++ rest') ∧
        first.map Stmt.unplaced = first'.map Stmt.unplaced ∧
        rest.map Stmt.unplaced = rest'.map Stmt.unplaced := by
  unfold ofTokens at hp
  split at hp
  case h_2 => cases hp
  next program left hread =>
  cases hp
  have htogether : Together (textKinds closing.toList)
      (textKinds (closing ++ opening).toList ++ after) ts vs :=
    together_of_map hts (hvs.trans (List.append_assoc ..))
  have hlength : ts.length ≤ vs.length := by
    have htails := htogether.length
    have hle := length_textKinds_le closing.toList opening.toList
    rw [List.length_append, String.toList_append] at htails
    omega
  obtain ⟨first, first', budget, rest, rfl, hfirst, hrest, hbudget, hvsread⟩ :=
    resumes_blocks (lastPosition vs) (allText_textKinds _) (fun _ _ _ => blocks_of_textKinds)
      htogether ⟨hlength, Nat.le_refl _, Nat.le_refl _, Nat.le_refl _, Nat.le_refl _⟩
      (Nat.le_refl _) (Nat.le_refl _) hread
  obtain ⟨m, rest₁, hrest₁, hm, hread₁⟩ :
    ∃ m rest₁, _ ∧ _ ∧ blocks budget (lastPosition vs) rest = _ :=
    exists_blocks_after_text hrest hbudget
  obtain ⟨m', rest₂, hrest₂, hm', hread₂⟩ :
    ∃ m rest₂, _ ∧ _ ∧ blocks us.length (lastPosition us) us = _ :=
    exists_blocks_after_text hus (Nat.le_refl _)
  rw [hread₁, behind_behind] at hvsread
  have halike : Alike [] [] (List.map Stmt.unplaced) (blocks m' (lastPosition us) rest₂)
      (blocks m (lastPosition vs) rest₁) := by
    have hlength' : rest₂.length = rest₁.length := by
      rw [← List.length_map (f := Token.kind), hrest₂, ← hrest₁, List.length_map]
    refine (agrees_blocks ⟨Nat.le_of_eq hlength', hm', hm, Nat.le_refl _, Nat.le_refl _⟩).alike ?_
      (Nat.le_refl _) (Nat.le_refl _)
    exact together_of_map (hrest₂.trans (List.append_nil _).symm)
      (hrest₁.trans (List.append_nil _).symm)
  rw [ofTokens_of_behind hread₂, ofTokens_of_behind hvsread]
  generalize blocks m' (lastPosition us) rest₂ = result at halike ⊢
  generalize blocks m (lastPosition vs) rest₁ = result' at halike ⊢
  cases halike with
  | error d d' => exact Or.inl ⟨d, d', rfl, rfl⟩
  | spent htails hspent => exact absurd ⟨rfl, rfl⟩ htails
  | @ok after after' _ _ hafter =>
    exact Or.inr ⟨first, after, first', after', rfl, rfl, rfl, hfirst, hafter⟩

/-- Behind a program `p` that does not end in a brace, a template `q` that does not begin
with a line break makes a program exactly if it is one by itself. The two then follow each
other in it: the statements of `p` up to its closing text, the closing text and the opening
text of `q` as one, and the statements of `q` behind its opening text. -/
theorem ofSource_append {p q : String} {ps : Program} (hp : ofSource p = .ok ps)
    (hbrace : p.toList.getLast? ≠ some '\x7b')
    (hbreak : ∀ c ∈ q.toList.head?, c ≠ '\n' ∧ c ≠ '\r') :
    ((∃ rs, ofSource (p ++ q) = .ok rs) ↔ ∃ qs, ofSource q = .ok qs) ∧
      ∀ qs rs, ofSource q = .ok qs → ofSource (p ++ q) = .ok rs → ∃ before after,
        ps = before ++ literal (closingText p) ∧ qs = literal (openingText q) ++ after ∧
        rs.unplaced = unplaced (before ++ literal (closingText p ++ openingText q) ++ after) := by
  have hflush : Flush q.toList := by
    intro c hc
    obtain ⟨hnewline, hreturn⟩ := hbreak c hc
    simp [isLineBreak, hnewline, hreturn]
  unfold ofSource at hp
  split at hp
  case h_2 => cases hp
  next ts htokens =>
  obtain ⟨before, closing, hts, hclosing, halike⟩ := lexAlike_tokenize htokens hbrace hflush
  have hclosing' : closingText p = closing := by
    rw [closingText, htokens, hclosing]
  generalize hq : tokenize q = result at halike
  generalize hboth : tokenize (p ++ q) = result' at halike
  cases halike with
  | error d d' =>
    have hfail : ofSource q = .error d := by rw [ofSource, hq]
    have hfail' : ofSource (p ++ q) = .error d' := by rw [ofSource, hboth]
    simp [hfail, hfail']
  | @ok us vs after hus hvs =>
    have hopening : openingText q = Stencil.openingText (us.map Token.kind) := by
      rw [openingText, hq]
    have hread : ofSource q = ofTokens us := by rw [ofSource, hq]
    have hread' : ofSource (p ++ q) = ofTokens vs := by rw [ofSource, hboth]
    rcases exists_ofTokens_append hp hts hus hvs with ⟨d, d', hfail, hfail'⟩ |
      ⟨first, rest, first', rest', rfl, hok, hok', hfirst, hrest⟩
    · simp [hread, hread', hfail, hfail']
    · refine ⟨⟨fun _ => ⟨_, hread.trans hok⟩, fun _ => ⟨_, hread'.trans hok'⟩⟩, ?_⟩
      intro qs rs hqs hrs
      rw [hread, hok] at hqs
      rw [hread', hok'] at hrs
      cases hqs
      cases hrs
      rw [hclosing', hopening]
      refine ⟨first, rest, rfl, rfl, ?_⟩
      simp only [unplaced, List.map_append, hfirst, hrest]

/-! The text behind a reference goes on in the template that follows. -/

namespace Greeting

def first : String := "\x7b: name :\x7d, go"

def second : String := "od \x7b: time :\x7d"

def firstProgram : Program :=
  [.reference (.parallel [[.ident "name" ⟨3, 1⟩]]) ⟨0, 1⟩, .text ", go"]

def secondProgram : Program :=
  [.text "od ", .reference (.parallel [[.ident "time" ⟨6, 1⟩]]) ⟨3, 1⟩]

theorem tokenize_first : (tokenize first).toOption = some [⟨.refOpen, ⟨0, 1⟩⟩,
    ⟨.ident "name", ⟨3, 1⟩⟩, ⟨.refClose, ⟨8, 1⟩⟩, ⟨.text ", go", ⟨10, 1⟩⟩] := by decide +kernel

theorem tokenize_second : (tokenize second).toOption = some [⟨.text "od ", ⟨0, 1⟩⟩,
    ⟨.refOpen, ⟨3, 1⟩⟩, ⟨.ident "time", ⟨6, 1⟩⟩, ⟨.refClose, ⟨11, 1⟩⟩] := by decide +kernel

theorem ofSource_first : ofSource first = .ok firstProgram := by
  rw [ofSource_of_tokens tokenize_first]
  rfl

theorem ofSource_second : ofSource second = .ok secondProgram := by
  rw [ofSource_of_tokens tokenize_second]
  rfl

theorem closingText_first : closingText first = ", go" := by decide +kernel

theorem openingText_second : openingText second = "od " := by decide +kernel

/-- The program of the two templates together. -/
theorem first_append_second : ofSource first = .ok firstProgram ∧
    first.toList.getLast? ≠ some '\x7b' ∧ (∀ c ∈ second.toList.head?, c ≠ '\n' ∧ c ≠ '\r') ∧
    ∃ rs, ofSource (first ++ second) = .ok rs ∧ rs.unplaced =
      [.reference (.parallel [[.ident "name" .start]]) .start, .text ", good ",
        .reference (.parallel [[.ident "time" .start]]) .start] := by
  have hbrace : first.toList.getLast? ≠ some '\x7b' := by decide
  have hbreak : ∀ c ∈ second.toList.head?, c ≠ '\n' ∧ c ≠ '\r' := by
    have hhead : second.toList.head? = some 'o' := rfl
    intro c hc
    obtain rfl : 'o' = c := Option.some.inj (hhead.symm.trans hc)
    decide
  obtain ⟨hiff, hparts⟩ := ofSource_append ofSource_first hbrace hbreak
  obtain ⟨rs, hrs⟩ := hiff.mpr ⟨secondProgram, ofSource_second⟩
  obtain ⟨before, after, hfirst, hsecond, hunplaced⟩ := hparts _ rs ofSource_second hrs
  rw [closingText_first] at hfirst hunplaced
  rw [openingText_second] at hsecond hunplaced
  obtain rfl : [_] = before := List.append_cancel_right hfirst
  obtain rfl : [_] = after := congrArg List.tail hsecond
  exact ⟨ofSource_first, hbrace, hbreak, rs, hrs, hunplaced⟩

end Greeting

end Program

end Stencil
