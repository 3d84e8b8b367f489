import Mathlib.Data.String.Basic
import Stencil.Proofs.Token.Cut

/-!
The caret under the place of a failure. A byte offset between two characters lies in one
line of the source, which reaches from the newline before it to the newline behind it. That
line is shown without the returns at its end, and the caret stands behind as many blanks as
the line has characters before the offset, so it stands under the character at the offset
unless the line has no more to show there. Any other offset has no excerpt.
-/

namespace Stencil

namespace Text

/-- Trimming at the end takes unwanted characters and leaves none there. -/
theorem exists_dropEnd_append (unwanted : Char → Bool) (cs : List Char) :
    ∃ dropped, cs = dropEnd unwanted cs ++ dropped ∧ (∀ c ∈ dropped, unwanted c = true) ∧
      ∀ c ∈ (dropEnd unwanted cs).getLast?, unwanted c = false := by
  refine ⟨(cs.reverse.takeWhile unwanted).reverse, ?_, ?_, ?_⟩
  · rw [dropEnd, ← List.reverse_append, List.takeWhile_append_dropWhile, List.reverse_reverse]
  · intro c hc
    exact Lexer.of_mem_takeWhile (List.mem_reverse.mp hc)
  · intro c hc
    rw [dropEnd, List.getLast?_reverse] at hc
    have hhead := List.head?_dropWhile_not unwanted cs.reverse
    rw [Option.mem_def.mp hc] at hhead
    exact hhead

end Text

namespace Excerpt

variable {passed before after cs : List Char} {offset : Nat}

/-- The input is divided behind as many bytes as were asked for: each character that is passed
takes its bytes off the offset. -/
theorem splitAtByteFrom_eq_some_iff : splitAtByteFrom passed offset cs = some (before, after) ↔
    ∃ taken, cs = taken ++ after ∧ Lexer.utf8Length taken = offset ∧
      before = taken.reverse ++ passed := by
  have hzero : ∀ {taken}, Lexer.utf8Length taken = 0 → taken = [] := by
    intro taken hlength
    by_contra hne
    have hpos := Lexer.utf8Length_pos hne
    omega
  induction cs generalizing passed offset with
  | nil =>
    cases offset with
    | zero => simp [splitAtByteFrom, Lexer.utf8Length, and_comm, eq_comm]
    | succ offset => simp [splitAtByteFrom, Lexer.utf8Length]
  | cons c rest ih =>
    cases offset with
    | zero =>
      rw [splitAtByteFrom, Option.some_inj, Prod.mk.injEq]
      constructor
      · rintro ⟨rfl, rfl⟩
        exact ⟨[], rfl, rfl, rfl⟩
      · rintro ⟨taken, hcs, hlength, rfl⟩
        obtain rfl := hzero hlength
        exact ⟨rfl, hcs⟩
    | succ offset =>
      have htaken : ∀ {taken}, c :: rest = taken ++ after → Lexer.utf8Length taken = offset + 1 →
          ∃ others, taken = c :: others ∧ rest = others ++ after ∧
            c.utf8Size + Lexer.utf8Length others = offset + 1 := by
        intro taken hcs hlength
        cases taken with
        | nil => cases hlength
        | cons c' others =>
          obtain ⟨rfl, hrest⟩ := List.cons.inj hcs
          exact ⟨others, rfl, hrest, hlength⟩
      rw [splitAtByteFrom]
      by_cases hsize : c.utf8Size ≤ offset + 1
      · rw [if_pos hsize]
        refine ih.trans ⟨?_, ?_⟩
        · rintro ⟨others, rfl, hlength, rfl⟩
          refine ⟨c :: others, rfl, ?_, by simp⟩
          rw [Lexer.utf8Length_cons]
          omega
        · rintro ⟨taken, hcs, hlength, rfl⟩
          obtain ⟨others, rfl, hrest, hlength⟩ := htaken hcs hlength
          exact ⟨others, hrest, by omega, by simp⟩
      · rw [if_neg hsize]
        constructor
        · intro hnone
          cases hnone
        · rintro ⟨taken, hcs, hlength, rfl⟩
          obtain ⟨others, rfl, -, hlength⟩ := htaken hcs hlength
          omega

theorem utf8Len_eq (cs : List Char) : String.utf8Len cs = Lexer.utf8Length cs := by
  induction cs with
  | nil => rfl
  | cons c cs ih => rw [String.utf8Len_cons, ih, Lexer.utf8Length_cons, Nat.add_comm]

/-- The character at a place is the next one. -/
theorem get?_eq_head? {source : String} {taken rest : List Char}
    (h : source.toList = taken ++ rest) :
    String.Pos.Raw.get? source ⟨Lexer.utf8Length taken⟩ = rest.head? := by
  rw [← String.ofList_toList (s := source), h, ← utf8Len_eq]
  exact String.get?_of_valid taken rest

/-- The place of an offset in its line: what stands before the line, in the line before and
behind the offset, and behind the line. -/
structure LineAt (source : String) (offset : Nat) (before start stop after : List Char) :
    Prop where
  source_eq : source.toList = before ++ start ++ (stop ++ after)
  offset_eq : Lexer.utf8Length (before ++ start) = offset
  start_unbroken : '\n' ∉ start
  stop_unbroken : '\n' ∉ stop
  before_ends : before = [] ∨ before.getLast? = some '\n'
  after_begins : after = [] ∨ after.head? = some '\n'

/-- The input up to its first newline. -/
theorem exists_takeWhile_append (cs : List Char) : ∃ rest, cs = cs.takeWhile (· != '\n') ++ rest ∧
    '\n' ∉ cs.takeWhile (· != '\n') ∧ (rest = [] ∨ rest.head? = some '\n') := by
  refine ⟨cs.dropWhile (· != '\n'), List.takeWhile_append_dropWhile.symm, ?_, ?_⟩
  · intro hmem
    have hkept := Lexer.of_mem_takeWhile hmem
    simp at hkept
  · cases hrest : cs.dropWhile (· != '\n') with
    | nil => exact Or.inl rfl
    | cons c rest =>
      have hhead := List.head?_dropWhile_not (· != '\n') cs
      rw [hrest] at hhead
      have hc : c = '\n' := by simpa using hhead
      exact Or.inr (by rw [hc]; rfl)

/-- The line of an offset that is reached by the characters taken. -/
theorem exists_lineAt {source : String} {taken rest : List Char}
    (hsource : source.toList = taken ++ rest) : ∃ before after,
      LineAt source (Lexer.utf8Length taken) before (taken.reverse.takeWhile (· != '\n')).reverse
        (rest.takeWhile (· != '\n')) after := by
  obtain ⟨earlier, htaken, hstart, hearlier⟩ := exists_takeWhile_append taken.reverse
  obtain ⟨after, hrest, hstop, hafter⟩ := exists_takeWhile_append rest
  have htaken' : taken =
      earlier.reverse ++ (taken.reverse.takeWhile (· != '\n')).reverse := by
    rw [← List.reverse_append, ← htaken, List.reverse_reverse]
  refine ⟨earlier.reverse, after, ?_, ?_, ?_, hstop, ?_, hafter⟩
  · rw [← htaken', ← hrest, hsource]
  · rw [← htaken']
  · rwa [List.mem_reverse]
  · rwa [List.reverse_eq_nil_iff, List.getLast?_reverse]

/-- The line that is shown still has the character at the offset if it is not one of the
returns at the end. -/
theorem getElem?_of_mem_stop {start stop shown dropped : List Char}
    (hline : start ++ stop = shown ++ dropped) (hdropped : ∀ c ∈ dropped, c = '\r')
    (hstop : ∃ c ∈ stop, c ≠ '\r') : shown[start.length]? = stop.head? := by
  have hlt : start.length < shown.length := by
    by_contra hge
    rw [Nat.not_lt] at hge
    obtain ⟨c, hc, hne⟩ := hstop
    have hsuffix : stop <:+ dropped := by
      refine List.suffix_of_suffix_length_le (List.suffix_append start stop) ?_ ?_
      · rw [hline]
        exact List.suffix_append shown dropped
      · have hlength := congrArg List.length hline
        rw [List.length_append, List.length_append] at hlength
        omega
    exact hne (hdropped c (hsuffix.subset hc))
  have hshown : (shown ++ dropped)[start.length]? = shown[start.length]? :=
    List.getElem?_append_left hlt
  rw [← hshown, ← hline, List.getElem?_append_right (Nat.le_refl _), Nat.sub_self,
    List.head?_eq_getElem?]

/-- An offset has an excerpt if it lies between two characters. The excerpt shows the line
of the offset without the returns at its end, and the caret in the column of the offset:
under the character at the offset, unless that is the end of the source, a newline or one
of these returns. -/
theorem caret_points_at_offset (source : String) (offset : Nat) :
    (¬(⟨offset⟩ : String.Pos.Raw).IsValid source → pointer? source offset = none) ∧
    ((⟨offset⟩ : String.Pos.Raw).IsValid source →
      ∃ before start stop after shown returns,
        LineAt source offset before start stop after ∧
        start ++ stop = shown ++ returns ∧ (∀ c ∈ returns, c = '\r') ∧
        shown.getLast? ≠ some '\r' ∧
        pointer? source offset = some ("    " ++ String.ofList shown ++ "\n    " ++
          String.ofList (List.replicate start.length ' ') ++ "^\n") ∧
        ∀ c, String.Pos.Raw.get? source ⟨offset⟩ = some c →
          ¬(∀ c' ∈ stop, c' = '\r') → shown[start.length]? = some c) := by
  constructor
  · intro hinvalid
    rw [pointer?, Option.map_eq_none_iff, Option.eq_none_iff_forall_ne_some]
    rintro ⟨before, after⟩ hsplit
    obtain ⟨taken, hsource, hlength, -⟩ := splitAtByteFrom_eq_some_iff.mp hsplit
    exact hinvalid (Lexer.isValid_iff.mpr ⟨taken, after, hsource, hlength⟩)
  · intro hvalid
    obtain ⟨taken, rest, hsource, rfl⟩ := Lexer.isValid_iff.mp hvalid
    have hsplit : splitAtByteFrom [] (Lexer.utf8Length taken) source.toList =
        some (taken.reverse, rest) :=
      splitAtByteFrom_eq_some_iff.mpr ⟨taken, hsource, rfl, (List.append_nil _).symm⟩
    obtain ⟨before, after, hat⟩ := exists_lineAt hsource
    generalize hstart : (taken.reverse.takeWhile (· != '\n')).reverse = start at hat
    generalize hstop : rest.takeWhile (· != '\n') = stop at hat
    obtain ⟨returns, hline, hreturns, hlast⟩ :=
      Text.exists_dropEnd_append (· = '\r') (start ++ stop)
    have hreturns' : ∀ c ∈ returns, c = '\r' := fun c hc => of_decide_eq_true (hreturns c hc)
    refine ⟨before, start, stop, after, _, returns, hat, hline, hreturns', ?_, ?_, ?_⟩
    · intro hreturn
      have hkept := hlast '\r' hreturn
      simp at hkept
    · rw [pointer?, hsplit, Option.map_some]
      dsimp only
      rw [hstart, hstop]
    · intro c hc hmore
      have hmore' : ∃ c' ∈ stop, c' ≠ '\r' := by simpa using hmore
      rw [getElem?_of_mem_stop hline hreturns' hmore']
      have hget := get?_eq_head? hat.source_eq
      rw [hat.offset_eq, hc] at hget
      obtain ⟨c', hc', -⟩ := hmore'
      cases stop with
      | nil => cases hc'
      | cons c'' stop => exact hget.symm

/-- The second line, behind a character of two bytes. -/
example : pointer? "a\né→b\r\n" 4 = some "    é→b\n     ^\n" := by decide

end Excerpt

end Stencil
