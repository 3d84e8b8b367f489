import Mathlib.Data.List.TakeWhile
import Mathlib.Tactic.IntervalCases
import Stencil.Proofs.Eval.Arithmetic
import Stencil.Proofs.Template.Rendering
import Stencil.Proofs.Token.Spelling

/-!
Whole numbers that are written and read. A number is written as its decimal digits, after a
minus sign if it is negative. The type of whole numbers reads every such text back. The
lexer reads digits without a sign, so a reference block of the text holds the number itself
or the negation of its absolute value. All numbers but the least one are found again in
this way; the digits of the least one are out of the range of a token.
-/

namespace Stencil

namespace Text

variable {unwanted : Char → Bool} {cs : List Char}

theorem dropWhile_of_forall (h : ∀ c ∈ cs, unwanted c = false) : cs.dropWhile unwanted = cs := by
  refine List.dropWhile_eq_self_iff.mpr fun hlength => ?_
  rw [h _ (List.getElem_mem hlength)]
  exact Bool.false_ne_true

theorem dropEnds_of_forall (h : ∀ c ∈ cs, unwanted c = false) : dropEnds unwanted cs = cs := by
  rw [dropEnds, dropStart, dropWhile_of_forall h, dropEnd, dropWhile_of_forall,
    List.reverse_reverse]
  intro c hc
  exact h c (List.mem_reverse.mp hc)

theorem isBlank_eq_false_of_isDigit {c : Char} (h : c.isDigit = true) : isBlank c = false := by
  obtain ⟨hlower, hupper⟩ := Char.isDigit_iff_toNat.mp h
  have hlower : 48 ≤ c.toNat := hlower
  have hupper : c.toNat ≤ 57 := hupper
  unfold isBlank CharSet.contains
  generalize c.toNat = code at hlower hupper ⊢
  interval_cases code <;> rfl

end Text

namespace Number

def decimal (n : Int64) : String :=
  (if n.toInt < 0 then "-" else "") ++ toString n.toInt.natAbs

theorem isDigit_of_mem_toDigits (k : Nat) : ∀ c ∈ Nat.toDigits 10 k, c.isDigit = true :=
  fun _ hc => Nat.isDigit_of_mem_toDigits (by decide) (by decide) hc

variable {n : Int64}

theorem decimal_eq_toString (n : Int64) : decimal n = toString n.toInt := by
  rw [decimal, Int.toString_eq_repr, Int.repr_eq_if, Nat.toString_eq_repr]
  by_cases h : n.toInt < 0
  · rw [if_pos h, if_neg (by omega)]
    congr 2
    omega
  · rw [if_neg h, if_pos (by omega), String.empty_append]
    congr 1
    omega

theorem toList_decimal_of_nonneg (h : 0 ≤ n.toInt) :
    (decimal n).toList = Nat.toDigits 10 n.toInt.natAbs := by
  rw [decimal, if_neg (by omega), String.empty_append, Nat.toString_eq_repr, Nat.toList_repr]

theorem toList_decimal_of_neg (h : n.toInt < 0) :
    (decimal n).toList = '-' :: Nat.toDigits 10 n.toInt.natAbs := by
  rw [decimal, if_pos h, String.toList_append, Nat.toString_eq_repr, Nat.toList_repr]
  rfl

theorem isBlank_eq_false_of_mem_decimal {c : Char} (hc : c ∈ (decimal n).toList) :
    Text.isBlank c = false := by
  have hdigit := isDigit_of_mem_toDigits n.toInt.natAbs c
  by_cases h : n.toInt < 0
  · rw [toList_decimal_of_neg h] at hc
    rcases List.mem_cons.mp hc with rfl | hc
    · decide
    · exact Text.isBlank_eq_false_of_isDigit (hdigit hc)
  · rw [toList_decimal_of_nonneg (by omega)] at hc
    exact Text.isBlank_eq_false_of_isDigit (hdigit hc)

/-- A number is written without blanks. -/
theorem trim_decimal (n : Int64) : Text.trim (decimal n) = decimal n := by
  rw [Text.trim, Text.dropEnds_of_forall fun _ => isBlank_eq_false_of_mem_decimal,
    String.ofList_toList]

/-- Digits alone have no sign. -/
theorem splitSign_digits {cs : List Char} (h : ∀ c ∈ cs, c.isDigit = true) :
    splitSign cs = (false, cs) := by
  unfold splitSign
  split
  · exact absurd (h '-' List.mem_cons_self) (by decide)
  · exact absurd (h '+' List.mem_cons_self) (by decide)
  · rfl

/-- A number that was written is read back. -/
theorem readInt?_decimal (n : Int64) : readInt? (decimal n) = some n := by
  have hdigits : (Nat.toDigits 10 n.toInt.natAbs).all Char.isDigit = true :=
    List.all_eq_true.mpr (isDigit_of_mem_toDigits _)
  have hnonempty : (Nat.toDigits 10 n.toInt.natAbs).isEmpty = false :=
    List.isEmpty_eq_false_iff.mpr Nat.toDigits_ne_nil
  have hlower := n.le_toInt
  have hupper := n.toInt_lt
  have hgreatest : greatestInt = 9223372036854775807 := rfl
  by_cases h : n.toInt < 0
  · have habs : n.toInt.natAbs ≤ greatestInt + 1 := by omega
    have hvalue : -(n.toInt.natAbs : Int) = n.toInt := by omega
    rw [readInt?, toList_decimal_of_neg h]
    simp only [splitSign, hnonempty, hdigits, Bool.not_true, Bool.or_self, Bool.false_eq_true,
      if_false, Lexer.readDigits_toDigits, if_true, habs, hvalue, Int64.ofInt_toInt]
  · have habs : n.toInt.natAbs ≤ greatestInt := by omega
    have hvalue : (n.toInt.natAbs : Int) = n.toInt := by omega
    rw [readInt?, toList_decimal_of_nonneg (by omega)]
    simp only [splitSign_digits (isDigit_of_mem_toDigits _), hnonempty, hdigits, Bool.not_true,
      Bool.or_self, Bool.false_eq_true, if_false, Lexer.readDigits_toDigits, habs, if_true, hvalue,
      Int64.ofInt_toInt]

end Number

/-! Casts. -/

namespace Eval

variable {ex : Executor} {m : Machine} {callee v : Value} {n : Int64}

/-- A call of a type that makes its object of a value. -/
theorem callValue_convert {tag : TypeTag} {object : Object}
    (hcallee : m.store.get callee = .type tag)
    (h : tag.convert v m.store = Action.make object m.store) (pos : Position) :
    callValue ex callee [v] pos m = make object m := by
  have hcall : callValue ex callee [v] pos m = act pos (tag.convert v) m := by
    unfold callValue
    rw [load_bind, hcallee]
    rfl
  rw [hcall, act_makes h, make_adding]

/-- The type of texts writes a number in decimal digits. -/
theorem callValue_string (hcallee : m.store.get callee = .type .string)
    (hv : m.store.get v = .int n) (pos : Position) :
    callValue ex callee [v] pos m = make (.str (Number.decimal n)) m := by
  refine callValue_convert hcallee ?_ pos
  have hdisplay : (m.store.get v).display = Number.decimal n := by
    rw [hv, Number.decimal_eq_toString]
    rfl
  rw [← hdisplay]
  rfl

/-- The type of whole numbers reads a number that was written so. -/
theorem callValue_int (hcallee : m.store.get callee = .type .int)
    (hv : m.store.get v = .str (Number.decimal n)) (pos : Position) :
    callValue ex callee [v] pos m = make (.int n) m := by
  refine callValue_convert hcallee ?_ pos
  have hread : TypeTag.readInt (Number.decimal n) = .ok (.int n) := by
    rw [TypeTag.readInt, Number.trim_decimal, Number.readInt?_decimal]
  unfold TypeTag.convert
  change Action.bind (Action.load v) _ m.store = _
  unfold Action.bind Action.load
  dsimp only
  rw [hv]
  dsimp only
  rw [hread]
  rfl

end Eval

/-! The reference block of a number. -/

namespace Numeral

open Lexer

def source (n : Int64) : String := "\x7b: " ++ Number.decimal n ++ " :\x7d"

def expr (n : Int64) : Expr := if n.toInt < 0 then .negative (.int (-n)) .start else .int n

variable {n : Int64}

theorem isProper_expr : (expr n).isProper = true := by
  unfold expr
  split
  · rfl
  · rfl

theorem toList_source (n : Int64) :
    (source n).toList =
      '\x7b' :: ':' :: ' ' :: ((Number.decimal n).toList ++ [' ', ':', '\x7d']) := by
  simp [source, String.toList_append]

theorem ofNat_natAbs (h : 0 ≤ n.toInt) : Int64.ofNat n.toInt.natAbs = n := by
  rw [← Int64.ofInt_eq_ofNat, Int.natAbs_of_nonneg h, Int64.ofInt_toInt]

theorem ofNat_natAbs_neg (h : n.toInt < 0) : Int64.ofNat n.toInt.natAbs = -n := by
  rw [← Int64.ofInt_eq_ofNat, Int.ofNat_natAbs_of_nonpos (by omega), Int64.ofInt_neg,
    Int64.ofInt_toInt]

/-- A minus sign in a block is a token of its own, except before `=`. -/
theorem lexes_minus {c : Char} (hc : c ≠ '=') (rest : List Char) :
    Lexes .standard .reference ('-' :: c :: rest) [.arith .sub] .reference (c :: rest) := by
  have hmark : mark? '-' (some c) = some (.arith .sub, false) := by simp [mark?, hc]
  have hpiece : ∀ pos, innerPiece .reference pos '-' (c :: rest) =
      .ok ⟨some (.arith .sub), ['-'], 0, c :: rest, .reference⟩ := by
    intro pos
    change markPiece .reference pos '-' (c :: rest) = _
    rw [markPiece, List.head?_cons, hmark]
  have hmode : Mode.reference ≠ .text := by decide
  exact lexes_of_innerPiece_of_ne hmode (by decide) (by decide) hpiece

/-- The digits of every number but the least one are in the range of a token. -/
theorem lexes_decimal (hn : n ≠ Int64.minValue) (rest : List Char) :
    Lexes .standard .reference ((Number.decimal n).toList ++ ' ' :: rest) (expr n).spelling
      .reference (' ' :: rest) := by
  have hlower := n.le_toInt
  have hupper := n.toInt_lt
  have hleast : n.toInt ≠ -9223372036854775808 := fun h => hn (Int64.toInt_inj.mp h)
  have hgreatest : Number.greatestInt = 9223372036854775807 := rfl
  have hmode : Mode.reference ≠ .text := by decide
  have hrange : n.toInt.natAbs ≤ Number.greatestInt := by omega
  have hdigits := lexes_digits hmode hrange .space rest
  by_cases h : n.toInt < 0
  · obtain ⟨c, others, hcons⟩ := List.exists_cons_of_ne_nil
      (Nat.toDigits_ne_nil (b := 10) (n := n.toInt.natAbs))
    have hdigit : c.isDigit = true :=
      Number.isDigit_of_mem_toDigits n.toInt.natAbs c (hcons ▸ List.mem_cons_self)
    have hc : c ≠ '=' := fun heq => absurd (heq ▸ hdigit) (by decide)
    rw [ofNat_natAbs_neg h] at hdigits
    rw [Number.toList_decimal_of_neg h, expr, if_pos h]
    rw [hcons] at hdigits ⊢
    exact (lexes_minus hc _).trans hdigits
  · rw [ofNat_natAbs (by omega)] at hdigits
    rw [Number.toList_decimal_of_nonneg (by omega), expr, if_neg h]
    exact hdigits

/-- The block of a number is accepted, and its tokens are those of the expression. -/
theorem exists_tokens (hn : n ≠ Int64.minValue) :
    ∃ tokens, tokenize (source n) = .ok tokens ∧
      tokens.map Token.kind = .refOpen :: ((expr n).spelling ++ [.refClose]) := by
  refine exists_tokens_of_lexes ?_
  have hmode : Mode.reference ≠ .text := by decide
  have hopen := (lexes_refOpen (' ' :: ((Number.decimal n).toList ++ [' ', ':', '\x7d']))).trans
    (lexes_blank hmode rfl _)
  have hnumber := hopen.trans (lexes_decimal hn [':', '\x7d'])
  have hclose := (hnumber.trans (lexes_blank hmode rfl _)).trans (lexes_refClose [])
  simpa [toList_source] using hclose

theorem eq_int_of_unplaced_eq {e : Expr} {k : Int64} (h : e.unplaced = (Expr.int k).unplaced) :
    e = .int k := by
  cases e <;> simp_all [Expr.unplaced]

def Holds (n : Int64) (e : Expr) : Prop := e = .int n ∨ ∃ pos, e = .negative (.int (-n)) pos

theorem holds_of_unplaced_eq {e : Expr} (h : e.unplaced = (expr n).unplaced) : Holds n e := by
  unfold expr at h
  split at h
  · cases e with
    | negative operand pos =>
      obtain rfl := eq_int_of_unplaced_eq (Expr.negative.inj h).1
      exact .inr ⟨pos, rfl⟩
    | _ => cases h
  · exact .inl (eq_int_of_unplaced_eq h)

/-- The block of a number is a program of one expression, which means the number. -/
theorem exists_program (hn : n ≠ Int64.minValue) :
    ∃ tokens e pos, tokenize (source n) = .ok tokens ∧
      Program.ofTokens tokens = .ok [.reference (.parallel [[e]]) pos] ∧ Holds n e := by
  obtain ⟨tokens, htokens, hkinds⟩ := exists_tokens hn
  obtain ⟨opener, body, rfl, hopener, hbody⟩ := List.map_eq_cons_iff.mp hkinds
  obtain ⟨ts, closing, rfl, hts, hclosing⟩ := List.map_eq_append_iff.mp hbody
  obtain ⟨closer, rfl, hcloser⟩ := List.map_eq_singleton_iff.mp hclosing
  obtain ⟨e, pos, hprogram, hview⟩ :=
    Program.ofTokens_referenceBlock isProper_expr hopener hts hcloser
  exact ⟨_, e, pos, htokens, hprogram, holds_of_unplaced_eq hview⟩

/-! Runs -/

/-- The expression of a number evaluates to it. -/
theorem eval_holds {e : Expr} (h : Holds n e) (fuel : Nat) (m : Machine) :
    ∃ made v, Eval.eval (fuel + 2) e m = .done v (m.adding made) ∧
      (m.adding made).store.get v = .int n := by
  rcases h with rfl | ⟨pos, rfl⟩
  · exact ⟨#[.int n], _, Eval.make_adding (.int n), Eval.get_adding_self (.int n)⟩
  · have hoperand : Eval.eval (fuel + 1) (.int (-n)) m = _ := Eval.make_adding (.int (-n))
    have hint : ((m.adding #[.int (-n)]).store.get ⟨m.store.objects.size⟩).int? = some (-n) := by
      rw [Eval.get_adding_self]
      rfl
    have hnegate := Eval.negate_adding hint pos
    rw [Int64.neg_neg, Machine.adding_adding] at hnegate
    refine ⟨_, _, Eval.bind_eq_done_iff.mpr ⟨_, _, hoperand, hnegate⟩, ?_⟩
    rw [← Machine.adding_adding]
    exact Eval.get_adding_self (m := m.adding #[.int (-n)]) (.int n)

/-- A reference block of one expression writes its value. -/
theorem execStep_reference {ev : Evaluator} {e : Expr} {m m' : Machine} {v : Value}
    (h : ev e { m with inReference := true } = .done v m') (ex : Executor) (rounds : Nat)
    (pos : Position) :
    Eval.execStep ev ex rounds (.reference (.parallel [[e]]) pos) m = .done .next
      { m' with
        inReference := m.inReference
        context := m'.context.writeOut (m'.store.get v).display } := by
  have hformula : Eval.evalFormula ev (.parallel [[e]]) { m with inReference := true } =
      .done v m' := Eval.bind_eq_done_iff.mpr ⟨v, m', h, rfl⟩
  have hblock : Eval.inReferenceBlock (Eval.evalFormula ev (.parallel [[e]])) m =
      .done v { m' with inReference := m.inReference } := by
    rw [Eval.inReferenceBlock, hformula]
  have hreference : Eval.execReference ev (.parallel [[e]]) m = .done () _ :=
    Eval.bind_eq_done_iff.mpr ⟨v, _, hblock, rfl⟩
  exact Eval.bind_eq_done_iff.mpr ⟨(), _, hreference, rfl⟩

theorem execStep_holds {e : Expr} (h : Holds n e) (ex : Executor) (fuel rounds : Nat)
    (pos : Position) (m : Machine) :
    ∃ m', Eval.execStep (Eval.eval (fuel + 2)) ex rounds
        (.reference (.parallel [[e]]) pos) m = .done .next m' ∧
      Template.Wrote (Number.decimal n) m m' := by
  obtain ⟨made, v, heval, hget⟩ := eval_holds h fuel { m with inReference := true }
  refine ⟨_, execStep_reference heval ex rounds pos, ?_, rfl, Store.extends_adding m.store made⟩
  rw [hget, Number.decimal_eq_toString]
  rfl

/-- The program of a number writes it and does nothing else. -/
theorem runProgram_holds {e : Expr} (h : Holds n e) (pos : Position) (fuel : Nat) (s : Session)
    (file : Option String) :
    ∃ m, s.runProgram (fuel + 3) [.reference (.parallel [[e]]) pos] file = some (s.adopt m none) ∧
      Template.Wrote (Number.decimal n) (s.machine file) m := by
  obtain ⟨m, hstep, hwrote⟩ :=
    execStep_holds h (Eval.exec (fuel + 2)) fuel (fuel + 2) pos (s.machine file)
  have hexec : Eval.exec (fuel + 3) [.reference (.parallel [[e]]) pos] (s.machine file) =
      .done .next m := Eval.bind_eq_done_iff.mpr ⟨.next, m, hstep, rfl⟩
  have hrun : Eval.runProgram (fuel + 3) [.reference (.parallel [[e]]) pos] (s.machine file) =
      .done () m := Eval.bind_eq_done_iff.mpr ⟨.next, m, hexec, rfl⟩
  exact ⟨m, by rw [Session.runProgram, hrun], hwrote⟩

/-- The digits of the least number stand for a number that is out of range. -/
theorem tokenize_least : tokenize (source Int64.minValue) =
    .error (Diagnostic.ofLexFault (.intOutOfRange "9223372036854775808") ⟨4, 1⟩) := rfl

end Numeral

/-- Whole numbers survive being written and read. The types of texts and of whole numbers
take every number to its decimal text and back. And the reference block of this text lexes,
parses and evaluates to the number and writes the text again, whatever ran before, unless
it is the least number: its digits are read without the sign, and are out of range. -/
theorem Numeral.printed_and_read (n : Int64) :
    (∀ ex m callee v pos, m.store.get callee = .type .string → m.store.get v = .int n →
      Eval.callValue ex callee [v] pos m = Eval.make (.str (Number.decimal n)) m) ∧
    (∀ ex m callee v pos, m.store.get callee = .type .int →
      m.store.get v = .str (Number.decimal n) →
        Eval.callValue ex callee [v] pos m = Eval.make (.int n) m) ∧
    (n ≠ Int64.minValue → ∃ tokens e pos, tokenize (source n) = .ok tokens ∧
      Program.ofTokens tokens = .ok [.reference (.parallel [[e]]) pos] ∧
      (∀ fuel m, 2 ≤ fuel → ∃ v m', Eval.eval fuel e m = .done v m' ∧ m'.store.get v = .int n) ∧
      ∀ (s : Session) file args fuel, 3 ≤ fuel → ∃ s', s.run fuel ⟨source n, file⟩ args = some s' ∧
        s'.failure = none ∧ s'.context.out = s.context.out ++ Number.decimal n ∧
        s'.context.err = s.context.err ∧ s'.globals = s.globals) ∧
    tokenize (source Int64.minValue) =
      .error (Diagnostic.ofLexFault (.intOutOfRange "9223372036854775808") ⟨4, 1⟩) := by
  refine ⟨fun _ _ _ _ pos hcallee hv => Eval.callValue_string hcallee hv pos,
    fun _ _ _ _ pos hcallee hv => Eval.callValue_int hcallee hv pos, ?_, tokenize_least⟩
  intro hn
  obtain ⟨tokens, e, pos, htokens, hprogram, hholds⟩ := exists_program hn
  refine ⟨tokens, e, pos, htokens, hprogram, ?_, ?_⟩
  · intro fuel m hfuel
    obtain ⟨fuel, rfl⟩ := Nat.exists_eq_add_of_le' hfuel
    obtain ⟨made, v, heval, hget⟩ := eval_holds hholds fuel m
    exact ⟨v, _, heval, hget⟩
  · intro s file args fuel hfuel
    obtain ⟨fuel, rfl⟩ := Nat.exists_eq_add_of_le' hfuel
    have hsource : Program.ofSource (Source.mk (source n) file).text =
        .ok [.reference (.parallel [[e]]) pos] := by
      rw [Program.ofSource, htokens]
      exact hprogram
    obtain ⟨m, hrun, hwrote⟩ :=
      runProgram_holds hholds pos fuel (s.prepared ⟨source n, file⟩ args) file
    obtain ⟨s', hs', hfailure, hout, herr, -, -, hglobals, -⟩ :=
      Session.run_of_wrote hsource hrun hwrote
    exact ⟨s', hs', hfailure, hout, herr, hglobals⟩

namespace Numeral

def session : Session := .start ⟨[], .empty⟩ "" .lf .none

def machine : Machine :=
  { session.machine none with
    store := { session.store with
      objects := #[.type .string, .int (-7), .type .int, .str "-7"] } }

theorem seven_below_zero :
    Eval.callValue (Eval.exec 1) ⟨0⟩ [⟨1⟩] .start machine = Eval.make (.str "-7") machine ∧
    Eval.callValue (Eval.exec 1) ⟨2⟩ [⟨3⟩] .start machine = Eval.make (.int (-7)) machine ∧
    ∃ s', session.run 3 ⟨"\x7b: -7 :\x7d", none⟩ [] = some s' ∧ s'.context.out = "-7" := by
  obtain ⟨hstring, hint, hblock, -⟩ := printed_and_read (-7)
  obtain ⟨tokens, e, pos, -, -, -, hrun⟩ := hblock (by decide)
  obtain ⟨s', hs', -, hout, -⟩ := hrun session none [] 3 (by decide)
  exact ⟨hstring _ machine _ _ _ rfl rfl, hint _ machine _ _ _ rfl rfl, s', hs',
    hout.trans (by decide)⟩

/-- Not every number can be written in a block. -/
theorem not_every_block_lexes : ¬∀ n : Int64, ∃ tokens, tokenize (source n) = .ok tokens := by
  intro h
  obtain ⟨tokens, htokens⟩ := h Int64.minValue
  rw [tokenize_least] at htokens
  cases htokens

end Numeral

end Stencil
