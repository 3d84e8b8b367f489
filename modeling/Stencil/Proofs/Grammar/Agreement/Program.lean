import Stencil.Proofs.Grammar.Agreement.Statement
import Stencil.Proofs.Token.Seam

/-!
Programs whose tokens go on. A block of a program ends with a closer, which is all that
is looked at, so blocks are read in the same way up to the end of the input; and a text
is a block by itself. What a program reads before the text at its end is therefore what
any program reads that begins with the same tokens, and the rest is read on its own.
-/

namespace Stencil.Grammar

variable {α β γ δ : Type}

def AllText (kinds : List TokenKind) : Prop := ∀ kind ∈ kinds, kind.text? ≠ none

/-- The input ends with its tail. -/
theorem Together.suffix {tail tail' : List TokenKind} {ts ts' : List Token}
    (h : Together tail tail' ts ts') : tail <:+ ts.map Token.kind := by
  induction h with
  | tails h h' => exact h ▸ List.suffix_refl _
  | cons hkind h ih => exact ih.trans (List.suffix_cons _ _)

/-- An end of text alone is text alone. -/
theorem AllText.of_suffix {kinds kinds' : List TokenKind} (h : AllText kinds)
    (hsuffix : kinds' <:+ kinds) : AllText kinds' :=
  fun kind hkind => h kind (hsuffix.subset hkind)

/-- The first reader fails on text alone, and what it reads from an input that ends in text
the second reads as well, even if the first leaves no more than that text. -/
structure Closes (n n' : Nat) (view : α → γ) (r r' : Reader α) : Prop where
  fails : ∀ {last ts}, AllText (ts.map Token.kind) → ts.length ≤ n → ∃ d, r last ts = .error d
  closes : ∀ {tail tail' last last' ts ts' a rest}, AllText tail → Together tail tail' ts ts' →
    ts.length ≤ n → ts'.length ≤ n' → r last ts = .ok (a, rest) →
    ∃ a' rest', r' last' ts' = .ok (a', rest') ∧ view a = view a' ∧
      Together tail tail' rest rest'

namespace Closes

variable {k n n' : Nat} {view : α → γ}

/-- A reader that fails does so on text as well. -/
theorem fail {fault : GrammarFault} {r' : Reader α} :
    Closes n n' view (Grammar.fail fault : Reader α) r' where
  fails _ _ := ⟨_, rfl⟩
  closes _ _ _ _ hread := by cases hread

/-- A sequence closes if its second part does. Where only text is left, that part cannot have
read anything. -/
theorem bind {viewx : α → γ} {view : β → δ} {x x' : Reader α} {f f' : α → Reader β}
    (hx : Agrees k n n' viewx x x')
    (hf : ∀ a a', viewx a = viewx a' → Closes (n - k) (n' - k) view (f a) (f' a')) :
    Closes n n' view (x >>= f) (x' >>= f') where
  fails := by
    intro last ts htext hn
    cases hread : x last ts with
    | error d => exact ⟨d, bind_of_error hread⟩
    | ok result =>
      obtain ⟨a, left⟩ := result
      have htaken := hx.takes hn hread
      obtain ⟨d, hd⟩ : ∃ d, f a last left = .error d :=
        (hf a a rfl).fails (htext.of_suffix (htaken.isSuffix.map _))
          (by have := htaken.length_le; omega)
      exact ⟨d, (bind_of_ok hread).trans hd⟩
  closes := by
    intro tail tail' last last' ts ts' b rest htext htogether hn hn' hread
    obtain ⟨a, left, hleft, hread⟩ := bind_eq_ok hread
    have htaken := hx.takes hn hleft
    have hlength := htaken.length_le
    have halike : Alike tail tail' viewx (x last ts) (x' last' ts') := hx.alike htogether hn hn'
    rw [hleft] at halike
    generalize hx' : x' last' ts' = result' at halike
    cases halike with
    | @ok _ a' _ left' hview hrest =>
      rw [bind_of_ok hx']
      have hleft' := htogether.length_le hrest htaken hn'
      exact (hf a a' hview).closes htext hrest (by omega) hleft' hread
    | spent htails hspent =>
      have hsuffix : left.map Token.kind <:+ tail := by
        refine List.suffix_of_suffix_length_le (htaken.isSuffix.map _) htogether.suffix ?_
        rw [List.length_map]
        exact hspent a left rfl
      obtain ⟨d, hd⟩ : ∃ d, f a last left = .error d :=
        (hf a a rfl).fails (htext.of_suffix hsuffix) (by omega)
      rw [hd] at hread
      cases hread

theorem of_error {r r' : Reader α} (h : ∀ last, ∃ d, r last [] = .error d) (n' : Nat) :
    Closes 0 n' view r r' where
  fails := by
    intro last ts _ hn
    obtain rfl := List.length_eq_zero_iff.mp (Nat.le_zero.mp hn)
    exact h last
  closes := by
    intro tail tail' last last' ts ts' a rest _ _ hn _ hread
    obtain rfl := List.length_eq_zero_iff.mp (Nat.le_zero.mp hn)
    obtain ⟨d, hd⟩ := h last
    rw [hd] at hread
    cases hread

/-- What follows the last closer reads nothing. -/
theorem bind_pure {viewx : α → γ} {view : β → δ} {x x' : Reader α} {f f' : α → β}
    (hx : Closes n n' viewx x x') (hf : ∀ a a', viewx a = viewx a' → view (f a) = view (f' a')) :
    Closes n n' view (x >>= fun a => Pure.pure (f a)) (x' >>= fun a => Pure.pure (f' a)) where
  fails := by
    intro last ts htext hn
    obtain ⟨d, hd⟩ : ∃ d, x last ts = .error d := hx.fails htext hn
    exact ⟨d, bind_of_error hd⟩
  closes := by
    intro tail tail' last last' ts ts' b rest htext htogether hn hn' hread
    obtain ⟨a, left, hleft, hread⟩ := bind_eq_ok hread
    cases hread
    obtain ⟨a', left', hleft', hview, hrest⟩ := hx.closes htext htogether hn hn' hleft
    exact ⟨f' a', left', bind_of_ok hleft', hf a a' hview, hrest⟩

/-- At its closer the first reader takes that and no more. -/
theorem peek (closer : TokenKind) (hcloser : closer.text? = none) {a a' : α}
    (hview : view a = view a') {f f' : Option TokenKind → Reader α}
    (hclose : f (some closer) = (do Grammar.advance; return a))
    (hclose' : f' (some closer) = (do Grammar.advance; return a'))
    (hnone : ∀ last ts, ∃ d, f none last ts = .error d)
    (hother : ∀ kind, kind ≠ closer → Closes n n' view (f (some kind)) (f' (some kind))) :
    Closes n n' view (Grammar.peek >>= f) (Grammar.peek >>= f') := by
  have hfails : ∀ {last ts}, AllText (ts.map Token.kind) → ts.length ≤ n →
      ∃ d, (Grammar.peek >>= f) last ts = .error d := by
    intro last ts htext hn
    cases ts with
    | nil => exact hnone last []
    | cons t ts =>
      have hkind : t.kind ≠ closer := by
        rintro rfl
        exact htext _ (List.mem_cons_self ..) hcloser
      exact (hother t.kind hkind).fails htext hn
  refine ⟨hfails, ?_⟩
  intro tail tail' last last' ts ts' b rest htext htogether hn hn' hread
  cases htogether with
  | tails hts hts' =>
    obtain ⟨d, hd⟩ : ∃ d, (Grammar.peek >>= f) last ts = .error d := hfails (hts ▸ htext) hn
    rw [hd] at hread
    cases hread
  | @cons t t' ts ts' hkind htogether =>
    change f (some t.kind) last (t :: ts) = _ at hread
    change ∃ a' rest', f' (some t'.kind) last' (t' :: ts') = _ ∧ _
    rw [← hkind]
    by_cases hclosing : t.kind = closer
    · rw [hclosing, hclose] at hread
      rw [hclosing, hclose']
      cases hread
      exact ⟨a', ts', rfl, hview, htogether⟩
    · exact (hother t.kind hclosing).closes htext (.cons hkind htogether) hn hn' hread

end Closes

/-! The blocks of a program. -/

section Block

variable {n n' m m' N N' : Nat}

/-- A reference block has to be closed, and text does not close it. -/
theorem closes_referenceBlock (hw : Within n n' m m' n n') :
    Closes n n' Stmt.unplaced (referenceBlock m) (referenceBlock m') := by
  unfold referenceBlock
  refine .bind .position fun pos pos' _ => .bind .advance fun _ _ _ => ?_
  refine .bind .skipNewlines fun _ _ _ => .bind .needExpr fun _ _ _ => ?_
  refine .bind (.formula hw) fun f f' hf => .bind .skipNewlines fun _ _ _ => ?_
  refine .peek .refClose rfl ?_ rfl rfl (fun _ _ => ⟨_, rfl⟩) fun kind hkind => ?_
  · exact congrArg (Stmt.reference · .start) hf
  · cases kind with
    | refClose => exact absurd rfl hkind
    | _ => exact .fail

theorem error_of_codeBlock (m : Nat) (last : Position) : ∃ d, codeBlock m last [] = .error d := by
  cases m with
  | zero => exact ⟨_, rfl⟩
  | succ m => exact ⟨_, rfl⟩

/-- A code block has to be closed, and text does not close it. -/
theorem closes_codeBlock (hw : Within n n' m m' N N') :
    Closes n n' (List.map Stmt.unplaced) (codeBlock m) (codeBlock m') := by
  induction n generalizing n' m m' with
  | zero => exact .of_error (error_of_codeBlock m) n'
  | succ n ih =>
    obtain ⟨n', m, m', rfl, rfl, rfl⟩ := hw.exists_succ
    have hother : Closes (n + 1) (n' + 1) (List.map Stmt.unplaced)
        (do
          let stmt ← statement (body m) (m + 1)
          return stmt :: (← codeBlock m))
        (do
          let stmt ← statement (body m') (m' + 1)
          return stmt :: (← codeBlock m')) := by
      refine .bind (.statement (.body hw.pred) hw.self) fun stmt stmt' hstmt => ?_
      refine .bind_pure (ih hw.pred) fun rest rest' hrest => ?_
      rw [List.map_cons, List.map_cons, hstmt, hrest]
    unfold codeBlock
    refine .bind .skipNewlines fun _ _ _ => ?_
    refine .peek .codeClose rfl rfl rfl rfl (fun _ _ => ⟨_, rfl⟩) fun kind hkind => ?_
    cases kind with
    | codeClose => exact absurd rfl hkind
    | _ => exact hother

theorem agrees_codeBlock (hw : Within n n' m m' N N') :
    Agrees 0 n n' (List.map Stmt.unplaced) (codeBlock m) (codeBlock m') := by
  refine .of_budget (fun m m' => .end_of_error (error_of_codeBlock m) (error_of_codeBlock m'))
    (fun n n' m m' hw ih => ?_) hw
  have hother : Agrees 0 (n + 1) (n' + 1) (List.map Stmt.unplaced)
      (do
        let stmt ← statement (body m) (m + 1)
        return stmt :: (← codeBlock m))
      (do
        let stmt ← statement (body m') (m' + 1)
        return stmt :: (← codeBlock m')) := by
    refine Agrees.loose (k := 1) ?_
    refine (Agrees.statement (.body hw.pred) hw.self).bind_sub fun stmt stmt' hstmt => ?_
    refine ih.bind fun rest rest' hrest => .pure ?_
    rw [List.map_cons, List.map_cons, hstmt, hrest]
  unfold codeBlock
  refine Agrees.skipNewlines.seq fun _ _ _ => .peek .fail fun kind => ?_
  cases kind with
  | codeClose => exact .advance (.pure rfl)
  | _ => exact hother.at_kind _

/-- Blocks are read alike up to the end of the program. -/
theorem agrees_blocks (hw : Within n n' m m' N N') :
    Agrees 0 n n' (List.map Stmt.unplaced) (blocks m) (blocks m') := by
  refine .of_budget (fun m m' => .end_of_ok [] [] (fun last => ?_) (fun last => ?_) rfl)
    (fun n n' m m' hw ih => ?_) hw
  · cases m <;> rfl
  · cases m' <;> rfl
  unfold blocks
  refine .peek (.pure rfl) fun kind => ?_
  cases kind with
  | text content =>
    refine .advance (ih.bind fun rest rest' hrest => .pure ?_)
    rw [List.map_cons, List.map_cons, hrest]
  | refOpen =>
    refine (Agrees.loose (k := 1) ?_).at_kind _
    refine (Agrees.referenceBlock hw.self).bind_sub fun block block' hblock => ?_
    refine ih.bind fun rest rest' hrest => .pure ?_
    rw [List.map_cons, List.map_cons, hblock, hrest]
  | codeOpen =>
    refine .advance ((agrees_codeBlock hw.pred).seq fun stmts stmts' hstmts => ?_)
    refine ih.bind fun rest rest' hrest => .pure ?_
    rw [List.map_append, List.map_append, hstmts, hrest]
  | _ => exact Agrees.fail.at_kind _

end Block

def behind (block : Program) (result : Except Diagnostic (Program × List Token)) :
    Except Diagnostic (Program × List Token) :=
  result.map fun read => (block ++ read.1, read.2)

theorem behind_nil (result : Except Diagnostic (Program × List Token)) :
    behind [] result = result := by
  cases result <;> rfl

theorem behind_behind (block block' : Program) (result : Except Diagnostic (Program × List Token)) :
    behind block (behind block' result) = behind (block ++ block') result := by
  cases result with
  | error d => rfl
  | ok read =>
    exact congrArg (fun program => Except.ok (program, read.2)) (List.append_assoc ..).symm

theorem bind_append_eq_behind (block : Program) (r : Reader Program) (last : Position)
    (ts : List Token) : (do return block ++ (← r) : Reader Program) last ts =
      behind block (r last ts) := by
  change Reader.bind r _ last ts = _
  unfold Reader.bind behind
  cases r last ts <;> rfl

section Blocks

variable {n n' m m' N N' : Nat} {tail tail' : List TokenKind} {last : Position}
  {t t' : Token} {ts ts' left : List Token} {program : Program}

/-- One block and what comes after it. The first token says which kind of block it is; what is
behind it is read alike on both sides, since neither reader gets as far as the tails. -/
theorem exists_block (last' : Position)
    (hw : Within (n + 1) (n' + 1) (m + 1) (m' + 1) N N') (htail : AllText tail)
    (hkind : t.kind = t'.kind) (htogether : Together tail tail' ts ts') (hts : ts.length ≤ n)
    (hts' : ts'.length ≤ n') (hread : blocks (m + 1) last (t :: ts) = .ok (program, left)) :
    ∃ block block' rest rest' after, program = block ++ after ∧
      block.map Stmt.unplaced = block'.map Stmt.unplaced ∧ Together tail tail' rest rest' ∧
      rest.length ≤ n ∧ rest'.length ≤ n' ∧ blocks m last rest = .ok (after, left) ∧
      blocks (m' + 1) last' (t' :: ts') = behind block' (blocks m' last' rest') := by
  obtain ⟨kind, pos⟩ := t
  obtain ⟨_, pos'⟩ := t'
  subst hkind
  cases kind with
  | text content =>
    obtain ⟨after, left', hafter, hread⟩ := bind_eq_ok
      (show (do return Stmt.text content :: (← blocks m) : Reader Program) last ts = _ from hread)
    cases hread
    exact ⟨[.text content], [.text content], ts, ts', after, rfl, rfl, htogether, hts, hts', hafter,
      bind_append_eq_behind [.text content] (blocks m') last' ts'⟩
  | refOpen =>
    have htogether' : Together tail tail' (⟨.refOpen, pos⟩ :: ts) (⟨.refOpen, pos'⟩ :: ts') :=
      .cons rfl htogether
    obtain ⟨block, rest, hblock, hread⟩ := bind_eq_ok
      (show (referenceBlock (m + 1) >>= fun block => do return block :: (← blocks m)) last _ = _
        from hread)
    obtain ⟨after, left', hafter, hread⟩ := bind_eq_ok hread
    cases hread
    obtain ⟨block', rest', hblock', hview, hrest⟩ := (closes_referenceBlock hw.self).closes
      htail htogether' (Nat.succ_le_succ hts) (Nat.succ_le_succ hts') hblock
    have htaken : Takes 1 (⟨.refOpen, pos⟩ :: ts) rest :=
      (Agrees.referenceBlock hw.self).takes (Nat.succ_le_succ hts) hblock
    refine ⟨[block], [block'], rest, rest', after, rfl, ?_, hrest, ?_, ?_, hafter, ?_⟩
    · rw [List.map_singleton, List.map_singleton, hview]
    · have := htaken.length_le
      rw [List.length_cons] at this
      omega
    · exact htogether'.length_le hrest htaken (Nat.succ_le_succ hts')
    · exact (bind_of_ok (f := fun block => do return block :: (← blocks m')) hblock').trans
        (bind_append_eq_behind [block'] (blocks m') last' rest')
  | codeOpen =>
    obtain ⟨block, rest, hblock, hread⟩ := bind_eq_ok
      (show (codeBlock m >>= fun block => do return block ++ (← blocks m)) last ts = _ from hread)
    obtain ⟨after, left', hafter, hread⟩ := bind_eq_ok hread
    cases hread
    obtain ⟨block', rest', hblock', hview, hrest⟩ := (closes_codeBlock hw.pred).closes
      htail htogether hts hts' hblock
    have htaken := (agrees_codeBlock hw.pred).takes hts hblock
    refine ⟨block, block', rest, rest', after, rfl, hview, hrest, ?_, ?_, hafter, ?_⟩
    · exact Nat.le_trans htaken.length_le hts
    · exact htogether.length_le hrest htaken hts'
    · exact (bind_of_ok (f := fun block => do return block ++ (← blocks m')) hblock').trans
        (bind_append_eq_behind block' (blocks m') last' rest')
  | _ => cases hread

/-- The program ends with the texts, and the result is what comes of reading up to them and
going on at the tail. -/
def Resumes (texts : Program) (tail : List TokenKind) (last : Position) (program : Program)
    (result : Except Diagnostic (Program × List Token)) : Prop :=
  ∃ before before' budget rest, program = before ++ texts ∧
    before.map Stmt.unplaced = before'.map Stmt.unplaced ∧ rest.map Token.kind = tail ∧
    rest.length ≤ budget ∧ result = behind before' (blocks budget last rest)

/-- A block in front of a program stands in front of what the program resumes. -/
theorem Resumes.behind {texts program block block' : Program} {last : Position}
    {result : Except Diagnostic (Program × List Token)}
    (h : Resumes texts tail last program result)
    (hblock : block.map Stmt.unplaced = block'.map Stmt.unplaced) :
    Resumes texts tail last (block ++ program) (Grammar.behind block' result) := by
  obtain ⟨before, before', budget, rest, rfl, hbefore, hkinds, hbudget, rfl⟩ := h
  refine ⟨block ++ before, block' ++ before', budget, rest, (List.append_assoc ..).symm, ?_, hkinds,
    hbudget, behind_behind block' before' _⟩
  rw [List.map_append, List.map_append, hblock, hbefore]

/-- What a program reads before the text at its end is what any program reads that goes on
from there. -/
theorem resumes_blocks (last' : Position) (htail : AllText tail) {texts : Program}
    (htexts : ∀ m last ts, ts.map Token.kind = tail → ts.length ≤ m →
      blocks m last ts = .ok (texts, []))
    (htogether : Together tail tail' ts ts') (hw : Within n n' m m' N N') (hts : ts.length ≤ n)
    (hts' : ts'.length ≤ n') (hread : blocks m last ts = .ok (program, left)) :
    Resumes texts tail' last' program (blocks m' last' ts') := by
  have hend : ∀ {n n' m m' ts ts' program}, ts.map Token.kind = tail → ts'.map Token.kind = tail' →
      Within n n' m m' N N' → ts.length ≤ n → ts'.length ≤ n' →
      blocks m last ts = .ok (program, left) →
      Resumes texts tail' last' program (blocks m' last' ts') := by
    intro n n' m m' ts ts' program h h' hw hts hts' hread
    rw [htexts m last ts h (Nat.le_trans hts hw.budget)] at hread
    cases hread
    exact ⟨[], [], m', ts', rfl, rfl, h', Nat.le_trans hts' hw.budget', (behind_nil _).symm⟩
  induction n generalizing n' m m' ts ts' program with
  | zero =>
    cases htogether with
    | tails h h' => exact hend h h' hw hts hts' hread
    | cons hkind htogether => cases hts
  | succ n ih =>
    cases htogether with
    | tails h h' => exact hend h h' hw hts hts' hread
    | @cons t t' ts ts' hkind htogether =>
      obtain ⟨n', m, m', rfl, rfl, rfl⟩ := hw.exists_succ
      obtain ⟨block, block', rest, rest', after, rfl, hblock, hrest, hlength, hlength', hafter,
        hblocks⟩ := exists_block last' hw htail hkind htogether (Nat.le_of_succ_le_succ hts)
          (Nat.le_of_succ_le_succ hts') hread
      rw [hblocks]
      exact (ih hrest hw.pred hlength hlength' hafter).behind hblock

end Blocks

end Stencil.Grammar
