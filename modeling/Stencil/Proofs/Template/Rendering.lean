import Stencil.Proofs.Eval.Reachable
import Stencil.Proofs.Grammar.RoundTrip
import Stencil.Proofs.Token.Lexing
import Stencil.Proofs.Value.Graph
import Stencil.Session

/-!
Templates of texts and text literals are rendered verbatim. Such a template is a
text followed by reference blocks, each of which holds one text literal, with a
text after each block. Its rendering is what remains when the blocks give way to
the contents of their literals. The proof goes along with the program: the tokens
are put together from the tokens of the pieces, the parser makes one statement of
each piece, and each statement appends its text to the output and leaves the rest
of the context as it is.
-/

namespace Stencil

open Lexer Grammar

/-- A text, then literals with a text after each. No text has the opener of a block
in it. -/
structure Template where
  first : String
  /-- The content of each literal with the text after its block. -/
  parts : List (String × String)
  first_isLiteral : IsLiteral first.toList
  parts_isLiteral : ∀ part ∈ parts, IsLiteral part.2.toList

namespace Template

def quote (content : String) : String :=
  "\x7b: \"" ++ String.ofList (escaped content.toList) ++ "\" :\x7d"

def source (t : Template) : String :=
  t.first ++ String.join (t.parts.map fun part => quote part.1 ++ part.2)

def rendering (t : Template) : String :=
  t.first ++ String.join (t.parts.map fun part => part.1 ++ part.2)

/-! Tokens -/

def partKinds (part : String × String) : List TokenKind :=
  [.refOpen, .str part.1, .refClose] ++ textKinds part.2.toList

theorem toList_quote (content : String) :
    (quote content).toList =
      '\x7b' :: ':' :: ' ' :: '"' :: (escaped content.toList ++ ['"', ' ', ':', '\x7d']) := by
  simp [quote, String.toList_append]

/-- A quoted text is one literal in a block of its own, whatever it holds. -/
theorem lexes_quote (content : String) (rest : List Char) :
    Lexes .standard .text ((quote content).toList ++ rest) [.refOpen, .str content, .refClose]
      .text rest := by
  have hmode : Mode.reference ≠ .text := by decide
  have hopen := (lexes_refOpen (' ' :: '"' :: (escaped content.toList ++
    '"' :: ' ' :: ':' :: '\x7d' :: rest))).trans (lexes_blank hmode rfl _)
  have hquoted := hopen.trans (lexes_quoted hmode content.toList (' ' :: ':' :: '\x7d' :: rest))
  have hclose := (hquoted.trans (lexes_blank hmode rfl _)).trans (lexes_refClose rest)
  simpa [toList_quote] using hclose

theorem followsText_parts (parts : List (String × String)) :
    FollowsText (parts.flatMap fun part => (quote part.1 ++ part.2).toList) := by
  cases parts with
  | nil => exact .inl rfl
  | cons part parts =>
    refine .inr ?_
    simp [atOpener, toList_quote, Marker.heads, Delimiters.standard]

/-- Quoted texts and the texts behind them are lexed one after the other. -/
theorem lexes_parts (parts : List (String × String))
    (h : ∀ part ∈ parts, IsLiteral part.2.toList) :
    Lexes .standard .text (parts.flatMap fun part => (quote part.1 ++ part.2).toList)
      (parts.flatMap partKinds) .text [] := by
  induction parts with
  | nil => exact .refl _ _ _
  | cons part parts ih =>
    have htext : IsLiteral part.2.toList := h part (List.mem_cons_self ..)
    have hparts := ih fun other hmem => h other (List.mem_cons_of_mem _ hmem)
    rw [List.flatMap_cons, List.flatMap_cons, String.toList_append, List.append_assoc]
    exact ((lexes_quote part.1 _).trans (lexes_text htext (followsText_parts parts))).trans hparts

theorem exists_tokens (t : Template) :
    ∃ tokens, tokenize t.source = .ok tokens ∧
      tokens.map Token.kind = textKinds t.first.toList ++ t.parts.flatMap partKinds := by
  refine exists_tokens_of_lexes ?_
  have hsource : t.source.toList =
      t.first.toList ++ t.parts.flatMap fun part => (quote part.1 ++ part.2).toList := by
    rw [source, String.toList_append, String.toList_join, List.flatMap_map]
  rw [hsource]
  exact (lexes_text t.first_isLiteral (followsText_parts t.parts)).trans
    (lexes_parts t.parts t.parts_isLiteral)

/-! Statements -/

/-- The program consists of texts and text literals, which together are the given
text. -/
inductive Spells : Program → String → Prop
  | nil : Spells [] ""
  | text {program : Program} {written : String} (content : String) (h : Spells program written) :
    Spells (.text content :: program) (content ++ written)
  | quoted {program : Program} {written : String} (content : String) (pos : Position)
    (h : Spells program written) :
    Spells (.reference (.parallel [[.str content]]) pos :: program) (content ++ written)

section Blocks

variable {last : Position} {tokens : List Token} {budget : Nat}

theorem eq_str_of_unplaced_eq {e : Expr} {content : String}
    (h : e.unplaced = (Expr.str content).unplaced) : e = .str content := by
  cases e <;> simp_all [Expr.unplaced]

theorem referenceBlock_str (opener : Token) {literal closer : Token} {content : String}
    (hliteral : literal.kind = .str content) (hcloser : closer.kind = .refClose)
    (hbudget : tokens.length + 2 ≤ budget + 1) :
    referenceBlock (budget + 1) last (opener :: literal :: closer :: tokens) =
      .ok (.reference (.parallel [[.str content]]) opener.pos, tokens) := by
  have hspelling : [literal].map Token.kind = (Expr.str content).spelling := by
    rw [List.map_singleton, hliteral]
    rfl
  have hlength : [literal].length + tokens.length ≤ budget := by
    rw [List.length_singleton]
    omega
  obtain ⟨e, hblock, hview⟩ := referenceBlock_spelling rfl opener hspelling hcloser hlength
  obtain rfl := eq_str_of_unplaced_eq hview
  exact hblock

/-- Text at the head of the tokens makes a statement, unless it is empty. -/
theorem blocks_text {text : String} {kinds : List TokenKind}
    (htokens : tokens.map Token.kind = textKinds text.toList ++ kinds)
    (hbudget : tokens.length ≤ budget) {written : String}
    (h : ∀ (tokens' : List Token) (budget' : Nat), tokens'.map Token.kind = kinds →
      tokens'.length ≤ budget' →
        ∃ program, blocks budget' last tokens' = .ok (program, []) ∧ Spells program written) :
    ∃ program, blocks budget last tokens = .ok (program, []) ∧
      Spells program (text ++ written) := by
  by_cases hempty : text.toList.isEmpty = true
  · have hnil : text = "" := String.toList_inj.mp (List.isEmpty_iff.mp hempty)
    rw [textKinds, if_pos hempty, List.nil_append] at htokens
    rw [hnil, String.empty_append]
    exact h tokens budget htokens hbudget
  · rw [textKinds, if_neg hempty, List.singleton_append, String.ofList_toList] at htokens
    obtain ⟨t, rest, rfl, ht, hrest⟩ := List.map_eq_cons_iff.mp htokens
    obtain ⟨budget, rfl⟩ : ∃ n, budget = n + 1 := ⟨budget - 1, by simp at hbudget; omega⟩
    obtain ⟨program, hprogram, hspells⟩ := h rest budget hrest (by simpa using hbudget)
    refine ⟨.text text :: program, ?_, .text text hspells⟩
    rw [blocks, bind_of_ok rfl]
    simp only [List.head?_cons, Option.map_some, ht]
    rw [bind_of_ok rfl, List.tail_cons, bind_of_ok hprogram]
    rfl

/-- Quoted texts and the texts behind them are parsed to a program that spells them out. -/
theorem blocks_parts (last : Position) (parts : List (String × String)) :
    ∀ (tokens : List Token) (budget : Nat), tokens.map Token.kind = parts.flatMap partKinds →
      tokens.length ≤ budget →
        ∃ program, blocks budget last tokens = .ok (program, []) ∧
          Spells program (String.join (parts.map fun part => part.1 ++ part.2)) := by
  induction parts with
  | nil =>
    intro tokens budget htokens hbudget
    obtain rfl : tokens = [] := by simpa using htokens
    refine ⟨[], ?_, .nil⟩
    cases budget with
    | zero => rfl
    | succ budget => rfl
  | cons part parts ih =>
    intro tokens budget htokens hbudget
    obtain ⟨opener, rest, rfl, hopener, hrest⟩ := List.map_eq_cons_iff.mp htokens
    obtain ⟨literal, rest, rfl, hliteral, hrest⟩ := List.map_eq_cons_iff.mp hrest
    obtain ⟨closer, rest, rfl, hcloser, hrest⟩ := List.map_eq_cons_iff.mp hrest
    obtain ⟨budget, rfl⟩ : ∃ n, budget = n + 1 := ⟨budget - 1, by simp at hbudget; omega⟩
    simp only [List.length_cons] at hbudget
    have hblock : referenceBlock (budget + 1) last (opener :: literal :: closer :: rest) = _ :=
      referenceBlock_str opener hliteral hcloser (by omega)
    obtain ⟨program, hprogram, hspells⟩ := blocks_text hrest (show rest.length ≤ budget by omega) ih
    refine ⟨.reference (.parallel [[.str part.1]]) opener.pos :: program, ?_, ?_⟩
    · rw [blocks, bind_of_ok rfl]
      simp only [List.head?_cons, Option.map_some, hopener]
      rw [bind_of_ok hblock, bind_of_ok hprogram]
      rfl
    · rw [List.map_cons, String.join_cons, String.append_assoc]
      exact .quoted part.1 opener.pos hspells

end Blocks

/-- A template has a program that spells its rendering. -/
theorem exists_program (t : Template) :
    ∃ program, Program.ofSource t.source = .ok program ∧ Spells program t.rendering := by
  obtain ⟨tokens, htokens, hkinds⟩ := t.exists_tokens
  obtain ⟨program, hprogram, hspells⟩ :=
    blocks_text hkinds (Nat.le_refl _) (blocks_parts (lastPosition tokens) t.parts)
  refine ⟨program, ?_, hspells⟩
  rw [Program.ofSource, htokens]
  simp only [Program.ofTokens, hprogram]

/-! Runs -/

/-- The second machine is the first one with more output. There may be new objects;
what was there before is the same. -/
structure Wrote (text : String) (m m' : Machine) : Prop where
  context : m'.context = m.context.writeOut text
  scopes : m'.store.scopes = m.store.scopes
  store : m.store.Extends m'.store

namespace Wrote

variable {m m' m'' : Machine} {text text' : String}

theorem refl (m : Machine) : Wrote "" m m where
  context := by simp [Context.writeOut]
  scopes := rfl
  store := .refl m.store

/-- What is written one after the other is written together. -/
theorem trans (h : Wrote text m m') (h' : Wrote text' m' m'') : Wrote (text ++ text') m m'' where
  context := by
    rw [h'.context, h.context]
    simp [Context.writeOut, String.append_assoc]
  scopes := h'.scopes.trans h.scopes
  store := h.store.trans h'.store

end Wrote

section Runs

variable (ex : Executor) (fuel rounds : Nat) (m : Machine)

theorem execStep_text (ev : Evaluator) (content : String) :
    ∃ m', Eval.execStep ev ex rounds (.text content) m = .done .next m' ∧ Wrote content m m' :=
  ⟨{ m with context := m.context.writeOut content }, rfl, rfl, rfl, .refl m.store⟩

/-- The literal is a new object, whose content is written. -/
theorem execStep_quoted (content : String) (pos : Position) :
    ∃ m', Eval.execStep (Eval.eval (fuel + 1)) ex rounds
        (.reference (.parallel [[.str content]]) pos) m = .done .next m' ∧ Wrote content m m' := by
  have hdisplay :
      ((m.store.alloc (.str content)).2.get ⟨m.store.objects.size⟩).display = content := by
    rw [Store.get_alloc_self]
    rfl
  refine ⟨{ m with
    store := (m.store.alloc (.str content)).2
    context := m.context.writeOut
      ((m.store.alloc (.str content)).2.get ⟨m.store.objects.size⟩).display }, rfl, ?_, rfl,
    m.store.extends_alloc _⟩
  simp only [hdisplay]

/-- A program that spells out a text writes the text and does nothing else. -/
theorem execEach_of_spells {program : Program} {text : String} (h : Spells program text) :
    ∃ m', Eval.execEach (Eval.execStep (Eval.eval (fuel + 1)) ex rounds) program m =
      .done .next m' ∧ Wrote text m m' := by
  induction h generalizing m with
  | nil => exact ⟨m, rfl, .refl m⟩
  | text content h ih =>
    obtain ⟨m₁, hfirst, hwrote₁⟩ := execStep_text ex rounds m (Eval.eval (fuel + 1)) content
    obtain ⟨m₂, hrest, hwrote₂⟩ := ih m₁
    exact ⟨m₂, Eval.bind_eq_done_iff.mpr ⟨.next, m₁, hfirst, hrest⟩, hwrote₁.trans hwrote₂⟩
  | quoted content pos h ih =>
    obtain ⟨m₁, hfirst, hwrote₁⟩ := execStep_quoted ex fuel rounds m content pos
    obtain ⟨m₂, hrest, hwrote₂⟩ := ih m₁
    exact ⟨m₂, Eval.bind_eq_done_iff.mpr ⟨.next, m₁, hfirst, hrest⟩, hwrote₁.trans hwrote₂⟩

/-- A whole run ends well. -/
theorem runProgram_of_spells {program : Program} {text : String} (h : Spells program text)
    (s : Session) (file : Option String) :
    ∃ m, s.runProgram (fuel + 2) program file = some (s.adopt m none) ∧
      Wrote text (s.machine file) m := by
  obtain ⟨m, hexec, hwrote⟩ :=
    execEach_of_spells (Eval.exec (fuel + 1)) fuel (fuel + 1) (s.machine file) h
  have hrun : Eval.runProgram (fuel + 2) program (s.machine file) = .done () m :=
    Eval.bind_eq_done_iff.mpr ⟨.next, m, hexec, rfl⟩
  refine ⟨m, ?_, hwrote⟩
  rw [Session.runProgram, hrun]

end Runs

end Template

/-- A program that only writes a text: its run appends the text to the output, and nothing
else that a program or the host can see has changed. -/
theorem Session.run_of_wrote {source : Source} {program : Program}
    (hprogram : Program.ofSource source.text = .ok program) {s : Session} {args : List String}
    {fuel : Nat} {m : Machine} {text : String}
    (hrun : (s.prepared source args).runProgram fuel program source.file =
      some ((s.prepared source args).adopt m none))
    (hwrote : Template.Wrote text ((s.prepared source args).machine source.file) m) :
    ∃ s', s.run fuel source args = some s' ∧ s'.failure = none ∧
      s'.context.out = s.context.out ++ text ∧ s'.context.err = s.context.err ∧
      s'.context.aliases = s.context.aliases ∧ s'.context.modules = s.context.modules ∧
      s'.globals = s.globals ∧ s.store.Extends s'.store := by
  have hstore : (s.prepared source args).store = s.store := s.prepared_store _ _
  obtain ⟨options, hcontext⟩ := s.exists_prepared_context source args
  have hafter : m.context = ({ s.context with options := options }).writeOut text := by
    rw [hwrote.context, ← hcontext]
    rfl
  have hscopes : m.store.scopes = s.store.scopes := by
    rw [hwrote.scopes, ← hstore]
    rfl
  refine ⟨_, (s.run_of_ok source hprogram fuel args).trans hrun, rfl, ?_⟩
  simp only [Session.adopt, Session.globals, Store.scope, hscopes, hafter, Context.writeOut]
  exact ⟨trivial, trivial, trivial, trivial, trivial, hstore ▸ hwrote.store⟩

/-- A template of texts and text literals is rendered in any session: the run
succeeds, the rendering is appended to the output, and nothing else that a program
or the host can see has changed. -/
theorem Session.run_template (t : Template) (s : Session) (file : Option String)
    (args : List String) (fuel : Nat) (hfuel : 2 ≤ fuel) :
    ∃ s', s.run fuel ⟨t.source, file⟩ args = some s' ∧ s'.failure = none ∧
      s'.context.out = s.context.out ++ t.rendering ∧ s'.context.err = s.context.err ∧
      s'.context.aliases = s.context.aliases ∧ s'.context.modules = s.context.modules ∧
      s'.globals = s.globals ∧ s.store.Extends s'.store := by
  obtain ⟨fuel, rfl⟩ : ∃ n, fuel = n + 2 := ⟨fuel - 2, by omega⟩
  obtain ⟨program, hprogram, hspells⟩ := t.exists_program
  have hparse : Program.ofSource (Source.text ⟨t.source, file⟩) = .ok program := hprogram
  obtain ⟨m, hrun, hwrote⟩ :=
    Template.runProgram_of_spells fuel hspells (s.prepared ⟨t.source, file⟩ args) file
  exact Session.run_of_wrote hparse hrun hwrote

def Template.tricky : Template where
  first := "a \x7b"
  parts := [("\\\"x\" :\x7d \x7b@ // ü", "\x7d\r\n\r\x7b"), ("", ":\x7d @\x7d\n")]
  first_isLiteral := by decide
  parts_isLiteral := by decide

theorem Session.run_template_tricky :
    Template.tricky.source = "a \x7b\x7b: \"\\\\\\\"x\\\" :\x7d \x7b@ // ü\" :\x7d" ++
        "\x7d\r\n\r\x7b\x7b: \"\" :\x7d:\x7d @\x7d\n" ∧
      ∃ s', (Session.start ⟨[], .empty⟩ "" .lf .none).run 2 ⟨Template.tricky.source, none⟩ [] =
          some s' ∧ s'.failure = none ∧
        s'.context.out = "a \x7b\\\"x\" :\x7d \x7b@ // ü\x7d\r\n\r\x7b:\x7d @\x7d\n" := by
  refine ⟨by decide, ?_⟩
  obtain ⟨s', hrun, hfailure, hout, -⟩ := Session.run_template Template.tricky
    (Session.start ⟨[], .empty⟩ "" .lf .none) none [] 2 (by decide)
  exact ⟨s', hrun, hfailure, hout.trans (by decide)⟩

end Stencil
