import Stencil.Proofs.Token.Cut

/-!
The code of a block written from its tokens. A token is spelled as messages name it, but
for a string, whose quotes and backslashes are escaped, and a blank stands behind each
token, so that it does not run into what follows; more blanks, line breaks and comments
may come after that. Such code lexes into the tokens it was written from, with one
newline for each line break and each comment between them.
-/

namespace Stencil

/-! What stands between tokens. -/

inductive Blank
  | space
  | tab
  | verticalTab
  | formFeed

def Blank.char : Blank → Char
  | .space => ' '
  | .tab => '\t'
  | .verticalTab => '\x0b'
  | .formFeed => '\x0c'

inductive Filler
  | blank (b : Blank)
  | newline
  | blockComment (body : List Char) (unclosed : ¬['*', '/'] <:+: body)
  | lineComment (body : List Char) (unbroken : ∀ c ∈ body, Lexer.isLineBreak c = false)

namespace Filler

def spelling : Filler → List Char
  | .blank b => [b.char]
  | .newline => ['\n']
  | .blockComment body _ => '/' :: '*' :: (body ++ ['*', '/'])
  | .lineComment body _ => '/' :: '/' :: (body ++ ['\n'])

def kinds : Filler → List TokenKind
  | .blank _ => []
  | _ => [.newline]

end Filler

structure Separator where
  first : Blank
  fillers : List Filler

namespace Separator

def spelling (s : Separator) : List Char := s.first.char :: s.fillers.flatMap Filler.spelling

def kinds (s : Separator) : List TokenKind := s.fillers.flatMap Filler.kinds

end Separator

/-! The tokens of code. -/

/-- A letter or an underscore and then letters, digits and underscores that are together
no word of the language. -/
structure Identifier where
  first : Char
  others : List Char
  isIdentStart_first : Lexer.isIdentStart first = true
  isIdentRest_others : ∀ c ∈ others, Lexer.isIdentRest c = true
  not_keyword : ∀ keyword : Keyword, keyword.spelling ≠ String.ofList (first :: others)

def Identifier.name (name : Identifier) : String := String.ofList (name.first :: name.others)

inductive CodeToken
  | word (keyword : Keyword)
  | arith (op : ArithOp)
  | assign
  | augment (op : ArithOp)
  | comp (op : CompOp)
  | punct (mark : Punct)
  | ident (name : Identifier)
  | int (value : Int64) (nonneg : 0 ≤ value)
  | str (content : String)

namespace CodeToken

def kind : CodeToken → TokenKind
  | .word keyword => .word keyword
  | .arith op => .arith op
  | .assign => .assign
  | .augment op => .augment op
  | .comp op => .comp op
  | .punct mark => .punct mark
  | .ident name => .ident name.name
  | .int value _ => .int value
  | .str content => .str content

def spelling : CodeToken → List Char
  | .str content => '"' :: (Lexer.escaped content.toList ++ ['"'])
  | t => t.kind.spelling.toList

end CodeToken

def codeSpelling (items : List (CodeToken × Separator)) : List Char :=
  items.flatMap fun (t, s) => t.spelling ++ s.spelling

def codeKinds (items : List (CodeToken × Separator)) : List TokenKind :=
  items.flatMap fun (t, s) => t.kind :: s.kinds

def blockSpelling (items : List (CodeToken × Separator)) : String :=
  "\x7b@ " ++ String.ofList (codeSpelling items) ++ "@\x7d"

namespace Lexer

variable {c first : Char} {read rest more body others : List Char}
  {token : Option TokenKind} {lines : Nat}

/-- Inside a code block a piece that is no closer. -/
theorem lexes_of_innerPiece (hat : c ≠ '@')
    (h : ∀ pos, innerPiece .code pos c rest = .ok ⟨token, read, lines, more, .code⟩) :
    Lexes .standard .code (c :: rest) token.toList .code more := by
  have hpiece : ∀ pos, piece .standard .code pos c rest =
      .ok ⟨token, read, lines, more, .code⟩ := by
    intro pos
    rw [← h pos]
    exact if_neg hat
  exact lexes_piece hpiece (innerPiece_suffix (h .start)).length_le

/-- Inside any block a piece that cannot begin a closer. -/
theorem lexes_of_innerPiece_of_ne {mode : Mode} (hmode : mode ≠ .text) (hat : c ≠ '@')
    (hcolon : c ≠ ':')
    (h : ∀ pos, innerPiece mode pos c rest = .ok ⟨token, read, lines, more, mode⟩) :
    Lexes .standard mode (c :: rest) token.toList mode more := by
  have hclose : Delimiters.standard.refClose.heads (c :: rest) = false :=
    heads_eq_false_of_ne hcolon
  have hpiece : ∀ pos, piece .standard mode pos c rest =
      .ok ⟨token, read, lines, more, mode⟩ := by
    intro pos
    have hcode : piece .standard mode pos c rest = codePiece .standard mode pos c rest := by
      cases mode with
      | text => exact absurd rfl hmode
      | _ => rfl
    rw [hcode, codePiece_eq, if_neg hat, hclose, Bool.and_false, if_neg Bool.false_ne_true, h pos]
  exact lexes_piece hpiece (innerPiece_suffix (h .start)).length_le

theorem lexes_codeBlank (b : Blank) (rest : List Char) :
    Lexes .standard .code (b.char :: rest) [] .code rest := by
  have hblank : isCodeBlank b.char = true := by cases b <;> rfl
  exact lexes_blank (by decide) hblank rest

theorem blockCommentFrom_append_closer (hbody : ¬['*', '/'] <:+: body) (read rest : List Char) :
    blockCommentFrom read (body ++ '*' :: '/' :: rest) =
      (read.reverse ++ (body ++ ['*', '/']), rest) := by
  induction body generalizing read with
  | nil => simp [blockCommentFrom]
  | cons c body ih =>
    have htail : ¬['*', '/'] <:+: body := fun hinfix => hbody (List.infix_cons hinfix)
    have hcloser : ∀ after, c = '*' → body ++ '*' :: '/' :: rest ≠ '/' :: after := by
      rintro after rfl hafter
      cases body with
      | nil => cases hafter
      | cons c' body =>
        obtain ⟨rfl, -⟩ := List.cons.inj hafter
        exact hbody ⟨[], body, rfl⟩
    rw [List.cons_append, blockCommentFrom, ih htail]
    · simp
    · exact hcloser

theorem lexes_blockComment (hbody : ¬['*', '/'] <:+: body) (rest : List Char) :
    Lexes .standard .code ('/' :: '*' :: (body ++ '*' :: '/' :: rest)) [.newline] .code rest := by
  have hcomment := blockCommentFrom_append_closer hbody [] rest
  have hpiece : ∀ pos, innerPiece .code pos '/' ('*' :: (body ++ '*' :: '/' :: rest)) =
      .ok ⟨some .newline, '/' :: '*' :: (body ++ ['*', '/']), (body ++ ['*', '/']).count '\n',
        rest, .code⟩ := by
    intro pos
    have hstar : innerPiece .code pos '/' ('*' :: (body ++ '*' :: '/' :: rest)) =
        .ok (blockCommentPiece .code (body ++ '*' :: '/' :: rest)) := rfl
    rw [hstar, blockCommentPiece, hcomment]
    rfl
  exact lexes_of_innerPiece (by decide) hpiece

theorem lexes_lineComment (hbody : ∀ c ∈ body, isLineBreak c = false) (rest : List Char) :
    Lexes .standard .code ('/' :: '/' :: (body ++ '\n' :: rest)) [.newline] .code rest := by
  have hkeep : ∀ c ∈ body, (!isLineBreak c) = true := by simpa using hbody
  have hpiece : ∀ pos, innerPiece .code pos '/' ('/' :: (body ++ '\n' :: rest)) =
      .ok ⟨some .newline, '/' :: '/' :: body ++ ['\n'], 1, rest, .code⟩ := by
    intro pos
    have hslash : innerPiece .code pos '/' ('/' :: (body ++ '\n' :: rest)) =
        .ok (lineCommentPiece .code (body ++ '\n' :: rest)) := rfl
    rw [hslash, lineCommentPiece, List.takeWhile_append_of_pos hkeep,
      List.dropWhile_append_of_pos hkeep]
    simp [isLineBreak, lineBreak]
  exact lexes_of_innerPiece (by decide) hpiece

theorem lexes_filler (f : Filler) (rest : List Char) :
    Lexes .standard .code (f.spelling ++ rest) f.kinds .code rest := by
  cases f with
  | blank b => exact lexes_codeBlank b rest
  | newline =>
    have hpiece : ∀ pos, innerPiece .code pos '\n' rest =
        .ok ⟨some .newline, ['\n'], 1, rest, .code⟩ := fun _ => rfl
    exact lexes_of_innerPiece (by decide) hpiece
  | blockComment body unclosed =>
    simpa [Filler.spelling, Filler.kinds] using lexes_blockComment unclosed rest
  | lineComment body unbroken =>
    simpa [Filler.spelling, Filler.kinds] using lexes_lineComment unbroken rest

theorem lexes_separator (s : Separator) (rest : List Char) :
    Lexes .standard .code (s.spelling ++ rest) s.kinds .code rest := by
  obtain ⟨b, fillers⟩ := s
  have hfillers : Lexes .standard .code (fillers.flatMap Filler.spelling ++ rest)
      (fillers.flatMap Filler.kinds) .code rest := by
    induction fillers with
    | nil => exact .refl _ _ _
    | cons f fillers ih =>
      rw [List.flatMap_cons, List.flatMap_cons, List.append_assoc]
      exact (lexes_filler f _).trans ih
  exact (lexes_codeBlank b _).trans hfillers

/-! Tokens, each with a blank behind it. -/

theorem ne_of_isIdentRest {c' : Char} (h : isIdentRest c = true) (h' : isIdentRest c' = false) :
    c ≠ c' := by
  rintro rfl
  rw [h] at h'
  cases h'

/-- A character of a word or a number begins nothing else. -/
theorem innerPiece_of_isIdentRest (h : isIdentRest c = true) (mode : Mode) (pos : Position)
    (rest : List Char) : innerPiece mode pos c rest =
      if c.isDigit then numberPiece mode pos (c :: rest)
      else if isIdentStart c then .ok (wordPiece mode (c :: rest))
      else markPiece mode pos c rest := by
  have hbreak := isLineBreak_eq_false_of_isIdentRest h
  have hblank : isCodeBlank c = false := by
    simp only [isCodeBlank, Bool.or_eq_false_iff, decide_eq_false_iff_not]
    exact ⟨⟨⟨ne_of_isIdentRest h rfl, ne_of_isIdentRest h rfl⟩, ne_of_isIdentRest h rfl⟩,
      ne_of_isIdentRest h rfl⟩
  have hslash : c ≠ '/' := ne_of_isIdentRest h rfl
  have hquote : c ≠ '"' := ne_of_isIdentRest h rfl
  simp [innerPiece, hbreak, hblank, hslash, hquote]

theorem readDigits_toDigits (n : Nat) : Number.readDigits (Nat.toDigits 10 n) = n :=
  Nat.ofDigitChars_toDigits (by decide) (by decide)

/-- A number with a blank behind it is one token. -/
theorem lexes_digits {mode : Mode} (hmode : mode ≠ .text) {n : Nat}
    (hn : n ≤ Number.greatestInt) (b : Blank) (rest : List Char) :
    Lexes .standard mode (Nat.toDigits 10 n ++ b.char :: rest) [.int (Int64.ofNat n)] mode
      (b.char :: rest) := by
  have hdigits : ∀ c ∈ Nat.toDigits 10 n, c.isDigit = true :=
    fun c hc => Nat.isDigit_of_mem_toDigits (by decide) (by decide) hc
  have hblank : b.char.isDigit = false ∧ b.char ≠ '.' := by cases b <;> decide
  have hnumber : ∀ pos, numberPiece mode pos (Nat.toDigits 10 n ++ b.char :: rest) =
      .ok ⟨some (.int (Int64.ofNat n)), Nat.toDigits 10 n, 0, b.char :: rest, mode⟩ := by
    intro pos
    rw [numberPiece, List.takeWhile_append_of_pos hdigits, List.dropWhile_append_of_pos hdigits]
    simp [hblank, readDigits_toDigits, hn]
  have hne : Nat.toDigits 10 n ≠ [] := Nat.toDigits_ne_nil
  obtain ⟨c, others, hcons⟩ := List.exists_cons_of_ne_nil hne
  rw [hcons] at hdigits hnumber ⊢
  have hdigit : c.isDigit = true := hdigits c List.mem_cons_self
  have hrest : isIdentRest c = true := isIdentRest_of_isDigit hdigit
  have hpiece : ∀ pos, innerPiece mode pos c (others ++ b.char :: rest) =
      .ok ⟨some (.int (Int64.ofNat n)), c :: others, 0, b.char :: rest, mode⟩ := by
    intro pos
    rw [innerPiece_of_isIdentRest hrest, if_pos hdigit]
    exact hnumber pos
  exact lexes_of_innerPiece_of_ne hmode (ne_of_isIdentRest hrest rfl)
    (ne_of_isIdentRest hrest rfl) hpiece

theorem isDigit_eq_false_of_isIdentStart (h : isIdentStart c = true) : c.isDigit = false := by
  by_contra hdigit
  rw [Bool.not_eq_false, Char.isDigit_iff_toNat] at hdigit
  have hbound : c.toNat < 65 := Nat.lt_of_le_of_lt hdigit.2 (by decide)
  rw [isIdentStart, Bool.or_eq_true, decide_eq_true_iff] at h
  rcases h with h | rfl
  · have hletter : 65 ≤ c.toNat := by
      rcases (Bool.or_eq_true ..).mp h with hupper | hlower
      · exact (of_decide_eq_true hupper).1
      · have hlower : 97 ≤ c.toNat := of_decide_eq_true ((Bool.and_eq_true ..).mp hlower).1
        omega
    omega
  · exact absurd hbound (by decide)

def wordKind (word : String) : TokenKind :=
  match Keyword.ofSpelling? word with
  | some keyword => .word keyword
  | none => .ident word

theorem wordKind_spelling (keyword : Keyword) : wordKind keyword.spelling = .word keyword := by
  cases keyword <;> rfl

theorem wordKind_name (name : Identifier) : wordKind name.name = .ident name.name := by
  have hnone : Keyword.ofSpelling? name.name = none := by
    rw [Keyword.ofSpelling?, List.find?_eq_none]
    intro keyword _ heq
    exact name.not_keyword keyword (of_decide_eq_true heq)
  rw [wordKind, hnone]

/-- A word with a blank behind it is one token. -/
theorem lexes_word (hfirst : isIdentStart first = true)
    (hothers : ∀ c ∈ others, isIdentRest c = true) (b : Blank) (rest : List Char) :
    Lexes .standard .code (first :: (others ++ b.char :: rest))
      [wordKind (String.ofList (first :: others))] .code (b.char :: rest) := by
  have hrest : isIdentRest first = true := isIdentRest_of_isIdentStart hfirst
  have hword : ∀ c ∈ first :: others, isIdentRest c = true := by
    rw [List.forall_mem_cons]
    exact ⟨hrest, hothers⟩
  have hblank : isIdentRest b.char = false := by cases b <;> decide
  have htake : (first :: (others ++ b.char :: rest)).takeWhile isIdentRest = first :: others := by
    rw [← List.cons_append, List.takeWhile_append_of_pos hword]
    simp [hblank]
  have hdrop : (first :: (others ++ b.char :: rest)).dropWhile isIdentRest = b.char :: rest := by
    rw [← List.cons_append, List.dropWhile_append_of_pos hword]
    simp [hblank]
  have hpiece : ∀ pos, innerPiece .code pos first (others ++ b.char :: rest) =
      .ok ⟨some (wordKind (String.ofList (first :: others))), first :: others, 0, b.char :: rest,
        .code⟩ := by
    intro pos
    have hdigit := isDigit_eq_false_of_isIdentStart hfirst
    rw [innerPiece_of_isIdentRest hrest, hdigit, if_neg Bool.false_ne_true, if_pos hfirst,
      wordPiece, htake, hdrop]
    rfl
  exact lexes_of_innerPiece (ne_of_isIdentRest hrest rfl) hpiece

theorem lexes_mark {kind : TokenKind} (hat : c ≠ '@')
    (h : ∀ pos, innerPiece .code pos c (others ++ rest) =
      .ok ⟨some kind, c :: others, 0, rest, .code⟩) :
    Lexes .standard .code (c :: others ++ rest) [kind] .code rest :=
  lexes_of_innerPiece hat h

/-- A token that is spelled with a blank behind it is read as itself. -/
theorem lexes_token (t : CodeToken) (b : Blank) (rest : List Char) :
    Lexes .standard .code (t.spelling ++ b.char :: rest) [t.kind] .code (b.char :: rest) := by
  cases t with
  | word keyword =>
    have hletters : ∃ first others, keyword.spelling.toList = first :: others ∧
        isIdentStart first = true ∧ others.all isIdentRest = true := by
      cases keyword <;> exact ⟨_, _, rfl, rfl, rfl⟩
    obtain ⟨first, others, hspelling, hfirst, hothers⟩ := hletters
    have hlexes := lexes_word hfirst (List.all_eq_true.mp hothers) b rest
    rw [← hspelling, String.ofList_toList, wordKind_spelling, ← List.cons_append,
      ← hspelling] at hlexes
    exact hlexes
  | ident name =>
    have hlexes := lexes_word name.isIdentStart_first name.isIdentRest_others b rest
    have hspelling : (CodeToken.ident name).spelling = name.first :: name.others :=
      String.toList_ofList
    rw [← Identifier.name, wordKind_name] at hlexes
    rwa [hspelling]
  | int value nonneg =>
    have hvalue : 0 ≤ value.toInt := Int64.le_iff_toInt_le.mp nonneg
    have hspelling : (CodeToken.int value nonneg).spelling = Nat.toDigits 10 value.toInt.toNat := by
      change (toString value.toInt).toList = _
      rw [Int.toString_eq_repr, Int.repr_eq_if, if_pos hvalue, Nat.toList_repr]
    have hgreatest : value.toInt.toNat ≤ Number.greatestInt := by
      have hlt := value.toInt_lt
      have hgreatest : Number.greatestInt = 9223372036854775807 := rfl
      omega
    have hkind : Int64.ofNat value.toInt.toNat = value := by
      rw [← Int64.ofInt_eq_ofNat, Int.toNat_of_nonneg hvalue, Int64.ofInt_toInt]
    have hmode : Mode.code ≠ .text := by decide
    have hlexes := lexes_digits hmode hgreatest b rest
    rw [hkind] at hlexes
    rwa [hspelling]
  | str content =>
    have hmode : Mode.code ≠ .text := by decide
    have hlexes := lexes_quoted hmode content.toList (b.char :: rest)
    rw [String.ofList_toList] at hlexes
    simpa [CodeToken.spelling, CodeToken.kind] using hlexes
  | assign => exact lexes_mark (by decide) fun _ => by cases b <;> rfl
  | arith op => cases op <;> exact lexes_mark (by decide) fun _ => by cases b <;> rfl
  | augment op => cases op <;> exact lexes_mark (by decide) fun _ => by cases b <;> rfl
  | comp op => cases op <;> exact lexes_mark (by decide) fun _ => by cases b <;> rfl
  | punct mark => cases mark <;> exact lexes_mark (by decide) fun _ => by cases b <;> rfl

/-- Tokens with separators between them are read as themselves, in their order. -/
theorem lexes_code (items : List (CodeToken × Separator)) (rest : List Char) :
    Lexes .standard .code (codeSpelling items ++ rest) (codeKinds items) .code rest := by
  induction items with
  | nil => exact .refl _ _ _
  | cons item items ih =>
    obtain ⟨t, s⟩ := item
    have htoken := lexes_token t s.first
      (s.fillers.flatMap Filler.spelling ++ (codeSpelling items ++ rest))
    have hseparator := lexes_separator s (codeSpelling items ++ rest)
    rw [codeSpelling, codeKinds, List.flatMap_cons, List.flatMap_cons, ← codeSpelling,
      ← codeKinds, List.append_assoc, List.append_assoc]
    exact htoken.trans (hseparator.trans ih)

theorem lexes_codeClose : Lexes .standard .code ['@', '\x7d'] [.codeClose] .text [] := by
  have hpiece : ∀ pos, piece .standard .code pos '@' ['\x7d'] =
      .ok ⟨some .codeClose, ['@', '\x7d'], 0, [], .text⟩ := fun _ => rfl
  exact lexes_piece hpiece (Nat.zero_le 1)

end Lexer

open Lexer

/-- Written code lexes into the tokens it was written from. -/
theorem tokenize_blockSpelling (items : List (CodeToken × Separator)) :
    ∃ tokens, tokenize (blockSpelling items) = .ok tokens ∧
      tokens.map Token.kind = .codeOpen :: (codeKinds items ++ [.codeClose]) := by
  have hsource : (blockSpelling items).toList =
      '\x7b' :: '@' :: ' ' :: (codeSpelling items ++ ['@', '\x7d']) := by
    have hcode : (String.ofList (codeSpelling items)).toList = codeSpelling items :=
      String.toList_ofList
    rw [blockSpelling, String.toList_append, String.toList_append, hcode]
    rfl
  have hopen : Lexes .standard .text (blockSpelling items).toList [.codeOpen] .code
      (' ' :: (codeSpelling items ++ ['@', '\x7d'])) := by
    rw [hsource]
    exact lexes_piece (p := ⟨some .codeOpen, ['\x7b', '@'], 0, _, .code⟩) (fun _ => rfl)
      (Nat.le_succ _)
  have hblank := lexes_codeBlank .space (codeSpelling items ++ ['@', '\x7d'])
  have hcode := lexes_code items ['@', '\x7d']
  exact exists_tokens_of_lexes (hopen.trans (hblank.trans (hcode.trans lexes_codeClose)))

/-- A closer and a quote in a comment are neither. -/
example : blockSpelling [(.word .ifKw, ⟨.space, [.blockComment ['"', '@', '\x7d'] (by decide)]⟩),
    (.int 12 (by decide), ⟨.tab, [.newline]⟩), (.str "\"", ⟨.space, []⟩)] =
      "\x7b@ if /*\"@\x7d*/12\t\n\"\\\"\" @\x7d" := by
  decide

end Stencil
