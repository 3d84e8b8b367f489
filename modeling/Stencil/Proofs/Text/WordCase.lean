import Mathlib
import Stencil.Proofs.Text.Pattern
import Stencil.Text.WordCase

/-!
The spellings of compound names in ASCII. Spelling a name with underscores, or with
capitals, changes its separators and the size of its letters only, so each spelling can be
made from the others: with capitals or without a mark it comes out as it does at once.
Both joined spellings make the first letter small and go on with what follows. The
replacement there is, for any text, the recursion that carries whether separators have just
been read, and a composition is compared by that recursion.
-/

namespace Stencil.Text

def IsAscii (cs : List Char) : Prop := ∀ c ∈ cs, c.toNat < 128

variable {c : Char} {cs rest : List Char}

/-! Replacements. -/

/-- Joins the words of what follows the first letter with underscores; the flag
tells that separators have just been read. -/
def snakeFrom (afterSeparator : Bool) : List Char → List Char
  | [] => if afterSeparator then ['_'] else []
  | c :: rest =>
    if isSeparator c then snakeFrom true rest
    else if afterSeparator || isCapital c then '_' :: lowerChar c ++ snakeFrom false rest
    else c :: snakeFrom false rest

/-- Joins the words of what follows the first letter with capitals. -/
def camelFrom (afterSeparator : Bool) : List Char → List Char
  | [] => []
  | c :: rest =>
    if isSeparator c then camelFrom true rest
    else if afterSeparator then upperChar c ++ camelFrom false rest
    else c :: camelFrom false rest

theorem match?_joint_of_letter (hsep : isSeparator c = false) (rest : List Char) :
    joint.match? (c :: rest) = none :=
  Pattern.match?_andThen_of_none (Pattern.match?_many_of_neg hsep rest) _

/-- The rest of a joint, after its separators: a character of the same line, if there is one. -/
def afterJoint : List Char → Match
  | [] => ⟨0, none⟩
  | d :: _ => if d = '\n' then ⟨0, none⟩ else ⟨1, some [d]⟩

theorem match?_afterJoint (cs : List Char) :
    (Pattern.maybe (.capture (.one (· ≠ '\n')))).match? cs = some (afterJoint cs) := by
  rw [Pattern.match?_maybe, Pattern.match?_capture, Pattern.match?_one]
  cases cs with
  | nil => rfl
  | cons d rest =>
    by_cases hline : d = '\n'
    · simp [afterJoint, hline, Option.filter]
    · simp [afterJoint, hline, Option.filter]

theorem drop_length_takeWhile (test : Char → Bool) (cs : List Char) :
    cs.drop (cs.takeWhile test).length = cs.dropWhile test := by
  conv => lhs; arg 2; rw [← List.takeWhile_append_dropWhile (p := test) (l := cs)]
  exact List.drop_left

/-- A joint takes all separators at its place, and the character behind them if there is one. -/
theorem match?_joint (hsep : isSeparator c = true) (rest : List Char) :
    joint.match? (c :: rest) = some
      ⟨(rest.takeWhile isSeparator).length + 1 + (afterJoint (rest.dropWhile isSeparator)).length,
        (afterJoint (rest.dropWhile isSeparator)).captured⟩ := by
  have hafter := match?_afterJoint (rest.dropWhile isSeparator)
  rw [← drop_length_takeWhile] at hafter ⊢
  rw [joint, Pattern.match?_andThen (Pattern.match?_many hsep rest) hafter, Option.or_none]

section Replacement

variable {p : Pattern} (f : Option (List Char) → List Char)

/-- A joint is replaced, and what follows it is gone through. -/
theorem replaceAll_joint (hsep : isSeparator c = true) (rest : List Char)
    (hp : p.match? (c :: rest) = joint.match? (c :: rest)) :
    p.replaceAll f (c :: rest) =
      match rest.dropWhile isSeparator with
      | [] => f none ++ p.replaceAll f []
      | d :: more =>
        if d = '\n' then f none ++ p.replaceAll f (d :: more)
        else f (some [d]) ++ p.replaceAll f more := by
  rw [Pattern.replaceAll_of_match f (hp.trans (match?_joint hsep rest))]
  dsimp only
  rw [Nat.add_right_comm, Nat.add_sub_cancel, ← List.drop_drop, drop_length_takeWhile]
  cases rest.dropWhile isSeparator with
  | nil => rfl
  | cons d more =>
    by_cases hline : d = '\n'
    · simp [afterJoint, hline]
    · simp [afterJoint, hline]

theorem isSeparator_of_dropWhile {d : Char} {more : List Char}
    (h : cs.dropWhile isSeparator = d :: more) : isSeparator d = false := by
  have hhead := List.head?_dropWhile_not isSeparator cs
  rw [h] at hhead
  simpa using hhead

/-- If what follows a joint is replaced as `join` joins the words, and `join` treats the
character behind a joint as the replacement does, then so is the joint. -/
theorem replaceAll_joint_eq {join : Bool → List Char → List Char}
    (hsep : isSeparator c = true) {rest : List Char}
    (hp : p.match? (c :: rest) = joint.match? (c :: rest))
    (hnil : join true [] = f none)
    (hline : ∀ more, join true ('\n' :: more) = f none ++ join false ('\n' :: more))
    (hletter : ∀ d more, isSeparator d = false → d ≠ '\n' →
      join true (d :: more) = f (some [d]) ++ join false more)
    (hrest : ∀ cs, cs.length ≤ rest.length → p.replaceAll f cs = join false cs) :
    p.replaceAll f (c :: rest) = join true (rest.dropWhile isSeparator) := by
  rw [replaceAll_joint f hsep rest hp]
  have hshort := List.length_dropWhile_le isSeparator rest
  cases hafter : rest.dropWhile isSeparator with
  | nil => exact (List.append_nil _).trans hnil.symm
  | cons d more =>
    rw [hafter] at hshort
    dsimp only
    split
    · next hd => rw [hd, hline, hrest _ (hd ▸ hshort)]
    · next hd =>
      rw [hletter d more (isSeparator_of_dropWhile hafter) hd,
        hrest more (Nat.le_of_succ_le hshort)]

end Replacement

/-! The patterns and the recursions. -/

theorem snakeFrom_dropWhile (cs : List Char) :
    snakeFrom true (cs.dropWhile isSeparator) = snakeFrom true cs := by
  induction cs with
  | nil => rfl
  | cons c rest ih =>
    cases hsep : isSeparator c with
    | true => rw [List.dropWhile_cons_of_pos hsep, ih, snakeFrom, if_pos hsep]
    | false => rw [List.dropWhile_cons_of_neg (by simp [hsep])]

theorem camelFrom_dropWhile (cs : List Char) :
    camelFrom true (cs.dropWhile isSeparator) = camelFrom true cs := by
  induction cs with
  | nil => rfl
  | cons c rest ih =>
    cases hsep : isSeparator c with
    | true => rw [List.dropWhile_cons_of_pos hsep, ih, camelFrom, if_pos hsep]
    | false => rw [List.dropWhile_cons_of_neg (by simp [hsep])]

/-- Joints and capitals are replaced as the recursion joins the words. -/
theorem replaceAll_boundary (cs : List Char) :
    boundary.replaceAll (fun letter => '_' :: (letter.getD []).flatMap lowerChar) cs =
      snakeFrom false cs := by
  match cs with
  | [] => rfl
  | c :: rest =>
    cases hsep : isSeparator c with
    | true =>
      have hmatch : boundary.match? (c :: rest) = joint.match? (c :: rest) := by
        rw [boundary, Pattern.match?_orElse, match?_joint hsep]
        rfl
      rw [snakeFrom, if_pos hsep, ← snakeFrom_dropWhile]
      refine replaceAll_joint_eq _ hsep hmatch rfl (fun _ => rfl) (fun d more hd _ => ?_)
        fun cs hcs => replaceAll_boundary cs
      rw [snakeFrom, hd]
      simp
    | false =>
      have hmatch : boundary.match? (c :: rest) =
          if isCapital c then some ⟨1, some [c]⟩ else none := by
        rw [boundary, Pattern.match?_orElse, match?_joint_of_letter hsep, Pattern.match?_capture,
          Pattern.match?_one]
        cases hcapital : isCapital c with
        | true => simp [hcapital, Option.filter]
        | false => simp [hcapital, Option.filter]
      rw [snakeFrom, hsep, Bool.false_or]
      cases hcapital : isCapital c with
      | true =>
        rw [hcapital, if_pos rfl] at hmatch
        rw [Pattern.replaceAll_of_match _ hmatch, replaceAll_boundary]
        simp
      | false =>
        rw [hcapital, if_neg Bool.false_ne_true] at hmatch
        rw [Pattern.replaceAll_of_none _ hmatch, replaceAll_boundary]
        rfl
termination_by cs.length

/-- Joints are replaced as the recursion joins the words. -/
theorem replaceAll_joint_eq_camelFrom (cs : List Char) :
    joint.replaceAll (fun letter => (letter.getD []).flatMap upperChar) cs =
      camelFrom false cs := by
  match cs with
  | [] => rfl
  | c :: rest =>
    cases hsep : isSeparator c with
    | true =>
      rw [camelFrom, if_pos hsep, ← camelFrom_dropWhile]
      refine replaceAll_joint_eq _ hsep rfl rfl (fun _ => rfl) (fun d more hd _ => ?_)
        fun cs hcs => replaceAll_joint_eq_camelFrom cs
      rw [camelFrom, hd]
      simp
    | false =>
      rw [Pattern.replaceAll_of_none _ (match?_joint_of_letter hsep rest),
        replaceAll_joint_eq_camelFrom, camelFrom, hsep]
      rfl
termination_by cs.length

/-! Characters. -/

theorem lowerChar_of_ascii (hc : c.toNat < 128) : lowerChar c = [c.toLower] := if_pos hc

theorem upperChar_of_ascii (hc : c.toNat < 128) : upperChar c = [c.toUpper] := if_pos hc

theorem isCapital_of_ascii (hc : c.toNat < 128) : isCapital c = c.isUpper := if_pos hc

/-- What holds of every ASCII code holds of every ASCII character. -/
theorem of_ascii (P : Char → Prop) (h : ∀ code < 128, P (Char.ofNat code)) (hc : c.toNat < 128) :
    P c := by
  rw [← Char.ofNat_toNat c]
  exact h c.toNat hc

theorem toLower_ascii (hc : c.toNat < 128) : c.toLower.toNat < 128 :=
  of_ascii (fun c => c.toLower.toNat < 128) (by decide) hc

theorem toUpper_ascii (hc : c.toNat < 128) : c.toUpper.toNat < 128 :=
  of_ascii (fun c => c.toUpper.toNat < 128) (by decide) hc

theorem isSeparator_toLower (hc : c.toNat < 128) : isSeparator c.toLower = isSeparator c :=
  of_ascii (fun c => isSeparator c.toLower = isSeparator c) (by decide) hc

theorem isSeparator_toUpper (hc : c.toNat < 128) : isSeparator c.toUpper = isSeparator c :=
  of_ascii (fun c => isSeparator c.toUpper = isSeparator c) (by decide) hc

theorem toUpper_of_isUpper (h : c.isUpper = true) : c.toUpper = c :=
  Char.toUpper_eq_of_not_isLower (Char.not_isLower_of_isUpper h)

/-! What follows the first letter. -/

section Step

variable (after : Bool)

theorem snakeFrom_separator (hc : isSeparator c = true) (rest : List Char) :
    snakeFrom after (c :: rest) = snakeFrom true rest := if_pos hc

theorem camelFrom_separator (hc : isSeparator c = true) (rest : List Char) :
    camelFrom after (c :: rest) = camelFrom true rest := if_pos hc

variable (hsep : isSeparator c = false) (hc : c.toNat < 128)

include hsep hc

theorem snakeFrom_letter (rest : List Char) :
    snakeFrom after (c :: rest) =
      if after || c.isUpper then '_' :: c.toLower :: snakeFrom false rest
      else c :: snakeFrom false rest := by
  rw [snakeFrom, hsep, isCapital_of_ascii hc, lowerChar_of_ascii hc]
  rfl

theorem camelFrom_letter (rest : List Char) :
    camelFrom after (c :: rest) =
      (if after then c.toUpper else c) :: camelFrom false rest := by
  rw [camelFrom, hsep, upperChar_of_ascii hc]
  cases after with
  | true => rfl
  | false => rfl

end Step

/-- A letter that has been spelled small after an underscore is spelled so again. -/
theorem snakeFrom_joint (hsep : isSeparator c = false) (hc : c.toNat < 128) (rest : List Char) :
    snakeFrom false ('_' :: c.toLower :: rest) = '_' :: c.toLower :: snakeFrom false rest := by
  rw [snakeFrom_separator false rfl,
    snakeFrom_letter true ((isSeparator_toLower hc).trans hsep) (toLower_ascii hc),
    Char.toLower_toLower_eq_toLower]
  rfl

theorem camelFrom_joint (hsep : isSeparator c = false) (hc : c.toNat < 128) (rest : List Char) :
    camelFrom false ('_' :: c.toLower :: rest) = c.toUpper :: camelFrom false rest := by
  rw [camelFrom_separator false rfl,
    camelFrom_letter true ((isSeparator_toLower hc).trans hsep) (toLower_ascii hc),
    Char.toUpper_toLower_eq_toUpper]
  rfl

theorem IsAscii.head (h : IsAscii (c :: rest)) : c.toNat < 128 := h c List.mem_cons_self

theorem IsAscii.tail (h : IsAscii (c :: rest)) : IsAscii rest := fun d hd =>
  h d (List.mem_cons_of_mem c hd)

/-- A name in underscores is its own spelling. -/
theorem snakeFrom_snakeFrom (h : IsAscii cs) (after : Bool) :
    snakeFrom false (snakeFrom after cs) = snakeFrom after cs := by
  induction cs generalizing after with
  | nil =>
    cases after with
    | true => rfl
    | false => rfl
  | cons c rest ih =>
    cases hsep : isSeparator c with
    | true => rw [snakeFrom_separator after hsep, ih h.tail]
    | false =>
      rw [snakeFrom_letter after hsep h.head]
      split
      · rw [snakeFrom_joint hsep h.head, ih h.tail]
      · next hkeeps =>
        have hupper : c.isUpper = false := by simp_all
        rw [snakeFrom_letter false hsep h.head, hupper, ih h.tail]
        rfl

/-- The underscores are joints, so the capitals come back. -/
theorem camelFrom_snakeFrom (h : IsAscii cs) (after : Bool) :
    camelFrom false (snakeFrom after cs) = camelFrom after cs := by
  induction cs generalizing after with
  | nil =>
    cases after with
    | true => rfl
    | false => rfl
  | cons c rest ih =>
    cases hsep : isSeparator c with
    | true => rw [snakeFrom_separator after hsep, camelFrom_separator after hsep, ih h.tail]
    | false =>
      rw [snakeFrom_letter after hsep h.head, camelFrom_letter after hsep h.head]
      cases after with
      | true => rw [Bool.true_or, if_pos rfl, if_pos rfl, camelFrom_joint hsep h.head, ih h.tail]
      | false =>
        cases hupper : c.isUpper with
        | true =>
          rw [Bool.or_true, if_pos rfl, camelFrom_joint hsep h.head, ih h.tail,
            toUpper_of_isUpper hupper]
          rfl
        | false =>
          rw [Bool.or_self, if_neg Bool.false_ne_true, camelFrom_letter false hsep h.head,
            ih h.tail]

theorem camelFrom_camelFrom (h : IsAscii cs) (after : Bool) :
    camelFrom false (camelFrom after cs) = camelFrom after cs := by
  induction cs generalizing after with
  | nil => rfl
  | cons c rest ih =>
    cases hsep : isSeparator c with
    | true => rw [camelFrom_separator after hsep, ih h.tail]
    | false =>
      rw [camelFrom_letter after hsep h.head]
      cases after with
      | true =>
        rw [if_pos rfl, camelFrom_letter false ((isSeparator_toUpper h.head).trans hsep)
          (toUpper_ascii h.head), ih h.tail]
        rfl
      | false => rw [if_neg Bool.false_ne_true, camelFrom_letter false hsep h.head, ih h.tail]; rfl

/-! Letters without marks. -/

def letters (cs : List Char) : List Char := (cs.filter (!isSeparator ·)).flatMap lowerChar

theorem letters_separator (hc : isSeparator c = true) (rest : List Char) :
    letters (c :: rest) = letters rest := by
  rw [letters, List.filter_cons_of_neg (by simp [hc])]
  rfl

theorem letters_letter (hsep : isSeparator c = false) (hc : c.toNat < 128) (rest : List Char) :
    letters (c :: rest) = c.toLower :: letters rest := by
  rw [letters, List.filter_cons_of_pos (by simp [hsep]), List.flatMap_cons, lowerChar_of_ascii hc]
  rfl

theorem letters_toLower (hsep : isSeparator c = false) (hc : c.toNat < 128) (rest : List Char) :
    letters (c.toLower :: rest) = c.toLower :: letters rest := by
  rw [letters_letter ((isSeparator_toLower hc).trans hsep) (toLower_ascii hc),
    Char.toLower_toLower_eq_toLower]

/-- A spelling keeps the letters of a name. -/
theorem letters_snakeFrom (h : IsAscii cs) (after : Bool) :
    letters (snakeFrom after cs) = letters cs := by
  induction cs generalizing after with
  | nil =>
    cases after with
    | true => rfl
    | false => rfl
  | cons c rest ih =>
    cases hsep : isSeparator c with
    | true => rw [snakeFrom_separator after hsep, letters_separator hsep, ih h.tail]
    | false =>
      rw [snakeFrom_letter after hsep h.head, letters_letter hsep h.head]
      split
      · rw [letters_separator rfl, letters_toLower hsep h.head, ih h.tail]
      · rw [letters_letter hsep h.head, ih h.tail]

theorem letters_camelFrom (h : IsAscii cs) (after : Bool) :
    letters (camelFrom after cs) = letters cs := by
  induction cs generalizing after with
  | nil => rfl
  | cons c rest ih =>
    cases hsep : isSeparator c with
    | true => rw [camelFrom_separator after hsep, letters_separator hsep, ih h.tail]
    | false =>
      rw [camelFrom_letter after hsep h.head, letters_letter hsep h.head]
      split
      · rw [letters_letter ((isSeparator_toUpper h.head).trans hsep) (toUpper_ascii h.head),
          Char.toLower_toUpper_eq_toLower, ih h.tail]
      · rw [letters_letter hsep h.head, ih h.tail]

theorem letters_letters (h : IsAscii cs) : letters (letters cs) = letters cs := by
  induction cs with
  | nil => rfl
  | cons c rest ih =>
    cases hsep : isSeparator c with
    | true => rw [letters_separator hsep, ih h.tail]
    | false => rw [letters_letter hsep h.head, letters_toLower hsep h.head, ih h.tail]

/-! Whole names. -/

def joined (tail : List Char → List Char) (cs : List Char) : List Char :=
  match cs.dropWhile isSeparator with
  | [] => []
  | c :: rest => lowerChar c ++ tail rest

theorem toList_snake (s : String) : (snake s).toList = joined (snakeFrom false) s.toList := by
  unfold snake joined
  cases s.toList.dropWhile isSeparator with
  | nil => rfl
  | cons c rest =>
    dsimp only
    rw [String.toList_ofList, replaceAll_boundary]

theorem toList_camel (s : String) : (camel s).toList = joined (camelFrom false) s.toList := by
  unfold camel joined
  cases s.toList.dropWhile isSeparator with
  | nil => rfl
  | cons c rest =>
    dsimp only
    rw [String.toList_ofList, replaceAll_joint_eq_camelFrom]

theorem toList_hacker (s : String) : (hacker s).toList = letters s.toList := String.toList_ofList

section Joined

variable {f g tail : List Char → List Char}

theorem joined_separator (hc : isSeparator c = true) (rest : List Char) :
    joined f (c :: rest) = joined f rest := by
  rw [joined, List.dropWhile_cons_of_pos hc]
  rfl

theorem joined_letter (hsep : isSeparator c = false) (hc : c.toNat < 128) (rest : List Char) :
    joined f (c :: rest) = c.toLower :: f rest := by
  rw [joined, List.dropWhile_cons_of_neg (by simp [hsep])]
  change lowerChar c ++ f rest = _
  rw [lowerChar_of_ascii hc]
  rfl

/-- An ASCII name has no letters, or a first letter. -/
theorem joined_cases (h : IsAscii cs) :
    (∀ tail, joined tail cs = []) ∧ letters cs = [] ∨
      ∃ c rest, isSeparator c = false ∧ c.toNat < 128 ∧ IsAscii rest ∧
        (∀ tail, joined tail cs = c.toLower :: tail rest) ∧
        letters cs = c.toLower :: letters rest := by
  induction cs with
  | nil => exact .inl ⟨fun _ => rfl, rfl⟩
  | cons c rest ih =>
    cases hsep : isSeparator c with
    | true =>
      simp only [joined_separator hsep, letters_separator hsep]
      exact ih h.tail
    | false =>
      exact .inr ⟨c, rest, hsep, h.head, h.tail, fun _ => joined_letter hsep h.head rest,
        letters_letter hsep h.head rest⟩

/-- Two spellings one after the other are one, if they are so behind the first letter. -/
theorem joined_joined (h : IsAscii cs) (htail : ∀ rest, IsAscii rest → f (g rest) = tail rest) :
    joined f (joined g cs) = joined tail cs := by
  rcases joined_cases h with ⟨hjoined, -⟩ | ⟨c, rest, hsep, hc, hrest, hjoined, -⟩
  · rw [hjoined, hjoined]
    rfl
  · rw [hjoined, hjoined, joined_letter ((isSeparator_toLower hc).trans hsep) (toLower_ascii hc),
      Char.toLower_toLower_eq_toLower, htail rest hrest]

theorem letters_joined (h : IsAscii cs)
    (htail : ∀ rest, IsAscii rest → letters (tail rest) = letters rest) :
    letters (joined tail cs) = letters cs := by
  rcases joined_cases h with ⟨hjoined, hletters⟩ | ⟨c, rest, hsep, hc, hrest, hjoined, hletters⟩
  · rw [hjoined, hletters]
    rfl
  · rw [hjoined, hletters, letters_toLower hsep hc, htail rest hrest]

end Joined

/-! What the spellings are made of. -/

/-- No letter of a name with underscores is large, and no hyphen is left. -/
def IsSmall (c : Char) : Prop := c.isUpper = false ∧ c ≠ '-'

theorem isSmall_toLower (hsep : isSeparator c = false) (hc : c.toNat < 128) :
    IsSmall c.toLower := by
  refine ⟨Char.isUpper_toLower_eq_false c, fun hhyphen => ?_⟩
  rw [← isSeparator_toLower hc, hhyphen] at hsep
  cases hsep

theorem isSmall_underscore : IsSmall '_' := ⟨rfl, by decide⟩

theorem isSmall_snakeFrom (h : IsAscii cs) (after : Bool) : ∀ d ∈ snakeFrom after cs, IsSmall d := by
  induction cs generalizing after with
  | nil =>
    cases after with
    | true => exact List.forall_mem_singleton.mpr isSmall_underscore
    | false => exact nofun
  | cons c rest ih =>
    cases hsep : isSeparator c with
    | true =>
      rw [snakeFrom_separator after hsep]
      exact ih h.tail true
    | false =>
      have hsmall := isSmall_toLower hsep h.head
      rw [snakeFrom_letter after hsep h.head]
      split
      · exact List.forall_mem_cons.mpr ⟨isSmall_underscore,
          List.forall_mem_cons.mpr ⟨hsmall, ih h.tail false⟩⟩
      · next hkeeps =>
        rw [Char.toLower_eq_of_not_isUpper (fun hupper => hkeeps (by simp [hupper]))] at hsmall
        exact List.forall_mem_cons.mpr ⟨hsmall, ih h.tail false⟩

theorem isSeparator_camelFrom (h : IsAscii cs) (after : Bool) :
    ∀ d ∈ camelFrom after cs, isSeparator d = false := by
  induction cs generalizing after with
  | nil => exact nofun
  | cons c rest ih =>
    cases hsep : isSeparator c with
    | true =>
      rw [camelFrom_separator after hsep]
      exact ih h.tail true
    | false =>
      rw [camelFrom_letter after hsep h.head]
      refine List.forall_mem_cons.mpr ⟨?_, ih h.tail false⟩
      split
      · exact (isSeparator_toUpper h.head).trans hsep
      · exact hsep

theorem isSmall_snake (h : IsAscii cs) : ∀ d ∈ joined (snakeFrom false) cs, IsSmall d := by
  rcases joined_cases h with ⟨hjoined, -⟩ | ⟨c, rest, hsep, hc, hrest, hjoined, -⟩
  · rw [hjoined]
    exact nofun
  · rw [hjoined]
    exact List.forall_mem_cons.mpr ⟨isSmall_toLower hsep hc, isSmall_snakeFrom hrest false⟩

theorem head?_joined_ne (h : IsAscii cs) (tail : List Char → List Char) :
    (joined tail cs).head? ≠ some '_' := by
  rcases joined_cases h with ⟨hjoined, -⟩ | ⟨c, rest, hsep, hc, -, hjoined, -⟩
  · rw [hjoined]
    exact nofun
  · rw [hjoined, List.head?_cons]
    intro hunderscore
    rw [← isSeparator_toLower hc, Option.some.inj hunderscore] at hsep
    cases hsep

theorem isSeparator_camel (h : IsAscii cs) :
    ∀ d ∈ joined (camelFrom false) cs, isSeparator d = false := by
  rcases joined_cases h with ⟨hjoined, -⟩ | ⟨c, rest, hsep, hc, hrest, hjoined, -⟩
  · rw [hjoined]
    exact nofun
  · rw [hjoined]
    exact List.forall_mem_cons.mpr ⟨(isSeparator_toLower hc).trans hsep,
      isSeparator_camelFrom hrest false⟩

/-- The spellings of an ASCII name agree with each other. Spelling again changes nothing. A
name with underscores has the same spelling with capitals as the name itself, and without
marks all three are spelled alike. A name with underscores is in small letters without
hyphens and starts with no underscore; one with capitals has no separators. -/
theorem spellings_agree (s : String) (h : ∀ c ∈ s.toList, c.toNat < 128) :
    snake (snake s) = snake s ∧ camel (camel s) = camel s ∧ hacker (hacker s) = hacker s ∧
    camel (snake s) = camel s ∧ hacker (snake s) = hacker s ∧ hacker (camel s) = hacker s ∧
    (∀ c ∈ (snake s).toList, c.isUpper = false ∧ c ≠ '-') ∧ (snake s).toList.head? ≠ some '_' ∧
    ∀ c ∈ (camel s).toList, c ≠ '-' ∧ c ≠ '_' := by
  have hascii : IsAscii s.toList := h
  simp only [← String.toList_inj, toList_snake, toList_camel, toList_hacker]
  refine ⟨?_, ?_, letters_letters hascii, ?_, ?_, ?_, isSmall_snake hascii,
    head?_joined_ne hascii _, ?_⟩
  · exact joined_joined hascii fun rest hrest => snakeFrom_snakeFrom hrest false
  · exact joined_joined hascii fun rest hrest => camelFrom_camelFrom hrest false
  · exact joined_joined hascii fun rest hrest => camelFrom_snakeFrom hrest false
  · exact letters_joined hascii fun rest hrest => letters_snakeFrom hrest false
  · exact letters_joined hascii fun rest hrest => letters_camelFrom hrest false
  · intro c hc
    have hsep := isSeparator_camel hascii c hc
    simp only [isSeparator, Bool.or_eq_false_iff, decide_eq_false_iff_not] at hsep
    exact hsep

namespace Header

def name : String := "-_Last-Modified__At_\n2Day-X--"

example : snake name = "last_modified_at_\n2_day_x_" := by decide +kernel

theorem header_spellings_agree :
    (∀ c ∈ name.toList, c.toNat < 128) ∧ camel (snake name) = camel name ∧
      hacker (camel name) = hacker name := by
  have hascii : ∀ c ∈ name.toList, c.toNat < 128 := by simp [name]
  obtain ⟨-, -, -, hcamel, -, hhacker, -⟩ := spellings_agree name hascii
  exact ⟨hascii, hcamel, hhacker⟩

end Header

end Stencil.Text
