import Stencil.Grammar.Expression

/-!
How an expression is spelled. Each kind of expression belongs to a tier of the
grammar, and each place where an operand stands has a tier too; an operand is put
in parentheses exactly when its own tier is the weaker one. Only trees that the
grammar can build are proper: the n-ary operators have operands, and a sum holds
no products among its own operators. Positions play no part in a spelling, so two
trees are compared without them.
-/

namespace Stencil

namespace Grammar

inductive Tier
  | or
  | and
  | not
  | comparison
  | augment
  | additive
  | multiplicative
  | negative
  | chain
  | atom
deriving DecidableEq

namespace Tier

def rank : Tier → Nat
  | .or => 0
  | .and => 1
  | .not => 2
  | .comparison => 3
  | .augment => 4
  | .additive => 5
  | .multiplicative => 6
  | .negative => 7
  | .chain => 8
  | .atom => 9

def above : Tier → Tier
  | .or => .and
  | .and => .not
  | .not => .comparison
  | .comparison => .augment
  | .augment => .additive
  | .additive => .multiplicative
  | .multiplicative => .negative
  | .negative => .chain
  | .chain | .atom => .atom

theorem rank_le (t : Tier) : t.rank ≤ 9 := by
  cases t <;> decide

theorem rank_above {t : Tier} (h : t.rank < 9) : t.above.rank = t.rank + 1 := by
  cases t <;> first | rfl | exact absurd h (by decide)

theorem rank_le_above (t : Tier) : t.rank ≤ t.above.rank := by
  cases t <;> decide

/-- Tiers are told apart by their ranks. -/
theorem eq_of_rank_eq {t t' : Tier} (h : t.rank = t'.rank) : t = t' := by
  cases t <;> cases t' <;> first | rfl | exact absurd h (by decide)

end Tier

/-- An operand in its place: in parentheses if its own tier is too weak. -/
def enclosed (place own : Tier) (kinds : List TokenKind) : List TokenKind :=
  if own.rank < place.rank then .punct .lparen :: (kinds ++ [.punct .rparen]) else kinds

theorem enclosed_or (own : Tier) (kinds : List TokenKind) : enclosed .or own kinds = kinds :=
  if_neg (Nat.not_lt_zero _)

def listed (closer : Punct) : List (List TokenKind) → List TokenKind
  | [] => [.punct closer]
  | [item] => item ++ [.punct closer]
  | item :: rest => item ++ .punct .comma :: listed closer rest

def joined (keyword : Keyword) : List (List TokenKind) → List TokenKind
  | [] => []
  | first :: rest => first ++ rest.flatMap (.word keyword :: ·)

end Grammar

open Grammar

def ArithOp.tier : ArithOp → Tier
  | .add | .sub => .additive
  | .mul | .div | .mod => .multiplicative

namespace Expr

def arithTier : List (ArithOp × Expr × Position) → Tier
  | (op, _, _) :: _ => op.tier
  | [] => .additive

theorem arithTier_cases (rest : List (ArithOp × Expr × Position)) :
    arithTier rest = .additive ∨ arithTier rest = .multiplicative := by
  cases rest with
  | nil => exact Or.inl rfl
  | cons step rest =>
    obtain ⟨op, e, pos⟩ := step
    cases op with
    | add | sub => exact Or.inl rfl
    | mul | div | mod => exact Or.inr rfl

def tier : Expr → Tier
  | .or _ => .or
  | .and _ => .and
  | .not .. => .not
  | .comparison .. => .comparison
  | .augment .. => .augment
  | .arith _ rest => arithTier rest
  | .negative .. => .negative
  | .chain .. => .chain
  | _ => .atom

mutual

/-- The tree without its positions. -/
def unplaced : Expr → Expr
  | .nil => .nil
  | .bool value => .bool value
  | .int value => .int value
  | .float value => .float value
  | .str content => .str content
  | .ident name _ => .ident name .start
  | .array items _ => .array (unplacedItems items) .start
  | .dict entries _ => .dict (unplacedEntries entries) .start
  | .super _ => .super .start
  | .chain head links => .chain head.unplaced (unplacedLinks links)
  | .negative operand _ => .negative operand.unplaced .start
  | .arith first rest => .arith first.unplaced (unplacedSteps rest)
  | .augment target rest => .augment target.unplaced (unplacedSteps rest)
  | .comparison first rest => .comparison first.unplaced (unplacedComparisons rest)
  | .not operand _ => .not operand.unplaced .start
  | .and items => .and (unplacedItems items)
  | .or items => .or (unplacedItems items)

def unplacedItems : List Expr → List Expr
  | [] => []
  | e :: rest => e.unplaced :: unplacedItems rest

def unplacedEntries : List (Expr × Expr) → List (Expr × Expr)
  | [] => []
  | (key, item) :: rest => (key.unplaced, item.unplaced) :: unplacedEntries rest

def unplacedLinks : List Link → List Link
  | [] => []
  | .attr name _ :: rest => .attr name .start :: unplacedLinks rest
  | .call args _ :: rest => .call (unplacedItems args) .start :: unplacedLinks rest
  | .index key _ :: rest => .index key.unplaced .start :: unplacedLinks rest

def unplacedSteps : List (ArithOp × Expr × Position) → List (ArithOp × Expr × Position)
  | [] => []
  | (op, e, _) :: rest => (op, e.unplaced, .start) :: unplacedSteps rest

def unplacedComparisons : List (CompOp × Expr × Position) → List (CompOp × Expr × Position)
  | [] => []
  | (op, e, _) :: rest => (op, e.unplaced, .start) :: unplacedComparisons rest

end

mutual

/-- The tokens of an expression where no parentheses are asked for. -/
def spelling : Expr → List TokenKind
  | .nil => [.word .nilKw]
  | .bool value => [.word (if value then .trueKw else .falseKw)]
  | .int value => [.int value]
  | .float value => [.float value]
  | .str content => [.str content]
  | .ident name _ => [.ident name]
  | .array items _ => .punct .lbracket :: listed .rbracket (spellings .or items)
  | .dict entries _ => .punct .lbrace :: listed .rbrace (entrySpellings entries)
  | .super _ => [.word .superKw]
  | .chain head links => enclosed .atom head.tier head.spelling ++ linkSpelling links
  | .negative operand _ => .arith .sub :: enclosed .chain operand.tier operand.spelling
  | .arith first rest =>
    enclosed (arithTier rest).above first.tier first.spelling
      ++ stepSpelling .arith (arithTier rest).above rest
  | .augment target rest =>
    enclosed .additive target.tier target.spelling ++ stepSpelling .augment .additive rest
  | .comparison first rest =>
    enclosed .augment first.tier first.spelling ++ comparisonSpelling rest
  | .not operand _ => .word .notKw :: enclosed .not operand.tier operand.spelling
  | .and items => joined .andKw (spellings .not items)
  | .or items => joined .orKw (spellings .and items)

def spellings (place : Tier) : List Expr → List (List TokenKind)
  | [] => []
  | e :: rest => enclosed place e.tier e.spelling :: spellings place rest

def entrySpellings : List (Expr × Expr) → List (List TokenKind)
  | [] => []
  | (key, item) :: rest =>
    (key.spelling ++ .punct .colon :: item.spelling) :: entrySpellings rest

def linkSpelling : List Link → List TokenKind
  | [] => []
  | .attr name _ :: rest => .punct .dot :: .ident name :: linkSpelling rest
  | .call args _ :: rest =>
    .punct .lparen :: (listed .rparen (spellings .or args) ++ linkSpelling rest)
  | .index key _ :: rest =>
    .punct .lbracket :: (key.spelling ++ .punct .rbracket :: linkSpelling rest)

def stepSpelling (operator : ArithOp → TokenKind) (place : Tier) :
    List (ArithOp × Expr × Position) → List TokenKind
  | [] => []
  | (op, e, _) :: rest =>
    operator op :: (enclosed place e.tier e.spelling ++ stepSpelling operator place rest)

def comparisonSpelling : List (CompOp × Expr × Position) → List TokenKind
  | [] => []
  | (op, e, _) :: rest =>
    .comp op :: (enclosed .augment e.tier e.spelling ++ comparisonSpelling rest)

end

mutual

/-- Whether the grammar can build the tree. -/
def isProper : Expr → Bool
  | .array items _ => allProper items
  | .dict entries _ => entriesProper entries
  | .chain head links => !links.isEmpty && head.isProper && linksProper links
  | .negative operand _ => operand.isProper
  | .arith first rest =>
    !rest.isEmpty && rest.all (fun step => step.1.tier = arithTier rest) && first.isProper
      && stepsProper rest
  | .augment target rest => !rest.isEmpty && target.isProper && stepsProper rest
  | .comparison first rest => !rest.isEmpty && first.isProper && comparisonsProper rest
  | .not operand _ => operand.isProper
  | .and items | .or items => 2 ≤ items.length && allProper items
  | _ => true

def allProper : List Expr → Bool
  | [] => true
  | e :: rest => e.isProper && allProper rest

def entriesProper : List (Expr × Expr) → Bool
  | [] => true
  | (key, item) :: rest => key.isProper && item.isProper && entriesProper rest

def linksProper : List Link → Bool
  | [] => true
  | .attr .. :: rest => linksProper rest
  | .call args _ :: rest => allProper args && linksProper rest
  | .index key _ :: rest => key.isProper && linksProper rest

def stepsProper : List (ArithOp × Expr × Position) → Bool
  | [] => true
  | (_, e, _) :: rest => e.isProper && stepsProper rest

def comparisonsProper : List (CompOp × Expr × Position) → Bool
  | [] => true
  | (_, e, _) :: rest => e.isProper && comparisonsProper rest

end

/-! The list functions above, item by item. -/

theorem unplacedItems_eq (items : List Expr) : unplacedItems items = items.map unplaced := by
  induction items with
  | nil => rfl
  | cons e rest ih => simp only [unplacedItems, ih, List.map_cons]

theorem unplacedEntries_eq (entries : List (Expr × Expr)) :
    unplacedEntries entries = entries.map fun entry => (entry.1.unplaced, entry.2.unplaced) := by
  induction entries with
  | nil => rfl
  | cons entry rest ih => simp only [unplacedEntries, ih, List.map_cons]

def unplacedStep {ω : Type} (step : ω × Expr × Position) : ω × Expr × Position :=
  (step.1, step.2.1.unplaced, .start)

theorem unplacedSteps_eq (steps : List (ArithOp × Expr × Position)) :
    unplacedSteps steps = steps.map unplacedStep := by
  induction steps with
  | nil => rfl
  | cons step rest ih => simp only [unplacedSteps, ih, List.map_cons, unplacedStep]

theorem unplacedComparisons_eq (steps : List (CompOp × Expr × Position)) :
    unplacedComparisons steps = steps.map unplacedStep := by
  induction steps with
  | nil => rfl
  | cons step rest ih => simp only [unplacedComparisons, ih, List.map_cons, unplacedStep]

/-! The nodes of a tree without its positions. -/

theorem unplaced_array (items : List Expr) (pos : Position) :
    (Expr.array items pos).unplaced = .array (items.map unplaced) .start :=
  congrArg (Expr.array · .start) (unplacedItems_eq items)

theorem unplaced_dict (entries : List (Expr × Expr)) (pos : Position) :
    (Expr.dict entries pos).unplaced =
      .dict (entries.map fun entry => (entry.1.unplaced, entry.2.unplaced)) .start :=
  congrArg (Expr.dict · .start) (unplacedEntries_eq entries)

theorem unplaced_negative (operand : Expr) (pos : Position) :
    (Expr.negative operand pos).unplaced = .negative operand.unplaced .start := rfl

theorem unplaced_arith (first : Expr) (rest : List (ArithOp × Expr × Position)) :
    (Expr.arith first rest).unplaced = .arith first.unplaced (rest.map unplacedStep) :=
  congrArg (Expr.arith first.unplaced) (unplacedSteps_eq rest)

theorem unplaced_augment (target : Expr) (rest : List (ArithOp × Expr × Position)) :
    (Expr.augment target rest).unplaced = .augment target.unplaced (rest.map unplacedStep) :=
  congrArg (Expr.augment target.unplaced) (unplacedSteps_eq rest)

theorem unplaced_comparison (first : Expr) (rest : List (CompOp × Expr × Position)) :
    (Expr.comparison first rest).unplaced = .comparison first.unplaced (rest.map unplacedStep) :=
  congrArg (Expr.comparison first.unplaced) (unplacedComparisons_eq rest)

theorem unplaced_not (operand : Expr) (pos : Position) :
    (Expr.not operand pos).unplaced = .not operand.unplaced .start := rfl

theorem unplaced_and (items : List Expr) :
    (Expr.and items).unplaced = .and (items.map unplaced) :=
  congrArg Expr.and (unplacedItems_eq items)

theorem unplaced_or (items : List Expr) :
    (Expr.or items).unplaced = .or (items.map unplaced) :=
  congrArg Expr.or (unplacedItems_eq items)

/-- Items are spelled one by one, in parentheses where the place asks for them. -/
theorem spellings_eq (place : Tier) (items : List Expr) :
    spellings place items = items.map fun e => enclosed place e.tier e.spelling := by
  induction items with
  | nil => rfl
  | cons e rest ih => simp only [spellings, ih, List.map_cons]

theorem entrySpellings_eq (entries : List (Expr × Expr)) :
    entrySpellings entries =
      entries.map fun entry => entry.1.spelling ++ .punct .colon :: entry.2.spelling := by
  induction entries with
  | nil => rfl
  | cons entry rest ih => simp only [entrySpellings, ih, List.map_cons]

theorem stepSpelling_eq (operator : ArithOp → TokenKind) (place : Tier)
    (steps : List (ArithOp × Expr × Position)) :
    stepSpelling operator place steps =
      steps.flatMap fun step =>
        operator step.1 :: enclosed place step.2.1.tier step.2.1.spelling := by
  induction steps with
  | nil => rfl
  | cons step rest ih =>
    simp only [stepSpelling, ih, List.flatMap_cons, List.cons_append]

theorem comparisonSpelling_eq (steps : List (CompOp × Expr × Position)) :
    comparisonSpelling steps =
      steps.flatMap fun step =>
        .comp step.1 :: enclosed .augment step.2.1.tier step.2.1.spelling := by
  induction steps with
  | nil => rfl
  | cons step rest ih =>
    simp only [comparisonSpelling, ih, List.flatMap_cons, List.cons_append]

/-- The items of a proper tree are proper. -/
theorem isProper_of_mem {items : List Expr} (h : allProper items = true) {e : Expr}
    (he : e ∈ items) : e.isProper = true := by
  induction items with
  | nil => simp at he
  | cons first rest ih =>
    rw [allProper, Bool.and_eq_true] at h
    rcases List.mem_cons.mp he with rfl | hrest
    · exact h.1
    · exact ih h.2 hrest

theorem isProper_of_mem_entries {entries : List (Expr × Expr)} (h : entriesProper entries = true)
    {entry : Expr × Expr} (he : entry ∈ entries) :
    entry.1.isProper = true ∧ entry.2.isProper = true := by
  induction entries with
  | nil => simp at he
  | cons first rest ih =>
    rw [entriesProper, Bool.and_eq_true, Bool.and_eq_true] at h
    rcases List.mem_cons.mp he with rfl | hrest
    · exact h.1
    · exact ih h.2 hrest

theorem isProper_of_mem_steps {steps : List (ArithOp × Expr × Position)}
    (h : stepsProper steps = true) {step : ArithOp × Expr × Position} (hs : step ∈ steps) :
    step.2.1.isProper = true := by
  induction steps with
  | nil => simp at hs
  | cons first rest ih =>
    rw [stepsProper, Bool.and_eq_true] at h
    rcases List.mem_cons.mp hs with rfl | hrest
    · exact h.1
    · exact ih h.2 hrest

theorem isProper_of_mem_comparisons {steps : List (CompOp × Expr × Position)}
    (h : comparisonsProper steps = true) {step : CompOp × Expr × Position} (hs : step ∈ steps) :
    step.2.1.isProper = true := by
  induction steps with
  | nil => simp at hs
  | cons first rest ih =>
    rw [comparisonsProper, Bool.and_eq_true] at h
    rcases List.mem_cons.mp hs with rfl | hrest
    · exact h.1
    · exact ih h.2 hrest

end Expr

namespace Link

def unplaced : Link → Link
  | .attr name _ => .attr name .start
  | .call args _ => .call (args.map Expr.unplaced) .start
  | .index key _ => .index key.unplaced .start

def spelling : Link → List TokenKind
  | .attr name _ => [.punct .dot, .ident name]
  | .call args _ =>
    .punct .lparen :: listed .rparen (args.map Expr.spelling)
  | .index key _ => .punct .lbracket :: (key.spelling ++ [.punct .rbracket])

/-- A link has a token at least. -/
theorem length_spelling_pos (link : Link) : 0 < link.spelling.length := by
  cases link <;> exact Nat.succ_pos _

def parts : Link → List Expr
  | .attr .. => []
  | .call args _ => args
  | .index key _ => [key]

theorem sizeOf_lt_of_mem_parts {link : Link} {e : Expr} (he : e ∈ link.parts) :
    sizeOf e < sizeOf link := by
  cases link with
  | attr name pos => simp [parts] at he
  | call args pos =>
    have hlt := List.sizeOf_lt_of_mem (show e ∈ args from he)
    simp only [call.sizeOf_spec]
    omega
  | index key pos =>
    obtain rfl : e = key := by simpa [parts] using he
    simp only [index.sizeOf_spec]
    omega

end Link

namespace Expr

theorem unplacedLinks_eq (links : List Link) : unplacedLinks links = links.map Link.unplaced := by
  induction links with
  | nil => rfl
  | cons link rest ih =>
    cases link with
    | attr name pos => simp only [unplacedLinks, ih, List.map_cons, Link.unplaced]
    | call args pos =>
      simp only [unplacedLinks, ih, List.map_cons, Link.unplaced, unplacedItems_eq]
    | index key pos => simp only [unplacedLinks, ih, List.map_cons, Link.unplaced]

theorem unplaced_chain (head : Expr) (links : List Link) :
    (Expr.chain head links).unplaced = .chain head.unplaced (links.map Link.unplaced) :=
  congrArg (Expr.chain head.unplaced) (unplacedLinks_eq links)

theorem linkSpelling_eq (links : List Link) : linkSpelling links = links.flatMap Link.spelling := by
  induction links with
  | nil => rfl
  | cons link rest ih =>
    cases link with
    | attr name pos =>
      simp only [linkSpelling, ih, List.flatMap_cons, Link.spelling, List.cons_append,
        List.nil_append]
    | call args pos =>
      simp only [linkSpelling, ih, List.flatMap_cons, Link.spelling, List.cons_append,
        spellings_eq, enclosed_or]
    | index key pos =>
      simp only [linkSpelling, ih, List.flatMap_cons, Link.spelling, List.cons_append,
        List.append_assoc, List.nil_append]

/-- The expressions inside the links of a proper tree are proper. -/
theorem isProper_of_mem_parts {links : List Link} (h : linksProper links = true) {link : Link}
    (hl : link ∈ links) {e : Expr} (he : e ∈ link.parts) : e.isProper = true := by
  induction links with
  | nil => simp at hl
  | cons first rest ih =>
    rcases List.mem_cons.mp hl with rfl | hrest
    · cases link with
      | attr name pos => simp [Link.parts] at he
      | call args pos =>
        rw [linksProper, Bool.and_eq_true] at h
        exact isProper_of_mem h.1 he
      | index key pos =>
        rw [linksProper, Bool.and_eq_true] at h
        obtain rfl : e = key := by simpa [Link.parts] using he
        exact h.1
    · cases first with
      | attr name pos => exact ih h hrest
      | call args pos =>
        rw [linksProper, Bool.and_eq_true] at h
        exact ih h.2 hrest
      | index key pos =>
        rw [linksProper, Bool.and_eq_true] at h
        exact ih h.2 hrest

end Expr

end Stencil
