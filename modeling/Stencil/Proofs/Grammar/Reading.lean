import Stencil.Proofs.Grammar.Spelling

/-!
What readers do with tokens of given kinds. A reader reads a list of kinds when it
takes exactly the tokens of these kinds, at whatever positions they stand, from any
input that does not go on with the same expression; what it makes of them is
compared through a view that forgets positions. Repetitions read the pieces that
are read one by one, and a tier reads everything that the tiers above it read.
-/

namespace Stencil.Grammar

/-- The tier at which a token goes on with an expression before it. -/
def continuation : TokenKind → Option Tier
  | .word .orKw => some .or
  | .word .andKw => some .and
  | .comp _ => some .comparison
  | .augment _ => some .augment
  | .arith op => some op.tier
  | .punct .dot | .punct .lparen | .punct .lbracket => some .chain
  | _ => none

/-- What is left does not go on with an expression of the tier. -/
def Stops (place : Tier) (rest : List Token) : Prop :=
  ∀ t ∈ rest.head?, ∀ tier ∈ continuation t.kind, tier.rank < place.rank

theorem Stops.mono {place place' : Tier} {rest : List Token} (h : Stops place rest)
    (hle : place.rank ≤ place'.rank) : Stops place' rest := by
  intro t ht tier htier
  exact Nat.lt_of_lt_of_le (h t ht tier htier) hle

/-- Nothing goes on with an atom as such. -/
theorem stops_atom (rest : List Token) : Stops .atom rest := by
  intro t ht tier htier
  unfold continuation at htier
  split at htier <;> cases htier <;> try decide
  next op _ => cases op <;> decide

/-- A token that goes on with nothing ends every expression. -/
theorem stops_of_continuation_eq_none {t : Token} (h : continuation t.kind = none) (place : Tier)
    (rest : List Token) : Stops place (t :: rest) := by
  intro t' ht' tier htier
  simp only [List.head?_cons, Option.mem_def, Option.some.injEq] at ht'
  subst ht'
  simp [h] at htier

/-- A weaker operator ends an expression of a tier above it. -/
theorem stops_of_continuation {t : Token} {tier place : Tier}
    (h : continuation t.kind = some tier) (hlt : tier.rank < place.rank) (rest : List Token) :
    Stops place (t :: rest) := by
  intro t' ht' tier' htier'
  simp only [List.head?_cons, Option.mem_def, Option.some.injEq] at ht'
  subst ht'
  rw [h, Option.mem_some] at htier'
  subst htier'
  exact hlt

/-- Takes exactly the tokens of some kinds, as long as no more than so many tokens
are at hand. -/
def Reads {α β : Type} (budget : Nat) (place : Tier) (reader : Reader α) (view : α → β)
    (kinds : List TokenKind) (value : β) : Prop :=
  ∀ last ts rest, ts.map Token.kind = kinds → Stops place rest →
    ts.length + rest.length ≤ budget →
    ∃ a, reader last (ts ++ rest) = .ok (a, rest) ∧ view a = value

def Opens (kinds : List TokenKind) : Prop := ∃ k ∈ kinds.head?, k.startsExpr = true

section Primitive

variable {α β : Type} {last : Position} {ts rest : List Token}

theorem bind_of_ok {x : Reader α} {f : α → Reader β} {a : α} (h : x last ts = .ok (a, rest)) :
    (x >>= f) last ts = f a last rest := by
  change Reader.bind x f last ts = _
  simp only [Reader.bind, h]

/-- Tokens of such kinds begin an expression. -/
theorem Opens.startsExpr {kinds : List TokenKind} (h : Opens kinds)
    (hts : ts.map Token.kind = kinds) (rest : List Token) : startsExpr (ts ++ rest) = true := by
  obtain ⟨k, hk, hstarts⟩ := h
  cases ts with
  | nil => simp [← hts] at hk
  | cons t ts =>
    simp only [← hts, List.map_cons, List.head?_cons, Option.mem_def, Option.some.injEq] at hk
    subst hk
    exact hstarts

theorem Opens.append {kinds : List TokenKind} (h : Opens kinds) (more : List TokenKind) :
    Opens (kinds ++ more) := by
  obtain ⟨k, hk, hstarts⟩ := h
  cases kinds with
  | nil => simp at hk
  | cons k' tail => exact ⟨k, hk, hstarts⟩

theorem dropNewlines_of_startsExpr (h : startsExpr ts = true) : dropNewlines ts = ts := by
  cases ts with
  | nil => rfl
  | cons t ts =>
    have hkind : t.kind ≠ .newline := by
      intro heq
      have hstarts : t.kind.startsExpr = true := h
      rw [heq] at hstarts
      cases hstarts
    simp [dropNewlines, hkind]

theorem skipNewlines_of_startsExpr (h : startsExpr ts = true) :
    skipNewlines last ts = .ok ((), ts) := by
  simp only [skipNewlines, dropNewlines_of_startsExpr h]

theorem skipNewlines_cons {t : Token} (h : t.kind ≠ .newline) :
    skipNewlines last (t :: rest) = .ok ((), t :: rest) := by
  simp [skipNewlines, dropNewlines, h]

theorem needExpr_of_startsExpr {fault : GrammarFault} (h : startsExpr ts = true) :
    needExpr fault last ts = .ok ((), ts) := by
  simp [needExpr, h]

theorem eat_of_kind {kind : TokenKind} {t : Token} (h : t.kind = kind) :
    eat kind last (t :: rest) = .ok (true, rest) := by
  simp [eat, isAt, h]

theorem eat_of_ne {kind : TokenKind} (h : ∀ t ∈ ts.head?, t.kind ≠ kind) :
    eat kind last ts = .ok (false, ts) := by
  cases ts with
  | nil => rfl
  | cons t ts =>
    have hne : t.kind ≠ kind := h t rfl
    simp [eat, isAt, hne]

theorem eat_of_startsExpr {kind : TokenKind} (h : startsExpr ts = true)
    (hkind : kind.startsExpr = false) : eat kind last ts = .ok (false, ts) := by
  refine eat_of_ne ?_
  rintro t ht rfl
  cases ts with
  | nil => simp at ht
  | cons t' ts =>
    simp only [List.head?_cons, Option.mem_def, Option.some.injEq] at ht
    subst ht
    simp [Grammar.startsExpr, hkind] at h

theorem expect_of_kind {kind : TokenKind} {fault : GrammarFault} {t : Token} (h : t.kind = kind) :
    expect kind fault last (t :: rest) = .ok ((), rest) := by
  simp [expect, isAt, h]

end Primitive

namespace Reads

variable {α β : Type} {budget : Nat} {place : Tier} {reader : Reader α} {view : α → β}
  {kinds : List TokenKind} {value : β}

/-- Less budget and a tier above ask for less. -/
theorem mono {budget' : Nat} {place' : Tier} (h : Reads budget place reader view kinds value)
    (hbudget : budget' ≤ budget) (hplace : place'.rank ≤ place.rank) :
    Reads budget' place' reader view kinds value := by
  intro last ts rest hts hstops hlength
  exact h last ts rest hts (hstops.mono hplace) (by omega)

end Reads

/-- An expression that can begin where it has to is read. -/
theorem reads_needed {budget : Nat} {place : Tier} {nested : Reader Expr} {e : Expr}
    (fault : GrammarFault) (hopens : Opens e.spelling)
    (h : Reads budget place nested Expr.unplaced e.spelling e.unplaced) :
    Reads budget place (needed nested fault) Expr.unplaced e.spelling e.unplaced := by
  intro last ts rest hts hstops hlength
  rw [needed, bind_of_ok (needExpr_of_startsExpr (hopens.startsExpr hts rest))]
  exact h last ts rest hts hstops hlength

/-- Pieces that each begin with an operator of a tier end what stands before them
in a place above. -/
theorem stops_append {ι : Type} {piece : ι → List TokenKind} {items : List ι} {tier place : Tier}
    (hpiece : ∀ i ∈ items, ∃ k ∈ (piece i).head?, continuation k = some tier)
    (hlt : tier.rank < place.rank) {us rest : List Token}
    (hus : us.map Token.kind = items.flatMap piece) (hrest : Stops tier rest) :
    Stops place (us ++ rest) := by
  cases items with
  | nil =>
    obtain rfl : us = [] := by simpa using hus
    exact hrest.mono (Nat.le_of_lt hlt)
  | cons i items =>
    obtain ⟨k, hk, hcont⟩ := hpiece i (List.mem_cons_self ..)
    obtain ⟨tail, htail⟩ : ∃ tail, piece i = k :: tail := by
      cases hi : piece i with
      | nil => simp [hi] at hk
      | cons k' tail =>
        simp only [hi, List.head?_cons, Option.mem_def, Option.some.injEq] at hk
        exact ⟨tail, by rw [hk]⟩
    rw [List.flatMap_cons, htail, List.cons_append, List.map_eq_cons_iff] at hus
    obtain ⟨u, us, rfl, rfl, -⟩ := hus
    exact stops_of_continuation hcont hlt _

section Repetition

variable {budget : Nat} {tier : Tier} {operand : Reader Expr}

/-- The operators of a tier that follow, each with an operand that can be read. -/
theorem reads_operands {ω : Type} {operator? : TokenKind → Option ω} {symbol : ω → TokenKind}
    {spell : Expr → List TokenKind} (level : Level) (htier : tier.rank < 9)
    (hend : ∀ k, continuation k ≠ some tier → operator? k = none)
    {steps : List (ω × Expr × Position)}
    (hsteps : ∀ step ∈ steps, operator? (symbol step.1) = some step.1 ∧
      continuation (symbol step.1) = some tier ∧ Opens (spell step.2.1) ∧
      Reads budget tier.above operand Expr.unplaced (spell step.2.1) step.2.1.unplaced)
    {left : Nat} (hleft : left ≤ budget) :
    Reads left tier (operands operator? level operand left) (List.map Expr.unplacedStep)
      (steps.flatMap fun step => symbol step.1 :: spell step.2.1) (steps.map Expr.unplacedStep) := by
  have habove : tier.rank < tier.above.rank := by
    rw [Tier.rank_above htier]
    omega
  induction steps generalizing left with
  | nil =>
    intro last ts rest hts hstops hlength
    obtain rfl : ts = [] := by simpa using hts
    refine ⟨[], ?_, rfl⟩
    cases left with
    | zero => rfl
    | succ left =>
      have hnone : (rest.head?.map Token.kind).bind operator? = none := by
        cases rest with
        | nil => rfl
        | cons t rest =>
          refine hend t.kind ?_
          intro hcont
          exact absurd (hstops t rfl tier hcont) (Nat.lt_irrefl _)
      rw [operands, bind_of_ok rfl, bind_of_ok rfl, List.nil_append, hnone]
      rfl
  | cons step steps ih =>
    obtain ⟨op, e, pos⟩ := step
    intro last ts rest hts hstops hlength
    obtain ⟨hop, hcont, hopens, hread⟩ := hsteps _ (List.mem_cons_self ..)
    rw [List.flatMap_cons, List.cons_append, List.map_eq_cons_iff] at hts
    obtain ⟨t, ts, rfl, hkind, hts⟩ := hts
    obtain ⟨ts, us, rfl, hts, hus⟩ := List.map_eq_append_iff.mp hts
    rw [List.length_cons, List.length_append] at hlength
    cases left with
    | zero => omega
    | succ left =>
      have hnext : Stops tier.above (us ++ rest) :=
        stops_append (fun next h => ⟨_, rfl, (hsteps next (List.mem_cons_of_mem _ h)).2.1⟩)
          habove hus hstops
      obtain ⟨e', he', hview⟩ := hread last ts (us ++ rest) hts hnext
        (by rw [List.length_append]; omega)
      obtain ⟨more, hmore, hviews⟩ := ih (fun step h => hsteps step (List.mem_cons_of_mem _ h))
        (show left ≤ budget by omega) last us rest hus hstops (by omega)
      have hstarts := hopens.startsExpr hts (us ++ rest)
      refine ⟨(op, e', t.pos) :: more, ?_, ?_⟩
      · rw [operands, List.cons_append, List.append_assoc, bind_of_ok rfl, bind_of_ok rfl]
        simp only [List.head?_cons, Option.map_some, Option.bind_some, hkind, hop]
        rw [bind_of_ok rfl, List.tail_cons, bind_of_ok (needExpr_of_startsExpr hstarts),
          bind_of_ok he', bind_of_ok hmore]
        rfl
      · simp only [List.map_cons, hviews, List.cons.injEq, and_true]
        simp only [Expr.unplacedStep, hview]

/-- The operands after each further occurrence of a word. -/
theorem reads_junction {keyword : Keyword} {spell : Expr → List TokenKind} (level : Level)
    (htier : tier.rank < 9) (hkeyword : continuation (.word keyword) = some tier)
    {items : List Expr}
    (hitems : ∀ e ∈ items, Opens (spell e) ∧
      Reads budget tier.above operand Expr.unplaced (spell e) e.unplaced)
    {left : Nat} (hleft : left ≤ budget) :
    Reads left tier (junction keyword level operand left) (List.map Expr.unplaced)
      (items.flatMap fun e => .word keyword :: spell e) (items.map Expr.unplaced) := by
  have habove : tier.rank < tier.above.rank := by
    rw [Tier.rank_above htier]
    omega
  induction items generalizing left with
  | nil =>
    intro last ts rest hts hstops hlength
    obtain rfl : ts = [] := by simpa using hts
    refine ⟨[], ?_, rfl⟩
    cases left with
    | zero => rfl
    | succ left =>
      have hend : ∀ t ∈ rest.head?, t.kind ≠ .word keyword := by
        intro t ht heq
        exact absurd (hstops t ht tier (heq ▸ hkeyword)) (Nat.lt_irrefl _)
      rw [junction, List.nil_append, bind_of_ok (eat_of_ne hend)]
      rfl
  | cons e items ih =>
    intro last ts rest hts hstops hlength
    obtain ⟨hopens, hread⟩ := hitems e (List.mem_cons_self ..)
    rw [List.flatMap_cons, List.cons_append, List.map_eq_cons_iff] at hts
    obtain ⟨t, ts, rfl, hkind, hts⟩ := hts
    obtain ⟨ts, us, rfl, hts, hus⟩ := List.map_eq_append_iff.mp hts
    rw [List.length_cons, List.length_append] at hlength
    cases left with
    | zero => omega
    | succ left =>
      have hnext : Stops tier.above (us ++ rest) :=
        stops_append (fun next _ => ⟨_, rfl, hkeyword⟩) habove hus hstops
      obtain ⟨e', he', hview⟩ := hread last ts (us ++ rest) hts hnext
        (by rw [List.length_append]; omega)
      obtain ⟨more, hmore, hviews⟩ := ih (fun e h => hitems e (List.mem_cons_of_mem _ h))
        (show left ≤ budget by omega) last us rest hus hstops (by omega)
      have hstarts := hopens.startsExpr hts (us ++ rest)
      refine ⟨e' :: more, ?_, ?_⟩
      · rw [junction, List.cons_append, List.append_assoc, bind_of_ok (eat_of_kind hkind)]
        simp only [if_true]
        rw [bind_of_ok (skipNewlines_of_startsExpr hstarts),
          bind_of_ok (needExpr_of_startsExpr hstarts), bind_of_ok he', bind_of_ok hmore]
        rfl
      · simp only [List.map_cons, hview, hviews]

section Items

variable {α β ι : Type} {item : Reader α} {view : α → β} {closer : Punct}
  {fault : Option TokenKind → GrammarFault} {last : Position} {left : Nat} {a : α} {u : Token}
  {ts us : List Token}

theorem itemsUntil_closer (hu : u.kind = .punct closer) :
    itemsUntil item closer fault (left + 1) last (u :: us) = .ok ([], us) := by
  have hunbroken : u.kind ≠ .newline := by simp [hu]
  rw [itemsUntil, bind_of_ok (skipNewlines_cons hunbroken), bind_of_ok (eat_of_kind hu)]
  rfl

section Item

variable (hcloser : (TokenKind.punct closer).startsExpr = false) (hstarts : startsExpr ts = true)
  (hitem : item last ts = .ok (a, u :: us))

include hcloser hstarts hitem

/-- What follows an item decides how the reading goes on. -/
theorem itemsUntil_item (hu : u.kind ≠ .newline) :
    itemsUntil item closer fault (left + 1) last ts = (do
      if ← eat (.punct .comma) then return a :: (← itemsUntil item closer fault left)
      if ← eat (.punct closer) then return [a]
      fail (fault (← peek)) : Reader (List α)) last (u :: us) := by
  rw [itemsUntil, bind_of_ok (skipNewlines_of_startsExpr hstarts),
    bind_of_ok (eat_of_startsExpr hstarts hcloser)]
  simp only [Bool.false_eq_true, if_false]
  rw [bind_of_ok hitem, bind_of_ok (skipNewlines_cons hu)]

/-- Behind a comma there are more items, or the closer. -/
theorem itemsUntil_comma (hu : u.kind = .punct .comma) :
    itemsUntil item closer fault (left + 1) last ts =
      (do return a :: (← itemsUntil item closer fault left) : Reader (List α)) last us := by
  rw [itemsUntil_item hcloser hstarts hitem (by simp [hu]), bind_of_ok (eat_of_kind hu)]
  simp only [if_true]

/-- The closer ends the items. -/
theorem itemsUntil_last (hcomma : closer ≠ .comma) (hu : u.kind = .punct closer) :
    itemsUntil item closer fault (left + 1) last ts = .ok ([a], us) := by
  have hne : ∀ t ∈ (u :: us).head?, t.kind ≠ .punct .comma := by
    intro t ht
    obtain rfl := Option.mem_some_iff.mp ht
    simpa [hu] using hcomma
  rw [itemsUntil_item hcloser hstarts hitem (by simp [hu]), bind_of_ok (eat_of_ne hne)]
  simp only [Bool.false_eq_true, if_false]
  rw [bind_of_ok (eat_of_kind hu)]
  rfl

end Item

/-- Items up to a closer. Each is followed by the closer, or by a comma and more items. -/
theorem reads_itemsUntil {spell : ι → List TokenKind} {value : ι → β}
    (fault : Option TokenKind → GrammarFault)
    (hcloser : (TokenKind.punct closer).startsExpr = false)
    (hstop : continuation (.punct closer) = none) (hcomma : closer ≠ .comma)
    {place : Tier} {items : List ι}
    (hitems : ∀ i ∈ items, Opens (spell i) ∧ Reads budget place item view (spell i) (value i))
    {amount left : Nat} (hamount : amount ≤ budget) (hleft : amount ≤ left) :
    Reads amount .atom (itemsUntil item closer fault left) (List.map view)
      (listed closer (items.map spell)) (items.map value) := by
  induction items generalizing amount left with
  | nil =>
    intro last ts rest hts hstops hlength
    rw [List.map_nil, listed, List.map_eq_cons_iff] at hts
    obtain ⟨u, ts, rfl, hu, hts⟩ := hts
    obtain rfl : ts = [] := by simpa using hts
    rw [List.length_singleton] at hlength
    cases left with
    | zero => omega
    | succ left => exact ⟨[], itemsUntil_closer hu, rfl⟩
  | cons i items ih =>
    intro last input rest hinput hstops hlength
    obtain ⟨hopens, hread⟩ := hitems i (List.mem_cons_self ..)
    cases items with
    | nil =>
      obtain ⟨ts, us, rfl, hts, hus⟩ := List.map_eq_append_iff.mp hinput
      obtain ⟨u, us, rfl, hu, hus⟩ := List.map_eq_cons_iff.mp hus
      obtain rfl : us = [] := by simpa using hus
      rw [List.length_append, List.length_singleton] at hlength
      cases left with
      | zero => omega
      | succ left =>
        obtain ⟨a, ha, hview⟩ := hread last ts (u :: rest) hts
          (stops_of_continuation_eq_none (hu ▸ hstop) place rest)
          (by rw [List.length_cons]; omega)
        refine ⟨[a], ?_, by simp [hview]⟩
        rw [List.append_assoc]
        exact itemsUntil_last hcloser (hopens.startsExpr hts _) ha hcomma hu
    | cons next items =>
      obtain ⟨ts, us, rfl, hts, hus⟩ := List.map_eq_append_iff.mp hinput
      obtain ⟨u, us, rfl, hu, hus⟩ := List.map_eq_cons_iff.mp hus
      rw [List.length_append, List.length_cons] at hlength
      cases left with
      | zero => omega
      | succ left =>
        obtain ⟨a, ha, hview⟩ := hread last ts (u :: (us ++ rest)) hts
          (stops_of_continuation_eq_none (hu ▸ rfl) place _)
          (by rw [List.length_cons, List.length_append]; omega)
        obtain ⟨more, hmore, hviews⟩ := ih (fun i h => hitems i (List.mem_cons_of_mem _ h))
          (show amount - 1 ≤ budget by omega) (show amount - 1 ≤ left by omega) last us rest hus
          hstops (by omega)
        refine ⟨a :: more, ?_, by rw [List.map_cons, hview, hviews]; rfl⟩
        rw [List.append_assoc, List.cons_append,
          itemsUntil_comma hcloser (hopens.startsExpr hts _) ha hu]
        exact bind_of_ok hmore

end Items

section Links

variable {nested : Reader Expr} {left : Nat} {last : Position} {ts rest : List Token}

/-- A dot and a name are read as an attribute. -/
theorem links_attr {name : String} {pos : Position}
    (hlink : ts.map Token.kind = (Link.attr name pos).spelling) :
    ∃ link, link.unplaced = (Link.attr name pos).unplaced ∧
      links nested (left + 1) last (ts ++ rest) =
        (do return link :: (← links nested left) : Reader _) last rest := by
  obtain ⟨t, ts, rfl, hdot, hnamed⟩ := List.map_eq_cons_iff.mp hlink
  obtain ⟨t', ts, rfl, hname, hend⟩ := List.map_eq_cons_iff.mp hnamed
  obtain rfl : ts = [] := by simpa using hend
  obtain ⟨k, p⟩ := t
  obtain ⟨k', p'⟩ := t'
  subst hdot hname
  exact ⟨.attr name p, rfl, rfl⟩

/-- Arguments that can be read are read as a call. -/
theorem links_call {args : List Expr} {pos : Position}
    (hargs : ∀ e ∈ args, Opens e.spelling ∧
      Reads budget .or nested Expr.unplaced e.spelling e.unplaced)
    (hlink : ts.map Token.kind = (Link.call args pos).spelling) (hleft : left ≤ budget)
    (hlength : ts.length + rest.length ≤ left + 1) :
    ∃ link, link.unplaced = (Link.call args pos).unplaced ∧
      links nested (left + 1) last (ts ++ rest) =
        (do return link :: (← links nested left) : Reader _) last rest := by
  obtain ⟨t, ts, rfl, hparen, hts⟩ := List.map_eq_cons_iff.mp hlink
  obtain ⟨k, p⟩ := t
  subst hparen
  rw [List.length_cons] at hlength
  have hneeded : ∀ e ∈ args, Opens e.spelling ∧
      Reads budget .or (needed nested .unclosedCall) Expr.unplaced e.spelling e.unplaced :=
    fun e he => ⟨(hargs e he).1, reads_needed .unclosedCall (hargs e he).1 (hargs e he).2⟩
  obtain ⟨args', hread, hviews⟩ := reads_itemsUntil (fun _ => .unclosedCall) rfl rfl (by decide)
    hneeded hleft (Nat.le_refl left) last ts rest hts (stops_atom _) (by omega)
  have hcall : callArgs nested left last (ts ++ rest) = .ok (args', rest) := hread
  refine ⟨.call args' p, by rw [Link.unplaced, Link.unplaced, hviews], ?_⟩
  change (do
    let args ← callArgs nested left
    return Link.call args p :: (← links nested left) : Reader _) last (ts ++ rest) = _
  rw [bind_of_ok hcall]

/-- A key that can be read is read as an index. -/
theorem links_index {key : Expr} {pos : Position} (hopens : Opens key.spelling)
    (hkey : Reads budget .or nested Expr.unplaced key.spelling key.unplaced)
    (hlink : ts.map Token.kind = (Link.index key pos).spelling) (hleft : left ≤ budget)
    (hlength : ts.length + rest.length ≤ left + 1) :
    ∃ link, link.unplaced = (Link.index key pos).unplaced ∧
      links nested (left + 1) last (ts ++ rest) =
        (do return link :: (← links nested left) : Reader _) last rest := by
  obtain ⟨t, ts, rfl, hbracket, hbody⟩ := List.map_eq_cons_iff.mp hlink
  obtain ⟨ts, cs, rfl, hts, hclosed⟩ := List.map_eq_append_iff.mp hbody
  obtain ⟨c, cs, rfl, hclose, hend⟩ := List.map_eq_cons_iff.mp hclosed
  obtain rfl : cs = [] := by simpa using hend
  obtain ⟨k, p⟩ := t
  subst hbracket
  rw [List.length_cons, List.length_append, List.length_singleton] at hlength
  have hcont : continuation c.kind = none := by rw [hclose]; rfl
  have hunbroken : c.kind ≠ .newline := by simp [hclose]
  obtain ⟨key', hread, hview⟩ := reads_needed .noIndex hopens hkey last ts (c :: rest) hts
    (stops_of_continuation_eq_none hcont .or _) (by rw [List.length_cons]; omega)
  refine ⟨.index key' p, by rw [Link.unplaced, Link.unplaced, hview], ?_⟩
  change (do
    skipNewlines
    let key ← needed nested .noIndex
    skipNewlines
    expect (.punct .rbracket) .unclosedIndex
    return Link.index key p :: (← links nested left) : Reader _) last (ts ++ [c] ++ rest) = _
  rw [List.append_assoc, List.singleton_append,
    bind_of_ok (skipNewlines_of_startsExpr (hopens.startsExpr hts _)), bind_of_ok hread,
    bind_of_ok (skipNewlines_cons hunbroken), bind_of_ok (expect_of_kind hclose)]

/-- A link whose parts can be read is read, and the links behind it follow. -/
theorem links_link {link : Link}
    (hparts : ∀ e ∈ link.parts, Opens e.spelling ∧
      Reads budget .or nested Expr.unplaced e.spelling e.unplaced)
    (hlink : ts.map Token.kind = link.spelling) (hleft : left ≤ budget)
    (hlength : ts.length + rest.length ≤ left + 1) (last : Position) :
    ∃ link', link'.unplaced = link.unplaced ∧ links nested (left + 1) last (ts ++ rest) =
      (do return link' :: (← links nested left) : Reader _) last rest := by
  cases link with
  | attr name pos => exact links_attr hlink
  | call args pos => exact links_call hparts hlink hleft hlength
  | index key pos =>
    obtain ⟨hopens, hkey⟩ := hparts key (List.mem_singleton.mpr rfl)
    exact links_index hopens hkey hlink hleft hlength

/-- Where nothing goes on with a chain, there are no links. -/
theorem links_of_stops (hstops : Stops .chain rest) :
    links nested left last rest = .ok ([], rest) := by
  cases left with
  | zero => rfl
  | succ left =>
    rw [links, bind_of_ok rfl, bind_of_ok rfl]
    cases rest with
    | nil => rfl
    | cons t rest =>
      have hkind : continuation t.kind ≠ some .chain := by
        intro hcont
        exact absurd (hstops t rfl .chain hcont) (Nat.lt_irrefl _)
      obtain ⟨k, p⟩ := t
      cases k with
      | punct mark => cases mark <;> first | rfl | exact absurd rfl hkind
      | _ => rfl

end Links

/-- Attributes, calls and indexes whose parts can be read. -/
theorem reads_links {nested : Reader Expr} {chained : List Link}
    (hparts : ∀ link ∈ chained, ∀ e ∈ link.parts, Opens e.spelling ∧
      Reads budget .or nested Expr.unplaced e.spelling e.unplaced)
    {left : Nat} (hleft : left ≤ budget + 1) :
    Reads left .chain (links nested left) (List.map Link.unplaced)
      (chained.flatMap Link.spelling) (chained.map Link.unplaced) := by
  induction chained generalizing left with
  | nil =>
    intro last ts rest hts hstops hlength
    obtain rfl : ts = [] := by simpa using hts
    exact ⟨[], links_of_stops hstops, rfl⟩
  | cons link chained ih =>
    intro last input rest hinput hstops hlength
    rw [List.flatMap_cons] at hinput
    obtain ⟨ts, us, rfl, hlink, hus⟩ := List.map_eq_append_iff.mp hinput
    rw [List.length_append] at hlength
    have hpos : 0 < ts.length := by
      rw [← List.length_map Token.kind, hlink]
      exact link.length_spelling_pos
    cases left with
    | zero => omega
    | succ left =>
      have hread : ts.length + (us ++ rest).length ≤ left + 1 := by
        rw [List.length_append]
        omega
      obtain ⟨link', hview, hrun⟩ := links_link (hparts link (List.mem_cons_self ..)) hlink
        (show left ≤ budget by omega) hread last
      obtain ⟨more, hread, hviews⟩ := ih (fun link h => hparts link (List.mem_cons_of_mem _ h))
        (show left ≤ budget + 1 by omega) last us rest hus hstops (by omega)
      refine ⟨link' :: more, ?_, by rw [List.map_cons, List.map_cons, hview, hviews]⟩
      rw [List.append_assoc, hrun]
      exact bind_of_ok hread

end Repetition

end Stencil.Grammar
