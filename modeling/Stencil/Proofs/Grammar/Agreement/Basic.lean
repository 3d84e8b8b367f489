import Stencil.Proofs.Grammar.Reading

/-!
Reading the same tokens twice. Two inputs begin with tokens of the same kinds, at
whatever positions, and end with tails that differ. Two readers agree if they do the
same on such inputs, up to what a view hides, unless the first has come to its tail.
They may have different budgets, as long as each budget covers its own input. Readers
that are put together from readers that agree agree themselves.
-/

namespace Stencil.Grammar

variable {α β γ δ : Type}

/-! Lists and options that look alike are of one shape. -/

theorem nil_or_cons_of_map_eq {view : α → γ} {items items' : List α}
    (h : items.map view = items'.map view) : items = [] ∧ items' = [] ∨
      ∃ item rest item' rest', items = item :: rest ∧ items' = item' :: rest' := by
  cases items with
  | nil => exact Or.inl ⟨rfl, List.map_eq_nil_iff.mp h.symm⟩
  | cons item rest =>
    obtain ⟨item', rest', heq, -, -⟩ := List.map_eq_cons_iff.mp h.symm
    exact Or.inr ⟨item, rest, item', rest', rfl, heq⟩

theorem none_or_some_of_map_eq {view : α → γ} {found found' : Option α}
    (h : found.map view = found'.map view) : found = none ∧ found' = none ∨
      ∃ item item', found = some item ∧ found' = some item' ∧ view item = view item' := by
  cases found with
  | none => exact Or.inl ⟨rfl, Option.map_eq_none_iff.mp h.symm⟩
  | some item =>
    obtain ⟨item', heq, hview⟩ := Option.map_eq_some_iff.mp h.symm
    exact Or.inr ⟨item, item', rfl, heq, hview.symm⟩

/-- Inputs that begin with tokens of the same kinds and end with the tails. -/
inductive Together (tail tail' : List TokenKind) : List Token → List Token → Prop
  | tails {ts ts' : List Token} (h : ts.map Token.kind = tail) (h' : ts'.map Token.kind = tail') :
    Together tail tail' ts ts'
  | cons {t t' : Token} {ts ts' : List Token} (hkind : t.kind = t'.kind)
    (h : Together tail tail' ts ts') : Together tail tail' (t :: ts) (t' :: ts')

section Together

variable {tail tail' : List TokenKind} {ts ts' : List Token}

/-- The inputs differ in length as their tails do. -/
theorem Together.length (h : Together tail tail' ts ts') :
    ts.length + tail'.length = ts'.length + tail.length := by
  induction h with
  | tails h h' =>
    rw [← h, ← h', List.length_map, List.length_map, Nat.add_comm]
  | cons hkind h ih =>
    rw [List.length_cons, List.length_cons]
    omega

/-- Inputs with tokens of the same kinds before their tails go together. -/
theorem together_of_map {before : List TokenKind} (h : ts.map Token.kind = before ++ tail)
    (h' : ts'.map Token.kind = before ++ tail') : Together tail tail' ts ts' := by
  induction before generalizing ts ts' with
  | nil => exact .tails h h'
  | cons kind before ih =>
    rw [List.cons_append, List.map_eq_cons_iff] at h h'
    obtain ⟨t, ts, rfl, hkind, h⟩ := h
    obtain ⟨t', ts', rfl, hkind', h'⟩ := h'
    exact .cons (hkind.trans hkind'.symm) (ih h h')

/-- What is left after some tokens of the first input were taken. -/
structure Takes (k : Nat) (ts rest : List Token) : Prop where
  isSuffix : rest <:+ ts
  length_le : rest.length + k ≤ ts.length

theorem Takes.refl (ts : List Token) : Takes 0 ts ts := ⟨List.suffix_refl ts, Nat.le_refl _⟩

/-- Tokens are taken by one reader after the other. -/
theorem Takes.trans {k j : Nat} {rest rest' : List Token} (h : Takes k ts rest)
    (h' : Takes j rest rest') : Takes (k + j) ts rest' :=
  ⟨h'.isSuffix.trans h.isSuffix, by have := h.length_le; have := h'.length_le; omega⟩

theorem Takes.mono {k j : Nat} {rest : List Token} (h : Takes k ts rest) (hle : j ≤ k) :
    Takes j ts rest :=
  ⟨h.isSuffix, Nat.le_trans (Nat.add_le_add_left hle _) h.length_le⟩

theorem takes_cons (t : Token) (ts : List Token) : Takes 1 (t :: ts) ts :=
  ⟨List.suffix_cons t ts, Nat.le_refl _⟩

/-- As many tokens are taken from the second input as from the first. -/
theorem Together.length_le {k n : Nat} {rest rest' : List Token} (h : Together tail tail' ts ts')
    (hrest : Together tail tail' rest rest') (htakes : Takes k ts rest) (hn : ts'.length ≤ n) :
    rest'.length ≤ n - k := by
  have := h.length
  have := hrest.length
  have := htakes.length_le
  omega

end Together

/-- What a reader makes of two inputs: the same up to what the view hides, or failure on
both, or the first input is spent down to its tail. -/
inductive Alike (tail tail' : List TokenKind) (view : α → γ) :
    Except Diagnostic (α × List Token) → Except Diagnostic (α × List Token) → Prop
  | ok {a a' : α} {rest rest' : List Token} (hview : view a = view a')
    (hrest : Together tail tail' rest rest') :
    Alike tail tail' view (.ok (a, rest)) (.ok (a', rest'))
  | error (d d' : Diagnostic) : Alike tail tail' view (.error d) (.error d')
  | spent {result result' : Except Diagnostic (α × List Token)}
    (htails : ¬(tail = [] ∧ tail' = []))
    (hspent : ∀ a rest, result = .ok (a, rest) → rest.length ≤ tail.length) :
    Alike tail tail' view result result'

/-- The second input may be as long as the first, the budgets cover the inputs, and the
inputs are within the bounds that hold for nested readers. -/
structure Within (n n' m m' N N' : Nat) : Prop where
  le : n ≤ n'
  budget : n ≤ m
  budget' : n' ≤ m'
  bound : n ≤ N
  bound' : n' ≤ N'

theorem Within.pred {n n' m m' N N' : Nat} (h : Within (n + 1) (n' + 1) (m + 1) (m' + 1) N N') :
    Within n n' m m' N N' :=
  ⟨Nat.le_of_succ_le_succ h.le, Nat.le_of_succ_le_succ h.budget, Nat.le_of_succ_le_succ h.budget',
    Nat.le_of_succ_le h.bound, Nat.le_of_succ_le h.bound'⟩

theorem Within.self {n n' m m' N N' : Nat} (h : Within n n' m m' N N') :
    Within n n' m m' n n' :=
  ⟨h.le, h.budget, h.budget', Nat.le_refl n, Nat.le_refl n'⟩

/-- Where there is a token, there are budgets to spend. -/
theorem Within.exists_succ {n n' m m' N N' : Nat} (h : Within (n + 1) n' m m' N N') :
    ∃ l k k', n' = l + 1 ∧ m = k + 1 ∧ m' = k' + 1 := by
  obtain ⟨hle, hbudget, hbudget', -, -⟩ := h
  exact ⟨n' - 1, m - 1, m' - 1, by omega, by omega, by omega⟩

/-- What is behind a token is within the bounds for what nested readers get. -/
theorem Within.below {n n' m m' : Nat} (h : Within (n + 1) (n' + 1) m m' (n + 1) (n' + 1)) :
    Within n n' m m' n n' :=
  ⟨Nat.le_of_succ_le_succ h.le, Nat.le_of_succ_le h.budget, Nat.le_of_succ_le h.budget',
    Nat.le_refl n, Nat.le_refl n'⟩

/-- The readers do the same on inputs within the bounds, and the first takes at least so
many tokens. -/
structure Agrees (k n n' : Nat) (view : α → γ) (r r' : Reader α) : Prop where
  takes : ∀ {last ts a rest}, ts.length ≤ n → r last ts = .ok (a, rest) → Takes k ts rest
  alike : ∀ {tail tail' last last' ts ts'}, Together tail tail' ts ts' → ts.length ≤ n →
    ts'.length ≤ n' → Alike tail tail' view (r last ts) (r' last' ts')

structure AgreesAt (kind : TokenKind) (k n n' : Nat) (view : α → γ) (r r' : Reader α) : Prop where
  takes : ∀ {last t ts a rest}, t.kind = kind → ts.length + 1 ≤ n →
    r last (t :: ts) = .ok (a, rest) → Takes k (t :: ts) rest
  alike : ∀ {tail tail' last last' t t' ts ts'}, t.kind = kind → t'.kind = kind →
    Together tail tail' ts ts' → ts.length + 1 ≤ n → ts'.length + 1 ≤ n' →
    Alike tail tail' view (r last (t :: ts)) (r' last' (t' :: ts'))

namespace Agrees

variable {k j n n' m m' : Nat} {view : α → γ} {r r' : Reader α}

/-- Readers that agree do so at each token. -/
theorem at_kind (h : Agrees k n n' view r r') (kind : TokenKind) :
    AgreesAt kind k n n' view r r' where
  takes _ hn hread := h.takes hn hread
  alike hkind hkind' htogether hn hn' := h.alike (.cons (hkind.trans hkind'.symm) htogether) hn hn'

theorem mono (h : Agrees k n n' view r r') (hj : j ≤ k) (hm : m ≤ n) (hm' : m' ≤ n') :
    Agrees j m m' view r r' where
  takes hn hread := (h.takes (Nat.le_trans hn hm) hread).mono hj
  alike htogether hn hn' := h.alike htogether (Nat.le_trans hn hm) (Nat.le_trans hn' hm')

/-- How many tokens are taken need not be known. -/
theorem loose (h : Agrees k n n' view r r') : Agrees 0 n n' view r r' :=
  h.mono (Nat.zero_le k) (Nat.le_refl n) (Nat.le_refl n')

/-- Readers that agree do so on inputs that are a token shorter. -/
theorem pred (h : Agrees k n n' view r r') : Agrees k (n - 1) (n' - 1) view r r' :=
  h.mono (Nat.le_refl k) (Nat.sub_le n 1) (Nat.sub_le n' 1)

/-- Nested readers agree on all inputs within their bounds. -/
theorem within {l l' : Nat} (h : Agrees k n n' view r r') (hw : Within m m' l l' n n') :
    Agrees k m m' view r r' :=
  h.mono (Nat.le_refl k) hw.bound hw.bound'

/-- At the tail of the first input nothing is asked. -/
theorem alike_of_tails {tail tail' : List TokenKind} {last : Position} {ts : List Token}
    {result : Except Diagnostic (α × List Token)} (hts : ts.map Token.kind = tail)
    (htails : ¬(tail = [] ∧ tail' = []))
    (htakes : ∀ a rest, r last ts = .ok (a, rest) → Takes k ts rest) :
    Alike tail tail' view (r last ts) result := by
  refine .spent htails fun a rest hread => ?_
  rw [← hts, List.length_map]
  exact (htakes a rest hread).isSuffix.length_le

/-- Readers agree if they agree at the end of the input and at each token. -/
theorem of_kinds (hend : Agrees k 0 0 view r r') (h : ∀ kind, AgreesAt kind k n n' view r r') :
    Agrees k n n' view r r' := by
  have htakes : ∀ {last ts a rest}, ts.length ≤ n → r last ts = .ok (a, rest) →
      Takes k ts rest := by
    intro last ts a rest hn hread
    cases ts with
    | nil => exact hend.takes (Nat.le_refl 0) hread
    | cons t ts => exact (h t.kind).takes rfl hn hread
  refine ⟨htakes, ?_⟩
  intro tail tail' last last' ts ts' htogether hn hn'
  cases htogether with
  | cons hkind htogether => exact (h _).alike rfl hkind.symm htogether hn hn'
  | tails hts hts' =>
    by_cases htails : tail = [] ∧ tail' = []
    · obtain ⟨rfl, rfl⟩ := htails
      obtain rfl := List.map_eq_nil_iff.mp hts
      obtain rfl := List.map_eq_nil_iff.mp hts'
      exact hend.alike (.tails rfl rfl) (Nat.le_refl 0) (Nat.le_refl 0)
    · exact alike_of_tails hts htails fun a rest => htakes hn

/-- Readers that agree at the end of the input agree if the first has nothing to read. -/
theorem of_end (h : Agrees k 0 0 view r r') (n' : Nat) : Agrees k 0 n' view r r' :=
  of_kinds h fun _ => ⟨fun _ hn => by omega, fun _ _ _ hn => by omega⟩

theorem end_of_ok (a a' : α) (h : ∀ last, r last [] = .ok (a, []))
    (h' : ∀ last, r' last [] = .ok (a', [])) (hview : view a = view a') :
    Agrees 0 0 0 view r r' where
  takes := by
    intro last ts b rest hn hread
    obtain rfl := List.length_eq_zero_iff.mp (Nat.le_zero.mp hn)
    rw [h last] at hread
    cases hread
    exact .refl []
  alike := by
    intro tail tail' last last' ts ts' htogether hn hn'
    obtain rfl := List.length_eq_zero_iff.mp (Nat.le_zero.mp hn)
    obtain rfl := List.length_eq_zero_iff.mp (Nat.le_zero.mp hn')
    rw [h last, h' last']
    exact .ok hview htogether

theorem end_of_error (h : ∀ last, ∃ d, r last [] = .error d)
    (h' : ∀ last, ∃ d, r' last [] = .error d) : Agrees k 0 0 view r r' where
  takes := by
    intro last ts b rest hn hread
    obtain rfl := List.length_eq_zero_iff.mp (Nat.le_zero.mp hn)
    obtain ⟨d, hd⟩ := h last
    rw [hd] at hread
    cases hread
  alike := by
    intro tail tail' last last' ts ts' htogether hn hn'
    obtain rfl := List.length_eq_zero_iff.mp (Nat.le_zero.mp hn)
    obtain rfl := List.length_eq_zero_iff.mp (Nat.le_zero.mp hn')
    obtain ⟨d, hd⟩ := h last
    obtain ⟨d', hd'⟩ := h' last'
    rw [hd, hd']
    exact .error d d'

/-- A reader that takes a token fails at the end of the input. -/
theorem error_at_end (h : Agrees 1 n n' view r r') (last : Position) :
    (∃ d, r last [] = .error d) ∧ ∃ d, r' last [] = .error d := by
  have hfail : ∀ a rest, r last [] ≠ .ok (a, rest) := by
    intro a rest hread
    have htakes : Takes 1 [] rest := h.takes (Nat.zero_le n) hread
    exact Nat.not_succ_le_zero _ htakes.length_le
  have halike : Alike [] [] view (r last []) (r' last []) :=
    h.alike (.tails rfl rfl) (Nat.zero_le n) (Nat.zero_le n')
  generalize r last [] = result at halike hfail ⊢
  generalize r' last [] = result' at halike ⊢
  cases halike with
  | ok hview hrest => exact absurd rfl (hfail _ _)
  | error d d' => exact ⟨⟨d, rfl⟩, ⟨d', rfl⟩⟩
  | spent htails hspent => exact absurd ⟨rfl, rfl⟩ htails

/-- Readers with a budget agree if they do at the end of the input and if a token more
may be read with a budget of one more. -/
theorem of_budgets {ι : Type} {r r' : Nat → ι → Reader α} {N N' : Nat}
    (hend : ∀ m m' i, Agrees k 0 0 view (r m i) (r' m' i))
    (hstep : ∀ n n' m m', Within (n + 1) (n' + 1) (m + 1) (m' + 1) N N' →
      (∀ i, Agrees k n n' view (r m i) (r' m' i)) →
      ∀ i, Agrees k (n + 1) (n' + 1) view (r (m + 1) i) (r' (m' + 1) i))
    (h : Within n n' m m' N N') (i : ι) : Agrees k n n' view (r m i) (r' m' i) := by
  induction n generalizing n' m m' i with
  | zero => exact (hend m m' i).of_end n'
  | succ n ih =>
    obtain ⟨n', m, m', rfl, rfl, rfl⟩ := h.exists_succ
    exact hstep n n' m m' h (ih h.pred) i

theorem of_budget {r r' : Nat → Reader α} {N N' : Nat}
    (hend : ∀ m m', Agrees k 0 0 view (r m) (r' m'))
    (hstep : ∀ n n' m m', Within (n + 1) (n' + 1) (m + 1) (m' + 1) N N' →
      Agrees k n n' view (r m) (r' m') →
      Agrees k (n + 1) (n' + 1) view (r (m + 1)) (r' (m' + 1)))
    (h : Within n n' m m' N N') : Agrees k n n' view (r m) (r' m') :=
  of_budgets (fun m m' _ => hend m m') (fun n n' m m' hw ih _ => hstep n n' m m' hw (ih ())) h ()

/-- A view that shows less. -/
theorem coarsen {view' : α → δ} (h : Agrees k n n' view r r')
    (hview : ∀ a a', view a = view a' → view' a = view' a') : Agrees k n n' view' r r' where
  takes := h.takes
  alike := by
    intro tail tail' last last' ts ts' htogether hn hn'
    have halike : Alike tail tail' view (r last ts) (r' last' ts') := h.alike htogether hn hn'
    generalize r last ts = result at halike ⊢
    generalize r' last' ts' = result' at halike ⊢
    cases halike with
    | ok heq hrest => exact .ok (hview _ _ heq) hrest
    | error d d' => exact .error d d'
    | spent htails hspent => exact .spent htails hspent

end Agrees

/-! Readers put together. -/

/-- A sequence reads what its second reader makes of what the first one leaves. -/
theorem bind_eq_ok {x : Reader α} {f : α → Reader β} {last : Position} {ts rest : List Token}
    {b : β} (h : (x >>= f) last ts = .ok (b, rest)) :
    ∃ a left, x last ts = .ok (a, left) ∧ f a last left = .ok (b, rest) := by
  change Reader.bind x f last ts = _ at h
  unfold Reader.bind at h
  cases hread : x last ts with
  | error d =>
    rw [hread] at h
    cases h
  | ok result =>
    rw [hread] at h
    exact ⟨result.1, result.2, rfl, h⟩

theorem bind_of_error {x : Reader α} {f : α → Reader β} {last : Position} {ts : List Token}
    {d : Diagnostic} (h : x last ts = .error d) : (x >>= f) last ts = .error d := by
  change Reader.bind x f last ts = _
  rw [Reader.bind, h]

theorem dropNewlines_suffix (ts : List Token) : dropNewlines ts <:+ ts := by
  induction ts with
  | nil => exact List.suffix_refl _
  | cons t ts ih =>
    unfold dropNewlines
    split
    · exact ih.trans (List.suffix_cons t ts)
    · exact List.suffix_refl _

namespace Agrees

variable {k j n n' m m' : Nat}

/-- The general form of the two rules below. -/
theorem bind_add {viewx : α → γ} {view : β → δ} {x x' : Reader α} {f f' : α → Reader β}
    (hx : Agrees k n n' viewx x x')
    (hf : ∀ a a', viewx a = viewx a' → Agrees j (n - k) (n' - k) view (f a) (f' a')) :
    Agrees (k + j) n n' view (x >>= f) (x' >>= f') where
  takes := by
    intro last ts b rest hn hread
    obtain ⟨a, left, hleft, hrest⟩ := bind_eq_ok hread
    have htaken := hx.takes hn hleft
    exact htaken.trans ((hf a a rfl).takes (by have := htaken.length_le; omega) hrest)
  alike := by
    intro tail tail' last last' ts ts' htogether hn hn'
    have htakes : ∀ a left, x last ts = .ok (a, left) → Takes k ts left :=
      fun _ _ => hx.takes hn
    have halike : Alike tail tail' viewx (x last ts) (x' last' ts') := hx.alike htogether hn hn'
    change Alike tail tail' view (Reader.bind x f last ts) (Reader.bind x' f' last' ts')
    unfold Reader.bind
    generalize x last ts = result at halike htakes ⊢
    generalize x' last' ts' = result' at halike ⊢
    cases halike with
    | error d d' => exact .error d d'
    | @ok a a' left left' hview hleft =>
      have htaken := htakes a left rfl
      exact (hf a a' hview).alike hleft (by have := htaken.length_le; omega)
        (htogether.length_le hleft htaken hn')
    | spent htails hspent =>
      refine .spent htails fun b rest hread => ?_
      cases result with
      | error d => cases hread
      | ok pair =>
        obtain ⟨a, left⟩ := pair
        have hleft := hspent a left rfl
        have htaken := htakes a left rfl
        have hrest := (hf a a rfl).takes (by have := htaken.length_le; omega) hread
        exact Nat.le_trans hrest.isSuffix.length_le hleft

/-- What the first takes is not there for the second. -/
theorem bind_sub {viewx : α → γ} {view : β → δ} {x x' : Reader α} {f f' : α → Reader β}
    (hx : Agrees k n n' viewx x x')
    (hf : ∀ a a', viewx a = viewx a' → Agrees 0 (n - k) (n' - k) view (f a) (f' a')) :
    Agrees k n n' view (x >>= f) (x' >>= f') :=
  hx.bind_add hf

/-- What is read second depends only on what the view shows of the first. -/
theorem bind {viewx : α → γ} {view : β → δ} {x x' : Reader α} {f f' : α → Reader β}
    (hx : Agrees k n n' viewx x x')
    (hf : ∀ a a', viewx a = viewx a' → Agrees 0 n n' view (f a) (f' a')) :
    Agrees k n n' view (x >>= f) (x' >>= f') :=
  hx.bind_sub fun a a' hview =>
    (hf a a' hview).mono (Nat.le_refl 0) (Nat.sub_le n k) (Nat.sub_le n' k)

/-- The tokens may be taken by what comes second. -/
theorem seq {viewx : α → γ} {view : β → δ} {x x' : Reader α} {f f' : α → Reader β}
    (hx : Agrees j n n' viewx x x')
    (hf : ∀ a a', viewx a = viewx a' → Agrees k n n' view (f a) (f' a')) :
    Agrees k n n' view (x >>= f) (x' >>= f') :=
  (hx.loose.bind_add hf).mono (Nat.le_of_eq (Nat.zero_add k).symm) (Nat.le_refl n) (Nat.le_refl n')

variable {view : α → γ}

theorem pure {a a' : α} (h : view a = view a') :
    Agrees 0 n n' view (Pure.pure a : Reader α) (Pure.pure a') where
  takes := by
    intro last ts b rest hn hread
    cases hread
    exact .refl ts
  alike htogether _ _ := .ok h htogether

theorem fail {fault fault' : GrammarFault} :
    Agrees k n n' view (Grammar.fail fault : Reader α) (Grammar.fail fault') where
  takes := by
    intro last ts a rest hn hread
    cases hread
  alike _ _ _ := .error _ _

/-- Where a token stands plays no part. -/
theorem position : Agrees 0 n n' (fun _ => ()) Grammar.position Grammar.position where
  takes := by
    intro last ts pos rest hn hread
    cases hread
    exact .refl ts
  alike htogether _ _ := .ok rfl htogether

/-- Newlines are left out on both sides alike. -/
theorem skipNewlines : Agrees 0 n n' id Grammar.skipNewlines Grammar.skipNewlines where
  takes := by
    intro last ts a rest hn hread
    cases hread
    exact ⟨dropNewlines_suffix ts, (dropNewlines_suffix ts).length_le⟩
  alike := by
    intro tail tail' last last' ts ts' htogether hn hn'
    clear hn hn'
    unfold Grammar.skipNewlines
    induction htogether with
    | cons hkind h ih =>
      unfold dropNewlines
      rw [← hkind]
      split
      · exact ih
      · exact .ok rfl (.cons hkind h)
    | @tails ts ts' h h' =>
      by_cases htails : tail = [] ∧ tail' = []
      · obtain ⟨rfl, rfl⟩ := htails
        rw [List.map_eq_nil_iff.mp h, List.map_eq_nil_iff.mp h']
        exact .ok rfl (.tails rfl rfl)
      · refine .spent htails fun a rest hread => ?_
        cases hread
        rw [← h, List.length_map]
        exact (dropNewlines_suffix ts).length_le

end Agrees

namespace AgreesAt

variable {kind : TokenKind} {k n n' : Nat} {view : α → γ} {r r' s s' : Reader α}

/-- Readers that do as other readers at the kind. -/
theorem congr (h : AgreesAt kind k n n' view s s')
    (hr : ∀ last t ts, t.kind = kind → r last (t :: ts) = s last (t :: ts))
    (hr' : ∀ last t ts, t.kind = kind → r' last (t :: ts) = s' last (t :: ts)) :
    AgreesAt kind k n n' view r r' where
  takes := by
    intro last t ts a rest hkind hn hread
    rw [hr last t ts hkind] at hread
    exact h.takes hkind hn hread
  alike := by
    intro tail tail' last last' t t' ts ts' hkind hkind' htogether hn hn'
    rw [hr last t ts hkind, hr' last' t' ts' hkind']
    exact h.alike hkind hkind' htogether hn hn'

/-- Readers that take the token of the kind and go on as others. -/
theorem take {s s' : Position → Reader α}
    (h : ∀ pos pos', Agrees (k - 1) (n - 1) (n' - 1) view (s pos) (s' pos'))
    (hr : ∀ last t ts, t.kind = kind → r last (t :: ts) = s t.pos last ts)
    (hr' : ∀ last t ts, t.kind = kind → r' last (t :: ts) = s' t.pos last ts) :
    AgreesAt kind k n n' view r r' where
  takes := by
    intro last t ts a rest hkind hn hread
    rw [hr last t ts hkind] at hread
    exact ((takes_cons t ts).trans ((h t.pos t.pos).takes (by omega) hread)).mono (by omega)
  alike := by
    intro tail tail' last last' t t' ts ts' hkind hkind' htogether hn hn'
    rw [hr last t ts hkind, hr' last' t' ts' hkind']
    exact (h t.pos t'.pos).alike htogether (by omega) (by omega)

/-- The token at hand is of the same kind on both sides, and is taken on both. -/
theorem advance {f f' : Unit → Reader α}
    (h : Agrees (k - 1) (n - 1) (n' - 1) view (f ()) (f' ())) :
    AgreesAt kind k n n' view (Grammar.advance >>= f) (Grammar.advance >>= f') :=
  take (fun _ _ => h) (fun _ _ _ _ => rfl) fun _ _ _ _ => rfl

theorem position {f f' : Position → Reader α}
    (h : ∀ pos pos', AgreesAt kind k n n' view (f pos) (f' pos')) :
    AgreesAt kind k n n' view (Grammar.position >>= f) (Grammar.position >>= f') where
  takes := by
    intro last t ts a rest hkind hn hread
    exact (h t.pos t.pos).takes hkind hn hread
  alike := by
    intro tail tail' last last' t t' ts ts' hkind hkind' htogether hn hn'
    exact (h t.pos t'.pos).alike hkind hkind' htogether hn hn'

end AgreesAt

namespace Agrees

variable {k n n' : Nat} {view : α → γ} {x x' y y' r r' s s' : Reader α}

theorem end_congr (h : Agrees k n n' view s s') (hr : ∀ last, r last [] = s last [])
    (hr' : ∀ last, r' last [] = s' last []) : Agrees k 0 0 view r r' where
  takes := by
    intro last ts a rest hn hread
    obtain rfl := List.length_eq_zero_iff.mp (Nat.le_zero.mp hn)
    rw [hr last] at hread
    exact h.takes (Nat.zero_le n) hread
  alike := by
    intro tail tail' last last' ts ts' htogether hn hn'
    obtain rfl := List.length_eq_zero_iff.mp (Nat.le_zero.mp hn)
    obtain rfl := List.length_eq_zero_iff.mp (Nat.le_zero.mp hn')
    rw [hr last, hr' last']
    exact h.alike htogether (Nat.zero_le n) (Nat.zero_le n')

theorem advance : Agrees 0 n n' id Grammar.advance Grammar.advance :=
  of_kinds (end_of_ok () () (fun _ => rfl) (fun _ => rfl) rfl) fun _ =>
    .take (fun _ _ => pure rfl) (fun _ _ _ _ => rfl) fun _ _ _ _ => rfl

/-- What is done depends on the kind of the token at hand. -/
theorem peek {f f' : Option TokenKind → Reader α} (hnone : Agrees k n n' view (f none) (f' none))
    (hsome : ∀ kind, AgreesAt kind k n n' view (f (some kind)) (f' (some kind))) :
    Agrees k n n' view (Grammar.peek >>= f) (Grammar.peek >>= f') := by
  refine of_kinds (hnone.end_congr (fun _ => rfl) fun _ => rfl) fun kind => ?_
  refine (hsome kind).congr ?_ ?_
  · rintro last t ts rfl
    rfl
  · rintro last t ts rfl
    rfl

/-- A token of the kind is taken on both sides or on none. -/
theorem ite_eat {kind : TokenKind} (hx : Agrees (k - 1) (n - 1) (n' - 1) view x x')
    (hy : Agrees k n n' view y y') :
    Agrees k n n' view (do if ← eat kind then x else y) (do if ← eat kind then x' else y') := by
  refine of_kinds (hy.end_congr (fun _ => rfl) fun _ => rfl) fun kind' => ?_
  by_cases hkind : kind' = kind
  · have heat : ∀ (x y : Reader α) last t ts, t.kind = kind' →
        (do if ← eat kind then x else y) last (t :: ts) = x last ts :=
      fun x y last t ts ht => bind_of_ok (eat_of_kind (ht.trans hkind))
    exact .take (fun _ _ => hx) (heat x y) (heat x' y')
  · have heat : ∀ (x y : Reader α) last t ts, t.kind = kind' →
        (do if ← eat kind then x else y) last (t :: ts) = y last (t :: ts) := by
      intro x y last t ts ht
      refine bind_of_ok (eat_of_ne fun t' ht' => ?_)
      obtain rfl := Option.some.inj ht'
      rwa [ht]
    exact (hy.at_kind kind').congr (heat x y) (heat x' y')

theorem expect (kind : TokenKind) {fault fault' : GrammarFault} :
    Agrees 1 n n' id (Grammar.expect kind fault) (Grammar.expect kind fault') := by
  refine of_kinds (end_of_error (fun _ => ⟨_, rfl⟩) fun _ => ⟨_, rfl⟩) fun kind' => ?_
  by_cases hkind : kind' = kind
  · exact .take (fun _ _ => pure rfl) (fun last t ts ht => expect_of_kind (ht.trans hkind))
      fun last t ts ht => expect_of_kind (ht.trans hkind)
  · have hfail : ∀ fault last t ts, t.kind = kind' →
        Grammar.expect kind fault last (t :: ts) = Grammar.fail fault last (t :: ts) := by
      intro fault last t ts ht
      have hne : t.kind ≠ kind := by rwa [ht]
      simp [Grammar.expect, isAt, hne, Grammar.fail]
    exact (fail.at_kind kind').congr (hfail fault) (hfail fault')

theorem needExpr {fault fault' : GrammarFault} :
    Agrees 0 n n' id (Grammar.needExpr fault) (Grammar.needExpr fault') := by
  refine of_kinds (end_of_error (fun _ => ⟨_, rfl⟩) fun _ => ⟨_, rfl⟩) fun kind => ?_
  have hneed : ∀ fault last t ts, t.kind = kind → Grammar.needExpr fault last (t :: ts) =
      (if kind.startsExpr then Pure.pure () else Grammar.fail fault : Reader Unit) last
        (t :: ts) := by
    rintro fault last t ts rfl
    rw [Grammar.needExpr, startsExpr]
    split <;> rfl
  refine AgreesAt.congr ?_ (hneed fault) (hneed fault')
  split
  · exact (pure rfl).at_kind kind
  · exact fail.at_kind kind

theorem ite_atExpr (hx : Agrees k n n' view x x') (hy : Agrees k n n' view y y') :
    Agrees k n n' view (do if ← atExpr then x else y) (do if ← atExpr then x' else y') := by
  refine of_kinds (hy.end_congr (fun _ => rfl) fun _ => rfl) fun kind => ?_
  have hat : ∀ (x y : Reader α) last t ts, t.kind = kind →
      (do if ← atExpr then x else y) last (t :: ts) =
        (if kind.startsExpr then x else y : Reader α) last (t :: ts) := by
    rintro x y last t ts rfl
    rfl
  refine AgreesAt.congr ?_ (hat x y) (hat x' y')
  split
  · exact hx.at_kind kind
  · exact hy.at_kind kind

/-- The name at hand is the same on both sides. -/
theorem ident? {f f' : Option String → Reader α}
    (hsome : ∀ name, Agrees (k - 1) (n - 1) (n' - 1) view (f (some name)) (f' (some name)))
    (hnone : Agrees k n n' view (f none) (f' none)) :
    Agrees k n n' view (Grammar.ident? >>= f) (Grammar.ident? >>= f') := by
  refine of_kinds (hnone.end_congr (fun _ => rfl) fun _ => rfl) fun kind => ?_
  cases kind with
  | ident name =>
    refine .take (fun _ _ => hsome name) ?_ ?_
    · rintro last ⟨_, pos⟩ ts rfl
      rfl
    · rintro last ⟨_, pos⟩ ts rfl
      rfl
  | _ =>
    refine (hnone.at_kind _).congr ?_ ?_
    · rintro last ⟨_, pos⟩ ts rfl
      rfl
    · rintro last ⟨_, pos⟩ ts rfl
      rfl

end Agrees

end Stencil.Grammar
