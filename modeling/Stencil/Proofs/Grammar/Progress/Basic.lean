import Stencil.Proofs.Grammar.Agreement.Basic

/-!
How far readers go. Whatever the tokens, a reader that succeeds leaves an end of what it got,
shorter by the tokens that it has to take, and a reader that fails blames the beginning of an
end of what it got. A spent budget decides nothing: two budgets that cover the tokens at hand
give the same answer, and nested readers are asked about fewer tokens only. Readers that are
put together from readers of this kind are of this kind.
-/

namespace Stencil.Grammar

variable {α β : Type}

/-- The reader stays within the inputs of a shape. When it succeeds it has taken at least so
many tokens, and when it fails it names a place in what it got. -/
structure Bounded (shape : List Token → Prop) (k : Nat) (r : Reader α) : Prop where
  takes : ∀ {last ts a rest}, shape ts → r last ts = .ok (a, rest) → Takes k ts rest
  blames : ∀ {last ts d}, shape ts → r last ts = .error d →
    ∃ rest, rest <:+ ts ∧ d.pos = some (here last rest)

/-- Both readers stay within the inputs of the shape, and they do the same on those of at most
so many tokens. -/
structure Settled (shape : List Token → Prop) (k n : Nat) (r r' : Reader α) : Prop where
  left : Bounded shape k r
  right : Bounded shape k r'
  agree : ∀ last ts, shape ts → ts.length ≤ n → r last ts = r' last ts

abbrev Anything : List Token → Prop := fun _ => True

abbrev Begins (kind : TokenKind) : List Token → Prop := fun ts => isAt kind ts = true

/-- Both budgets cover so many tokens, and these are no more than nested readers agree on. -/
structure Covers (n m m' N : Nat) : Prop where
  budget : n ≤ m
  budget' : n ≤ m'
  bound : n ≤ N

theorem Covers.self {n m m' N : Nat} (h : Covers n m m' N) : Covers n m m' n :=
  ⟨h.budget, h.budget', Nat.le_refl n⟩

theorem Covers.pred {n m m' N : Nat} (h : Covers n (m + 1) (m' + 1) N) :
    Covers (n - 1) m m' (N - 1) :=
  ⟨Nat.sub_le_of_le_add h.budget, Nat.sub_le_of_le_add h.budget',
    Nat.sub_le_sub_right h.bound 1⟩

/-- Behind a token the budgets cover what nested readers agree on. -/
theorem Covers.below {n m m' N : Nat} (h : Covers n m m' N) : Covers (n - 1) m m' (N - 1) :=
  ⟨Nat.le_trans (Nat.sub_le n 1) h.budget, Nat.le_trans (Nat.sub_le n 1) h.budget',
    Nat.sub_le_sub_right h.bound 1⟩

variable {shape shape' : List Token → Prop} {k j n m m' N : Nat} {kind : TokenKind}

namespace Bounded

variable {r x : Reader α}

theorem mono (h : Bounded shape k r) (hshape : ∀ ts, shape' ts → shape ts) (hj : j ≤ k) :
    Bounded shape' j r where
  takes hts hread := (h.takes (hshape _ hts) hread).mono hj
  blames hts hread := h.blames (hshape _ hts) hread

/-- What the parts of a sequence take is taken one after the other. -/
theorem bind {f : α → Reader β} (hx : Bounded shape k x) (hf : ∀ a, Bounded Anything j (f a)) :
    Bounded shape (k + j) (x >>= f) where
  takes := by
    intro last ts b rest hts hread
    obtain ⟨a, left, hleft, hrest⟩ := bind_eq_ok hread
    exact (hx.takes hts hleft).trans ((hf a).takes trivial hrest)
  blames := by
    intro last ts d hts hread
    change Reader.bind x f last ts = .error d at hread
    unfold Reader.bind at hread
    cases hfirst : x last ts with
    | error e =>
      rw [hfirst] at hread
      cases hread
      exact hx.blames hts hfirst
    | ok result =>
      obtain ⟨a, left⟩ := result
      rw [hfirst] at hread
      obtain ⟨rest, hrest, hpos⟩ := (hf a).blames trivial hread
      exact ⟨rest, hrest.trans (hx.takes hts hfirst).isSuffix, hpos⟩

theorem pure (a : α) : Bounded shape 0 (Pure.pure a : Reader α) where
  takes := by
    intro last ts b rest hts hread
    cases hread
    exact .refl ts
  blames := by
    intro last ts d hts hread
    cases hread

theorem fail (fault : GrammarFault) : Bounded shape k (Grammar.fail fault : Reader α) where
  takes := by
    intro last ts a rest hts hread
    cases hread
  blames := by
    intro last ts d hts hread
    cases hread
    exact ⟨ts, List.suffix_refl ts, rfl⟩

theorem position {f : Position → Reader β} (h : ∀ pos, Bounded shape k (f pos)) :
    Bounded shape k (Grammar.position >>= f) where
  takes := by
    intro last ts b rest hts hread
    exact (h (here last ts)).takes hts hread
  blames := by
    intro last ts d hts hread
    exact (h (here last ts)).blames hts hread

/-- A reader that drops some tokens and goes on as another. -/
theorem of_takes {s : Reader α} {ts rest : List Token} (htakes : Takes j ts rest)
    (hs : Bounded (· = rest) (k - j) s) (hr : ∀ last, r last ts = s last rest) :
    Bounded (· = ts) k r where
  takes := by
    rintro last _ a left rfl hread
    rw [hr last] at hread
    exact (htakes.trans (hs.takes rfl hread)).mono (by omega)
  blames := by
    rintro last _ d rfl hread
    rw [hr last] at hread
    obtain ⟨left, hleft, hpos⟩ := hs.blames rfl hread
    exact ⟨left, hleft.trans htakes.isSuffix, hpos⟩

/-- A reader is bounded if it is on each of its inputs. -/
theorem of_inputs (h : ∀ ts, shape ts → Bounded (· = ts) k r) : Bounded shape k r where
  takes hts hread := (h _ hts).takes rfl hread
  blames hts hread := (h _ hts).blames rfl hread

end Bounded

namespace Settled

section Rules

variable {r r' s s' x x' y y' : Reader α} {f f' : α → Reader β} {ts rest : List Token}

theorem mono (h : Settled shape k n r r') (hshape : ∀ ts, shape' ts → shape ts) (hj : j ≤ k)
    (hm : m ≤ n) : Settled shape' j m r r' where
  left := h.left.mono hshape hj
  right := h.right.mono hshape hj
  agree last ts hts hlength := h.agree last ts (hshape ts hts) (Nat.le_trans hlength hm)

/-- What holds of all inputs holds of those of a shape. -/
theorem on (h : Settled Anything k n r r') (shape : List Token → Prop) : Settled shape k n r r' :=
  h.mono (fun _ _ => trivial) (Nat.le_refl k) (Nat.le_refl n)

/-- How many tokens are taken need not be known. -/
theorem loose (h : Settled shape k n r r') : Settled shape 0 n r r' :=
  h.mono (fun _ => id) (Nat.zero_le k) (Nat.le_refl n)

theorem shorter (h : Settled shape k n r r') (hm : m ≤ n) : Settled shape k m r r' :=
  h.mono (fun _ => id) (Nat.le_refl k) hm

theorem pred (h : Settled shape k n r r') : Settled shape k (n - 1) r r' :=
  h.shorter (Nat.sub_le n 1)

/-- What the first takes is not there for the second, and both count. -/
theorem bind_add (hx : Settled shape k n x x')
    (hf : ∀ a, Settled Anything j (n - k) (f a) (f' a)) :
    Settled shape (k + j) n (x >>= f) (x' >>= f') where
  left := hx.left.bind fun a => (hf a).left
  right := hx.right.bind fun a => (hf a).right
  agree := by
    intro last ts hts hn
    have htakes : ∀ {a left}, x last ts = .ok (a, left) → Takes k ts left := hx.left.takes hts
    change Reader.bind x f last ts = Reader.bind x' f' last ts
    unfold Reader.bind
    rw [← hx.agree last ts hts hn]
    cases hread : x last ts with
    | error d => rfl
    | ok result =>
      have htaken := (htakes hread).length_le
      exact (hf result.1).agree last result.2 trivial (by omega)

/-- What the first takes is not there for the second. -/
theorem bind_pred (hx : Settled shape 1 n x x')
    (hf : ∀ a, Settled Anything 0 (n - 1) (f a) (f' a)) :
    Settled shape 1 n (x >>= f) (x' >>= f') :=
  hx.bind_add hf

theorem bind (hx : Settled shape k n x x') (hf : ∀ a, Settled Anything 0 n (f a) (f' a)) :
    Settled shape k n (x >>= f) (x' >>= f') :=
  hx.bind_add fun a => (hf a).shorter (Nat.sub_le n k)

/-- The tokens may be taken by what comes second. -/
theorem seq (hx : Settled shape j n x x') (hf : ∀ a, Settled Anything k n (f a) (f' a)) :
    Settled shape k n (x >>= f) (x' >>= f') :=
  (hx.loose.bind_add hf).mono (fun _ => id) (Nat.le_of_eq (Nat.zero_add k).symm) (Nat.le_refl n)

theorem pure (a : α) : Settled shape 0 n (Pure.pure a : Reader α) (Pure.pure a) where
  left := .pure a
  right := .pure a
  agree _ _ _ _ := rfl

theorem fail (fault : GrammarFault) :
    Settled shape k n (Grammar.fail fault : Reader α) (Grammar.fail fault) where
  left := .fail fault
  right := .fail fault
  agree _ _ _ _ := rfl

/-- Readers that drop the same tokens and go on as others. -/
theorem of_takes (htakes : Takes j ts rest) (hs : Settled (· = rest) (k - j) (n - j) s s')
    (hr : ∀ last, r last ts = s last rest) (hr' : ∀ last, r' last ts = s' last rest) :
    Settled (· = ts) k n r r' where
  left := hs.left.of_takes htakes hr
  right := hs.right.of_takes htakes hr'
  agree := by
    rintro last _ rfl hn
    have hlength := htakes.length_le
    rw [hr, hr']
    exact hs.agree last rest rfl (by omega)

theorem of_inputs (h : ∀ ts, shape ts → Settled (· = ts) k n r r') : Settled shape k n r r' where
  left := .of_inputs fun ts hts => (h ts hts).left
  right := .of_inputs fun ts hts => (h ts hts).right
  agree last ts hts hn := (h ts hts).agree last ts rfl hn

/-- Readers that do on an input as others. -/
theorem as (hs : Settled shape k n s s') (hts : shape ts) (hr : ∀ last, r last ts = s last ts)
    (hr' : ∀ last, r' last ts = s' last ts) : Settled (· = ts) k n r r' :=
  of_takes (.refl ts) (hs.mono (fun _ h => h ▸ hts) (Nat.le_refl k) (Nat.le_refl n)) hr hr'

/-- Readers that take the token at hand and go on as others. -/
theorem take (hs : Settled Anything (k - 1) (n - 1) s s') (hts : isAt kind ts = true)
    (hr : ∀ last, r last ts = s last ts.tail) (hr' : ∀ last, r' last ts = s' last ts.tail) :
    Settled (· = ts) k n r r' := by
  have htakes : Takes 1 ts ts.tail := by
    cases ts with
    | nil => cases hts
    | cons t ts => exact takes_cons t ts
  exact of_takes htakes (hs.on _) hr hr'

theorem position {f f' : Position → Reader β} (h : ∀ pos, Settled shape k n (f pos) (f' pos)) :
    Settled shape k n (Grammar.position >>= f) (Grammar.position >>= f') where
  left := .position fun pos => (h pos).left
  right := .position fun pos => (h pos).right
  agree last ts hts hn := (h (here last ts)).agree last ts hts hn

theorem skipNewlines : Settled shape 0 n Grammar.skipNewlines Grammar.skipNewlines := by
  refine of_inputs fun ts hts => ?_
  have htakes : Takes 0 ts (dropNewlines ts) :=
    ⟨dropNewlines_suffix ts, (dropNewlines_suffix ts).length_le⟩
  exact of_takes htakes (pure ()) (fun _ => rfl) fun _ => rfl

/-- The end of the input is within all bounds. -/
theorem nil (h : Settled Anything k m r r') : Settled (· = []) k n r r' where
  left := h.left.mono (fun _ _ => trivial) (Nat.le_refl k)
  right := h.right.mono (fun _ _ => trivial) (Nat.le_refl k)
  agree := by
    rintro last _ rfl -
    exact h.agree last [] trivial (Nat.zero_le m)

/-- The token at hand is dropped if there is one. -/
theorem drop {f f' : Unit → Reader β} (h : Settled Anything k (n - 1) (f ()) (f' ())) :
    Settled shape k n (Grammar.advance >>= f) (Grammar.advance >>= f') := by
  refine of_inputs fun ts hts => ?_
  cases ts with
  | nil => exact (nil h).as rfl (fun _ => rfl) fun _ => rfl
  | cons t ts =>
    have htail : Settled (· = ts) (k - 1) (n - 1) (f ()) (f' ()) :=
      h.mono (fun _ _ => trivial) (Nat.sub_le k 1) (Nat.le_refl _)
    exact of_takes (takes_cons t ts) htail (fun _ => rfl) fun _ => rfl

/-- The token at hand is taken, so one less is left to agree on. -/
theorem advance {f f' : Unit → Reader β} (h : Settled Anything (k - 1) (n - 1) (f ()) (f' ())) :
    Settled (Begins kind) k n (Grammar.advance >>= f) (Grammar.advance >>= f') :=
  of_inputs fun _ hts => take h hts (fun _ => rfl) fun _ => rfl

/-- Readers are settled if they are at the end of the input and at each kind of token. -/
theorem peek {f f' : Option TokenKind → Reader β} (hnone : Settled Anything k n (f none) (f' none))
    (hsome : ∀ kind, Settled (Begins kind) k n (f (some kind)) (f' (some kind))) :
    Settled shape k n (Grammar.peek >>= f) (Grammar.peek >>= f') := by
  refine of_inputs fun ts hts => ?_
  cases ts with
  | nil => exact hnone.as trivial (fun _ => rfl) fun _ => rfl
  | cons t ts =>
    have ht : Begins t.kind (t :: ts) := decide_eq_true rfl
    exact (hsome t.kind).as ht (fun _ => rfl) fun _ => rfl

/-- Where the token is taken, one less is left to agree on. -/
theorem ite_eat (hx : Settled Anything (k - 1) (n - 1) x x') (hy : Settled shape k n y y') :
    Settled shape k n (do if ← eat kind then x else y) (do if ← eat kind then x' else y') := by
  refine of_inputs fun ts hts => ?_
  by_cases hat : isAt kind ts = true
  · have heat : ∀ last, eat kind last ts = .ok (true, ts.tail) := fun _ => if_pos hat
    exact take hx hat (fun last => bind_of_ok (heat last)) fun last => bind_of_ok (heat last)
  · have heat : ∀ last, eat kind last ts = .ok (false, ts) := fun _ => if_neg hat
    exact hy.as hts (fun last => bind_of_ok (heat last)) fun last => bind_of_ok (heat last)

theorem expect (fault : GrammarFault) :
    Settled shape 1 n (Grammar.expect kind fault) (Grammar.expect kind fault) := by
  refine of_inputs fun ts hts => ?_
  by_cases hat : isAt kind ts = true
  · exact take (pure ()) hat (fun _ => if_pos hat) fun _ => if_pos hat
  · exact (fail fault).as hts (fun _ => if_neg hat) fun _ => if_neg hat

theorem needExpr (fault : GrammarFault) :
    Settled shape 0 n (Grammar.needExpr fault) (Grammar.needExpr fault) := by
  refine of_inputs fun ts hts => ?_
  by_cases hstarts : startsExpr ts = true
  · exact (pure ()).as hts (fun _ => if_pos hstarts) fun _ => if_pos hstarts
  · exact (fail fault).as hts (fun _ => if_neg hstarts) fun _ => if_neg hstarts

theorem ite_atExpr (hx : Settled shape k n x x') (hy : Settled shape k n y y') :
    Settled shape k n (do if ← atExpr then x else y) (do if ← atExpr then x' else y') := by
  refine of_inputs fun ts hts => ?_
  by_cases hstarts : startsExpr ts = true
  · have hat : ∀ last, atExpr last ts = .ok (true, ts) := fun _ => by rw [atExpr, hstarts]
    exact hx.as hts (fun last => bind_of_ok (hat last)) fun last => bind_of_ok (hat last)
  · have hat : ∀ last, atExpr last ts = .ok (false, ts) := fun _ => by
      rw [atExpr, Bool.eq_false_iff.mpr hstarts]
    exact hy.as hts (fun last => bind_of_ok (hat last)) fun last => bind_of_ok (hat last)

/-- Where a name is taken, one token less is left to agree on. -/
theorem ident? {f f' : Option String → Reader β}
    (hsome : ∀ name, Settled Anything (k - 1) (n - 1) (f (some name)) (f' (some name)))
    (hnone : Settled shape k n (f none) (f' none)) :
    Settled shape k n (Grammar.ident? >>= f) (Grammar.ident? >>= f') := by
  refine of_inputs fun ts hts => ?_
  cases ts with
  | nil => exact hnone.as hts (fun _ => rfl) fun _ => rfl
  | cons t ts =>
    obtain ⟨kind, pos⟩ := t
    cases kind with
    | ident name =>
      have hat : isAt (.ident name) (⟨.ident name, pos⟩ :: ts) = true := decide_eq_true rfl
      exact take (hsome name) hat (fun _ => rfl) fun _ => rfl
    | _ => exact hnone.as hts (fun _ => rfl) fun _ => rfl

/-- Readers with a budget are settled if they say the same at the end of the input and if a
budget of one more is right for a token more. No budget is spent at the end of the input, so
there the other reader may have any. -/
theorem of_budgets {ι : Type} {r r' : Nat → ι → Reader α}
    (hzero : ∀ i, Bounded Anything k (r 0 i)) (hzero' : ∀ i, Bounded Anything k (r' 0 i))
    (hend : ∀ m m' last i, r m i last [] = r' m' i last [])
    (hstep : ∀ n m m', Covers n (m + 1) (m' + 1) N →
      (∀ i, Settled Anything k (n - 1) (r m i) (r' m' i)) →
      ∀ i, Settled Anything k n (r (m + 1) i) (r' (m' + 1) i))
    (h : Covers n m m' N) (i : ι) : Settled Anything k n (r m i) (r' m' i) := by
  have hcovers : ∀ {m m'}, Covers 0 m m' N := ⟨Nat.zero_le _, Nat.zero_le _, Nat.zero_le _⟩
  have hnone : ∀ {m m' i}, Bounded Anything k (r m i) → Bounded Anything k (r' m' i) →
      Settled Anything k 0 (r m i) (r' m' i) := by
    intro m m' i hleft hright
    refine ⟨hleft, hright, fun last ts _ hn => ?_⟩
    obtain rfl := List.length_eq_zero_iff.mp (Nat.le_zero.mp hn)
    exact hend m m' last i
  have hleft : ∀ m i, Bounded Anything k (r m i) := by
    intro m
    induction m with
    | zero => exact hzero
    | succ m ih => exact fun i => (hstep 0 m 0 hcovers (fun i => hnone (ih i) (hzero' i)) i).left
  have hright : ∀ m i, Bounded Anything k (r' m i) := by
    intro m
    induction m with
    | zero => exact hzero'
    | succ m ih => exact fun i => (hstep 0 0 m hcovers (fun i => hnone (hzero i) (ih i)) i).right
  induction n generalizing m m' i with
  | zero => exact hnone (hleft m i) (hright m' i)
  | succ n ih =>
    obtain ⟨hm, hm', hN⟩ := h
    obtain ⟨m, rfl⟩ : ∃ l, m = l + 1 := ⟨m - 1, by omega⟩
    obtain ⟨m', rfl⟩ : ∃ l, m' = l + 1 := ⟨m' - 1, by omega⟩
    have hn : Covers n m m' N :=
      ⟨Nat.le_of_succ_le_succ hm, Nat.le_of_succ_le_succ hm', Nat.le_of_succ_le hN⟩
    exact hstep (n + 1) m m' ⟨hm, hm', hN⟩ (ih hn) i

theorem of_budget {r r' : Nat → Reader α} (hzero : Bounded Anything k (r 0))
    (hzero' : Bounded Anything k (r' 0)) (hend : ∀ m m' last, r m last [] = r' m' last [])
    (hstep : ∀ n m m', Covers n (m + 1) (m' + 1) N → Settled Anything k (n - 1) (r m) (r' m') →
      Settled Anything k n (r (m + 1)) (r' (m' + 1)))
    (h : Covers n m m' N) : Settled Anything k n (r m) (r' m') :=
  of_budgets (fun _ => hzero) (fun _ => hzero') (fun m m' last _ => hend m m' last)
    (fun n m m' hcovers ih _ => hstep n m m' hcovers (ih ())) h ()

/-- A reader that takes a token blames the end of the input there. -/
theorem error_at_end (h : Settled Anything 1 n r r') (last : Position) :
    ∃ d, r last [] = .error d ∧ r' last [] = .error d := by
  have hagree : r last [] = r' last [] := h.agree last [] trivial (Nat.zero_le n)
  cases hread : r last [] with
  | error d => exact ⟨d, rfl, hagree ▸ hread⟩
  | ok result =>
    have htakes : Takes 1 [] result.2 := h.left.takes trivial hread
    exact absurd htakes.length_le (Nat.not_succ_le_zero _)

end Rules

end Settled

end Stencil.Grammar
