import Stencil.Text.Pattern

/-!
The preferred match of a pattern, construct by construct, and a replacement step by step. What
a replacement has taken it does not look at again.
-/

namespace Stencil.Text.Pattern

variable {p q : Pattern} {test : Char → Bool} {c : Char} {cs rest : List Char}

/-! Matches. -/

theorem head?_runs (test : Char → Bool) (cs : List Char) :
    (runs test cs).head? =
      if (cs.takeWhile test).isEmpty then none else some (cs.takeWhile test).length := by
  induction cs with
  | nil => rfl
  | cons c rest ih =>
    rw [runs]
    cases htest : test c with
    | false => rw [List.takeWhile_cons_of_neg (by simp [htest])]; rfl
    | true =>
      rw [if_pos rfl, List.takeWhile_cons_of_pos htest, List.head?_append, List.head?_map, ih]
      cases rest.takeWhile test with
      | nil => rfl
      | cons d more => rfl

theorem match?_one (test : Char → Bool) (cs : List Char) :
    (one test).match? cs = (cs.head?.filter test).map fun _ => ⟨1, none⟩ := by
  cases cs with
  | nil => rfl
  | cons c rest =>
    have hmatch : (one test).match? (c :: rest) =
        (if test c then [(⟨1, none⟩ : Match)] else []).head? := rfl
    rw [hmatch, List.head?_cons]
    cases htest : test c with
    | true => rw [Option.filter_some_pos htest]; rfl
    | false => rw [Option.filter_some_neg (by simp [htest])]; rfl

theorem match?_many_eq (test : Char → Bool) (cs : List Char) :
    (many test).match? cs = (runs test cs).head?.map (⟨·, none⟩) :=
  List.head?_map ..

theorem match?_many (htest : test c = true) (rest : List Char) :
    (many test).match? (c :: rest) = some ⟨(rest.takeWhile test).length + 1, none⟩ := by
  rw [match?_many_eq, head?_runs, List.takeWhile_cons_of_pos htest]
  rfl

theorem match?_many_of_neg (htest : test c = false) (rest : List Char) :
    (many test).match? (c :: rest) = none := by
  rw [match?_many_eq, head?_runs, List.takeWhile_cons_of_neg (by simp [htest])]
  rfl

theorem match?_maybe (p : Pattern) (cs : List Char) :
    (maybe p).match? cs = some ((p.match? cs).getD ⟨0, none⟩) := by
  have hmatch : (maybe p).match? cs = (p.match? cs).or (some ⟨0, none⟩) := List.head?_append ..
  rw [hmatch]
  cases p.match? cs with
  | none => rfl
  | some found => rfl

theorem match?_capture (p : Pattern) (cs : List Char) :
    (capture p).match? cs =
      (p.match? cs).map fun found => { found with captured := cs.take found.length } :=
  List.head?_map ..

/-- Of two alternatives the first that matches is preferred. -/
theorem match?_orElse (p q : Pattern) (cs : List Char) :
    (orElse p q).match? cs = (p.match? cs).or (q.match? cs) :=
  List.head?_append ..

theorem match?_andThen_eq (p q : Pattern) (cs : List Char) :
    (andThen p q).match? cs = ((p.matchesAt cs).flatMap fun first =>
      (q.matchesAt (cs.drop first.length)).map fun second =>
        ⟨first.length + second.length, second.captured.or first.captured⟩).head? :=
  rfl

theorem match?_andThen_of_none (hp : p.match? cs = none) (q : Pattern) :
    (andThen p q).match? cs = none := by
  have hnone : p.matchesAt cs = [] := List.head?_eq_none_iff.mp hp
  rw [match?_andThen_eq, hnone]
  rfl

/-- If the second pattern matches after the preferred match of the first, the two are the
preferred match of both. -/
theorem match?_andThen {first second : Match} (hp : p.match? cs = some first)
    (hq : q.match? (cs.drop first.length) = some second) :
    (andThen p q).match? cs =
      some ⟨first.length + second.length, second.captured.or first.captured⟩ := by
  obtain ⟨others, hfirst⟩ := List.head?_eq_some_iff.mp hp
  obtain ⟨others', hsecond⟩ := List.head?_eq_some_iff.mp hq
  rw [match?_andThen_eq, hfirst, List.flatMap_cons, hsecond]
  rfl

/-! Replacement. -/

variable (f : Option (List Char) → List Char)

/-- What a match has taken is passed over, and the replacement goes on behind it. -/
theorem replaceFrom_eq_replaceAll (p : Pattern) (taken : Nat) (cs : List Char) :
    p.replaceFrom f taken cs = p.replaceAll f (cs.drop taken) := by
  induction cs generalizing taken with
  | nil => rw [List.drop_nil, replaceAll, replaceFrom, replaceFrom]
  | cons c rest ih =>
    cases taken with
    | zero => rfl
    | succ taken => rw [replaceFrom, ih taken, List.drop_succ_cons]

theorem replaceAll_of_match {found : Match} (h : p.match? (c :: rest) = some found) :
    p.replaceAll f (c :: rest) =
      f found.captured ++ p.replaceAll f (rest.drop (found.length - 1)) := by
  rw [replaceAll, replaceFrom, h]
  exact congrArg _ (replaceFrom_eq_replaceAll f p _ rest)

theorem replaceAll_of_none (h : p.match? (c :: rest) = none) :
    p.replaceAll f (c :: rest) = c :: p.replaceAll f rest := by
  rw [replaceAll, replaceFrom, h]
  rfl

end Stencil.Text.Pattern
