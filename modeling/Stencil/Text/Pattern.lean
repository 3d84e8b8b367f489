/-!
Patterns and their replacement in a text. The matches of a pattern are listed in the order in
which they are preferred: a repetition takes as much as it can, and of two alternatives the
first comes before the second. In a replacement the text is gone through from left to right,
and where the pattern matches, its preferred match is replaced as a whole.
-/

namespace Stencil.Text

inductive Pattern
  /-- One character that passes the test. -/
  | one (test : Char → Bool)
  /-- One or more characters that pass the test. -/
  | many (test : Char → Bool)
  | maybe (p : Pattern)
  | capture (p : Pattern)
  | andThen (p q : Pattern)
  | orElse (p q : Pattern)

/-- How many characters a pattern has taken, and what it has captured of them. -/
structure Match where
  length : Nat
  captured : Option (List Char)

namespace Pattern

/-- Repetitions, the longest first. -/
def runs (test : Char → Bool) : List Char → List Nat
  | [] => []
  | c :: rest => if test c then (runs test rest).map (· + 1) ++ [1] else []

def matchesAt : Pattern → List Char → List Match
  | .one _, [] => []
  | .one test, c :: _ => if test c then [⟨1, none⟩] else []
  | .many test, cs => (runs test cs).map (⟨·, none⟩)
  | .maybe p, cs => p.matchesAt cs ++ [⟨0, none⟩]
  | .capture p, cs =>
    (p.matchesAt cs).map fun found => { found with captured := cs.take found.length }
  | .andThen p q, cs =>
    (p.matchesAt cs).flatMap fun first =>
      (q.matchesAt (cs.drop first.length)).map fun second =>
        ⟨first.length + second.length, second.captured.or first.captured⟩
  | .orElse p q, cs => p.matchesAt cs ++ q.matchesAt cs

def match? (p : Pattern) (cs : List Char) : Option Match := (p.matchesAt cs).head?

/-- Replaces the matches of a pattern that takes at least one character; so many characters
have been replaced already. -/
def replaceFrom (p : Pattern) (f : Option (List Char) → List Char) : Nat → List Char → List Char
  | _, [] => []
  | taken + 1, _ :: rest => p.replaceFrom f taken rest
  | 0, c :: rest =>
    match p.match? (c :: rest) with
    | some found => f found.captured ++ p.replaceFrom f (found.length - 1) rest
    | none => c :: p.replaceFrom f 0 rest

def replaceAll (p : Pattern) (f : Option (List Char) → List Char) (cs : List Char) : List Char :=
  p.replaceFrom f 0 cs

end Pattern

end Stencil.Text
