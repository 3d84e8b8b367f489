import Mathlib.Data.List.Basic
import Stencil.Proofs.Grammar.Spelling

/-!
The pieces of an expression: those that are evaluated with it, the names it reads and
the places in the source that it remembers. A place is marked if something can be
entered there, as at a call. What an expression marks is marked by whatever the
expression is a piece of, and an error that is reported at the beginning of an
expression is reported at a place that it marks. A piece is smaller than what it is a
piece of.
-/

namespace Stencil

/-- The expressions that are evaluated to find the place that an expression denotes as
a target: the owner without the last link, and the key if that link is an index. -/
def Expr.targetParts : Expr → List Expr
  | .chain head links =>
    match links.getLast? with
    | none => []
    | some (.index key _) => [.chain head links.dropLast, key]
    | some _ => [.chain head links.dropLast]
  | _ => []

namespace Expr

def parts : Expr → List Expr
  | .array items _ | .and items | .or items => items
  | .dict entries _ => entries.flatMap fun entry => [entry.1, entry.2]
  | .chain head links => head :: links.flatMap Link.parts
  | .negative operand _ | .not operand _ => [operand]
  | .arith first rest => first :: rest.map fun step => step.2.1
  | .augment target rest => target.targetParts ++ rest.map fun step => step.2.1
  | .comparison first rest => first :: rest.map fun step => step.2.1
  | _ => []

/-- The name whose value the expression takes, if it takes any itself. -/
def reads : Expr → Option String
  | .ident name _ => some name
  | .augment (.ident name _) _ => some name
  | _ => none

end Expr

def Formula.exprs : Formula → List Expr
  | .assignments chains => chains.flatten
  | .parallel lists => lists.flatten

/-! Sizes of expressions. -/

theorem sizeOf_dropLast_lt {α : Type} [SizeOf α] {items : List α} {last : α}
    (h : items.getLast? = some last) : sizeOf items.dropLast + sizeOf last < sizeOf items := by
  induction items with
  | nil => cases h
  | cons first rest ih =>
    cases rest with
    | nil =>
      obtain rfl : first = last := Option.some.inj h
      simp only [List.dropLast_singleton, List.nil.sizeOf_spec, List.cons.sizeOf_spec]
      omega
    | cons second rest =>
      rw [List.getLast?_cons_cons] at h
      have hrest := ih h
      rw [List.dropLast_cons_cons, List.cons.sizeOf_spec, List.cons.sizeOf_spec]
      omega

namespace Expr

/-- A part of a target is smaller, so a proof about targets may go by size. -/
theorem sizeOf_lt_of_mem_targetParts {e part : Expr} (h : part ∈ e.targetParts) :
    sizeOf part < sizeOf e := by
  unfold targetParts at h
  split at h
  · next head links =>
    rw [chain.sizeOf_spec]
    split at h
    · cases h
    · next key pos hlast =>
      have hsize := sizeOf_dropLast_lt hlast
      rw [Link.index.sizeOf_spec] at hsize
      rcases List.mem_pair.mp h with rfl | rfl
      · rw [chain.sizeOf_spec]
        omega
      · omega
    · next link _ hlast =>
      have hsize := sizeOf_dropLast_lt hlast
      rw [List.mem_singleton.mp h, chain.sizeOf_spec]
      omega
  · cases h

/-- An operand of a level of operators. -/
theorem sizeOf_lt_of_mem_steps {op : Type} [SizeOf op] {rest : List (op × Expr × Position)}
    {part : Expr} (h : part ∈ rest.map fun step => step.2.1) : sizeOf part < sizeOf rest := by
  obtain ⟨⟨op, operand, pos⟩, hstep, rfl⟩ := List.mem_map.mp h
  have hsize := List.sizeOf_lt_of_mem hstep
  rw [Prod.mk.sizeOf_spec, Prod.mk.sizeOf_spec] at hsize
  dsimp only
  omega

theorem sizeOf_lt_of_mem_parts {e part : Expr} (h : part ∈ e.parts) : sizeOf part < sizeOf e := by
  cases e with
  | array items pos =>
    have hsize := List.sizeOf_lt_of_mem (show part ∈ items from h)
    rw [array.sizeOf_spec]
    omega
  | and items =>
    have hsize := List.sizeOf_lt_of_mem (show part ∈ items from h)
    rw [and.sizeOf_spec]
    omega
  | or items =>
    have hsize := List.sizeOf_lt_of_mem (show part ∈ items from h)
    rw [or.sizeOf_spec]
    omega
  | dict entries pos =>
    obtain ⟨⟨key, item⟩, hentry, hpart⟩ := List.mem_flatMap.mp h
    have hsize := List.sizeOf_lt_of_mem hentry
    rw [Prod.mk.sizeOf_spec] at hsize
    rw [dict.sizeOf_spec]
    rcases List.mem_pair.mp hpart with rfl | rfl
    · omega
    · omega
  | chain head links =>
    rw [chain.sizeOf_spec]
    rcases List.mem_cons.mp h with rfl | h
    · omega
    · obtain ⟨link, hlink, hpart⟩ := List.mem_flatMap.mp h
      have hsize := List.sizeOf_lt_of_mem hlink
      have hinner := Link.sizeOf_lt_of_mem_parts hpart
      omega
  | negative operand pos =>
    rw [List.mem_singleton.mp h, negative.sizeOf_spec]
    omega
  | not operand pos =>
    rw [List.mem_singleton.mp h, not.sizeOf_spec]
    omega
  | arith first rest =>
    rw [arith.sizeOf_spec]
    rcases List.mem_cons.mp h with rfl | h
    · omega
    · have hsize := sizeOf_lt_of_mem_steps h
      omega
  | augment target rest =>
    rw [augment.sizeOf_spec]
    rcases List.mem_append.mp h with h | h
    · have hsize := sizeOf_lt_of_mem_targetParts h
      omega
    · have hsize := sizeOf_lt_of_mem_steps h
      omega
  | comparison first rest =>
    rw [comparison.sizeOf_spec]
    rcases List.mem_cons.mp h with rfl | h
    · omega
    · have hsize := sizeOf_lt_of_mem_steps h
      omega
  | _ => cases h

def names (e : Expr) : List String :=
  e.reads.toList ++ e.parts.attach.flatMap fun part => part.1.names
termination_by sizeOf e
decreasing_by exact sizeOf_lt_of_mem_parts part.2

/-- A name in an expression is read by the expression itself or named in a part. -/
theorem mem_names_iff {e : Expr} {name : String} :
    name ∈ e.names ↔ e.reads = some name ∨ ∃ part ∈ e.parts, name ∈ part.names := by
  rw [names]
  simp

/-- What a part of a target names, the target names: the owner keeps the head and all links but
the last. -/
theorem mem_names_of_mem_targetParts {e part : Expr} (h : part ∈ e.targetParts) {name : String}
    (hname : name ∈ part.names) : name ∈ e.names := by
  unfold targetParts at h
  split at h
  · next head links =>
    have howner : name ∈ (chain head links.dropLast).names → name ∈ (chain head links).names := by
      intro hname
      rcases mem_names_iff.mp hname with hread | ⟨inner, hinner, hname⟩
      · cases hread
      · refine mem_names_iff.mpr (Or.inr ⟨inner, ?_, hname⟩)
        rcases List.mem_cons.mp hinner with rfl | hinner
        · exact List.mem_cons_self
        · obtain ⟨link, hlink, hinner⟩ := List.mem_flatMap.mp hinner
          refine List.mem_cons_of_mem _ (List.mem_flatMap.mpr ⟨link, ?_, hinner⟩)
          exact List.dropLast_subset _ hlink
    split at h
    · cases h
    · next key pos hlast =>
      rcases List.mem_pair.mp h with rfl | rfl
      · exact howner hname
      · refine mem_names_iff.mpr (Or.inr ⟨part, List.mem_cons_of_mem _ ?_, hname⟩)
        exact List.mem_flatMap.mpr ⟨_, List.mem_of_getLast? hlast, List.mem_singleton.mpr rfl⟩
    · obtain rfl := List.mem_singleton.mp h
      exact howner hname
  · cases h

end Expr

theorem Formula.sizeOf_lt_of_mem_exprs {formula : Formula} {e : Expr} (h : e ∈ formula.exprs) :
    sizeOf e < sizeOf formula := by
  have hlists : ∀ {lists : List (List Expr)}, e ∈ lists.flatten → sizeOf e < sizeOf lists := by
    intro lists h
    obtain ⟨items, hitems, he⟩ := List.mem_flatten.mp h
    exact Nat.lt_trans (List.sizeOf_lt_of_mem he) (List.sizeOf_lt_of_mem hitems)
  cases formula with
  | assignments chains =>
    have hsize := hlists h
    rw [assignments.sizeOf_spec]
    omega
  | parallel lists =>
    have hsize := hlists h
    rw [parallel.sizeOf_spec]
    omega

/-! Places. -/

/-- A place in the source, and whether a frame can be entered there. -/
structure Mark where
  pos : Position
  enters : Bool
deriving DecidableEq

def Link.mark : Link → Mark
  | .attr _ pos | .index _ pos => ⟨pos, false⟩
  | .call _ pos => ⟨pos, true⟩

namespace Expr

/-- The places that an expression remembers besides those of its children. -/
def ownMarks : Expr → List Mark
  | .ident _ pos | .array _ pos | .dict _ pos | .super pos | .negative _ pos | .not _ pos =>
    [⟨pos, false⟩]
  | .chain _ links => links.map Link.mark
  | .arith _ rest | .augment _ rest => rest.map fun step => ⟨step.2.2, false⟩
  | .comparison _ rest => rest.map fun step => ⟨step.2.2, false⟩
  | _ => []

/-- The expressions inside an expression. They are its parts, but for a target that is
combined with operands: that one is not evaluated itself. -/
def children : Expr → List Expr
  | .augment target rest => target :: rest.map fun step => step.2.1
  | e => e.parts

/-- A child is smaller, so a proof about marks may go by size. -/
theorem sizeOf_lt_of_mem_children {e child : Expr} (h : child ∈ e.children) :
    sizeOf child < sizeOf e := by
  unfold children at h
  split at h
  · next target rest =>
    rw [augment.sizeOf_spec]
    rcases List.mem_cons.mp h with rfl | h
    · omega
    · have hsize := sizeOf_lt_of_mem_steps h
      omega
  · exact sizeOf_lt_of_mem_parts h

def marks (e : Expr) : List Mark :=
  e.ownMarks ++ e.children.attach.flatMap fun child => child.1.marks
termination_by sizeOf e
decreasing_by exact sizeOf_lt_of_mem_children child.2

/-- A mark in an expression is its own or one of a child. -/
theorem mem_marks_iff {e : Expr} {mark : Mark} :
    mark ∈ e.marks ↔ mark ∈ e.ownMarks ∨ ∃ child ∈ e.children, mark ∈ child.marks := by
  rw [marks]
  simp

theorem ownMarks_subset_marks (e : Expr) : e.ownMarks ⊆ e.marks :=
  fun _ h => mem_marks_iff.mpr (Or.inl h)

theorem marks_subset_of_mem_children {e child : Expr} (h : child ∈ e.children) :
    child.marks ⊆ e.marks :=
  fun _ hmark => mem_marks_iff.mpr (Or.inr ⟨child, h, hmark⟩)

/-- The marks of a part of a target are marks of the target, for the owner keeps the head and all
links but the last. -/
theorem marks_subset_of_mem_targetParts {e part : Expr} (h : part ∈ e.targetParts) :
    part.marks ⊆ e.marks := by
  unfold targetParts at h
  split at h
  · next head links =>
    have howner : (chain head links.dropLast).marks ⊆ (chain head links).marks := by
      intro mark hmark
      rcases mem_marks_iff.mp hmark with hown | ⟨child, hchild, hmark⟩
      · refine mem_marks_iff.mpr (Or.inl ?_)
        obtain ⟨link, hlink, rfl⟩ := List.mem_map.mp hown
        exact List.mem_map_of_mem (List.dropLast_subset _ hlink)
      · refine mem_marks_iff.mpr (Or.inr ⟨child, ?_, hmark⟩)
        rcases List.mem_cons.mp hchild with rfl | hchild
        · exact List.mem_cons_self
        · obtain ⟨link, hlink, hchild⟩ := List.mem_flatMap.mp hchild
          refine List.mem_cons_of_mem _ (List.mem_flatMap.mpr ⟨link, ?_, hchild⟩)
          exact List.dropLast_subset _ hlink
    split at h
    · cases h
    · next key pos hlast =>
      rcases List.mem_pair.mp h with rfl | rfl
      · exact howner
      · refine marks_subset_of_mem_children (List.mem_cons_of_mem _ ?_)
        exact List.mem_flatMap.mpr ⟨_, List.mem_of_getLast? hlast, List.mem_singleton.mpr rfl⟩
    · obtain rfl := List.mem_singleton.mp h
      exact howner
  · cases h

theorem marks_subset_of_mem_parts {e part : Expr} (h : part ∈ e.parts) :
    part.marks ⊆ e.marks := by
  cases e with
  | augment target rest =>
    rcases List.mem_append.mp h with h | h
    · exact List.Subset.trans (marks_subset_of_mem_targetParts h)
        (marks_subset_of_mem_children (List.mem_cons_self ..))
    · exact marks_subset_of_mem_children (List.mem_cons_of_mem _ h)
  | _ => exact marks_subset_of_mem_children h

/-- An expression begins at one of its places. -/
theorem exists_mark_of_mem_pos? {e : Expr} {pos : Position} (h : pos ∈ e.pos?) :
    ∃ mark ∈ e.marks, mark.pos = pos := by
  have hfirst : ∀ {whole first : Expr}, first ∈ whole.children →
      (∃ mark ∈ first.marks, mark.pos = pos) → ∃ mark ∈ whole.marks, mark.pos = pos := by
    rintro whole first hfirst ⟨mark, hmark, hpos⟩
    exact ⟨mark, marks_subset_of_mem_children hfirst hmark, hpos⟩
  fun_induction pos? e with
  | case1 | case2 | case3 | case4 | case5 | case6 =>
    obtain rfl := Option.mem_some_iff.mp h
    exact ⟨_, ownMarks_subset_marks _ (List.mem_singleton.mpr rfl), rfl⟩
  | case7 _ _ ih | case8 _ _ ih | case9 _ _ ih | case10 _ _ ih | case11 _ _ ih | case12 _ _ ih =>
    exact hfirst (List.mem_cons_self ..) (ih h)
  | case13 => cases h

end Expr

end Stencil
