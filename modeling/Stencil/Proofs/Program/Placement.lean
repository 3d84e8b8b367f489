import Stencil.Proofs.Program.Pieces

/-!
The statements of a program and where they stand. Every statement of a program is listed
with what it stands in: whether a loop goes round it and whether it is part of a
function. A definition, a struct and an overriding body are no part of the loop that
they stand in, and the body of a struct is no part of the function around it. What is
asked of a program is asked of each statement by itself.
-/

namespace Stencil

/-! Statements. -/

/-- What a statement stands in. -/
structure Spot where
  inLoop : Bool
  inFunction : Bool
deriving DecidableEq

namespace Spot

def top : Spot := ⟨false, false⟩

def ofFunction : Spot := ⟨false, true⟩

end Spot

namespace Stmt

def exprs : Stmt → List Expr
  | .reference f _ | .formula f _ => f.exprs
  | .cond branches _ _ => branches.map Prod.fst
  | .loop init test update _ _ =>
    [init, test, update].flatMap fun clause => clause.toList.flatMap Formula.exprs
  | .return value _ => value.toList.flatMap Formula.exprs
  | _ => []

def names (stmt : Stmt) : List String := stmt.exprs.flatMap Expr.names

/-- The bodies inside a statement, and what their statements stand in. -/
def inner (spot : Spot) : Stmt → List (Spot × List Stmt)
  | .cond branches otherwise _ =>
    branches.map (fun branch => (spot, branch.2)) ++ otherwise.toList.map fun body => (spot, body)
  | .loop _ _ _ body _ => [({ spot with inLoop := true }, body)]
  | .function _ _ _ _ body _ => [(.ofFunction, body)]
  | .struct _ body _ => [(.top, body)]
  | .block _ body _ => [(spot, body)]
  | .inject _ body _ => [({ spot with inLoop := false }, body)]
  | _ => []

def isLoop : Stmt → Bool
  | .loop .. => true
  | _ => false

def path? : Stmt → Option String
  | .importAs path .. | .importFrom path .. => some path
  | _ => none

/-- A signal stands in what catches it. -/
def isPlaced (spot : Spot) : Stmt → Bool
  | .break _ | .continue _ => spot.inLoop
  | .return .. => spot.inFunction
  | _ => true

theorem mem_exprs_loop {init test update clause : Option Formula} {body : List Stmt}
    {pos : Position} {f : Formula} {e : Expr} (hclause : clause ∈ [init, test, update])
    (hf : f ∈ clause) (he : e ∈ f.exprs) : e ∈ (loop init test update body pos).exprs :=
  List.mem_flatMap.mpr ⟨clause, hclause, List.mem_flatMap.mpr ⟨f, Option.mem_toList.mpr hf, he⟩⟩

theorem mem_exprs_return {f : Formula} {pos : Position} {e : Expr} (he : e ∈ f.exprs) :
    e ∈ (Stmt.return (some f) pos).exprs :=
  List.mem_flatMap.mpr ⟨f, List.mem_singleton.mpr rfl, he⟩

theorem sizeOf_lt_of_mem_clause {clause : Option Formula} {e : Expr}
    (h : e ∈ clause.toList.flatMap Formula.exprs) : sizeOf e < sizeOf clause := by
  obtain ⟨formula, hformula, he⟩ := List.mem_flatMap.mp h
  have hsize := Formula.sizeOf_lt_of_mem_exprs he
  rw [Option.mem_toList.mp hformula, Option.some.sizeOf_spec]
  omega

theorem sizeOf_lt_of_mem_exprs {stmt : Stmt} {e : Expr} (h : e ∈ stmt.exprs) :
    sizeOf e < sizeOf stmt := by
  cases stmt with
  | reference f pos =>
    have hsize := Formula.sizeOf_lt_of_mem_exprs (show e ∈ f.exprs from h)
    rw [reference.sizeOf_spec]
    omega
  | formula f pos =>
    have hsize := Formula.sizeOf_lt_of_mem_exprs (show e ∈ f.exprs from h)
    rw [formula.sizeOf_spec]
    omega
  | cond branches otherwise pos =>
    obtain ⟨⟨condition, body⟩, hbranch, rfl⟩ := List.mem_map.mp h
    have hsize := List.sizeOf_lt_of_mem hbranch
    rw [Prod.mk.sizeOf_spec] at hsize
    rw [cond.sizeOf_spec]
    dsimp only
    omega
  | loop init test update body pos =>
    obtain ⟨clause, hclause, he⟩ := List.mem_flatMap.mp h
    have hsize := sizeOf_lt_of_mem_clause he
    rw [loop.sizeOf_spec]
    simp only [List.mem_cons, List.not_mem_nil, or_false] at hclause
    rcases hclause with rfl | rfl | rfl
    · omega
    · omega
    · omega
  | «return» value pos =>
    have hsize := sizeOf_lt_of_mem_clause (show e ∈ value.toList.flatMap Formula.exprs from h)
    rw [return.sizeOf_spec]
    omega
  | _ => cases h

/-- What stands inside a statement is smaller. -/
theorem sizeOf_lt_of_mem_inner {spot : Spot} {stmt : Stmt} {piece : Spot × List Stmt}
    (h : piece ∈ stmt.inner spot) : sizeOf piece.2 < sizeOf stmt := by
  cases stmt with
  | cond branches otherwise pos =>
    rw [cond.sizeOf_spec]
    rcases List.mem_append.mp h with h | h
    · obtain ⟨⟨condition, body⟩, hbranch, rfl⟩ := List.mem_map.mp h
      have hsize := List.sizeOf_lt_of_mem hbranch
      rw [Prod.mk.sizeOf_spec] at hsize
      dsimp only
      omega
    · obtain ⟨body, hbody, rfl⟩ := List.mem_map.mp h
      rw [Option.mem_toList.mp hbody, Option.some.sizeOf_spec]
      dsimp only
      omega
  | loop init test update body pos =>
    rw [List.mem_singleton.mp h, loop.sizeOf_spec]
    dsimp only
    omega
  | function name params base isMethod body pos =>
    rw [List.mem_singleton.mp h, function.sizeOf_spec]
    dsimp only
    omega
  | struct name body pos =>
    rw [List.mem_singleton.mp h, struct.sizeOf_spec]
    dsimp only
    omega
  | block name body pos =>
    rw [List.mem_singleton.mp h, block.sizeOf_spec]
    dsimp only
    omega
  | inject name body pos =>
    rw [List.mem_singleton.mp h, inject.sizeOf_spec]
    dsimp only
    omega
  | _ => cases h

end Stmt

def statements (spot : Spot) (body : List Stmt) : List (Spot × Stmt) :=
  body.attach.flatMap fun stmt =>
    (spot, stmt.1) :: (stmt.1.inner spot).attach.flatMap fun piece =>
      statements piece.1.1 piece.1.2
termination_by sizeOf body
decreasing_by
  exact Nat.lt_trans (Stmt.sizeOf_lt_of_mem_inner piece.2) (List.sizeOf_lt_of_mem stmt.2)

/-- A statement is placed in a body as one of its own or inside one of them. -/
theorem mem_statements_iff {spot : Spot} {body : List Stmt} {placed : Spot × Stmt} :
    placed ∈ statements spot body ↔
      ∃ stmt ∈ body, placed = (spot, stmt) ∨
        ∃ piece ∈ stmt.inner spot, placed ∈ statements piece.1 piece.2 := by
  rw [statements]
  simp

/-! Places. -/

namespace Stmt

def mark? : Stmt → Option Mark
  | .text _ => none
  | .importAs _ _ pos | .importFrom _ _ pos | .struct _ _ pos | .block _ _ pos => some ⟨pos, true⟩
  | .reference _ pos | .formula _ pos | .cond _ _ pos | .loop _ _ _ _ pos | .break pos
  | .continue pos | .return _ pos | .function _ _ _ _ _ pos | .inject _ _ pos => some ⟨pos, false⟩

def ownMarks (stmt : Stmt) : List Mark := stmt.mark?.toList ++ stmt.exprs.flatMap Expr.marks

end Stmt

def marks (body : List Stmt) : List Mark :=
  body.attach.flatMap fun stmt =>
    stmt.1.ownMarks ++ (stmt.1.inner .top).attach.flatMap fun piece => marks piece.1.2
termination_by sizeOf body
decreasing_by
  exact Nat.lt_trans (Stmt.sizeOf_lt_of_mem_inner piece.2) (List.sizeOf_lt_of_mem stmt.2)

/-- A mark in a body is that of a statement or lies inside one. -/
theorem mem_marks_iff {body : List Stmt} {mark : Mark} :
    mark ∈ marks body ↔ ∃ stmt ∈ body, mark ∈ stmt.ownMarks ∨
      ∃ piece ∈ stmt.inner .top, mark ∈ marks piece.2 := by
  rw [marks]
  simp

/-- The places of a statement and of the bodies inside it are among those given. -/
structure Stmt.MarkedIn (places : List Mark) (stmt : Stmt) : Prop where
  own : stmt.ownMarks ⊆ places
  inner : ∀ piece ∈ stmt.inner .top, marks piece.2 ⊆ places

/-- A statement of a body has its marks among those of the body. -/
theorem Stmt.markedIn_of_mem {body : List Stmt} {stmt : Stmt} (h : stmt ∈ body)
    {places : List Mark} (hbody : marks body ⊆ places) : stmt.MarkedIn places where
  own _ hmark := hbody (mem_marks_iff.mpr ⟨stmt, h, Or.inl hmark⟩)
  inner piece hpiece _ hmark :=
    hbody (mem_marks_iff.mpr ⟨stmt, h, Or.inr ⟨piece, hpiece, hmark⟩⟩)

theorem Stmt.MarkedIn.expr {places : List Mark} {stmt : Stmt} (h : stmt.MarkedIn places) {e : Expr}
    (he : e ∈ stmt.exprs) : e.marks ⊆ places :=
  fun _ hmark => h.own (List.mem_append_right _ (List.mem_flatMap.mpr ⟨e, he, hmark⟩))

theorem Stmt.MarkedIn.mark {places : List Mark} {stmt : Stmt} (h : stmt.MarkedIn places)
    {mark : Mark} (hmark : stmt.mark? = some mark) : mark ∈ places :=
  h.own (List.mem_append_left _ (Option.mem_toList.mpr hmark))

end Stencil
