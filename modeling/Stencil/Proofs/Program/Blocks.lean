import Stencil.Program.Blocks

/-!
The blocks that a body declares are those of its statements, whatever order they are
collected in. A statement declares the blocks of the bodies that run in the frame of
its own: branches, loops, blocks and injected bodies.
-/

namespace Stencil

theorem mem_addName {b name : String} {names : List String} :
    b ∈ addName names name ↔ b ∈ names ∨ b = name := by
  unfold addName
  split
  · next hin =>
    have hname : name ∈ names := by simpa using hin
    refine ⟨Or.inl, ?_⟩
    rintro (hb | rfl)
    · exact hb
    · exact hname
  · simp

/-! Collecting only adds names. -/

mutual

/-- Blocks are collected into a list that keeps what was in it, so the collector may begin with
the empty list. -/
theorem Stmt.mem_blocksFrom {b : String} : ∀ (stmt : Stmt) (names : List String),
    b ∈ stmt.blocksFrom names ↔ b ∈ names ∨ b ∈ stmt.blocksFrom []
  | .block name body _, names => by
    rw [Stmt.blocksFrom, Stmt.blocksFrom, mem_blocksOfBody body (addName names name),
      mem_blocksOfBody body (addName [] name), mem_addName, mem_addName]
    simp [or_assoc]
  | .cond branches otherwise _, names => by
    rw [Stmt.blocksFrom, Stmt.blocksFrom, mem_blocksOfElse otherwise,
      mem_blocksOfBranches branches names,
      mem_blocksOfElse otherwise (blocksOfBranches [] branches), or_assoc]
  | .loop _ _ _ body _, names => by
    rw [Stmt.blocksFrom, Stmt.blocksFrom, mem_blocksOfBody body names]
  | .inject _ body _, names => by
    rw [Stmt.blocksFrom, Stmt.blocksFrom, mem_blocksOfBody body names]
  | .text _, _ | .reference .., _ | .formula .., _ | .break _, _ | .continue _, _
  | .return .., _ | .importAs .., _ | .importFrom .., _ | .function .., _ | .struct .., _ => by
    simp [Stmt.blocksFrom]

theorem mem_blocksOfBody {b : String} : ∀ (body : List Stmt) (names : List String),
    b ∈ blocksOfBody names body ↔ b ∈ names ∨ b ∈ blocksOfBody [] body
  | [], names => by simp [blocksOfBody]
  | stmt :: rest, names => by
    rw [blocksOfBody, blocksOfBody, mem_blocksOfBody rest (stmt.blocksFrom names),
      mem_blocksOfBody rest (stmt.blocksFrom []), Stmt.mem_blocksFrom stmt names, or_assoc]

theorem mem_blocksOfBranches {b : String} :
    ∀ (branches : List (Expr × List Stmt)) (names : List String),
      b ∈ blocksOfBranches names branches ↔ b ∈ names ∨ b ∈ blocksOfBranches [] branches
  | [], names => by simp [blocksOfBranches]
  | (_, body) :: rest, names => by
    rw [blocksOfBranches, blocksOfBranches, mem_blocksOfBranches rest (blocksOfBody names body),
      mem_blocksOfBranches rest (blocksOfBody [] body), mem_blocksOfBody body names, or_assoc]

theorem mem_blocksOfElse {b : String} : ∀ (otherwise : Option (List Stmt)) (names : List String),
    b ∈ blocksOfElse names otherwise ↔ b ∈ names ∨ b ∈ blocksOfElse [] otherwise
  | none, names => by simp [blocksOfElse]
  | some body, names => by rw [blocksOfElse, blocksOfElse, mem_blocksOfBody body names]

end

def Stmt.blocks (stmt : Stmt) : List String := stmt.blocksFrom []

variable {name : String} {body : List Stmt} {stmt : Stmt} {pos : Position}

/-- A body declares what its statements declare. -/
theorem mem_declaredBlocks_cons {b : String} {rest : List Stmt} :
    b ∈ declaredBlocks (stmt :: rest) ↔ b ∈ stmt.blocks ∨ b ∈ declaredBlocks rest := by
  change b ∈ blocksOfBody (stmt.blocksFrom []) rest ↔ _
  exact mem_blocksOfBody rest _

/-- What a statement declares, the body around it declares. -/
theorem blocks_subset_of_mem (h : stmt ∈ body) : stmt.blocks ⊆ declaredBlocks body := by
  induction body with
  | nil => cases h
  | cons first rest ih =>
    intro b hb
    rw [mem_declaredBlocks_cons]
    rcases List.mem_cons.mp h with rfl | hrest
    · exact Or.inl hb
    · exact Or.inr (ih hrest hb)

/-- A block declares its own name. -/
theorem mem_blocks_block : name ∈ (Stmt.block name body pos).blocks := by
  rw [Stmt.blocks, Stmt.blocksFrom, mem_blocksOfBody]
  exact Or.inl (mem_addName.mpr (Or.inr rfl))

/-- What the body of a block declares, the block declares. -/
theorem declaredBlocks_subset_block :
    declaredBlocks body ⊆ (Stmt.block name body pos).blocks := by
  intro b hb
  rw [Stmt.blocks, Stmt.blocksFrom, mem_blocksOfBody]
  exact Or.inr hb

theorem declaredBlocks_subset_branch {branches : List (Expr × List Stmt)} {condition : Expr}
    {otherwise : Option (List Stmt)} (h : (condition, body) ∈ branches) :
    declaredBlocks body ⊆ (Stmt.cond branches otherwise pos).blocks := by
  have hbranches : declaredBlocks body ⊆ blocksOfBranches [] branches := by
    induction branches with
    | nil => cases h
    | cons branch rest ih =>
      intro b hb
      rw [blocksOfBranches, mem_blocksOfBranches]
      rcases List.mem_cons.mp h with rfl | hrest
      · exact Or.inl hb
      · exact Or.inr (ih hrest hb)
  intro b hb
  rw [Stmt.blocks, Stmt.blocksFrom, mem_blocksOfElse]
  exact Or.inl (hbranches hb)

theorem declaredBlocks_subset_else {branches : List (Expr × List Stmt)} :
    declaredBlocks body ⊆ (Stmt.cond branches (some body) pos).blocks := by
  intro b hb
  rw [Stmt.blocks, Stmt.blocksFrom, mem_blocksOfElse]
  exact Or.inr hb

end Stencil
