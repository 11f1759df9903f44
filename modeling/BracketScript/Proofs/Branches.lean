import BracketScript.Proofs.Drawing
import Mathlib.Data.List.GetD

/-! A drawn outline is a tree, drawn from its root down: left of a branch stands what stands left
of the branch that it hangs on, and a bar where that branch has a sibling further below. The
depths of the lines and the marks that are passed from line to line say nothing else. -/
namespace BracketScript

inductive Branch where
  | fork (label : String) (below : List Branch)

namespace Branch

mutual

/-- Draws a branch after a margin. The last sibling turns the corner, and its children get no
bar. -/
def draw (margin : String) (last : Bool) : Branch → String
  | fork label below =>
    margin ++ (if last then "└── " else "├── ") ++ label ++ "\n" ++
      drawList (margin ++ if last then "    " else "│   ") below

def drawList (margin : String) : List Branch → String
  | [] => ""
  | branch :: branches => branch.draw margin branches.isEmpty ++ drawList margin branches

end

mutual

def lines (depth : Nat) : Branch → List OutlineLine
  | fork label below => ⟨depth, label⟩ :: listLines (depth + 1) below

def listLines (depth : Nat) : List Branch → List OutlineLine
  | [] => []
  | branch :: branches => branch.lines depth ++ listLines depth branches

end

end Branch

namespace Node

def bodyBranch (statements : List Branch) : Branch := .fork "block" statements

mutual

/-- The label of a node over the branches of its parts, in source order. -/
def branch (node : Node String Token) : Branch :=
  .fork node.label
    (match node with
      | block body => branches body
      | function _ _ body => [bodyBranch (branches body)]
      | lambda _ body => [bodyBranch (branches body)]
      | guarded _ condition body => [condition.branch, bodyBranch (branches body)]
      | loop init condition step body =>
        [partBranch init, partBranch condition, partBranch step, bodyBranch (branches body)]
      | binding _ value => [value.branch]
      | assignment _ value => [value.branch]
      | enumeration _ => []
      | result value => [value.branch]
      | jump _ => []
      | list elements => branches elements
      | access of keys => of.branch :: branches keys
      | unary _ operand => [operand.branch]
      | binary _ left right => [left.branch, right.branch]
      | leaf _ => [])
termination_by structural node

def branches (nodes : List (Node String Token)) : List Branch :=
  match nodes with
  | [] => []
  | node :: nodes => node.branch :: branches nodes
termination_by structural nodes

/-- Absent parts of a loop have a branch too. -/
def partBranch (part : Option (Node String Token)) : Branch :=
  match part with
  | none => .fork "(none)" []
  | some node => node.branch
termination_by structural part

end

mutual

theorem lines_branch (n : Node String Token) (depth : Nat) :
    n.branch.lines depth = n.outline depth := by
  cases n with
  | block body =>
    simp [branch, Branch.lines, outline, bodyOutline, lines_branches body, label, kindName]
  | function _ _ body | lambda _ body =>
    simp [branch, Branch.lines, Branch.listLines, bodyBranch, outline, bodyOutline,
      lines_branches body]
  | guarded _ condition body =>
    simp [branch, Branch.lines, Branch.listLines, bodyBranch, outline, bodyOutline,
      lines_branch condition, lines_branches body]
  | loop init condition step body =>
    simp [branch, Branch.lines, Branch.listLines, bodyBranch, outline, bodyOutline,
      lines_partBranch init, lines_partBranch condition, lines_partBranch step,
      lines_branches body]
  | binding _ value | assignment _ value | result value =>
    simp [branch, Branch.lines, Branch.listLines, outline, lines_branch value]
  | enumeration | jump | leaf => rfl
  | list elements => simp [branch, Branch.lines, outline, lines_branches elements]
  | access of keys =>
    simp [branch, Branch.lines, Branch.listLines, outline, lines_branch of, lines_branches keys]
  | unary _ operand =>
    simp [branch, Branch.lines, Branch.listLines, outline, lines_branch operand]
  | binary _ left right =>
    simp [branch, Branch.lines, Branch.listLines, outline, lines_branch left, lines_branch right]

theorem lines_branches (ns : List (Node String Token)) (depth : Nat) :
    Branch.listLines depth (branches ns) = listOutline depth ns := by
  cases ns with
  | nil => rfl
  | cons n ns =>
    rw [branches, Branch.listLines, listOutline, lines_branch n, lines_branches ns]

theorem lines_partBranch (part : Option (Node String Token)) (depth : Nat) :
    (partBranch part).lines depth = partOutline depth part := by
  cases part with
  | none => rfl
  | some n =>
    rw [partBranch, partOutline, lines_branch n]

end

end Node

namespace OutlineLine

def drawnText (lines : List OutlineLine) : String :=
  String.join ((drawAll lines).1.map (· ++ "\n"))

/-- The depths that continue, seen from above the lines. -/
def openDepths (lines : List OutlineLine) : List Bool := (drawAll lines).2

variable {below below' : List Bool} {depth : Nat}

theorem drawnText_cons (line : OutlineLine) (lines : List OutlineLine) :
    drawnText (line :: lines) = line.draw (openDepths lines) ++ "\n" ++ drawnText lines := by
  simp [drawnText, openDepths, drawAll, String.join_cons]

theorem openDepths_cons (line : OutlineLine) (lines : List OutlineLine) :
    openDepths (line :: lines) = line.above (openDepths lines) := rfl

theorem length_above (line : OutlineLine) (below : List Bool) :
    (line.above below).length = line.depth + 1 := by simp [above]

/-- Drawing a line leaves the flags of lesser depths unchanged. -/
theorem getD_above {d : Nat} (line : OutlineLine) (lesser : d < line.depth) (below : List Bool) :
    (line.above below).getD d false = below.getD d false := by
  rw [above, List.getD_append _ _ _ _ (by simpa using lesser)]
  simp [lesser]

theorem getD_above_depth (line : OutlineLine) (below : List Bool) :
    (line.above below).getD line.depth false = true := by simp [above]

/-- The margin at a depth reads the flags of lesser depths only. -/
theorem margin_congr (same : ∀ d < depth, below.getD d false = below'.getD d false) :
    margin below depth = margin below' depth := by
  unfold margin
  congr 1
  refine List.map_congr_left fun d member => ?_
  rw [same d (List.mem_range.mp member)]

theorem margin_succ (below : List Bool) (depth : Nat) :
    margin below (depth + 1) =
      margin below depth ++ if below.getD depth false then "│   " else "    " := by
  simp [margin, List.range_succ, String.join_append, String.join_cons]

variable {rest : List OutlineLine}

/-- Above the lines of a branch its own depth is open, and no deeper one is. -/
theorem openDepths_lines (b : Branch) (depth : Nat) (rest : List OutlineLine) :
    (openDepths (b.lines depth ++ rest)).length = depth + 1 ∧
      (openDepths (b.lines depth ++ rest)).getD depth false = true := by
  obtain ⟨label, inner⟩ := b
  rw [Branch.lines, List.cons_append, openDepths_cons]
  exact ⟨length_above _ _, getD_above_depth _ _⟩

/-- Siblings are open at their own depth, unless there are none. -/
theorem openDepths_listLines (bs : List Branch) (ends : (openDepths rest).length ≤ depth) :
    (openDepths (Branch.listLines depth bs ++ rest)).length ≤ depth + 1 ∧
      (openDepths (Branch.listLines depth bs ++ rest)).getD depth false = !bs.isEmpty := by
  cases bs with
  | nil => exact ⟨Nat.le_succ_of_le ends, List.getD_eq_default _ _ ends⟩
  | cons b bs =>
    obtain ⟨length, here⟩ := openDepths_lines b depth (Branch.listLines depth bs ++ rest)
    rw [Branch.listLines, List.append_assoc]
    exact ⟨Nat.le_of_eq length, here⟩

mutual

theorem openDepths_lines_lesser (b : Branch) {d depth : Nat} (lesser : d < depth)
    (rest : List OutlineLine) :
    (openDepths (b.lines depth ++ rest)).getD d false = (openDepths rest).getD d false := by
  obtain ⟨label, inner⟩ := b
  rw [Branch.lines, List.cons_append, openDepths_cons, getD_above _ lesser,
    openDepths_listLines_lesser inner (Nat.lt_succ_of_lt lesser)]

theorem openDepths_listLines_lesser (bs : List Branch) {d depth : Nat} (lesser : d < depth)
    (rest : List OutlineLine) :
    (openDepths (Branch.listLines depth bs ++ rest)).getD d false =
      (openDepths rest).getD d false := by
  cases bs with
  | nil => rfl
  | cons b bs =>
    rw [Branch.listLines, List.append_assoc, openDepths_lines_lesser b lesser,
      openDepths_listLines_lesser bs lesser]

end

mutual

theorem drawnText_lines (b : Branch) {depth : Nat} {rest : List OutlineLine}
    (ends : (openDepths rest).length ≤ depth + 1) :
    drawnText (b.lines depth ++ rest) =
      b.draw (margin (openDepths rest) depth) (!(openDepths rest).getD depth false) ++
        drawnText rest := by
  obtain ⟨label, inner⟩ := b
  have here := openDepths_listLines_lesser inner (Nat.lt_succ_self depth) rest
  have left : margin (openDepths (Branch.listLines (depth + 1) inner ++ rest)) depth =
      margin (openDepths rest) depth :=
    margin_congr fun d lesser =>
      openDepths_listLines_lesser inner (Nat.lt_succ_of_lt lesser) rest
  rw [Branch.lines, List.cons_append, drawnText_cons, drawnText_listLines inner ends,
    margin_succ, Branch.draw, draw, here, left]
  cases (openDepths rest).getD depth false <;> simp [String.append_assoc]

theorem drawnText_listLines (bs : List Branch) {depth : Nat} {rest : List OutlineLine}
    (ends : (openDepths rest).length ≤ depth) :
    drawnText (Branch.listLines depth bs ++ rest) =
      Branch.drawList (margin (openDepths rest) depth) bs ++ drawnText rest := by
  cases bs with
  | nil => simp [Branch.listLines, Branch.drawList]
  | cons b bs =>
    obtain ⟨length, here⟩ := openDepths_listLines bs ends
    have left : margin (openDepths (Branch.listLines depth bs ++ rest)) depth =
        margin (openDepths rest) depth :=
      margin_congr fun d lesser => openDepths_listLines_lesser bs lesser rest
    rw [Branch.listLines, List.append_assoc, drawnText_lines b length,
      drawnText_listLines bs ends, Branch.drawList, here, left, Bool.not_not, String.append_assoc]

end

end OutlineLine

/-- The text of an outline is the recursive drawing of the branches of its program. The flat drawing
runs from the last line up; this one follows the tree. -/
theorem tree_eq_draw (p : Program) :
    p.tree = "program\n" ++ Branch.drawList "" (Node.branches p.statements) := by
  have rooted : (OutlineLine.openDepths []).length ≤ 0 := Nat.le_refl 0
  have drawn := OutlineLine.drawnText_listLines (Node.branches p.statements) rooted
  rw [Node.lines_branches, List.append_nil] at drawn
  have text : p.tree = "program" ++ "\n" ++ OutlineLine.drawnText p.outline := by
    rw [Program.tree, OutlineLine.drawnText, List.map_cons, String.join_cons]
  rw [text, Program.outline, drawn]
  simp [OutlineLine.drawnText, OutlineLine.drawAll, OutlineLine.margin]

example :
    Branch.drawList "" [.fork "+" [.fork "a" [], .fork "b" []], .fork "c" []] =
      "├── +\n│   ├── a\n│   └── b\n└── c\n" := by
  decide +kernel

end BracketScript
