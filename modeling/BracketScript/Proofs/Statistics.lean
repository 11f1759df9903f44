import BracketScript.Proofs.Descent
import BracketScript.Proofs.Outlines
import BracketScript.Proofs.Respacing

/-! The statistics of a program. A walk leaves every node it enters, so its depth is restored
after each node, and its maximum is the height. The outline has lines for nodes, bodies and
absent parts. -/
namespace BracketScript

namespace Tally

variable {ν τ : Type} {t u : Tally} {e : Event ν τ} {w w' : List (Event ν τ)}

/-- Leaves a node, or fails where none is entered. -/
def leave? (t : Tally) : Option Tally :=
  if t.current = 0 then none else some { t with current := t.current - 1 }

def count? (t : Tally) (e : Event ν τ) : Option Tally :=
  match e with
  | .leave => t.leave?
  | _ => some (t.count e)

def countAll? (t : Tally) (w : List (Event ν τ)) : Option Tally := w.foldlM count? t

theorem count_of_count? (counted : t.count? e = some u) : t.count e = u := by
  cases e with
  | leave =>
    simp only [count?, leave?] at counted
    split at counted
    · cases counted
    · exact Option.some.inj counted
  | _ => exact Option.some.inj counted

theorem foldl_of_countAll? (counted : t.countAll? w = some u) : w.foldl count t = u := by
  induction w generalizing t with
  | nil => exact Option.some.inj counted
  | cons e w ih =>
    obtain ⟨s, first, others⟩ := Option.bind_eq_some_iff.mp counted
    rw [List.foldl_cons, count_of_count? first, ih others]

theorem countAll?_append : t.countAll? (w ++ w') = (t.countAll? w).bind (·.countAll? w') :=
  List.foldlM_append

theorem current_pos (counted : t.countAll? (w ++ .leave :: w') = some u) :
    0 < (w.foldl count t).current := by
  rw [countAll?_append] at counted
  obtain ⟨s, before, behind⟩ := Option.bind_eq_some_iff.mp counted
  obtain ⟨_, left, _⟩ := Option.bind_eq_some_iff.mp behind
  rw [foldl_of_countAll? before]
  by_contra idle
  rw [count?, leave?, if_pos (Nat.eq_zero_of_not_pos idle)] at left
  cases left

@[simp] theorem countAll?_bodyWalk (size : Nat) :
    t.countAll? (Node.bodyWalk size w) = t.countAll? w := by
  rw [Node.bodyWalk, countAll?_append]
  exact Option.bind_fun_some _

/-- The tally after nodes of a total size and a greatest height. -/
def behind (t : Tally) (size height : Nat) : Tally :=
  ⟨t.nodes + size, max t.depth (t.current + height), t.current⟩

end Tally

namespace Node

variable {ν τ : Type} {t : Tally}

/-- A walk over a node counts the node around the walk over its children. -/
theorem countAll?_walk_eq (n : Node ν τ) :
    t.countAll? n.walk =
      ((t.count (.enter n)).countAll? (listWalk n.children)).bind Tally.leave? := by
  have around (inner : List (Event ν τ)) : t.countAll? (.enter n :: inner ++ [.leave]) =
      ((t.count (.enter n)).countAll? inner).bind Tally.leave? := by
    rw [Tally.countAll?_append]
    change ((t.count (.enter n)).countAll? inner).bind (fun s => s.leave?.bind some) = _
    simp only [Option.bind_fun_some]
  rw [walk.eq_def, around]
  cases n <;> simp [children, parts, listWalk, Tally.countAll?_append, Function.comp_def]

/-- A walk over the node adds its size, covers its height and restores the depth. -/
def Counted (n : Node ν τ) : Prop :=
  ∀ t : Tally, t.current ≤ t.depth → t.countAll? n.walk = some (t.behind n.nodes.length n.height)

theorem countAll?_listWalk {ns : List (Node ν τ)} (counted : ∀ n ∈ ns, n.Counted)
    (within : t.current ≤ t.depth) :
    t.countAll? (listWalk ns) = some (t.behind (ns.flatMap nodes).length (listHeight ns)) := by
  induction ns generalizing t with
  | nil =>
    rw [Tally.behind, listHeight, List.map_nil, List.foldr_nil, Nat.add_zero,
      Nat.max_eq_left within]
    rfl
  | cons n ns ih =>
    obtain ⟨first, others⟩ := List.forall_mem_cons.mp counted
    have further : (t.behind n.nodes.length n.height).current ≤
        (t.behind n.nodes.length n.height).depth := Nat.le_trans within (Nat.le_max_left _ _)
    rw [listWalk, Tally.countAll?_append, first t within, Option.bind_some, ih others further]
    simp only [Tally.behind, listHeight, List.flatMap_cons, List.length_append, List.map_cons,
      List.foldr_cons, Option.some.injEq, Tally.mk.injEq, and_true]
    omega

/-- Every walk adds the nodes and the height of its tree and restores the depth. -/
theorem counted (n : Node ν τ) : n.Counted := by
  induction n using children_induction with
  | step n ih =>
    intro t within
    have deeper : (t.count (.enter n)).current ≤ (t.count (.enter n)).depth := Nat.le_max_right _ _
    rw [countAll?_walk_eq, countAll?_listWalk ih deeper, Option.bind_some, nodes_eq, height_eq]
    simp only [Tally.leave?, Tally.behind, Tally.count, Nat.add_one_ne_zero, if_false,
      List.length_cons, Option.some.injEq, Tally.mk.injEq]
    omega

/-- The body of a block is the block itself and does not count. -/
def hasBody : Node ν τ → Bool
  | function .. | lambda .. | guarded .. | loop .. => true
  | _ => false

/-- The number of absent parts in the header of a loop. -/
def absentParts : Node ν τ → Nat
  | loop init condition step _ => init.isNone.toNat + condition.isNone.toNat + step.isNone.toNat
  | _ => 0

/-- The number of outline lines that nodes account for. -/
def lineCount (ns : List (Node ν τ)) : Nat :=
  ns.length + ns.countP hasBody + (ns.map absentParts).sum

@[simp] theorem lineCount_append (ns ms : List (Node ν τ)) :
    lineCount (ns ++ ms) = lineCount ns + lineCount ms := by
  simp only [lineCount, List.length_append, List.countP_append, List.map_append, List.sum_append]
  omega

theorem lineCount_nodes (n : Node ν τ) :
    lineCount n.nodes =
      1 + n.hasBody.toNat + n.absentParts + lineCount (n.children.flatMap nodes) := by
  rw [nodes_eq]
  simp only [lineCount, List.length_cons, List.countP_cons, List.map_cons, List.sum_cons]
  cases n.hasBody <;> simp <;> omega

section Outlines

def Outlined (n : Tree) : Prop := ∀ depth, (n.outline depth).length = lineCount n.nodes

theorem length_listOutline {ns : List Tree} (outlined : ∀ n ∈ ns, n.Outlined) (depth : Nat) :
    (listOutline depth ns).length = lineCount (ns.flatMap nodes) := by
  induction ns with
  | nil => rfl
  | cons n ns ih =>
    obtain ⟨first, others⟩ := List.forall_mem_cons.mp outlined
    rw [listOutline, List.length_append, first depth, ih others, List.flatMap_cons,
      lineCount_append]

theorem length_partOutline {part : Option Tree} (outlined : ∀ n ∈ part, n.Outlined) (depth : Nat) :
    (partOutline depth part).length =
      part.isNone.toNat + lineCount (part.toList.flatMap nodes) := by
  cases part with
  | none => rfl
  | some n => simpa [partOutline] using outlined n rfl depth

/-- The outline of every node has the number of lines its nodes account for. -/
theorem outlined (n : Tree) : n.Outlined := by
  induction n using children_induction with
  | step n ih =>
    intro depth
    rw [lineCount_nodes]
    cases n with
    | block body | list body =>
      have inner : ∀ m ∈ body, m.Outlined := by simpa [children, parts] using ih
      simp [outline, bodyOutline, length_listOutline inner, children, parts, hasBody, absentParts,
        Function.comp_def, Nat.add_comm]
    | function _ _ body | lambda _ body =>
      have inner : ∀ m ∈ body, m.Outlined := by simpa [children, parts] using ih
      simp [outline, bodyOutline, length_listOutline inner, children, parts, hasBody, absentParts,
        Function.comp_def]
      omega
    | guarded _ condition body =>
      obtain ⟨test, inner⟩ : condition.Outlined ∧ ∀ m ∈ body, m.Outlined := by
        simpa [children, parts] using ih
      simp [outline, bodyOutline, test _, length_listOutline inner, children, parts, hasBody,
        absentParts, Function.comp_def]
      omega
    | loop init condition step body =>
      obtain ⟨first, second, third, inner⟩ : (∀ m ∈ init, m.Outlined) ∧
          (∀ m ∈ condition, m.Outlined) ∧ (∀ m ∈ step, m.Outlined) ∧ ∀ m ∈ body, m.Outlined := by
        simpa [children, parts, or_imp, forall_and] using ih
      simp [outline, bodyOutline, length_partOutline first, length_partOutline second,
        length_partOutline third, length_listOutline inner, children, parts, hasBody, absentParts,
        Function.comp_def]
      omega
    | binding _ value | assignment _ value | result value | unary _ value =>
      have inner : value.Outlined := by simpa [children, parts] using ih
      simp [outline, inner _, children, parts, hasBody, absentParts, Nat.add_comm]
    | enumeration | jump | leaf => rfl
    | access of keys =>
      obtain ⟨first, others⟩ : of.Outlined ∧ ∀ m ∈ keys, m.Outlined := by
        simpa [children, parts] using ih
      simp [outline, first _, length_listOutline others, children, parts, hasBody, absentParts,
        Function.comp_def]
      omega
    | binary _ left right =>
      obtain ⟨front, back⟩ : left.Outlined ∧ right.Outlined := by simpa [children, parts] using ih
      simp [outline, front _, back _, children, parts, hasBody, absentParts]
      omega

end Outlines

end Node

theorem OutlineLine.length_drawAll (lines : List OutlineLine) :
    (drawAll lines).1.length = lines.length := by
  induction lines with
  | nil => rfl
  | cons line lines ih => exact congrArg (· + 1) ih

namespace Program

theorem countAll?_walk (p : Program) :
    Tally.countAll? ⟨0, 0, 0⟩ p.walk = some ⟨p.nodes.length, Node.listHeight p.statements, 0⟩ := by
  have each : ∀ n ∈ p.statements, n.Counted := fun n _ => n.counted
  have counted := Node.countAll?_listWalk (t := ⟨0, 0, 0⟩) each (Nat.le_refl 0)
  simp only [Tally.behind, Nat.zero_add, Nat.zero_max] at counted
  exact counted

theorem length_treeLines (p : Program) : p.treeLines.length = 1 + Node.lineCount p.nodes := by
  rw [treeLines, List.length_cons, OutlineLine.length_drawAll, outline,
    Node.length_listOutline fun n _ => n.outlined, Nat.add_comm]
  rfl

end Program

/-- The statistics are the number of nodes, the number of top level statements and the length of the
longest descent. The depth never underflows and ends at zero. For a parsed program the outline has
one line for the program, each node, each body and each absent part. -/
theorem stats_exact (p : Program) :
    p.stats.nodes = p.nodes.length ∧
      p.stats.statements = p.statements.length ∧
      IsGreatest {k | ∃ ns, p.Descent ns ∧ ns.length = k} p.stats.depth ∧
      (∀ front back, p.walk = front ++ .leave :: back →
        0 < (front.foldl Tally.count ⟨0, 0, 0⟩).current) ∧
      (p.walk.foldl Tally.count ⟨0, 0, 0⟩).current = 0 ∧
      ∀ source, parseSource source = .ok p →
        ∃ ls : List String, p.tree = String.join (ls.map (· ++ "\n")) ∧
          (∀ l ∈ ls, '\n' ∉ l.toList) ∧
          ls.length = 1 + p.stats.nodes + p.nodes.countP Node.hasBody +
            (p.nodes.map Node.absentParts).sum := by
  have counted := p.countAll?_walk
  have tally := Tally.foldl_of_countAll? counted
  have nodes : p.stats.nodes = p.nodes.length := congrArg Tally.nodes tally
  have depth : p.stats.depth = Node.listHeight p.statements := congrArg Tally.depth tally
  refine ⟨nodes, rfl, depth ▸ p.isGreatest_listHeight, ?_, congrArg Tally.current tally, ?_⟩
  · intro front back split
    rw [split] at counted
    exact Tally.current_pos counted
  · intro source parsed
    refine ⟨p.treeLines, rfl, Program.newline_not_mem_treeLines parsed, ?_⟩
    rw [p.length_treeLines, Node.lineCount, nodes]
    omega

/-- A loop with an empty header shows three absent parts and its body. -/
theorem stats_exact_loop :
    let a : Token := ⟨.symbol, .text "a", 1, 9, 1⟩
    let p : Program := ⟨[.loop none none none [.leaf a]]⟩
    parseSource (.ofContent "for[;;][a]") = .ok p ∧ p.stats = ⟨1, 2, 2⟩ ∧
      ∃ ls : List String, p.tree = String.join (ls.map (· ++ "\n")) ∧
        (∀ l ∈ ls, '\n' ∉ l.toList) ∧ ls.length = 7 := by
  intro a p
  have start : Scanner.ofSource (.ofContent "for[;;][a]") =
      ⟨['f', 'o', 'r', '[', ';', ';', ']', '[', 'a', ']'], 0, ⟨1, 1⟩⟩ := by cbv
  have scanned : (Scanner.ofSource (.ofContent "for[;;][a]")).Reads
      [⟨.forWord, .text "for", 1, 1, 3⟩, ⟨.leftBracket, .text "[", 1, 4, 1⟩,
        ⟨.semicolon, .text ";", 1, 5, 1⟩, ⟨.semicolon, .text ";", 1, 6, 1⟩,
        ⟨.rightBracket, .text "]", 1, 7, 1⟩, ⟨.leftBracket, .text "[", 1, 8, 1⟩, a,
        ⟨.rightBracket, .text "]", 1, 10, 1⟩] := by
    rw [start]
    iterate 8 refine .cons .none rfl rfl (by decide) rfl ?_
    exact .finish .none
  have parsed : parseSource (.ofContent "for[;;][a]") = .ok p :=
    parseSource_eq_ok_iff.mpr ⟨_, Scanner.tokens_eq_ok_iff.mpr scanned, rfl⟩
  have stats : p.stats = ⟨1, 2, 2⟩ := by rfl
  have nodes : p.nodes = [.loop none none none [.leaf a], .leaf a] := by
    simp [p, Program.nodes, Node.nodes_eq, Node.children, Node.parts]
  obtain ⟨_, _, _, _, _, listed⟩ := stats_exact p
  obtain ⟨ls, tree, free, length⟩ := listed _ parsed
  refine ⟨parsed, stats, ls, tree, free, ?_⟩
  rw [length, stats, nodes]
  rfl

end BracketScript
