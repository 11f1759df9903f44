import BracketScript.Proofs.Drawing
import BracketScript.Proofs.Labels
import BracketScript.Proofs.Relabelling

/-! An outline determines the program, but for the places of its tokens. The lines below a node
are deeper than it, so the lines of one node are told from those behind it; and the label of a node
tells what it is and holds, so its parts are read off the lines below it in turn. -/
namespace BracketScript

def Token.placeless (t : Token) : Token := { t with line := 0, col := 0, width := 0 }

namespace Node

def placeless : Tree → Tree := map id Token.placeless

def listPlaceless : List Tree → List Tree := listMap id Token.placeless

def optionPlaceless : Option Tree → Option Tree := optionMap id Token.placeless

end Node

def Program.placeless (p : Program) : Program := ⟨Node.listPlaceless p.statements⟩

theorem Token.placeless_inj {t u : Token} (kinds : t.kind = u.kind)
    (payloads : t.payload = u.payload) : t.placeless = u.placeless := by
  rw [placeless, placeless, kinds, payloads]

/-- There are no lines, or the first is at a lesser depth. -/
def EndsBefore (depth : Nat) (lines : List OutlineLine) : Prop :=
  ∀ line ∈ lines.head?, line.depth < depth

theorem EndsBefore.mono {depth depth' : Nat} {lines : List OutlineLine}
    (ends : EndsBefore depth lines) (le : depth ≤ depth') : EndsBefore depth' lines :=
  fun line first => Nat.lt_of_lt_of_le (ends line first) le

namespace Node

theorem outline_cons (n : Tree) (depth : Nat) :
    ∃ below, n.outline depth = ⟨depth, n.label⟩ :: below := by
  cases n <;> exact ⟨_, rfl⟩

theorem endsBefore_outline (n : Tree) (depth : Nat) (rest : List OutlineLine) :
    EndsBefore (depth + 1) (n.outline depth ++ rest) := by
  obtain ⟨below, lines⟩ := n.outline_cons depth
  rw [lines]
  rintro line ⟨⟩
  exact Nat.lt_succ_self depth

theorem endsBefore_listOutline (ns : List Tree) {depth : Nat} {rest : List OutlineLine}
    (ends : EndsBefore depth rest) : EndsBefore (depth + 1) (listOutline depth ns ++ rest) := by
  cases ns with
  | nil => exact ends.mono (Nat.le_succ depth)
  | cons n ns =>
    rw [listOutline, List.append_assoc]
    exact n.endsBefore_outline depth _

theorem endsBefore_partOutline (part : Option Tree) (depth : Nat) (rest : List OutlineLine) :
    EndsBefore (depth + 1) (partOutline depth part ++ rest) := by
  cases part with
  | none =>
    rintro line ⟨⟩
    exact Nat.lt_succ_self depth
  | some n => exact n.endsBefore_outline depth rest

theorem endsBefore_bodyOutline (depth : Nat) (inner rest : List OutlineLine) :
    EndsBefore (depth + 1) (bodyOutline depth inner ++ rest) := by
  rintro line ⟨⟩
  exact Nat.lt_succ_self depth

/-- The first line of a node determines its construct and its detail. -/
theorem heading_inj {n m : Tree} {depth : Nat} {rest rest' : List OutlineLine}
    (legible : n.Legible) (legible' : m.Legible)
    (same : n.outline depth ++ rest = m.outline depth ++ rest') :
    n.construct = m.construct ∧ n.detail = m.detail := by
  obtain ⟨below, lines⟩ := n.outline_cons depth
  obtain ⟨below', lines'⟩ := m.outline_cons depth
  rw [lines, lines'] at same
  exact label_inj legible legible' (OutlineLine.mk.inj (List.cons.inj same).1).2

mutual

theorem outline_inj (n : Tree) {m : Tree} {depth : Nat} {rest rest' : List OutlineLine}
    (legible : n.Legible) (legible' : m.Legible) (ends : EndsBefore (depth + 1) rest)
    (ends' : EndsBefore (depth + 1) rest')
    (same : n.outline depth ++ rest = m.outline depth ++ rest') :
    n.placeless = m.placeless ∧ rest = rest' := by
  -- The first line settles the construct. Below it the lines of a part end where the next part
  -- starts, or the rest, neither of which lies as deep as what is below the part.
  obtain ⟨construct, detail⟩ := heading_inj legible legible' same
  have deeper := ends.mono (Nat.le_succ _)
  have deeper' := ends'.mono (Nat.le_succ _)
  cases n with
  | block body =>
    cases m with
    | block body' =>
      obtain ⟨bodies, rfl⟩ :=
        listOutline_inj body legible legible' ends ends' (List.cons.inj same).2
      exact ⟨congrArg Node.block bodies, rfl⟩
    | _ => cases construct
  | function name parameters body =>
    cases m with
    | function name' parameters' body' =>
      simp only [outline, bodyOutline, List.cons_append, List.cons.injEq] at same
      obtain ⟨names, legible⟩ := List.forall_mem_append.mp legible
      obtain ⟨names', legible'⟩ := List.forall_mem_append.mp legible'
      obtain ⟨bodies, rfl⟩ := listOutline_inj body legible legible' deeper deeper' same.2.2
      obtain ⟨rfl, rfl⟩ := functionDetail_inj names names' detail
      exact ⟨congrArg (Node.function _ _) bodies, rfl⟩
    | _ => cases construct
  | lambda parameters body =>
    cases m with
    | lambda parameters' body' =>
      simp only [outline, bodyOutline, List.cons_append, List.cons.injEq] at same
      obtain ⟨names, legible⟩ := List.forall_mem_append.mp legible
      obtain ⟨names', legible'⟩ := List.forall_mem_append.mp legible'
      obtain ⟨bodies, rfl⟩ := listOutline_inj body legible legible' deeper deeper' same.2.2
      obtain rfl := namesDetail_inj names names' detail
      exact ⟨congrArg (Node.lambda _) bodies, rfl⟩
    | _ => cases construct
  | guarded guard condition body =>
    cases m with
    | guarded guard' condition' body' =>
      simp only [outline, List.cons_append, List.append_assoc, List.cons.injEq] at same
      obtain ⟨test, legible⟩ := List.forall_mem_append.mp legible
      obtain ⟨test', legible'⟩ := List.forall_mem_append.mp legible'
      obtain ⟨conditions, behind⟩ := outline_inj condition test test'
        (endsBefore_bodyOutline _ _ _) (endsBefore_bodyOutline _ _ _) same.2
      obtain ⟨bodies, rfl⟩ :=
        listOutline_inj body legible legible' deeper deeper' (List.cons.inj behind).2
      obtain rfl := Construct.guarded.inj construct
      exact ⟨congrArg₂ (Node.guarded _) conditions bodies, rfl⟩
    | _ => cases construct
  | loop init condition step body =>
    cases m with
    | loop init' condition' step' body' =>
      simp only [outline, List.cons_append, List.append_assoc, List.cons.injEq] at same
      obtain ⟨parts, legible⟩ := List.forall_mem_append.mp legible
      obtain ⟨parts', legible'⟩ := List.forall_mem_append.mp legible'
      obtain ⟨parts, third⟩ := List.forall_mem_append.mp parts
      obtain ⟨parts', third'⟩ := List.forall_mem_append.mp parts'
      obtain ⟨first, second⟩ := List.forall_mem_append.mp parts
      obtain ⟨first', second'⟩ := List.forall_mem_append.mp parts'
      obtain ⟨inits, behind⟩ := partOutline_inj init first first'
        (endsBefore_partOutline _ _ _) (endsBefore_partOutline _ _ _) same.2
      obtain ⟨conditions, behind⟩ := partOutline_inj condition second second'
        (endsBefore_partOutline _ _ _) (endsBefore_partOutline _ _ _) behind
      obtain ⟨steps, behind⟩ := partOutline_inj step third third'
        (endsBefore_bodyOutline _ _ _) (endsBefore_bodyOutline _ _ _) behind
      obtain ⟨bodies, rfl⟩ :=
        listOutline_inj body legible legible' deeper deeper' (List.cons.inj behind).2
      refine ⟨?_, rfl⟩
      change Node.loop (optionPlaceless init) (optionPlaceless condition) (optionPlaceless step)
        (listPlaceless body) = _
      rw [inits, conditions, steps, bodies]
      rfl
    | _ => cases construct
  | binding name value =>
    cases m with
    | binding name' value' =>
      obtain ⟨_, legible⟩ := List.forall_mem_cons.mp legible
      obtain ⟨_, legible'⟩ := List.forall_mem_cons.mp legible'
      obtain ⟨values, rfl⟩ :=
        outline_inj value legible legible' deeper deeper' (List.cons.inj same).2
      obtain rfl : name = name' := (String.append_right_inj _).mp detail
      exact ⟨congrArg (Node.binding name) values, rfl⟩
    | _ => cases construct
  | assignment target value =>
    cases m with
    | assignment target' value' =>
      obtain ⟨⟨symbol, spelled⟩, legible⟩ := List.forall_mem_cons.mp legible
      obtain ⟨⟨symbol', spelled'⟩, legible'⟩ := List.forall_mem_cons.mp legible'
      obtain ⟨values, rfl⟩ :=
        outline_inj value legible legible' deeper deeper' (List.cons.inj same).2
      have kinds : target.kind = target'.kind := symbol.trans symbol'.symm
      have targets := Token.placeless_inj kinds
        (Token.display_inj spelled spelled' kinds ((String.append_right_inj _).mp detail))
      exact ⟨congrArg₂ Node.assignment targets values, rfl⟩
    | _ => cases construct
  | enumeration names =>
    cases m with
    | enumeration names' =>
      obtain rfl := namesDetail_inj legible legible' detail
      exact ⟨rfl, (List.cons.inj same).2⟩
    | _ => cases construct
  | result value =>
    cases m with
    | result value' =>
      obtain ⟨values, rfl⟩ :=
        outline_inj value (m := value') legible legible' deeper deeper' (List.cons.inj same).2
      exact ⟨congrArg Node.result values, rfl⟩
    | _ => cases construct
  | jump j =>
    cases m with
    | jump j' =>
      obtain rfl := Construct.jump.inj construct
      exact ⟨rfl, (List.cons.inj same).2⟩
    | _ => cases construct
  | list elements =>
    cases m with
    | list elements' =>
      obtain ⟨inner, rfl⟩ :=
        listOutline_inj elements legible legible' ends ends' (List.cons.inj same).2
      exact ⟨congrArg Node.list inner, rfl⟩
    | _ => cases construct
  | access of keys =>
    cases m with
    | access of' keys' =>
      simp only [outline, List.cons_append, List.append_assoc, List.cons.injEq] at same
      obtain ⟨first, others⟩ := List.forall_mem_append.mp legible
      obtain ⟨first', others'⟩ := List.forall_mem_append.mp legible'
      obtain ⟨accessed, behind⟩ := outline_inj of first first'
        (endsBefore_listOutline _ ends) (endsBefore_listOutline _ ends') same.2
      obtain ⟨inner, rfl⟩ := listOutline_inj keys others others' ends ends' behind
      exact ⟨congrArg₂ Node.access accessed inner, rfl⟩
    | _ => cases construct
  | unary op operand =>
    cases m with
    | unary op' operand' =>
      obtain ⟨operands, rfl⟩ :=
        outline_inj operand (m := operand') legible legible' deeper deeper' (List.cons.inj same).2
      obtain rfl := Construct.unary.inj construct
      exact ⟨congrArg (Node.unary op) operands, rfl⟩
    | _ => cases construct
  | binary op left right =>
    cases m with
    | binary op' left' right' =>
      simp only [outline, List.cons_append, List.append_assoc, List.cons.injEq] at same
      obtain ⟨first, second⟩ := List.forall_mem_append.mp legible
      obtain ⟨first', second'⟩ := List.forall_mem_append.mp legible'
      obtain ⟨lefts, behind⟩ := outline_inj left first first'
        (endsBefore_outline _ _ _) (endsBefore_outline _ _ _) same.2
      obtain ⟨rights, rfl⟩ := outline_inj right second second' deeper deeper' behind
      obtain rfl := Construct.binary.inj construct
      exact ⟨congrArg₂ (Node.binary op) lefts rights, rfl⟩
    | _ => cases construct
  | leaf token =>
    cases m with
    | leaf token' =>
      obtain ⟨leaf, spelled⟩ := legible (.literal token) List.mem_cons_self
      obtain ⟨_, spelled'⟩ := legible' (.literal token') List.mem_cons_self
      have kinds := Construct.leaf.inj construct
      have payloads := Token.payload_inj spelled spelled' leaf kinds detail
      have tokens := Token.placeless_inj kinds payloads
      exact ⟨congrArg Node.leaf tokens, (List.cons.inj same).2⟩
    | _ => cases construct
termination_by structural n

theorem listOutline_inj (ns : List Tree) {ms : List Tree} {depth : Nat}
    {rest rest' : List OutlineLine} (legible : ∀ m ∈ listMentions ns, m.Legible)
    (legible' : ∀ m ∈ listMentions ms, m.Legible) (ends : EndsBefore depth rest)
    (ends' : EndsBefore depth rest')
    (same : listOutline depth ns ++ rest = listOutline depth ms ++ rest') :
    listPlaceless ns = listPlaceless ms ∧ rest = rest' := by
  cases ns with
  | nil =>
    cases ms with
    | nil => exact ⟨rfl, same⟩
    | cons m ms =>
      obtain ⟨below, lines⟩ := m.outline_cons depth
      rw [listOutline, List.nil_append, listOutline, lines] at same
      rw [same] at ends
      exact absurd (ends _ rfl) (Nat.lt_irrefl _)
  | cons n ns =>
    cases ms with
    | nil =>
      obtain ⟨below, lines⟩ := n.outline_cons depth
      rw [listOutline, listOutline, List.nil_append, lines] at same
      rw [← same] at ends'
      exact absurd (ends' _ rfl) (Nat.lt_irrefl _)
    | cons m ms =>
      simp only [listOutline, List.append_assoc] at same
      obtain ⟨first, others⟩ := List.forall_mem_append.mp legible
      obtain ⟨first', others'⟩ := List.forall_mem_append.mp legible'
      obtain ⟨heads, behind⟩ := outline_inj n first first'
        (endsBefore_listOutline _ ends) (endsBefore_listOutline _ ends') same
      obtain ⟨tails, rfl⟩ := listOutline_inj ns others others' ends ends' behind
      exact ⟨congrArg₂ List.cons heads tails, rfl⟩
termination_by structural ns

theorem partOutline_inj (part : Option Tree) {part' : Option Tree} {depth : Nat}
    {rest rest' : List OutlineLine} (legible : ∀ m ∈ optionMentions part, m.Legible)
    (legible' : ∀ m ∈ optionMentions part', m.Legible) (ends : EndsBefore (depth + 1) rest)
    (ends' : EndsBefore (depth + 1) rest')
    (same : partOutline depth part ++ rest = partOutline depth part' ++ rest') :
    optionPlaceless part = optionPlaceless part' ∧ rest = rest' := by
  cases part with
  | none =>
    cases part' with
    | none => exact ⟨rfl, (List.cons.inj same).2⟩
    | some m =>
      obtain ⟨below, lines⟩ := m.outline_cons depth
      rw [partOutline, partOutline, lines] at same
      have labels := (OutlineLine.mk.inj (List.cons.inj same).1).2
      exact absurd labels.symm (label_ne_absent legible')
  | some n =>
    cases part' with
    | none =>
      obtain ⟨below, lines⟩ := n.outline_cons depth
      rw [partOutline, partOutline, lines] at same
      have labels := (OutlineLine.mk.inj (List.cons.inj same).1).2
      exact absurd labels (label_ne_absent legible)
    | some m =>
      obtain ⟨nodes, rfl⟩ := outline_inj n legible legible' ends ends' same
      exact ⟨congrArg some nodes, rfl⟩
termination_by structural part

end

def Labelled (P : String → Prop) (lines : List OutlineLine) : Prop := ∀ line ∈ lines, P line.label

/-- The property holds of the labels of legible nodes, of bodies and of absent parts. -/
structure HoldsOfLabels (P : String → Prop) : Prop where
  node : ∀ n : Tree, n.Legible → P n.label
  body : P "block"
  absent : P "(none)"

section Labelled

variable {P : String → Prop}

theorem Labelled.cons {depth : Nat} {label : String} {lines : List OutlineLine} (own : P label)
    (labelled : Labelled P lines) : Labelled P (⟨depth, label⟩ :: lines) :=
  List.forall_mem_cons.mpr ⟨own, labelled⟩

theorem Labelled.append {front back : List OutlineLine} (first : Labelled P front)
    (second : Labelled P back) : Labelled P (front ++ back) :=
  List.forall_mem_append.mpr ⟨first, second⟩

mutual

/-- A property of all labels of legible nodes holds throughout an outline. -/
theorem outline_labelled (holds : HoldsOfLabels P) (n : Tree) (legible : n.Legible)
    (depth : Nat) : Labelled P (n.outline depth) := by
  have own := holds.node n legible
  rw [outline.eq_def]
  cases n with
  | block body =>
    have inner := listOutline_labelled holds body legible (depth + 1)
    exact inner.cons holds.body
  | function _ _ body | lambda _ body =>
    have inner := listOutline_labelled holds body (List.forall_mem_append.mp legible).2 (depth + 2)
    exact (inner.cons holds.body).cons own
  | guarded _ condition body =>
    obtain ⟨first, others⟩ := List.forall_mem_append.mp legible
    have test := outline_labelled holds condition first (depth + 1)
    have inner := listOutline_labelled holds body others (depth + 2)
    exact (test.cons own).append (inner.cons holds.body)
  | loop init condition step body =>
    obtain ⟨parts, others⟩ := List.forall_mem_append.mp legible
    obtain ⟨parts, third⟩ := List.forall_mem_append.mp parts
    obtain ⟨first, second⟩ := List.forall_mem_append.mp parts
    have inits := partOutline_labelled holds init first (depth + 1)
    have conditions := partOutline_labelled holds condition second (depth + 1)
    have steps := partOutline_labelled holds step third (depth + 1)
    have inner := listOutline_labelled holds body others (depth + 2)
    exact (((inits.cons own).append conditions).append steps).append (inner.cons holds.body)
  | binding _ value | assignment _ value =>
    have inner := outline_labelled holds value (List.forall_mem_cons.mp legible).2 (depth + 1)
    exact inner.cons own
  | result value | unary _ value =>
    have inner := outline_labelled holds value legible (depth + 1)
    exact inner.cons own
  | enumeration | jump | leaf => exact List.forall_mem_singleton.mpr own
  | list elements =>
    have inner := listOutline_labelled holds elements legible (depth + 1)
    exact inner.cons own
  | access of keys =>
    obtain ⟨first, others⟩ := List.forall_mem_append.mp legible
    have accessed := outline_labelled holds of first (depth + 1)
    have inner := listOutline_labelled holds keys others (depth + 1)
    exact (accessed.cons own).append inner
  | binary _ left right =>
    obtain ⟨first, second⟩ := List.forall_mem_append.mp legible
    have lefts := outline_labelled holds left first (depth + 1)
    have rights := outline_labelled holds right second (depth + 1)
    exact (lefts.cons own).append rights
termination_by structural n

theorem listOutline_labelled (holds : HoldsOfLabels P) (ns : List Tree)
    (legible : ∀ m ∈ listMentions ns, m.Legible) (depth : Nat) :
    Labelled P (listOutline depth ns) := by
  cases ns with
  | nil => exact List.forall_mem_nil _
  | cons n ns =>
    obtain ⟨first, others⟩ := List.forall_mem_append.mp legible
    have heads := outline_labelled holds n first depth
    rw [listOutline]
    exact heads.append (listOutline_labelled holds ns others depth)
termination_by structural ns

theorem partOutline_labelled (holds : HoldsOfLabels P) (part : Option Tree)
    (legible : ∀ m ∈ optionMentions part, m.Legible) (depth : Nat) :
    Labelled P (partOutline depth part) := by
  cases part with
  | none => exact List.forall_mem_singleton.mpr holds.absent
  | some n => exact outline_labelled holds n legible depth
termination_by structural part

end

end Labelled

/-- No label of a legible program holds a line break. -/
theorem isPlain_listOutline (ns : List Tree) (legible : ∀ m ∈ listMentions ns, m.Legible)
    (depth : Nat) : ∀ line ∈ listOutline depth ns, '\n' ∉ line.label.toList := by
  have holds : HoldsOfLabels ('\n' ∉ ·.toList) :=
    ⟨fun _ => newline_not_mem_label, by decide, by decide⟩
  exact listOutline_labelled holds ns legible depth

theorem label_placeless (n : Tree) : n.placeless.label = n.label := by
  cases n <;> simp [placeless, map, label, kindName] <;> rfl

mutual

/-- Outlines do not depend on the places of tokens. -/
theorem outline_placeless (n : Tree) (depth : Nat) :
    n.placeless.outline depth = n.outline depth := by
  have own := n.label_placeless
  cases n with
  | block body =>
    rw [outline, ← listOutline_placeless body]
    rfl
  | function _ _ body | lambda _ body =>
    rw [outline, ← own, ← listOutline_placeless body]
    rfl
  | guarded _ condition body =>
    rw [outline, ← own, ← outline_placeless condition, ← listOutline_placeless body]
    rfl
  | loop init condition step body =>
    rw [outline, ← own, ← partOutline_placeless init, ← partOutline_placeless condition,
      ← partOutline_placeless step, ← listOutline_placeless body]
    rfl
  | binding _ value | assignment _ value | result value | unary _ value =>
    rw [outline, ← own, ← outline_placeless value]
    rfl
  | enumeration | jump | leaf =>
    rw [outline, ← own]
    rfl
  | list elements =>
    rw [outline, ← own, ← listOutline_placeless elements]
    rfl
  | access of keys =>
    rw [outline, ← own, ← outline_placeless of, ← listOutline_placeless keys]
    rfl
  | binary _ left right =>
    rw [outline, ← own, ← outline_placeless left, ← outline_placeless right]
    rfl
termination_by structural n

theorem listOutline_placeless (ns : List Tree) (depth : Nat) :
    listOutline depth (listPlaceless ns) = listOutline depth ns := by
  cases ns with
  | nil => rfl
  | cons n ns =>
    rw [listOutline, ← outline_placeless n depth, ← listOutline_placeless ns depth]
    rfl
termination_by structural ns

theorem partOutline_placeless (part : Option Tree) (depth : Nat) :
    partOutline depth (optionPlaceless part) = partOutline depth part := by
  cases part with
  | none => rfl
  | some n => exact outline_placeless n depth
termination_by structural part

end

end Node

namespace Program

def treeLines (p : Program) : List String := "program" :: (OutlineLine.drawAll p.outline).1

theorem newline_not_mem_treeLines {source : Source} {p : Program}
    (parsed : parseSource source = .ok p) : ∀ l ∈ p.treeLines, '\n' ∉ l.toList := by
  have plain := Node.isPlain_listOutline p.statements (p.legible parsed) 0
  exact List.forall_mem_cons.mpr ⟨by decide, OutlineLine.newline_not_mem_drawAll plain⟩

end Program

theorem Program.tree_placeless (p : Program) : p.placeless.tree = p.tree := by
  have lines : p.placeless.outline = p.outline := Node.listOutline_placeless p.statements 0
  rw [tree, lines, tree]

/-- Parsed programs have equal outlines exactly when they are equal up to line, column and width. -/
theorem tree_eq_iff {a b : Source} {p q : Program} (first : parseSource a = .ok p)
    (second : parseSource b = .ok q) : p.tree = q.tree ↔ p.placeless = q.placeless := by
  constructor
  · intro same
    have plain := Node.isPlain_listOutline p.statements (p.legible first) 0
    have plain' := Node.isPlain_listOutline q.statements (q.legible second) 0
    have lines : p.outline = q.outline :=
      OutlineLine.join_drawAll_inj (by decide +kernel) plain plain' same
    have ends : EndsBefore 0 [] := by simp [EndsBefore]
    obtain ⟨statements, _⟩ := Node.listOutline_inj p.statements (p.legible first) (q.legible second)
      ends ends (congrArg (· ++ []) lines)
    exact congrArg Program.mk statements
  · intro same
    have lines : p.placeless.tree = q.placeless.tree := congrArg Program.tree same
    rwa [Program.tree_placeless, Program.tree_placeless] at lines

/-- Blanks and trailing zeros of a fraction do not affect the outline. -/
theorem tree_eq_iff_blanks :
    let number := (Decimal.mk 15 (-1)).toNumber
    let a : Token := ⟨.symbol, .text "a", 1, 1, 1⟩
    let p : Program := ⟨[.assignment a (.leaf ⟨.num, .number number, 1, 3, 3⟩)]⟩
    let q : Program := ⟨[.assignment a (.leaf ⟨.num, .number number, 1, 4, 4⟩)]⟩
    parseSource (.ofContent "a=1.5") = .ok p ∧ parseSource (.ofContent "a= 1.50") = .ok q ∧
      p.tree = q.tree := by
  intro number a p q
  have start : Scanner.ofSource (.ofContent "a=1.5") = ⟨['a', '=', '1', '.', '5'], 0, ⟨1, 1⟩⟩ := by
    cbv
  have start' : Scanner.ofSource (.ofContent "a= 1.50") =
      ⟨['a', '=', ' ', '1', '.', '5', '0'], 0, ⟨1, 1⟩⟩ := by cbv
  have scanned : (Scanner.ofSource (.ofContent "a=1.5")).Reads
      [a, ⟨.assign, .text "=", 1, 2, 1⟩, ⟨.num, .number number, 1, 3, 3⟩] := by
    rw [start]
    refine .cons .none rfl rfl (by decide) rfl ?_
    refine .cons .none rfl rfl (by decide) rfl ?_
    exact .cons .none rfl rfl (by decide) rfl (.finish .none)
  have same : (Decimal.mk 150 (-2)).toNumber = number := by decide +kernel
  have scanned' : (Scanner.ofSource (.ofContent "a= 1.50")).Reads
      [a, ⟨.assign, .text "=", 1, 2, 1⟩, ⟨.num, .number number, 1, 4, 4⟩] := by
    rw [start', ← same]
    refine .cons .none rfl rfl (by decide) rfl ?_
    refine .cons .none rfl rfl (by decide) rfl ?_
    exact .cons (.space .none) rfl rfl (by decide) rfl (.finish .none)
  have first : parseSource (.ofContent "a=1.5") = .ok p :=
    parseSource_eq_ok_iff.mpr ⟨_, Scanner.tokens_eq_ok_iff.mpr scanned, rfl⟩
  have second : parseSource (.ofContent "a= 1.50") = .ok q :=
    parseSource_eq_ok_iff.mpr ⟨_, Scanner.tokens_eq_ok_iff.mpr scanned', rfl⟩
  exact ⟨first, second, (tree_eq_iff first second).mpr rfl⟩

end BracketScript
