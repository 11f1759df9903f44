import BracketScript.Node.Outline
import BracketScript.Proofs.Escapes

/-! A drawn outline is read back line by line. Left of every branch stand as many blocks of four
columns as the line is deep, each of which starts with a bar or a space; a branch starts with
neither, so the depth and the label of a line are told from its text. -/
namespace BracketScript
open Text (append_mark_inj)

/-- Lines without breaks are determined by their concatenation with breaks. -/
theorem join_lines_inj {ls ls' : List String} (free : ∀ l ∈ ls, '\n' ∉ l.toList)
    (free' : ∀ l ∈ ls', '\n' ∉ l.toList)
    (same : String.join (ls.map (· ++ "\n")) = String.join (ls'.map (· ++ "\n"))) : ls = ls' := by
  induction ls generalizing ls' with
  | nil =>
    cases ls' with
    | nil => rfl
    | cons l ls' =>
      have inside := congrArg String.toList same
      simp [String.join_cons] at inside
  | cons l ls ih =>
    cases ls' with
    | nil =>
      have inside := congrArg String.toList same
      simp [String.join_cons] at inside
    | cons l' ls' =>
      obtain ⟨first, others⟩ := List.forall_mem_cons.mp free
      obtain ⟨first', others'⟩ := List.forall_mem_cons.mp free'
      have inside := congrArg String.toList same
      simp only [List.map_cons, String.join_cons, String.toList_append, List.append_assoc] at inside
      obtain ⟨text, further⟩ := append_mark_inj first first' inside
      rw [String.toList_inj.mp text, ih others others' (String.toList_inj.mp further)]

namespace OutlineLine

/-- A row of blocks of columns, each with or without a bar. -/
inductive IsMargin : Nat → List Char → Prop where
  | nil : IsMargin 0 []
  | block {bar : Char} {depth : Nat} {cs : List Char} : bar = '│' ∨ bar = ' ' →
      IsMargin depth cs → IsMargin (depth + 1) (bar :: ' ' :: ' ' :: ' ' :: cs)

theorem isMargin_margin (below : List Bool) (depth : Nat) :
    IsMargin depth (margin below depth).toList := by
  have blocks (ds : List Nat) : IsMargin ds.length (String.join
      (ds.map fun d => if below.getD d false then "│   " else "    ")).toList := by
    induction ds with
    | nil => exact .nil
    | cons d ds ih =>
      rw [List.map_cons, String.join_cons, String.toList_append]
      split
      · exact .block (.inl rfl) ih
      · exact .block (.inr rfl) ih
  have all := blocks (List.range depth)
  rwa [List.length_range] at all

/-- A margin and what follows it can be recovered from their concatenation, because no margin holds
a turn. -/
theorem IsMargin.append_inj {depth depth' : Nat} {left left' cs cs' : List Char}
    {branch branch' : Char}
    (first : IsMargin depth left) (second : IsMargin depth' left')
    (starts : branch = '├' ∨ branch = '└') (starts' : branch' = '├' ∨ branch' = '└')
    (same : left ++ branch :: cs = left' ++ branch' :: cs') : depth = depth' ∧ cs = cs' := by
  have apart {bar branch : Char} (left : bar = '│' ∨ bar = ' ')
      (starts : branch = '├' ∨ branch = '└') : bar ≠ branch := by
    rcases left with rfl | rfl <;> rcases starts with rfl | rfl <;> decide
  induction first generalizing depth' left' with
  | nil =>
    cases second with
    | nil => exact ⟨rfl, (List.cons.inj same).2⟩
    | block bar => exact absurd (List.cons.inj same).1.symm (apart bar starts)
  | block bar _ ih =>
    cases second with
    | nil => exact absurd (List.cons.inj same).1 (apart bar starts')
    | block _ second =>
      simp only [List.cons_append, List.cons.injEq, true_and] at same
      obtain ⟨rfl, rfl⟩ := ih second same.2
      exact ⟨rfl, rfl⟩

variable {line line' : OutlineLine} {below below' : List Bool}

theorem toList_draw (line : OutlineLine) (below : List Bool) :
    ∃ branch, (branch = '├' ∨ branch = '└') ∧ (line.draw below).toList =
      (margin below line.depth).toList ++ branch :: (['─', '─', ' '] ++ line.label.toList) := by
  rw [draw, String.toList_append, String.toList_append, List.append_assoc]
  split
  · exact ⟨'├', .inl rfl, rfl⟩
  · exact ⟨'└', .inr rfl, rfl⟩

/-- A drawn line determines its depth and its label, whatever flags it was drawn with. -/
theorem draw_inj (same : line.draw below = line'.draw below') : line = line' := by
  obtain ⟨branch, starts, text⟩ := toList_draw line below
  obtain ⟨branch', starts', text'⟩ := toList_draw line' below'
  have inside := congrArg String.toList same
  rw [text, text'] at inside
  obtain ⟨depths, labels⟩ :=
    (isMargin_margin below _).append_inj (isMargin_margin below' _) starts starts' inside
  rw [List.append_cancel_left_eq] at labels
  obtain ⟨depth, label⟩ := line
  obtain ⟨depth', label'⟩ := line'
  rw [mk.injEq]
  exact ⟨depths, String.toList_inj.mp labels⟩

theorem drawAll_inj {lines lines' : List OutlineLine}
    (same : (drawAll lines).1 = (drawAll lines').1) : lines = lines' := by
  induction lines generalizing lines' with
  | nil =>
    cases lines' with
    | nil => rfl
    | cons line' lines' => cases same
  | cons line lines ih =>
    cases lines' with
    | nil => cases same
    | cons line' lines' =>
      obtain ⟨first, others⟩ := List.cons.inj same
      rw [draw_inj first, ih others]

theorem IsMargin.not_mem {depth : Nat} {cs : List Char} (left : IsMargin depth cs) : '\n' ∉ cs := by
  induction left with
  | nil => simp
  | block bar _ ih => rcases bar with rfl | rfl <;> simp [ih]

theorem newline_not_mem_draw (plain : '\n' ∉ line.label.toList) :
    '\n' ∉ (line.draw below).toList := by
  obtain ⟨branch, starts, text⟩ := toList_draw line below
  have left := (isMargin_margin below line.depth).not_mem
  rw [text]
  rcases starts with rfl | rfl <;> simp [left, plain]

/-- Every drawn line is the drawing of a line of the outline. -/
theorem exists_draw_of_mem {lines : List OutlineLine} {text : String}
    (drawn : text ∈ (drawAll lines).1) : ∃ line ∈ lines, ∃ below, text = line.draw below := by
  induction lines with
  | nil => cases drawn
  | cons line lines ih =>
    rcases List.mem_cons.mp drawn with rfl | drawn
    · exact ⟨line, List.mem_cons_self, _, rfl⟩
    · obtain ⟨line', member, shown⟩ := ih drawn
      exact ⟨line', List.mem_cons_of_mem _ member, shown⟩

theorem newline_not_mem_drawAll {lines : List OutlineLine}
    (plain : ∀ line ∈ lines, '\n' ∉ line.label.toList) :
    ∀ text ∈ (drawAll lines).1, '\n' ∉ text.toList := by
  intro text drawn
  obtain ⟨line, member, below, rfl⟩ := exists_draw_of_mem drawn
  exact newline_not_mem_draw (plain line member)

/-- The drawing is injective on outlines whose labels hold no line break. -/
theorem join_drawAll_inj {title : String} {lines lines' : List OutlineLine}
    (head : '\n' ∉ title.toList) (plain : ∀ line ∈ lines, '\n' ∉ line.label.toList)
    (plain' : ∀ line ∈ lines', '\n' ∉ line.label.toList)
    (same : String.join ((title :: (drawAll lines).1).map (· ++ "\n")) =
      String.join ((title :: (drawAll lines').1).map (· ++ "\n"))) : lines = lines' := by
  have drawn := join_lines_inj (List.forall_mem_cons.mpr ⟨head, newline_not_mem_drawAll plain⟩)
    (List.forall_mem_cons.mpr ⟨head, newline_not_mem_drawAll plain'⟩) same
  exact drawAll_inj (List.cons.inj drawn).2

end OutlineLine

end BracketScript
