import BracketScript.Json
import BracketScript.Proofs.Labels
import BracketScript.Proofs.Scientific

/-! The text of a document without spaces determines the document. A word or a number ends at the
first character that is none of its own, a string at its quotation mark and a row at its bracket, so
a document is told from what stands behind it. -/
namespace BracketScript.Json
open Text (digitChar_inj)

section Strings

def shortEscapes : List (Char × Char) :=
  [('"', '"'), ('\\', '\\'), ('\x08', 'b'), ('\t', 't'), ('\n', 'n'), ('\x0c', 'f'), ('\r', 'r')]

theorem escapeChar_cases (c : Char) :
    (escapeChar c = [c] ∧ c ≠ '\\' ∧ c ≠ '"') ∨
      (∃ k, escapeChar c = ['\\', k] ∧ (c, k) ∈ shortEscapes) ∨
      (escapeChar c = controlEscape c ∧ c.toNat < 0x20) := by
  unfold escapeChar
  split_ifs with marked back tab newline feed carriage control
  · refine .inr (.inl ⟨c, rfl, ?_⟩)
    rcases marked with rfl | rfl <;> decide
  · exact .inr (.inl ⟨'b', rfl, by simp [shortEscapes, back]⟩)
  · exact .inr (.inl ⟨'t', rfl, by simp [shortEscapes, tab]⟩)
  · exact .inr (.inl ⟨'n', rfl, by simp [shortEscapes, newline]⟩)
  · exact .inr (.inl ⟨'f', rfl, by simp [shortEscapes, feed]⟩)
  · exact .inr (.inl ⟨'r', rfl, by simp [shortEscapes, carriage]⟩)
  · exact .inr (.inr ⟨rfl, control⟩)
  · exact .inl ⟨rfl, fun backslash => marked (.inr backslash), fun mark => marked (.inl mark)⟩

theorem isEscaping_escapeChar :
    Text.IsEscaping '"' escapeChar shortEscapes fun c more => c.toNat < 0x20 ∧
      more = ['0', '0', Nat.digitChar (c.toNat / 16), Nat.digitChar (c.toNat % 16)] where
  mark_ne := by decide
  cases c := by
    rcases escapeChar_cases c with own | short | ⟨own, control⟩
    · exact .inl own
    · exact .inr (.inl short)
    · exact .inr (.inr ⟨_, own, control, rfl⟩)
  distinct := by decide
  other := by decide
  long_inj := by
    rintro c d _ _ back back' ⟨control, rfl⟩ ⟨control', rfl⟩ same
    simp only [List.cons_append, List.nil_append, List.cons.injEq, true_and] at same
    obtain ⟨high, low, rest⟩ := same
    have high := digitChar_inj (by omega) (by omega) high
    have low := digitChar_inj (by omega) (by omega) low
    exact ⟨Char.toNat_inj.mp (by omega), rest⟩

theorem toList_quote (s : String) :
    (quote s).toList = '"' :: (s.toList.flatMap escapeChar ++ ['"']) := by
  rw [quote, String.toList_ofList, List.cons_append]

/-- A quoted string determines itself and what follows it. -/
theorem quote_append_inj {s t : String} {back back' : List Char}
    (same : (quote s).toList ++ back = (quote t).toList ++ back') : s = t ∧ back = back' := by
  simp only [toList_quote, List.cons_append, List.append_assoc, List.nil_append, List.cons.injEq,
    true_and] at same
  obtain ⟨inside, rest⟩ := isEscaping_escapeChar.flatMap_inj same
  exact ⟨String.toList_inj.mp inside, rest⟩

end Strings

section Words

/-- The characters of numbers and of null. -/
def isWord (c : Char) : Bool := c.isAlphanum || c == '.' || c == '+' || c == '-'

/-- No word character follows. -/
def Stops (rest : List Char) : Prop := ∀ c ∈ rest.head?, isWord c = false

theorem Stops.cons {c : Char} (rest : List Char) (stop : isWord c = false) : Stops (c :: rest) := by
  rintro d ⟨⟩
  exact stop

theorem isWord_of_isNumeric {c : Char} (numeric : IsNumeric c) : isWord c = true := by
  rcases numeric with digit | other
  · simp [isWord, Char.isAlphanum, digit]
  · have key : ['.', 'e', '+', '-'].all isWord = true := by decide
    exact List.all_eq_true.mp key c other

theorem ne_of_isWord {c d : Char} (word : isWord c = true) (other : isWord d = false) : c ≠ d := by
  rintro rfl
  exact absurd word (Bool.eq_false_iff.mp other)

theorem takeWhile_isWord {word rest : List Char} (all : ∀ c ∈ word, isWord c = true)
    (stops : Stops rest) : (word ++ rest).takeWhile isWord = word := by
  rw [List.takeWhile_append_of_pos all]
  cases rest with
  | nil => simp
  | cons c rest => simp [stops c rfl]

def ofWord? (cs : List Char) : Option Json :=
  if cs = ['n', 'u', 'l', 'l'] then some null
  else if cs.all Char.isDigit then some (natural (Decimal.digitsValue cs))
  else (Number.ofText? cs).map number

/-- The compact text is a word, and reading the word returns the document. -/
structure ReadsBack (d : Json) : Prop where
  nonempty : d.compact.toList ≠ []
  word : ∀ c ∈ d.compact.toList, isWord c = true
  read : ofWord? d.compact.toList = some d

theorem readsBack_null : null.ReadsBack where
  nonempty := by decide
  word := List.all_eq_true.mp (by decide)
  read := rfl

theorem toList_compact_natural (value : Nat) :
    (natural value).compact.toList = Nat.toDigits 10 value := by
  rw [compact]
  exact String.toList_ofList

theorem readsBack_natural (value : Nat) : (natural value).ReadsBack := by
  have digital : ∀ c ∈ Nat.toDigits 10 value, c.isDigit = true := fun c =>
    Decimal.isDigit_of_mem_toDigits
  have other : Nat.toDigits 10 value ≠ ['n', 'u', 'l', 'l'] := fun same =>
    absurd (digital 'n' (by simp [same])) (by decide)
  have text := toList_compact_natural value
  refine ⟨?_, ?_, ?_⟩
  · rw [text]
    exact Nat.toDigits_ne_nil
  · rw [text]
    exact fun c member => isWord_of_isNumeric (.inl (digital c member))
  · rw [text, ofWord?, if_neg other, if_pos (List.all_eq_true.mpr digital),
      Decimal.digitsValue_toDigits]

theorem readsBack_number {value : Number} (finite : value.isFinite = true) :
    (number value).ReadsBack := by
  have text : (number value).compact = value.text .document := by
    rw [compact, numberText, if_pos finite]
  have numeric := value.isNumeric_of_mem_text .document finite
  obtain ⟨c, member, pointed⟩ := value.exists_mem_text (l := .document) rfl finite
  refine ⟨?_, ?_, ?_⟩
  · rw [text]
    exact List.ne_nil_of_mem member
  · rw [text]
    exact fun c member => isWord_of_isNumeric (numeric c member)
  · have other : (value.text .document).toList ≠ ['n', 'u', 'l', 'l'] := fun same => by
      have numeric := numeric 'n' (by simp [same])
      simp [IsNumeric] at numeric
    have broken : ¬(value.text .document).toList.all Char.isDigit = true := fun digital =>
      absurd (List.all_eq_true.mp digital c member) (Bool.eq_false_iff.mp pointed)
    rw [text, ofWord?, if_neg other, if_neg broken, value.ofText?_text .document finite,
      Option.map_some]

/-- A word determines its document, given that what follows is no part of it. -/
theorem ReadsBack.append_inj {d e : Json} {rest rest' : List Char} (reads : d.ReadsBack)
    (reads' : e.ReadsBack) (stops : Stops rest) (stops' : Stops rest')
    (same : d.compact.toList ++ rest = e.compact.toList ++ rest') : d = e ∧ rest = rest' := by
  have words : d.compact.toList = e.compact.toList := by
    rw [← takeWhile_isWord reads.word stops, same, takeWhile_isWord reads'.word stops']
  rw [words, List.append_cancel_left_eq] at same
  have read := reads.read
  rw [words, reads'.read] at read
  exact ⟨(Option.some.inj read).symm, same⟩

end Words

section Numbers

mutual

def numbers : Json → List Number
  | number value => [value]
  | array items => itemsNumbers items
  | object members => membersNumbers members
  | _ => []

def itemsNumbers : List Json → List Number
  | [] => []
  | item :: items => item.numbers ++ itemsNumbers items

def membersNumbers : List (String × Json) → List Number
  | [] => []
  | (_, value) :: members => value.numbers ++ membersNumbers members

end

@[simp] theorem numbers_string (value : String) : (string value).numbers = [] := rfl

@[simp] theorem numbers_array (items : List Json) :
    (array items).numbers = itemsNumbers items := rfl

@[simp] theorem numbers_object (members : List (String × Json)) :
    (object members).numbers = membersNumbers members := rfl

@[simp] theorem membersNumbers_nil : membersNumbers [] = [] := rfl

@[simp] theorem membersNumbers_cons (name : String) (value : Json)
    (members : List (String × Json)) :
    membersNumbers ((name, value) :: members) = value.numbers ++ membersNumbers members := rfl

@[simp] theorem numbers_tagged (type : String) (members : List (String × Json)) :
    (tagged type members).numbers = membersNumbers members := by
  simp [tagged]

/-- All numbers of the document are finite. -/
def IsFinite (d : Json) : Prop := ∀ n ∈ d.numbers, n.isFinite = true

theorem IsFinite.of_mem {items : List Json} (finite : (array items).IsFinite) :
    ∀ d ∈ items, d.IsFinite := by
  rw [IsFinite, numbers_array] at finite
  induction items with
  | nil => simp
  | cons item items ih =>
    obtain ⟨first, others⟩ := List.forall_mem_append.mp finite
    exact List.forall_mem_cons.mpr ⟨first, ih others⟩

theorem IsFinite.of_mem_members {members : List (String × Json)}
    (finite : (object members).IsFinite) : ∀ m ∈ members, m.2.IsFinite := by
  rw [IsFinite, numbers_object] at finite
  induction members with
  | nil => simp
  | cons member members ih =>
    obtain ⟨first, others⟩ := List.forall_mem_append.mp finite
    exact List.forall_mem_cons.mpr ⟨first, ih others⟩

end Numbers

@[simp] theorem tagged_inj {type type' : String} {members members' : List (String × Json)} :
    tagged type members = tagged type' members' ↔ type = type' ∧ members = members' := by
  simp [tagged]

section Rows

def row (left right : Char) (pieces : List (List Char)) : List Char :=
  left :: [','].intercalate pieces ++ [right]

def compactMember (member : String × Json) : List Char :=
  (quote member.1).toList ++ ':' :: member.2.compact.toList

theorem toList_compactItems (items : List Json) :
    (compactItems items).map String.toList = items.map fun d => d.compact.toList := by
  induction items with
  | nil => rfl
  | cons item items ih => rw [compactItems, List.map_cons, ih, List.map_cons]

theorem toList_compactMembers (members : List (String × Json)) :
    (compactMembers members).map String.toList = members.map compactMember := by
  induction members with
  | nil => rfl
  | cons member members ih =>
    rw [compactMembers, List.map_cons, ih, List.map_cons, compactMember]
    simp

theorem toList_compact_array (items : List Json) :
    (array items).compact.toList = row '[' ']' (items.map fun d => d.compact.toList) := by
  rw [compact, ← toList_compactItems]
  simp [row]

theorem toList_compact_object (members : List (String × Json)) :
    (object members).compact.toList = row '\x7b' '\x7d' (members.map compactMember) := by
  rw [compact, ← toList_compactMembers]
  simp [row]

variable {α : Type} {text : α → List Char} {left right : Char} {xs ys : List α}
  {rest rest' : List Char}

theorem stops_further (pieces : List (List Char)) (rest : List Char)
    (stop : isWord right = false) : Stops (pieces.flatMap ([','] ++ ·) ++ right :: rest) := by
  cases pieces with
  | nil => exact .cons rest stop
  | cons piece pieces => exact .cons _ (by decide)

/-- Pieces that are delimited one by one are delimited in a row. -/
theorem further_inj (stop : isWord right = false) (mark : right ≠ ',')
    (each : ∀ x ∈ xs, ∀ y ∈ ys, ∀ {back back' : List Char}, Stops back → Stops back' →
      text x ++ back = text y ++ back' → x = y ∧ back = back')
    (same : (xs.map text).flatMap ([','] ++ ·) ++ right :: rest =
      (ys.map text).flatMap ([','] ++ ·) ++ right :: rest') : xs = ys ∧ rest = rest' := by
  induction xs generalizing ys with
  | nil =>
    cases ys with
    | nil => exact ⟨rfl, (List.cons.inj same).2⟩
    | cons y ys => exact absurd (List.cons.inj same).1 mark
  | cons x xs ih =>
    cases ys with
    | nil => exact absurd (List.cons.inj same).1.symm mark
    | cons y ys =>
      simp only [List.map_cons, List.flatMap_cons, List.append_assoc,
        List.append_cancel_left_eq] at same
      obtain ⟨rfl, further⟩ := each x List.mem_cons_self y List.mem_cons_self
        (stops_further _ rest stop) (stops_further _ rest' stop) same
      obtain ⟨rfl, rfl⟩ := ih (fun x member y member' =>
        each x (List.mem_cons_of_mem _ member) y (List.mem_cons_of_mem _ member')) further
      exact ⟨rfl, rfl⟩

theorem row_inj (stop : isWord right = false) (mark : right ≠ ',')
    (starts : ∀ x ∈ xs ++ ys, ∃ c cs, text x = c :: cs ∧ c ≠ right)
    (each : ∀ x ∈ xs, ∀ y ∈ ys, ∀ {back back' : List Char}, Stops back → Stops back' →
      text x ++ back = text y ++ back' → x = y ∧ back = back')
    (same : row left right (xs.map text) ++ rest = row left right (ys.map text) ++ rest') :
    xs = ys ∧ rest = rest' := by
  simp only [row, List.cons_append, List.append_assoc, List.nil_append, List.cons.injEq,
    true_and] at same
  cases xs with
  | nil =>
    cases ys with
    | nil => exact ⟨rfl, (List.cons.inj same).2⟩
    | cons y ys =>
      obtain ⟨c, cs, start, other⟩ := starts y (by simp)
      rw [List.map_cons, intercalate_cons, start] at same
      exact absurd (List.cons.inj same).1.symm other
  | cons x xs =>
    cases ys with
    | nil =>
      obtain ⟨c, cs, start, other⟩ := starts x (by simp)
      rw [List.map_cons, intercalate_cons, start] at same
      exact absurd (List.cons.inj same).1 other
    | cons y ys =>
      rw [List.map_cons, List.map_cons, intercalate_cons, intercalate_cons, List.append_assoc,
        List.append_assoc] at same
      obtain ⟨rfl, further⟩ := each x List.mem_cons_self y List.mem_cons_self
        (stops_further _ rest stop) (stops_further _ rest' stop) same
      obtain ⟨rfl, rfl⟩ := further_inj stop mark (fun x member y member' =>
        each x (List.mem_cons_of_mem _ member) y (List.mem_cons_of_mem _ member')) further
      exact ⟨rfl, rfl⟩

end Rows

section Documents

inductive Form where
  | word
  | string
  | array
  | object

def form : Json → Form
  | string _ => .string
  | array _ => .array
  | object _ => .object
  | _ => .word

def formOf? (c : Char) : Option Form :=
  if c = '"' then some .string
  else if c = '[' then some .array
  else if c = '\x7b' then some .object
  else if isWord c then some .word
  else none

theorem formOf?_of_isWord {c : Char} (word : isWord c = true) : formOf? c = some .word := by
  have mark : c ≠ '"' := ne_of_isWord word (by decide)
  have bracket : c ≠ '[' := ne_of_isWord word (by decide)
  have brace : c ≠ '\x7b' := ne_of_isWord word (by decide)
  rw [formOf?, if_neg mark, if_neg bracket, if_neg brace, if_pos word]

theorem ReadsBack.starts {d : Json} (reads : d.ReadsBack) :
    ∃ c cs, d.compact.toList = c :: cs ∧ formOf? c = some .word := by
  obtain ⟨c, cs, text⟩ := List.exists_cons_of_ne_nil reads.nonempty
  exact ⟨c, cs, text, formOf?_of_isWord (reads.word c (by simp [text]))⟩

theorem readsBack_of_form {d : Json} (finite : d.IsFinite) (word : d.form = .word) :
    d.ReadsBack := by
  cases d with
  | null => exact readsBack_null
  | natural value => exact readsBack_natural value
  | number value => exact readsBack_number (finite value (by simp [numbers]))
  | string | array | object => cases word

/-- The first character of a document determines its notation. -/
theorem compact_starts {d : Json} (finite : d.IsFinite) :
    ∃ c cs, d.compact.toList = c :: cs ∧ formOf? c = some d.form := by
  cases d with
  | null => exact readsBack_null.starts
  | natural value => exact (readsBack_natural value).starts
  | number value => exact (readsBack_number (finite value (by simp [numbers]))).starts
  | string value => exact ⟨'"', _, toList_quote value, rfl⟩
  | array items => exact ⟨'[', _, toList_compact_array items, rfl⟩
  | object members => exact ⟨'\x7b', _, toList_compact_object members, rfl⟩

theorem form_inj {d e : Json} {rest rest' : List Char} (finite : d.IsFinite)
    (finite' : e.IsFinite) (same : d.compact.toList ++ rest = e.compact.toList ++ rest') :
    d.form = e.form := by
  obtain ⟨c, cs, text, form⟩ := compact_starts finite
  obtain ⟨c', cs', text', form'⟩ := compact_starts finite'
  rw [text, text'] at same
  obtain rfl := (List.cons.inj same).1
  exact Option.some.inj (form.symm.trans form')

/-- In front of anything but word characters the compact text determines the document and where it
ends. -/
def IsDelimited (d : Json) : Prop :=
  d.IsFinite → ∀ {e : Json}, e.IsFinite → ∀ {rest rest' : List Char}, Stops rest → Stops rest' →
    d.compact.toList ++ rest = e.compact.toList ++ rest' → d = e ∧ rest = rest'

theorem isDelimited_of_form {d : Json} (word : d.form = .word) : d.IsDelimited :=
  fun finite _ finite' _ _ stops stops' same =>
    (readsBack_of_form finite word).append_inj
      (readsBack_of_form finite' ((form_inj finite finite' same).symm.trans word)) stops stops' same

theorem isDelimited_array {items : List Json} (each : ∀ d ∈ items, d.IsDelimited) :
    (array items).IsDelimited := by
  intro finite e finite' rest rest' _ _ same
  have form := form_inj finite finite' same
  cases e with
  | array items' =>
    rw [toList_compact_array, toList_compact_array] at same
    have starts (d : Json) (member : d ∈ items ++ items') :
        ∃ c cs, d.compact.toList = c :: cs ∧ c ≠ ']' := by
      have finite : d.IsFinite := (List.mem_append.mp member).elim (finite.of_mem d)
        (finite'.of_mem d)
      obtain ⟨c, cs, text, form⟩ := compact_starts finite
      refine ⟨c, cs, text, ?_⟩
      rintro rfl
      cases form
    obtain ⟨rfl, rest⟩ := row_inj (by decide) (by decide) starts (fun d member e member' _ _ =>
      each d member (finite.of_mem d member) (finite'.of_mem e member')) same
    exact ⟨rfl, rest⟩
  | _ => cases form

theorem isDelimited_object {members : List (String × Json)}
    (each : ∀ m ∈ members, m.2.IsDelimited) : (object members).IsDelimited := by
  intro finite e finite' rest rest' _ _ same
  have form := form_inj finite finite' same
  cases e with
  | object members' =>
    rw [toList_compact_object, toList_compact_object] at same
    have starts (m : String × Json) (_ : m ∈ members ++ members') :
        ∃ c cs, compactMember m = c :: cs ∧ c ≠ '\x7d' := by
      rw [compactMember, toList_quote]
      exact ⟨'"', _, rfl, by decide⟩
    have apart (m : String × Json) (member : m ∈ members) (m' : String × Json)
        (member' : m' ∈ members') {back back' : List Char} (stops : Stops back)
        (stops' : Stops back') (same : compactMember m ++ back = compactMember m' ++ back') :
        m = m' ∧ back = back' := by
      simp only [compactMember, List.append_assoc, List.cons_append] at same
      obtain ⟨names, behind⟩ := quote_append_inj same
      obtain ⟨values, rest⟩ := each m member (finite.of_mem_members m member)
        (finite'.of_mem_members m' member') stops stops' (List.cons.inj behind).2
      exact ⟨Prod.ext names values, rest⟩
    obtain ⟨rfl, rest⟩ := row_inj (by decide) (by decide) starts apart same
    exact ⟨rfl, rest⟩
  | _ => cases form

mutual

theorem isDelimited (d : Json) : d.IsDelimited := by
  cases d with
  | null | natural | number => exact isDelimited_of_form rfl
  | string value =>
    intro finite e finite' rest rest' _ _ same
    have form := form_inj finite finite' same
    cases e with
    | string value' =>
      obtain ⟨values, rest⟩ := quote_append_inj same
      exact ⟨congrArg string values, rest⟩
    | _ => cases form
  | array items => exact isDelimited_array (items_isDelimited items)
  | object members => exact isDelimited_object (members_isDelimited members)
termination_by structural d

theorem items_isDelimited (items : List Json) : ∀ d ∈ items, d.IsDelimited := by
  cases items with
  | nil => simp
  | cons item items =>
    exact List.forall_mem_cons.mpr ⟨isDelimited item, items_isDelimited items⟩
termination_by structural items

theorem members_isDelimited (members : List (String × Json)) :
    ∀ m ∈ members, m.2.IsDelimited := by
  cases members with
  | nil => simp
  | cons member members =>
    cases member with
    | mk name value =>
      exact List.forall_mem_cons.mpr ⟨isDelimited value, members_isDelimited members⟩
termination_by structural members

end

/-- The compact text of a finite document determines the document. -/
theorem compact_inj {d e : Json} (finite : d.IsFinite) (finite' : e.IsFinite)
    (same : d.compact = e.compact) : d = e := by
  have stops : Stops [] := by simp [Stops]
  exact (d.isDelimited finite finite' stops stops (by rw [same])).1

end Documents

end BracketScript.Json
