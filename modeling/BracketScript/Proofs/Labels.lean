import BracketScript.Node.Outline
import BracketScript.Proofs.Escapes
import BracketScript.Proofs.Mentions
import BracketScript.Proofs.Numerals
import Mathlib.Data.List.Nodup

/-! The label of a node tells its construct and the names or the token that it holds. Labels start
with the name of the construct, which is one word; behind a space follows what the node holds. -/
namespace BracketScript
open Text (append_mark_inj append_stop_inj)

theorem Kind.isLeaf_cases {kind : Kind} (leaf : kind.isLeaf = true) :
    kind = .num ∨ kind = .string ∨ kind = .trueWord ∨ kind = .falseWord ∨ kind = .symbol := by
  cases kind <;> simp [isLeaf] at leaf ⊢

/-- What the name in a label tells: the construct of a node, or an absent part. -/
inductive Construct where
  | absent
  | block
  | function
  | lambda
  | guarded (guard : Guard)
  | loop
  | binding
  | assignment
  | enumeration
  | result
  | jump (jump : Jump)
  | list
  | access
  | unary (op : UnaryOp)
  | binary (op : BinaryOp)
  | leaf (kind : Kind)
deriving DecidableEq

namespace Construct

def name : Construct → String
  | absent => "(none)"
  | block => "block"
  | function => "func_def"
  | lambda => "lambda"
  | guarded guard => guard.name
  | loop => "for_s"
  | binding => "init_var"
  | assignment => "assign"
  | enumeration => "enum"
  | result => "return"
  | jump j => j.name
  | list => "list"
  | access => "access"
  | unary op => op.name
  | binary op => op.lexeme
  | leaf kind => kind.name

def all : List Construct :=
  [absent, block, function, lambda, guarded .ifTrue, guarded .whileTrue, loop, binding, assignment,
    enumeration, result, jump .breakLoop, jump .continueLoop, list, access] ++
    [.negative, .bang, .preInc, .preDec, .postInc, .postDec].map unary ++
    BinaryOp.all.map binary ++ [.num, .string, .trueWord, .falseWord, .symbol].map leaf

theorem mem_all {a : Construct} (leaf : ∀ kind, a = .leaf kind → kind.isLeaf = true) :
    a ∈ all := by
  cases a with
  | guarded guard => cases guard <;> decide
  | jump j => cases j <;> decide
  | unary op => cases op <;> decide
  | binary op => cases op <;> decide
  | leaf kind =>
    rcases Kind.isLeaf_cases (leaf kind rfl) with rfl | rfl | rfl | rfl | rfl <;> decide
  | _ => decide

theorem name_inj {a b : Construct} (first : a ∈ all) (second : b ∈ all) (same : a.name = b.name) :
    a = b := by
  have distinct : (all.map name).Nodup := by decide +kernel
  exact List.inj_on_of_nodup_map distinct first second same

theorem name_word {a : Construct} (member : a ∈ all) :
    ' ' ∉ a.name.toList ∧ '\n' ∉ a.name.toList := by
  have key : ∀ a ∈ all, ' ' ∉ a.name.toList ∧ '\n' ∉ a.name.toList := by decide +kernel
  exact key a member

end Construct

def Node.construct {ν : Type} : Node ν Token → Construct
  | block _ => .block
  | function .. => .function
  | lambda .. => .lambda
  | guarded guard .. => .guarded guard
  | loop .. => .loop
  | binding .. => .binding
  | assignment .. => .assignment
  | enumeration _ => .enumeration
  | result _ => .result
  | jump j => .jump j
  | list _ => .list
  | access .. => .access
  | unary op _ => .unary op
  | binary op .. => .binary op
  | leaf token => .leaf token.kind

/-- The text after the kind in the label of a token. -/
def Token.detail (t : Token) : String :=
  match t.kind with
  | .string => " " ++ Text.quote t.payload.display
  | .trueWord | .falseWord => ""
  | _ => " " ++ t.payload.display

/-- The text after the name in the label of a node. -/
def Node.detail : Tree → String
  | function name parameters _ => " " ++ name ++ " " ++ namesLabel parameters
  | lambda parameters _ => " " ++ namesLabel parameters
  | binding name _ => " " ++ name
  | assignment target _ => " " ++ target.payload.display
  | enumeration names => " " ++ namesLabel names
  | leaf token => token.detail
  | _ => ""

theorem Token.leafLabel_eq (t : Token) : Node.leafLabel t = t.kind.name ++ t.detail := by
  apply String.toList_inj.mp
  unfold Node.leafLabel
  split
  · next kind => simp [detail, kind, Kind.name]
  · next kind => simp [detail, kind]
  · next kind => simp [detail, kind]
  · next text true_ false_ =>
    rw [detail.eq_def]
    split
    · next kind => exact absurd kind text
    · next kind => exact absurd kind true_
    · next kind => exact absurd kind false_
    · simp

theorem Node.label_eq (n : Tree) : n.label = n.construct.name ++ n.detail := by
  cases n with
  | leaf token => exact token.leafLabel_eq
  | function | lambda | binding | assignment | enumeration =>
    apply String.toList_inj.mp
    simp [label, construct, Construct.name, detail]
  | _ => simp [label, kindName, construct, Construct.name, detail]

theorem Node.detail_starts (n : Tree) : ∀ c ∈ n.detail.toList.head?, c = ' ' := by
  cases n with
  | leaf token =>
    rw [detail, Token.detail]
    split <;> simp
  | _ => simp [detail]

def IsName (s : String) : Prop := s.toList ≠ [] ∧ ∀ c ∈ s.toList, c.isAlpha ∨ c = '_'

theorem IsName.not_mem {s : String} (name : IsName s) {c : Char}
    (other : ¬ (c.isAlpha ∨ c = '_') := by decide) : c ∉ s.toList :=
  fun member => other (name.2 c member)

section Names

theorem intercalate_cons (sep x : List Char) (xs : List (List Char)) :
    sep.intercalate (x :: xs) = x ++ xs.flatMap (sep ++ ·) := by
  induction xs generalizing x with
  | nil => simp
  | cons y ys ih => simp [List.intercalate_cons_cons, ih]

theorem flatMap_comma_starts (xs : List (List Char)) :
    ∀ c ∈ (xs.flatMap ([',', ' '] ++ ·)).head?, c = ',' := by
  cases xs <;> simp

/-- A row of texts without commas is determined by its concatenation with commas. -/
theorem flatMap_comma_inj {xs ys : List (List Char)} (free : ∀ x ∈ xs, ',' ∉ x)
    (free' : ∀ y ∈ ys, ',' ∉ y)
    (same : xs.flatMap ([',', ' '] ++ ·) = ys.flatMap ([',', ' '] ++ ·)) : xs = ys := by
  induction xs generalizing ys with
  | nil =>
    cases ys with
    | nil => rfl
    | cons y ys => simp at same
  | cons x xs ih =>
    cases ys with
    | nil => simp at same
    | cons y ys =>
      obtain ⟨first, others⟩ := List.forall_mem_cons.mp free
      obtain ⟨first', others'⟩ := List.forall_mem_cons.mp free'
      rw [List.flatMap_cons, List.flatMap_cons, List.append_assoc, List.append_assoc,
        List.append_cancel_left_eq] at same
      obtain ⟨rfl, further⟩ :=
        append_stop_inj first first' (flatMap_comma_starts xs) (flatMap_comma_starts ys) same
      rw [ih others others' further]

/-- A displayed list of names determines the names, since no name holds a comma. -/
theorem namesLabel_inj {names names' : List String} (all : ∀ s ∈ names, IsName s)
    (all' : ∀ s ∈ names', IsName s)
    (same : Node.namesLabel names = Node.namesLabel names') : names = names' := by
  have inside := congrArg String.toList same
  simp only [Node.namesLabel, String.toList_append, String.toList_intercalate,
    List.append_cancel_left_eq, List.append_cancel_right_eq] at inside
  have comma : ", ".toList = [',', ' '] := rfl
  have free {names : List String} (all : ∀ s ∈ names, IsName s) :
      ∀ x ∈ names.map String.toList, ',' ∉ x :=
    List.forall_mem_map.mpr fun s member => (all s member).not_mem
  rw [comma] at inside
  cases names with
  | nil =>
    cases names' with
    | nil => rfl
    | cons s names' =>
      rw [List.map_cons, intercalate_cons] at inside
      simp [(all' s List.mem_cons_self).1] at inside
  | cons s names =>
    obtain ⟨first, others⟩ := List.forall_mem_cons.mp all
    cases names' with
    | nil =>
      rw [List.map_cons, intercalate_cons] at inside
      simp [first.1] at inside
    | cons s' names' =>
      obtain ⟨first', others'⟩ := List.forall_mem_cons.mp all'
      rw [List.map_cons, List.map_cons, intercalate_cons, intercalate_cons] at inside
      obtain ⟨front, back⟩ := append_stop_inj first.not_mem first'.not_mem
        (flatMap_comma_starts _) (flatMap_comma_starts _) inside
      have further := flatMap_comma_inj (free others) (free others') back
      have injective : Function.Injective String.toList := fun _ _ => String.toList_inj.mp
      rw [injective front, List.map_injective_iff.mpr injective further]

theorem newline_not_mem_namesLabel {names : List String} (all : ∀ s ∈ names, IsName s) :
    '\n' ∉ (Node.namesLabel names).toList := by
  have free : ∀ s ∈ names, '\n' ∉ s.toList := fun s member => (all s member).not_mem
  simp only [Node.namesLabel, String.toList_append, String.toList_intercalate]
  cases names with
  | nil => simp
  | cons s names =>
    obtain ⟨first, others⟩ := List.forall_mem_cons.mp free
    rw [List.map_cons, intercalate_cons]
    simpa [first] using others

end Names

def Token.IsSpelled (t : Token) : Prop := ∃ lexeme, Spelling t.kind t.payload lexeme

namespace Spelling

variable {kind : Kind} {payload : Payload} {lexeme : List Char}

theorem isName (spelled : Spelling kind payload lexeme) (symbol : kind = .symbol) :
    IsName payload.display := by
  cases spelled with
  | fixed member =>
    subst symbol
    cases member
  | name nonempty letters =>
    rw [Payload.display, IsName, String.toList_ofList]
    exact ⟨nonempty, letters⟩
  | quoted | whole | places => cases symbol

theorem number (spelled : Spelling kind payload lexeme) (num : kind = .num) :
    ∃ n : Number, payload = .number n ∧ n.IsMagnitude := by
  cases spelled with
  | fixed member =>
    subst num
    cases member
  | whole _ _ nearest | places _ _ _ nearest => exact ⟨_, rfl, nearest.magnitude⟩
  | name | quoted => cases num

theorem word (spelled : Spelling kind payload lexeme) {text : String}
    (only : kind.spellings = [text]) : payload = .text text := by
  cases spelled with
  | fixed member =>
    rw [only, List.mem_singleton] at member
    rw [member]
  | _ => cases only

end Spelling

/-- Tokens of one kind with equal displays have equal payloads: numbers by the roundtrip of their
digits, texts literally. -/
theorem Token.display_inj {t u : Token} (spelled : t.IsSpelled) (spelled' : u.IsSpelled)
    (kinds : t.kind = u.kind) (same : t.payload.display = u.payload.display) :
    t.payload = u.payload := by
  obtain ⟨_, spelling⟩ := spelled
  obtain ⟨_, spelling'⟩ := spelled'
  rw [← kinds] at spelling'
  by_cases num : t.kind = .num
  · obtain ⟨m, number, first⟩ := spelling.number num
    obtain ⟨n, number', second⟩ := spelling'.number num
    rw [number, number'] at same
    rw [number, number', Number.text_plain_inj first second same]
  · rw [spelling.text num, spelling'.text num, same]

/-- The label of a spelled token determines its payload. -/
theorem Token.payload_inj {t u : Token} (spelled : t.IsSpelled) (spelled' : u.IsSpelled)
    (leaf : t.kind.isLeaf = true) (kinds : t.kind = u.kind) (same : t.detail = u.detail) :
    t.payload = u.payload := by
  have told := display_inj spelled spelled' kinds
  obtain ⟨_, spelling⟩ := spelled
  obtain ⟨_, spelling'⟩ := spelled'
  unfold detail at same
  rw [← kinds] at same spelling'
  rcases Kind.isLeaf_cases leaf with num | string | word | word | symbol
  · simp only [num] at same
    exact told ((String.append_right_inj _).mp same)
  · simp only [string] at same
    exact told (Text.quote_injective ((String.append_right_inj _).mp same))
  · have only : t.kind.spellings = ["true"] := by rw [word]; rfl
    rw [spelling.word only, spelling'.word only]
  · have only : t.kind.spellings = ["false"] := by rw [word]; rfl
    rw [spelling.word only, spelling'.word only]
  · simp only [symbol] at same
    exact told ((String.append_right_inj _).mp same)

def Mention.Legible : Mention String Token → Prop
  | .name s => IsName s
  | .target t => t.kind = .symbol ∧ t.IsSpelled
  | .literal t => t.kind.isLeaf = true ∧ t.IsSpelled
  | .jump _ => True

def Node.Legible (n : Tree) : Prop := ∀ m ∈ n.mentions, m.Legible

theorem isName_of_legible {names : List String}
    (all : ∀ m ∈ names.map Mention.name, m.Legible) : ∀ s ∈ names, IsName s :=
  fun s member => all (.name s) (List.mem_map_of_mem member)

theorem Token.MentionedAs.legible {t : Token} {m : Mention String Token}
    (mentioned : t.MentionedAs m) (leaf : t.kind.isLeaf = true) (spelled : t.IsSpelled) :
    m.Legible := by
  cases m with
  | name s =>
    obtain ⟨symbol, text⟩ := mentioned
    obtain ⟨_, spelling⟩ := spelled
    have same : t.payload.display = s := by
      rw [Token.text?, spelling.text (by simp [symbol])] at text
      exact Option.some.inj text
    have name : IsName t.payload.display := spelling.isName symbol
    rwa [same] at name
  | target token =>
    obtain ⟨symbol, rfl⟩ := mentioned
    exact ⟨symbol, spelled⟩
  | literal token =>
    obtain rfl : t = token := mentioned
    exact ⟨leaf, spelled⟩
  | jump => exact True.intro

/-- All names and literals of a parsed program are spelled in its source. -/
theorem Program.legible {source : Source} {p : Program} (parsed : parseSource source = .ok p) :
    ∀ m ∈ p.mentions, m.Legible := by
  obtain ⟨ts, scanned, parsed⟩ := parseSource_eq_ok_iff.mp parsed
  have reads := Scanner.tokens_eq_ok_iff.mp scanned
  have mentioned : (ts.filter (·.kind.isLeaf)).Forall₂ Token.MentionedAs p.mentions :=
    (derives_of_parse reads.endless parsed).mentioned reads.layout.named
  have spelled : ∀ t ∈ ts.filter (·.kind.isLeaf), t.kind.isLeaf = true ∧ t.IsSpelled := by
    intro t member
    obtain ⟨member, leaf⟩ := List.mem_filter.mp member
    exact ⟨leaf, reads.layout.spelled t member⟩
  generalize ts.filter (·.kind.isLeaf) = leaves at mentioned spelled
  generalize p.mentions = ms at mentioned
  induction mentioned with
  | nil => simp
  | cons as _ ih =>
    obtain ⟨⟨leaf, first⟩, others⟩ := List.forall_mem_cons.mp spelled
    exact List.forall_mem_cons.mpr ⟨as.legible leaf first, ih others⟩

theorem Node.construct_mem {n : Tree} (legible : n.Legible) : n.construct ∈ Construct.all := by
  apply Construct.mem_all
  intro kind same
  cases n with
  | leaf token =>
    cases same
    exact (legible (.literal token) List.mem_cons_self).1
  | _ => cases same

theorem Construct.label_inj {a b : Construct} (first : a ∈ all) (second : b ∈ all)
    {d e : String} (start : ∀ c ∈ d.toList.head?, c = ' ') (start' : ∀ c ∈ e.toList.head?, c = ' ')
    (same : a.name ++ d = b.name ++ e) : a = b ∧ d = e := by
  have inside := congrArg String.toList same
  rw [String.toList_append, String.toList_append] at inside
  obtain ⟨names, details⟩ :=
    append_stop_inj (name_word first).1 (name_word second).1 start start' inside
  exact ⟨name_inj first second (String.toList_inj.mp names), String.toList_inj.mp details⟩

/-- The label of a legible node determines its construct and its detail. -/
theorem Node.label_inj {n m : Tree} (legible : n.Legible) (legible' : m.Legible)
    (same : n.label = m.label) : n.construct = m.construct ∧ n.detail = m.detail := by
  rw [label_eq, label_eq] at same
  exact Construct.label_inj (construct_mem legible) (construct_mem legible') n.detail_starts
    m.detail_starts same

/-- The label of an absent part belongs to no node. -/
theorem Node.label_ne_absent {n : Tree} (legible : n.Legible) : n.label ≠ "(none)" := by
  intro same
  rw [label_eq] at same
  have named : n.construct.name ++ n.detail = Construct.absent.name ++ "" := by
    rw [same]
    rfl
  obtain ⟨absent, _⟩ := Construct.label_inj (construct_mem legible) (by decide) n.detail_starts
    (by simp) named
  cases n <;> cases absent

theorem Token.newline_not_mem_detail {t : Token} (leaf : t.kind.isLeaf = true)
    (spelled : t.IsSpelled) : '\n' ∉ t.detail.toList := by
  obtain ⟨_, spelling⟩ := spelled
  rcases Kind.isLeaf_cases leaf with num | string | word | word | symbol
  · obtain ⟨n, number, magnitude⟩ := spelling.number num
    have digits := Number.newline_not_mem_text magnitude
    simpa [detail, num, number, Payload.display] using digits
  · have quoted := (Text.HasNoControls.quote t.payload.display).newline
    simpa [detail, string] using quoted
  · simp [detail, word]
  · simp [detail, word]
  · have letters : '\n' ∉ t.payload.display.toList := (spelling.isName symbol).not_mem
    simpa [detail, symbol] using letters

theorem Node.newline_not_mem_label {n : Tree} (legible : n.Legible) :
    '\n' ∉ n.label.toList := by
  have word := (Construct.name_word (construct_mem legible)).2
  suffices '\n' ∉ n.detail.toList by
    rw [label_eq, String.toList_append]
    simp [word, this]
  cases n with
  | function name parameters body =>
    obtain ⟨first, others⟩ := List.forall_mem_cons.mp legible
    have names := isName_of_legible (List.forall_mem_append.mp others).1
    have listed := newline_not_mem_namesLabel names
    have letters : '\n' ∉ name.toList := first.not_mem
    simp [detail, letters, listed]
  | lambda parameters body =>
    have names := isName_of_legible (List.forall_mem_append.mp legible).1
    have listed := newline_not_mem_namesLabel names
    simp [detail, listed]
  | binding name value =>
    have letters : '\n' ∉ name.toList := (legible (.name name) List.mem_cons_self).not_mem
    simp [detail, letters]
  | assignment target value =>
    obtain ⟨symbol, _, spelling⟩ := legible (.target target) List.mem_cons_self
    have letters : '\n' ∉ target.payload.display.toList := (spelling.isName symbol).not_mem
    simp [detail, letters]
  | enumeration names =>
    have listed := newline_not_mem_namesLabel (isName_of_legible legible)
    simp [detail, listed]
  | leaf token =>
    obtain ⟨leaf, spelled⟩ := legible (.literal token) List.mem_cons_self
    exact Token.newline_not_mem_detail leaf spelled
  | _ => simp [detail]

theorem Node.namesDetail_inj {names names' : List String}
    (all : ∀ m ∈ names.map Mention.name, m.Legible)
    (all' : ∀ m ∈ names'.map Mention.name, m.Legible)
    (same : " " ++ namesLabel names = " " ++ namesLabel names') : names = names' := by
  have labels := (String.append_right_inj _).mp same
  exact namesLabel_inj (isName_of_legible all) (isName_of_legible all') labels

theorem Node.functionDetail_inj {name name' : String} {names names' : List String}
    (all : ∀ m ∈ .name name :: names.map Mention.name, m.Legible)
    (all' : ∀ m ∈ .name name' :: names'.map Mention.name, m.Legible)
    (same : " " ++ name ++ " " ++ namesLabel names = " " ++ name' ++ " " ++ namesLabel names') :
    name = name' ∧ names = names' := by
  obtain ⟨first, others⟩ := List.forall_mem_cons.mp all
  obtain ⟨first', others'⟩ := List.forall_mem_cons.mp all'
  have free {name : String} (letters : IsName name) : ' ' ∉ name.toList := letters.not_mem
  have inside := congrArg String.toList same
  simp only [String.toList_append, List.append_assoc, List.append_cancel_left_eq] at inside
  obtain ⟨heads, labels⟩ := append_mark_inj (free first) (free first') inside
  refine ⟨String.toList_inj.mp heads, ?_⟩
  exact namesLabel_inj (isName_of_legible others) (isName_of_legible others')
    (String.toList_inj.mp labels)

end BracketScript
