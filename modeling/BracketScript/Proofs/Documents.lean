import BracketScript.Node.Document
import BracketScript.Proofs.Condensing
import BracketScript.Proofs.Relabelling

/-! A document determines the program, but for the widths of its tokens. The type of an object
tells the construct of its node, except that a leaf may be of any kind: it is told by its value.
Equal documents have equal parts, and by induction these are the parts of the same nodes. -/
namespace BracketScript

def Token.widthless (t : Token) : Token := { t with width := 0 }

namespace Node

def widthless : Tree → Tree := map id Token.widthless

def listWidthless : List Tree → List Tree := listMap id Token.widthless

def optionWidthless : Option Tree → Option Tree := optionMap id Token.widthless

end Node

def Program.widthless (p : Program) : Program := ⟨Node.listWidthless p.statements⟩

section Numbers

def Mention.number? : Mention String Token → Option Number
  | target token | literal token => token.number?
  | _ => none

def mentionedNumbers (ms : List (Mention String Token)) : List Number :=
  ms.filterMap Mention.number?

def Program.numbers (p : Program) : List Number := mentionedNumbers p.mentions

@[simp] theorem mentionedNumbers_append (ms ms' : List (Mention String Token)) :
    mentionedNumbers (ms ++ ms') = mentionedNumbers ms ++ mentionedNumbers ms' :=
  List.filterMap_append

@[simp] theorem mentionedNumbers_name (name : String) (ms : List (Mention String Token)) :
    mentionedNumbers (.name name :: ms) = mentionedNumbers ms := rfl

@[simp] theorem mentionedNumbers_names (names : List String) :
    mentionedNumbers (names.map .name) = [] := by
  simp [mentionedNumbers, Mention.number?]

@[simp] theorem mentionedNumbers_target (t : Token) (ms : List (Mention String Token)) :
    mentionedNumbers (.target t :: ms) = t.number?.toList ++ mentionedNumbers ms := by
  rw [mentionedNumbers, List.filterMap_cons, Mention.number?]
  cases t.number? <;> rfl

theorem mentionedNumbers_literal (t : Token) :
    mentionedNumbers [.literal t] = t.number?.toList := by
  rw [mentionedNumbers, List.filterMap_cons, Mention.number?]
  cases t.number? <;> rfl

@[simp] theorem Token.numbers_leafJson (t : Token) : t.leafJson.numbers = t.number?.toList := by
  obtain ⟨kind, payload, line, col, width⟩ := t
  cases payload <;> rfl

namespace Node

@[simp] theorem numbers_namesJson (names : List String) : (namesJson names).numbers = [] := by
  change Json.itemsNumbers (names.map .string) = []
  induction names with
  | nil => rfl
  | cons name names ih => exact ih

@[simp] theorem numbers_bodyJson (statements : List Json) :
    (bodyJson statements).numbers = Json.itemsNumbers statements := by
  simp [bodyJson]

mutual

/-- A document holds exactly the numbers that its node mentions. -/
theorem numbers_json (n : Tree) : n.json.numbers = mentionedNumbers n.mentions := by
  cases n with
  | block body | function _ _ body | lambda _ body | list body =>
    have inner := numbers_listJson body
    simp [json, mentions, inner]
  | guarded _ condition body =>
    have test := numbers_json condition
    have inner := numbers_listJson body
    simp [json, mentions, test, inner]
  | loop init condition step body =>
    have first := numbers_optionJson init
    have second := numbers_optionJson condition
    have third := numbers_optionJson step
    have inner := numbers_listJson body
    simp [json, mentions, first, second, third, inner]
  | binding _ value | assignment _ value | result value | unary _ value =>
    have inner := numbers_json value
    simp [json, mentions, inner]
  | enumeration => simp [json, mentions]
  | jump => rfl
  | access of keys =>
    have first := numbers_json of
    have others := numbers_listJson keys
    simp [json, mentions, first, others]
  | binary _ left right =>
    have front := numbers_json left
    have back := numbers_json right
    simp [json, mentions, front, back]
  | leaf token => simp [json, mentions, mentionedNumbers_literal]
termination_by structural n

theorem numbers_listJson (ns : List Tree) :
    Json.itemsNumbers (listJson ns) = mentionedNumbers (listMentions ns) := by
  cases ns with
  | nil => rfl
  | cons n ns =>
    rw [listJson, Json.itemsNumbers, listMentions, mentionedNumbers_append, numbers_json n,
      numbers_listJson ns]
termination_by structural ns

theorem numbers_optionJson (part : Option Tree) :
    (optionJson part).numbers = mentionedNumbers (optionMentions part) := by
  cases part with
  | none => rfl
  | some n => exact numbers_json n
termination_by structural part

end

end Node

theorem Program.numbers_json (p : Program) : p.json.numbers = p.numbers := by
  simp [json, Node.numbers_listJson, numbers, mentions]

end Numbers

section Widths

namespace Node

mutual

theorem json_widthless (n : Tree) : n.widthless.json = n.json := by
  cases n with
  | block body | list body =>
    rw [json, ← listJson_widthless body]
    rfl
  | function _ _ body | lambda _ body =>
    rw [widthless, map, List.map_id, json, json, ← listJson_widthless body]
    rfl
  | guarded _ condition body =>
    rw [json, ← json_widthless condition, ← listJson_widthless body]
    rfl
  | loop init condition step body =>
    rw [json, ← optionJson_widthless init, ← optionJson_widthless condition,
      ← optionJson_widthless step, ← listJson_widthless body]
    rfl
  | binding _ value | assignment _ value | result value | unary _ value =>
    rw [json, ← json_widthless value]
    rfl
  | enumeration =>
    rw [widthless, map, List.map_id]
  | jump | leaf => rfl
  | access of keys =>
    rw [json, ← json_widthless of, ← listJson_widthless keys]
    rfl
  | binary _ left right =>
    rw [json, ← json_widthless left, ← json_widthless right]
    rfl
termination_by structural n

theorem listJson_widthless (ns : List Tree) : listJson (listWidthless ns) = listJson ns := by
  cases ns with
  | nil => rfl
  | cons n ns =>
    rw [listJson, ← json_widthless n, ← listJson_widthless ns]
    rfl
termination_by structural ns

theorem optionJson_widthless (part : Option Tree) :
    optionJson (optionWidthless part) = optionJson part := by
  cases part with
  | none => rfl
  | some n => exact json_widthless n
termination_by structural part

end

end Node

theorem Program.json_widthless (p : Program) : p.widthless.json = p.json := by
  rw [json, json, widthless, Node.listJson_widthless]

end Widths

section Constructs

namespace Json

def type? : Json → Option Json
  | object ((_, type) :: _) => some type
  | _ => none

/-- The name of the second member. -/
def second? : Json → Option String
  | object (_ :: (name, _) :: _) => some name
  | _ => none

end Json

namespace Node

theorem type?_json (n : Tree) : n.json.type? = some (.string n.construct.name) := by
  cases n <;> rfl

/-- Only the documents of leaves have a value as their second member. -/
theorem second?_json (n : Tree) :
    n.json.second? = some "value" ↔ ∃ kind, n.construct = .leaf kind := by
  cases n with
  | leaf token => exact ⟨fun _ => ⟨token.kind, rfl⟩, fun _ => rfl⟩
  | unary op => cases op <;> simp [json, Json.tagged, Json.second?, construct, UnaryOp.operandName]
  | _ => simp [json, bodyJson, Json.tagged, Json.second?, construct]

/-- The document of a node determines its construct. -/
theorem construct_eq_of_json_eq {n m : Tree} (same : n.json = m.json) :
    n.construct = m.construct := by
  have names : n.construct.name = m.construct.name := by
    have types := n.type?_json
    rw [same, m.type?_json] at types
    exact (Json.string.inj (Option.some.inj types)).symm
  have leaves : (∃ kind, n.construct = .leaf kind) ↔ ∃ kind, m.construct = .leaf kind := by
    rw [← second?_json, ← second?_json, same]
  by_cases leaf : ∃ kind, n.construct = .leaf kind
  · obtain ⟨kind', other⟩ := leaves.mp leaf
    obtain ⟨kind, own⟩ := leaf
    rw [own, other] at names ⊢
    exact congrArg Construct.leaf (Kind.name_injective names)
  · exact Construct.name_inj (Construct.mem_all fun kind own => absurd ⟨kind, own⟩ leaf)
      (Construct.mem_all fun kind own => absurd (leaves.mpr ⟨kind, own⟩) leaf) names

theorem json_ne_null (n : Tree) : n.json ≠ .null := fun null => by
  have type := n.type?_json
  rw [null] at type
  cases type

end Node

theorem Token.leafJson_inj {t u : Token} (same : t.leafJson = u.leafJson) :
    t.widthless = u.widthless := by
  obtain ⟨kind, payload, line, col, width⟩ := t
  obtain ⟨kind', payload', line', col', width'⟩ := u
  simp only [leafJson, Json.tagged, Json.object.injEq, List.cons.injEq, Prod.mk.injEq,
    Json.string.injEq, Json.natural.injEq, true_and, and_true] at same
  obtain ⟨kinds, payloads, rfl, rfl⟩ := same
  obtain rfl := Kind.name_injective kinds
  have payloads : payload = payload' := by
    cases payload with
    | number value =>
      cases payload' with
      | number value' => exact congrArg _ (Json.number.inj payloads)
      | text => cases payloads
    | text content =>
      cases payload' with
      | number => cases payloads
      | text content' => exact congrArg _ (Json.string.inj payloads)
  rw [payloads]
  rfl

namespace Node

@[simp] theorem bodyJson_inj {ds es : List Json} : bodyJson ds = bodyJson es ↔ ds = es := by
  simp [bodyJson]

@[simp] theorem namesJson_inj {names names' : List String} :
    namesJson names = namesJson names' ↔ names = names' := by
  rw [namesJson, namesJson, Json.array.injEq]
  exact List.map_inj_right fun _ _ => Json.string.inj

mutual

/-- The document of a node determines the node up to the widths of its tokens. -/
theorem json_inj (n : Tree) {m : Tree} (same : n.json = m.json) : n.widthless = m.widthless := by
  have construct := construct_eq_of_json_eq same
  cases n with
  | block body =>
    cases m with
    | block body' =>
      have bodies : listJson body = listJson body' := by simpa [json] using same
      exact congrArg Node.block (listJson_inj body bodies)
    | _ => cases construct
  | function name parameters body =>
    cases m with
    | function name' parameters' body' =>
      obtain ⟨rfl, rfl, bodies⟩ : name = name' ∧ parameters = parameters' ∧
          listJson body = listJson body' := by simpa [json] using same
      exact congrArg (Node.function _ _) (listJson_inj body bodies)
    | _ => cases construct
  | lambda parameters body =>
    cases m with
    | lambda parameters' body' =>
      obtain ⟨rfl, bodies⟩ : parameters = parameters' ∧ listJson body = listJson body' := by
        simpa [json] using same
      exact congrArg (Node.lambda _) (listJson_inj body bodies)
    | _ => cases construct
  | guarded guard condition body =>
    cases m with
    | guarded guard' condition' body' =>
      obtain rfl := Construct.guarded.inj construct
      obtain ⟨conditions, bodies⟩ : condition.json = condition'.json ∧
          listJson body = listJson body' := by simpa [json] using same
      exact congrArg₂ (Node.guarded _) (json_inj condition conditions) (listJson_inj body bodies)
    | _ => cases construct
  | loop init condition step body =>
    cases m with
    | loop init' condition' step' body' =>
      obtain ⟨inits, conditions, steps, bodies⟩ : optionJson init = optionJson init' ∧
          optionJson condition = optionJson condition' ∧ optionJson step = optionJson step' ∧
          listJson body = listJson body' := by simpa [json] using same
      change Node.loop (optionWidthless init) (optionWidthless condition) (optionWidthless step)
        (listWidthless body) = _
      rw [optionJson_inj init inits, optionJson_inj condition conditions,
        optionJson_inj step steps, listJson_inj body bodies]
      rfl
    | _ => cases construct
  | binding name value =>
    cases m with
    | binding name' value' =>
      obtain ⟨rfl, values⟩ : name = name' ∧ value.json = value'.json := by
        simpa [json] using same
      exact congrArg (Node.binding _) (json_inj value values)
    | _ => cases construct
  | assignment target value =>
    cases m with
    | assignment target' value' =>
      obtain ⟨targets, values⟩ : target.leafJson = target'.leafJson ∧
          value.json = value'.json := by simpa [json] using same
      exact congrArg₂ Node.assignment (Token.leafJson_inj targets) (json_inj value values)
    | _ => cases construct
  | enumeration names =>
    cases m with
    | enumeration names' =>
      obtain rfl : names = names' := by simpa [json] using same
      rfl
    | _ => cases construct
  | result value =>
    cases m with
    | result value' =>
      have values : value.json = value'.json := by simpa [json] using same
      exact congrArg Node.result (json_inj value values)
    | _ => cases construct
  | jump j =>
    cases m with
    | jump j' =>
      obtain rfl := Construct.jump.inj construct
      rfl
    | _ => cases construct
  | list elements =>
    cases m with
    | list elements' =>
      have inner : listJson elements = listJson elements' := by simpa [json] using same
      exact congrArg Node.list (listJson_inj elements inner)
    | _ => cases construct
  | access of keys =>
    cases m with
    | access of' keys' =>
      obtain ⟨accessed, inner⟩ : of.json = of'.json ∧ listJson keys = listJson keys' := by
        simpa [json] using same
      exact congrArg₂ Node.access (json_inj of accessed) (listJson_inj keys inner)
    | _ => cases construct
  | unary op operand =>
    cases m with
    | unary op' operand' =>
      obtain rfl := Construct.unary.inj construct
      have operands : operand.json = operand'.json := by simpa [json] using same
      exact congrArg (Node.unary op) (json_inj operand operands)
    | _ => cases construct
  | binary op left right =>
    cases m with
    | binary op' left' right' =>
      obtain rfl := Construct.binary.inj construct
      obtain ⟨lefts, rights⟩ : left.json = left'.json ∧ right.json = right'.json := by
        simpa [json] using same
      exact congrArg₂ (Node.binary op) (json_inj left lefts) (json_inj right rights)
    | _ => cases construct
  | leaf token =>
    cases m with
    | leaf token' => exact congrArg Node.leaf (Token.leafJson_inj same)
    | _ => cases construct
termination_by structural n

theorem listJson_inj (ns : List Tree) {ms : List Tree} (same : listJson ns = listJson ms) :
    listWidthless ns = listWidthless ms := by
  cases ns with
  | nil =>
    cases ms with
    | nil => rfl
    | cons m ms => cases same
  | cons n ns =>
    cases ms with
    | nil => cases same
    | cons m ms =>
      obtain ⟨first, others⟩ := List.cons.inj same
      exact congrArg₂ List.cons (json_inj n first) (listJson_inj ns others)
termination_by structural ns

theorem optionJson_inj (part : Option Tree) {part' : Option Tree}
    (same : optionJson part = optionJson part') : optionWidthless part = optionWidthless part' := by
  cases part with
  | none =>
    cases part' with
    | none => rfl
    | some m => exact absurd same.symm m.json_ne_null
  | some n =>
    cases part' with
    | none => exact absurd same n.json_ne_null
    | some m => exact congrArg some (json_inj n same)
termination_by structural part

end

end Node

theorem Program.json_inj {p q : Program} (same : p.json = q.json) :
    p.widthless = q.widthless := by
  have statements : Node.listJson p.statements = Node.listJson q.statements := by
    simpa [json] using same
  exact congrArg Program.mk (Node.listJson_inj p.statements statements)

end Constructs

/-- Programs without infinite or undefined numbers have equal documents exactly when they are equal
up to widths, and likewise for the compact and the indented text. -/
theorem document_eq_iff {p q : Program} (finite : ∀ n ∈ p.numbers, n.isFinite = true)
    (finite' : ∀ n ∈ q.numbers, n.isFinite = true) :
    (p.json = q.json ↔ p.widthless = q.widthless) ∧
      (p.json.compact = q.json.compact ↔ p.widthless = q.widthless) ∧
      (p.json.pretty "" = q.json.pretty "" ↔ p.widthless = q.widthless) := by
  have writes : p.json.IsFinite := fun n member => finite n (p.numbers_json ▸ member)
  have writes' : q.json.IsFinite := fun n member => finite' n (q.numbers_json ▸ member)
  have written (same : p.widthless = q.widthless) : p.json = q.json := by
    rw [← p.json_widthless, same, q.json_widthless]
  have read (same : p.json.compact = q.json.compact) : p.widthless = q.widthless :=
    Program.json_inj (Json.compact_inj writes writes' same)
  have margin : Json.IsMargin "" := rfl
  refine ⟨⟨Program.json_inj, written⟩, ⟨read, ?_⟩, ⟨?_, ?_⟩⟩
  · exact fun same => congrArg Json.compact (written same)
  · exact fun same => read (Json.compact_eq_of_pretty_eq margin same)
  · exact fun same => congrArg (Json.pretty "") (written same)

/-- The two zeros are distinguished in documents, widths are not. -/
theorem document_eq_iff_zeros :
    let program (bits : UInt64) (width : Nat) : Program :=
      ⟨[.leaf ⟨.num, .number ⟨bits⟩, 1, 1, width⟩]⟩
    (program 0 1).json.pretty "" = (program 0 3).json.pretty "" ∧
      (program 0 1).json.compact ≠ (program 0x8000000000000000 1).json.compact := by
  intro program
  refine ⟨(document_eq_iff (by decide) (by decide)).2.2.mpr rfl, fun same => ?_⟩
  have zeros := (document_eq_iff (by decide) (by decide)).2.1.mp same
  simp [program, Program.widthless, Node.listWidthless, Node.map, Token.widthless] at zeros

end BracketScript
