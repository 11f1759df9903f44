import BracketScript.Node.Document
import BracketScript.Proofs.Mentions

/-! A walk and a document tell the same nodes in the same order. The objects of a document name
their types; those of the program itself, of bodies and of the targets of assignments are no
nodes, and are told by the member that they are. Every other type is the kind of a node that a
walk enters, with no node forgotten, repeated or moved. -/
namespace BracketScript

namespace Json

inductive Site where
  | root
  | item
  /-- in an object, whose own type is the owner -/
  | member (owner : Option String) (name : String)

structure TypeField where
  site : Site
  type : String

def string? : Json → Option String
  | string value => some value
  | _ => none

def ownType? (members : List (String × Json)) : Option String :=
  (members.lookup "type").bind string?

mutual

/-- The types named in a document with their sites, in document order. -/
def typeFields (site : Site) : Json → List TypeField
  | array items => itemsTypeFields items
  | object members => membersTypeFields site (ownType? members) members
  | _ => []

def itemsTypeFields : List Json → List TypeField
  | [] => []
  | item :: items => item.typeFields .item ++ itemsTypeFields items

def membersTypeFields (site : Site) (owner : Option String) :
    List (String × Json) → List TypeField
  | [] => []
  | (name, value) :: members =>
    (if name = "type" then value.string?.toList.map (⟨site, ·⟩) else []) ++
      value.typeFields (.member owner name) ++ membersTypeFields site owner members

end

namespace Site

/-- The constructs whose bodies a walk does not enter as nodes. -/
def bodied : List String := ["func_def", "lambda", "if_s", "while_s", "for_s"]

/-- The sites that a walk does not enter: the program, bodies of constructs, and targets. -/
def IsNodeless : Site → Prop
  | root => True
  | item => False
  | member owner name =>
    name = "body" ∧ (∃ type ∈ bodied, owner = some type) ∨
      name = "var_name" ∧ owner = some "assign"

instance : (site : Site) → Decidable site.IsNodeless
  | root => isTrue trivial
  | item => isFalse id
  | member _ _ => inferInstanceAs (Decidable (_ ∨ _))

end Site

/-- The types at the sites that a walk enters. -/
def nodeTypes (fields : List TypeField) : List String :=
  (fields.filter fun field => ¬ field.site.IsNodeless).map TypeField.type

end Json

def Event.enteredKind? {ν : Type} : Event ν Token → Option String
  | enter node => some node.kindName
  | _ => none

def enteredKinds {ν : Type} (walk : List (Event ν Token)) : List String :=
  walk.filterMap Event.enteredKind?

section Walks

variable {ν : Type} (node : Node ν Token) (w w' : List (Event ν Token))

@[simp] theorem enteredKinds_append : enteredKinds (w ++ w') = enteredKinds w ++ enteredKinds w' :=
  List.filterMap_append

@[simp] theorem enteredKinds_enter :
    enteredKinds (.enter node :: w) = node.kindName :: enteredKinds w := rfl

@[simp] theorem enteredKinds_leave : enteredKinds (.leave :: w) = enteredKinds w := rfl

@[simp] theorem enteredKinds_nil : enteredKinds ([] : List (Event ν Token)) = [] := rfl

@[simp] theorem enteredKinds_bodyWalk (size : Nat) :
    enteredKinds (Node.bodyWalk size w) = enteredKinds w :=
  Node.filterMap_bodyWalk size rfl rfl w

end Walks

namespace Json

variable {site : Site} {owner : Option String} {name type : String} {value : Json}
  {members : List (String × Json)} {fields fields' : List TypeField}

@[simp] theorem nodeTypes_nil : nodeTypes [] = [] := rfl

@[simp] theorem nodeTypes_append :
    nodeTypes (fields ++ fields') = nodeTypes fields ++ nodeTypes fields' := by
  simp [nodeTypes]

@[simp] theorem nodeTypes_members_nil : nodeTypes (membersTypeFields site owner []) = [] := rfl

@[simp] theorem nodeTypes_members_cons (other : name ≠ "type") :
    nodeTypes (membersTypeFields site owner ((name, value) :: members)) =
      nodeTypes (value.typeFields (.member owner name)) ++
        nodeTypes (membersTypeFields site owner members) := by
  rw [membersTypeFields, if_neg other, List.nil_append, nodeTypes_append]

/-- A tagged object contributes its own type before those of its members. -/
@[simp] theorem nodeTypes_tagged :
    nodeTypes ((tagged type members).typeFields site) =
      (if site.IsNodeless then [] else [type]) ++
        nodeTypes (membersTypeFields site (some type) members) := by
  change nodeTypes (⟨site, type⟩ :: membersTypeFields site (some type) members) = _
  by_cases nodeless : site.IsNodeless <;> simp [nodeTypes, nodeless]

@[simp] theorem nodeTypes_array {items : List Json} :
    nodeTypes ((array items).typeFields site) = nodeTypes (itemsTypeFields items) := rfl

@[simp] theorem nodeTypes_string {text : String} :
    nodeTypes ((string text).typeFields site) = [] := rfl

@[simp] theorem nodeTypes_null : nodeTypes (null.typeFields site) = [] := rfl

@[simp] theorem nodeTypes_namesJson (names : List String) :
    nodeTypes ((Node.namesJson names).typeFields site) = [] := by
  induction names with
  | nil => rfl
  | cons name names ih => exact ih

@[simp] theorem nodeTypes_leafJson (t : Token) :
    nodeTypes (t.leafJson.typeFields site) = if site.IsNodeless then [] else [t.kind.name] := by
  obtain ⟨kind, payload, line, col, width⟩ := t
  cases payload <;> simp [Token.leafJson, Payload.json, typeFields]

@[simp] theorem nodeTypes_bodyJson (statements : List Json) :
    nodeTypes ((Node.bodyJson statements).typeFields site) =
      (if site.IsNodeless then [] else ["block"]) ++ nodeTypes (itemsTypeFields statements) := by
  simp [Node.bodyJson]

end Json

namespace Json.Site

variable {owner : Option String} {name : String}

@[simp] theorem not_isNodeless_member (body : name ≠ "body") (target : name ≠ "var_name") :
    ¬ (member owner name).IsNodeless := by
  rintro (⟨is, _⟩ | ⟨is, _⟩) <;> contradiction

@[simp] theorem isNodeless_body {type : String} :
    (member (some type) "body").IsNodeless ↔ type ∈ bodied := by
  simp [IsNodeless]

@[simp] theorem isNodeless_target : (member (some "assign") "var_name").IsNodeless :=
  .inr ⟨rfl, rfl⟩

@[simp] theorem not_isNodeless_item : ¬ item.IsNodeless := id

end Json.Site

namespace Node

open Json

mutual

/-- By induction on nodes, the document lists the kinds that a walk enters. -/
theorem nodeTypes_json (n : Tree) (site : Site) (stands : ¬ site.IsNodeless) :
    nodeTypes (n.json.typeFields site) = enteredKinds n.walk := by
  -- The parts of a node are members where nodes stand; only the body of a construct and the target
  -- are not, and the walk enters nothing for them.
  rw [walk.eq_def]
  cases n with
  | block body =>
    have inner := nodeTypes_listJson body
    simp [json, kindName, stands, inner]
  | function _ _ body | lambda _ body =>
    have inner := nodeTypes_listJson body
    simp [json, kindName, stands, inner, Site.bodied]
  | guarded guard condition body =>
    have test := nodeTypes_json condition
    have inner := nodeTypes_listJson body
    cases guard <;> simp [json, kindName, Guard.name, stands, test, inner, Site.bodied]
  | loop init condition step body =>
    have first := nodeTypes_optionJson init
    have second := nodeTypes_optionJson condition
    have third := nodeTypes_optionJson step
    have inner := nodeTypes_listJson body
    simp [json, kindName, stands, first, second, third, inner, Site.bodied]
  | binding _ value | assignment _ value | result value =>
    have inner := nodeTypes_json value
    simp [json, kindName, stands, inner]
  | unary op value =>
    have inner := nodeTypes_json value
    cases op <;> simp [json, kindName, UnaryOp.operandName, stands, inner]
  | enumeration names => simp [json, kindName, stands]
  | jump j => simp [json, kindName, stands]
  | list elements =>
    have inner := nodeTypes_listJson elements
    simp [json, kindName, stands, inner]
  | access of keys =>
    have first := nodeTypes_json of
    have others := nodeTypes_listJson keys
    simp [json, kindName, stands, first, others]
  | binary op left right =>
    have front := nodeTypes_json left
    have back := nodeTypes_json right
    simp [json, kindName, stands, front, back]
  | leaf token => simp [json, kindName, stands]
termination_by structural n

theorem nodeTypes_listJson (ns : List Tree) :
    nodeTypes (itemsTypeFields (listJson ns)) = enteredKinds (listWalk ns) := by
  cases ns with
  | nil => rfl
  | cons n ns =>
    have first := nodeTypes_json n .item Site.not_isNodeless_item
    have others := nodeTypes_listJson ns
    simp [listJson, itemsTypeFields, listWalk, first, others]
termination_by structural ns

theorem nodeTypes_optionJson (n : Option Tree) (site : Site) (stands : ¬ site.IsNodeless) :
    nodeTypes ((optionJson n).typeFields site) = enteredKinds (optionWalk n) := by
  cases n with
  | none => rfl
  | some n => exact nodeTypes_json n site stands

end

end Node

/-- The kinds entered on a walk are, in order, the `type` members of the document, except those of
the program, of bodies and of assignment targets. -/
theorem enteredKinds_walk (p : Program) :
    enteredKinds p.walk =
      ((p.json.typeFields .root).filter fun field => ¬ field.site.IsNodeless).map
        Json.TypeField.type := by
  have inner := Node.nodeTypes_listJson p.statements
  change _ = Json.nodeTypes _
  simp [Program.json, Program.walk, inner, Json.Site.IsNodeless]

/-- The target of an assignment names a type, and is no node. -/
example (x y : Token) :
    (Program.json ⟨[.assignment x (.leaf y)]⟩).typeFields .root =
      [⟨.root, "program"⟩, ⟨.item, "assign"⟩,
        ⟨.member (some "assign") "var_name", x.kind.name⟩,
        ⟨.member (some "assign") "exp", y.kind.name⟩] := by
  obtain ⟨_, payload, _, _, _⟩ := x
  obtain ⟨_, payload', _, _, _⟩ := y
  cases payload <;> cases payload' <;> rfl

end BracketScript
