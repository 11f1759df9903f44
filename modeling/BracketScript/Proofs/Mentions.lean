import BracketScript.Proofs.Concatenation
import BracketScript.Proofs.Respacing

/-! No name and no literal is lost, repeated or moved from a source to its program. The mentions
of a program are its names and literals in the order of the source; the tokens that are no
punctuation are these mentions one by one, and a walk comes upon the literals in their order. -/
namespace BracketScript

inductive Mention (ν τ : Type) where
  | name (name : ν)
  | target (token : τ)
  | literal (token : τ)
  | jump (jump : Jump)

variable {ν τ : Type}

namespace Node

mutual

/-- The names and literals of a node, in source order. -/
def mentions : Node ν τ → List (Mention ν τ)
  | block body => listMentions body
  | function name parameters body => .name name :: parameters.map .name ++ listMentions body
  | lambda parameters body => parameters.map .name ++ listMentions body
  | guarded _ condition body => condition.mentions ++ listMentions body
  | loop init condition step body =>
    optionMentions init ++ optionMentions condition ++ optionMentions step ++ listMentions body
  | binding name value => .name name :: value.mentions
  | assignment target value => .target target :: value.mentions
  | enumeration names => names.map .name
  | result value => value.mentions
  | jump j => [.jump j]
  | list elements => listMentions elements
  | access of keys => of.mentions ++ listMentions keys
  | unary _ operand => operand.mentions
  | binary _ left right => left.mentions ++ right.mentions
  | leaf token => [.literal token]

def listMentions : List (Node ν τ) → List (Mention ν τ)
  | [] => []
  | node :: nodes => node.mentions ++ listMentions nodes

def optionMentions : Option (Node ν τ) → List (Mention ν τ)
  | none => []
  | some node => node.mentions

end

@[simp] theorem listMentions_append (ns ms : List (Node ν τ)) :
    listMentions (ns ++ ms) = listMentions ns ++ listMentions ms := by
  induction ns with
  | nil => rfl
  | cons n ns ih => rw [List.cons_append, listMentions, listMentions, ih, List.append_assoc]

@[simp] theorem listMentions_toList (node : Option (Node ν τ)) :
    listMentions node.toList = optionMentions node := by
  cases node <;> simp [listMentions, optionMentions]

end Node

def Program.mentions (p : Program) : List (Mention String Token) := Node.listMentions p.statements

def Mention.literal? : Mention ν τ → Option τ
  | literal token => some token
  | _ => none

def Event.literal? : Event ν τ → Option τ
  | enter (.leaf token) => some token
  | _ => none

namespace Node

theorem filterMap_bodyWalk {α : Type} {f : Event ν τ → Option α} (size : Nat)
    (opens : f (.openBody size) = none) (closes : f .closeBody = none)
    (inner : List (Event ν τ)) : (bodyWalk size inner).filterMap f = inner.filterMap f := by
  simp [bodyWalk, opens, closes]

@[simp] theorem literals_bodyWalk (size : Nat) (inner : List (Event ν τ)) :
    (bodyWalk size inner).filterMap Event.literal? = inner.filterMap Event.literal? :=
  filterMap_bodyWalk size rfl rfl inner

@[simp] theorem literals_names (names : List ν) :
    names.filterMap ((Mention.literal? : Mention ν τ → Option τ) ∘ .name) = [] := by
  simp [Mention.literal?]

mutual

/-- A walk enters the literals of a node in the order of their mentions. -/
theorem literals_walk (node : Node ν τ) :
    node.walk.filterMap Event.literal? = node.mentions.filterMap Mention.literal? := by
  rw [walk.eq_def]
  cases node with
  | block body | lambda _ body | function _ _ body =>
    have inner := literals_listWalk body
    simp [mentions, List.filterMap_cons, Event.literal?, Mention.literal?, inner]
  | guarded _ condition body =>
    have test := literals_walk condition
    have inner := literals_listWalk body
    simp [mentions, List.filterMap_cons, Event.literal?, test, inner]
  | loop init condition step body =>
    have first := literals_optionWalk init
    have second := literals_optionWalk condition
    have third := literals_optionWalk step
    have inner := literals_listWalk body
    simp [mentions, List.filterMap_cons, Event.literal?, first, second, third, inner]
  | binding _ value | assignment _ value | result value | unary _ value =>
    have inner := literals_walk value
    simp [mentions, List.filterMap_cons, Event.literal?, Mention.literal?, inner]
  | enumeration | jump | leaf =>
    simp [mentions, List.filterMap_cons, Event.literal?, Mention.literal?]
  | list elements =>
    have inner := literals_listWalk elements
    simp [mentions, List.filterMap_cons, Event.literal?, inner]
  | access of keys =>
    have first := literals_walk of
    have others := literals_listWalk keys
    simp [mentions, List.filterMap_cons, Event.literal?, first, others]
  | binary _ left right =>
    have front := literals_walk left
    have back := literals_walk right
    simp [mentions, List.filterMap_cons, Event.literal?, front, back]
termination_by structural node

theorem literals_listWalk (nodes : List (Node ν τ)) :
    (listWalk nodes).filterMap Event.literal? =
      (listMentions nodes).filterMap Mention.literal? := by
  cases nodes with
  | nil => rfl
  | cons node nodes =>
    rw [listWalk, listMentions, List.filterMap_append, List.filterMap_append, literals_walk node,
      literals_listWalk nodes]
termination_by structural nodes

theorem literals_optionWalk (node : Option (Node ν τ)) :
    (optionWalk node).filterMap Event.literal? =
      (optionMentions node).filterMap Mention.literal? := by
  cases node with
  | none => rfl
  | some node => exact literals_walk node
termination_by structural node

end

end Node

/-- How a leaf token appears in a program: as the token itself, or as its text where only a name is
kept. -/
def Token.MentionedAs (t : Token) : Mention String Token → Prop
  | .name name => t.kind = .symbol ∧ t.text? = some name
  | .target token => t.kind = .symbol ∧ t = token
  | .literal token => t = token
  | .jump j => t.Jumps j

/-- A symbol carries the text that displays it. -/
def Token.Named (t : Token) : Prop := t.kind = .symbol → t.text? = some t.payload.display

def Phrase.mentions : Phrase → List (Mention String Token)
  | statements ns | furtherStatements ns | body ns | furtherElements ns => Node.listMentions ns
  | statementOption node | expressionOption node => Node.optionMentions node
  | statement n | expression _ n | unary n | banged n | atom n | primary n => n.mentions

/-- Leaf tokens and mentions correspond one to one, in order. -/
def Mentioned (us : List Token) (ms : List (Mention String Token)) : Prop :=
  (∀ t ∈ us, t.Named) → (us.filter (·.kind.isLeaf)).Forall₂ Token.MentionedAs ms

namespace Mentioned

variable {t : Token} {us ts : List Token} {m : Mention String Token}
  {ms further : List (Mention String Token)}

theorem nil : Mentioned [] [] := fun _ => .nil

theorem append (front : Mentioned us ms) (back : Mentioned ts further) :
    Mentioned (us ++ ts) (ms ++ further) := by
  intro named
  obtain ⟨left, right⟩ := List.forall_mem_append.mp named
  rw [List.filter_append]
  exact List.rel_append (front left) (back right)

theorem skip {kind : Kind} (is : t.kind = kind) (mentioned : Mentioned us ms)
    (other : kind.isLeaf = false := by decide) : Mentioned (t :: us) ms := by
  intro named
  rw [List.filter_cons_of_neg (by simp [is, other])]
  exact mentioned (List.forall_mem_cons.mp named).2

theorem keep (leaf : t.kind.isLeaf = true) (as : t.Named → t.MentionedAs m)
    (mentioned : Mentioned us ms) : Mentioned (t :: us) (m :: ms) := by
  intro named
  obtain ⟨first, others⟩ := List.forall_mem_cons.mp named
  rw [List.filter_cons_of_pos (by simpa using leaf)]
  exact .cons (as first) (mentioned others)

theorem name (symbol : t.kind = .symbol) (mentioned : Mentioned us ms) :
    Mentioned (t :: us) (.name t.payload.display :: ms) := by
  apply mentioned.keep
  · rw [symbol]
    rfl
  · intro named
    exact ⟨symbol, named symbol⟩

theorem bracketed {l r : Token} (open_ : l.kind = .leftBracket) (mentioned : Mentioned us ms)
    (close : r.kind = .rightBracket) : Mentioned (l :: (us ++ [r])) ms := by
  have whole := skip open_ (mentioned.append (skip close nil))
  rwa [List.append_nil] at whole

theorem of_separators (separators : Separators us) : Mentioned us [] := by
  induction us with
  | nil => exact nil
  | cons s us ih =>
    obtain ⟨separator, further⟩ := List.forall_mem_cons.mp separators
    refine (ih further).skip rfl ?_
    generalize s.kind = kind at separator
    cases kind <;> first | contradiction | rfl

theorem of_furtherParameters {ps : List String} (further : FurtherParameters ps us) :
    Mentioned us (ps.map .name) := by
  induction further with
  | done => exact nil
  | more comma symbol _ ih => exact .skip comma (.name symbol ih)

theorem of_parameters {ps : List String} (parameters : Parameters ps us) :
    Mentioned us (ps.map .name) := by
  cases parameters with
  | none open_ close => exact .bracketed open_ nil close
  | some open_ symbol further close =>
    exact .bracketed open_ (.name symbol (.of_furtherParameters further)) close

theorem of_furtherNames {names : List String} (further : FurtherNames names us) :
    Mentioned us (names.map .name) := by
  induction further with
  | done => exact nil
  | more separators _ symbol _ ih => exact .append (.of_separators separators) (.name symbol ih)

end Mentioned

theorem Token.Operates.not_isLeaf {o : Token} {tier : Tier} {op : BinaryOp}
    (operates : o.Operates tier op) : o.kind.isLeaf = false := by
  have kind := operates.kind
  generalize o.kind = kind' at *
  cases kind' <;> first | contradiction | rfl

theorem UnaryOp.not_isLeaf_of_front {op : UnaryOp} {kind : Kind}
    (is : op.frontKind? = some kind) : kind.isLeaf = false := by
  cases op <;> cases is <;> rfl

theorem UnaryOp.not_isLeaf_of_back {op : UnaryOp} {kind : Kind}
    (is : op.backKind? = some kind) : kind.isLeaf = false := by
  cases op <;> cases is <;> rfl

/-- By induction on the derivation, the mentions of a phrase follow its leaf tokens one to one. -/
theorem Derives.mentioned {phrase : Phrase} {us : List Token} (derived : Derives phrase us) :
    Mentioned us phrase.mentions := by
  induction derived with
  | statements _ _ first others =>
    have whole := first.append others
    simpa [Phrase.mentions] using whole
  | noFurtherStatements | noStatement | noExpression | noFurtherElements => exact .nil
  | furtherStatements separator _ _ first others =>
    have whole := (Mentioned.of_separators (List.forall_mem_singleton.mpr separator)).append
      (first.append others)
    simpa [Phrase.mentions] using whole
  | someStatement _ ih | someExpression _ ih | tighter _ ih | operand _ ih | bare _ ih
  | bangless _ ih | accessless _ ih | access _ _ _ ih | plain _ _ ih | block _ ih => exact ih
  | body open_ _ close ih => exact .bracketed open_ ih close
  | function keyword symbol parameters _ ih =>
    exact .skip keyword (.name symbol (.append (.of_parameters parameters) ih))
  | @guarded _ _ _ guard _ _ us ts keyword open_ _ close _ test body =>
    have word : guard.word.isLeaf = false := by cases guard <;> rfl
    exact .skip keyword (.skip open_ (test.append (.skip close body))) word
  | loop keyword open_ _ sep _ sep' _ close _ init test step body =>
    have parts := test.append (.skip sep' (step.append (.skip close body)))
    have whole := init.append (.skip sep parts)
    simpa [Phrase.mentions, Node.mentions] using Mentioned.skip keyword (.skip open_ whole)
  | binding keyword symbol assign _ ih =>
    exact .skip keyword (.name symbol (.skip assign ih))
  | enumeration keyword open_ front symbol further back close =>
    have names := (Mentioned.of_separators front).append
      (.name symbol ((Mentioned.of_furtherNames further).append (.of_separators back)))
    have whole := Mentioned.skip keyword (.bracketed open_ names close)
    simpa [Phrase.mentions, Node.mentions] using whole
  | result keyword _ ih => exact .skip keyword ih
  | assignment symbol assign _ ih =>
    refine .keep (by rw [symbol]; rfl) ?_ (.skip assign ih)
    exact fun _ => ⟨symbol, rfl⟩
  | jump jumps => exact .keep (by rw [jumps.kind]; rfl) (fun _ => jumps) .nil
  | binary _ operates _ left right => exact left.append (.skip rfl right operates.not_isLeaf)
  | front kind _ ih => exact .skip rfl ih (UnaryOp.not_isLeaf_of_front kind)
  | bangs is _ ih | bang is _ ih => exact .skip is ih
  | back leaf kind =>
    have step := Mentioned.skip rfl .nil (UnaryOp.not_isLeaf_of_back kind)
    exact .keep leaf (fun _ => rfl) step
  | member _ period _ left right =>
    have whole := left.append (.skip period right)
    simpa [Phrase.mentions, Node.mentions, Node.listMentions] using whole
  | index _ _ _ left right =>
    have whole := left.append right
    simpa [Phrase.mentions, Node.mentions, Node.listMentions] using whole
  | leaf leaf => exact .keep leaf (fun _ => rfl) .nil
  | emptyList open_ close => exact .bracketed open_ .nil close
  | list open_ _ _ close first others =>
    have whole := Mentioned.bracketed open_ (first.append others) close
    rwa [List.append_assoc] at whole
  | lambda arrow parameters _ ih => exact .skip arrow (.append (.of_parameters parameters) ih)
  | furtherElements comma _ _ first others => exact .skip comma (first.append others)

/-- The payload of a lexeme other than a numeral is a text. -/
theorem Spelling.text {kind : Kind} {payload : Payload} {lexeme : List Char}
    (spelled : Spelling kind payload lexeme) (other : kind ≠ .num) :
    payload = .text payload.display := by
  cases spelled with
  | whole | places => contradiction
  | _ => rfl

theorem Layout.named {ts : List Token} {text : List Char} (laid : Layout ts text) :
    ∀ t ∈ ts, t.Named := by
  intro t member symbol
  obtain ⟨lexeme, spelled⟩ := laid.spelled t member
  rw [Token.text?, spelled.text (by simp [symbol])]
  rfl

/-- The literals mentioned form a sublist of the tokens. -/
theorem literals_sublist {us : List Token} {ms : List (Mention String Token)}
    (mentioned : us.Forall₂ Token.MentionedAs ms) :
    (ms.filterMap Mention.literal?).Sublist us := by
  induction mentioned with
  | nil => exact .slnil
  | @cons t m _ _ as _ ih =>
    cases m with
    | literal token =>
      obtain rfl : t = token := as
      exact ih.cons_cons t
    | _ => exact ih.cons t

theorem Placed.pairwise {before text : List Char} {ts : List Token} {e : Option LexError}
    (placed : Placed before text ts e) :
    ts.Pairwise fun a b => a.position.before b.position = true := by
  have steps : ts.IsChain fun a b => a.position.before b.position = true :=
    placed.isChain.imp fun _ _ precedes => precedes.2
  have : IsTrans Token fun a b => a.position.before b.position = true := by
    constructor
    intro a b c first second
    rw [Position.before_iff] at first second ⊢
    omega
  exact steps.pairwise

/-- The names and literals of a program correspond to the leaf tokens of its source in order, and a
walk enters the literals at increasing positions. -/
theorem mentions_of_scanned {source : Source} {ts : List Token} {p : Program}
    (scanned : tokenize source = .ok ts) (parsed : parse ts = .ok p) :
    (ts.filter (·.kind.isLeaf)).Forall₂ Token.MentionedAs p.mentions ∧
      p.walk.filterMap Event.literal? = p.mentions.filterMap Mention.literal? ∧
      (p.walk.filterMap Event.literal?).Pairwise
        fun a b => a.position.before b.position = true := by
  have reads := Scanner.tokens_eq_ok_iff.mp scanned
  have mentioned : (ts.filter (·.kind.isLeaf)).Forall₂ Token.MentionedAs p.mentions :=
    (derives_of_parse reads.endless parsed).mentioned reads.layout.named
  have entered : p.walk.filterMap Event.literal? = p.mentions.filterMap Mention.literal? :=
    Node.literals_listWalk p.statements
  have placed := placed_of_tokenize scanned
  refine ⟨mentioned, entered, ?_⟩
  rw [entered]
  exact placed.pairwise.sublist ((literals_sublist mentioned).trans List.filter_sublist)

theorem mentions_of_scanned_block :
    let source := Source.ofContent "a=2-b;break"
    let a : Token := ⟨.symbol, .text "a", 1, 1, 1⟩
    let two : Token := ⟨.num, .number (Decimal.mk 2 0).toNumber, 1, 3, 1⟩
    let b : Token := ⟨.symbol, .text "b", 1, 5, 1⟩
    let word : Token := ⟨.symbol, .text "break", 1, 7, 5⟩
    let ts := [a, ⟨.assign, .text "=", 1, 2, 1⟩, two, ⟨.minus, .text "-", 1, 4, 1⟩, b,
      ⟨.semicolon, .text ";", 1, 6, 1⟩, word]
    let p : Program := ⟨[.assignment a (.binary .sub (.leaf two) (.leaf b)), .jump .breakLoop]⟩
    tokenize source = .ok ts ∧ parse ts = .ok p ∧
      [a, two, b, word].Forall₂ Token.MentionedAs
        [.target a, .literal two, .literal b, .jump .breakLoop] ∧
      p.walk.filterMap Event.literal? = [two, b] ∧
      [two, b].Pairwise fun a b => a.position.before b.position = true := by
  intro source a two b word ts p
  have start : Scanner.ofSource source =
      ⟨['a', '=', '2', '-', 'b', ';', 'b', 'r', 'e', 'a', 'k'], 0, ⟨1, 1⟩⟩ := by cbv
  have scanned : (Scanner.ofSource source).Reads ts := by
    rw [start]
    refine .cons .none rfl rfl (by decide) rfl ?_
    refine .cons .none rfl rfl (by decide) rfl ?_
    refine .cons .none rfl rfl (by decide) rfl ?_
    refine .cons .none rfl rfl (by decide) rfl ?_
    refine .cons .none rfl rfl (by decide) rfl ?_
    refine .cons .none rfl rfl (by decide) rfl ?_
    exact .cons .none rfl rfl (by decide) rfl (.finish .none)
  have ok := Scanner.tokens_eq_ok_iff.mpr scanned
  have parsed : parse ts = .ok p := rfl
  exact ⟨ok, parsed, mentions_of_scanned ok parsed⟩

end BracketScript
