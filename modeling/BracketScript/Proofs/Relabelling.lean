import BracketScript.Grammar.Run

/-! Parsing sees cues and names only. If tokens are exchanged for others with the same cues, the run
has the same outcome with the other tokens in place. Statements put in front of a program are
carried along, so that a relabelling may add some. -/
namespace BracketScript

variable {ν ν' τ τ' : Type}

namespace Node

variable (name : ν → ν') (token : τ → τ')

mutual

def map : Node ν τ → Node ν' τ'
  | block body => .block (listMap body)
  | function n parameters body => .function (name n) (parameters.map name) (listMap body)
  | lambda parameters body => .lambda (parameters.map name) (listMap body)
  | guarded guard condition body => .guarded guard (map condition) (listMap body)
  | loop init condition step body =>
    .loop (optionMap init) (optionMap condition) (optionMap step) (listMap body)
  | binding n value => .binding (name n) (map value)
  | assignment target value => .assignment (token target) (map value)
  | enumeration names => .enumeration (names.map name)
  | result value => .result (map value)
  | jump j => .jump j
  | list elements => .list (listMap elements)
  | access of keys => .access (map of) (listMap keys)
  | unary op operand => .unary op (map operand)
  | binary op left right => .binary op (map left) (map right)
  | leaf t => .leaf (token t)

def listMap : List (Node ν τ) → List (Node ν' τ')
  | [] => []
  | node :: nodes => map node :: listMap nodes

def optionMap : Option (Node ν τ) → Option (Node ν' τ')
  | none => none
  | some node => some (map node)

end

@[simp] theorem listMap_eq (nodes : List (Node ν τ)) :
    listMap name token nodes = nodes.map (map name token) := by
  induction nodes with
  | nil => rfl
  | cons node nodes ih => rw [listMap, ih, List.map_cons]

@[simp] theorem optionMap_eq (node : Option (Node ν τ)) :
    optionMap name token node = node.map (map name token) := by
  cases node <;> rfl

end Node

variable (ν ν' τ τ') in
/-- A map of names and tokens, and statements to put in front of a program. -/
structure Relabelling where
  name : ν → ν'
  token : τ → τ'
  lead : List (Node ν' τ')

namespace Relabelling

variable (r : Relabelling ν ν' τ τ')

def node : Node ν τ → Node ν' τ' := .map r.name r.token

def wrapper : Wrapper ν τ → Wrapper ν' τ'
  | .unary op => .unary op
  | .key of => .key (r.node of)
  | .binding name => .binding (r.name name)
  | .assignment target => .assignment (r.token target)
  | .result => .result

def header : Header ν τ → Header ν' τ'
  | .block => .block
  | .function name parameters => .function (r.name name) (parameters.map r.name)
  | .lambda parameters => .lambda (parameters.map r.name)
  | .guarded guard condition => .guarded guard (r.node condition)
  | .loop init condition step =>
    .loop (init.map r.node) (condition.map r.node) (step.map r.node)

def frame : Frame ν τ → Frame ν' τ'
  | .wrap w => .wrap (r.wrapper w)
  | .binary tier op left => .binary tier op (r.node left)
  | .expression => .expression
  | .list before => .list (before.map r.node)
  | .condition guard => .condition guard
  | .loopInit => .loopInit
  | .loopCondition init => .loopCondition (init.map r.node)
  | .loopStep init condition => .loopStep (init.map r.node) (condition.map r.node)
  | .body header before => .body (r.header header) (before.map r.node)
  | .program before => .program (r.lead ++ before.map r.node)

def focus : Focus ν τ → Focus ν' τ'
  | .statement => .statement
  | .operand => .operand
  | .atom bangs => .atom bangs
  | .symbol t jump => .symbol (r.token t) jump
  | .leaf t => .leaf (r.token t)
  | .primary node => .primary (r.node node)
  | .whole node => .whole (r.node node)
  | .await kind next => .await kind (focus next)
  | .functionName => .functionName
  | .bindingName => .bindingName
  | .parameterFirst owner => .parameterFirst (owner.map r.name)
  | .parameterNext owner before => .parameterNext (owner.map r.name) (before.map r.name)
  | .parameterEnd owner before => .parameterEnd (owner.map r.name) (before.map r.name)
  | .enumGap names => .enumGap (names.map r.name)
  | .enumEnd names => .enumEnd (names.map r.name)

def config (c : Config ν τ) : Config ν' τ' := ⟨r.focus c.focus, c.frames.map r.frame⟩

/-- Statements go in front only where the outermost frame is that of a program. -/
def Grounded : List (Frame ν τ) → Prop
  | [] => r.lead = []
  | .program _ :: _ => True
  | _ :: outer => Grounded outer

/-- The second move is the relabelling of the first. -/
inductive Follows : Move ν τ → Move ν' τ' → Prop where
  | shift {next : τ → Config ν τ} {next' : τ' → Config ν' τ'} :
      (∀ t, r.Grounded (next t).frames ∧ next' (r.token t) = r.config (next t)) →
      Follows (.shift next) (.shift next')
  | accept {nodes : List (Node ν τ)} :
      Follows (.accept nodes) (.accept (r.lead ++ nodes.map r.node))
  | reject {expected : Expected} : Follows (.reject expected) (.reject expected)

variable {r} {c : Cue} {frames : List (Frame ν τ)}

namespace Follows

theorem skip {focus : Focus ν τ} {focus' : Focus ν' τ'} {frames' : List (Frame ν' τ')}
    (grounded : r.Grounded frames) (same : r.focus focus = focus')
    (around : frames.map r.frame = frames') :
    r.Follows (.skip focus frames) (.skip focus' frames') := by
  subst same around
  exact .shift fun _ => ⟨grounded, rfl⟩

theorem when {kind : Kind} {move : Move ν τ} {move' : Move ν' τ'} (follows : r.Follows move move') :
    r.Follows (.when c kind move) (.when c kind move') := by
  unfold Move.when
  split
  · exact follows
  · exact .reject

theorem given {node : Option (Node ν τ)} {move : Node ν τ → Move ν τ}
    {move' : Node ν' τ' → Move ν' τ'} (follows : ∀ n, r.Follows (move n) (move' (r.node n))) :
    r.Follows (.given node move) (.given (node.map r.node) move') := by
  cases node with
  | none => exact .reject
  | some n => exact follows n

theorem awaitBody (grounded : r.Grounded frames) (header : Header ν τ) :
    r.Follows (Frame.awaitBody header frames)
      (Frame.awaitBody (r.header header) (frames.map r.frame)) :=
  .skip grounded rfl rfl

theorem openList (grounded : r.Grounded frames) :
    r.Follows (Frame.openList frames) (Frame.openList (frames.map r.frame)) :=
  .skip grounded rfl rfl

end Follows

@[simp] theorem wrapper_node (w : Wrapper ν τ) (n : Node ν τ) :
    (r.wrapper w).node (r.node n) = r.node (w.node n) := by
  cases w <;> simp [wrapper, Wrapper.node, node, Node.map]

theorem header_close (h : Header ν τ) (body : List (Node ν τ)) :
    r.focus (h.close body) = (r.header h).close (body.map r.node) := by
  cases h <;> simp [header, Header.close, Header.node, focus, node, Node.map]

theorem header_ofParameters (owner : Option ν) (parameters : List ν) :
    r.header (.ofParameters owner parameters) =
      .ofParameters (owner.map r.name) (parameters.map r.name) := by
  cases owner <;> rfl

namespace Follows

theorem deliver (grounded : r.Grounded frames) (c : Cue) (n : Option (Node ν τ)) :
    r.Follows (Frame.deliver c n frames)
      (Frame.deliver c (n.map r.node) (frames.map r.frame)) := by
  induction frames generalizing n with
  | nil =>
    have same : (n.map r.node).toList = r.lead ++ n.toList.map r.node := by
      rw [show r.lead = [] from grounded]
      cases n <;> rfl
    simp only [Frame.deliver, List.map_nil, same]
    exact .accept
  | cons frame outer ih =>
    cases frame with
    | wrap w => exact .given fun n => wrapper_node w n ▸ ih grounded (some (w.node n))
    | binary tier op left =>
      refine .given fun n => ?_
      split
      · exact .skip grounded rfl rfl
      · exact ih grounded (some (.binary op left n))
    | expression =>
      simp only [Frame.deliver, List.map_cons, Relabelling.frame]
      split
      · exact .given fun n => .skip grounded rfl rfl
      · exact ih grounded n
    | list before =>
      simp only [Frame.deliver, List.map_cons, Relabelling.frame, Option.isNone_map,
        List.isEmpty_map]
      split
      · exact .when (.skip grounded (by simp [focus, node, Node.map]) rfl)
      · refine .given fun n => ?_
        split
        · exact .skip grounded rfl (by simp [Relabelling.frame])
        · exact .when (.skip grounded (by simp [focus, node, Node.map]) rfl)
    | condition guard =>
      have outside : r.Grounded outer := grounded
      exact .given fun n => .when (.awaitBody outside (.guarded guard n))
    | loopInit => exact .when (.skip grounded rfl rfl)
    | loopCondition init => exact .when (.skip grounded rfl rfl)
    | loopStep init test =>
      have outside : r.Grounded outer := grounded
      exact .when (.awaitBody outside (.loop init test n))
    | body header before =>
      have same : before.map r.node ++ (n.map r.node).toList =
          (before ++ n.toList).map r.node := by
        cases n <;> simp
      simp only [Frame.deliver, List.map_cons, Relabelling.frame, same]
      split
      · exact .skip grounded rfl rfl
      · exact .when (.skip grounded (header_close _ _) rfl)
    | program before =>
      have same : r.lead ++ before.map r.node ++ (n.map r.node).toList =
          r.lead ++ (before ++ n.toList).map r.node := by
        cases n <;> simp
      simp only [Frame.deliver, List.map_cons, Relabelling.frame, same]
      split
      · exact .skip trivial rfl rfl
      · exact .when .accept

theorem startAtom (grounded : r.Grounded frames) (c : Cue) {leaf : τ → Focus ν τ}
    {leaf' : τ' → Focus ν' τ'} (same : ∀ t, leaf' (r.token t) = r.focus (leaf t)) :
    r.Follows (Frame.startAtom c leaf frames) (Frame.startAtom c leaf' (frames.map r.frame)) := by
  unfold Frame.startAtom
  split
  · exact .shift fun t => ⟨grounded, by rw [same, config]⟩
  · split
    · exact .openList grounded
    · exact .skip grounded rfl rfl
    · exact .deliver grounded c none

theorem startOperand (grounded : r.Grounded frames) (c : Cue) :
    r.Follows (Frame.startOperand c frames) (Frame.startOperand c (frames.map r.frame)) := by
  unfold Frame.startOperand
  split <;> first
    | exact .skip grounded rfl rfl
    | exact .startAtom grounded c fun _ => rfl

theorem startStatement (grounded : r.Grounded frames) (c : Cue) :
    r.Follows (Frame.startStatement c frames) (Frame.startStatement c (frames.map r.frame)) := by
  have within : r.Grounded (.expression :: frames) := grounded
  unfold Frame.startStatement
  split <;> first
    | exact .skip grounded rfl rfl
    | exact .shift fun t => ⟨grounded, rfl⟩
    | exact .startOperand within c

theorem afterPrimary (grounded : r.Grounded frames) (c : Cue) (n : Node ν τ) :
    r.Follows (Frame.afterPrimary c n frames)
      (Frame.afterPrimary c (r.node n) (frames.map r.frame)) := by
  unfold Frame.afterPrimary
  split <;> first
    | exact .skip grounded rfl rfl
    | exact .deliver grounded c (some n)

theorem afterLeaf (grounded : r.Grounded frames) (c : Cue) (t : τ) :
    r.Follows (Frame.afterLeaf c t frames)
      (Frame.afterLeaf c (r.token t) (frames.map r.frame)) := by
  unfold Frame.afterLeaf
  split <;> first
    | exact .skip grounded rfl rfl
    | exact .afterPrimary grounded c (.leaf t)

theorem afterSymbol (grounded : r.Grounded frames) (c : Cue) (t : τ) (jump : Option Jump) :
    r.Follows (Frame.afterSymbol c t jump frames)
      (Frame.afterSymbol c (r.token t) jump (frames.map r.frame)) := by
  have within : r.Grounded (.expression :: frames) := grounded
  unfold Frame.afterSymbol
  split <;> first
    | exact .skip grounded rfl rfl
    | exact .afterPrimary grounded c (.leaf t)
    | skip
  cases jump with
  | some j => exact .deliver grounded c (some (.jump j))
  | none => exact .afterLeaf within c t

end Follows

/-- Relabelled tokens have the same cues and the relabelled names. -/
structure Preserves (r : Relabelling ν ν' τ τ') (v : Vocabulary ν τ) (v' : Vocabulary ν' τ') :
    Prop where
  cue : ∀ t, v'.cue (r.token t) = v.cue t
  name : ∀ t, v'.name (r.token t) = r.name (v.name t)

variable {v : Vocabulary ν τ} {v' : Vocabulary ν' τ'}

theorem Follows.step (preserves : r.Preserves v v') {state : Config ν τ}
    (grounded : r.Grounded state.frames) (c : Cue) :
    r.Follows (state.step v.name c) ((r.config state).step v'.name c) := by
  obtain ⟨focus, frames⟩ := state
  cases focus with
  | statement => exact .startStatement grounded c
  | operand => exact .startOperand grounded c
  | atom bangs =>
    simp only [Config.step, config, Relabelling.focus]
    split
    · exact .skip grounded rfl rfl
    · exact .startAtom grounded c fun _ => rfl
  | symbol t jump => exact .afterSymbol grounded c t jump
  | leaf t => exact .afterLeaf grounded c t
  | primary n => exact .afterPrimary grounded c n
  | whole n => exact .deliver grounded c (some n)
  | await kind next => exact .when (.skip grounded rfl rfl)
  | functionName =>
    refine .when (.shift fun t => ⟨grounded, ?_⟩)
    rw [preserves.name]
    rfl
  | bindingName =>
    refine .when (.shift fun t => ⟨grounded, ?_⟩)
    rw [preserves.name]
    rfl
  | parameterFirst owner =>
    simp only [Config.step, config, Relabelling.focus]
    split
    · exact header_ofParameters owner [] ▸ .awaitBody grounded _
    · refine .when (.shift fun t => ⟨grounded, ?_⟩)
      rw [preserves.name]
      rfl
  | parameterNext owner before =>
    refine .when (.shift fun t => ⟨grounded, ?_⟩)
    simp [preserves.name, config, Relabelling.focus]
  | parameterEnd owner before =>
    simp only [Config.step, config, Relabelling.focus]
    split
    · exact .skip grounded rfl rfl
    · exact .when (header_ofParameters owner before ▸ .awaitBody grounded _)
  | enumGap names =>
    simp only [Config.step, config, Relabelling.focus, ne_eq, List.map_eq_nil_iff]
    split
    · exact .skip grounded rfl rfl
    · split
      · exact .skip grounded (by simp [Relabelling.focus, node, Node.map]) rfl
      · refine .when (.shift fun t => ⟨grounded, ?_⟩)
        simp [preserves.name, config, Relabelling.focus]
  | enumEnd names =>
    simp only [Config.step, config, Relabelling.focus]
    split
    · exact .skip grounded rfl rfl
    · exact .when (.skip grounded (by simp [Relabelling.focus, node, Node.map]) rfl)

/-- Runs are parametric in names and tokens: relabelling the input relabels the outcome. -/
theorem run (preserves : r.Preserves v v') {state : Config ν τ}
    (grounded : r.Grounded state.frames) (ts : List τ) :
    (r.config state).run v' (ts.map r.token) =
      ((state.run v ts).1.map fun nodes => r.lead ++ nodes.map r.node,
        (state.run v ts).2.map r.token) := by
  induction ts generalizing state with
  | nil =>
    have follows := Follows.step preserves grounded .eof
    rw [List.map_nil, Config.run, Config.run]
    generalize state.step v.name .eof = move, (r.config state).step v'.name .eof = move' at *
    cases follows <;> rfl
  | cons t ts ih =>
    have follows := Follows.step preserves grounded (v.cue t)
    rw [List.map_cons, Config.run, Config.run, preserves.cue]
    generalize state.step v.name (v.cue t) = move,
      (r.config state).step v'.name (v.cue t) = move' at *
    cases follows with
    | shift next =>
      obtain ⟨grounded, same⟩ := next t
      simp only [same, ih grounded]
    | accept => rfl
    | reject => rfl

end Relabelling

end BracketScript
