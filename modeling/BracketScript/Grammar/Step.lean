import BracketScript.Grammar.Phrase

/-! One step of reading. A node that is complete goes to the phrase around it, which may be
complete with it in turn; the cue of the next token decides how far. -/
namespace BracketScript

variable {ν τ : Type}

/-- Takes the next token without keeping it. -/
def Move.skip (focus : Focus ν τ) (frames : List (Frame ν τ)) : Move ν τ :=
  .shift fun _ => ⟨focus, frames⟩

def Move.when (c : Cue) (kind : Kind) (move : Move ν τ) : Move ν τ :=
  if c.kind = kind then move else .reject (.kind kind)

def Move.given (node : Option (Node ν τ)) (move : Node ν τ → Move ν τ) : Move ν τ :=
  match node with
  | some n => move n
  | none => .reject .expression

namespace Frame

def openList (outer : List (Frame ν τ)) : Move ν τ :=
  .skip .operand (.expression :: .list [] :: outer)

def awaitBody (header : Header ν τ) (outer : List (Frame ν τ)) : Move ν τ :=
  .skip (.await .leftBracket .statement) (.body header [] :: outer)

/-- Delivers a node, or its absence, to the innermost frame. -/
def deliver (c : Cue) : Option (Node ν τ) → List (Frame ν τ) → Move ν τ
  | node, [] => .accept node.toList
  | node, wrap w :: outer => .given node fun n => deliver c (some (w.node n)) outer
  | node, binary tier op left :: outer =>
    .given node fun n =>
      match c.taking? tier with
      | some (next, nextOp) =>
        .skip .operand (binary next nextOp n :: binary tier op left :: outer)
      | none => deliver c (some (.binary op left n)) outer
  | node, expression :: outer =>
    match c.operator with
    | some (tier, op) =>
      .given node fun n => .skip .operand (binary tier op n :: expression :: outer)
    | none => deliver c node outer
  | node, list before :: outer =>
    if node.isNone && before.isEmpty then .when c .rightBracket (.skip (.primary (.list [])) outer)
    else
      .given node fun n =>
        if c.kind = .comma then .skip .operand (expression :: list (before ++ [n]) :: outer)
        else .when c .rightBracket (.skip (.primary (.list (before ++ [n]))) outer)
  | node, condition guard :: outer =>
    .given node fun n => .when c .rightBracket (awaitBody (.guarded guard n) outer)
  | node, loopInit :: outer =>
    .when c .semicolon (.skip .operand (expression :: loopCondition node :: outer))
  | node, loopCondition init :: outer =>
    .when c .semicolon (.skip .statement (loopStep init node :: outer))
  | node, loopStep init test :: outer =>
    .when c .rightBracket (awaitBody (.loop init test node) outer)
  | node, body header before :: outer =>
    let statements := before ++ node.toList
    if c.kind.isSeparator then .skip .statement (body header statements :: outer)
    else .when c .rightBracket (.skip (header.close statements) outer)
  | node, program before :: outer =>
    let statements := before ++ node.toList
    if c.kind.isSeparator then .skip .statement (program statements :: outer)
    else .when c .eof (.accept statements)

/-- Starts an atom, or delivers its absence. A leaf continues in the given focus. -/
def startAtom (c : Cue) (leaf : τ → Focus ν τ) (frames : List (Frame ν τ)) : Move ν τ :=
  if c.kind.isLeaf then .shift fun t => ⟨leaf t, frames⟩
  else
    match c.kind with
    | .leftBracket => openList frames
    | .lambda => .skip (.await .leftBracket (.parameterFirst none)) frames
    | _ => deliver c none frames

def startOperand (c : Cue) (frames : List (Frame ν τ)) : Move ν τ :=
  match c.kind with
  | .minus => .skip (.atom false) (wrap (.unary .negative) :: frames)
  | .bang => .skip (.atom true) (wrap (.unary .bang) :: frames)
  | .inc => .skip (.atom false) (wrap (.unary .preInc) :: frames)
  | .dec => .skip (.atom false) (wrap (.unary .preDec) :: frames)
  | _ => startAtom c .leaf frames

def startStatement (c : Cue) (frames : List (Frame ν τ)) : Move ν τ :=
  match c.kind with
  | .symbol => .shift fun t => ⟨.symbol t c.jump, frames⟩
  | .funcWord => .skip .functionName frames
  | .ifWord =>
    .skip (.await .leftBracket .operand) (expression :: condition .ifTrue :: frames)
  | .whileWord =>
    .skip (.await .leftBracket .operand) (expression :: condition .whileTrue :: frames)
  | .forWord => .skip (.await .leftBracket .statement) (loopInit :: frames)
  | .letWord => .skip .bindingName frames
  | .enumWord => .skip (.await .leftBracket (.enumGap [])) frames
  | .returnWord => .skip .operand (expression :: wrap .result :: frames)
  | .leftBracket => .skip .statement (body .block [] :: frames)
  | _ => startOperand c (expression :: frames)

def afterPrimary (c : Cue) (node : Node ν τ) (frames : List (Frame ν τ)) : Move ν τ :=
  match c.kind with
  | .period => .skip (.atom false) (wrap (.key node) :: frames)
  | .leftBracket => openList (wrap (.key node) :: frames)
  | _ => deliver c (some node) frames

def afterLeaf (c : Cue) (token : τ) (frames : List (Frame ν τ)) : Move ν τ :=
  match c.kind with
  | .inc => .skip (.whole (.unary .postInc (.leaf token))) frames
  | .dec => .skip (.whole (.unary .postDec (.leaf token))) frames
  | _ => afterPrimary c (.leaf token) frames

def afterSymbol (c : Cue) (token : τ) (jump : Option Jump) (frames : List (Frame ν τ)) :
    Move ν τ :=
  match c.kind with
  | .period | .leftBracket => afterPrimary c (.leaf token) frames
  | .assign => .skip .operand (expression :: wrap (.assignment token) :: frames)
  | _ =>
    match jump with
    | some jump => deliver c (some (.jump jump)) frames
    | none => afterLeaf c token (expression :: frames)

end Frame

/-- The transition function of the parser. -/
def Config.step (name : τ → ν) (config : Config ν τ) (c : Cue) : Move ν τ :=
  let frames := config.frames
  match config.focus with
  | .statement => Frame.startStatement c frames
  | .operand => Frame.startOperand c frames
  | .atom bangs =>
    if bangs && c.kind == .bang then .skip (.atom true) (.wrap (.unary .bang) :: frames)
    else Frame.startAtom c (fun t => .primary (.leaf t)) frames
  | .symbol token jump => Frame.afterSymbol c token jump frames
  | .leaf token => Frame.afterLeaf c token frames
  | .primary node => Frame.afterPrimary c node frames
  | .whole node => Frame.deliver c (some node) frames
  | .await kind next => .when c kind (.skip next frames)
  | .functionName =>
    .when c .symbol
      (.shift fun t => ⟨.await .leftBracket (.parameterFirst (some (name t))), frames⟩)
  | .bindingName =>
    .when c .symbol
      (.shift fun t =>
        ⟨.await .assign .operand, .expression :: .wrap (.binding (name t)) :: frames⟩)
  | .parameterFirst owner =>
    if c.kind = .rightBracket then Frame.awaitBody (.ofParameters owner []) frames
    else .when c .symbol (.shift fun t => ⟨.parameterEnd owner [name t], frames⟩)
  | .parameterNext owner before =>
    .when c .symbol (.shift fun t => ⟨.parameterEnd owner (before ++ [name t]), frames⟩)
  | .parameterEnd owner before =>
    if c.kind = .comma then .skip (.parameterNext owner before) frames
    else .when c .rightBracket (Frame.awaitBody (.ofParameters owner before) frames)
  | .enumGap names =>
    if c.kind.isSeparator then .skip (.enumGap names) frames
    else if c.kind = .rightBracket ∧ names ≠ [] then .skip (.whole (.enumeration names)) frames
    else .when c .symbol (.shift fun t => ⟨.enumEnd (names ++ [name t]), frames⟩)
  | .enumEnd names =>
    if c.kind.isSeparator then .skip (.enumGap names) frames
    else .when c .rightBracket (.skip (.whole (.enumeration names)) frames)

end BracketScript
