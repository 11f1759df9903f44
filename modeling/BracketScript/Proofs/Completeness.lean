import BracketScript.Proofs.Moves

/-! Completeness of the parser, by induction on derivations. In front of every stack of frames that
waits for a phrase, a run over the tokens of the phrase reaches the delivery of its tree. What may
follow the phrase is a condition on the next cue alone. -/
namespace BracketScript
open Token (vocabulary)

/-- Runs over the tokens of the phrase deliver its tree. -/
def Phrase.IsRead : Phrase → List Token → Prop
  | .statements ns, us => ∀ make frames before rest, Frame.Collects make →
      (vocabulary.ahead rest).Delimits →
      Config.run vocabulary ⟨.statement, make before :: frames⟩ (us ++ rest) =
        Frame.arrive vocabulary none (make (before ++ ns) :: frames) rest
  | .furtherStatements ns, us => ∀ make frames before rest n, Frame.Collects make →
      (vocabulary.ahead rest).Delimits →
      Frame.arrive vocabulary n (make before :: frames) (us ++ rest) =
        Frame.arrive vocabulary none (make (before ++ (n.toList ++ ns)) :: frames) rest
  | .statementOption n, us => ∀ frames rest, (vocabulary.ahead rest).Delimits →
      Config.run vocabulary ⟨.statement, frames⟩ (us ++ rest) =
        Frame.arrive vocabulary n frames rest
  | .statement n, us => ∀ frames rest, (vocabulary.ahead rest).Delimits →
      Config.run vocabulary ⟨.statement, frames⟩ (us ++ rest) =
        Frame.arrive vocabulary (some n) frames rest
  | .body ns, us => ∀ header frames rest,
      Config.run vocabulary ⟨.await .leftBracket .statement, .body header [] :: frames⟩
        (us ++ rest) = Config.run vocabulary ⟨header.close ns, frames⟩ rest
  | .expressionOption n, us => ∀ frames rest, (vocabulary.ahead rest).Delimits →
      Config.run vocabulary ⟨.operand, .expression :: frames⟩ (us ++ rest) =
        Frame.arrive vocabulary n frames rest
  | .expression level n, us => ∀ frame frames rest loosest, frame.level? = some loosest →
      loosest ≤ level → (vocabulary.ahead rest).EndsOperand →
      (vocabulary.ahead rest).EndsLevel level →
      Config.run vocabulary ⟨.operand, frame :: frames⟩ (us ++ rest) =
        Frame.arrive vocabulary (some n) (frame :: frames) rest
  | .unary n, us => ∀ frames rest, (vocabulary.ahead rest).EndsOperand →
      Config.run vocabulary ⟨.operand, frames⟩ (us ++ rest) =
        Frame.arrive vocabulary (some n) frames rest
  | .banged n, us => ∀ frames rest, (vocabulary.ahead rest).EndsAtom →
      Config.run vocabulary ⟨.atom true, frames⟩ (us ++ rest) =
        Frame.arrive vocabulary (some n) frames rest
  | .atom n, us => ∀ frames rest, (vocabulary.ahead rest).EndsAtom →
      (∀ bangs, Config.run vocabulary ⟨.atom bangs, frames⟩ (us ++ rest) =
        Frame.arrive vocabulary (some n) frames rest) ∧
      ((vocabulary.ahead rest).EndsOperand →
        Config.run vocabulary ⟨.operand, frames⟩ (us ++ rest) =
          Frame.arrive vocabulary (some n) frames rest)
  | .primary n, us => ∀ frames rest,
      (∀ bangs, Config.run vocabulary ⟨.atom bangs, frames⟩ (us ++ rest) =
        Config.run vocabulary ⟨.primary n, frames⟩ rest) ∧
      ((vocabulary.ahead rest).kind ≠ .inc → (vocabulary.ahead rest).kind ≠ .dec →
        Config.run vocabulary ⟨.operand, frames⟩ (us ++ rest) =
          Config.run vocabulary ⟨.primary n, frames⟩ rest)
  | .furtherElements ns, us => ∀ frames before n r rest, r.kind = .rightBracket →
      Frame.arrive vocabulary (some n) (.list before :: frames) (us ++ r :: rest) =
        Config.run vocabulary ⟨.primary (.list (before ++ n :: ns)), frames⟩ rest

namespace Config

variable {frames : List (Frame String Token)} {t : Token} {ts rest : List Token}

/-! Steps on single tokens. -/

theorem run_await {kind : Kind} (is : t.kind = kind) (next : Focus String Token) :
    run vocabulary ⟨.await kind next, frames⟩ (t :: ts) = run vocabulary ⟨next, frames⟩ ts := by
  simp [run_eq ⟨.await kind next, frames⟩, step, Move.when, is, Move.skip, Move.resume]

theorem run_whole (n : Tree) :
    run vocabulary ⟨.whole n, frames⟩ rest = Frame.arrive vocabulary (some n) frames rest := by
  rw [run_eq]
  rfl

theorem run_primary (ends : (vocabulary.ahead rest).EndsAtom) (n : Tree) :
    run vocabulary ⟨.primary n, frames⟩ rest = Frame.arrive vocabulary (some n) frames rest := by
  obtain ⟨period, bracket⟩ := ends
  rw [run_eq]
  simp only [step, Frame.afterPrimary, Frame.arrive]

theorem run_leaf (inc : (vocabulary.ahead rest).kind ≠ .inc)
    (dec : (vocabulary.ahead rest).kind ≠ .dec) (t : Token) :
    run vocabulary ⟨.leaf t, frames⟩ rest = run vocabulary ⟨.primary (.leaf t), frames⟩ rest := by
  rw [run_eq, run_eq ⟨.primary (.leaf t), frames⟩]
  simp only [step, Frame.afterLeaf]

theorem run_operand_leaf (is : t.kind.isLeaf = true) :
    run vocabulary ⟨.operand, frames⟩ (t :: ts) = run vocabulary ⟨.leaf t, frames⟩ ts := by
  have start : Frame.startOperand t.cue frames = Frame.startAtom t.cue .leaf frames := by
    simp only [Frame.startOperand, Token.cue_kind]
    split <;> simp_all [Kind.isLeaf]
  rw [run_eq]
  simp [step, start, Frame.startAtom, is, Move.resume]

theorem run_atom_leaf (is : t.kind.isLeaf = true) (bangs : Bool) :
    run vocabulary ⟨.atom bangs, frames⟩ (t :: ts) =
      run vocabulary ⟨.primary (.leaf t), frames⟩ ts := by
  have bang : t.kind ≠ .bang := by
    intro same
    simp [same, Kind.isLeaf] at is
  rw [run_eq]
  simp [step, bang, Frame.startAtom, is, Move.resume]

theorem run_open_list (is : t.kind = .leftBracket) :
    (∀ bangs, run vocabulary ⟨.atom bangs, frames⟩ (t :: ts) =
      run vocabulary ⟨.operand, .expression :: .list [] :: frames⟩ ts) ∧
    run vocabulary ⟨.operand, frames⟩ (t :: ts) =
      run vocabulary ⟨.operand, .expression :: .list [] :: frames⟩ ts := by
  constructor
  · intro bangs
    rw [run_eq]
    simp [step, Frame.startAtom, is, Kind.isLeaf, Frame.openList, Move.skip, Move.resume]
  · rw [run_eq]
    simp [step, Frame.startOperand, Frame.startAtom, is, Kind.isLeaf, Frame.openList, Move.skip,
      Move.resume]

theorem run_member (is : t.kind = .period) (n : Tree) :
    run vocabulary ⟨.primary n, frames⟩ (t :: ts) =
      run vocabulary ⟨.atom false, .wrap (.key n) :: frames⟩ ts := by
  rw [run_eq]
  simp [step, Frame.afterPrimary, is, Move.skip, Move.resume]

theorem run_index (is : t.kind = .leftBracket) (n : Tree) :
    run vocabulary ⟨.primary n, frames⟩ (t :: ts) =
      run vocabulary ⟨.atom false, .wrap (.key n) :: frames⟩ (t :: ts) := by
  rw [(run_open_list is).1, run_eq]
  simp [step, Frame.afterPrimary, is, Frame.openList, Move.skip, Move.resume]

theorem run_block (is : t.kind = .leftBracket) :
    run vocabulary ⟨.statement, frames⟩ (t :: ts) =
      run vocabulary ⟨.await .leftBracket .statement, .body .block [] :: frames⟩ (t :: ts) := by
  rw [run_await is, run_eq]
  simp [step, Frame.startStatement, is, Move.skip, Move.resume]

theorem run_symbol (symbol : t.kind = .symbol) :
    run vocabulary ⟨.statement, frames⟩ (t :: ts) =
      run vocabulary ⟨.symbol t t.jump?, frames⟩ ts := by
  rw [run_eq]
  simp [step, Frame.startStatement, symbol, Move.resume, Token.cue]

/-- A symbol in front of an access is a primary, also where a statement starts. -/
theorem run_access {d : Token} (symbol : t.kind = .symbol)
    (access : d.kind = .leftBracket ∨ d.kind = .period) :
    run vocabulary ⟨.statement, frames⟩ (t :: d :: ts) =
      run vocabulary ⟨.primary (.leaf t), frames⟩ (d :: ts) := by
  rw [run_symbol symbol, run_eq, run_eq ⟨.primary (.leaf t), frames⟩]
  rcases access with is | is <;> simp [step, Frame.afterSymbol, is]

theorem run_assignment {a : Token} (symbol : t.kind = .symbol) (assign : a.kind = .assign) :
    run vocabulary ⟨.statement, frames⟩ (t :: a :: ts) =
      run vocabulary ⟨.operand, .expression :: .wrap (.assignment t) :: frames⟩ ts := by
  rw [run_symbol symbol, run_eq]
  simp [step, Frame.afterSymbol, assign, Move.skip, Move.resume]

theorem run_symbol_jump (delimits : (vocabulary.ahead rest).Delimits) (t : Token) (j : Jump) :
    run vocabulary ⟨.symbol t (some j), frames⟩ rest =
      Frame.arrive vocabulary (some (.jump j)) frames rest := by
  rw [run_eq]
  rcases delimits.kind with kind | kind | kind | kind | kind <;>
    simp [step, Frame.afterSymbol, kind, Frame.arrive]

theorem run_jump {j : Jump} (jumps : t.Jumps j) (delimits : (vocabulary.ahead rest).Delimits) :
    run vocabulary ⟨.statement, frames⟩ (t :: rest) =
      Frame.arrive vocabulary (some (.jump j)) frames rest := by
  rw [run_symbol jumps.kind, Token.jump?_eq_some_iff.mpr jumps, run_symbol_jump delimits]

/-- A symbol without an access or an assignment is an ordinary operand. -/
theorem run_symbol_leaf (ends : (vocabulary.ahead rest).kind ≠ .leftBracket ∧
    (vocabulary.ahead rest).kind ≠ .period ∧ (vocabulary.ahead rest).kind ≠ .assign) (t : Token) :
    run vocabulary ⟨.symbol t none, frames⟩ rest =
      run vocabulary ⟨.leaf t, .expression :: frames⟩ rest := by
  rw [run_eq, run_eq ⟨.leaf t, .expression :: frames⟩]
  simp [step, Frame.afterSymbol, ends]

theorem run_plain (plain : StartsPlainly (t :: ts)) (starts : t.kind.startsOperand = true)
    (delimits : ts = [] → (vocabulary.ahead rest).Delimits) :
    run vocabulary ⟨.statement, frames⟩ (t :: (ts ++ rest)) =
      run vocabulary ⟨.operand, .expression :: frames⟩ (t :: (ts ++ rest)) := by
  obtain ⟨bracket, second⟩ := plain
  by_cases symbol : t.kind = .symbol
  · obtain ⟨jumpless, next⟩ := second symbol
    have unjumping : t.jump? = none :=
      Option.eq_none_iff_forall_ne_some.mpr fun j jumps =>
        jumpless j (Token.jump?_eq_some_iff.mp jumps)
    have ends : (vocabulary.ahead (ts ++ rest)).kind ≠ .leftBracket ∧
        (vocabulary.ahead (ts ++ rest)).kind ≠ .period ∧
        (vocabulary.ahead (ts ++ rest)).kind ≠ .assign := by
      cases ts with
      | nil => rcases (delimits rfl).kind with k | k | k | k | k <;> simp [k]
      | cons d ts => exact next d rfl
    rw [run_symbol symbol, unjumping, run_operand_leaf (by simp [symbol, Kind.isLeaf]),
      run_symbol_leaf ends]
  · rw [run_eq, run_eq ⟨.operand, .expression :: frames⟩]
    simp only [step, Frame.startStatement, Token.ahead_cons, Token.cue_kind]
    generalize t.kind = kind at *
    cases kind <;> first | contradiction | rfl

/-! Statements of every kind start with a word of their own. -/

theorem run_function (keyword : t.kind = .funcWord) :
    run vocabulary ⟨.statement, frames⟩ (t :: ts) =
      run vocabulary ⟨.functionName, frames⟩ ts := by
  rw [run_eq]
  simp [step, Frame.startStatement, keyword, Move.skip, Move.resume]

theorem run_functionName (symbol : t.kind = .symbol) :
    run vocabulary ⟨.functionName, frames⟩ (t :: ts) =
      run vocabulary
        ⟨.await .leftBracket (.parameterFirst (some t.payload.display)), frames⟩ ts := by
  rw [run_eq]
  simp [step, symbol, Move.when, Move.resume]

theorem run_guarded {guard : Guard} (keyword : t.kind = guard.word) :
    run vocabulary ⟨.statement, frames⟩ (t :: ts) =
      run vocabulary
        ⟨.await .leftBracket .operand, .expression :: .condition guard :: frames⟩ ts := by
  rw [run_eq]
  cases guard <;>
    simp [step, Frame.startStatement, keyword, Guard.word, Move.skip, Move.resume]

theorem run_loop (keyword : t.kind = .forWord) :
    run vocabulary ⟨.statement, frames⟩ (t :: ts) =
      run vocabulary ⟨.await .leftBracket .statement, .loopInit :: frames⟩ ts := by
  rw [run_eq]
  simp [step, Frame.startStatement, keyword, Move.skip, Move.resume]

theorem run_binding (keyword : t.kind = .letWord) :
    run vocabulary ⟨.statement, frames⟩ (t :: ts) =
      run vocabulary ⟨.bindingName, frames⟩ ts := by
  rw [run_eq]
  simp [step, Frame.startStatement, keyword, Move.skip, Move.resume]

theorem run_bindingName (symbol : t.kind = .symbol) :
    run vocabulary ⟨.bindingName, frames⟩ (t :: ts) =
      run vocabulary ⟨.await .assign .operand,
        .expression :: .wrap (.binding t.payload.display) :: frames⟩ ts := by
  rw [run_eq]
  simp [step, symbol, Move.when, Move.resume]

theorem run_enumeration (keyword : t.kind = .enumWord) :
    run vocabulary ⟨.statement, frames⟩ (t :: ts) =
      run vocabulary ⟨.await .leftBracket (.enumGap []), frames⟩ ts := by
  rw [run_eq]
  simp [step, Frame.startStatement, keyword, Move.skip, Move.resume]

theorem run_result (keyword : t.kind = .returnWord) :
    run vocabulary ⟨.statement, frames⟩ (t :: ts) =
      run vocabulary ⟨.operand, .expression :: .wrap .result :: frames⟩ ts := by
  rw [run_eq]
  simp [step, Frame.startStatement, keyword, Move.skip, Move.resume]

/-! Operators of one operand, and the arrow of a lambda. -/

theorem run_front {op : UnaryOp} (kind : op.frontKind? = some t.kind) :
    run vocabulary ⟨.operand, frames⟩ (t :: ts) =
      run vocabulary ⟨.atom false, .wrap (.unary op) :: frames⟩ ts := by
  rw [run_eq]
  cases op <;> simp [UnaryOp.frontKind?] at kind <;>
    simp [step, Frame.startOperand, ← kind, Move.skip, Move.resume]

theorem run_bangs (is : t.kind = .bang) :
    run vocabulary ⟨.operand, frames⟩ (t :: ts) =
      run vocabulary ⟨.atom true, .wrap (.unary .bang) :: frames⟩ ts := by
  rw [run_eq]
  simp [step, Frame.startOperand, is, Move.skip, Move.resume]

theorem run_bang (is : t.kind = .bang) :
    run vocabulary ⟨.atom true, frames⟩ (t :: ts) =
      run vocabulary ⟨.atom true, .wrap (.unary .bang) :: frames⟩ ts := by
  rw [run_eq]
  simp [step, is, Move.skip, Move.resume]

theorem run_back {op : UnaryOp} {o : Token} (kind : op.backKind? = some o.kind) :
    run vocabulary ⟨.leaf t, frames⟩ (o :: ts) =
      run vocabulary ⟨.whole (.unary op (.leaf t)), frames⟩ ts := by
  rw [run_eq]
  cases op <;> simp [UnaryOp.backKind?] at kind <;>
    simp [step, Frame.afterLeaf, ← kind, Move.skip, Move.resume]

theorem run_lambda (arrow : t.kind = .lambda) :
    (∀ bangs, run vocabulary ⟨.atom bangs, frames⟩ (t :: ts) =
      run vocabulary ⟨.await .leftBracket (.parameterFirst none), frames⟩ ts) ∧
    run vocabulary ⟨.operand, frames⟩ (t :: ts) =
      run vocabulary ⟨.await .leftBracket (.parameterFirst none), frames⟩ ts := by
  constructor
  · intro bangs
    rw [run_eq]
    simp [step, Frame.startAtom, arrow, Kind.isLeaf, Move.skip, Move.resume]
  · rw [run_eq]
    simp [step, Frame.startOperand, Frame.startAtom, arrow, Kind.isLeaf, Move.skip, Move.resume]

/-! Parameters and the names of enumerations are read one by one, behind those before. -/

theorem run_parameterFirst (close : t.kind = .rightBracket) (owner : Option String) :
    run vocabulary ⟨.parameterFirst owner, frames⟩ (t :: ts) =
      run vocabulary ⟨.await .leftBracket .statement,
        .body (.ofParameters owner []) [] :: frames⟩ ts := by
  rw [run_eq]
  simp [step, close, Frame.awaitBody, Move.skip, Move.resume]

theorem run_parameterNext (symbol : t.kind = .symbol) (owner : Option String)
    (before : List String) :
    run vocabulary ⟨.parameterNext owner before, frames⟩ (t :: ts) =
      run vocabulary ⟨.parameterEnd owner (before ++ [t.payload.display]), frames⟩ ts := by
  rw [run_eq]
  simp [step, symbol, Move.when, Move.resume]

theorem run_furtherParameters {owner : Option String} {ps before : List String} {r : Token}
    (further : FurtherParameters ps ts) (close : r.kind = .rightBracket) :
    run vocabulary ⟨.parameterEnd owner before, frames⟩ (ts ++ r :: rest) =
      run vocabulary ⟨.await .leftBracket .statement,
        .body (.ofParameters owner (before ++ ps)) [] :: frames⟩ rest := by
  induction further generalizing before with
  | done =>
    rw [List.nil_append, run_eq]
    simp [step, close, Move.when, Frame.awaitBody, Move.skip, Move.resume]
  | @more c t ps ts comma symbol _ ih =>
    have next : run vocabulary ⟨.parameterEnd owner before, frames⟩
        (c :: t :: (ts ++ r :: rest)) =
        run vocabulary ⟨.parameterNext owner before, frames⟩ (t :: (ts ++ r :: rest)) := by
      rw [run_eq]
      simp only [step, Token.ahead_cons, Token.cue_kind, comma, if_true, Move.skip, Move.resume]
    rw [List.cons_append, List.cons_append, next, run_parameterNext symbol, ih, List.append_assoc,
      List.singleton_append]

theorem run_parameters {owner : Option String} {ps : List String} (parameters : Parameters ps ts) :
    run vocabulary ⟨.await .leftBracket (.parameterFirst owner), frames⟩ (ts ++ rest) =
      run vocabulary ⟨.await .leftBracket .statement,
        .body (.ofParameters owner ps) [] :: frames⟩ rest := by
  cases parameters with
  | none l r =>
    rw [List.cons_append, run_await l, List.cons_append, List.nil_append, run_parameterFirst r]
  | @some l t r ps ts open_ symbol further close =>
    have first : run vocabulary ⟨.parameterFirst owner, frames⟩ (t :: (ts ++ r :: rest)) =
        run vocabulary ⟨.parameterEnd owner [t.payload.display], frames⟩ (ts ++ r :: rest) := by
      rw [run_eq]
      simp [step, symbol, Move.when, Move.resume]
    simp only [List.cons_append, List.append_assoc, List.nil_append]
    rw [run_await open_, first, run_furtherParameters further close, List.singleton_append]

theorem run_separators {names : List String} (separators : Separators ts) :
    run vocabulary ⟨.enumGap names, frames⟩ (ts ++ rest) =
      run vocabulary ⟨.enumGap names, frames⟩ rest := by
  induction ts with
  | nil => rfl
  | cons s ts ih =>
    obtain ⟨separator, separators⟩ := List.forall_mem_cons.mp separators
    rw [List.cons_append, run_eq, ← ih separators]
    simp [step, separator, Move.skip, Move.resume]

theorem run_gap {names : List String} (separators : Separators ts) (nonempty : ts ≠ []) :
    run vocabulary ⟨.enumEnd names, frames⟩ (ts ++ rest) =
      run vocabulary ⟨.enumGap names, frames⟩ rest := by
  cases ts with
  | nil => contradiction
  | cons s ts =>
    obtain ⟨separator, separators⟩ := List.forall_mem_cons.mp separators
    rw [List.cons_append, run_eq, ← run_separators separators]
    simp [step, separator, Move.skip, Move.resume]

theorem run_name {names : List String} (symbol : t.kind = .symbol) :
    run vocabulary ⟨.enumGap names, frames⟩ (t :: ts) =
      run vocabulary ⟨.enumEnd (names ++ [t.payload.display]), frames⟩ ts := by
  rw [run_eq]
  simp [step, symbol, Kind.isSeparator, Move.when, Move.resume]

theorem run_furtherNames {names before : List String} (further : FurtherNames names ts) :
    run vocabulary ⟨.enumEnd before, frames⟩ (ts ++ rest) =
      run vocabulary ⟨.enumEnd (before ++ names), frames⟩ rest := by
  induction further generalizing before with
  | done => rw [List.nil_append, List.append_nil]
  | more separators nonempty symbol _ ih =>
    rw [List.append_assoc, run_gap separators nonempty, List.cons_append, run_name symbol, ih,
      List.append_assoc, List.singleton_append]

theorem run_enumEnd (close : t.kind = .rightBracket) (names : List String) :
    run vocabulary ⟨.enumEnd names, frames⟩ (t :: ts) =
      run vocabulary ⟨.whole (.enumeration names), frames⟩ ts := by
  rw [run_eq]
  simp [step, close, Kind.isSeparator, Move.when, Move.skip, Move.resume]

theorem run_names_close {names : List String} (nonempty : names ≠ []) (separators : Separators ts)
    (close : t.kind = .rightBracket) :
    run vocabulary ⟨.enumEnd names, frames⟩ (ts ++ t :: rest) =
      run vocabulary ⟨.whole (.enumeration names), frames⟩ rest := by
  by_cases empty : ts = []
  · rw [empty, List.nil_append, run_enumEnd close]
  · rw [run_gap separators empty, run_eq]
    simp [step, close, Kind.isSeparator, nonempty, Move.skip, Move.resume]

/-! A focus that finds nothing to start delivers no node. -/

theorem run_noStatement (delimits : (vocabulary.ahead rest).Delimits) :
    run vocabulary ⟨.statement, frames⟩ rest = Frame.arrive vocabulary none frames rest := by
  rw [run_eq, step, Frame.startStatement_delimits delimits]
  rfl

theorem run_noExpression (delimits : (vocabulary.ahead rest).Delimits) :
    run vocabulary ⟨.operand, .expression :: frames⟩ rest =
      Frame.arrive vocabulary none frames rest := by
  rw [run_eq, step, Frame.startOperand_delimits delimits,
    Frame.deliver_expression delimits.operator]
  rfl

end Config

namespace Frame

variable {frames : List (Frame String Token)} {t : Token} {ts rest : List Token}

/-! Arrivals at frames that wait for a node. -/

theorem arrive_expression (delimits : (vocabulary.ahead rest).Delimits) (node : Option Tree) :
    arrive vocabulary node (expression :: frames) rest = arrive vocabulary node frames rest := by
  rw [arrive, deliver_expression delimits.operator]
  rfl

theorem arrive_separator {make : List Tree → Frame String Token} (collects : Collects make)
    (separator : t.kind.isSeparator = true) (node : Option Tree) (before : List Tree) :
    arrive vocabulary node (make before :: frames) (t :: ts) =
      Config.run vocabulary ⟨.statement, make (before ++ node.toList) :: frames⟩ ts := by
  rw [arrive, Token.ahead_cons, collects.deliver_separator separator]
  rfl

theorem arrive_body (close : t.kind = .rightBracket) (header : Header String Token)
    (before : List Tree) (node : Option Tree) :
    arrive vocabulary node (body header before :: frames) (t :: ts) =
      Config.run vocabulary ⟨header.close (before ++ node.toList), frames⟩ ts := by
  simp [arrive, deliver, close, Kind.isSeparator, Move.when, Move.skip, Move.resume]

theorem arrive_condition (close : t.kind = .rightBracket) (guard : Guard) (n : Tree) :
    arrive vocabulary (some n) (condition guard :: frames) (t :: ts) =
      Config.run vocabulary
        ⟨.await .leftBracket .statement, body (.guarded guard n) [] :: frames⟩ ts := by
  simp [arrive, deliver, Move.given, close, Move.when, awaitBody, Move.skip, Move.resume]

theorem arrive_loopInit (separator : t.kind = .semicolon) (init : Option Tree) :
    arrive vocabulary init (loopInit :: frames) (t :: ts) =
      Config.run vocabulary ⟨.operand, expression :: loopCondition init :: frames⟩ ts := by
  simp [arrive, deliver, separator, Move.when, Move.skip, Move.resume]

theorem arrive_loopCondition (separator : t.kind = .semicolon) (init test : Option Tree) :
    arrive vocabulary test (loopCondition init :: frames) (t :: ts) =
      Config.run vocabulary ⟨.statement, loopStep init test :: frames⟩ ts := by
  simp [arrive, deliver, separator, Move.when, Move.skip, Move.resume]

theorem arrive_loopStep (close : t.kind = .rightBracket) (init test step : Option Tree) :
    arrive vocabulary step (loopStep init test :: frames) (t :: ts) =
      Config.run vocabulary
        ⟨.await .leftBracket .statement, body (.loop init test step) [] :: frames⟩ ts := by
  simp [arrive, deliver, close, Move.when, awaitBody, Move.skip, Move.resume]

theorem arrive_comma (comma : t.kind = .comma) (before : List Tree) (n : Tree) :
    arrive vocabulary (some n) (list before :: frames) (t :: ts) =
      Config.run vocabulary ⟨.operand, expression :: list (before ++ [n]) :: frames⟩ ts := by
  simp [arrive, deliver, Move.given, comma, Move.skip, Move.resume]

theorem arrive_list (close : t.kind = .rightBracket) (before : List Tree) (n : Tree) :
    arrive vocabulary (some n) (list before :: frames) (t :: ts) =
      Config.run vocabulary ⟨.primary (.list (before ++ [n])), frames⟩ ts := by
  simp [arrive, deliver, Move.given, Move.when, close, Move.skip, Move.resume]

theorem arrive_emptyList (close : t.kind = .rightBracket) :
    arrive vocabulary none (list [] :: frames) (t :: ts) =
      Config.run vocabulary ⟨.primary (.list []), frames⟩ ts := by
  simp [arrive, deliver, close, Move.when, Move.skip, Move.resume]

end Frame

namespace Derives

theorem delimits_statements {ns : List Tree} {us rest : List Token}
    (derived : Derives (.furtherStatements ns) us) (ends : (vocabulary.ahead rest).Delimits) :
    (vocabulary.ahead (us ++ rest)).Delimits := by
  cases derived with
  | noFurtherStatements => exact ends
  | @furtherStatements s _ _ _ _ separator _ _ =>
    refine Token.delimits ?_
    generalize s.kind = kind at separator
    cases kind <;> first | contradiction | simp

theorem delimits_elements {ns : List Tree} {us rest : List Token}
    (derived : Derives (.furtherElements ns) us) (ends : (vocabulary.ahead rest).Delimits) :
    (vocabulary.ahead (us ++ rest)).Delimits := by
  cases derived with
  | noFurtherElements => exact ends
  | furtherElements comma _ _ => exact Token.delimits (by simp [comma])

end Derives

namespace Phrase.IsRead

variable {n : Tree} {ns : List Tree} {t o l r : Token} {us ts rest : List Token}
  {frames : List (Frame String Token)}

theorem run_expression (read : IsRead (.expression 1 n) us)
    (delimits : (vocabulary.ahead rest).Delimits) :
    Config.run vocabulary ⟨.operand, .expression :: frames⟩ (us ++ rest) =
      Frame.arrive vocabulary (some n) frames rest := by
  rw [read .expression frames rest 1 rfl (Nat.le_refl 1) delimits.endsOperand
    (delimits.endsLevel 1), Frame.arrive_expression delimits]

/-! One lemma for each production: a phrase is read if its parts are. -/

theorem statements {node : Option Tree} (further : Derives (.furtherStatements ns) ts)
    (first : IsRead (.statementOption node) us) (others : IsRead (.furtherStatements ns) ts) :
    IsRead (.statements (node.toList ++ ns)) (us ++ ts) := by
  intro make frames before rest collects delimits
  rw [List.append_assoc, first _ _ (further.delimits_statements delimits),
    others make frames before rest _ collects delimits]

theorem furtherStatements {node : Option Tree} (separator : t.kind.isSeparator = true)
    (further : Derives (.furtherStatements ns) ts) (first : IsRead (.statementOption node) us)
    (others : IsRead (.furtherStatements ns) ts) :
    IsRead (.furtherStatements (node.toList ++ ns)) (t :: (us ++ ts)) := by
  intro make frames before rest node' collects delimits
  rw [List.cons_append, List.append_assoc, Frame.arrive_separator collects separator,
    first _ _ (further.delimits_statements delimits), others make frames _ rest _ collects delimits,
    List.append_assoc]

theorem body (open_ : l.kind = .leftBracket) (read : IsRead (.statements ns) us)
    (close : r.kind = .rightBracket) : IsRead (.body ns) (l :: (us ++ [r])) := by
  intro header frames rest
  have delimits : r.cue.Delimits := Token.delimits (by simp [close])
  simp only [List.cons_append, List.append_assoc, List.nil_append]
  rw [Config.run_await open_, read (.body header) frames [] (r :: rest) (.inr ⟨header, rfl⟩)
    delimits, Frame.arrive_body close]
  simp

theorem function {ps : List String} (keyword : o.kind = .funcWord) (symbol : t.kind = .symbol)
    (parameters : Parameters ps us) (body : IsRead (.body ns) ts) :
    IsRead (.statement (.function t.payload.display ps ns)) (o :: t :: (us ++ ts)) := by
  intro frames rest _
  simp only [List.cons_append, List.append_assoc]
  rw [Config.run_function keyword, Config.run_functionName symbol,
    Config.run_parameters parameters, body]
  exact Config.run_whole _

theorem guarded {guard : Guard} (keyword : o.kind = guard.word) (open_ : l.kind = .leftBracket)
    (test : IsRead (.expression 1 n) us) (close : r.kind = .rightBracket)
    (body : IsRead (.body ns) ts) :
    IsRead (.statement (.guarded guard n ns)) (o :: l :: (us ++ r :: ts)) := by
  intro frames rest _
  have delimits : (vocabulary.ahead (r :: (ts ++ rest))).Delimits :=
    Token.delimits (by simp [close])
  simp only [List.cons_append, List.append_assoc]
  rw [Config.run_guarded keyword, Config.run_await open_, test.run_expression delimits,
    Frame.arrive_condition close, body]
  exact Config.run_whole _

theorem loop {s s' : Token} {init test step : Option Tree} {vs ws : List Token}
    (keyword : o.kind = .forWord) (open_ : l.kind = .leftBracket)
    (first : IsRead (.statementOption init) us) (sep : s.kind = .semicolon)
    (second : IsRead (.expressionOption test) vs) (sep' : s'.kind = .semicolon)
    (third : IsRead (.statementOption step) ws) (close : r.kind = .rightBracket)
    (body : IsRead (.body ns) ts) :
    IsRead (.statement (.loop init test step ns))
      (o :: l :: (us ++ s :: (vs ++ s' :: (ws ++ r :: ts)))) := by
  intro frames rest _
  have init_ends (us : List Token) : (vocabulary.ahead (s :: us)).Delimits :=
    Token.delimits (by simp [sep])
  have test_ends (us : List Token) : (vocabulary.ahead (s' :: us)).Delimits :=
    Token.delimits (by simp [sep'])
  have step_ends (us : List Token) : (vocabulary.ahead (r :: us)).Delimits :=
    Token.delimits (by simp [close])
  simp only [List.cons_append, List.append_assoc]
  rw [Config.run_loop keyword, Config.run_await open_, first _ _ (init_ends _),
    Frame.arrive_loopInit sep, second _ _ (test_ends _), Frame.arrive_loopCondition sep',
    third _ _ (step_ends _), Frame.arrive_loopStep close, body]
  exact Config.run_whole _

theorem binding {a : Token} (keyword : o.kind = .letWord) (symbol : t.kind = .symbol)
    (assign : a.kind = .assign) (value : IsRead (.expression 1 n) ts) :
    IsRead (.statement (.binding t.payload.display n)) (o :: t :: a :: ts) := by
  intro frames rest delimits
  simp only [List.cons_append]
  rw [Config.run_binding keyword, Config.run_bindingName symbol, Config.run_await assign,
    value.run_expression delimits, Frame.arrive_wrap]
  rfl

theorem enumeration {ss es : List Token} {names : List String} (keyword : o.kind = .enumWord)
    (open_ : l.kind = .leftBracket) (front : Separators ss) (symbol : t.kind = .symbol)
    (further : FurtherNames names ts) (back : Separators es) (close : r.kind = .rightBracket) :
    IsRead (.statement (.enumeration (t.payload.display :: names)))
      (o :: l :: (ss ++ t :: (ts ++ (es ++ [r])))) := by
  intro frames rest _
  simp only [List.cons_append, List.append_assoc, List.nil_append]
  rw [Config.run_enumeration keyword, Config.run_await open_, Config.run_separators front,
    Config.run_name symbol, Config.run_furtherNames further,
    Config.run_names_close (by simp) back close]
  exact Config.run_whole _

theorem result (keyword : o.kind = .returnWord) (value : IsRead (.expression 1 n) ts) :
    IsRead (.statement (.result n)) (o :: ts) := by
  intro frames rest delimits
  rw [List.cons_append, Config.run_result keyword, value.run_expression delimits,
    Frame.arrive_wrap]
  rfl

theorem block (open_ : l.kind = .leftBracket) (body : IsRead (.body ns) (l :: ts)) :
    IsRead (.statement (.block ns)) (l :: ts) := by
  intro frames rest _
  rw [List.cons_append, Config.run_block open_, ← List.cons_append, body]
  exact Config.run_whole _

theorem assignment {a : Token} (symbol : t.kind = .symbol) (assign : a.kind = .assign)
    (value : IsRead (.expression 1 n) ts) :
    IsRead (.statement (.assignment t n)) (t :: a :: ts) := by
  intro frames rest delimits
  rw [List.cons_append, List.cons_append, Config.run_assignment symbol assign,
    value.run_expression delimits, Frame.arrive_wrap]
  rfl

theorem access {d : Token} (symbol : t.kind = .symbol)
    (second : d.kind = .leftBracket ∨ d.kind = .period) (atom : IsRead (.atom n) (t :: d :: ts)) :
    IsRead (.statement n) (t :: d :: ts) := by
  intro frames rest delimits
  rw [← (atom frames rest delimits.endsOperand.toEndsAtom).1 false, List.cons_append,
    List.cons_append, Config.run_access symbol second,
    Config.run_atom_leaf (by simp [symbol, Kind.isLeaf])]

theorem plain (derived : Derives (.expression 1 n) us) (plain : StartsPlainly us)
    (read : IsRead (.expression 1 n) us) : IsRead (.statement n) us := by
  intro frames rest delimits
  obtain ⟨t, ts, rfl, starts⟩ := derived.starts
  rw [← read.run_expression delimits]
  exact Config.run_plain plain starts fun _ => delimits

/-- The operator takes its left operand, since the frame that waits for the operation is looser. No
operator after the right operand may take that one. -/
theorem binary {tier : Tier} {op : BinaryOp} {left right : Tree}
    (first : IsRead (.expression tier.leftLevel left) us) (operates : o.Operates tier op)
    (second : IsRead (.expression tier.rightLevel right) ts) :
    IsRead (.expression tier.level (.binary op left right)) (us ++ o :: ts) := by
  intro frame frames rest loosest waits le ends level
  have operator : o.cue.operator = some (tier, op) := Token.operator?_eq_some_iff.mpr operates
  have middle : o.cue.EndsLevel tier.leftLevel := by
    intro tier' op' same
    cases operator.symm.trans same
    exact Nat.le_refl _
  have next : Frame.arrive vocabulary (some left) (frame :: frames) (o :: (ts ++ rest)) =
      Config.run vocabulary ⟨.operand, .binary tier op left :: frame :: frames⟩ (ts ++ rest) := by
    rw [Frame.arrive, Token.ahead_cons, Frame.deliver_operator waits le operator]
    rfl
  have last : (vocabulary.ahead rest).EndsLevel tier.rightLevel := fun tier' op' follows =>
    Nat.le_trans (level tier' op' follows) tier.level_le_rightLevel
  rw [List.append_assoc, List.cons_append,
    first frame frames (o :: (ts ++ rest)) loosest waits
      (Nat.le_trans le tier.level_le_leftLevel) operates.endsOperand middle,
    next, second _ _ rest _ rfl (Nat.le_refl _) ends last, Frame.arrive,
    Frame.deliver_binary level, Frame.arrive]

theorem front {op : UnaryOp} (kind : op.frontKind? = some o.kind) (atom : IsRead (.atom n) ts) :
    IsRead (.unary (.unary op n)) (o :: ts) := by
  intro frames rest ends
  rw [List.cons_append, Config.run_front kind, (atom _ rest ends.toEndsAtom).1,
    Frame.arrive_wrap]
  rfl

theorem bangs (is : o.kind = .bang) (banged : IsRead (.banged n) ts) :
    IsRead (.unary (.unary .bang n)) (o :: ts) := by
  intro frames rest ends
  rw [List.cons_append, Config.run_bangs is, banged _ rest ends.toEndsAtom, Frame.arrive_wrap]
  rfl

theorem bang (is : o.kind = .bang) (banged : IsRead (.banged n) ts) :
    IsRead (.banged (.unary .bang n)) (o :: ts) := by
  intro frames rest ends
  rw [List.cons_append, Config.run_bang is, banged _ rest ends, Frame.arrive_wrap]
  rfl

theorem back {op : UnaryOp} (leaf : t.kind.isLeaf = true) (kind : op.backKind? = some o.kind) :
    IsRead (.unary (.unary op (.leaf t))) [t, o] := by
  intro frames rest _
  rw [List.cons_append, Config.run_operand_leaf leaf, List.cons_append, List.nil_append,
    Config.run_back kind]
  exact Config.run_whole _

theorem accessless (primary : IsRead (.primary n) us) : IsRead (.atom n) us := by
  intro frames rest ends
  rw [← Config.run_primary ends]
  exact ⟨(primary frames rest).1, fun ends => (primary frames rest).2 ends.inc ends.dec⟩

/-- An access extends a primary to an atom. -/
theorem accessed {key : Tree} (access : o.kind = .period ∨ o.kind = .leftBracket)
    (primary : IsRead (.primary n) us)
    (keyed : ∀ frames rest, (vocabulary.ahead rest).EndsAtom →
      Config.run vocabulary ⟨.primary n, frames⟩ (o :: (ts ++ rest)) =
        Frame.arrive vocabulary (some key) (.wrap (.key n) :: frames) rest) :
    IsRead (.atom (.access n [key])) (us ++ o :: ts) := by
  intro frames rest ends
  have read := keyed frames rest ends
  obtain ⟨inAtom, inOperand⟩ := primary frames (o :: (ts ++ rest))
  rw [List.append_assoc, List.cons_append]
  refine ⟨fun bangs => (inAtom bangs).trans read, fun _ => (inOperand ?_ ?_).trans read⟩
  all_goals rcases access with is | is <;> simp [is]

theorem member {key : Tree} (primary : IsRead (.primary n) us) (period : o.kind = .period)
    (atom : IsRead (.atom key) ts) : IsRead (.atom (.access n [key])) (us ++ o :: ts) :=
  accessed (.inl period) primary fun _ rest ends =>
    (Config.run_member period n).trans ((atom _ rest ends).1 false)

theorem index {key : Tree} (primary : IsRead (.primary n) us) (bracket : o.kind = .leftBracket)
    (atom : IsRead (.atom key) (o :: ts)) : IsRead (.atom (.access n [key])) (us ++ o :: ts) :=
  accessed (.inr bracket) primary fun _ rest ends =>
    (Config.run_index bracket n).trans ((atom _ rest ends).1 false)

theorem leaf (is : t.kind.isLeaf = true) : IsRead (.primary (.leaf t)) [t] := fun _ _ =>
  ⟨Config.run_atom_leaf is, fun inc dec =>
    (Config.run_operand_leaf is).trans (Config.run_leaf inc dec _)⟩

theorem emptyList (open_ : l.kind = .leftBracket) (close : r.kind = .rightBracket) :
    IsRead (.primary (.list [])) [l, r] := by
  intro frames rest
  have delimits : (vocabulary.ahead (r :: rest)).Delimits := Token.delimits (by simp [close])
  have read : Config.run vocabulary ⟨.operand, .expression :: .list [] :: frames⟩ (r :: rest) =
      Config.run vocabulary ⟨.primary (.list []), frames⟩ rest := by
    rw [Config.run_noExpression delimits, Frame.arrive_emptyList close]
  obtain ⟨inAtom, inOperand⟩ := Config.run_open_list open_
  exact ⟨fun bangs => (inAtom bangs).trans read, fun _ _ => inOperand.trans read⟩

theorem list (open_ : l.kind = .leftBracket) (further : Derives (.furtherElements ns) ts)
    (close : r.kind = .rightBracket) (first : IsRead (.expression 1 n) us)
    (others : IsRead (.furtherElements ns) ts) :
    IsRead (.primary (.list (n :: ns))) (l :: (us ++ (ts ++ [r]))) := by
  intro frames rest
  have delimits : (vocabulary.ahead (r :: rest)).Delimits := Token.delimits (by simp [close])
  have read : Config.run vocabulary ⟨.operand, .expression :: .list [] :: frames⟩
        (us ++ (ts ++ r :: rest)) =
      Config.run vocabulary ⟨.primary (.list (n :: ns)), frames⟩ rest := by
    rw [first.run_expression (further.delimits_elements delimits)]
    exact others frames [] n r rest close
  obtain ⟨inAtom, inOperand⟩ := Config.run_open_list open_
  simp only [List.cons_append, List.append_assoc, List.nil_append]
  exact ⟨fun bangs => (inAtom bangs).trans read, fun _ _ => inOperand.trans read⟩

theorem lambda {ps : List String} (arrow : o.kind = .lambda) (parameters : Parameters ps us)
    (body : IsRead (.body ns) ts) : IsRead (.primary (.lambda ps ns)) (o :: (us ++ ts)) := by
  intro frames rest
  have read : Config.run vocabulary ⟨.await .leftBracket (.parameterFirst none), frames⟩
        (us ++ (ts ++ rest)) = Config.run vocabulary ⟨.primary (.lambda ps ns), frames⟩ rest :=
    (Config.run_parameters parameters).trans (body _ frames rest)
  obtain ⟨inAtom, inOperand⟩ := Config.run_lambda arrow
  simp only [List.cons_append, List.append_assoc]
  exact ⟨fun bangs => (inAtom bangs).trans read, fun _ _ => inOperand.trans read⟩

theorem furtherElements (comma : o.kind = .comma) (further : Derives (.furtherElements ns) ts)
    (first : IsRead (.expression 1 n) us) (others : IsRead (.furtherElements ns) ts) :
    IsRead (.furtherElements (n :: ns)) (o :: (us ++ ts)) := by
  intro frames before n' r rest close
  have delimits : (vocabulary.ahead (r :: rest)).Delimits := Token.delimits (by simp [close])
  rw [List.cons_append, List.append_assoc, Frame.arrive_comma comma,
    first.run_expression (further.delimits_elements delimits), others frames _ n r rest close,
    List.append_assoc, List.singleton_append]

end Phrase.IsRead

/-- Completeness of runs: every phrase the grammar derives is read, and its tree is delivered. -/
theorem Derives.isRead {phrase : Phrase} {us : List Token} (derived : Derives phrase us) :
    phrase.IsRead us := by
  induction derived with
  | statements _ further first others => exact .statements further first others
  | noFurtherStatements =>
    intro make frames before rest node collects _
    rw [List.nil_append, List.append_nil, Frame.arrive, collects.deliver_joined]
    rfl
  | furtherStatements separator _ further first others =>
    exact .furtherStatements separator further first others
  | noStatement =>
    intro frames rest delimits
    exact Config.run_noStatement delimits
  | someStatement _ ih => exact ih
  | body open_ _ close ih => exact .body open_ ih close
  | function keyword symbol parameters _ ih => exact .function keyword symbol parameters ih
  | guarded keyword open_ _ close _ test body => exact .guarded keyword open_ test close body
  | loop keyword open_ _ sep _ sep' _ close _ init test step body =>
    exact .loop keyword open_ init sep test sep' step close body
  | binding keyword symbol assign _ ih => exact .binding keyword symbol assign ih
  | enumeration keyword open_ front symbol further back close =>
    exact .enumeration keyword open_ front symbol further back close
  | result keyword _ ih => exact .result keyword ih
  | block derived ih =>
    cases derived with
    | body open_ _ _ => exact .block open_ ih
  | assignment symbol assign _ ih => exact .assignment symbol assign ih
  | access symbol second _ ih => exact .access symbol second ih
  | jump jumps =>
    intro frames rest delimits
    exact Config.run_jump jumps delimits
  | plain derived plain ih => exact .plain derived plain ih
  | noExpression =>
    intro frames rest delimits
    exact Config.run_noExpression delimits
  | someExpression _ ih =>
    intro frames rest delimits
    exact ih.run_expression delimits
  | tighter _ ih =>
    intro frame frames rest loosest waits le ends level
    exact ih frame frames rest loosest waits (Nat.le_succ_of_le le) ends fun tier op follows =>
      Nat.le_succ_of_le (level tier op follows)
  | binary _ operates _ left right => exact .binary left operates right
  | operand _ ih =>
    intro frame frames rest _ _ _ ends _
    exact ih _ rest ends
  | front kind _ ih => exact .front kind ih
  | bangs is _ ih => exact .bangs is ih
  | back leaf kind => exact .back leaf kind
  | bare _ ih =>
    intro frames rest ends
    exact (ih frames rest ends.toEndsAtom).2 ends
  | bang is _ ih => exact .bang is ih
  | bangless _ ih =>
    intro frames rest ends
    exact (ih frames rest ends).1 true
  | accessless _ ih => exact ih.accessless
  | member _ period _ primary key => exact primary.member period key
  | index _ bracket _ primary key => exact primary.index bracket key
  | leaf is => exact .leaf is
  | emptyList open_ close => exact .emptyList open_ close
  | list open_ _ further close first others => exact .list open_ further close first others
  | lambda arrow parameters _ ih => exact .lambda arrow parameters ih
  | noFurtherElements =>
    intro frames before n r rest close
    exact Frame.arrive_list close before n
  | furtherElements comma _ further first others =>
    exact .furtherElements comma further first others

end BracketScript
