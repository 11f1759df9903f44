import BracketScript.Proofs.Reading

/-! A reader may be called again and again, in any order and also behind errors. Its cursor, which
counts the tokens that it has passed, never goes back and never runs past the tokens. The move that
a call starts with settles the rest: a call that takes a token has passed it, and one that takes
none leaves the reader where it was. -/
namespace BracketScript
open Token (vocabulary)

inductive Call where
  | current
  | peek
  | advance
  | expect (kind : Kind)
  | expression
  | expression?
  | statement?
  | block
  | program

inductive Answer where
  | token (t : Token)
  | moved
  | node (n : Option Tree)
  | program (p : Program)

namespace Reader

def perform (r : Reader) : Call → Except ParseError Answer × Reader
  | .current => (.ok (.token r.current), r)
  | .peek => (.ok (.token r.peek), r)
  | .advance => (.ok .moved, r.advance)
  | .expect kind => ((r.expect kind).1.map .token, (r.expect kind).2)
  | .expression => (r.expression.1.map fun n => .node (some n), r.expression.2)
  | .expression? => (r.expression?.1.map .node, r.expression?.2)
  | .statement? => (r.statement?.1.map .node, r.statement?.2)
  | .block => (r.block.1.map .node, r.block.2)
  | .program => (r.program.1.map .program, r.program.2)

/-- The reader that a sequence of calls leaves. -/
def after (r : Reader) (calls : List Call) : Reader :=
  calls.foldl (fun r call => (r.perform call).2) r

/-- The first `cursor` tokens have been passed. -/
structure StandsAt (r : Reader) (ts : List Token) (cursor : Nat) : Prop where
  sentinel : r.sentinel = .sentinel ts
  within : cursor ≤ ts.length
  rest : r.rest = ts.drop cursor

end Reader

def Kind.isStatementWord : Kind → Bool
  | funcWord | ifWord | forWord | letWord | enumWord | whileWord | returnWord => true
  | _ => false

/-- The token starts an expression, or is an operator whose left operand is missing. -/
def Token.LeadsExpression (t : Token) : Prop :=
  t.kind.startsOperand = true ∨ ∃ tier op, t.Operates tier op

def Token.LeadsStatement (t : Token) : Prop :=
  t.LeadsExpression ∨ t.kind.isStatementWord = true

/-- The contract of one call, which moves the cursor from `here` to `there`. -/
structure Disciplined (ts : List Token) (r : Reader) (call : Call) (here there : Nat) : Prop where
  start : r.StandsAt ts here
  finish : (r.perform call).2.StandsAt ts there
  forward : here ≤ there
  found : ∀ e, (r.perform call).1 = .error e → (r.perform call).2.current = e.found
  kept : (r.perform call).1 = .ok (.node none) → there = here
  moved : ∀ answer, (r.perform call).1 = .ok answer →
    call = .block ∨ call = .expression ∨ (∃ n, answer = .node (some n)) → here < there
  expressionless : call = .expression? →
    ((r.perform call).1 = .ok (.node none) ↔ ¬ r.current.LeadsExpression)
  statementless : call = .statement? →
    ((r.perform call).1 = .ok (.node none) ↔ ¬ r.current.LeadsStatement)
  ended : call = .program → Endless ts →
    ∀ answer, (r.perform call).1 = .ok answer → there = ts.length

section Moves

variable {c : Cue} {frames : List (Frame String Token)}

/-- The table of starting kinds agrees with the step function. -/
theorem startOperand_takes (starts : c.kind.startsOperand = true) :
    ∃ next, Frame.startOperand c frames = .shift next := by
  obtain ⟨kind, operator, jump⟩ := c
  cases kind <;> first | contradiction | exact ⟨_, rfl⟩

theorem startOperand_passes (other : c.kind.startsOperand = false) :
    Frame.startOperand c frames = Frame.deliver c none frames := by
  obtain ⟨kind, operator, jump⟩ := c
  cases kind <;> first | contradiction | rfl

theorem startStatement_takes
    (starts : c.kind.startsOperand = true ∨ c.kind.isStatementWord = true) :
    ∃ next, Frame.startStatement c frames = .shift next := by
  obtain ⟨kind, operator, jump⟩ := c
  cases kind <;> first | exact ⟨_, rfl⟩ | (rcases starts with starts | starts <;> contradiction)

theorem startStatement_passes (other : c.kind.startsOperand = false)
    (word : c.kind.isStatementWord = false) :
    Frame.startStatement c frames = Frame.deliver c none (.expression :: frames) := by
  obtain ⟨kind, operator, jump⟩ := c
  cases kind <;> first | contradiction | rfl

/-- The state accepts without a node at tokens that do not lead, and shifts or rejects the
others. -/
structure Config.Opens (config : Config String Token) (leads : Token → Prop) : Prop where
  absent : ∀ t : Token, ¬ leads t → config.step vocabulary.name t.cue = .accept []
  present : ∀ t : Token, leads t → (∃ next, config.step vocabulary.name t.cue = .shift next) ∨
    ∃ expected, config.step vocabulary.name t.cue = .reject expected

theorem Config.opens_expression : expression.Opens Token.LeadsExpression where
  absent t other := by
    obtain ⟨kind, operator⟩ := not_or.mp other
    have missing : t.cue.operator = none := by
      refine Option.eq_none_iff_forall_ne_some.mpr fun (tier, op) cued => ?_
      exact operator ⟨tier, op, Token.operator?_eq_some_iff.mp cued⟩
    calc Frame.startOperand t.cue [.expression]
      _ = Frame.deliver t.cue none [.expression] :=
        startOperand_passes (Bool.eq_false_iff.mpr kind)
      _ = .accept [] := by rw [Frame.deliver_expression missing]; rfl
  present t leads := by
    by_cases starts : t.cue.kind.startsOperand = true
    · exact .inl (startOperand_takes starts)
    · obtain ⟨tier, op, operates⟩ := leads.resolve_left starts
      have cued : t.cue.operator = some (tier, op) := Token.operator?_eq_some_iff.mpr operates
      refine .inr ⟨.expression, ?_⟩
      calc Frame.startOperand t.cue [.expression]
        _ = Frame.deliver t.cue none [.expression] :=
          startOperand_passes (Bool.eq_false_iff.mpr starts)
        _ = .reject .expression := by simp [Frame.deliver, cued, Move.given]

theorem Config.opens_statement : statement.Opens Token.LeadsStatement where
  absent t other := by
    obtain ⟨absent, word⟩ := not_or.mp other
    have starts : t.cue.kind.startsOperand = false :=
      Bool.eq_false_iff.mpr fun is => absent (.inl is)
    calc Frame.startStatement t.cue []
      _ = Frame.deliver t.cue none [.expression] :=
        startStatement_passes starts (Bool.eq_false_iff.mpr word)
      _ = Frame.startOperand t.cue [.expression] := (startOperand_passes starts).symm
      _ = .accept [] := opens_expression.absent t absent
  present t leads := by
    by_cases taken : t.cue.kind.startsOperand = true ∨ t.cue.kind.isStatementWord = true
    · exact .inl (startStatement_takes taken)
    · obtain ⟨starts, word⟩ := not_or.mp taken
      have starts := Bool.eq_false_iff.mpr starts
      have same : Frame.startStatement t.cue [] = Frame.startOperand t.cue [.expression] :=
        (startStatement_passes starts (Bool.eq_false_iff.mpr word)).trans
          (startOperand_passes starts).symm
      have present := opens_expression.present t (leads.resolve_right word)
      rwa [show expression.step vocabulary.name t.cue = _ from same.symm] at present

end Moves

/-- Progress: a run whose first move takes a token leaves strictly fewer tokens. -/
theorem Config.length_lt_of_shift {config : Config String Token}
    {next : Token → Config String Token} {nodes : List Tree} {ts rest : List Token}
    (moves : config.step vocabulary.name (vocabulary.ahead ts) = .shift next)
    (ran : config.run vocabulary ts = (.ok nodes, rest)) : rest.length < ts.length := by
  rw [run_eq, moves] at ran
  obtain ⟨t, us, rfl, further⟩ := Move.resume_shift_ok_iff.mp ran
  have left : rest.length ≤ us.length := by
    have suffix := Config.run_suffix vocabulary (next t) us
    rw [further] at suffix
    exact suffix.length_le
  rw [List.length_cons]
  omega

namespace Reader

variable {r behind : Reader} {ts : List Token} {call : Call} {here : Nat}

/-- The cue ahead is that of the current token. -/
theorem StandsAt.ahead (stands : r.StandsAt ts here) :
    vocabulary.ahead r.rest = r.current.cue := by
  unfold current
  cases r.rest with
  | nil =>
    rw [stands.sentinel]
    rfl
  | cons t us => rfl

theorem expression_snd (r : Reader) : r.expression.2 = r.expression?.2 := by
  unfold expression
  rcases r.expression? with ⟨_ | _ | n, behind⟩ <;> rfl

theorem read_suffix (r : Reader) (config : Config String Token) :
    (r.read config).2.rest <:+ r.rest :=
  config.run_suffix vocabulary r.rest

/-- A call leaves a suffix of the tokens that were left before it. -/
theorem perform_suffix (r : Reader) (call : Call) :
    (r.perform call).2.sentinel = r.sentinel ∧ (r.perform call).2.rest <:+ r.rest := by
  cases call with
  | current | peek => exact ⟨rfl, List.suffix_refl _⟩
  | advance => exact ⟨rfl, List.tail_suffix _⟩
  | expect kind =>
    simp only [perform, expect]
    split
    · exact ⟨rfl, List.tail_suffix _⟩
    · exact ⟨rfl, List.suffix_refl _⟩
  | expression =>
    simp only [perform, expression_snd]
    exact ⟨rfl, r.read_suffix .expression⟩
  | expression? => exact ⟨rfl, r.read_suffix .expression⟩
  | statement? => exact ⟨rfl, r.read_suffix .statement⟩
  | block => exact ⟨rfl, r.read_suffix .block⟩
  | program =>
    have read := r.read_suffix .program
    simp only [perform, program]
    rcases answer : r.read .program with ⟨_ | nodes, place⟩
    · rw [answer] at read
      exact ⟨congrArg (fun pair => pair.2.sentinel) answer.symm, read⟩
    · rw [answer] at read
      exact ⟨congrArg (fun pair => pair.2.sentinel) answer.symm, (List.tail_suffix _).trans read⟩

/-- One call moves the cursor forward and keeps it within the tokens. -/
theorem StandsAt.perform (stands : r.StandsAt ts here) (call : Call) :
    ∃ there, here ≤ there ∧ (r.perform call).2.StandsAt ts there := by
  obtain ⟨sentinel, suffix⟩ := r.perform_suffix call
  have whole : (r.perform call).2.rest <:+ ts := by
    rw [stands.rest] at suffix
    exact suffix.trans (List.drop_suffix here ts)
  have left := suffix.length_le
  rw [stands.rest, List.length_drop] at left
  have within := stands.within
  refine ⟨ts.length - (r.perform call).2.rest.length, by omega, ?_⟩
  exact ⟨sentinel.trans stands.sentinel, Nat.sub_le _ _, List.suffix_iff_eq_drop.mp whole⟩

/-- By induction on the calls, the cursor stays within the tokens, errors included. -/
theorem StandsAt.after (stands : r.StandsAt ts here) (calls : List Call) :
    ∃ there, here ≤ there ∧ (r.after calls).StandsAt ts there := by
  induction calls generalizing r here with
  | nil => exact ⟨here, Nat.le_refl here, stands⟩
  | cons call calls ih =>
    obtain ⟨next, forward, stands⟩ := stands.perform call
    obtain ⟨there, further, stands⟩ := ih stands
    exact ⟨there, Nat.le_trans forward further, stands⟩

theorem standsAt_ofTokens (ts : List Token) : (ofTokens ts).StandsAt ts 0 :=
  ⟨rfl, Nat.zero_le _, rfl⟩

theorem StandsAt.length_rest (stands : r.StandsAt ts here) :
    r.rest.length = ts.length - here := by
  rw [stands.rest, List.length_drop]

theorem map_eq_error_iff {ε α β : Type} {f : α → β} {result : Except ε α} {e : ε} :
    result.map f = .error e ↔ result = .error e := by
  cases result <;> simp [Except.map]

theorem map_eq_ok_iff {ε α β : Type} {f : α → β} {result : Except ε α} {b : β} :
    result.map f = .ok b ↔ ∃ a, result = .ok a ∧ f a = b := by
  cases result <;> simp [Except.map]

theorem map_node_iff {result : Except ParseError (Option Tree)} {node : Option Tree} :
    result.map Answer.node = .ok (.node node) ↔ result = .ok node := by
  simp [map_eq_ok_iff]

theorem read_found {config : Config String Token} {e : ParseError}
    (failed : (r.read config).1 = .error e) : (r.read config).2.current = e.found := by
  unfold read at failed ⊢
  rcases ran : config.run vocabulary r.rest with ⟨expected | nodes, rest⟩
  · rw [ran] at failed
    obtain rfl := Except.error.inj failed
    rfl
  · rw [ran] at failed
    cases failed

/-- An error reports the token at which the reader stops. -/
theorem perform_found {e : ParseError} (failed : (r.perform call).1 = .error e) :
    (r.perform call).2.current = e.found := by
  cases call with
  | current | peek | advance => cases failed
  | expect kind =>
    simp only [perform, expect] at failed ⊢
    split at failed
    · cases failed
    · next other =>
      cases failed
      rw [if_neg other]
      rfl
  | expression =>
    have failed := map_eq_error_iff.mp failed
    simp only [perform, expression] at failed ⊢
    rcases answer : r.expression? with ⟨e' | _ | n, behind⟩
    · rw [answer] at failed
      obtain rfl := Except.error.inj failed
      have found := read_found (map_eq_error_iff.mp (congrArg Prod.fst answer))
      exact (congrArg (fun pair => pair.2.current) answer).symm.trans found
    · rw [answer] at failed
      cases failed
      rfl
    · rw [answer] at failed
      cases failed
  | expression? | statement? | block =>
    exact read_found (map_eq_error_iff.mp (map_eq_error_iff.mp failed))
  | program =>
    have failed := map_eq_error_iff.mp failed
    simp only [perform, program] at failed ⊢
    rcases answer : r.read .program with ⟨e' | nodes, behind⟩
    · rw [answer] at failed
      cases failed
      have found := read_found (congrArg Prod.fst answer)
      rwa [answer] at found
    · rw [answer] at failed
      cases failed

/-- A call for at most one node returns none without moving, or one node after progress. -/
theorem head_cases {config : Config String Token} (one : config.ReadsOne) {node : Option Tree}
    (read : (r.read config).1.map List.head? = .ok node) :
    node = none ∧ (r.read config).2.rest = r.rest ∨
      ∃ n, node = some n ∧ (r.read config).2.rest.length < r.rest.length := by
  have ran := ((head_eq_ok_iff one).mp (Prod.ext read rfl)).1
  rcases one _ _ _ ran with ⟨absent, kept⟩ | ⟨n, present, moved⟩
  · left
    cases node with
    | none => exact ⟨rfl, kept⟩
    | some n => cases absent
  · right
    cases node with
    | none => cases present
    | some m => exact ⟨m, rfl, moved⟩

theorem perform_node {node : Option Tree} (given : (r.perform call).1 = .ok (.node node)) :
    node = none ∧ (r.perform call).2.rest = r.rest ∨
      ∃ n, node = some n ∧ (r.perform call).2.rest.length < r.rest.length := by
  cases call with
  | current | peek | advance => cases given
  | expect kind =>
    obtain ⟨_, _, same⟩ := map_eq_ok_iff.mp given
    cases same
  | program =>
    obtain ⟨_, _, same⟩ := map_eq_ok_iff.mp given
    cases same
  | expression =>
    obtain ⟨n, read, same⟩ := map_eq_ok_iff.mp given
    cases same
    have read : r.expression? = (.ok (some n), r.expression.2) :=
      expression_eq_ok_iff.mp (Prod.ext read rfl)
    have moves := head_cases Config.readsOne_expression (congrArg Prod.fst read)
    rwa [perform, expression_snd]
  | expression? =>
    obtain ⟨_, read, same⟩ := map_eq_ok_iff.mp given
    cases same
    exact head_cases Config.readsOne_expression read
  | statement? =>
    obtain ⟨_, read, same⟩ := map_eq_ok_iff.mp given
    cases same
    exact head_cases Config.readsOne_statement read
  | block =>
    obtain ⟨_, read, same⟩ := map_eq_ok_iff.mp given
    cases same
    exact head_cases Config.readsOne_block read

/-- Such a call returns none exactly when the current token cannot lead what it asks for. -/
theorem head_eq_none_iff {config : Config String Token} {leads : Token → Prop}
    (one : config.ReadsOne) (opens : config.Opens leads) (stands : r.StandsAt ts here) :
    (r.read config).1.map List.head? = .ok none ↔ ¬ leads r.current := by
  constructor
  · intro read leading
    have ran := ((head_eq_ok_iff one).mp (Prod.ext read rfl)).1
    have kept := (head_cases one read).resolve_right (by simp)
    rcases opens.present _ leading with ⟨next, moves⟩ | ⟨expected, moves⟩
    · have shorter := Config.length_lt_of_shift (stands.ahead ▸ moves) ran
      rw [kept.2] at shorter
      exact absurd shorter (Nat.lt_irrefl _)
    · rw [Config.run_eq, stands.ahead, moves] at ran
      cases ran
  · intro other
    have ran : config.run vocabulary r.rest = (.ok [], r.rest) := by
      rw [Config.run_eq, stands.ahead, opens.absent _ other]
      rfl
    have read : ((r.read config).1.map List.head?, (r.read config).2) = (.ok none, r) :=
      (head_eq_ok_iff one).mpr ⟨ran, rfl⟩
    exact congrArg Prod.fst read

/-- Blocks and expressions are never absent in a successful answer. -/
theorem perform_some {answer : Answer} (given : (r.perform call).1 = .ok answer)
    (must : call = .block ∨ call = .expression ∨ ∃ n, answer = .node (some n)) :
    ∃ n, answer = .node (some n) := by
  rcases must with rfl | rfl | gives
  · obtain ⟨node, read, rfl⟩ := map_eq_ok_iff.mp given
    obtain ⟨body, _, _, _, same⟩ := block_of_run (block_eq_ok_iff.mp (Prod.ext read rfl)).1
    cases node with
    | none => cases same
    | some n => exact ⟨n, rfl⟩
  · obtain ⟨n, _, rfl⟩ := map_eq_ok_iff.mp given
    exact ⟨n, rfl⟩
  · exact gives

/-- A program leaves no token. -/
theorem perform_program {answer : Answer} (endless : Endless r.rest)
    (given : (r.perform .program).1 = .ok answer) : (r.perform .program).2.rest = [] := by
  obtain ⟨p, read, _⟩ := map_eq_ok_iff.mp given
  simp only [perform, program] at read ⊢
  rcases answer : r.read .program with ⟨e | nodes, behind⟩
  · rw [answer] at read
    cases read
  · have ran := (read_eq_ok_iff.mp answer).1
    exact congrArg List.tail (derives_of_run endless ran).1

end Reader

/-- The discipline holds for every call after any sequence of calls, failed ones included. -/
theorem calls_disciplined (ts : List Token) (calls : List Call) (call : Call) :
    ∃ here there, Disciplined ts ((Reader.ofTokens ts).after calls) call here there := by
  obtain ⟨here, _, start⟩ := (Reader.standsAt_ofTokens ts).after calls
  obtain ⟨there, forward, finish⟩ := start.perform call
  generalize (Reader.ofTokens ts).after calls = r at start finish ⊢
  have before := start.length_rest
  have behind := finish.length_rest
  have within := start.within
  have within' := finish.within
  refine ⟨here, there, start, finish, forward, fun e failed => Reader.perform_found failed,
    ?kept, ?moved, ?expressionless, ?statementless, ?ended⟩
  case kept =>
    intro nodeless
    obtain ⟨_, same⟩ := (Reader.perform_node nodeless).resolve_right (by simp)
    rw [same] at behind
    omega
  case moved =>
    intro answer given must
    obtain ⟨n, rfl⟩ := Reader.perform_some given must
    obtain ⟨_, _, shorter⟩ := (Reader.perform_node given).resolve_left (by simp)
    omega
  case expressionless =>
    rintro rfl
    rw [← Reader.head_eq_none_iff Config.readsOne_expression Config.opens_expression start]
    exact Reader.map_node_iff
  case statementless =>
    rintro rfl
    rw [← Reader.head_eq_none_iff Config.readsOne_statement Config.opens_statement start]
    exact Reader.map_node_iff
  case ended =>
    rintro rfl endless answer given
    have left : Endless r.rest := by
      rw [start.rest]
      exact fun t member => endless t (List.mem_of_mem_drop member)
    rw [Reader.perform_program left given, List.length_nil] at behind
    omega

end BracketScript
