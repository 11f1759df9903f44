import BracketScript.Proofs.Viability

/-! Truthful errors: a state that rejects a token takes one of the expected kind in its place, and
every state that is reached has a completion. -/
namespace BracketScript
open Token (vocabulary)

section Step

variable {ν τ : Type}

/-- A kind that satisfies the expectation. -/
def Expected.sample : Expected → Kind
  | .kind k => k
  | .expression => .num

/-- The move shifts a token of the kind, or accepts where the kind is the end. -/
def Move.Takes (kind : Kind) : Move ν τ → Prop
  | shift _ => kind ≠ .eof
  | accept _ => kind = .eof
  | reject _ => False

/-- The cue is not what is expected, and one that is would be taken. -/
structure Expected.Truthful (expected : Expected) (c : Cue) (move : Cue → Move ν τ) : Prop where
  differs : expected ≠ .kind c.kind
  plain : expected.sample.tier? = none
  takes : ∀ c', c'.kind = expected.sample → c'.operator = none →
    (move c').Takes expected.sample

variable {c : Cue} {kind : Kind} {expected : Expected} {move : Move ν τ}
  {frames : List (Frame ν τ)} {node : Option (Node ν τ)}

theorem Move.shift_takes (next : τ → Config ν τ) (other : kind ≠ .eof) :
    (shift next).Takes kind := other

theorem Move.skip_takes (focus : Focus ν τ) (frames : List (Frame ν τ)) (other : kind ≠ .eof) :
    (skip focus frames).Takes kind := other

theorem Move.when_eq_reject (takes : move.Takes kind)
    (rejected : Move.when c kind move = .reject expected) :
    expected = .kind kind ∧ c.kind ≠ kind := by
  unfold Move.when at rejected
  split at rejected
  · rw [rejected] at takes
    exact takes.elim
  · next other =>
    cases rejected
    exact ⟨rfl, other⟩

theorem Move.given_eq_reject {next : Node ν τ → Move ν τ}
    (rejected : Move.given node next = .reject expected) :
    node = none ∧ expected = .expression ∨ ∃ n, node = some n ∧ next n = .reject expected := by
  cases node with
  | none =>
    cases rejected
    exact .inl ⟨rfl, rfl⟩
  | some n => exact .inr ⟨n, rfl, rejected⟩

/-- A truthful expectation of a kind that ends statements, where a node arrives. -/
structure Frame.Wants (c : Cue) (node : Option (Node ν τ)) (frames : List (Frame ν τ))
    (expected : Expected) : Prop extends expected.Truthful c (deliver · node frames) where
  ends : expected = .kind .semicolon ∨ expected = .kind .rightBracket ∨ expected = .kind .eof

theorem Expected.Truthful.of_when {at_ : Cue → Move ν τ} (plain : kind.tier? = none)
    (takes : move.Takes kind) (same : ∀ c', c'.kind = kind → at_ c' = move)
    (rejected : Move.when c kind move = .reject expected) : expected.Truthful c at_ := by
  obtain ⟨rfl, other⟩ := Move.when_eq_reject takes rejected
  refine ⟨?_, plain, ?_⟩
  · intro equal
    cases equal
    exact other rfl
  · intro c' is _
    rw [same c' is]
    exact takes

namespace Frame

theorem Wants.of_when (takes : move.Takes kind)
    (ends : kind = .semicolon ∨ kind = .rightBracket ∨ kind = .eof)
    (same : ∀ c', c'.kind = kind → deliver c' node frames = Move.when c' kind move)
    (rejected : Move.when c kind move = .reject expected) : Wants c node frames expected := by
  have plain : kind.tier? = none := by rcases ends with rfl | rfl | rfl <;> rfl
  obtain ⟨rfl, _⟩ := Move.when_eq_reject takes rejected
  refine ⟨.of_when plain takes (fun c' is => ?_) rejected, ?_⟩
  · rw [same c' is, Move.when, if_pos is]
  · rcases ends with rfl | rfl | rfl <;> simp

theorem Wants.delimits (wants : Wants c node frames expected) {c' : Cue}
    (is : c'.kind = expected.sample) (operatorless : c'.operator = none) : c'.Delimits := by
  refine ⟨?_, operatorless⟩
  rcases wants.ends with rfl | rfl | rfl <;> simp [is, Expected.sample]

/-- A frame that passes a node on inherits the wants of the frames around it. -/
theorem Wants.pass {node' : Option (Node ν τ)} {frames' : List (Frame ν τ)}
    (wants : Wants c node frames expected)
    (same : ∀ c', c'.operator = none → deliver c' node' frames' = deliver c' node frames) :
    Wants c node' frames' expected := by
  refine ⟨⟨wants.differs, wants.plain, fun c' is operatorless => ?_⟩, wants.ends⟩
  rw [same c' operatorless]
  exact wants.takes c' is operatorless

/-- A delivery is rejected either because an expression is missing or because of a kind that would
be taken instead. -/
theorem deliver_eq_reject (rejected : deliver c node frames = .reject expected) :
    node = none ∧ expected = .expression ∨ Wants c node frames expected := by
  have bracket {node : Option (Node ν τ)} {frames inner : List (Frame ν τ)} {focus : Focus ν τ}
      (same : ∀ c', c'.kind = .rightBracket →
        deliver c' node frames = Move.when c' .rightBracket (.skip focus inner))
      (rejected : Move.when c .rightBracket (.skip focus inner) = .reject expected) :
      Wants c node frames expected :=
    .of_when (Move.skip_takes _ _ (by decide)) (.inr (.inl rfl)) same rejected
  induction frames generalizing node with
  | nil => cases rejected
  | cons frame outer ih =>
    have below {n m : Node ν τ} (rejected : deliver c (some m) outer = .reject expected)
        (same : ∀ c', c'.operator = none →
          deliver c' (some n) (frame :: outer) = deliver c' (some m) outer) :
        Wants c (some n) (frame :: outer) expected := by
      rcases ih rejected with ⟨missing, _⟩ | wants
      · cases missing
      · exact wants.pass same
    cases frame with
    | wrap w =>
      rcases Move.given_eq_reject rejected with absent | ⟨n, rfl, given⟩
      · exact .inl absent
      · exact .inr (below given fun _ _ => rfl)
    | binary tier op left =>
      rcases Move.given_eq_reject rejected with absent | ⟨n, rfl, given⟩
      · exact .inl absent
      · split at given
        · cases given
        · refine .inr (below given fun c' operatorless => deliver_binary ?_ op left n)
          intro tier op operates
          cases operatorless.symm.trans operates
    | expression =>
      simp only [deliver] at rejected
      split at rejected
      · rcases Move.given_eq_reject rejected with absent | ⟨n, rfl, given⟩
        · exact .inl absent
        · cases given
      · rcases ih rejected with absent | wants
        · exact .inl absent
        · exact .inr (wants.pass fun c' operatorless => deliver_expression operatorless node)
    | list before =>
      simp only [deliver] at rejected
      split at rejected
      · next empty =>
        refine .inr (bracket (fun c' _ => ?_) rejected)
        rw [deliver, if_pos empty]
      · next filled =>
        rcases Move.given_eq_reject rejected with absent | ⟨n, rfl, given⟩
        · exact .inl absent
        · split at given
          · cases given
          · refine .inr (bracket (fun c' is => ?_) given)
            simp [deliver, Move.given, is]
    | condition guard =>
      rcases Move.given_eq_reject rejected with absent | ⟨n, rfl, given⟩
      · exact .inl absent
      · exact .inr (bracket (fun _ _ => rfl) given)
    | loopInit | loopCondition init =>
      exact .inr (.of_when (Move.skip_takes _ _ (by decide)) (.inl rfl) (fun _ _ => rfl) rejected)
    | loopStep init test =>
      exact .inr (bracket (fun _ _ => rfl) rejected)
    | body header before =>
      simp only [deliver] at rejected
      split at rejected
      · cases rejected
      · refine .inr (bracket (fun c' is => ?_) rejected)
        simp [deliver, is, Kind.isSeparator]
    | program before =>
      simp only [deliver] at rejected
      split at rejected
      · cases rejected
      · have takes : (Move.accept (before ++ node.toList) : Move ν τ).Takes .eof := rfl
        refine .inr (.of_when takes (.inr (.inr rfl)) (fun c' is => ?_) rejected)
        simp [deliver, is, Kind.isSeparator]

/-! A focus that starts nothing at a cue leaves the cue to the frames. -/

theorem startAtom_eq_reject {leaf : τ → Focus ν τ}
    (rejected : startAtom c leaf frames = .reject expected) :
    deliver c none frames = .reject expected := by
  unfold startAtom at rejected
  split at rejected
  · cases rejected
  · split at rejected
    · cases rejected
    · cases rejected
    · exact rejected

theorem startOperand_eq_reject (rejected : startOperand c frames = .reject expected) :
    deliver c none frames = .reject expected := by
  unfold startOperand at rejected
  split at rejected
  · cases rejected
  · cases rejected
  · cases rejected
  · cases rejected
  · exact startAtom_eq_reject rejected

theorem startStatement_eq_reject (rejected : startStatement c frames = .reject expected) :
    deliver c none (expression :: frames) = .reject expected := by
  unfold startStatement at rejected
  split at rejected <;> first
    | exact startOperand_eq_reject rejected
    | cases rejected

theorem afterPrimary_eq_reject {n : Node ν τ}
    (rejected : afterPrimary c n frames = .reject expected) :
    deliver c (some n) frames = .reject expected := by
  unfold afterPrimary at rejected
  split at rejected
  · cases rejected
  · cases rejected
  · exact rejected

theorem afterLeaf_eq_reject {t : τ} (rejected : afterLeaf c t frames = .reject expected) :
    deliver c (some (.leaf t)) frames = .reject expected := by
  unfold afterLeaf at rejected
  split at rejected
  · cases rejected
  · cases rejected
  · exact afterPrimary_eq_reject rejected

end Frame

/-- Where no operand starts, the truth of an expectation rests on the delivery of nothing. -/
theorem Expected.Truthful.of_start {start : Cue → Move ν τ}
    (rejected : Frame.deliver c none frames = .reject expected)
    (ends : ∀ c' : Cue, c'.Delimits → start c' = Frame.deliver c' none frames)
    (number : ∀ c' : Cue, c'.kind = .num → (start c').Takes .num) :
    expected.Truthful c start := by
  rcases Frame.deliver_eq_reject rejected with ⟨_, rfl⟩ | wants
  · exact ⟨by simp, rfl, fun c' is _ => number c' is⟩
  · refine ⟨wants.differs, wants.plain, fun c' is operatorless => ?_⟩
    rw [ends c' (wants.delimits is operatorless)]
    exact wants.takes c' is operatorless

/-- Behind a node it rests on the delivery of the node. -/
theorem Expected.Truthful.of_node {n : Node ν τ} {behind : Cue → Move ν τ}
    (rejected : Frame.deliver c (some n) frames = .reject expected)
    (ends : ∀ c' : Cue, c'.Delimits → behind c' = Frame.deliver c' (some n) frames) :
    expected.Truthful c behind := by
  rcases Frame.deliver_eq_reject rejected with ⟨absent, _⟩ | wants
  · cases absent
  · refine ⟨wants.differs, wants.plain, fun c' is operatorless => ?_⟩
    rw [ends c' (wants.delimits is operatorless)]
    exact wants.takes c' is operatorless

namespace Frame

theorem afterPrimary_delimits (delimits : c.Delimits) (n : Node ν τ) :
    afterPrimary c n frames = deliver c (some n) frames := by
  have ends := delimits.endsOperand
  unfold afterPrimary
  split
  · next period => exact absurd period ends.period
  · next bracket => exact absurd bracket ends.bracket
  · rfl

theorem afterLeaf_delimits (delimits : c.Delimits) (t : τ) :
    afterLeaf c t frames = deliver c (some (.leaf t)) frames := by
  have ends := delimits.endsOperand
  unfold afterLeaf
  split
  · next inc => exact absurd inc ends.inc
  · next dec => exact absurd dec ends.dec
  · exact afterPrimary_delimits delimits _

theorem afterSymbol_jump (ends : c.kind ≠ .leftBracket ∧ c.kind ≠ .period ∧ c.kind ≠ .assign)
    (t : τ) (j : Jump) : afterSymbol c t (some j) frames = deliver c (some (.jump j)) frames := by
  simp [afterSymbol, ends]

theorem afterSymbol_leaf (ends : c.kind ≠ .leftBracket ∧ c.kind ≠ .period ∧ c.kind ≠ .assign)
    (t : τ) : afterSymbol c t none frames = afterLeaf c t (expression :: frames) := by
  simp [afterSymbol, ends]

theorem afterSymbol_truthful {t : τ} {jump : Option Jump}
    (rejected : afterSymbol c t jump frames = .reject expected) :
    expected.Truthful c (afterSymbol · t jump frames) := by
  have ends : c.kind ≠ .leftBracket ∧ c.kind ≠ .period ∧ c.kind ≠ .assign := by
    refine ⟨?_, ?_, ?_⟩
    all_goals
      intro is
      simp [afterSymbol, is, afterPrimary, openList, Move.skip] at rejected
  have delimits_ends (c' : Cue) (delimits : c'.Delimits) :
      c'.kind ≠ .leftBracket ∧ c'.kind ≠ .period ∧ c'.kind ≠ .assign :=
    ⟨delimits.endsOperand.bracket, delimits.endsOperand.period, delimits.assign⟩
  cases jump with
  | some j =>
    rw [afterSymbol_jump ends] at rejected
    exact .of_node rejected fun c' delimits => afterSymbol_jump (delimits_ends c' delimits) t j
  | none =>
    rw [afterSymbol_leaf ends] at rejected
    apply Expected.Truthful.of_node (afterLeaf_eq_reject rejected)
    intro c' delimits
    rw [afterSymbol_leaf (delimits_ends c' delimits), afterLeaf_delimits delimits]

end Frame

/-- One step: what a proper state expects differs from the cue it rejects, and the state would take
it. -/
theorem Config.step_truthful {config : Config ν τ} (proper : config.focus.Proper) {name : τ → ν}
    (rejected : config.step name c = .reject expected) :
    expected.Truthful c (config.step name) := by
  obtain ⟨focus, frames⟩ := config
  cases focus with
  | statement =>
    apply Expected.Truthful.of_start (Frame.startStatement_eq_reject rejected)
    · intro c' delimits
      rw [Frame.deliver_expression delimits.operator]
      exact Frame.startStatement_delimits delimits
    · intro c' number
      simp [step, Frame.startStatement, Frame.startOperand, Frame.startAtom, number, Kind.isLeaf,
        Move.Takes]
  | operand =>
    apply Expected.Truthful.of_start (Frame.startOperand_eq_reject rejected)
    · intro c' delimits
      exact Frame.startOperand_delimits delimits
    · intro c' number
      simp [step, Frame.startOperand, Frame.startAtom, number, Kind.isLeaf, Move.Takes]
  | atom bangs =>
    simp only [step] at rejected
    split at rejected
    · cases rejected
    · apply Expected.Truthful.of_start (Frame.startAtom_eq_reject rejected)
      · intro c' delimits
        rcases delimits.kind with kind | kind | kind | kind | kind <;>
          simp [step, Frame.startAtom, kind, Kind.isLeaf]
      · intro c' number
        simp [step, Frame.startAtom, number, Kind.isLeaf, Move.Takes]
  | symbol t jump => exact Frame.afterSymbol_truthful rejected
  | leaf t => exact .of_node (Frame.afterLeaf_eq_reject rejected) fun c' delimits =>
      Frame.afterLeaf_delimits delimits t
  | primary n => exact .of_node (Frame.afterPrimary_eq_reject rejected) fun c' delimits =>
      Frame.afterPrimary_delimits delimits n
  | whole n => exact .of_node rejected fun _ _ => rfl
  | await kind next =>
    obtain ⟨rfl | rfl, _⟩ := proper
    · exact .of_when rfl (Move.skip_takes _ _ (by decide)) (fun c' is => if_pos is) rejected
    · exact .of_when rfl (Move.skip_takes _ _ (by decide)) (fun c' is => if_pos is) rejected
  | functionName | bindingName | parameterNext =>
    exact .of_when rfl (Move.shift_takes _ (by decide)) (fun c' is => if_pos is) rejected
  | parameterFirst owner =>
    simp only [step] at rejected
    split at rejected
    · cases rejected
    · refine .of_when rfl (Move.shift_takes _ (by decide)) (fun c' is => ?_) rejected
      simp [step, is, Move.when]
  | parameterEnd owner before =>
    simp only [step] at rejected
    split at rejected
    · cases rejected
    · refine .of_when rfl (Move.skip_takes _ _ (by decide)) (fun c' is => ?_) rejected
      simp [step, is, Move.when, Frame.awaitBody]
  | enumGap names =>
    simp only [step] at rejected
    split at rejected
    · cases rejected
    · split at rejected
      · cases rejected
      · refine .of_when rfl (Move.shift_takes _ (by decide)) (fun c' is => ?_) rejected
        simp [step, is, Move.when, Kind.isSeparator]
  | enumEnd names =>
    simp only [step] at rejected
    split at rejected
    · cases rejected
    · refine .of_when rfl (Move.skip_takes _ _ (by decide)) (fun c' is => ?_) rejected
      simp [step, is, Move.when, Kind.isSeparator]

/-! No move takes the cue of the end. -/

def Move.Stays : Move ν τ → Prop
  | shift _ => False
  | _ => True

theorem Move.given_stays {next : Node ν τ → Move ν τ} (stays : ∀ n, (next n).Stays) :
    (Move.given node next).Stays := by
  cases node with
  | none => trivial
  | some n => exact stays n

theorem Frame.deliver_eof_stays (node : Option (Node ν τ)) (frames : List (Frame ν τ)) :
    (deliver .eof node frames).Stays := by
  induction frames generalizing node with
  | nil => trivial
  | cons frame outer ih =>
    cases frame with
    | wrap w => exact Move.given_stays fun n => ih _
    | binary tier op left => exact Move.given_stays fun n => ih _
    | expression => exact ih node
    | list before =>
      simp only [deliver]
      split
      · trivial
      · exact Move.given_stays fun n => trivial
    | condition guard => exact Move.given_stays fun n => trivial
    | loopInit | loopCondition | loopStep | body | program => trivial

theorem Config.step_eof_stays {config : Config ν τ} (proper : config.focus.Proper) (name : τ → ν) :
    (config.step name .eof).Stays := by
  obtain ⟨focus, frames⟩ := config
  cases focus with
  | symbol t jump =>
    cases jump with
    | some j => exact Frame.deliver_eof_stays _ frames
    | none => exact Frame.deliver_eof_stays _ (.expression :: frames)
  | atom bangs => cases bangs <;> exact Frame.deliver_eof_stays _ frames
  | statement | operand | leaf | primary | whole => exact Frame.deliver_eof_stays _ frames
  | await kind next => obtain ⟨rfl | rfl, _⟩ := proper <;> trivial
  | functionName | bindingName | parameterFirst | parameterNext | parameterEnd => trivial
  | enumGap | enumEnd => trivial

/-- An error before the first token is a rejection by the state itself. -/
theorem Config.step_of_run_error {v : Vocabulary ν τ} {config : Config ν τ} {ts : List τ}
    (proper : config.focus.Proper) (failed : config.run v ts = (.error expected, ts)) :
    config.step v.name (v.ahead ts) = .reject expected := by
  rw [run_eq] at failed
  cases move : config.step v.name (v.ahead ts) with
  | accept nodes =>
    rw [move] at failed
    cases failed
  | reject other =>
    rw [move] at failed
    cases failed
    rfl
  | shift next =>
    rw [move] at failed
    cases ts with
    | nil =>
      have stays := step_eof_stays proper v.name
      rw [show (Cue.eof : Cue) = v.ahead [] from rfl, move] at stays
      exact stays.elim
    | cons t ts =>
      have shorter := (run_suffix v (next t) ts).length_le
      rw [show (next t).run v ts = (.error expected, t :: ts) from failed] at shorter
      simp only [List.length_cons] at shorter
      omega

end Step

/-- Some program starts with the tokens. -/
def Viable (ts : List Token) : Prop := ∃ us p, Endless us ∧ parse (ts ++ us) = .ok p

/-- Every token that a proper state takes extends to a complete program. -/
theorem Config.run_taken {config : Config String Token} (proper : config.focus.Proper) {t : Token}
    {kind : Kind} (takes : (config.step vocabulary.name t.cue).Takes kind) (other : kind ≠ .eof) :
    ∃ us ns, Endless us ∧ config.run vocabulary (t :: us) = (.ok ns, []) := by
  have behind := step_proper proper vocabulary.name t.cue
  cases move : config.step vocabulary.name t.cue with
  | accept nodes =>
    rw [move] at takes
    exact absurd takes other
  | reject expected =>
    rw [move] at takes
    exact takes.elim
  | shift next =>
    rw [move] at behind
    obtain ⟨ns, completed⟩ := (next t).run_completion
    refine ⟨(next t).completion, ns, (next t).completion_endless (behind t), ?_⟩
    rw [run_eq, Token.ahead_cons, move]
    exact completed

theorem Config.run_ended {config : Config String Token}
    (takes : (config.step vocabulary.name .eof).Takes .eof) :
    ∃ ns, config.run vocabulary [] = (.ok ns, []) := by
  cases move : config.step vocabulary.name .eof with
  | accept nodes => exact ⟨nodes, by rw [run, move]⟩
  | reject expected =>
    rw [move] at takes
    exact takes.elim
  | shift next =>
    rw [move] at takes
    exact absurd rfl takes

/-- An expected end means that the tokens before the error already form a program. An expected kind
can follow them with any token of that kind, and an expected expression with any number. The token
found is never of the kind expected. -/
theorem parse_error_truthful {ts : List Token} {e : ParseError} (failed : parse ts = .error e) :
    let front := ts.take (passed ts)
    (e.expected = .kind .eof → ∃ p, parse front = .ok p) ∧
    (∀ kind, e.expected = .kind kind → kind ≠ .eof → ∀ t, t.kind = kind → Viable (front ++ [t])) ∧
    (e.expected = .expression → ∀ t, t.kind = .num → Viable (front ++ [t])) ∧
    e.expected ≠ .kind e.found.kind := by
  obtain ⟨rest, ran, found⟩ := parse_eq_error_iff_run.mp failed
  obtain ⟨taken, reached, rfl, proper, same, _⟩ :=
    Config.run_error (show Config.program.focus.Proper from trivial) ran
  have front : (taken ++ rest).take (passed (taken ++ rest)) = taken := by
    simp [passed_of_run_error ran]
  have stuck : reached.run vocabulary rest = (.error e.expected, rest) := by rw [← same, ran]
  have truthful := Config.step_truthful proper (Config.step_of_run_error proper stuck)
  have viable (t : Token) (is : t.kind = e.expected.sample) (other : e.expected.sample ≠ .eof) :
      Viable (taken ++ [t]) := by
    have takes := truthful.takes t.cue is (Token.operator?_eq_none (is ▸ truthful.plain))
    obtain ⟨us, ns, endless, completed⟩ := Config.run_taken proper takes other
    refine ⟨us, ⟨ns⟩, endless, parse_eq_ok_iff_run.mpr ?_⟩
    rw [List.append_assoc, List.singleton_append, same, completed]
  simp only [front]
  refine ⟨fun ended => ?_, fun kind expects other t is => ?_, fun expects t is => ?_, ?_⟩
  · have takes := truthful.takes .eof (by rw [ended]; rfl) rfl
    rw [ended] at takes
    obtain ⟨ns, completed⟩ := Config.run_ended takes
    have whole := same []
    rw [List.append_nil, completed] at whole
    exact ⟨⟨ns⟩, parse_eq_ok_iff_run.mpr (by rw [whole])⟩
  · exact viable t (by rw [expects]; exact is) (by rw [expects]; exact other)
  · exact viable t (by rw [expects]; exact is) (by rw [expects]; decide)
  · have kind : e.found.kind = (vocabulary.ahead rest).kind := by
      rw [found]
      cases rest <;> rfl
    rw [kind]
    exact truthful.differs

/-- After the first parameter a second name is rejected, and a closing bracket would be taken. -/
theorem parse_error_truthful_parameter :
    let name : Token := ⟨.symbol, .text "f", 1, 4, 1⟩
    let front : List Token := [.ofKind .funcWord, name, .ofKind .leftBracket, name]
    parse (front ++ [name]) = .error ⟨.kind .rightBracket, name⟩ ∧
      ∀ t : Token, t.kind = .rightBracket → Viable (front ++ [t]) := by
  intro name front
  have failed : parse (front ++ [name]) = .error ⟨.kind .rightBracket, name⟩ := rfl
  obtain ⟨_, viable, _, _⟩ := parse_error_truthful failed
  exact ⟨failed, viable .rightBracket rfl (by decide)⟩

end BracketScript
