import BracketScript.Proofs.Exactness

/-! The parser stops at the first token that no program has at its place. Every state has a
completion: each focus and each frame is completed by a few tokens of which only the kinds matter.
The states depend on nothing but the tokens taken so far. -/
namespace BracketScript
open Token (vocabulary)

def Token.ofKind (kind : Kind) : Token := ⟨kind, .text "", 1, 1, 0⟩

@[simp] theorem Token.ofKind_cue (kind : Kind) : (ofKind kind).cue = ⟨kind, none, none⟩ := by
  cases kind <;> rfl

@[simp] theorem Token.ofKind_kind (kind : Kind) : (ofKind kind).kind = kind := rfl

section Proper

variable {ν τ : Type}

/-- No other kind is awaited than an opening bracket or an assignment. -/
def Focus.Proper : Focus ν τ → Prop
  | .await kind next => (kind = .leftBracket ∨ kind = .assign) ∧ next.Proper
  | _ => True

def Move.Proper : Move ν τ → Prop
  | shift next => ∀ t, (next t).focus.Proper
  | _ => True

namespace Move

theorem Proper.when {c : Cue} {kind : Kind} {move : Move ν τ} (proper : move.Proper) :
    (Move.when c kind move).Proper := by
  unfold Move.when
  split
  · exact proper
  · trivial

theorem Proper.given {node : Option (Node ν τ)} {move : Node ν τ → Move ν τ}
    (proper : ∀ n, (move n).Proper) : (Move.given node move).Proper := by
  cases node with
  | none => trivial
  | some n => exact proper n

theorem awaitBody_proper (header : Header ν τ) (frames : List (Frame ν τ)) :
    (Frame.awaitBody header frames).Proper := fun _ => ⟨.inl rfl, trivial⟩

end Move

namespace Frame

theorem deliver_proper (c : Cue) (node : Option (Node ν τ)) (frames : List (Frame ν τ)) :
    (deliver c node frames).Proper := by
  induction frames generalizing node with
  | nil => trivial
  | cons frame outer ih =>
    cases frame with
    | wrap w => exact .given fun n => ih _
    | binary tier op left =>
      refine .given fun n => ?_
      split
      · exact fun _ => trivial
      · exact ih _
    | expression =>
      unfold deliver
      split
      · exact .given fun n _ => trivial
      · exact ih _
    | list before =>
      unfold deliver
      split
      · exact .when fun _ => trivial
      · refine .given fun n => ?_
        split
        · exact fun _ => trivial
        · exact .when fun _ => trivial
    | condition guard => exact .given fun n => .when (Move.awaitBody_proper _ _)
    | loopInit => exact .when fun _ => trivial
    | loopCondition init => exact .when fun _ => trivial
    | loopStep init test => exact .when (Move.awaitBody_proper _ _)
    | body header before =>
      unfold deliver
      split
      · exact fun _ => trivial
      · refine .when fun _ => ?_
        cases header <;> trivial
    | program before =>
      unfold deliver
      split
      · exact fun _ => trivial
      · exact .when trivial

theorem startAtom_proper (c : Cue) {leaf : τ → Focus ν τ} (frames : List (Frame ν τ))
    (proper : ∀ t, (leaf t).Proper) : (startAtom c leaf frames).Proper := by
  unfold startAtom
  split
  · exact proper
  · split
    · exact fun _ => trivial
    · exact fun _ => ⟨.inl rfl, trivial⟩
    · exact deliver_proper c none frames

theorem startOperand_proper (c : Cue) (frames : List (Frame ν τ)) :
    (startOperand c frames).Proper := by
  unfold startOperand
  split <;> first | exact fun _ => trivial | exact startAtom_proper c frames fun _ => trivial

theorem startStatement_proper (c : Cue) (frames : List (Frame ν τ)) :
    (startStatement c frames).Proper := by
  unfold startStatement
  split <;> first
    | exact fun _ => trivial
    | exact fun _ => ⟨.inl rfl, trivial⟩
    | exact startOperand_proper c _

theorem afterPrimary_proper (c : Cue) (n : Node ν τ) (frames : List (Frame ν τ)) :
    (afterPrimary c n frames).Proper := by
  unfold afterPrimary
  split <;> first | exact fun _ => trivial | exact deliver_proper c _ frames

theorem afterLeaf_proper (c : Cue) (t : τ) (frames : List (Frame ν τ)) :
    (afterLeaf c t frames).Proper := by
  unfold afterLeaf
  split <;> first | exact fun _ => trivial | exact afterPrimary_proper c _ frames

theorem afterSymbol_proper (c : Cue) (t : τ) (jump : Option Jump) (frames : List (Frame ν τ)) :
    (afterSymbol c t jump frames).Proper := by
  unfold afterSymbol
  split <;> first
    | exact fun _ => trivial
    | exact afterPrimary_proper c _ frames
    | split <;> first | exact deliver_proper c _ frames | exact afterLeaf_proper c t _

end Frame

/-- Properness is preserved by every step. -/
theorem Config.step_proper {config : Config ν τ} (proper : config.focus.Proper) (name : τ → ν)
    (c : Cue) : (config.step name c).Proper := by
  obtain ⟨focus, frames⟩ := config
  cases focus with
  | statement => exact Frame.startStatement_proper c frames
  | operand => exact Frame.startOperand_proper c frames
  | atom bangs =>
    simp only [step]
    split
    · exact fun _ => trivial
    · exact Frame.startAtom_proper c frames fun _ => trivial
  | symbol t jump => exact Frame.afterSymbol_proper c t jump frames
  | leaf t => exact Frame.afterLeaf_proper c t frames
  | primary n => exact Frame.afterPrimary_proper c n frames
  | whole n => exact Frame.deliver_proper c _ frames
  | await kind next => exact .when fun _ => proper.2
  | functionName => exact .when fun _ => ⟨.inl rfl, trivial⟩
  | bindingName => exact .when fun _ => ⟨.inr rfl, trivial⟩
  | parameterFirst owner =>
    simp only [step]
    split
    · exact Move.awaitBody_proper _ _
    · exact .when fun _ => trivial
  | parameterNext owner before => exact .when fun _ => trivial
  | parameterEnd owner before =>
    simp only [step]
    split
    · exact fun _ => trivial
    · exact .when (Move.awaitBody_proper _ _)
  | enumGap names =>
    simp only [step]
    split
    · exact fun _ => trivial
    · split
      · exact fun _ => trivial
      · exact .when fun _ => trivial
  | enumEnd names =>
    simp only [step]
    split
    · exact fun _ => trivial
    · exact .when fun _ => trivial

/-- A failing run reaches a proper state by the tokens it takes, whatever follows them, and there
the next token alone causes the error. -/
theorem Config.run_error {v : Vocabulary ν τ} {config : Config ν τ} {ts rest : List τ}
    {expected : Expected} (proper : config.focus.Proper)
    (failed : config.run v ts = (.error expected, rest)) :
    ∃ (taken : List τ) (reached : Config ν τ), ts = taken ++ rest ∧ reached.focus.Proper ∧
      (∀ us, config.run v (taken ++ us) = reached.run v us) ∧
      ∀ t us, rest = t :: us → ∀ us', reached.run v (t :: us') = (.error expected, t :: us') := by
  induction ts generalizing config with
  | nil =>
    have consumed : rest = [] := by
      simp only [run] at failed
      split at failed <;> cases failed <;> rfl
    refine ⟨[], config, by rw [consumed, List.append_nil], proper, fun _ => rfl,
      fun t us same => ?_⟩
    cases consumed.symm.trans same
  | cons t ts ih =>
    have step := step_proper proper v.name (v.cue t)
    simp only [run] at failed
    split at failed
    · next next moved =>
      rw [moved] at step
      obtain ⟨taken, reached, rfl, proper, same, stuck⟩ := ih (step t) failed
      refine ⟨t :: taken, reached, rfl, proper, fun us => ?_, stuck⟩
      rw [List.cons_append, run, moved]
      exact same us
    · cases failed
    · next moved =>
      cases failed
      refine ⟨[], config, rfl, proper, fun _ => rfl, fun t' us same us' => ?_⟩
      cases same
      rw [run, moved]

end Proper

/-! Completions of frames and of focuses. -/

/-- Kinds that complete the frames after the node they wait for. -/
def Frame.completion : List (Frame String Token) → List Kind
  | [] => []
  | .wrap _ :: outer | .binary .. :: outer | .expression :: outer => completion outer
  | .list _ :: outer | .body .. :: outer => .rightBracket :: completion outer
  | .condition _ :: outer | .loopStep .. :: outer =>
    .rightBracket :: .leftBracket :: .rightBracket :: completion outer
  | .loopInit :: outer =>
    .semicolon :: .semicolon :: .rightBracket :: .leftBracket :: .rightBracket :: completion outer
  | .loopCondition _ :: outer =>
    .semicolon :: .rightBracket :: .leftBracket :: .rightBracket :: completion outer
  | .program _ :: _ => []

/-- Kinds that complete the phrase of the focus. -/
def Focus.completion : Focus String Token → List Kind
  | .statement | .operand | .atom _ => [.num]
  | .symbol .. | .leaf _ | .primary _ | .whole _ => []
  | .await kind next => kind :: next.completion
  | .functionName => [.symbol, .leftBracket, .rightBracket, .leftBracket, .rightBracket]
  | .bindingName => [.symbol, .assign, .num]
  | .parameterFirst _ | .parameterEnd .. => [.rightBracket, .leftBracket, .rightBracket]
  | .parameterNext .. => [.symbol, .rightBracket, .leftBracket, .rightBracket]
  | .enumGap _ => [.symbol, .rightBracket]
  | .enumEnd _ => [.rightBracket]

def Config.completion (config : Config String Token) : List Token :=
  (config.focus.completion ++ Frame.completion config.frames).map .ofKind

namespace Frame

variable (frames : List (Frame String Token))

theorem completion_delimits :
    (vocabulary.ahead ((completion frames).map Token.ofKind)).Delimits := by
  induction frames with
  | nil => exact Cue.eof_delimits
  | cons frame outer ih =>
    cases frame with
    | wrap | binary | expression => exact ih
    | program => exact Cue.eof_delimits
    | _ => exact Token.delimits (by simp)

end Frame

theorem Cue.Delimits.assign {c : Cue} (delimits : c.Delimits) : c.kind ≠ .assign := by
  rcases delimits.kind with kind | kind | kind | kind | kind <;> simp [kind]

namespace Config

variable {frames : List (Frame String Token)}

theorem run_close {rest : List Token} (ends : (vocabulary.ahead rest).EndsAtom)
    (header : Header String Token) (body : List Tree) :
    run vocabulary ⟨header.close body, frames⟩ rest =
      Frame.arrive vocabulary (some (header.node body)) frames rest := by
  cases header with
  | lambda => exact run_primary ends _
  | _ => exact run_whole _

/-- An empty body completes its phrase wherever the frames can be completed. -/
theorem run_emptyBody {us : List Token} (delimits : (vocabulary.ahead us).Delimits)
    (arrives : ∀ n, ∃ ns, Frame.arrive vocabulary (some n) frames us = (.ok ns, []))
    (header : Header String Token) :
    ∃ ns, run vocabulary ⟨.await .leftBracket .statement, .body header [] :: frames⟩
      (.ofKind .leftBracket :: .ofKind .rightBracket :: us) = (.ok ns, []) := by
  have empty : Derives (.body []) [.ofKind .leftBracket, .ofKind .rightBracket] :=
    .body rfl (.statements .noStatement .noFurtherStatements) rfl
  obtain ⟨ns, arrived⟩ := arrives (header.node [])
  refine ⟨ns, ?_⟩
  rw [← arrived, ← run_close delimits.endsOperand.toEndsAtom]
  exact empty.isRead header frames us

end Config

namespace Frame

theorem arrive_completion (frames : List (Frame String Token)) (n : Tree) :
    ∃ ns, arrive vocabulary (some n) frames ((completion frames).map Token.ofKind) =
      (.ok ns, []) := by
  induction frames generalizing n with
  | nil => exact ⟨[n], rfl⟩
  | cons frame outer ih =>
    have ends := completion_delimits outer
    have atom := ends.endsOperand.toEndsAtom
    have bracket (us : List Token) : (vocabulary.ahead (.ofKind .rightBracket :: us)).Delimits :=
      Token.delimits (by simp)
    have semicolon (us : List Token) : (vocabulary.ahead (.ofKind .semicolon :: us)).Delimits :=
      Token.delimits (by simp)
    cases frame with
    | wrap w => exact ih _
    | binary tier op left =>
      obtain ⟨ns, arrived⟩ := ih (.binary op left n)
      refine ⟨ns, ?_⟩
      rw [← arrived, arrive, completion, deliver_binary (ends.endsLevel _), arrive]
    | expression =>
      obtain ⟨ns, arrived⟩ := ih n
      exact ⟨ns, (arrive_expression ends _).trans arrived⟩
    | list before =>
      obtain ⟨ns, arrived⟩ := ih (.list (before ++ [n]))
      refine ⟨ns, ?_⟩
      simp only [completion, List.map_cons]
      rw [arrive_list rfl, Config.run_primary atom, arrived]
    | condition guard =>
      obtain ⟨ns, ran⟩ := Config.run_emptyBody ends ih (.guarded guard n)
      refine ⟨ns, ?_⟩
      simp only [completion, List.map_cons]
      rw [arrive_condition rfl, ran]
    | loopInit =>
      obtain ⟨ns, ran⟩ := Config.run_emptyBody ends ih (.loop (some n) none none)
      refine ⟨ns, ?_⟩
      simp only [completion, List.map_cons]
      rw [arrive_loopInit rfl, Config.run_noExpression (semicolon _), arrive_loopCondition rfl,
        Config.run_noStatement (bracket _), arrive_loopStep rfl, ran]
    | loopCondition init =>
      obtain ⟨ns, ran⟩ := Config.run_emptyBody ends ih (.loop init (some n) none)
      refine ⟨ns, ?_⟩
      simp only [completion, List.map_cons]
      rw [arrive_loopCondition rfl, Config.run_noStatement (bracket _), arrive_loopStep rfl, ran]
    | loopStep init test =>
      obtain ⟨ns, ran⟩ := Config.run_emptyBody ends ih (.loop init test (some n))
      refine ⟨ns, ?_⟩
      simp only [completion, List.map_cons]
      rw [arrive_loopStep rfl, ran]
    | body header before =>
      obtain ⟨ns, arrived⟩ := ih (header.node (before ++ [n]))
      refine ⟨ns, ?_⟩
      simp only [completion, List.map_cons]
      rw [arrive_body rfl, Config.run_close atom, ← arrived]
      rfl
    | program before =>
      exact ⟨before ++ [n], by simp [arrive, completion, Vocabulary.ahead, Cue.eof, deliver,
        Kind.isSeparator, Move.when, Move.resume]⟩

end Frame

namespace Config

variable {frames : List (Frame String Token)} {us : List Token}

theorem run_number (delimits : (vocabulary.ahead us).Delimits)
    (frames : List (Frame String Token)) :
    run vocabulary ⟨.operand, .expression :: frames⟩ (.ofKind .num :: us) =
      Frame.arrive vocabulary (some (.leaf (.ofKind .num))) frames us := by
  have atom : Derives (.atom (.leaf (.ofKind .num))) [.ofKind .num] := .accessless (.leaf rfl)
  have expression := Derives.loosen (.operand (.bare atom)) (Nat.le_add_left 1 6)
  exact expression.isRead.run_expression delimits

theorem run_numberStatement (delimits : (vocabulary.ahead us).Delimits)
    (frames : List (Frame String Token)) :
    run vocabulary ⟨.statement, frames⟩ (.ofKind .num :: us) =
      Frame.arrive vocabulary (some (.leaf (.ofKind .num))) frames us := by
  rw [← run_number delimits, run_eq, run_eq]
  rfl

/-- Every state has a completion, by cases on its focus and induction on its frames. -/
theorem run_completion (config : Config String Token) :
    ∃ ns, config.run vocabulary config.completion = (.ok ns, []) := by
  obtain ⟨focus, frames⟩ := config
  have ends := Frame.completion_delimits frames
  have atom := ends.endsOperand.toEndsAtom
  have arrives := Frame.arrive_completion frames
  have close := run_emptyBody ends arrives
  simp only [completion, List.map_append]
  generalize (Frame.completion frames).map Token.ofKind = us at *
  induction focus with
  | statement =>
    obtain ⟨ns, arrived⟩ := arrives (.leaf (.ofKind .num))
    exact ⟨ns, (run_numberStatement ends frames).trans arrived⟩
  | operand =>
    obtain ⟨ns, arrived⟩ := arrives (.leaf (.ofKind .num))
    refine ⟨ns, Eq.trans ?_ arrived⟩
    exact (Derives.bare (.accessless (.leaf rfl))).isRead frames us ends.endsOperand
  | atom bangs =>
    obtain ⟨ns, arrived⟩ := arrives (.leaf (.ofKind .num))
    refine ⟨ns, Eq.trans ?_ arrived⟩
    exact (run_atom_leaf rfl bangs).trans (run_primary atom _)
  | symbol t jump =>
    cases jump with
    | none =>
      obtain ⟨ns, arrived⟩ := arrives (.leaf t)
      refine ⟨ns, Eq.trans ?_ arrived⟩
      refine (run_symbol_leaf ⟨atom.bracket, atom.period, ends.assign⟩ t).trans ?_
      exact (run_leaf ends.endsOperand.inc ends.endsOperand.dec t).trans <|
        (run_primary atom _).trans (Frame.arrive_expression ends _)
    | some j =>
      obtain ⟨ns, arrived⟩ := arrives (.jump j)
      exact ⟨ns, (run_symbol_jump ends t j).trans arrived⟩
  | leaf t =>
    obtain ⟨ns, arrived⟩ := arrives (.leaf t)
    refine ⟨ns, Eq.trans ?_ arrived⟩
    exact (run_leaf ends.endsOperand.inc ends.endsOperand.dec t).trans (run_primary atom _)
  | primary n =>
    obtain ⟨ns, arrived⟩ := arrives n
    exact ⟨ns, (run_primary atom n).trans arrived⟩
  | whole n =>
    obtain ⟨ns, arrived⟩ := arrives n
    exact ⟨ns, (run_whole n).trans arrived⟩
  | await kind next ih =>
    obtain ⟨ns, ran⟩ := ih
    exact ⟨ns, (run_await rfl next).trans ran⟩
  | functionName =>
    obtain ⟨ns, ran⟩ := close (.ofParameters (some "") [])
    exact ⟨ns, (run_functionName rfl).trans ((run_parameters (.none rfl rfl)).trans ran)⟩
  | bindingName =>
    obtain ⟨ns, arrived⟩ := arrives (.binding "" (.leaf (.ofKind .num)))
    refine ⟨ns, Eq.trans ?_ arrived⟩
    have next : run vocabulary ⟨.bindingName, frames⟩
          (.ofKind .symbol :: .ofKind .assign :: .ofKind .num :: us) =
        run vocabulary ⟨.operand, .expression :: .wrap (.binding "") :: frames⟩
          (.ofKind .num :: us) :=
      (run_bindingName rfl).trans (run_await (Token.ofKind_kind .assign) _)
    exact next.trans (run_number ends _)
  | parameterFirst owner =>
    obtain ⟨ns, ran⟩ := close (.ofParameters owner [])
    exact ⟨ns, (run_parameterFirst rfl owner).trans ran⟩
  | parameterNext owner before =>
    obtain ⟨ns, ran⟩ := close (.ofParameters owner (before ++ [""] ++ []))
    refine ⟨ns, Eq.trans ?_ ran⟩
    exact (run_parameterNext rfl owner before).trans (run_furtherParameters .done rfl)
  | parameterEnd owner before =>
    obtain ⟨ns, ran⟩ := close (.ofParameters owner (before ++ []))
    exact ⟨ns, (run_furtherParameters .done rfl).trans ran⟩
  | enumGap names =>
    obtain ⟨ns, arrived⟩ := arrives (.enumeration (names ++ [""]))
    refine ⟨ns, Eq.trans ?_ arrived⟩
    exact (run_name rfl).trans ((run_enumEnd rfl _).trans (run_whole _))
  | enumEnd names =>
    obtain ⟨ns, arrived⟩ := arrives (.enumeration names)
    exact ⟨ns, ((run_enumEnd rfl names).trans (run_whole _)).trans arrived⟩

end Config

theorem Frame.completion_endless (frames : List (Frame String Token)) :
    .eof ∉ completion frames := by
  induction frames with
  | nil => exact List.not_mem_nil
  | cons frame outer ih => cases frame <;> simp [completion, ih]

theorem Focus.completion_endless {focus : Focus String Token} (proper : focus.Proper) :
    .eof ∉ focus.completion := by
  induction focus with
  | await kind next ih =>
    obtain ⟨rfl | rfl, proper⟩ := proper <;> simp [completion, ih proper]
  | _ => simp [completion]

theorem Config.completion_endless {config : Config String Token} (proper : config.focus.Proper) :
    Endless config.completion := by
  intro t member
  obtain ⟨kind, within, rfl⟩ := List.mem_map.mp member
  intro same
  rw [Token.ofKind_kind] at same
  subst same
  rcases List.mem_append.mp within with within | within
  · exact config.focus.completion_endless proper within
  · exact Frame.completion_endless _ within

/-- The number of tokens before the error. -/
def passed (ts : List Token) : Nat :=
  ts.length - (Reader.ofTokens ts).program.2.rest.length

theorem passed_of_run_error {ts rest : List Token} {expected : Expected}
    (failed : Config.program.run vocabulary ts = (.error expected, rest)) :
    passed ts = ts.length - rest.length := by
  simp [passed, Reader.program, Reader.read, Reader.ofTokens, failed]

theorem drop_passed {ts rest : List Token} {expected : Expected}
    (failed : Config.program.run vocabulary ts = (.error expected, rest)) :
    ts.drop (passed ts) = rest := by
  have behind := Config.run_suffix vocabulary .program ts
  rw [failed] at behind
  rw [passed_of_run_error failed]
  exact (List.suffix_iff_eq_drop.mp behind).symm

/-- The parser stops at the first token that no program has at its place. The tokens before it
extend to a program, and every list that starts with these and the token fails with the same
error. -/
theorem parse_error_first {ts : List Token} {e : ParseError} (failed : parse ts = .error e) :
    passed ts ≤ ts.length ∧ e.found = ts[passed ts]?.getD (.sentinel ts) ∧
      (∃ us p, Endless us ∧ parse (ts.take (passed ts) ++ us) = .ok p) ∧
      (passed ts < ts.length →
        ∀ us, ts.take (passed ts + 1) <+: us → parse us = .error e) := by
  obtain ⟨rest, ran, found⟩ := parse_eq_error_iff_run.mp failed
  obtain ⟨taken, reached, rfl, proper, same, stuck⟩ :=
    Config.run_error (show Config.program.focus.Proper from trivial) ran
  have here : passed (taken ++ rest) = taken.length := by
    rw [passed_of_run_error ran]
    simp
  have at_ : (taken ++ rest)[taken.length]? = rest.head? := by
    rw [List.getElem?_append_right (Nat.le_refl _), Nat.sub_self, List.head?_eq_getElem?]
  rw [here, List.take_left]
  refine ⟨by simp, by rw [found, at_], ?_, ?_⟩
  · obtain ⟨ns, completed⟩ := reached.run_completion
    refine ⟨reached.completion, ⟨ns⟩, reached.completion_endless proper, ?_⟩
    rw [parse_eq_ok_iff_run, same, completed]
  · intro further us start
    cases rest with
    | nil => simp at further
    | cons t rest =>
      obtain ⟨us', rfl⟩ := start
      have us_eq : (taken ++ t :: rest).take (taken.length + 1) ++ us' = taken ++ t :: us' := by
        simp [List.take_append, List.take_of_length_le]
      rw [us_eq, parse_eq_error_iff_run, same]
      exact ⟨t :: us', stuck t rest rfl us', found⟩

/-- A numeral cannot name a function, however the tokens go on. -/
theorem parse_error_functionName :
    let ts := [Token.ofKind .funcWord, Token.ofKind .num]
    let e : ParseError := ⟨.kind .symbol, .ofKind .num⟩
    parse ts = .error e ∧ passed ts = 1 ∧ ∀ us, ts <+: us → parse us = .error e := by
  intro ts e
  have failed : parse ts = .error e := rfl
  obtain ⟨_, _, _, rejected⟩ := parse_error_first failed
  exact ⟨failed, rfl, rejected (by decide)⟩

end BracketScript
