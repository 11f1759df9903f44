import BracketScript.Proofs.Relabelling
import BracketScript.Proofs.Viability
import Mathlib.Data.List.FinRange

/-! Parsing depends neither on layout nor on payloads that the grammar does not see. Two lists with
the same cues share one run over their indices, which each list fills with its own tokens. -/
namespace BracketScript
open Token (vocabulary)

/-- The tokens agree in kind, and in their texts where these tell an operator or the word of a
jump. -/
structure Token.Alike (t u : Token) : Prop where
  kind : t.kind = u.kind
  operator : t.kind.tier? ≠ none → t.text? = u.text?
  jump : t.kind = .symbol → ∀ j : Jump, t.text? = some j.name ↔ u.text? = some j.name

theorem Token.Alike.cue_eq {t u : Token} (alike : t.Alike u) : t.cue = u.cue := by
  have operator : t.operator? = u.operator? := by
    by_cases tierless : t.kind.tier? = none
    · rw [Token.operator?_eq_none tierless, Token.operator?_eq_none (alike.kind ▸ tierless)]
    · rw [Token.operator?, Token.operator?, alike.operator tierless, alike.kind]
  have jump : t.jump? = u.jump? := by
    apply Option.ext
    intro j
    rw [Token.jump?_eq_some_iff, Token.jump?_eq_some_iff]
    constructor
    · rintro ⟨symbol, text⟩
      exact ⟨alike.kind ▸ symbol, (alike.jump symbol j).mp text⟩
    · rintro ⟨symbol, text⟩
      have symbol := alike.kind.trans symbol
      exact ⟨symbol, (alike.jump symbol j).mpr text⟩
  rw [Token.cue, Token.cue, alike.kind, operator, jump]

/-- A program with indices in place of names and tokens. -/
abbrev Shape (n : Nat) : Type := List (Node (Fin n) (Fin n))

namespace Shape

variable {n : Nat} (tokens : Fin n → Token)

def fill (shape : Shape n) : Program :=
  ⟨shape.map (.map (fun i => (tokens i).payload.display) tokens)⟩

def vocabulary : Vocabulary (Fin n) (Fin n) := ⟨fun i => (tokens i).cue, id⟩

/-- The shape or the expectation that results from parsing the indices. -/
def outcome : Except Expected (Shape n) × List (Fin n) :=
  Config.program.run (vocabulary tokens) (List.finRange n)

/-- A run over tokens is the run over their indices with the tokens filled in. -/
theorem run_eq_outcome :
    Config.program.run Token.vocabulary ((List.finRange n).map tokens) =
      ((outcome tokens).1.map fun shape => (fill tokens shape).statements,
        (outcome tokens).2.map tokens) := by
  let r : Relabelling (Fin n) String (Fin n) Token :=
    ⟨fun i => (tokens i).payload.display, tokens, []⟩
  have preserves : r.Preserves (vocabulary tokens) Token.vocabulary :=
    ⟨fun _ => rfl, fun _ => rfl⟩
  have grounded : r.Grounded Config.program.frames := trivial
  exact Relabelling.run preserves grounded (List.finRange n)

theorem outcome_congr {tokens' : Fin n → Token} (alike : ∀ i, (tokens i).Alike (tokens' i)) :
    outcome tokens = outcome tokens' := by
  have same : vocabulary tokens = vocabulary tokens' := by
    simp only [vocabulary, fun i => (alike i).cue_eq]
  rw [outcome, outcome, same]

/-- The outcome over the indices determines the parse, with positions of errors as indices. -/
theorem parse_of_outcome {ts : List Token} (are : (List.finRange n).map tokens = ts) :
    match outcome tokens with
    | (.ok shape, _) => parse ts = .ok (fill tokens shape)
    | (.error expected, rest) => passed ts = n - rest.length ∧
        parse ts = .error ⟨expected, ts[n - rest.length]?.getD (.sentinel ts)⟩ := by
  have ran := run_eq_outcome tokens
  rw [are] at ran
  split
  · next shape rest reached =>
    rw [reached] at ran
    rw [parse_eq_ok_iff_run, ran]
    rfl
  · next expected rest reached =>
    rw [reached] at ran
    have stopped : passed ts = n - rest.length := by
      rw [passed_of_run_error ran, ← are, List.length_map, List.length_map, List.length_finRange]
    refine ⟨stopped, parse_eq_error_iff_run.mpr ⟨rest.map tokens, ran, ?_⟩⟩
    rw [← stopped, ← List.head?_drop, drop_passed ran]

end Shape

/-- Parsing depends on kinds, operator texts and jump words only. Lists that agree in these parse to
one shape filled from each list, or fail at the same index with the same expectation. -/
theorem parse_lockstep {ts us : List Token} (length : ts.length = us.length)
    (alike : ∀ i : Fin ts.length, (ts.get i).Alike (us.get (i.cast length))) :
    (∃ shape : Shape ts.length, parse ts = .ok (shape.fill ts.get) ∧
      parse us = .ok (shape.fill fun i => us.get (i.cast length))) ∨
    ∃ expected index, passed ts = index ∧ passed us = index ∧
      parse ts = .error ⟨expected, ts[index]?.getD (.sentinel ts)⟩ ∧
      parse us = .error ⟨expected, us[index]?.getD (.sentinel us)⟩ := by
  have first := Shape.parse_of_outcome ts.get (List.map_get_finRange ts)
  have cast : (List.finRange ts.length).map (fun i => us.get (i.cast length)) = us := by
    apply List.ext_getElem <;> simp [length]
  have second := Shape.parse_of_outcome (fun i => us.get (i.cast length)) cast
  rw [← Shape.outcome_congr _ alike] at second
  cases reached : Shape.outcome ts.get with
  | mk result rest =>
    rw [reached] at first second
    cases result with
    | ok shape => exact .inl ⟨shape, first, second⟩
    | error expected => exact .inr ⟨expected, _, first.1, second.1, first.2, second.2⟩

/-- Positions, ordinary names and numeric payloads are free. -/
theorem parse_lockstep_sum :
    let ts : List Token := [⟨.symbol, .text "x", 1, 1, 1⟩, ⟨.plus, .text "+", 1, 3, 1⟩,
      ⟨.num, .number ⟨0⟩, 1, 5, 1⟩]
    let us : List Token := [⟨.symbol, .number ⟨0⟩, 7, 9, 4⟩, ⟨.plus, .text "+", 5, 2, 0⟩,
      ⟨.num, .text "break", 2, 2, 2⟩]
    (∀ i : Fin 3, (ts.get i).Alike (us.get i)) ∧
      ∃ shape : Shape 3, parse ts = .ok (shape.fill ts.get) ∧
        parse us = .ok (shape.fill us.get) := by
  intro ts us
  have alike : ∀ i : Fin 3, (ts.get i).Alike (us.get i) := by
    intro i
    match i with
    | 0 => exact ⟨rfl, fun tiered => absurd rfl tiered, fun _ j => by cases j <;> decide⟩
    | 1 => exact ⟨rfl, fun _ => rfl, fun symbol => by cases symbol⟩
    | 2 => exact ⟨rfl, fun tiered => absurd rfl tiered, fun symbol => by cases symbol⟩
  have length : ts.length = us.length := rfl
  refine ⟨alike, ?_⟩
  rcases parse_lockstep length alike with both | ⟨_, _, _, _, failed, _⟩
  · exact both
  · have parsed : parse ts = .ok ⟨[.binary .add (.leaf ts[0]) (.leaf ts[2])]⟩ := rfl
    cases parsed.symm.trans failed

end BracketScript
