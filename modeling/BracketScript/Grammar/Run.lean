import BracketScript.Grammar.Step

/-! A run takes tokens until the phrase it was started for is complete or cannot be. It
gives the nodes that were read, or what was expected, and the tokens that are left. -/
namespace BracketScript

variable {ν τ : Type}

namespace Config

/-- Reads tokens from a state on, as long as it takes them. The cue of the end is never taken. -/
def run (v : Vocabulary ν τ) : Config ν τ → List τ → Except Expected (List (Node ν τ)) × List τ
  | config, [] =>
    match config.step v.name .eof with
    | .accept nodes => (.ok nodes, [])
    | .reject expected => (.error expected, [])
    | .shift _ => (.error (.kind .eof), [])
  | config, t :: ts =>
    match config.step v.name (v.cue t) with
    | .shift next => run v (next t) ts
    | .accept nodes => (.ok nodes, t :: ts)
    | .reject expected => (.error expected, t :: ts)

def expression : Config ν τ := ⟨.operand, [.expression]⟩

def statement : Config ν τ := ⟨.statement, []⟩

def block : Config ν τ := ⟨.await .leftBracket .statement, [.body .block []]⟩

def program : Config ν τ := ⟨.statement, [.program []]⟩

theorem run_suffix (v : Vocabulary ν τ) (config : Config ν τ) (ts : List τ) :
    (config.run v ts).2 <:+ ts := by
  induction ts generalizing config with
  | nil =>
    simp only [run]
    split <;> exact List.nil_suffix
  | cons t ts ih =>
    simp only [run]
    split
    · exact (ih _).trans (List.suffix_cons t ts)
    · exact List.suffix_refl _
    · exact List.suffix_refl _

end Config

end BracketScript
