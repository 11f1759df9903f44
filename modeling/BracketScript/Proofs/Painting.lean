import BracketScript.Proofs.Diagnostics

/-! A report on a terminal is the plain report with control sequences added. -/
namespace BracketScript

def controlStart : Char := '\x1b'

/-- The characters outside control sequences, which end at the letter m. -/
def shown (inside : Bool) : List Char → List Char
  | [] => []
  | c :: cs =>
    if inside then shown (c != 'm') cs
    else if c = controlStart then shown true cs
    else c :: shown false cs

theorem shown_append {text : List Char} (plain : controlStart ∉ text) (rest : List Char) :
    shown false (text ++ rest) = text ++ shown false rest := by
  induction text with
  | nil => rfl
  | cons c text ih =>
    obtain ⟨other, plain⟩ := List.ne_and_not_mem_of_not_mem_cons plain
    rw [List.cons_append, shown, if_neg Bool.false_ne_true, if_neg (Ne.symm other), ih plain,
      List.cons_append]

/-- The painted text is shown as the plain one, in front of any rest. -/
def Shows (painted plain : String) : Prop :=
  ∀ rest, shown false (painted.toList ++ rest) = plain.toList ++ shown false rest

namespace Shows

variable {a a' b b' : String}

theorem append (first : Shows a a') (second : Shows b b') : Shows (a ++ b) (a' ++ b') := by
  intro rest
  rw [String.toList_append, List.append_assoc, first, second, String.toList_append,
    List.append_assoc]

theorem self (plain : controlStart ∉ a.toList) : Shows a a := shown_append plain

theorem space : Shows " " " " := self (by decide)

theorem newline : Shows "\n" "\n" := self (by decide)

theorem spaces (count : Nat) : Shows (spaces count) (spaces count) := by
  apply self
  simp [BracketScript.spaces, controlStart]

theorem natural (n : Nat) : Shows (toString n) (toString n) := by
  have digits : controlStart ∉ Nat.toDigits 10 n := not_mem_digits rfl n
  exact self (by simpa [Nat.repr] using digits)

end Shows

/-- Painting adds nothing but control sequences. -/
structure Paint.ShowsText (paint : Paint) : Prop where
  alarm : ∀ {s s'}, Shows s s' → Shows (paint.alarm s) s'
  frame : ∀ {s s'}, Shows s s' → Shows (paint.frame s) s'
  strong : ∀ {s s'}, Shows s s' → Shows (paint.strong s) s'

theorem Paint.terminal_showsText : terminal.ShowsText := by
  have red (tail : List Char) :
      shown false ("\x1b[31m\x1b[1m".toList ++ tail) = shown false tail := rfl
  have blue (tail : List Char) :
      shown false ("\x1b[34m\x1b[1m".toList ++ tail) = shown false tail := rfl
  have bold (tail : List Char) : shown false ("\x1b[1m".toList ++ tail) = shown false tail := rfl
  have reset (tail : List Char) : shown false ("\x1b[0m".toList ++ tail) = shown false tail := rfl
  constructor
  all_goals
    intro s s' shows rest
    simp only [terminal, String.toList_append, List.append_assoc, red, blue, bold, reset, shows _]

section Reports

variable {paint : Paint} (shows : paint.ShowsText) {source : Source} {fault : Fault}

include shows

theorem shows_reportHeader (name : controlStart ∉ source.name.toList)
    (message : controlStart ∉ fault.message.toList) :
    Shows (reportHeader paint source fault) (reportHeader .plain source fault) := by
  have colon : Shows ":" ":" := .self (by decide)
  have separator : Shows ": " ": " := .self (by decide)
  have word : Shows (paint.alarm "error") "error" := shows.alarm (.self (by decide))
  have text : Shows (paint.strong fault.message) fault.message := shows.strong (.self message)
  have arrow : Shows (paint.frame "-->") "-->" := shows.frame (.self (by decide))
  have place : Shows fault.position.text fault.position.text :=
    ((Shows.natural _).append colon).append (.natural _)
  intro rest
  simp only [reportHeader, String.toList_append, List.append_assoc, word _, text _, arrow _,
    place _, Shows.self name _, separator _, colon _, Shows.newline _, Shows.space _]
  rfl

theorem shows_reportExcerpt {line : String} (plain : controlStart ∉ line.toList) (p : Position) :
    Shows (reportExcerpt paint p line) (reportExcerpt .plain p line) := by
  have bar : Shows (paint.frame "|") "|" := shows.frame (.self (by decide))
  have number : Shows (paint.frame (toString p.line)) (toString p.line) :=
    shows.frame (.natural p.line)
  have caret : Shows (paint.alarm "^") "^" := shows.alarm (.self (by decide))
  have margin := Shows.spaces (toString p.line).length
  have indent := Shows.spaces (p.col - 1)
  intro rest
  unfold reportExcerpt
  simp only [String.toList_append, List.append_assoc, bar _, number _, caret _, margin _, indent _,
    Shows.self plain _, Shows.newline _, Shows.space _]
  rfl

/-- A terminal shows a painted report as the plain one. -/
theorem shown_report (name : controlStart ∉ source.name.toList)
    (message : controlStart ∉ fault.message.toList)
    (lines : ∀ line ∈ source.line? fault.position.line, controlStart ∉ line.toList) :
    shown false (report paint source fault).toList = (report .plain source fault).toList := by
  have header := shows_reportHeader shows name message
  have whole : Shows (report paint source fault) (report .plain source fault) := by
    unfold report
    refine header.append ?_
    generalize source.line? fault.position.line = line at lines
    cases line with
    | none =>
      rw [Option.map_none, Option.map_none, Option.getD_none]
      exact .self (by simp)
    | some line =>
      rw [Option.map_some, Option.map_some, Option.getD_some, Option.getD_some]
      exact shows_reportExcerpt shows (lines line rfl) _
  have same := whole []
  rwa [List.append_nil, shown, List.append_nil] at same

end Reports

/-- Messages escape what they quote, so only the source line of a report could bring control
sequences of its own. -/
theorem shown_report_terminal {source : Source} {failure : Failure}
    (name : controlStart ∉ source.name.toList)
    (lines : ∀ line ∈ source.line? failure.fault.position.line, controlStart ∉ line.toList) :
    shown false (report .terminal source failure.fault).toList =
      (report .plain source failure.fault).toList := by
  have message := failure.hasNoControls_message.not_mem (show controlStart.toNat < 0x20 by decide)
  exact shown_report Paint.terminal_showsText name message lines

end BracketScript
