import BracketScript.CommandLine
import BracketScript.Proofs.Diagnostics
import BracketScript.Proofs.Outlines
import BracketScript.Proofs.Priority

/-! The front end adds nothing to the library functions. Rendering scans or parses the content and
shows the result, or reports the failure. An outline loses its last line break to trimming and
regains it on output; a report ends in a line break, so the errors get no second one. -/
namespace BracketScript

namespace Text

/-- The last character exists and is not blank. -/
def EndsInked (s : String) : Prop := ∃ cs c, s.toList = cs ++ [c] ∧ isBlank c = false

theorem isBlank_eq_false {c : Char} (low : 0x21 ≤ c.toNat) (high : c.toNat ≤ 0x7e) :
    isBlank c = false := by
  refine Bool.eq_false_iff.mpr fun blank => ?_
  obtain ⟨r, member, first, last⟩ := CodeRanges.covers_iff.mp blank
  have apart : ∀ r ∈ blankRanges, r.2 < 0x21 ∨ 0x7e < r.1 := by decide
  have := apart r member
  omega

namespace EndsInked

variable {s t : String}

theorem append (s : String) (inked : EndsInked t) : EndsInked (s ++ t) := by
  obtain ⟨cs, c, same, visible⟩ := inked
  exact ⟨s.toList ++ cs, c, by rw [String.toList_append, same, List.append_assoc], visible⟩

theorem of_forall (nonempty : s.toList ≠ []) (visible : ∀ c ∈ s.toList, isBlank c = false) :
    EndsInked s := by
  obtain same | ⟨cs, c, same⟩ := List.eq_nil_or_concat' s.toList
  · exact absurd same nonempty
  · exact ⟨cs, c, same, visible c (by simp [same])⟩

theorem of_getLast? (visible : s.toList.getLast?.any (! isBlank ·) = true) : EndsInked s := by
  cases last : s.toList.getLast? with
  | none => simp [last] at visible
  | some c =>
    obtain ⟨cs, same⟩ := List.getLast?_eq_some_iff.mp last
    exact ⟨cs, c, same, by simpa [last] using visible⟩

theorem of_mark {c : Char} (cs : List Char) (visible : isBlank c = false) :
    EndsInked (.ofList (cs ++ [c])) :=
  ⟨cs, c, String.toList_ofList, visible⟩

/-- Only the line break is trimmed behind an inked text. -/
theorem trimBlanks_newline (inked : EndsInked s) :
    String.ofList (trimBlanks (s ++ "\n").toList) = s := by
  obtain ⟨cs, c, same, visible⟩ := inked
  apply String.toList_inj.mp
  have newline : isBlank '\n' = true := by decide
  rw [String.toList_ofList, String.toList_append, same]
  simp [trimBlanks, newline, visible]

end EndsInked

end Text

open Text (EndsInked)

theorem IsName.endsInked {s : String} (name : IsName s) : EndsInked s := by
  refine .of_forall name.1 fun c member => ?_
  rcases name.2 c member with letter | rfl
  · have codes := isAlpha_iff.mp letter
    exact Text.isBlank_eq_false (by omega) (by omega)
  · decide

namespace Number

theorem endsInked_text {n : Number} (magnitude : n.IsMagnitude) : EndsInked (n.text .plain) := by
  rw [text_plain magnitude]
  split
  · obtain ⟨d, read, _⟩ := NumberLayout.ofChars?_magnitudeText magnitude
    refine .of_forall ?_ ?_
    · rw [String.toList_ofList]
      rintro empty
      rw [empty] at read
      cases read
    · rw [String.toList_ofList]
      intro c member
      rcases Decimal.isDigit_or_eq_of_ofChars? read c member with digit | rfl
      · have codes := isDigit_iff.mp digit
        exact Text.isBlank_eq_false (by omega) (by omega)
      · decide
  · exact .of_mark ['i', 'n'] (by decide)

end Number

namespace Text

theorem endsInked_quote (s : String) : EndsInked (quote s) := .of_mark _ (by decide)

end Text

theorem Construct.endsInked_name {a : Construct} (member : a ∈ all) : EndsInked a.name := by
  have key : ∀ a ∈ all, a.name.toList.getLast?.any (! Text.isBlank ·) = true := by decide +kernel
  exact .of_getLast? (key a member)

theorem Token.endsInked_detail {t : Token} (leaf : t.kind.isLeaf = true) (spelled : t.IsSpelled) :
    t.detail = "" ∨ EndsInked t.detail := by
  obtain ⟨_, spelling⟩ := spelled
  rcases Kind.isLeaf_cases leaf with num | string | word | word | symbol
  · obtain ⟨n, number, magnitude⟩ := spelling.number num
    have digits := (Number.endsInked_text magnitude).append " "
    right
    simpa [detail, num, number, Payload.display] using digits
  · have quoted := (Text.endsInked_quote t.payload.display).append " "
    right
    simpa [detail, string] using quoted
  · simp [detail, word]
  · simp [detail, word]
  · have letters := (spelling.isName symbol).endsInked.append " "
    right
    simpa [detail, symbol] using letters

namespace Node

theorem endsInked_namesLabel (names : List String) : EndsInked (namesLabel names) :=
  EndsInked.append _ (.of_getLast? (by decide))

theorem endsInked_detail {n : Tree} (legible : n.Legible) :
    n.detail = "" ∨ EndsInked n.detail := by
  cases n with
  | function name parameters body => exact .inr ((endsInked_namesLabel parameters).append _)
  | lambda parameters body => exact .inr ((endsInked_namesLabel parameters).append _)
  | enumeration names => exact .inr ((endsInked_namesLabel names).append _)
  | binding name value =>
    have letters : IsName name := legible (.name name) List.mem_cons_self
    exact .inr (letters.endsInked.append _)
  | assignment target value =>
    obtain ⟨symbol, _, spelling⟩ := legible (.target target) List.mem_cons_self
    exact .inr ((spelling.isName symbol).endsInked.append _)
  | leaf token =>
    obtain ⟨leaf, spelled⟩ := legible (.literal token) List.mem_cons_self
    exact Token.endsInked_detail leaf spelled
  | _ => exact .inl rfl

theorem endsInked_label {n : Tree} (legible : n.Legible) : EndsInked n.label := by
  have named := Construct.endsInked_name (construct_mem legible)
  rw [label_eq]
  rcases endsInked_detail legible with empty | inked
  · rw [empty]
    simpa using named
  · exact inked.append _

end Node

/-- No label in the outline of a parsed program ends in a blank. -/
theorem Program.endsInked_outline {source : Source} {p : Program}
    (parsed : parseSource source = .ok p) : ∀ line ∈ p.outline, EndsInked line.label := by
  have holds : Node.HoldsOfLabels EndsInked :=
    ⟨fun _ => Node.endsInked_label, .of_getLast? (by decide), .of_getLast? (by decide)⟩
  exact Node.listOutline_labelled holds p.statements (p.legible parsed) 0

theorem Program.endsInked_treeLines {source : Source} {p : Program}
    (parsed : parseSource source = .ok p) : ∀ l ∈ p.treeLines, EndsInked l := by
  refine List.forall_mem_cons.mpr ⟨.of_getLast? (by decide), fun l drawn => ?_⟩
  obtain ⟨line, member, below, rfl⟩ := OutlineLine.exists_draw_of_mem drawn
  exact (p.endsInked_outline parsed line member).append _

/-- Trimming removes exactly the last line break of an outline, since no label ends in a blank. -/
theorem renderProgram_tree {source : Source} {p : Program} (parsed : parseSource source = .ok p) :
    renderProgram p .tree ++ "\n" = p.tree := by
  obtain empty | ⟨front, last, split⟩ := List.eq_nil_or_concat' p.treeLines
  · cases empty
  · have inked : EndsInked last := p.endsInked_treeLines parsed last (by simp [split])
    have tree : p.tree = String.join (front.map (· ++ "\n")) ++ last ++ "\n" := by
      have whole : p.tree = String.join (p.treeLines.map (· ++ "\n")) := rfl
      rw [whole, split]
      apply String.toList_inj.mp
      simp [String.join]
    have shown := (inked.append (String.join (front.map (· ++ "\n")))).trimBlanks_newline
    rw [renderProgram, tree, shown]

/-- The text ends in a line break, but not in two. -/
def EndsInOneBreak (s : String) : Prop := ∃ cs c, s.toList = cs ++ [c, '\n'] ∧ c ≠ '\n'

theorem EndsInOneBreak.endLine {s : String} (ends : EndsInOneBreak s) : Response.endLine s = s := by
  obtain ⟨cs, c, same, _⟩ := ends
  rw [Response.endLine, same, if_pos (by simp)]

/-- A report ends in exactly one line break. -/
theorem Failure.endsInOneBreak_report {source : Source} {failure : Failure}
    (failed : parseSource source = .error failure) :
    EndsInOneBreak (report .plain source failure.fault) := by
  obtain ⟨tail, whole⟩ := source.exists_trimmed_append
  have inside : failure.fault.position.Within source.content.toList :=
    whole ▸ (Failure.within failed).1.append tail
  obtain ⟨line, shown, _, _⟩ := inside.exists_line
  obtain ⟨above, excerpt⟩ : ∃ above : String,
      reportExcerpt .plain failure.fault.position line = above ++ "^" ++ "\n" := ⟨_, rfl⟩
  rw [report, shown, Option.map_some, Option.getD_some, excerpt]
  exact ⟨(reportHeader .plain source failure.fault).toList ++ above.toList, '^', by simp, by decide⟩

/-- Scanning and then parsing equals parsing the source. -/
theorem outcome_render_ast (source : Source) (format : Format) :
    (render source .ast format).outcome =
      ((parseSource source).map (renderProgram · format)).mapError
        fun failure => report .plain source failure.fault := by
  unfold render
  cases scanned : tokenize source with
  | error e =>
    rw [parseSource_of_error scanned]
    rfl
  | ok ts =>
    rw [parseSource_of_ok scanned]
    dsimp only
    cases parse ts <;> rfl

theorem outcome_render_tokens (source : Source) (format : Format) :
    (render source .tokens format).outcome =
      ((tokenize source).map (renderTokens · format)).mapError
        fun e => report .plain source e.fault := by
  unfold render
  cases tokenize source <;> rfl

/-- The response carries the rendering: a text alone on the output, or a report on the errors,
behind the notes. -/
inductive Response.Tells (verbose : Bool) (rendering : Rendering) : Response → Prop where
  | output {text : String} : rendering.outcome = .ok text →
      Tells verbose rendering ⟨0, text ++ "\n", notesText verbose rendering.notes⟩
  | report {text : String} : rendering.outcome = .error text → EndsInOneBreak text →
      Tells verbose rendering ⟨1, "", notesText verbose rendering.notes ++ text⟩

theorem Response.tells_ofRendering (source : Source) (emit : Emit) (format : Format)
    (verbose : Bool) : (ofRendering verbose (render source emit format)).Tells verbose
      (render source emit format) := by
  cases outcome : (render source emit format).outcome with
  | ok text =>
    rw [ofRendering, outcome]
    exact .output outcome
  | error text =>
    obtain ⟨_, failed, rfl⟩ := render_error outcome
    have ends := Failure.endsInOneBreak_report failed
    rw [ofRendering, outcome]
    dsimp only
    rw [failure, ends.endLine]
    exact .report outcome ends

/-- Rendering returns the listing or the program of the source, or the report of its failure.
Trimming takes no more than the last line break from an outline. On a readable file the process
prints the text and a line break and exits with success, or prints the report to the errors. -/
theorem shows_what_is_read (source : Source) (format : Format) :
    (render source .tokens format).outcome =
        ((tokenize (.ofContent source.content)).map (renderTokens · format)).mapError
          (fun e => report .plain source e.fault) ∧
      (render source .ast format).outcome =
        ((parseSource (.ofContent source.content)).map (renderProgram · format)).mapError
          (fun failure => report .plain source failure.fault) ∧
      (∀ p, parseSource (.ofContent source.content) = .ok p →
        (∀ line ∈ p.outline, EndsInked line.label) ∧ renderProgram p .tree ++ "\n" = p.tree) ∧
      ∀ emit verbose files arguments bytes,
        Invocation.ofArguments arguments = .show ⟨source.name, emit, format, verbose⟩ →
        files source.name = .ok bytes → String.fromUTF8? bytes = some source.content →
        (respond files arguments).Tells verbose (render source emit format) := by
  refine ⟨outcome_render_tokens source format, outcome_render_ast source format, ?_, ?_⟩
  · intro p parsed
    exact ⟨p.endsInked_outline parsed, renderProgram_tree parsed⟩
  · intro emit verbose files arguments bytes asked found decoded
    have content : (Except.ok bytes).bind decodeText = .ok source.content := by
      rw [Except.bind, decodeText, decoded]
    have answer : respond files arguments =
        .ofRendering verbose (render source emit format) := by
      rw [respond, asked]
      dsimp only
      rw [Request.respond, found, content]
    rw [answer]
    exact Response.tells_ofRendering source emit format verbose

theorem shows_what_is_read_symbol :
    let source : Source := ⟨"x", "a"⟩
    let p : Program := ⟨[.leaf ⟨.symbol, .text "a", 1, 1, 1⟩]⟩
    let files (_ : String) : Except FileFault ByteArray := .ok "a".toUTF8
    parseSource (.ofContent "a") = .ok p ∧
      Invocation.ofArguments ["-v", "-f", "tree", "x"] = .show ⟨"x", .ast, .tree, true⟩ ∧
      files "x" = .ok "a".toUTF8 ∧ String.fromUTF8? "a".toUTF8 = some "a" ∧
      renderProgram p .tree ++ "\n" = p.tree ∧
      (respond files ["-v", "-f", "tree", "x"]).Tells true (render source .ast .tree) ∧
      (respond files ["-v", "-f", "tree", "x"]).stdout = "program\n└── symbol a\n" := by
  intro source p files
  have scanned : (Scanner.ofSource (.ofContent "a")).Reads [⟨.symbol, .text "a", 1, 1, 1⟩] :=
    .cons .none rfl rfl (by decide) rfl (.finish .none)
  have parsed : parseSource (.ofContent "a") = .ok p :=
    parseSource_eq_ok_iff.mpr ⟨_, Scanner.tokens_eq_ok_iff.mpr scanned, rfl⟩
  have asked : Invocation.ofArguments ["-v", "-f", "tree", "x"] =
      .show ⟨"x", .ast, .tree, true⟩ := by decide +kernel
  have decoded : String.fromUTF8? "a".toUTF8 = some "a" := by decide +kernel
  obtain ⟨_, shown, outline, run⟩ := shows_what_is_read source .tree
  have tree := (outline p parsed).2
  have tells := run .ast true files ["-v", "-f", "tree", "x"] "a".toUTF8 asked rfl decoded
  refine ⟨parsed, asked, rfl, decoded, tree, tells, ?_⟩
  have outcome : (render source .ast .tree).outcome = .ok (renderProgram p .tree) := by
    rw [shown, show source.content = "a" from rfl, parsed]
    rfl
  generalize respond files ["-v", "-f", "tree", "x"] = response at tells
  cases tells with
  | output same =>
    obtain rfl := Except.ok.inj (outcome.symm.trans same)
    exact tree.trans (by decide +kernel)
  | report same _ => cases outcome.symm.trans same

end BracketScript
