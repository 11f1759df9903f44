import BracketScript.Proofs.Completeness
import BracketScript.Proofs.Soundness
import BracketScript.Reader

/-! Parsing is exact: the programs that tokens are parsed to are those that the grammar
derives, so the grammar derives no second program from the same tokens. -/
namespace BracketScript
open Token (vocabulary)

/-- No token has the kind of the end. -/
def Endless (ts : List Token) : Prop := ∀ t ∈ ts, t.kind ≠ .eof

theorem Endless.eq_nil {ts : List Token} (endless : Endless ts)
    (ended : (vocabulary.ahead ts).kind = .eof) : ts = [] := by
  cases ts with
  | nil => rfl
  | cons t ts => exact absurd ended (endless t List.mem_cons_self)

theorem Derives.run_program {ns : List Tree} {ts : List Token}
    (derived : Derives (.statements ns) ts) :
    Config.program.run vocabulary ts = (.ok ns, []) := by
  have read := derived.isRead .program [] [] [] (.inl rfl) Cue.eof_delimits
  rw [List.append_nil] at read
  rw [Config.program, read]
  simp [Frame.arrive, Frame.deliver, Vocabulary.ahead, Cue.eof, Kind.isSeparator, Move.when,
    Move.resume]

theorem derives_of_run {before ns : List Tree} {ts rest : List Token} (endless : Endless ts)
    (ran : Config.run vocabulary ⟨.statement, [.program before]⟩ ts = (.ok ns, rest)) :
    rest = [] ∧ ∃ further, Derives (.statements further) ts ∧ ns = before ++ further := by
  obtain ⟨us, us', n, rfl, first, further, vs, rfl, derived, ended, same⟩ :=
    run_sound ns rest ts ⟨.statement, [.program before]⟩ trivial ran
  have consumed : rest = [] := by
    refine Endless.eq_nil (fun t member => ?_) ended
    exact endless t (by simp [member])
  subst consumed
  refine ⟨rfl, n.toList ++ further, ?_, same⟩
  rw [List.append_nil]
  exact .statements first derived

@[simp] theorem mapError_ok {ε ε' α : Type} (f : ε → ε') (a : α) :
    (Except.ok a).mapError f = .ok a := rfl

@[simp] theorem mapError_error {ε ε' α : Type} (f : ε → ε') (e : ε) :
    (Except.error e : Except ε α).mapError f = .error (f e) := rfl

theorem parse_eq_ok_iff_run {ts : List Token} {p : Program} :
    parse ts = .ok p ↔ (Config.program.run vocabulary ts).1 = .ok p.statements := by
  obtain ⟨statements⟩ := p
  unfold parse Reader.program Reader.read Reader.ofTokens
  cases ran : Config.program.run vocabulary ts with
  | mk result rest => cases result <;> simp

theorem parse_eq_error_iff_run {ts : List Token} {e : ParseError} :
    parse ts = .error e ↔ ∃ rest, Config.program.run vocabulary ts = (.error e.expected, rest) ∧
      e.found = rest.head?.getD (.sentinel ts) := by
  obtain ⟨expected, found⟩ := e
  unfold parse Reader.program Reader.read Reader.ofTokens
  cases ran : Config.program.run vocabulary ts with
  | mk result rest =>
    cases result with
    | ok nodes => simp
    | error other =>
      simp only [mapError_error, Reader.error, Reader.current, Except.error.injEq,
        ParseError.mk.injEq, Prod.mk.injEq]
      constructor
      · rintro ⟨rfl, rfl⟩
        exact ⟨rest, ⟨rfl, rfl⟩, rfl⟩
      · rintro ⟨_, ⟨rfl, rfl⟩, rfl⟩
        exact ⟨rfl, rfl⟩

theorem derives_of_parse {ts : List Token} {p : Program} (endless : Endless ts)
    (parsed : parse ts = .ok p) : Derives (.statements p.statements) ts := by
  have ran := parse_eq_ok_iff_run.mp parsed
  obtain ⟨_, ns, derived, same⟩ := derives_of_run endless (Prod.ext ran rfl)
  rw [same]
  exact derived

theorem parse_of_derives {ts : List Token} {p : Program}
    (derived : Derives (.statements p.statements) ts) : parse ts = .ok p := by
  rw [parse_eq_ok_iff_run, derived.run_program]

section Source

variable {source : Source} {ts : List Token}

theorem parseSource_of_ok (scanned : tokenize source = .ok ts) :
    parseSource source = (parse ts).mapError .grammatical := by
  rw [parseSource, scanned]
  rfl

theorem parseSource_of_error {e : LexError} (failed : tokenize source = .error e) :
    parseSource source = .error (.lexical e) := by
  rw [parseSource, failed]
  rfl

theorem parseSource_eq_ok_iff {p : Program} :
    parseSource source = .ok p ↔ ∃ ts, tokenize source = .ok ts ∧ parse ts = .ok p := by
  cases scanned : tokenize source with
  | error e => simp [parseSource_of_error scanned]
  | ok ts => cases parsed : parse ts <;> simp [parseSource_of_ok scanned, parsed]

end Source

/-- Soundness, completeness and unambiguity: `parse` returns a program exactly when the grammar
derives it, and the grammar derives one at most. -/
theorem parse_exact {ts : List Token} (endless : Endless ts) :
    (∀ p : Program, parse ts = .ok p ↔ Derives (.statements p.statements) ts) ∧
      ∀ p q : Program, Derives (.statements p.statements) ts →
        Derives (.statements q.statements) ts → p = q := by
  have exact_ (p : Program) : parse ts = .ok p ↔ Derives (.statements p.statements) ts := by
    rw [parse_eq_ok_iff_run]
    constructor
    · intro ran
      have ran : Config.run vocabulary ⟨.statement, [.program []]⟩ ts =
          (.ok p.statements, (Config.program.run vocabulary ts).2) := Prod.ext ran rfl
      obtain ⟨_, ns, derived, same⟩ := derives_of_run endless ran
      rw [same]
      exact derived
    · intro derived
      rw [derived.run_program]
  refine ⟨exact_, fun p q first second => ?_⟩
  exact Except.ok.inj (((exact_ p).mpr first).symm.trans ((exact_ q).mpr second))

/-- Comparisons associate to the right. -/
theorem comparisons_derive_rightward :
    let x : Token := ⟨.symbol, .text "x", 1, 1, 1⟩
    let lt : Token := ⟨.lt, .text "<", 1, 3, 1⟩
    let ge : Token := ⟨.ge, .text ">=", 1, 7, 2⟩
    let ts := [x, lt, x, ge, x]
    let n : Tree := .binary .lt (.leaf x) (.binary .ge (.leaf x) (.leaf x))
    Endless ts ∧ Derives (.statements [n]) ts ∧
      ∀ p : Program, Derives (.statements p.statements) ts → p = ⟨[n]⟩ := by
  intro x lt ge ts n
  have endless : Endless ts := by simp [Endless, ts, x, lt, ge]
  have derived : Derives (.statements [n]) ts := ((parse_exact endless).1 ⟨[n]⟩).mp rfl
  exact ⟨endless, derived, fun p other => (parse_exact endless).2 p ⟨[n]⟩ other derived⟩

end BracketScript
