import BracketScript.Proofs.Exactness

/-! What a reader consumes is a derivation of the phrase it was asked for. Consequently brackets
around a token list form a block exactly when the list parses to a program, with the same
statements. -/
namespace BracketScript
open Token (vocabulary)

section Run

variable {nodes : List Tree} {ts rest : List Token}

theorem expression_of_run (ran : Config.expression.run vocabulary ts = (.ok nodes, rest)) :
    ∃ node us, ts = us ++ rest ∧ Derives (.expressionOption node) us ∧ nodes = node.toList := by
  have complete : Completes nodes rest ⟨.operand, .expression :: []⟩ ts :=
    run_sound nodes rest ts Config.expression trivial ran
  obtain ⟨us, _, node, rfl, derived, same, rfl⟩ := complete.expressionOption
  exact ⟨node, us, rfl, derived, same⟩

theorem statement_of_run (ran : Config.statement.run vocabulary ts = (.ok nodes, rest)) :
    ∃ node us, ts = us ++ rest ∧ Derives (.statementOption node) us ∧ nodes = node.toList := by
  obtain ⟨us, _, node, rfl, derived, same, rfl⟩ :=
    run_sound nodes rest ts Config.statement trivial ran
  exact ⟨node, us, rfl, derived, same⟩

/-- A block that is read is derived from its brackets and body. -/
theorem block_of_run (ran : Config.block.run vocabulary ts = (.ok nodes, rest)) :
    ∃ body us, ts = us ++ rest ∧ Derives (.body body) us ∧ nodes = [.block body] := by
  have complete : Completes nodes rest ⟨.await .leftBracket .statement, .body .block [] :: []⟩ ts :=
    run_sound nodes rest ts Config.block trivial ran
  obtain ⟨_, _, _, rfl, ⟨body, us, _, rfl, derived, rfl, rfl⟩, same, rfl⟩ := complete.body
  exact ⟨body, us, by rw [List.append_nil], derived, same⟩

theorem Derives.run_block {body : List Tree} {us : List Token} (derived : Derives (.body body) us)
    (rest : List Token) : Config.block.run vocabulary (us ++ rest) = (.ok [.block body], rest) := by
  have whole : Config.run vocabulary ⟨.whole (.block body), []⟩ rest = (.ok [.block body], rest) :=
    Config.run_whole _
  rw [Config.block, derived.isRead .block [] rest]
  exact whole

theorem Derives.statement_ne_nil {n : Tree} (derived : Derives (.statement n) ts) : ts ≠ [] := by
  cases derived with
  | block derived =>
    cases derived
    exact List.cons_ne_nil _ _
  | plain derived =>
    obtain ⟨t, us, rfl, _⟩ := derived.starts
    exact List.cons_ne_nil t us
  | _ => exact List.cons_ne_nil _ _

/-- A successful run gives no node and takes nothing, or gives one node and takes tokens. -/
def Config.ReadsOne (config : Config String Token) : Prop :=
  ∀ nodes ts rest, config.run vocabulary ts = (.ok nodes, rest) →
    nodes = [] ∧ rest = ts ∨ ∃ n, nodes = [n] ∧ rest.length < ts.length

theorem length_lt_of_append {us : List Token} (nonempty : us ≠ []) (rest : List Token) :
    rest.length < (us ++ rest).length := by
  have := List.length_pos_iff.mpr nonempty
  rw [List.length_append]
  omega

theorem Config.readsOne_expression : expression.ReadsOne := by
  intro nodes ts rest ran
  obtain ⟨node, us, rfl, derived, rfl⟩ := expression_of_run ran
  cases derived with
  | noExpression => exact .inl ⟨rfl, rfl⟩
  | someExpression derived =>
    obtain ⟨t, us, rfl, _⟩ := derived.starts
    exact .inr ⟨_, rfl, length_lt_of_append (List.cons_ne_nil t us) rest⟩

theorem Config.readsOne_statement : statement.ReadsOne := by
  intro nodes ts rest ran
  obtain ⟨node, us, rfl, derived, rfl⟩ := statement_of_run ran
  cases derived with
  | noStatement => exact .inl ⟨rfl, rfl⟩
  | someStatement derived =>
    exact .inr ⟨_, rfl, length_lt_of_append derived.statement_ne_nil rest⟩

theorem Config.readsOne_block : block.ReadsOne := by
  intro nodes ts rest ran
  obtain ⟨body, us, rfl, derived, rfl⟩ := block_of_run ran
  exact .inr ⟨_, rfl, length_lt_of_append (Derives.block derived).statement_ne_nil rest⟩

end Run

namespace Reader

variable {r behind : Reader}

theorem read_eq_ok_iff {config : Config String Token} {nodes : List Tree} :
    r.read config = (.ok nodes, behind) ↔
      config.run vocabulary r.rest = (.ok nodes, behind.rest) ∧ behind.sentinel = r.sentinel := by
  obtain ⟨rest, sentinel⟩ := behind
  unfold read
  rcases config.run vocabulary r.rest with ⟨_ | given, left⟩
  · simp
  · simp [eq_comm, and_assoc]

/-- The answer of a call for at most one node, in terms of the run. -/
theorem head_eq_ok_iff {config : Config String Token} (one : config.ReadsOne)
    {node : Option Tree} :
    ((r.read config).1.map List.head?, (r.read config).2) = (.ok node, behind) ↔
      config.run vocabulary r.rest = (.ok node.toList, behind.rest) ∧
        behind.sentinel = r.sentinel := by
  rw [← read_eq_ok_iff]
  constructor
  · intro read
    rcases answer : r.read config with ⟨_ | nodes, place⟩
    · rw [answer] at read
      cases read
    · rw [answer] at read
      rcases one _ _ _ (read_eq_ok_iff.mp answer).1 with ⟨rfl, _⟩ | ⟨n, rfl, _⟩
      · cases read
        rfl
      · cases read
        rfl
  · intro read
    rw [read]
    cases node <;> rfl

theorem expression?_eq_ok_iff {node : Option Tree} :
    r.expression? = (.ok node, behind) ↔
      Config.expression.run vocabulary r.rest = (.ok node.toList, behind.rest) ∧
        behind.sentinel = r.sentinel :=
  head_eq_ok_iff Config.readsOne_expression

theorem statement?_eq_ok_iff {node : Option Tree} :
    r.statement? = (.ok node, behind) ↔
      Config.statement.run vocabulary r.rest = (.ok node.toList, behind.rest) ∧
        behind.sentinel = r.sentinel :=
  head_eq_ok_iff Config.readsOne_statement

theorem block_eq_ok_iff {node : Option Tree} :
    r.block = (.ok node, behind) ↔
      Config.block.run vocabulary r.rest = (.ok node.toList, behind.rest) ∧
        behind.sentinel = r.sentinel :=
  head_eq_ok_iff Config.readsOne_block

theorem expression_eq_ok_iff {n : Tree} :
    r.expression = (.ok n, behind) ↔ r.expression? = (.ok (some n), behind) := by
  unfold expression
  rcases r.expression? with ⟨_ | _ | m, place⟩ <;> simp

/-- A successful call consumed a derivation of its expression. -/
theorem derives_of_expression {n : Tree} (read : r.expression = (.ok n, behind)) :
    ∃ us, r.rest = us ++ behind.rest ∧ Derives (.expression 1 n) us := by
  rw [expression_eq_ok_iff, expression?_eq_ok_iff] at read
  obtain ⟨node, us, whole, derived, same⟩ := expression_of_run read.1
  obtain rfl : node = some n := by
    cases node <;> cases same
    rfl
  cases derived with
  | someExpression derived => exact ⟨us, whole, derived⟩

end Reader

/-- A token list parses to statements exactly when the list between brackets is one block of these
statements. In particular no bracket inside closes the block early. -/
theorem parse_iff_block {l r : Token} {ts : List Token} (open_ : l.kind = .leftBracket)
    (close : r.kind = .rightBracket) (endless : Endless ts) (b : List Tree) :
    parse ts = .ok ⟨b⟩ ↔ ∃ behind,
      (Reader.ofTokens (l :: (ts ++ [r]))).block = (.ok (some (.block b)), behind) ∧
        behind.rest = [] := by
  constructor
  · intro parsed
    have derived := Derives.body open_ (derives_of_parse endless parsed) close
    have ran := derived.run_block []
    rw [List.append_nil] at ran
    exact ⟨⟨[], _⟩, Reader.block_eq_ok_iff.mpr ⟨ran, rfl⟩, rfl⟩
  · rintro ⟨behind, read, ended⟩
    obtain ⟨ran, _⟩ := Reader.block_eq_ok_iff.mp read
    obtain ⟨body, us, whole, derived, same⟩ := block_of_run ran
    cases same
    rw [ended, List.append_nil] at whole
    cases derived with
    | @body l' r' _ us' _ derived _ =>
      obtain ⟨rfl, within⟩ := List.cons.inj whole
      obtain ⟨rfl, _⟩ := List.append_inj' within rfl
      exact parse_of_derives (p := ⟨b⟩) derived

theorem parse_iff_block_nested :
    let x : Token := ⟨.symbol, .text "x", 1, 1, 1⟩
    let s : Token := ⟨.semicolon, .text ";", 1, 2, 1⟩
    let l : Token := ⟨.leftBracket, .text "[", 1, 3, 1⟩
    let r : Token := ⟨.rightBracket, .text "]", 1, 4, 1⟩
    let ts := [x, s, l, x, r]
    let b : List Tree := [.leaf x, .block [.leaf x]]
    l.kind = .leftBracket ∧ r.kind = .rightBracket ∧ Endless ts ∧ parse ts = .ok ⟨b⟩ ∧
      ∃ behind, (Reader.ofTokens (l :: (ts ++ [r]))).block = (.ok (some (.block b)), behind) ∧
        behind.rest = [] := by
  intro x s l r ts b
  have endless : Endless ts := by simp [Endless, ts, x, s, l, r]
  have parsed : parse ts = .ok ⟨b⟩ := rfl
  exact ⟨rfl, rfl, endless, parsed, (parse_iff_block rfl rfl endless b).mp parsed⟩

end BracketScript
