import BracketScript.Node.Agreement
import BracketScript.Proofs.Documents

/-! The comparison of programs decides a relation: equality up to the signs of zeros, with every
number defined. The numbers of sources are magnitudes, so for programs of sources it decides
equality. -/
namespace BracketScript

namespace Number

variable {m n : Number}

/-- Positive zero for both zeros. -/
def unsignedZero (n : Number) : Number := if n.magnitude.bits = 0 then ⟨0⟩ else n

theorem unsignedZero_eq_iff : m.unsignedZero = n.unsignedZero ↔
    m = n ∨ m.magnitude.bits = 0 ∧ n.magnitude.bits = 0 := by
  have zero : (Number.mk 0).magnitude.bits = 0 := rfl
  constructor
  · intro same
    unfold unsignedZero at same
    split at same
    · next first =>
      split at same
      · next second => exact .inr ⟨first, second⟩
      · exact .inr ⟨first, by rw [← same, zero]⟩
    · split at same
      · next other _ => exact absurd (by rw [same, zero]) other
      · exact .inl same
  · rintro (rfl | ⟨first, second⟩)
    · rfl
    · rw [unsignedZero, unsignedZero, if_pos first, if_pos second]

theorem isNaN_eq_of_zero (zero : n.magnitude.bits = 0) : n.isNaN = false := by
  have bits := n.toNat_magnitude
  rw [zero, UInt64.toNat_zero] at bits
  unfold isNaN fraction hiddenBit
  unfold signBit at bits
  simp only [Bool.and_eq_false_iff, bne_eq_false_iff_eq]
  omega

theorem sameValue_iff :
    m.sameValue n = true ↔ m.unsignedZero = n.unsignedZero ∧ m.isNaN = false := by
  have defined (same : m = n ∨ m.magnitude.bits = 0 ∧ n.magnitude.bits = 0)
      (first : m.isNaN = false) : n.isNaN = false := by
    rcases same with rfl | ⟨_, zero⟩
    · exact first
    · exact isNaN_eq_of_zero zero
  rw [unsignedZero_eq_iff]
  simp only [sameValue, Bool.and_eq_true, Bool.not_eq_true', Bool.or_eq_true, beq_iff_eq]
  exact ⟨fun ⟨⟨first, _⟩, same⟩ => ⟨same, first⟩,
    fun ⟨same, first⟩ => ⟨⟨first, defined same first⟩, same⟩⟩

theorem units_eq_zero_iff (defined : n.isNaN = false) : n.units = 0 ↔ n.magnitude.bits = 0 := by
  have zero : unitsOfBits 0 = 0 := rfl
  rw [← units_magnitude, (magnitude_isMagnitude defined).units_eq]
  conv_lhs => rw [← zero]
  rw [unitsOfBits_strictMono.injective.eq_iff, ← UInt64.toNat_inj, UInt64.toNat_zero]

theorem magnitude_eq_of_units (first : m.isNaN = false) (second : n.isNaN = false)
    (same : m.units = n.units) : m.magnitude = n.magnitude := by
  rw [← units_magnitude m, ← units_magnitude n, (magnitude_isMagnitude first).units_eq,
    (magnitude_isMagnitude second).units_eq] at same
  exact IsMagnitude.eq_of_bits (unitsOfBits_strictMono.injective same)

/-- Equal values mean equal numbers, except that the two zeros share a value. -/
theorem value_eq_iff (first : m.isNaN = false) (second : n.isNaN = false) :
    m.value = n.value ↔ m.unsignedZero = n.unsignedZero := by
  rw [unsignedZero_eq_iff, value, value]
  have pos : (0 : ℚ) < 2 ^ 1074 := by positivity
  generalize (2 : ℚ) ^ 1074 = grid at pos
  constructor
  · intro same
    have units : (m.units : ℚ) = n.units := by
      have sizes := congrArg abs same
      split_ifs at sizes <;> simpa [abs_div, pos.ne'] using sizes
    have magnitude := magnitude_eq_of_units first second (Nat.cast_injective units)
    by_cases zero : m.magnitude.bits = 0
    · exact .inr ⟨zero, magnitude ▸ zero⟩
    · have size : (0 : ℚ) < m.units / grid :=
        div_pos (Nat.cast_pos.mpr (Nat.pos_iff_ne_zero.mpr
          (mt (units_eq_zero_iff first).mp zero))) pos
      have side : m.isNegative = n.isNegative := by
        rw [← units] at same
        cases left : m.isNegative <;> cases right : n.isNegative <;>
          simp [left, right] at same ⊢ <;> linarith
      exact .inl (by rw [← m.magnitude_signed, ← n.magnitude_signed, side, magnitude])
  · rintro (rfl | ⟨left, right⟩)
    · rfl
    · rw [(units_eq_zero_iff first).mpr left, (units_eq_zero_iff second).mpr right]
      simp

/-- `sameValue` decides equality of values; an undefined number equals nothing. -/
theorem sameValue_iff_value :
    m.sameValue n = true ↔ m.isNaN = false ∧ n.isNaN = false ∧ m.value = n.value := by
  constructor
  · intro same
    have defined : m.isNaN = false ∧ n.isNaN = false := by
      simp only [sameValue, Bool.and_eq_true, Bool.not_eq_true'] at same
      exact same.1
    exact ⟨defined.1, defined.2, (value_eq_iff defined.1 defined.2).mpr (sameValue_iff.mp same).1⟩
  · rintro ⟨first, second, same⟩
    exact sameValue_iff.mpr ⟨(value_eq_iff first second).mp same, first⟩

theorem IsMagnitude.unsignedZero_eq (magnitude : n.IsMagnitude) : n.unsignedZero = n := by
  unfold unsignedZero
  rw [magnitude.magnitude_eq]
  split
  · next zero => exact congrArg Number.mk zero.symm
  · rfl

end Number

def Payload.unsignedZero : Payload → Payload
  | .number n => .number n.unsignedZero
  | .text content => .text content

def Token.unsignedZero (t : Token) : Token := { t with payload := t.payload.unsignedZero }

def NumbersHold (P : Number → Prop) (ms : List (Mention String Token)) : Prop :=
  ∀ n ∈ mentionedNumbers ms, P n

section Mentions

variable {P : Number → Prop} {m : Mention String Token} {ms ms' : List (Mention String Token)}

@[simp] theorem numbersHold_nil : NumbersHold P [] := List.forall_mem_nil _

@[simp] theorem numbersHold_append :
    NumbersHold P (ms ++ ms') ↔ NumbersHold P ms ∧ NumbersHold P ms' := by
  simp only [NumbersHold, mentionedNumbers_append, List.forall_mem_append]

@[simp] theorem numbersHold_cons :
    NumbersHold P (m :: ms) ↔ (∀ n ∈ m.number?, P n) ∧ NumbersHold P ms := by
  rw [NumbersHold, mentionedNumbers, List.filterMap_cons]
  cases m.number? <;> simp [NumbersHold, mentionedNumbers]

@[simp] theorem numbersHold_names {names : List String} : NumbersHold P (names.map .name) := by
  rw [NumbersHold, mentionedNumbers_names]
  exact List.forall_mem_nil _

theorem numbersHold_of_mentioned {us : List Token} (mentioned : us.Forall₂ Token.MentionedAs ms)
    (holds : ∀ t ∈ us, ∀ n ∈ t.number?, P n) : NumbersHold P ms := by
  induction mentioned with
  | nil => exact numbersHold_nil
  | @cons t m _ _ as _ ih =>
    obtain ⟨first, others⟩ := List.forall_mem_cons.mp holds
    refine numbersHold_cons.mpr ⟨?_, ih others⟩
    cases m with
    | name | jump => simp [Mention.number?]
    | target =>
      obtain ⟨_, rfl⟩ := as
      exact first
    | literal =>
      cases as
      exact first

end Mentions

theorem Token.unsignedZero_eq_self {t : Token} (magnitude : ∀ n ∈ t.number?, n.IsMagnitude) :
    t.unsignedZero = t := by
  obtain ⟨kind, payload, line, col, width⟩ := t
  cases payload with
  | number n => simp [unsignedZero, Payload.unsignedZero, (magnitude n rfl).unsignedZero_eq]
  | text => rfl

theorem Token.sameAs_iff {a b : Token} :
    a.sameAs b = true ↔ a.unsignedZero = b.unsignedZero ∧ ∀ n ∈ a.number?, n.isNaN = false := by
  obtain ⟨kind, payload, line, col, width⟩ := a
  obtain ⟨kind', payload', line', col', width'⟩ := b
  cases payload <;> cases payload' <;>
    simp [sameAs, Payload.sameAs, unsignedZero, Payload.unsignedZero, number?,
      Number.sameValue_iff, and_assoc, and_comm, and_left_comm]

namespace Node

def unsignedZeros : Tree → Tree := map id Token.unsignedZero

theorem unsignedZeros_eq : unsignedZeros = map id Token.unsignedZero := rfl

mutual

theorem sameAs_iff (m n : Tree) :
    m.sameAs n = true ↔
      m.unsignedZeros = n.unsignedZeros ∧ NumbersHold (·.isNaN = false) m.mentions := by
  rw [unsignedZeros_eq]
  cases m with
  | block body | function _ _ body | lambda _ body | list body =>
    have inner := listSameAs_iff body
    cases n <;> simp [sameAs, map, mentions, Mention.number?, inner, unsignedZeros_eq, and_assoc]
  | guarded _ condition body =>
    have test := sameAs_iff condition
    have inner := listSameAs_iff body
    cases n <;>
      simp [sameAs, map, mentions, test, inner, unsignedZeros_eq, and_assoc, and_left_comm]
  | loop init condition step body =>
    have first := optionSameAs_iff init
    have second := optionSameAs_iff condition
    have third := optionSameAs_iff step
    have inner := listSameAs_iff body
    cases n <;>
      simp [sameAs, map, mentions, first, second, third, inner, unsignedZeros_eq, and_assoc,
        and_left_comm]
  | binding _ value | result value | unary _ value =>
    have inner := sameAs_iff value
    cases n <;> simp [sameAs, map, mentions, Mention.number?, inner, unsignedZeros_eq, and_assoc]
  | assignment target value =>
    have inner := sameAs_iff value
    cases n <;>
      simp [sameAs, map, mentions, Token.sameAs_iff, Mention.number?, inner, unsignedZeros,
        and_assoc, and_left_comm]
  | enumeration | jump => cases n <;> simp [sameAs, map, mentions, Mention.number?]
  | access of keys =>
    have first := sameAs_iff of
    have others := listSameAs_iff keys
    cases n <;>
      simp [sameAs, map, mentions, first, others, unsignedZeros_eq, and_assoc, and_left_comm]
  | binary _ left right =>
    have front := sameAs_iff left
    have back := sameAs_iff right
    cases n <;>
      simp [sameAs, map, mentions, front, back, unsignedZeros_eq, and_assoc, and_left_comm]
  | leaf token =>
    cases n <;> simp [sameAs, map, mentions, Token.sameAs_iff, Mention.number?]
termination_by structural m

theorem listSameAs_iff (ms ns : List Tree) :
    listSameAs ms ns = true ↔
      ms.map unsignedZeros = ns.map unsignedZeros ∧
        NumbersHold (·.isNaN = false) (listMentions ms) := by
  cases ms with
  | nil => cases ns <;> simp [listSameAs, listMentions]
  | cons m ms =>
    have first := sameAs_iff m
    have others := listSameAs_iff ms
    cases ns <;> simp [listSameAs, listMentions, first, others, and_assoc, and_left_comm]
termination_by structural ms

theorem optionSameAs_iff (m n : Option Tree) :
    optionSameAs m n = true ↔
      m.map unsignedZeros = n.map unsignedZeros ∧
        NumbersHold (·.isNaN = false) (optionMentions m) := by
  cases m with
  | none => cases n <;> simp [optionSameAs, optionMentions]
  | some m =>
    have inner := sameAs_iff m
    cases n <;> simp [optionSameAs, optionMentions, inner]
termination_by structural m

end

mutual

/-- Among magnitudes there is no negative zero to replace. -/
theorem unsignedZeros_eq_self (n : Tree) (magnitudes : NumbersHold Number.IsMagnitude n.mentions) :
    map id Token.unsignedZero n = n := by
  cases n with
  | block body | function _ _ body | lambda _ body | list body =>
    have inner := map_unsignedZeros_eq_self body
      (by simpa [mentions, Mention.number?] using magnitudes)
    simp [map, inner]
  | guarded _ condition body =>
    obtain ⟨test, inner⟩ := numbersHold_append.mp magnitudes
    simp [map, unsignedZeros_eq_self condition test, map_unsignedZeros_eq_self body inner]
  | loop init condition step body =>
    obtain ⟨header, inner⟩ := numbersHold_append.mp magnitudes
    obtain ⟨header, third⟩ := numbersHold_append.mp header
    obtain ⟨first, second⟩ := numbersHold_append.mp header
    simp [map, optionMap_unsignedZeros_eq_self init first,
      optionMap_unsignedZeros_eq_self condition second, optionMap_unsignedZeros_eq_self step third,
      map_unsignedZeros_eq_self body inner]
  | binding _ value =>
    simp [map, unsignedZeros_eq_self value (numbersHold_cons.mp magnitudes).2]
  | assignment target value =>
    obtain ⟨first, inner⟩ := numbersHold_cons.mp magnitudes
    simp [map, Token.unsignedZero_eq_self first, unsignedZeros_eq_self value inner]
  | enumeration | jump => simp [map]
  | result value | unary _ value => simp [map, unsignedZeros_eq_self value magnitudes]
  | access of keys =>
    obtain ⟨first, others⟩ := numbersHold_append.mp magnitudes
    simp [map, unsignedZeros_eq_self of first, map_unsignedZeros_eq_self keys others]
  | binary _ left right =>
    obtain ⟨front, back⟩ := numbersHold_append.mp magnitudes
    simp [map, unsignedZeros_eq_self left front, unsignedZeros_eq_self right back]
  | leaf token => simp [map, Token.unsignedZero_eq_self (numbersHold_cons.mp magnitudes).1]
termination_by structural n

theorem map_unsignedZeros_eq_self (ns : List Tree)
    (magnitudes : NumbersHold Number.IsMagnitude (listMentions ns)) :
    ns.map (map id Token.unsignedZero) = ns := by
  cases ns with
  | nil => rfl
  | cons n ns =>
    obtain ⟨first, others⟩ := numbersHold_append.mp magnitudes
    rw [List.map_cons, unsignedZeros_eq_self n first, map_unsignedZeros_eq_self ns others]
termination_by structural ns

theorem optionMap_unsignedZeros_eq_self (n : Option Tree)
    (magnitudes : NumbersHold Number.IsMagnitude (optionMentions n)) :
    n.map (map id Token.unsignedZero) = n := by
  cases n with
  | none => rfl
  | some n => rw [Option.map_some, unsignedZeros_eq_self n magnitudes]
termination_by structural n

end

end Node

def Program.unsignedZeros (p : Program) : Program := ⟨p.statements.map Node.unsignedZeros⟩

theorem Program.sameAs_iff (p q : Program) :
    p.sameAs q = true ↔ p.unsignedZeros = q.unsignedZeros ∧ ∀ n ∈ p.numbers, n.isNaN = false := by
  rw [sameAs, Node.listSameAs_iff, unsignedZeros, unsignedZeros, mk.injEq]
  rfl

theorem Spelling.isMagnitude {kind : Kind} {n : Number} {lexeme : List Char}
    (spelled : Spelling kind (.number n) lexeme) : n.IsMagnitude := by
  cases spelled with
  | whole _ _ nearest | places _ _ _ nearest => exact nearest.magnitude

/-- Numerals carry no sign, so a parsed source holds magnitudes only. -/
theorem isMagnitude_of_parseSource {source : Source} {p : Program}
    (parsed : parseSource source = .ok p) : ∀ n ∈ p.numbers, n.IsMagnitude := by
  obtain ⟨ts, scanned, parsed⟩ := parseSource_eq_ok_iff.mp parsed
  have reads := Scanner.tokens_eq_ok_iff.mp scanned
  have mentioned := (derives_of_parse reads.endless parsed).mentioned reads.layout.named
  refine numbersHold_of_mentioned mentioned fun t member n holds => ?_
  obtain ⟨lexeme, spelled⟩ := reads.layout.spelled t (List.mem_of_mem_filter member)
  obtain ⟨kind, payload, line, col, width⟩ := t
  cases payload with
  | number m =>
    cases holds
    exact spelled.isMagnitude
  | text => cases holds

/-- On programs of sources `sameAs` decides equality. -/
theorem sameAs_iff_eq {source source' : Source} {p q : Program}
    (first : parseSource source = .ok p) (second : parseSource source' = .ok q) :
    p.sameAs q = true ↔ p = q := by
  have unsigned {source : Source} {p : Program} (parsed : parseSource source = .ok p) :
      p.unsignedZeros = p :=
    congrArg Program.mk (Node.map_unsignedZeros_eq_self _ (isMagnitude_of_parseSource parsed))
  rw [p.sameAs_iff, unsigned first, unsigned second, and_iff_left]
  exact fun n member => (isMagnitude_of_parseSource first n member).isNaN_eq

end BracketScript
