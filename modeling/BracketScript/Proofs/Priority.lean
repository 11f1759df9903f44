import BracketScript.Proofs.Layout

/-! The first rule that takes a text takes the most of it. What the lexemes of a pattern start with
is told by the pattern alone, so the table can be compared row by row. Of two rules that take one
text the later has fixed characters with which the lexeme of the earlier starts and goes on; or the
earlier is the rule of a keyword and the later that of names, and both take the same. -/
namespace BracketScript

theorem isDigit_iff {c : Char} : c.isDigit = true ↔ 48 ≤ c.toNat ∧ c.toNat ≤ 57 := by
  simp [Char.isDigit, UInt32.le_iff_toNat_le]

theorem isAlpha_iff {c : Char} :
    c.isAlpha = true ↔ 65 ≤ c.toNat ∧ c.toNat ≤ 90 ∨ 97 ≤ c.toNat ∧ c.toNat ≤ 122 := by
  have upper : c.isUpper = true ↔ 65 ≤ c.toNat ∧ c.toNat ≤ 90 := by
    change decide ('A'.val ≤ c.val ∧ c.val ≤ 'Z'.val) = true ↔ _
    rw [decide_eq_true_eq, UInt32.le_iff_toNat_le, UInt32.le_iff_toNat_le]
    rfl
  have lower : c.isLower = true ↔ 97 ≤ c.toNat ∧ c.toNat ≤ 122 := by
    change (decide ('a'.val ≤ c.val) && decide (c.val ≤ 'z'.val)) = true ↔ _
    rw [Bool.and_eq_true, decide_eq_true_eq, decide_eq_true_eq, UInt32.le_iff_toNat_le,
      UInt32.le_iff_toNat_le]
    rfl
  change (c.isUpper || c.isLower) = true ↔ _
  rw [Bool.or_eq_true, upper, lower]

theorem isNameCharacter_iff {c : Char} :
    Pattern.isNameCharacter c = true ↔
      65 ≤ c.toNat ∧ c.toNat ≤ 90 ∨ 97 ≤ c.toNat ∧ c.toNat ≤ 122 ∨ c.toNat = 95 := by
  have underscore : c = '_' ↔ c.toNat = 95 := Char.toNat_inj.symm
  rw [Pattern.isNameCharacter, Bool.or_eq_true, isAlpha_iff, beq_iff_eq, underscore, or_assoc]

theorem isWordCharacter_of_isNameCharacter {c : Char} (letter : Pattern.isNameCharacter c = true) :
    Text.isWordCharacter c = true := by
  have ascii : c.toNat < 0x80 := by
    rw [isNameCharacter_iff] at letter
    omega
  rw [Pattern.isNameCharacter, Bool.or_eq_true] at letter
  rw [Text.isWordCharacter, if_pos ascii, Bool.or_eq_true, Char.isAlphanum, Bool.or_eq_true]
  exact letter.imp_left .inl

theorem not_isNameCharacter_of_isDigit {c : Char} (digit : c.isDigit = true) :
    Pattern.isNameCharacter c = false := by
  rw [isDigit_iff] at digit
  rw [Bool.eq_false_iff, ne_eq, isNameCharacter_iff]
  omega

inductive CharacterClass where
  | only (c : Char)
  | digit
  | nameCharacter
deriving DecidableEq

namespace CharacterClass

def holds : CharacterClass → Char → Bool
  | only d, c => c == d
  | digit, c => c.isDigit
  | nameCharacter, c => Pattern.isNameCharacter c

def isDisjoint : CharacterClass → CharacterClass → Bool
  | only c, k | k, only c => !k.holds c
  | digit, nameCharacter | nameCharacter, digit => true
  | digit, digit | nameCharacter, nameCharacter => false

theorem not_holds_of_isDisjoint {k l : CharacterClass} (disjoint : k.isDisjoint l = true) {c : Char}
    (first : k.holds c = true) : ¬ l.holds c = true := by
  intro second
  cases k with
  | only d =>
    obtain rfl : c = d := beq_iff_eq.mp first
    cases l <;> simp [isDisjoint, second] at disjoint
  | digit =>
    cases l with
    | only d =>
      obtain rfl : c = d := beq_iff_eq.mp second
      simp [isDisjoint, first] at disjoint
    | digit => cases disjoint
    | nameCharacter => cases (not_isNameCharacter_of_isDigit first).symm.trans second
  | nameCharacter =>
    cases l with
    | only d =>
      obtain rfl : c = d := beq_iff_eq.mp second
      simp [isDisjoint, first] at disjoint
    | digit => cases (not_isNameCharacter_of_isDigit second).symm.trans first
    | nameCharacter => cases disjoint

def start : List CharacterClass → List Char → Bool
  | [], _ => true
  | _ :: _, [] => false
  | k :: ks, c :: cs => k.holds c && start ks cs

/-- Whether two rows of classes are disjoint at some place. -/
def clash : List CharacterClass → List CharacterClass → Bool
  | k :: ks, l :: ls => k.isDisjoint l || clash ks ls
  | _, _ => false

variable {ks ls : List CharacterClass} {text : List Char}

theorem not_start_of_clash (clashes : clash ks ls = true) (first : start ks text = true) :
    ¬ start ls text = true := by
  induction ks generalizing ls text with
  | nil => simp [clash] at clashes
  | cons k ks ih =>
    cases ls with
    | nil => simp [clash] at clashes
    | cons l ls =>
      cases text with
      | nil => simp [start]
      | cons c text =>
        simp only [clash, start, Bool.or_eq_true, Bool.and_eq_true] at clashes first ⊢
        rintro ⟨here, behind⟩
        rcases clashes with disjoint | clashes
        · exact not_holds_of_isDisjoint disjoint first.1 here
        · exact ih clashes first.2 behind

theorem start_append (starts : start ks text = true) (rest : List Char) :
    start ks (text ++ rest) = true := by
  induction ks generalizing text with
  | nil => rfl
  | cons k ks ih =>
    cases text with
    | nil => cases starts
    | cons c text =>
      simp only [List.cons_append, start, Bool.and_eq_true] at starts ⊢
      exact ⟨starts.1, ih starts.2⟩

theorem length_le_of_start (starts : start ks text = true) : ks.length ≤ text.length := by
  induction ks generalizing text with
  | nil => exact Nat.zero_le _
  | cons k ks ih =>
    cases text with
    | nil => cases starts
    | cons c text =>
      simp only [start, Bool.and_eq_true] at starts
      exact Nat.succ_le_succ (ih starts.2)

theorem start_only (cs : List Char) : start (cs.map only) cs = true := by
  induction cs with
  | nil => rfl
  | cons c cs ih => simpa [start, holds] using ih

theorem start_of_forall (k : CharacterClass) (nonempty : text ≠ [])
    (all : ∀ c ∈ text, k.holds c = true) : start [k] text = true := by
  cases text with
  | nil => contradiction
  | cons c text => simpa [start] using all c List.mem_cons_self

end CharacterClass

namespace Pattern

/-- The classes of the first characters of every lexeme of the pattern. -/
def opening : Pattern → List CharacterClass
  | exact first more | word first more => (first :: more).map .only
  | lineComment => [.only '/', .only '/']
  | blockComment => [.only '/', .only '*']
  | number => [.digit]
  | quoted mark => [.only mark]
  | name => [.nameCharacter]

variable {p q : Pattern} {text lexeme rest lexeme' rest' : List Char}

/-- Every lexeme of a pattern starts with the classes of its opening. -/
theorem start_opening (found : p.split text = some (lexeme, rest)) :
    CharacterClass.start p.opening lexeme = true := by
  cases p with
  | exact first more =>
    obtain ⟨_, _, same⟩ := Option.map_eq_some_iff.mp found
    cases same
    exact CharacterClass.start_only (first :: more)
  | word first more =>
    obtain ⟨_, _, ended⟩ := Option.bind_eq_some_iff.mp found
    split at ended
    · cases ended
    · cases ended
      exact CharacterClass.start_only (first :: more)
  | lineComment =>
    simp only [split] at found
    split at found
    · cases found; rfl
    · cases found
  | blockComment =>
    simp only [split] at found
    split at found
    · obtain ⟨_, _, same⟩ := Option.map_eq_some_iff.mp found
      cases same; rfl
    · cases found
  | number =>
    obtain ⟨whole, nonempty, digits, rfl | ⟨places, _, rfl⟩⟩ := splitNumber_cases found
    · exact CharacterClass.start_of_forall .digit nonempty digits
    · exact CharacterClass.start_append (CharacterClass.start_of_forall .digit nonempty digits) _
  | quoted mark =>
    simp only [split] at found
    split at found
    · split at found
      · obtain ⟨_, _, same⟩ := Option.map_eq_some_iff.mp found
        cases same
        simp [opening, CharacterClass.start, CharacterClass.holds]
      · cases found
    · cases found
  | name =>
    simp only [split] at found
    split at found
    · cases found
    · next nonempty =>
      cases found
      have letters := List.all_eq_true.mp (List.all_takeWhile (p := isNameCharacter) (l := text))
      exact CharacterClass.start_of_forall .nameCharacter nonempty letters

theorem start_opening_text (found : p.split text = some (lexeme, rest)) :
    CharacterClass.start p.opening text = true := by
  rw [← (split_append found).1]
  exact CharacterClass.start_append (start_opening found) rest

/-- A word of name characters. -/
def isNameWord : Pattern → Bool
  | word first more => (first :: more).all isNameCharacter
  | _ => false

def isExact : Pattern → Bool
  | exact .. => true
  | _ => false

/-- The earlier pattern wins against the later one: no text matches both, or the earlier lexeme is
longer, or a keyword competes with a name. -/
def Outranks (p q : Pattern) : Prop :=
  CharacterClass.clash p.opening q.opening = true ∨
    q.isExact = true ∧ q.opening.length < p.opening.length ∨
    p.isNameWord = true ∧ q = name

instance (p q : Pattern) : Decidable (p.Outranks q) := inferInstanceAs (Decidable (_ ∨ _))

theorem length_of_isExact (fixed : p.isExact = true) (found : p.split text = some (lexeme, rest)) :
    lexeme.length = p.opening.length := by
  cases p with
  | exact first more =>
    obtain ⟨_, _, same⟩ := Option.map_eq_some_iff.mp found
    cases same
    simp [opening]
  | _ => cases fixed

/-- A keyword that matches is the whole run of name characters. -/
theorem lexeme_eq_of_isNameWord (word : p.isNameWord = true)
    (first : p.split text = some (lexeme, rest))
    (second : name.split text = some (lexeme', rest')) : lexeme' = lexeme := by
  cases p with
  | word c more =>
    obtain ⟨_, starts, ended⟩ := Option.bind_eq_some_iff.mp first
    split at ended
    · cases ended
    · next stop =>
      cases ended
      have letters : ∀ d ∈ c :: more, isNameCharacter d = true := List.all_eq_true.mp word
      have whole : text.takeWhile isNameCharacter = c :: more := by
        rw [← behind?_append starts, List.takeWhile_append_of_pos letters]
        cases rest with
        | nil => simp
        | cons d rest =>
          have other : isNameCharacter d = false := by
            rw [Bool.eq_false_iff]
            intro letter
            exact stop (by simpa using isWordCharacter_of_isNameCharacter letter)
          simp [other]
      rw [split, whole, if_neg (List.cons_ne_nil c more)] at second
      cases second
      rfl
  | _ => cases word

/-- Ranking is sound: on a common text the earlier pattern takes more, except that a keyword and a
name take the same word. -/
theorem Outranks.shorter (ranks : p.Outranks q) (first : p.split text = some (lexeme, rest))
    (second : q.split text = some (lexeme', rest')) :
    lexeme'.length < lexeme.length ∨ p.isNameWord = true ∧ q = name := by
  rcases ranks with clashes | ⟨fixed, fewer⟩ | words
  · exact absurd (start_opening_text second)
      (CharacterClass.not_start_of_clash clashes (start_opening_text first))
  · left
    have length := length_of_isExact fixed second
    have least := CharacterClass.length_le_of_start (start_opening first)
    omega
  · exact .inr words

end Pattern

/-- Kinds that are spelled by a word. -/
def Kind.isKeyword : Kind → Bool
  | letWord | enumWord | returnWord | falseWord | trueWord | funcWord | whileWord | forWord
  | ifWord => true
  | _ => false

/-- The table is checked row by row. -/
theorem rules_pairwise_outranks : rules.Pairwise fun r r' => r.pattern.Outranks r'.pattern := by
  decide

theorem Rule.isNameWord_iff {r : Rule} (member : r ∈ rules) :
    r.pattern.isNameWord = true ↔ r.kind.isKeyword = true := by
  have key : ∀ r ∈ rules, r.pattern.isNameWord = true ↔ r.kind.isKeyword = true := by decide
  exact key r member

theorem Rule.eq_name_iff {r : Rule} (member : r ∈ rules) :
    r.pattern = .name ↔ r.kind = .symbol := by
  have key : ∀ r ∈ rules, r.pattern = .name ↔ r.kind = .symbol := by decide
  exact key r member

/-- The rule is the first of the table that matches, and its lexeme is longer than that of every
other rule, except that a keyword ties with a name. -/
structure Leads (text : List Char) (front : List Rule) (r : Rule) (back : List Rule) (m : Match) :
    Prop where
  table : rules = front ++ r :: back
  first : ∀ r' ∈ front, r'.match? text = none
  found : r.match? text = some m
  chosen : firstMatch? text = some m
  longest : ∀ r' ∈ front ++ back, ∀ m', r'.match? text = some m' →
    m'.lexeme.length ≤ m.lexeme.length ∧
      (m'.lexeme.length = m.lexeme.length ↔ r.kind.isKeyword = true ∧ r'.kind = .symbol)

theorem Leads.of_firstMatch? {text : List Char} {m : Match} (chosen : firstMatch? text = some m) :
    ∃ front r back, Leads text front r back m := by
  obtain ⟨front, r, back, table, found, first⟩ := List.findSome?_eq_some_iff.mp chosen
  refine ⟨front, r, back, table, first, found, chosen, fun r' member m' found' => ?_⟩
  have among : r ∈ rules := by simp [table]
  have behind : r' ∈ back := by
    rcases List.mem_append.mp member with before | behind
    · cases (first r' before).symm.trans found'
    · exact behind
  have among' : r' ∈ rules := by simp [table, behind]
  have ranks : r.pattern.Outranks r'.pattern := by
    have pairwise := rules_pairwise_outranks
    rw [table, List.pairwise_append] at pairwise
    exact List.rel_of_pairwise_cons pairwise.2.1 behind
  obtain ⟨⟨lexeme, rest⟩, split, rfl⟩ := Option.map_eq_some_iff.mp found
  obtain ⟨⟨lexeme', rest'⟩, split', rfl⟩ := Option.map_eq_some_iff.mp found'
  rw [← Rule.isNameWord_iff among, ← Rule.eq_name_iff among']
  by_cases words : r.pattern.isNameWord = true ∧ r'.pattern = .name
  · have same : lexeme' = lexeme :=
      Pattern.lexeme_eq_of_isNameWord words.1 split (words.2 ▸ split')
    simp [same, words]
  · have shorter : lexeme'.length < lexeme.length :=
      (ranks.shorter split split').resolve_right words
    refine ⟨Nat.le_of_lt shorter, ?_⟩
    constructor
    · intro same
      exact absurd same (Nat.ne_of_lt shorter)
    · intro both
      exact absurd both words

/-- The first matching rule takes the longest match of the whole table. Another rule ties with it
only as the rule of names ties with that of a keyword. -/
theorem first_rule_longest {text : List Char}
    (matching : ∃ r ∈ rules, (r.match? text).isSome = true) :
    ∃ front r back m, Leads text front r back m := by
  obtain ⟨r, member, matched⟩ := matching
  cases chosen : firstMatch? text with
  | none =>
    rw [List.findSome?_eq_none_iff.mp chosen r member] at matched
    cases matched
  | some m =>
    obtain ⟨front, r, back, leads⟩ := Leads.of_firstMatch? chosen
    exact ⟨front, r, back, m, leads⟩

/-- A keyword in front of a bracket is such a tie. -/
theorem first_rule_longest_keyword :
    let text := ['f', 'o', 'r', '[']
    (∃ r ∈ rules, (r.match? text).isSome = true) ∧ ∃ front r back m, Leads text front r back m := by
  intro text
  have matching : ∃ r ∈ rules, (r.match? text).isSome = true := by decide
  exact ⟨matching, first_rule_longest matching⟩

end BracketScript
