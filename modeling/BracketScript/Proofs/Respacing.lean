import BracketScript.Node.Walk
import BracketScript.Proofs.Exactness

/-! Separators are interchangeable and may be repeated. Wherever a line break or a semicolon
separates, any separators may stand in its place; only the two semicolons in the header of a
loop are punctuation, and they are told from the others by the brackets around them. -/
namespace BracketScript

/-- The open brackets, innermost first, each with a flag for the header of a loop, and whether the
token before is the word of a loop. -/
structure Nesting where
  headers : List Bool
  behindLoop : Bool

namespace Nesting

def outside : Nesting := ⟨[], false⟩

def after (n : Nesting) (t : Token) : Nesting :=
  match t.kind with
  | .leftBracket => ⟨n.behindLoop :: n.headers, false⟩
  | .rightBracket => ⟨n.headers.tail, false⟩
  | kind => ⟨n.headers, kind == .forWord⟩

def InHeader (n : Nesting) : Prop := n.headers.head? = some true

instance (n : Nesting) : Decidable n.InHeader := inferInstanceAs (Decidable (_ = _))

/-- The number of semicolons directly in headers. -/
def punctuation (n : Nesting) : List Token → Nat
  | [] => 0
  | t :: ts => (if t.kind = .semicolon ∧ n.InHeader then 1 else 0) + (n.after t).punctuation ts

/-- The token is a line break, or a semicolon that is not directly in a header. -/
def Separates (n : Nesting) (t : Token) : Prop :=
  t.kind = .newline ∨ t.kind = .semicolon ∧ ¬ n.InHeader

end Nesting

/-- Separators of the first list are replaced by nonempty runs of separators. -/
inductive Respaced : Nesting → List Token → List Token → Prop where
  | nil {n : Nesting} : Respaced n [] []
  | keep {n : Nesting} {t : Token} {ts us : List Token} :
      Respaced (n.after t) ts us → Respaced n (t :: ts) (t :: us)
  | replace {n : Nesting} {t : Token} {ss ts us : List Token} :
      n.Separates t → Separators ss → ss ≠ [] →
      Respaced (n.after t) ts us → Respaced n (t :: ts) (ss ++ us)

/-- The kind opens and closes no bracket, and is not the word of a loop. -/
def Kind.IsLevel (kind : Kind) : Prop :=
  kind ≠ .leftBracket ∧ kind ≠ .rightBracket ∧ kind ≠ .forWord

instance (kind : Kind) : Decidable kind.IsLevel := inferInstanceAs (Decidable (_ ∧ _ ∧ _))

namespace Nesting

variable {headers : List Bool} {behindLoop : Bool} {t : Token}

theorem after_level (level : t.kind.IsLevel) :
    (⟨headers, behindLoop⟩ : Nesting).after t = ⟨headers, false⟩ := by
  obtain ⟨open_, close, loop⟩ := level
  cases kind : t.kind <;> simp_all [after]

theorem after_open (is : t.kind = .leftBracket) :
    (⟨headers, behindLoop⟩ : Nesting).after t = ⟨behindLoop :: headers, false⟩ := by
  simp only [after, is]

theorem after_close {header : Bool} (is : t.kind = .rightBracket) :
    (⟨header :: headers, behindLoop⟩ : Nesting).after t = ⟨headers, false⟩ := by
  simp only [after, is, List.tail_cons]

theorem after_loop (is : t.kind = .forWord) :
    (⟨headers, behindLoop⟩ : Nesting).after t = ⟨headers, true⟩ := by
  simp [after, is]

end Nesting

theorem Kind.isLevel_of_isSeparator {kind : Kind} (separator : kind.isSeparator = true) :
    kind.IsLevel := by
  cases kind <;> first | contradiction | decide

def Kind.IsWord (kind : Kind) : Prop := kind.IsLevel ∧ kind.isSeparator = false

instance (kind : Kind) : Decidable kind.IsWord := inferInstanceAs (Decidable (_ ∧ _))

theorem Kind.IsWord.ne_semicolon {kind : Kind} (word : kind.IsWord) : kind ≠ .semicolon := by
  rintro rfl
  exact absurd word.2 (by decide)

theorem Kind.isWord_of_isLeaf {kind : Kind} (leaf : kind.isLeaf = true) : kind.IsWord := by
  cases kind <;> first | contradiction | decide

theorem Token.Operates.isWord {o : Token} {tier : Tier} {op : BinaryOp}
    (operates : o.Operates tier op) : o.kind.IsWord := by
  have kind := operates.kind
  generalize o.kind = kind' at *
  cases kind' <;> first | contradiction | decide

theorem UnaryOp.isWord_of_front {op : UnaryOp} {kind : Kind} (is : op.frontKind? = some kind) :
    kind.IsWord := by
  cases op <;> cases is <;> decide

theorem UnaryOp.isWord_of_back {op : UnaryOp} {kind : Kind} (is : op.backKind? = some kind) :
    kind.IsWord := by
  cases op <;> cases is <;> decide

theorem Guard.isWord_word (guard : Guard) : guard.word.IsWord := by cases guard <;> decide

def Event.entersLoop {ν τ : Type} : Event ν τ → Bool
  | .enter (.loop ..) => true
  | _ => false

def loopCount {ν τ : Type} (walk : List (Event ν τ)) : Nat := walk.countP Event.entersLoop

def Phrase.walk : Phrase → List (Event String Token)
  | statements ns | furtherStatements ns | body ns | furtherElements ns => Node.listWalk ns
  | statementOption node | expressionOption node => Node.optionWalk node
  | statement n | expression _ n | unary n | banged n | atom n | primary n => n.walk

@[simp] theorem Node.listWalk_append {ν τ : Type} (ns ms : List (Node ν τ)) :
    listWalk (ns ++ ms) = listWalk ns ++ listWalk ms := by
  induction ns with
  | nil => rfl
  | cons n ns ih => rw [List.cons_append, listWalk, listWalk, ih, List.append_assoc]

@[simp] theorem Node.listWalk_toList {ν τ : Type} (node : Option (Node ν τ)) :
    listWalk node.toList = optionWalk node := by
  cases node <;> simp [listWalk, optionWalk]

section Loops

variable {ν τ : Type}

@[simp] theorem loopCount_append (walk further : List (Event ν τ)) :
    loopCount (walk ++ further) = loopCount walk + loopCount further :=
  List.countP_append

@[simp] theorem loopCount_cons (e : Event ν τ) (walk : List (Event ν τ)) :
    loopCount (e :: walk) = loopCount walk + if e.entersLoop then 1 else 0 :=
  List.countP_cons

@[simp] theorem loopCount_nil : loopCount ([] : List (Event ν τ)) = 0 := rfl

@[simp] theorem loopCount_bodyWalk (size : Nat) (inner : List (Event ν τ)) :
    loopCount (Node.bodyWalk size inner) = loopCount inner := by
  simp [Node.bodyWalk, Event.entersLoop]

end Loops

/-- Phrases whose separators all stand between statements. -/
def Phrase.IsSeparated : Phrase → Prop
  | statements _ | furtherStatements _ => True
  | _ => False

/-- The tokens restore the nesting, and hold this number of semicolons directly in headers. -/
structure Returns (headers : List Bool) (us : List Token) (count : Nat) : Prop where
  back : us.foldl Nesting.after ⟨headers, false⟩ = ⟨headers, false⟩
  punctuation : Nesting.punctuation ⟨headers, false⟩ us = count

namespace Returns

variable {headers : List Bool} {us ts : List Token} {t l r : Token} {m n : Nat}

theorem nil : Returns headers [] 0 := ⟨rfl, rfl⟩

theorem of_eq (returns : Returns headers us m) (same : m = n) : Returns headers us n :=
  same ▸ returns

theorem level (level : t.kind.IsLevel) (other : t.kind ≠ .semicolon ∨ headers.head? ≠ some true)
    (returns : Returns headers us n) : Returns headers (t :: us) n := by
  have plain : ¬ (t.kind = .semicolon ∧ Nesting.InHeader ⟨headers, false⟩) := by
    rintro ⟨semicolon, header⟩
    exact other.elim (· semicolon) (· header)
  constructor
  · rw [List.foldl_cons, Nesting.after_level level, returns.back]
  · rw [Nesting.punctuation, if_neg plain, Nesting.after_level level, returns.punctuation,
      Nat.zero_add]

theorem word {kind : Kind} (is : t.kind = kind) (returns : Returns headers us n)
    (word : kind.IsWord := by decide) : Returns headers (t :: us) n :=
  .level (is ▸ word.1) (.inl (is ▸ word.ne_semicolon)) returns

theorem punctuation_append (n : Nesting) (us ts : List Token) :
    n.punctuation (us ++ ts) = n.punctuation us + (us.foldl Nesting.after n).punctuation ts := by
  induction us generalizing n with
  | nil => simp [Nesting.punctuation]
  | cons t us ih =>
    rw [List.cons_append, Nesting.punctuation, Nesting.punctuation, ih, List.foldl_cons,
      Nat.add_assoc]

theorem append (front : Returns headers us m) (back : Returns headers ts n) :
    Returns headers (us ++ ts) (m + n) := by
  constructor
  · rw [List.foldl_append, front.back, back.back]
  · rw [punctuation_append, front.punctuation, front.back, back.punctuation]

/-- Brackets restore the nesting around what is between them; `header` marks those of a loop. -/
theorem brackets {header : Bool} (open_ : l.kind = .leftBracket) (close : r.kind = .rightBracket)
    (inside : Returns (header :: headers) us n) :
    (l :: (us ++ [r])).foldl Nesting.after ⟨headers, header⟩ = ⟨headers, false⟩ ∧
      Nesting.punctuation ⟨headers, header⟩ (l :: (us ++ [r])) = n := by
  constructor
  · rw [List.foldl_cons, Nesting.after_open open_, List.foldl_append, inside.back, List.foldl_cons,
      Nesting.after_close close, List.foldl_nil]
  · simp [Nesting.punctuation, Nesting.after_open open_, open_, punctuation_append, inside.back,
      inside.punctuation, close]

theorem bracketed (open_ : l.kind = .leftBracket) (close : r.kind = .rightBracket)
    (inside : Returns (false :: headers) us n) : Returns headers (l :: (us ++ [r])) n :=
  ⟨(brackets open_ close inside).1, (brackets open_ close inside).2⟩

theorem header {f : Token} (keyword : f.kind = .forWord) (open_ : l.kind = .leftBracket)
    (close : r.kind = .rightBracket) (inside : Returns (true :: headers) us n) :
    Returns headers (f :: l :: (us ++ [r])) n := by
  obtain ⟨back, count⟩ := brackets open_ close inside
  constructor
  · rw [List.foldl_cons, Nesting.after_loop keyword, back]
  · rw [Nesting.punctuation, Nesting.after_loop keyword, count, if_neg (by simp [keyword]),
      Nat.zero_add]

/-- A semicolon between the parts of a header is counted. -/
theorem part (semicolon : t.kind = .semicolon) (returns : Returns (true :: headers) us n) :
    Returns (true :: headers) (t :: us) (1 + n) := by
  have level : t.kind.IsLevel := by rw [semicolon]; decide
  constructor
  · rw [List.foldl_cons, Nesting.after_level level, returns.back]
  · rw [Nesting.punctuation, Nesting.after_level level, returns.punctuation,
      if_pos ⟨semicolon, rfl⟩]

theorem of_separators (outside : headers.head? ≠ some true) (separators : Separators us) :
    Returns headers us 0 := by
  induction us with
  | nil => exact nil
  | cons s us ih =>
    obtain ⟨separator, further⟩ := List.forall_mem_cons.mp separators
    exact .level (Kind.isLevel_of_isSeparator separator) (.inr outside) (ih further)

theorem of_furtherParameters {ps : List String} (further : FurtherParameters ps us) :
    Returns headers us 0 := by
  induction further with
  | done => exact nil
  | more comma symbol _ ih => exact .word comma (.word symbol ih)

theorem of_parameters {ps : List String} (parameters : Parameters ps us) :
    Returns headers us 0 := by
  cases parameters with
  | none open_ close => exact .bracketed open_ close .nil
  | some open_ symbol further close =>
    exact .bracketed open_ close (.word symbol (.of_furtherParameters further))

theorem of_furtherNames {names : List String} (outside : headers.head? ≠ some true)
    (further : FurtherNames names us) : Returns headers us 0 := by
  induction further with
  | done => exact nil
  | more separators _ symbol _ ih =>
    exact .append (.of_separators outside separators) (.word symbol ih)

end Returns

/-- By induction on the derivation, a phrase restores the nesting, and its header semicolons are two
for every loop in it. -/
theorem Derives.returns {phrase : Phrase} {us : List Token} (derived : Derives phrase us)
    {headers : List Bool} (outside : phrase.IsSeparated → headers.head? ≠ some true) :
    Returns headers us (2 * loopCount phrase.walk) := by
  induction derived generalizing headers with
  | statements _ _ first others =>
    refine .of_eq (.append (first nofun) (others outside)) ?_
    simp [Phrase.walk, Nat.mul_add]
  | noFurtherStatements | noStatement | noExpression | noFurtherElements => exact .nil
  | furtherStatements separator _ _ first others =>
    have level := Kind.isLevel_of_isSeparator separator
    have behind := Returns.append (first nofun) (others outside)
    refine .of_eq (.level level (.inr (outside trivial)) behind) ?_
    simp [Phrase.walk, Nat.mul_add]
  | someStatement _ ih | someExpression _ ih | tighter _ ih | operand _ ih | bare _ ih
  | bangless _ ih | accessless _ ih | access _ _ _ ih | plain _ _ ih => exact ih nofun
  | body open_ _ close ih => exact .bracketed open_ close (ih fun _ => by simp)
  | function keyword symbol parameters _ ih =>
    refine .of_eq (.word keyword (.word symbol (.append (.of_parameters parameters) (ih nofun)))) ?_
    simp [Phrase.walk, Node.walk, Event.entersLoop]
  | @guarded _ _ _ guard _ _ us ts keyword open_ _ close _ test body =>
    have header := Returns.bracketed open_ close (@test (false :: headers) nofun)
    have whole := Returns.word keyword (header.append (body nofun)) guard.isWord_word
    simpa [Phrase.walk, Node.walk, Event.entersLoop, Nat.mul_add] using whole
  | @loop _ _ _ _ _ _ _ _ _ us vs ws ts keyword open_ _ sep _ sep' _ close _ init test step body =>
    have parts := (@init (true :: headers) nofun).append
      (.part sep ((test nofun).append (.part sep' (step nofun))))
    have whole := (Returns.header keyword open_ close parts).append (body nofun)
    simp only [List.append_assoc, List.cons_append, List.nil_append] at whole
    refine whole.of_eq ?_
    simp [Phrase.walk, Node.walk, Event.entersLoop]
    omega
  | binding keyword symbol assign _ ih =>
    refine .of_eq (.word keyword (.word symbol (.word assign (ih nofun)))) ?_
    simp [Phrase.walk, Node.walk, Event.entersLoop]
  | enumeration keyword open_ front symbol further back close =>
    have free : (false :: headers).head? ≠ some true := by simp
    have names := (Returns.of_separators free front).append
      (.word symbol ((Returns.of_furtherNames free further).append (.of_separators free back)))
    have whole := Returns.word keyword (.bracketed open_ close names)
    simpa [Phrase.walk, Node.walk, Event.entersLoop] using whole
  | result keyword _ ih =>
    refine .of_eq (.word keyword (ih nofun)) ?_
    simp [Phrase.walk, Node.walk, Event.entersLoop]
  | block _ ih =>
    refine .of_eq (ih nofun) ?_
    simp [Phrase.walk, Node.walk, Event.entersLoop]
  | assignment symbol assign _ ih =>
    refine .of_eq (.word symbol (.word assign (ih nofun))) ?_
    simp [Phrase.walk, Node.walk, Event.entersLoop]
  | jump jumps => exact .word jumps.kind .nil
  | binary _ operates _ left right =>
    refine .of_eq (.append (left nofun) (.word rfl (right nofun) operates.isWord)) ?_
    simp [Phrase.walk, Node.walk, Event.entersLoop, Nat.mul_add]
  | front kind _ ih =>
    refine .of_eq (.word rfl (ih nofun) (UnaryOp.isWord_of_front kind)) ?_
    simp [Phrase.walk, Node.walk, Event.entersLoop]
  | bangs is _ ih | bang is _ ih =>
    refine .of_eq (.word is (ih nofun)) ?_
    simp [Phrase.walk, Node.walk, Event.entersLoop]
  | back leaf kind =>
    have step := Returns.word rfl (@Returns.nil headers) (UnaryOp.isWord_of_back kind)
    refine .of_eq (.word rfl step (Kind.isWord_of_isLeaf leaf)) ?_
    simp [Phrase.walk, Node.walk, Event.entersLoop]
  | member _ period _ left right =>
    refine .of_eq (.append (left nofun) (.word period (right nofun))) ?_
    simp [Phrase.walk, Node.walk, Node.listWalk, Event.entersLoop, Nat.mul_add]
  | index _ _ _ left right =>
    refine .of_eq (.append (left nofun) (right nofun)) ?_
    simp [Phrase.walk, Node.walk, Node.listWalk, Event.entersLoop, Nat.mul_add]
  | leaf leaf => exact .word rfl .nil (Kind.isWord_of_isLeaf leaf)
  | emptyList open_ close => exact .bracketed open_ close .nil
  | list open_ _ _ close first others =>
    have inside := (@first (false :: headers) nofun).append (others nofun)
    have whole := Returns.bracketed open_ close inside
    simpa [Phrase.walk, Node.walk, Node.listWalk, Event.entersLoop, Nat.mul_add] using whole
  | lambda arrow parameters _ ih =>
    refine .of_eq (.word arrow (.append (.of_parameters parameters) (ih nofun))) ?_
    simp [Phrase.walk, Node.walk, Event.entersLoop]
  | furtherElements comma _ _ first others =>
    refine .of_eq (.word comma (.append (first nofun) (others nofun))) ?_
    simp [Phrase.walk, Node.listWalk, Nat.mul_add]

namespace Respaced

variable {n : Nesting} {headers : List Bool} {t : Token} {us ts vs : List Token}

theorem append (respaced : Respaced n (us ++ ts) vs) :
    ∃ us' ts', vs = us' ++ ts' ∧ Respaced n us us' ∧
      Respaced (us.foldl Nesting.after n) ts ts' := by
  induction us generalizing n vs with
  | nil => exact ⟨[], vs, rfl, .nil, respaced⟩
  | cons t us ih =>
    cases respaced with
    | keep further =>
      obtain ⟨us', ts', rfl, front, back⟩ := ih further
      exact ⟨t :: us', ts', rfl, .keep front, back⟩
    | replace separates separators nonempty further =>
      obtain ⟨us', ts', rfl, front, back⟩ := ih further
      exact ⟨_, ts', (List.append_assoc _ _ _).symm,
        .replace separates separators nonempty front, back⟩

theorem kept (stays : ¬ n.Separates t) (respaced : Respaced n (t :: ts) vs) :
    ∃ us, vs = t :: us ∧ Respaced (n.after t) ts us := by
  cases respaced with
  | keep further => exact ⟨_, rfl, further⟩
  | replace separates _ _ _ => exact absurd separates stays

theorem separated (separator : t.kind.isSeparator = true) (respaced : Respaced n (t :: ts) vs) :
    ∃ ss us, vs = ss ++ us ∧ Separators ss ∧ ss ≠ [] ∧ Respaced (n.after t) ts us := by
  cases respaced with
  | keep further =>
    exact ⟨[t], _, rfl, List.forall_mem_singleton.mpr separator, List.cons_ne_nil _ _, further⟩
  | replace _ separators nonempty further => exact ⟨_, _, rfl, separators, nonempty, further⟩

/-- A phrase and what follows it are respaced independently. -/
theorem phrase {count : Nat} (returns : Returns headers us count)
    (respaced : Respaced ⟨headers, false⟩ (us ++ ts) vs) :
    ∃ us' ts', vs = us' ++ ts' ∧ Respaced ⟨headers, false⟩ us us' ∧
      Respaced ⟨headers, false⟩ ts ts' := by
  have parts := respaced.append
  rwa [returns.back] at parts

theorem fixed {kind : Kind} (is : t.kind = kind) (respaced : Respaced n (t :: ts) vs)
    (other : kind.isSeparator = false := by decide) :
    ∃ us, vs = t :: us ∧ Respaced (n.after t) ts us := by
  apply respaced.kept
  rintro (newline | ⟨semicolon, _⟩)
  · cases is.symm.trans newline
    contradiction
  · cases is.symm.trans semicolon
    contradiction

theorem word {kind : Kind} (is : t.kind = kind)
    (respaced : Respaced ⟨headers, false⟩ (t :: ts) vs)
    (word : kind.IsWord := by decide) :
    ∃ us, vs = t :: us ∧ Respaced ⟨headers, false⟩ ts us := by
  have further := respaced.fixed is word.2
  rwa [Nesting.after_level (is ▸ word.1)] at further

theorem loopWord (is : t.kind = .forWord) (respaced : Respaced ⟨headers, false⟩ (t :: ts) vs) :
    ∃ us, vs = t :: us ∧ Respaced ⟨headers, true⟩ ts us := by
  have further := respaced.fixed is
  rwa [Nesting.after_loop is] at further

/-- Brackets are fixed, and what is between them is respaced independently. -/
theorem brackets {l r : Token} {header : Bool} {count : Nat} (open_ : l.kind = .leftBracket)
    (close : r.kind = .rightBracket) (inside : Returns (header :: headers) us count)
    (respaced : Respaced ⟨headers, header⟩ (l :: (us ++ r :: ts)) vs) :
    ∃ us' ts', vs = l :: (us' ++ r :: ts') ∧ Respaced ⟨header :: headers, false⟩ us us' ∧
      Respaced ⟨headers, false⟩ ts ts' := by
  obtain ⟨_, rfl, within⟩ := respaced.fixed open_
  rw [Nesting.after_open open_] at within
  obtain ⟨us', _, rfl, front, behind⟩ := within.phrase inside
  obtain ⟨ts', rfl, back⟩ := behind.fixed close
  rw [Nesting.after_close close] at back
  exact ⟨us', ts', rfl, front, back⟩

/-- The semicolons between the parts of a header are fixed. -/
theorem part (semicolon : t.kind = .semicolon)
    (respaced : Respaced ⟨true :: headers, false⟩ (t :: ts) vs) :
    ∃ us, vs = t :: us ∧ Respaced ⟨true :: headers, false⟩ ts us := by
  have stays : ¬ Nesting.Separates ⟨true :: headers, false⟩ t := by
    rintro (newline | ⟨_, outside⟩)
    · cases semicolon.symm.trans newline
    · exact outside rfl
  have level : t.kind.IsLevel := by rw [semicolon]; decide
  have further := respaced.kept stays
  rwa [Nesting.after_level level] at further

/-- Tokens without separators are left unchanged. -/
theorem eq_of_unseparated (unseparated : ∀ t ∈ us, t.kind.isSeparator = false)
    (respaced : Respaced n us vs) : vs = us := by
  induction us generalizing n vs with
  | nil =>
    cases respaced
    rfl
  | cons t us ih =>
    obtain ⟨first, others⟩ := List.forall_mem_cons.mp unseparated
    obtain ⟨_, rfl, further⟩ := respaced.fixed rfl first
    rw [ih others further]

theorem separators (separators : Separators us) (respaced : Respaced n us vs) :
    Separators vs ∧ (us ≠ [] → vs ≠ []) := by
  induction us generalizing n vs with
  | nil =>
    cases respaced
    exact ⟨separators, id⟩
  | cons s us ih =>
    obtain ⟨separator, further⟩ := List.forall_mem_cons.mp separators
    obtain ⟨ss, _, rfl, instead, nonempty, respaced⟩ := respaced.separated separator
    refine ⟨List.forall_mem_append.mpr ⟨instead, (ih further respaced).1⟩, fun _ => ?_⟩
    simp [nonempty]

theorem furtherNames {names : List String} (further : FurtherNames names us)
    (outside : headers.head? ≠ some true) (respaced : Respaced ⟨headers, false⟩ us vs) :
    FurtherNames names vs := by
  induction further generalizing vs with
  | done =>
    cases respaced
    exact .done
  | more separators nonempty symbol _ ih =>
    obtain ⟨_, _, rfl, gap, name⟩ := respaced.phrase (.of_separators outside separators)
    obtain ⟨_, rfl, behind⟩ := name.word symbol
    obtain ⟨instead, filled⟩ := gap.separators separators
    exact .more instead (filled nonempty) symbol (ih behind)

end Respaced

theorem FurtherParameters.unseparated {ps : List String} {us : List Token}
    (further : FurtherParameters ps us) : ∀ t ∈ us, t.kind.isSeparator = false := by
  induction further with
  | done => simp
  | more comma symbol _ ih => simpa [comma, symbol, Kind.isSeparator] using ih

theorem Parameters.unseparated {ps : List String} {us : List Token}
    (parameters : Parameters ps us) : ∀ t ∈ us, t.kind.isSeparator = false := by
  cases parameters with
  | none open_ close => simp [open_, close, Kind.isSeparator]
  | some open_ symbol further close =>
    refine List.forall_mem_cons.mpr ⟨by rw [open_]; rfl, List.forall_mem_cons.mpr
      ⟨by rw [symbol]; rfl, List.forall_mem_append.mpr ⟨further.unseparated, ?_⟩⟩⟩
    exact List.forall_mem_singleton.mpr (by rw [close]; rfl)

/-- Respacing behind its first token keeps a plain start plain. -/
theorem StartsPlainly.respaced {n : Nesting} {t : Token} {ts us : List Token}
    (plainly : StartsPlainly (t :: ts)) (respaced : Respaced n ts us) :
    StartsPlainly (t :: us) := by
  refine ⟨plainly.1, fun symbol => ⟨(plainly.2 symbol).1, fun d first => ?_⟩⟩
  cases respaced with
  | nil => cases first
  | keep _ =>
    cases first
    exact (plainly.2 symbol).2 _ rfl
  | @replace _ _ ss _ _ _ separators nonempty _ =>
    cases ss with
    | nil => contradiction
    | cons s ss =>
      cases first
      have separator := separators d List.mem_cons_self
      generalize d.kind = kind at separator
      cases kind <;> first | contradiction | decide

theorem Kind.not_isSeparator_of_startsOperand {kind : Kind} (starts : kind.startsOperand = true) :
    kind.isSeparator = false := by
  cases kind <;> first | contradiction | rfl

/-- Additional separators before a statement derive no additional statements. -/
theorem Derives.separated {ss us ts : List Token} {n : Option Tree} {ns : List Tree}
    (separators : Separators ss) (nonempty : ss ≠ []) (first : Derives (.statementOption n) us)
    (others : Derives (.furtherStatements ns) ts) :
    Derives (.furtherStatements (n.toList ++ ns)) (ss ++ (us ++ ts)) := by
  induction ss with
  | nil => contradiction
  | cons s ss ih =>
    obtain ⟨separator, further⟩ := List.forall_mem_cons.mp separators
    by_cases last : ss = []
    · subst last
      change Derives _ (s :: (us ++ ts))
      exact .furtherStatements separator first others
    · change Derives _ (s :: ([] ++ (ss ++ (us ++ ts))))
      exact .furtherStatements (n := none) separator .noStatement (ih further last)

/-- By induction on the derivation, every respacing of a phrase derives the same tree. -/
theorem Derives.respaced {phrase : Phrase} {us : List Token} (derived : Derives phrase us)
    {headers : List Bool} (outside : phrase.IsSeparated → headers.head? ≠ some true)
    {vs : List Token} (respaced : Respaced ⟨headers, false⟩ us vs) : Derives phrase vs := by
  -- A phrase is behind no word of a loop, and leaves the brackets as it finds them (`returns`), so
  -- the nesting is known in front of each of its parts.
  induction derived generalizing headers vs with
  | statements first _ ih others =>
    obtain ⟨_, _, rfl, front, back⟩ := respaced.phrase (first.returns nofun)
    exact .statements (ih nofun front) (others outside back)
  | noFurtherStatements =>
    cases respaced
    exact .noFurtherStatements
  | furtherStatements separator first _ ih others =>
    obtain ⟨ss, _, rfl, separators, nonempty, behind⟩ := respaced.separated separator
    rw [Nesting.after_level (Kind.isLevel_of_isSeparator separator)] at behind
    obtain ⟨_, _, rfl, front, back⟩ := behind.phrase (first.returns nofun)
    exact .separated separators nonempty (ih nofun front) (others outside back)
  | noStatement =>
    cases respaced
    exact .noStatement
  | someStatement _ ih => exact .someStatement (ih nofun respaced)
  | body open_ inner close ih =>
    have free : (false :: headers).head? ≠ some true := by simp
    have returns := inner.returns fun _ => free
    obtain ⟨_, _, rfl, inside, behind⟩ := respaced.brackets open_ close returns
    cases behind
    exact .body open_ (ih (fun _ => free) inside) close
  | function keyword symbol parameters _ ih =>
    obtain ⟨_, rfl, name⟩ := respaced.word keyword
    obtain ⟨_, rfl, behind⟩ := name.word symbol
    obtain ⟨_, _, rfl, front, back⟩ := behind.phrase (.of_parameters parameters)
    obtain rfl := front.eq_of_unseparated parameters.unseparated
    exact .function keyword symbol parameters (ih nofun back)
  | @guarded _ _ _ guard _ _ _ _ keyword open_ test close _ condition body =>
    obtain ⟨_, rfl, behind⟩ := respaced.word keyword guard.isWord_word
    obtain ⟨_, _, rfl, inside, back⟩ := behind.brackets open_ close (test.returns nofun)
    exact .guarded keyword open_ (condition nofun inside) close (body nofun back)
  | @loop f l r s s' _ _ _ _ us vs ws ts keyword open_ first sep second sep' third close _ init test
      step body =>
    have before : Returns (true :: headers) us _ := first.returns nofun
    have parts := before.append
      (.part sep ((second.returns nofun).append (.part sep' (third.returns nofun))))
    obtain ⟨_, rfl, header⟩ := respaced.loopWord keyword
    have assoc : us ++ s :: (vs ++ s' :: (ws ++ r :: ts)) =
        (us ++ s :: (vs ++ s' :: ws)) ++ r :: ts := by simp
    rw [assoc] at header
    obtain ⟨_, _, rfl, inside, back⟩ := header.brackets open_ close parts
    obtain ⟨_, _, rfl, before, fromFirst⟩ := inside.phrase (first.returns nofun)
    obtain ⟨_, rfl, behindFirst⟩ := fromFirst.part sep
    obtain ⟨_, _, rfl, between, fromSecond⟩ := behindFirst.phrase (second.returns nofun)
    obtain ⟨_, rfl, last⟩ := fromSecond.part sep'
    have whole := Derives.loop keyword open_ (init nofun before) sep (test nofun between) sep'
      (step nofun last) close (body nofun back)
    simpa using whole
  | binding keyword symbol assign _ ih =>
    obtain ⟨_, rfl, name⟩ := respaced.word keyword
    obtain ⟨_, rfl, behind⟩ := name.word symbol
    obtain ⟨_, rfl, value⟩ := behind.word assign
    exact .binding keyword symbol assign (ih nofun value)
  | @enumeration _ l t r ss ts es names keyword open_ front symbol further back close =>
    have free : (false :: headers).head? ≠ some true := by simp
    have returns := (Returns.of_separators free front).append
      (.word symbol ((Returns.of_furtherNames free further).append (.of_separators free back)))
    obtain ⟨_, rfl, behind⟩ := respaced.word keyword
    have assoc : ss ++ t :: (ts ++ (es ++ [r])) = (ss ++ t :: (ts ++ es)) ++ [r] := by simp
    rw [assoc] at behind
    obtain ⟨_, _, rfl, inside, nothing⟩ := behind.brackets open_ close returns
    cases nothing
    obtain ⟨_, _, rfl, before, fromName⟩ := inside.phrase (.of_separators free front)
    obtain ⟨_, rfl, behindName⟩ := fromName.word symbol
    obtain ⟨_, _, rfl, names, last⟩ := behindName.phrase (.of_furtherNames free further)
    have whole := Derives.enumeration keyword open_ (before.separators front).1 symbol
      (names.furtherNames further free) (last.separators back).1 close
    simpa using whole
  | result keyword _ ih =>
    obtain ⟨_, rfl, value⟩ := respaced.word keyword
    exact .result keyword (ih nofun value)
  | block _ ih => exact .block (ih nofun respaced)
  | assignment symbol assign _ ih =>
    obtain ⟨_, rfl, behind⟩ := respaced.word symbol
    obtain ⟨_, rfl, value⟩ := behind.word assign
    exact .assignment symbol assign (ih nofun value)
  | access symbol accessed _ ih =>
    have atom := ih nofun respaced
    obtain ⟨_, rfl, behind⟩ := respaced.word symbol
    obtain ⟨_, rfl, _⟩ := behind.fixed rfl (by rcases accessed with is | is <;> rw [is] <;> rfl)
    exact .access symbol accessed atom
  | jump jumps =>
    obtain ⟨_, rfl, behind⟩ := respaced.word jumps.kind
    cases behind
    exact .jump jumps
  | plain value plainly ih =>
    have whole := ih nofun respaced
    obtain ⟨t, ts, rfl, starts⟩ := value.starts
    obtain ⟨_, rfl, behind⟩ := respaced.fixed rfl (Kind.not_isSeparator_of_startsOperand starts)
    exact .plain whole (plainly.respaced behind)
  | noExpression =>
    cases respaced
    exact .noExpression
  | someExpression _ ih => exact .someExpression (ih nofun respaced)
  | tighter _ ih => exact .tighter (ih nofun respaced)
  | binary first operates _ left right =>
    obtain ⟨_, _, rfl, front, behind⟩ := respaced.phrase (first.returns nofun)
    obtain ⟨_, rfl, back⟩ := behind.word rfl operates.isWord
    exact .binary (left nofun front) operates (right nofun back)
  | operand _ ih => exact .operand (ih nofun respaced)
  | front kind _ ih =>
    obtain ⟨_, rfl, behind⟩ := respaced.word rfl (UnaryOp.isWord_of_front kind)
    exact .front kind (ih nofun behind)
  | bangs is _ ih =>
    obtain ⟨_, rfl, behind⟩ := respaced.word is
    exact .bangs is (ih nofun behind)
  | back leaf kind =>
    obtain ⟨_, rfl, step⟩ := respaced.word rfl (Kind.isWord_of_isLeaf leaf)
    obtain ⟨_, rfl, nothing⟩ := step.word rfl (UnaryOp.isWord_of_back kind)
    cases nothing
    exact .back leaf kind
  | bare _ ih => exact .bare (ih nofun respaced)
  | bang is _ ih =>
    obtain ⟨_, rfl, behind⟩ := respaced.word is
    exact .bang is (ih nofun behind)
  | bangless _ ih => exact .bangless (ih nofun respaced)
  | accessless _ ih => exact .accessless (ih nofun respaced)
  | member first period _ left right =>
    obtain ⟨_, _, rfl, front, behind⟩ := respaced.phrase (first.returns nofun)
    obtain ⟨_, rfl, back⟩ := behind.word period
    exact .member (left nofun front) period (right nofun back)
  | index first bracket _ left right =>
    obtain ⟨_, _, rfl, front, behind⟩ := respaced.phrase (first.returns nofun)
    have key := right nofun behind
    obtain ⟨_, rfl, _⟩ := behind.fixed bracket
    exact .index (left nofun front) bracket key
  | leaf leaf =>
    obtain ⟨_, rfl, behind⟩ := respaced.word rfl (Kind.isWord_of_isLeaf leaf)
    cases behind
    exact .leaf leaf
  | emptyList open_ close =>
    obtain ⟨us, _, rfl, inside, behind⟩ := respaced.brackets open_ close Returns.nil
    cases inside
    cases behind
    exact .emptyList open_ close
  | list open_ first further close ih others =>
    have before : Returns (false :: headers) _ _ := first.returns nofun
    have returns := before.append (further.returns nofun)
    rw [← List.append_assoc] at respaced
    obtain ⟨_, _, rfl, inside, behind⟩ := respaced.brackets open_ close returns
    cases behind
    obtain ⟨_, _, rfl, front, back⟩ := inside.phrase (first.returns nofun)
    rw [List.append_assoc]
    exact .list open_ (ih nofun front) (others nofun back) close
  | lambda arrow parameters _ ih =>
    obtain ⟨_, rfl, behind⟩ := respaced.word arrow
    obtain ⟨_, _, rfl, front, back⟩ := behind.phrase (.of_parameters parameters)
    obtain rfl := front.eq_of_unseparated parameters.unseparated
    exact .lambda arrow parameters (ih nofun back)
  | noFurtherElements =>
    cases respaced
    exact .noFurtherElements
  | furtherElements comma first _ ih others =>
    obtain ⟨_, rfl, behind⟩ := respaced.word comma
    obtain ⟨_, _, rfl, front, back⟩ := behind.phrase (first.returns nofun)
    exact .furtherElements comma (ih nofun front) (others nofun back)

/-- Replacing separators by nonempty runs of separators does not change the program. Only the
semicolons between the parts of loop headers are fixed, and there are two of them for every loop. -/
theorem parse_respaced {ts : List Token} {p : Program} (endless : Endless ts)
    (parsed : parse ts = .ok p) :
    Nesting.outside.punctuation ts = 2 * loopCount p.walk ∧
      ∀ us, Respaced .outside ts us → parse us = .ok p := by
  have derived := derives_of_parse endless parsed
  have outside : ([] : List Bool).head? ≠ some true := by simp
  constructor
  · exact (derived.returns fun _ => outside).punctuation
  · intro us respaced
    apply parse_of_derives
    exact derived.respaced (fun _ => outside) respaced

/-- The semicolons of the header stay fixed, the one in the body is replaced. -/
theorem parse_respaced_loop :
    let token (kind : Kind) (text : String) : Token := ⟨kind, .text text, 1, 1, 1⟩
    let x := token .symbol "x"
    let semicolon := token .semicolon ";"
    let newline := token .newline "\n"
    let header := [token .forWord "for", token .leftBracket "[", semicolon, x, semicolon,
      token .rightBracket "]", token .leftBracket "["]
    let ts := header ++ [x, semicolon, x, token .rightBracket "]"]
    let us := header ++ [x, newline, semicolon, newline, x, token .rightBracket "]"]
    let p : Program := ⟨[.loop none (some (.leaf x)) none [.leaf x, .leaf x]]⟩
    Endless ts ∧ Respaced .outside ts us ∧ parse ts = .ok p ∧
      Nesting.outside.punctuation ts = 2 ∧ parse us = .ok p := by
  intro token x semicolon newline header ts us p
  have endless : Endless ts := by simp [Endless, ts, header, token, x, semicolon]
  have parsed : parse ts = .ok p := rfl
  have respaced : Respaced .outside ts us := by
    refine .keep (.keep (.keep (.keep (.keep (.keep (.keep (.keep ?_)))))))
    refine @Respaced.replace _ _ [newline, semicolon, newline] _ _ (.inr ⟨rfl, by decide⟩) ?_
      (by simp) ?_
    · simp [Separators, newline, semicolon, token, Kind.isSeparator]
    · exact .keep (.keep .nil)
  obtain ⟨count, read⟩ := parse_respaced endless parsed
  exact ⟨endless, respaced, parsed, count, read us respaced⟩

end BracketScript
