import BracketScript.Proofs.Derivation
import Mathlib.Data.List.Chain

/-! No program divides by what starts with a star: a star behind a slash could only stand
where an operand must. So a program holds no mark of an open block comment among its
tokens. -/
namespace BracketScript

def Token.OpensComment (d m : Token) : Prop := d.kind = .div ∧ m.kind = .mult

/-- No slash stands directly before a star. A star in front and a slash at the end are excluded as
well, so that the property is closed under concatenation. -/
structure Apart (us : List Token) : Prop where
  inside : us.IsChain fun d m => ¬ d.OpensComment m
  first : ∀ t ∈ us.head?, t.kind ≠ .mult
  last : ∀ t ∈ us.getLast?, t.kind ≠ .div

namespace Apart

variable {us ts : List Token} {t : Token}

theorem nil : Apart [] := ⟨.nil, by simp, by simp⟩

theorem append (front : Apart us) (back : Apart ts) : Apart (us ++ ts) := by
  refine ⟨List.isChain_append.mpr ⟨front.inside, back.inside, ?_⟩, ?_, ?_⟩
  · intro d member m member' opens
    exact back.first m member' opens.2
  · intro t member
    rw [List.head?_append, Option.mem_def, Option.or_eq_some_iff] at member
    rcases member with member | ⟨_, member⟩
    · exact front.first t member
    · exact back.first t member
  · intro t member
    rw [List.getLast?_append, Option.mem_def, Option.or_eq_some_iff] at member
    rcases member with member | ⟨_, member⟩
    · exact back.last t member
    · exact front.last t member

theorem single (other : t.kind ≠ .mult ∧ t.kind ≠ .div) : Apart [t] :=
  ⟨.singleton t, by simpa using other.1, by simpa using other.2⟩

theorem cons {kind : Kind} (is : t.kind = kind) (back : Apart us)
    (other : kind ≠ .mult ∧ kind ≠ .div := by decide) : Apart (t :: us) :=
  append (single (is ▸ other)) back

/-- Operands on both sides keep any token between them apart. -/
theorem around (front : Apart us) (back : Apart ts) (left : us ≠ []) (right : ts ≠ [])
    (o : Token) : Apart (us ++ o :: ts) := by
  refine ⟨List.isChain_append.mpr ⟨front.inside, ?_, ?_⟩, ?_, ?_⟩
  · refine List.isChain_cons.mpr ⟨fun m member opens => ?_, back.inside⟩
    exact back.first m member opens.2
  · intro d member m _ opens
    exact front.last d member opens.1
  · intro t member
    rw [List.head?_append_of_ne_nil _ left] at member
    exact front.first t member
  · intro t member
    rw [List.getLast?_append_of_ne_nil _ (List.cons_ne_nil o ts),
      List.getLast?_cons_of_ne_nil right] at member
    exact back.last t member

theorem of_separators (separators : Separators us) : Apart us := by
  induction us with
  | nil => exact nil
  | cons s us ih =>
    obtain ⟨separator, further⟩ := List.forall_mem_cons.mp separators
    exact append (single (by cases kind : s.kind <;> simp_all [Kind.isSeparator])) (ih further)

theorem of_furtherParameters {ps : List String} (further : FurtherParameters ps us) :
    Apart us := by
  induction further with
  | done => exact nil
  | more comma symbol _ ih => exact .cons comma (.cons symbol ih)

theorem of_parameters {ps : List String} (parameters : Parameters ps us) : Apart us := by
  cases parameters with
  | none open_ close => exact .cons open_ (.cons close nil)
  | some open_ symbol further close =>
    exact .cons open_ (.cons symbol (.append (of_furtherParameters further) (.cons close nil)))

theorem of_furtherNames {names : List String} (further : FurtherNames names us) : Apart us := by
  induction further with
  | done => exact nil
  | more separators _ symbol _ ih => exact .append (of_separators separators) (.cons symbol ih)

end Apart

theorem Derives.apart {phrase : Phrase} {us : List Token} (derived : Derives phrase us) :
    Apart us := by
  induction derived with
  | statements _ _ first others => exact .append first others
  | noFurtherStatements | noStatement | noExpression | noFurtherElements => exact .nil
  | @furtherStatements s _ _ _ _ separator _ _ first others =>
    have front : Apart [s] := .of_separators (List.forall_mem_singleton.mpr separator)
    exact front.append (.append first others)
  | someStatement _ ih | someExpression _ ih | tighter _ ih | operand _ ih | bare _ ih
  | bangless _ ih | accessless _ ih | block _ ih | access _ _ _ ih | plain _ _ ih => exact ih
  | body open_ _ close ih => exact .cons open_ (.append ih (.cons close .nil))
  | function keyword symbol parameters _ ih =>
    exact .cons keyword (.cons symbol (.append (.of_parameters parameters) ih))
  | @guarded _ _ _ guard _ _ _ _ keyword open_ _ close _ test body =>
    have other : guard.word ≠ .mult ∧ guard.word ≠ .div := by cases guard <;> decide
    exact .cons keyword (.cons open_ (.append test (.cons close body))) other
  | loop keyword open_ _ sep _ sep' _ close _ init test step body =>
    exact .cons keyword (.cons open_ (.append init (.cons sep (.append test
      (.cons sep' (.append step (.cons close body)))))))
  | binding keyword symbol assign _ ih =>
    exact .cons keyword (.cons symbol (.cons assign ih))
  | enumeration keyword open_ front symbol further back close =>
    exact .cons keyword (.cons open_ (.append (.of_separators front) (.cons symbol
      (.append (.of_furtherNames further) (.append (.of_separators back) (.cons close .nil))))))
  | result keyword _ ih => exact .cons keyword ih
  | assignment symbol assign _ ih => exact .cons symbol (.cons assign ih)
  | jump jumps => exact .cons jumps.kind .nil
  | binary first _ second left right =>
    obtain ⟨_, _, rfl, _⟩ := first.starts
    obtain ⟨_, _, rfl, _⟩ := second.starts
    exact .around left right (by simp) (by simp) _
  | @front o op n ts kind _ ih =>
    refine .append (.single ?_) ih
    cases op <;> simp [UnaryOp.frontKind?] at kind <;> simp [← kind]
  | bangs is _ ih | bang is _ ih => exact .cons is ih
  | @back t o op leaf kind =>
    refine .append (.single ?_) (.single ?_)
    · cases is : t.kind <;> simp_all [Kind.isLeaf]
    · cases op <;> simp [UnaryOp.backKind?] at kind <;> simp [← kind]
  | member _ period _ left right => exact .append left (.cons period right)
  | index _ bracket _ left right => exact .append left right
  | @leaf t leaf =>
    refine .single ?_
    cases is : t.kind <;> simp_all [Kind.isLeaf]
  | emptyList open_ close => exact .cons open_ (.cons close .nil)
  | list open_ _ _ close first others =>
    exact .cons open_ (.append first (.append others (.cons close .nil)))
  | lambda arrow parameters _ ih => exact .cons arrow (.append (.of_parameters parameters) ih)
  | furtherElements comma _ _ first others => exact .cons comma (.append first others)

end BracketScript
