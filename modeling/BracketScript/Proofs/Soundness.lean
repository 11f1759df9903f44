import BracketScript.Proofs.Demand

/-! Soundness of the parser, by induction on the tokens. A run that succeeds meets the demand of the
state it starts from, because a move meets it if the next state has its own demand met. -/
namespace BracketScript
open Token (vocabulary)

section

variable (nodes : List Tree) (rest : List Token)

/-- Every successful run over the tokens meets the demand of its state. -/
def Sound (ts : List Token) : Prop :=
  ∀ config, Ordered config.frames → config.run vocabulary ts = (.ok nodes, rest) →
    Completes nodes rest config ts

def SoundBehind (ts : List Token) : Prop := ∀ t us, ts = t :: us → Sound nodes rest us

/-- Delivered nodes of a fitting level meet the demand of the frames. -/
def Meets (frames : List (Frame String Token)) (ts : List Token) : Prop :=
  ∀ level n, Fits frames level → (vocabulary.ahead ts).EndsLevel level →
    Frame.arrive vocabulary n frames ts = (.ok nodes, rest) → Closes nodes rest frames level n ts

end

variable {nodes : List Tree} {rest ts : List Token} {frames : List (Frame String Token)}

theorem Meets.deliver (meets : Meets nodes rest frames ts) {n : Option Tree}
    (ran : Frame.arrive vocabulary n frames ts = (.ok nodes, rest)) :
    Closes nodes rest frames 7 n ts :=
  meets 7 n (fits_operand frames) (fun tier _ _ => tier.leftLevel_le) ran

namespace SoundBehind

theorem shift (behind : SoundBehind nodes rest ts) {next : Token → Config String Token}
    (ran : (Move.shift next).resume vocabulary ts = (.ok nodes, rest))
    (ordered : ∀ t, Ordered (next t).frames) :
    ∃ t us, ts = t :: us ∧ Completes nodes rest (next t) us := by
  obtain ⟨t, us, same, ran⟩ := Move.resume_shift_ok_iff.mp ran
  exact ⟨t, us, same, behind t us same _ (ordered t) ran⟩

theorem skip (behind : SoundBehind nodes rest ts) {focus : Focus String Token}
    (ordered : Ordered frames)
    (ran : (Move.skip focus frames).resume vocabulary ts = (.ok nodes, rest)) :
    ∃ t us, ts = t :: us ∧ Completes nodes rest ⟨focus, frames⟩ us :=
  behind.shift ran fun _ => ordered

theorem awaitBody (behind : SoundBehind nodes rest ts) {header : Header String Token}
    (ordered : Ordered frames)
    (ran : (Frame.awaitBody header frames).resume vocabulary ts = (.ok nodes, rest)) :
    ∃ t us, ts = t :: us ∧ ReadsThen header.Reads (Closes nodes rest frames 7) us := by
  obtain ⟨t, us, same, complete⟩ := behind.skip ((ordered_cons_iff (.inl rfl)).mpr ordered) ran
  exact ⟨t, us, same, complete.body⟩

theorem openList (behind : SoundBehind nodes rest ts) (ordered : Ordered frames)
    (bracket : (vocabulary.ahead ts).kind = .leftBracket)
    (ran : (Frame.openList frames).resume vocabulary ts = (.ok nodes, rest)) :
    ∃ l m us us', ts = l :: (us ++ us') ∧ l.kind = .leftBracket ∧ Derives (.atom m) (l :: us) ∧
      Closes nodes rest frames 7 (some m) us' := by
  have inner : Ordered (.expression :: .list [] :: frames) := by
    rwa [ordered_cons_iff (.inr rfl), ordered_cons_iff (.inl rfl)]
  obtain ⟨l, us, rfl, complete⟩ := behind.skip inner ran
  obtain ⟨m, us, us', rfl, derived, closes⟩ := complete.list bracket
  exact ⟨l, m, us, us', rfl, bracket, derived, closes⟩

/-- The step on an operator that takes the delivered node. -/
theorem operator (behind : SoundBehind nodes rest ts) {tier : Tier} {op : BinaryOp} {n : Tree}
    (ordered : Ordered (.binary tier op n :: frames))
    (operator : (vocabulary.ahead ts).operator = some (tier, op))
    (ran : (Move.skip .operand (.binary tier op n :: frames)).resume vocabulary ts =
      (.ok nodes, rest)) :
    ∃ o right us us', ts = o :: (us ++ us') ∧ o.Operates tier op ∧
      Derives (.expression tier.rightLevel right) us ∧
      Closes nodes rest frames tier.level (some (.binary op n right)) us' := by
  obtain ⟨o, us, rfl, complete⟩ := behind.skip ordered ran
  obtain ⟨us, us', u, rfl, read, m, right, vs, vs', rfl, rfl, further, closes⟩ := complete
  refine ⟨o, right, us ++ vs, vs', by simp, Token.operator?_eq_some_iff.mp operator, ?_, closes⟩
  exact further.derives (.operand read)

/-! Arrivals, frame by frame. -/

theorem meets_wrap {w : Wrapper String Token} (outer : Meets nodes rest frames ts) :
    Meets nodes rest (.wrap w :: frames) ts := by
  intro _ _ _ _ ran
  obtain ⟨m, rfl, given⟩ := Move.resume_given_ok_iff.mp ran
  exact ⟨m, rfl, outer.deliver given⟩

theorem meets_binary (behind : SoundBehind nodes rest ts) {tier : Tier}
    {op : BinaryOp} {left : Tree} (ordered : Ordered (.binary tier op left :: frames))
    (outer : Meets nodes rest frames ts) :
    Meets nodes rest (.binary tier op left :: frames) ts := by
  intro level n fits taken ran
  obtain ⟨m, rfl, given⟩ := Move.resume_given_ok_iff.mp ran
  have loose : tier.rightLevel ≤ level := fits _ rfl
  split at given
  · next next nextOp takes =>
    obtain ⟨operator, yields⟩ := Option.filter_eq_some_iff.mp takes
    have under := (Tier.yieldsTo_iff _ _).mp yields
    have fitting : Fits (.binary tier op left :: frames) next.level := by
      rintro _ ⟨⟩
      exact under
    obtain ⟨o, right, us, us', rfl, operates, derived, closes⟩ :=
      behind.operator ⟨fitting, ordered⟩ operator given
    obtain ⟨_, whole, vs, vs', ⟨⟩, rfl, further, closes⟩ := closes
    exact ⟨m, whole, o :: (us ++ vs), vs', rfl, by simp,
      .more operates (taken _ _ operator) derived further, closes⟩
  · next kept =>
    have reduced : (vocabulary.ahead ts).EndsLevel tier.level := by
      intro next nextOp operator
      refine (Tier.leftLevel_le_iff _ _).mpr fun yields => ?_
      have := Option.filter_eq_none_iff.mp kept _ operator
      exact this yields
    exact ⟨m, m, [], ts, rfl, rfl, .done loose, outer _ _ ordered.1 reduced given⟩

theorem meets_expression (behind : SoundBehind nodes rest ts)
    (ordered : Ordered (.expression :: frames)) (outer : Meets nodes rest frames ts) :
    Meets nodes rest (.expression :: frames) ts := by
  intro level n fits taken ran
  simp only [Frame.arrive, Frame.deliver] at ran
  split at ran
  · next tier op operator =>
    obtain ⟨m, rfl, given⟩ := Move.resume_given_ok_iff.mp ran
    have fitting : Fits (.expression :: frames) tier.level := by
      rintro _ ⟨⟩
      exact tier.level_pos
    obtain ⟨o, right, us, us', rfl, operates, derived, closes⟩ :=
      behind.operator ⟨fitting, ordered⟩ operator given
    obtain ⟨whole, vs, vs', rfl, further, closes⟩ := closes
    exact ⟨whole, o :: (us ++ vs), vs', by simp,
      .more operates (taken _ _ operator) derived further, closes⟩
  · have closes := outer.deliver ran
    cases n with
    | none => exact closes
    | some m => exact ⟨m, [], ts, rfl, .done (fits _ rfl), closes⟩

theorem meets_list (behind : SoundBehind nodes rest ts) (below : Ordered frames)
    (before : List Tree) :
    Meets nodes rest (.list before :: frames) ts := by
  intro level n fits taken ran
  simp only [Frame.arrive, Frame.deliver] at ran
  split at ran
  · next absent =>
    simp only [Option.isNone_iff_eq_none, List.isEmpty_iff, Bool.and_eq_true] at absent
    obtain ⟨rfl, rfl⟩ := absent
    obtain ⟨close, moved⟩ := Move.resume_when_ok_iff.mp ran
    obtain ⟨r, us, rfl, complete⟩ := behind.skip below moved
    exact ⟨rfl, r, us, rfl, close, complete⟩
  · obtain ⟨m, rfl, given⟩ := Move.resume_given_ok_iff.mp ran
    split at given
    · next comma =>
      have inner : Ordered (.expression :: .list (before ++ [m]) :: frames) := by
        rw [ordered_cons_iff (.inr rfl), ordered_cons_iff (.inl rfl)]
        exact below
      obtain ⟨c, us, rfl, complete⟩ := behind.skip inner given
      obtain ⟨n, vs, vs', rfl, derived, closes⟩ := complete.element (by simp)
      obtain ⟨ns, ws, r, ws', rfl, further, close, read⟩ := closes
      refine ⟨n :: ns, c :: (vs ++ ws), r, ws', by simp, ?_, close, by simpa using read⟩
      exact .furtherElements comma derived further
    · obtain ⟨close, moved⟩ := Move.resume_when_ok_iff.mp given
      obtain ⟨r, us, rfl, complete⟩ := behind.skip below moved
      exact ⟨[], [], r, us, rfl, .noFurtherElements, close, complete⟩

theorem meets_condition (behind : SoundBehind nodes rest ts) (below : Ordered frames)
    (guard : Guard) :
    Meets nodes rest (.condition guard :: frames) ts := by
  intro level n fits taken ran
  obtain ⟨m, rfl, given⟩ := Move.resume_given_ok_iff.mp ran
  obtain ⟨close, moved⟩ := Move.resume_when_ok_iff.mp given
  obtain ⟨r, us, rfl, read⟩ := behind.awaitBody below moved
  exact ⟨m, r, us, rfl, rfl, close, read⟩

theorem meets_loopInit (behind : SoundBehind nodes rest ts) (below : Ordered frames) :
    Meets nodes rest (.loopInit :: frames) ts := by
  intro level n fits taken ran
  obtain ⟨separator, moved⟩ := Move.resume_when_ok_iff.mp ran
  have inner : Ordered (.expression :: .loopCondition n :: frames) := by
    rw [ordered_cons_iff (.inr rfl), ordered_cons_iff (.inl rfl)]
    exact below
  obtain ⟨s, us, rfl, complete⟩ := behind.skip inner moved
  obtain ⟨vs, vs', test, rfl, derived, closes⟩ := complete.expressionOption
  exact ⟨s, vs, vs', test, rfl, separator, derived, closes⟩

theorem meets_loopCondition (behind : SoundBehind nodes rest ts) (below : Ordered frames)
    (init : Option Tree) :
    Meets nodes rest (.loopCondition init :: frames) ts := by
  intro level n fits taken ran
  obtain ⟨separator, moved⟩ := Move.resume_when_ok_iff.mp ran
  obtain ⟨s, us, rfl, complete⟩ := behind.skip ((ordered_cons_iff (.inl rfl)).mpr below) moved
  obtain ⟨vs, vs', step, rfl, derived, closes⟩ := complete
  exact ⟨s, vs, vs', step, rfl, separator, derived, closes⟩

theorem meets_loopStep (behind : SoundBehind nodes rest ts) (below : Ordered frames)
    (init test : Option Tree) :
    Meets nodes rest (.loopStep init test :: frames) ts := by
  intro level n fits taken ran
  obtain ⟨close, moved⟩ := Move.resume_when_ok_iff.mp ran
  obtain ⟨r, us, rfl, read⟩ := behind.awaitBody below moved
  exact ⟨r, us, rfl, close, read⟩

theorem meets_body (behind : SoundBehind nodes rest ts) (below : Ordered frames)
    (header : Header String Token) (before : List Tree) :
    Meets nodes rest (.body header before :: frames) ts := by
  intro level n fits taken ran
  simp only [Frame.arrive, Frame.deliver] at ran
  split at ran
  · next separator =>
    obtain ⟨s, us, rfl, complete⟩ := behind.skip ((ordered_cons_iff (.inl rfl)).mpr below) ran
    obtain ⟨vs, vs', n', rfl, derived, ns, ws, r, ws', rfl, further, close, read⟩ := complete
    refine ⟨n'.toList ++ ns, s :: (vs ++ ws), r, ws', by simp, ?_, close, by simpa using read⟩
    exact .furtherStatements separator derived further
  · obtain ⟨close, moved⟩ := Move.resume_when_ok_iff.mp ran
    obtain ⟨r, us, rfl, complete⟩ := behind.skip below moved
    refine ⟨[], [], r, us, rfl, .noFurtherStatements, close, ?_⟩
    rw [List.append_nil]
    exact complete.closed

theorem meets_program (behind : SoundBehind nodes rest ts) (below : Ordered frames)
    (before : List Tree) :
    Meets nodes rest (.program before :: frames) ts := by
  intro level n fits taken ran
  simp only [Frame.arrive, Frame.deliver] at ran
  split at ran
  · next separator =>
    obtain ⟨s, us, rfl, complete⟩ := behind.skip ((ordered_cons_iff (.inl rfl)).mpr below) ran
    obtain ⟨vs, vs', n', rfl, derived, ns, ws, rfl, further, ended, same⟩ := complete
    refine ⟨n'.toList ++ ns, s :: (vs ++ ws), by simp, ?_, ended, by simpa using same⟩
    exact .furtherStatements separator derived further
  · obtain ⟨ended, moved⟩ := Move.resume_when_ok_iff.mp ran
    cases moved
    exact ⟨[], [], rfl, .noFurtherStatements, ended, by rw [List.append_nil]⟩

/-- By induction on the frames, every delivered node meets their demands. -/
theorem meets (behind : SoundBehind nodes rest ts) (ordered : Ordered frames) :
    Meets nodes rest frames ts := by
  induction frames with
  | nil =>
    intro _ _ _ _ ran
    cases ran
    exact ⟨rfl, rfl⟩
  | cons frame frames ih =>
    have below : Ordered frames := ordered.tail
    cases frame with
    | wrap w => exact meets_wrap (ih below)
    | binary tier op left => exact behind.meets_binary ordered (ih below)
    | expression => exact behind.meets_expression ordered (ih below)
    | list before => exact behind.meets_list below before
    | condition guard => exact behind.meets_condition below guard
    | loopInit => exact behind.meets_loopInit below
    | loopCondition init => exact behind.meets_loopCondition below init
    | loopStep init test => exact behind.meets_loopStep below init test
    | body header before => exact behind.meets_body below header before
    | program before => exact behind.meets_program below before

theorem deliver (behind : SoundBehind nodes rest ts) (ordered : Ordered frames) {n : Option Tree}
    (ran : Frame.arrive vocabulary n frames ts = (.ok nodes, rest)) :
    Closes nodes rest frames 7 n ts :=
  (behind.meets ordered).deliver ran

theorem front (behind : SoundBehind nodes rest ts) {op : UnaryOp} (ordered : Ordered frames)
    (kind : op.frontKind? = some (vocabulary.ahead ts).kind)
    (ran : (Move.skip (.atom false) (.wrap (.unary op) :: frames)).resume vocabulary ts =
      (.ok nodes, rest)) : Completes nodes rest ⟨.operand, frames⟩ ts := by
  obtain ⟨o, us, rfl, complete⟩ := behind.skip ((ordered_cons_iff (.inl rfl)).mpr ordered) ran
  obtain ⟨us, us', _, rfl, read, m, rfl, closes⟩ := complete
  exact ⟨o :: us, us', some (.unary op m), rfl, .front kind read, closes⟩

theorem bangs (behind : SoundBehind nodes rest ts) (ordered : Ordered frames)
    (kind : (vocabulary.ahead ts).kind = .bang)
    (ran : (Move.skip (.atom true) (.wrap (.unary .bang) :: frames)).resume vocabulary ts =
      (.ok nodes, rest)) :
    ∃ o us us' m, ts = o :: (us ++ us') ∧ o.kind = .bang ∧ Derives (.banged m) us ∧
      Closes nodes rest frames 7 (some (.unary .bang m)) us' := by
  obtain ⟨o, us, rfl, complete⟩ := behind.skip ((ordered_cons_iff (.inl rfl)).mpr ordered) ran
  obtain ⟨us, us', _, rfl, read, m, rfl, closes⟩ := complete
  exact ⟨o, us, us', m, rfl, kind, read, closes⟩

/-- The step on a leaf, on a bracket or keyword of an atom, and on anything else. -/
theorem startAtom (behind : SoundBehind nodes rest ts) {leaf : Token → Focus String Token}
    (ordered : Ordered frames)
    (ran : (Frame.startAtom (vocabulary.ahead ts) leaf frames).resume vocabulary ts =
      (.ok nodes, rest)) :
    (∃ t us, ts = t :: us ∧ t.kind.isLeaf = true ∧ Completes nodes rest ⟨leaf t, frames⟩ us) ∨
    (∃ m us us', ts = us ++ us' ∧ Derives (.atom m) us ∧ Closes nodes rest frames 7 (some m) us') ∨
    Closes nodes rest frames 7 none ts := by
  unfold Frame.startAtom at ran
  split at ran
  · next is =>
    obtain ⟨t, us, rfl, complete⟩ := behind.shift ran fun _ => ordered
    exact .inl ⟨t, us, rfl, is, complete⟩
  · split at ran
    · next bracket =>
      obtain ⟨l, m, us, us', rfl, _, derived, closes⟩ := behind.openList ordered bracket ran
      exact .inr (.inl ⟨m, l :: us, us', rfl, derived, closes⟩)
    · next arrow =>
      obtain ⟨a, us, rfl, complete⟩ := behind.skip ordered ran
      obtain ⟨l, us, rfl, open_, us, us', n, rfl, reads, closes⟩ := complete.await
      obtain ⟨ps, ts, vs, same, parameters, body, vs', vs'', rfl, derived, m, rfl, access⟩ :=
        reads.parameters open_
      refine .inr (.inl ⟨m, a :: (ts ++ vs') ++ vs'', us', ?_, ?_, closes⟩)
      · rw [← List.cons_append, same]
        simp
      · exact access _ (.lambda arrow parameters derived)
    · exact .inr (.inr (behind.deliver ordered ran))

theorem startOperand (behind : SoundBehind nodes rest ts) (ordered : Ordered frames)
    (ran : (Frame.startOperand (vocabulary.ahead ts) frames).resume vocabulary ts =
      (.ok nodes, rest)) : Completes nodes rest ⟨.operand, frames⟩ ts := by
  unfold Frame.startOperand at ran
  split at ran
  · next kind => exact behind.front ordered (by rw [kind]; rfl) ran
  · next kind =>
    obtain ⟨o, us, us', m, rfl, is, derived, closes⟩ := behind.bangs ordered kind ran
    exact ⟨o :: us, us', some (.unary .bang m), rfl, .bangs is derived, closes⟩
  · next kind => exact behind.front ordered (by rw [kind]; rfl) ran
  · next kind => exact behind.front ordered (by rw [kind]; rfl) ran
  · rcases behind.startAtom ordered ran with
      ⟨t, _, rfl, leaf, us, us', n, rfl, reads, closes⟩ |
      ⟨m, us, us', rfl, derived, closes⟩ | closes
    · obtain ⟨m, rfl, derived⟩ := reads leaf
      exact ⟨t :: us, us', some m, rfl, derived, closes⟩
    · exact ⟨us, us', some m, rfl, .bare derived, closes⟩
    · exact ⟨[], ts, none, rfl, rfl, closes⟩

theorem atom (behind : SoundBehind nodes rest ts) (ordered : Ordered frames) {bangs : Bool}
    (ran : ((⟨.atom bangs, frames⟩ : Config String Token).step vocabulary.name
      (vocabulary.ahead ts)).resume vocabulary ts = (.ok nodes, rest)) :
    Completes nodes rest ⟨.atom bangs, frames⟩ ts := by
  have bare {m : Tree} {us : List Token} (derived : Derives (.atom m) us) :
      Optionally (if bangs then .banged else .atom) (some m) us := by
    cases bangs
    · exact derived
    · exact Derives.bangless derived
  simp only [Config.step] at ran
  split at ran
  · next bang =>
    simp only [Bool.and_eq_true, beq_iff_eq] at bang
    obtain ⟨rfl, kind⟩ := bang
    obtain ⟨o, us, us', m, rfl, is, derived, closes⟩ := behind.bangs ordered kind ran
    exact ⟨o :: us, us', some (.unary .bang m), rfl, .bang is derived, closes⟩
  · rcases behind.startAtom ordered ran with
      ⟨t, _, rfl, leaf, us, us', n, rfl, ⟨m, rfl, access⟩, closes⟩ |
      ⟨m, us, us', rfl, derived, closes⟩ | closes
    · exact ⟨t :: us, us', some m, rfl, bare (access [t] (.leaf leaf)), closes⟩
    · exact ⟨us, us', some m, rfl, bare derived, closes⟩
    · exact ⟨[], ts, none, rfl, rfl, closes⟩

theorem access (behind : SoundBehind nodes rest ts) (ordered : Ordered frames) {p : Tree}
    (starts : (vocabulary.ahead ts).kind = .leftBracket ∨ (vocabulary.ahead ts).kind = .period)
    (ran : (Frame.afterPrimary (vocabulary.ahead ts) p frames).resume vocabulary ts =
      (.ok nodes, rest)) :
    ∃ d m us us', ts = d :: (us ++ us') ∧
      (∀ vs, Derives (.primary p) vs → Derives (.atom m) (vs ++ d :: us)) ∧
      Closes nodes rest frames 7 (some m) us' := by
  have inner : Ordered (.wrap (.key p) :: frames) := (ordered_cons_iff (.inl rfl)).mpr ordered
  rcases starts with kind | kind <;> simp only [Frame.afterPrimary, kind] at ran
  · obtain ⟨l, key, us, us', rfl, bracket, derived, _, ⟨⟩, closes⟩ :=
      behind.openList inner kind ran
    exact ⟨l, .access p [key], us, us', rfl, fun vs read => .index read bracket derived, closes⟩
  · obtain ⟨d, _, rfl, us, us', _, rfl, derived, key, rfl, closes⟩ := behind.skip inner ran
    exact ⟨d, .access p [key], us, us', rfl, fun vs read => .member read kind derived, closes⟩

theorem afterPrimary (behind : SoundBehind nodes rest ts) (ordered : Ordered frames) {p : Tree}
    (ran : (Frame.afterPrimary (vocabulary.ahead ts) p frames).resume vocabulary ts =
      (.ok nodes, rest)) : Completes nodes rest ⟨.primary p, frames⟩ ts := by
  by_cases starts : (vocabulary.ahead ts).kind = .leftBracket ∨ (vocabulary.ahead ts).kind = .period
  · obtain ⟨d, m, us, us', rfl, derives, closes⟩ := behind.access ordered starts ran
    exact ⟨d :: us, us', some m, rfl, ⟨m, rfl, derives⟩, closes⟩
  · obtain ⟨bracket, period⟩ := not_or.mp starts
    simp only [Frame.afterPrimary] at ran
    have closes := behind.deliver ordered ran
    refine ⟨[], ts, some p, rfl, ⟨p, rfl, fun vs read => ?_⟩, closes⟩
    rw [List.append_nil]
    exact .accessless read

theorem afterLeaf (behind : SoundBehind nodes rest ts) (ordered : Ordered frames) {t : Token}
    (ran : (Frame.afterLeaf (vocabulary.ahead ts) t frames).resume vocabulary ts =
      (.ok nodes, rest)) : Completes nodes rest ⟨.leaf t, frames⟩ ts := by
  have back {op : UnaryOp} (kind : op.backKind? = some (vocabulary.ahead ts).kind)
      (ran : (Move.skip (.whole (.unary op (.leaf t))) frames).resume vocabulary ts =
        (.ok nodes, rest)) : Completes nodes rest ⟨.leaf t, frames⟩ ts := by
    obtain ⟨o, _, rfl, _, us', _, rfl, ⟨rfl, rfl⟩, closes⟩ := behind.skip ordered ran
    exact ⟨[o], us', some (.unary op (.leaf t)), rfl, fun leaf => ⟨_, rfl, .back leaf kind⟩, closes⟩
  unfold Frame.afterLeaf at ran
  split at ran
  · next kind => exact back (by rw [kind]; rfl) ran
  · next kind => exact back (by rw [kind]; rfl) ran
  · obtain ⟨us, us', n, rfl, ⟨m, rfl, access⟩, closes⟩ := behind.afterPrimary ordered ran
    exact ⟨us, us', some m, rfl, fun leaf => ⟨m, rfl, .bare (access [t] (.leaf leaf))⟩, closes⟩

theorem afterSymbol (behind : SoundBehind nodes rest ts) (ordered : Ordered frames) {t : Token}
    {jump : Option Jump}
    (ran : (Frame.afterSymbol (vocabulary.ahead ts) t jump frames).resume vocabulary ts =
      (.ok nodes, rest)) : Completes nodes rest ⟨.symbol t jump, frames⟩ ts := by
  have accessed (starts : (vocabulary.ahead ts).kind = .leftBracket ∨
      (vocabulary.ahead ts).kind = .period)
      (ran : (Frame.afterPrimary (vocabulary.ahead ts) (.leaf t) frames).resume vocabulary ts =
        (.ok nodes, rest)) : Completes nodes rest ⟨.symbol t jump, frames⟩ ts := by
    obtain ⟨d, m, us, us', rfl, derives, closes⟩ := behind.access ordered starts ran
    refine ⟨d :: us, us', some m, rfl, fun symbol _ => ⟨m, rfl, ?_⟩, closes⟩
    exact .access symbol starts (derives [t] (.leaf (by simp [symbol, Kind.isLeaf])))
  unfold Frame.afterSymbol at ran
  split at ran
  · next kind => exact accessed (.inr kind) ran
  · next kind => exact accessed (.inl kind) ran
  · next assign =>
    have inner : Ordered (.expression :: .wrap (.assignment t) :: frames) := by
      rwa [ordered_cons_iff (.inr rfl), ordered_cons_iff (.inl rfl)]
    obtain ⟨a, _, rfl, complete⟩ := behind.skip inner ran
    obtain ⟨value, us, us', rfl, derived, closes⟩ := complete.wrapped
    exact ⟨a :: us, us', some (.assignment t value), rfl,
      fun symbol _ => ⟨_, rfl, .assignment symbol assign derived⟩, closes⟩
  · next period bracket assign =>
    cases jump with
    | some j =>
      have closes := behind.deliver ordered ran
      exact ⟨[], ts, some (.jump j), rfl,
        fun _ same => ⟨_, rfl, .jump (Token.jump?_eq_some_iff.mp same)⟩, closes⟩
    | none =>
      have inner : Ordered (.expression :: frames) := (ordered_cons_iff (.inr rfl)).mpr ordered
      obtain ⟨us, us', n, rfl, reads, closes⟩ := behind.afterLeaf inner ran
      have leaf (symbol : t.kind = .symbol) : t.kind.isLeaf = true := by rw [symbol]; rfl
      cases n with
      | none =>
        refine ⟨us, us', none, rfl, fun symbol _ => ?_, closes⟩
        obtain ⟨_, ⟨⟩, _⟩ := reads (leaf symbol)
      | some m =>
        obtain ⟨whole, vs, vs', rfl, further, closes⟩ := closes
        refine ⟨us ++ vs, vs', some whole, by simp, fun symbol same => ⟨whole, rfl, ?_⟩, closes⟩
        obtain ⟨_, ⟨⟩, derived⟩ := reads (leaf symbol)
        refine .plain (further.derives (.operand derived)) ⟨by simp [symbol], fun _ => ⟨?_, ?_⟩⟩
        · intro j jumps
          cases (Token.jump?_eq_some_iff.mpr jumps).symm.trans same
        · intro d first
          rw [← List.append_assoc, Token.ahead_append first] at period bracket assign
          exact ⟨bracket, period, assign⟩

/-! Statements by their first tokens. -/

theorem symbol (behind : SoundBehind nodes rest ts) (ordered : Ordered frames)
    (symbol : (vocabulary.ahead ts).kind = .symbol)
    (ran : (Move.shift fun t => ⟨.symbol t (vocabulary.ahead ts).jump, frames⟩).resume
      vocabulary ts = (.ok nodes, rest)) : Completes nodes rest ⟨.statement, frames⟩ ts := by
  obtain ⟨t, _, rfl, us, us', n, rfl, reads, closes⟩ := behind.shift ran fun _ => ordered
  obtain ⟨m, rfl, derived⟩ := reads symbol rfl
  exact ⟨t :: us, us', some m, rfl, .someStatement derived, closes⟩

theorem function (behind : SoundBehind nodes rest ts) (ordered : Ordered frames)
    (keyword : (vocabulary.ahead ts).kind = .funcWord)
    (ran : (Move.skip .functionName frames).resume vocabulary ts = (.ok nodes, rest)) :
    Completes nodes rest ⟨.statement, frames⟩ ts := by
  obtain ⟨f, _, rfl, _, us', n, rfl, ⟨t, l, us, rfl, symbol, open_, reads⟩, closes⟩ :=
    behind.skip ordered ran
  obtain ⟨ps, vs, ws, same, parameters, body, vs', _, rfl, derived, rfl, rfl⟩ :=
    reads.parameters open_
  refine ⟨f :: t :: (vs ++ vs'), us', some (.function t.payload.display ps body), ?_,
    .someStatement (.function keyword symbol parameters derived), closes⟩
  simp [same]

theorem guarded (behind : SoundBehind nodes rest ts) (ordered : Ordered frames)
    (guard : Guard) (keyword : (vocabulary.ahead ts).kind = guard.word)
    (ran : (Move.skip (.await .leftBracket .operand)
      (.expression :: .condition guard :: frames)).resume vocabulary ts = (.ok nodes, rest)) :
    Completes nodes rest ⟨.statement, frames⟩ ts := by
  have inner : Ordered (.expression :: .condition guard :: frames) := by
    rwa [ordered_cons_iff (.inr rfl), ordered_cons_iff (.inl rfl)]
  obtain ⟨w, _, rfl, complete⟩ := behind.skip inner ran
  obtain ⟨l, _, rfl, open_, complete⟩ := complete.await
  obtain ⟨us, _, n, rfl, read, test, r, _, rfl, rfl, close, _, us', m, rfl,
    ⟨body, vs, _, rfl, derived, rfl, rfl⟩, closes⟩ := complete.expressionOption
  cases read with
  | someExpression read =>
    exact ⟨w :: l :: (us ++ r :: vs), us', some (.guarded guard test body), by simp,
      .someStatement (.guarded keyword open_ read close derived), closes⟩

theorem loop (behind : SoundBehind nodes rest ts) (ordered : Ordered frames)
    (keyword : (vocabulary.ahead ts).kind = .forWord)
    (ran : (Move.skip (.await .leftBracket .statement) (.loopInit :: frames)).resume vocabulary ts =
      (.ok nodes, rest)) : Completes nodes rest ⟨.statement, frames⟩ ts := by
  obtain ⟨f, _, rfl, complete⟩ := behind.skip ((ordered_cons_iff (.inl rfl)).mpr ordered) ran
  obtain ⟨l, _, rfl, open_, complete⟩ := complete.await
  obtain ⟨us, _, init, rfl, read, s, vs, _, test, rfl, sep, tested, s', ws, _, step, rfl, sep',
    stepped, r, _, rfl, close, _, us', n, rfl, ⟨body, xs, _, rfl, derived, rfl, rfl⟩, closes⟩ :=
    complete
  exact ⟨f :: l :: (us ++ s :: (vs ++ s' :: (ws ++ r :: xs))), us',
    some (.loop init test step body), by simp,
    .someStatement (.loop keyword open_ read sep tested sep' stepped close derived), closes⟩

theorem binding (behind : SoundBehind nodes rest ts) (ordered : Ordered frames)
    (keyword : (vocabulary.ahead ts).kind = .letWord)
    (ran : (Move.skip .bindingName frames).resume vocabulary ts = (.ok nodes, rest)) :
    Completes nodes rest ⟨.statement, frames⟩ ts := by
  obtain ⟨w, _, rfl, _, us', n, rfl, ⟨t, a, us, value, rfl, symbol, assign, derived, rfl⟩,
    closes⟩ := behind.skip ordered ran
  exact ⟨w :: t :: a :: us, us', some (.binding t.payload.display value), rfl,
    .someStatement (.binding keyword symbol assign derived), closes⟩

theorem enumeration (behind : SoundBehind nodes rest ts) (ordered : Ordered frames)
    (keyword : (vocabulary.ahead ts).kind = .enumWord)
    (ran : (Move.skip (.await .leftBracket (.enumGap [])) frames).resume vocabulary ts =
      (.ok nodes, rest)) : Completes nodes rest ⟨.statement, frames⟩ ts := by
  obtain ⟨w, _, rfl, complete⟩ := behind.skip ordered ran
  obtain ⟨l, _, rfl, open_, _, us', n, rfl, ⟨ss, t, _, rfl, front, reads⟩, closes⟩ :=
    complete.await
  rcases reads with ⟨symbol, names, vs, es, r, rfl, further, back, close, rfl⟩ | ⟨nonempty, _⟩
  · exact ⟨w :: l :: (ss ++ t :: (vs ++ (es ++ [r]))), us',
      some (.enumeration (t.payload.display :: names)), by simp,
      .someStatement (.enumeration keyword open_ front symbol further back close), closes⟩
  · contradiction

theorem result (behind : SoundBehind nodes rest ts) (ordered : Ordered frames)
    (keyword : (vocabulary.ahead ts).kind = .returnWord)
    (ran : (Move.skip .operand (.expression :: .wrap .result :: frames)).resume vocabulary ts =
      (.ok nodes, rest)) : Completes nodes rest ⟨.statement, frames⟩ ts := by
  have inner : Ordered (.expression :: .wrap .result :: frames) := by
    rwa [ordered_cons_iff (.inr rfl), ordered_cons_iff (.inl rfl)]
  obtain ⟨w, _, rfl, complete⟩ := behind.skip inner ran
  obtain ⟨value, us, us', rfl, derived, closes⟩ := complete.wrapped
  exact ⟨w :: us, us', some (.result value), rfl, .someStatement (.result keyword derived), closes⟩

theorem block (behind : SoundBehind nodes rest ts) (ordered : Ordered frames)
    (bracket : (vocabulary.ahead ts).kind = .leftBracket)
    (ran : (Move.skip .statement (.body .block [] :: frames)).resume vocabulary ts =
      (.ok nodes, rest)) : Completes nodes rest ⟨.statement, frames⟩ ts := by
  obtain ⟨l, us, rfl, complete⟩ := behind.skip ((ordered_cons_iff (.inl rfl)).mpr ordered) ran
  obtain ⟨us, us', n, rfl, read, closes⟩ := complete
  have complete : Completes nodes rest
      ⟨.await .leftBracket .statement, .body .block [] :: frames⟩ (l :: (us ++ us')) :=
    ⟨l :: us, us', n, rfl, ⟨l, us, rfl, bracket, read⟩, closes⟩
  obtain ⟨_, vs', _, same, ⟨body, vs, _, rfl, derived, rfl, rfl⟩, closes⟩ := complete.body
  rw [same]
  exact ⟨_, vs', some (.block body), rfl,
    .someStatement (.block (by rwa [List.append_nil])), closes⟩

theorem plain (behind : SoundBehind nodes rest ts) (ordered : Ordered frames)
    (symbol : (vocabulary.ahead ts).kind ≠ .symbol)
    (bracket : (vocabulary.ahead ts).kind ≠ .leftBracket)
    (ran : (Frame.startOperand (vocabulary.ahead ts) (.expression :: frames)).resume vocabulary ts =
      (.ok nodes, rest)) : Completes nodes rest ⟨.statement, frames⟩ ts := by
  have complete := behind.startOperand ((ordered_cons_iff (.inr rfl)).mpr ordered) ran
  obtain ⟨us, us', n, rfl, read, closes⟩ := complete.expressionOption
  refine ⟨us, us', n, rfl, ?_, closes⟩
  cases read with
  | noExpression => exact .noStatement
  | someExpression derived =>
    obtain ⟨t, us, rfl, _⟩ := derived.starts
    exact .someStatement (.plain derived ⟨bracket, fun is => absurd is symbol⟩)

theorem startStatement (behind : SoundBehind nodes rest ts) (ordered : Ordered frames)
    (ran : (Frame.startStatement (vocabulary.ahead ts) frames).resume vocabulary ts =
      (.ok nodes, rest)) : Completes nodes rest ⟨.statement, frames⟩ ts := by
  unfold Frame.startStatement at ran
  split at ran
  · next symbol => exact behind.symbol ordered symbol ran
  · next keyword => exact behind.function ordered keyword ran
  · next keyword => exact behind.guarded ordered .ifTrue keyword ran
  · next keyword => exact behind.guarded ordered .whileTrue keyword ran
  · next keyword => exact behind.loop ordered keyword ran
  · next keyword => exact behind.binding ordered keyword ran
  · next keyword => exact behind.enumeration ordered keyword ran
  · next keyword => exact behind.result ordered keyword ran
  · next bracket => exact behind.block ordered bracket ran
  · next symbol _ _ _ _ _ _ _ bracket => exact behind.plain ordered symbol bracket ran

/-! States that wait for a token of one kind, and those of names, parameters and enumerations. -/

theorem await (behind : SoundBehind nodes rest ts) {kind : Kind} {next : Focus String Token}
    (ordered : Ordered frames)
    (ran : ((⟨.await kind next, frames⟩ : Config String Token).step vocabulary.name
      (vocabulary.ahead ts)).resume vocabulary ts = (.ok nodes, rest)) :
    Completes nodes rest ⟨.await kind next, frames⟩ ts := by
  obtain ⟨is, moved⟩ := Move.resume_when_ok_iff.mp ran
  obtain ⟨t, _, rfl, us, us', n, rfl, reads, closes⟩ := behind.skip ordered moved
  exact ⟨t :: us, us', n, rfl, ⟨t, us, rfl, is, reads⟩, closes⟩

theorem functionName (behind : SoundBehind nodes rest ts) (ordered : Ordered frames)
    (ran : ((⟨.functionName, frames⟩ : Config String Token).step vocabulary.name
      (vocabulary.ahead ts)).resume vocabulary ts = (.ok nodes, rest)) :
    Completes nodes rest ⟨.functionName, frames⟩ ts := by
  obtain ⟨symbol, moved⟩ := Move.resume_when_ok_iff.mp ran
  obtain ⟨t, _, rfl, complete⟩ := behind.shift moved fun _ => ordered
  obtain ⟨_, us', n, rfl, ⟨l, us, rfl, open_, reads⟩, closes⟩ := complete
  exact ⟨t :: l :: us, us', n, rfl, ⟨t, l, us, rfl, symbol, open_, reads⟩, closes⟩

theorem bindingName (behind : SoundBehind nodes rest ts) (ordered : Ordered frames)
    (ran : ((⟨.bindingName, frames⟩ : Config String Token).step vocabulary.name
      (vocabulary.ahead ts)).resume vocabulary ts = (.ok nodes, rest)) :
    Completes nodes rest ⟨.bindingName, frames⟩ ts := by
  obtain ⟨symbol, moved⟩ := Move.resume_when_ok_iff.mp ran
  have inner (t : Token) :
      Ordered (.expression :: .wrap (.binding (vocabulary.name t)) :: frames) := by
    rwa [ordered_cons_iff (.inr rfl), ordered_cons_iff (.inl rfl)]
  obtain ⟨t, _, rfl, complete⟩ := behind.shift moved inner
  obtain ⟨a, _, rfl, assign, complete⟩ := complete.await
  obtain ⟨value, us, us', rfl, derived, closes⟩ := complete.wrapped
  exact ⟨t :: a :: us, us', some (.binding t.payload.display value), rfl,
    ⟨t, a, us, value, rfl, symbol, assign, derived, rfl⟩, closes⟩

theorem parameterFirst (behind : SoundBehind nodes rest ts) {owner : Option String}
    (ordered : Ordered frames)
    (ran : ((⟨.parameterFirst owner, frames⟩ : Config String Token).step vocabulary.name
      (vocabulary.ahead ts)).resume vocabulary ts = (.ok nodes, rest)) :
    Completes nodes rest ⟨.parameterFirst owner, frames⟩ ts := by
  simp only [Config.step] at ran
  split at ran
  · next close =>
    obtain ⟨r, _, rfl, us, us', n, rfl, reads, closes⟩ := behind.awaitBody ordered ran
    exact ⟨r :: us, us', n, rfl, .inl ⟨r, us, rfl, close, reads⟩, closes⟩
  · obtain ⟨symbol, moved⟩ := Move.resume_when_ok_iff.mp ran
    obtain ⟨t, _, rfl, us, us', n, rfl, reads, closes⟩ := behind.shift moved fun _ => ordered
    exact ⟨t :: us, us', n, rfl, .inr ⟨t, us, rfl, symbol, reads⟩, closes⟩

theorem parameterNext (behind : SoundBehind nodes rest ts) {owner : Option String}
    {before : List String} (ordered : Ordered frames)
    (ran : ((⟨.parameterNext owner before, frames⟩ : Config String Token).step vocabulary.name
      (vocabulary.ahead ts)).resume vocabulary ts = (.ok nodes, rest)) :
    Completes nodes rest ⟨.parameterNext owner before, frames⟩ ts := by
  obtain ⟨symbol, moved⟩ := Move.resume_when_ok_iff.mp ran
  obtain ⟨t, _, rfl, us, us', n, rfl, reads, closes⟩ := behind.shift moved fun _ => ordered
  exact ⟨t :: us, us', n, rfl, ⟨t, us, rfl, symbol, reads⟩, closes⟩

theorem parameterEnd (behind : SoundBehind nodes rest ts) {owner : Option String}
    {before : List String} (ordered : Ordered frames)
    (ran : ((⟨.parameterEnd owner before, frames⟩ : Config String Token).step vocabulary.name
      (vocabulary.ahead ts)).resume vocabulary ts = (.ok nodes, rest)) :
    Completes nodes rest ⟨.parameterEnd owner before, frames⟩ ts := by
  simp only [Config.step] at ran
  split at ran
  · next comma =>
    obtain ⟨c, _, rfl, _, us', n, rfl, ⟨t, _, rfl, symbol, ps, ts, r, us, rfl, further, close,
      reads⟩, closes⟩ := behind.skip ordered ran
    refine ⟨c :: t :: (ts ++ r :: us), us', n, rfl,
      ⟨_, c :: t :: ts, r, us, rfl, .more comma symbol further, close, ?_⟩, closes⟩
    simpa using reads
  · obtain ⟨close, moved⟩ := Move.resume_when_ok_iff.mp ran
    obtain ⟨r, _, rfl, us, us', n, rfl, reads, closes⟩ := behind.awaitBody ordered moved
    exact ⟨r :: us, us', n, rfl, ⟨[], [], r, us, rfl, .done, close, by simpa using reads⟩, closes⟩

theorem enumGap (behind : SoundBehind nodes rest ts) {names : List String}
    (ordered : Ordered frames)
    (ran : ((⟨.enumGap names, frames⟩ : Config String Token).step vocabulary.name
      (vocabulary.ahead ts)).resume vocabulary ts = (.ok nodes, rest)) :
    Completes nodes rest ⟨.enumGap names, frames⟩ ts := by
  simp only [Config.step] at ran
  split at ran
  · next separator =>
    obtain ⟨s, _, rfl, _, us', n, rfl, ⟨ss, t, us, rfl, separators, reads⟩, closes⟩ :=
      behind.skip ordered ran
    exact ⟨s :: (ss ++ t :: us), us', n, rfl,
      ⟨s :: ss, t, us, rfl, List.forall_mem_cons.mpr ⟨separator, separators⟩, reads⟩, closes⟩
  · split at ran
    · next close =>
      obtain ⟨r, _, rfl, _, us', _, rfl, ⟨rfl, rfl⟩, closes⟩ := behind.skip ordered ran
      exact ⟨[r], us', some (.enumeration names), rfl,
        ⟨[], r, [], rfl, by simp [Separators], .inr ⟨close.2, close.1, rfl, rfl⟩⟩, closes⟩
    · obtain ⟨symbol, moved⟩ := Move.resume_when_ok_iff.mp ran
      obtain ⟨t, _, rfl, us, us', n, rfl, reads, closes⟩ := behind.shift moved fun _ => ordered
      exact ⟨t :: us, us', n, rfl,
        ⟨[], t, us, rfl, by simp [Separators], .inl ⟨symbol, reads⟩⟩, closes⟩

theorem enumEnd (behind : SoundBehind nodes rest ts) {names : List String}
    (ordered : Ordered frames)
    (ran : ((⟨.enumEnd names, frames⟩ : Config String Token).step vocabulary.name
      (vocabulary.ahead ts)).resume vocabulary ts = (.ok nodes, rest)) :
    Completes nodes rest ⟨.enumEnd names, frames⟩ ts := by
  simp only [Config.step] at ran
  split at ran
  · next separator =>
    obtain ⟨s, _, rfl, _, us', n, rfl, ⟨ss, t, us, rfl, separators, reads⟩, closes⟩ :=
      behind.skip ordered ran
    have gap : Separators (s :: ss) := List.forall_mem_cons.mpr ⟨separator, separators⟩
    rcases reads with ⟨symbol, names', vs, es, r, rfl, further, back, close, rfl⟩ |
      ⟨_, close, rfl, rfl⟩
    · refine ⟨s :: (ss ++ t :: (vs ++ (es ++ [r]))), us', _, rfl,
        ⟨t.payload.display :: names', (s :: ss) ++ t :: vs, es, r, by simp,
          .more gap (by simp) symbol further, back, close, ?_⟩, closes⟩
      rw [List.append_assoc, List.singleton_append]
    · exact ⟨s :: (ss ++ [t]), us', _, rfl,
        ⟨[], [], s :: ss, t, rfl, .done, gap, close, by rw [List.append_nil]⟩, closes⟩
  · obtain ⟨close, moved⟩ := Move.resume_when_ok_iff.mp ran
    obtain ⟨r, _, rfl, _, us', _, rfl, ⟨rfl, rfl⟩, closes⟩ := behind.skip ordered moved
    exact ⟨[r], us', _, rfl,
      ⟨[], [], [], r, rfl, .done, by simp [Separators], close, by rw [List.append_nil]⟩, closes⟩

/-- One step: if all states after the next token are sound, so is every state before it. -/
theorem sound (behind : SoundBehind nodes rest ts) : Sound nodes rest ts := by
  intro ⟨focus, frames⟩ ordered ran
  rw [Config.run_eq] at ran
  cases focus with
  | statement => exact behind.startStatement ordered ran
  | operand => exact behind.startOperand ordered ran
  | atom bangs => exact behind.atom ordered ran
  | symbol t jump => exact behind.afterSymbol ordered ran
  | leaf t => exact behind.afterLeaf ordered ran
  | primary p => exact behind.afterPrimary ordered ran
  | whole n => exact ⟨[], ts, some n, rfl, ⟨rfl, rfl⟩, behind.deliver ordered ran⟩
  | await kind next => exact behind.await ordered ran
  | functionName => exact behind.functionName ordered ran
  | bindingName => exact behind.bindingName ordered ran
  | parameterFirst owner => exact behind.parameterFirst ordered ran
  | parameterNext owner before => exact behind.parameterNext ordered ran
  | parameterEnd owner before => exact behind.parameterEnd ordered ran
  | enumGap names => exact behind.enumGap ordered ran
  | enumEnd names => exact behind.enumEnd ordered ran

end SoundBehind

/-- Soundness of runs, by induction on the tokens: a successful run consumed what its state
demands. -/
theorem run_sound (nodes : List Tree) (rest ts : List Token) : Sound nodes rest ts := by
  induction ts with
  | nil => exact SoundBehind.sound fun t us same => by cases same
  | cons t ts ih =>
    refine SoundBehind.sound fun t' us same => ?_
    cases same
    exact ih

end BracketScript
