import BracketScript.Text.Escape
import Mathlib.Data.List.Basic

/-! Escaped text stays on its line, and quoting loses nothing: characters have codes of which
none is the start of another, so a row of codes can be told apart from the left. -/
namespace BracketScript.Text

/-- A mark that occurs in neither front separates front and back uniquely. -/
theorem append_mark_inj {α : Type} {mark : α} {front front' back back' : List α}
    (free : mark ∉ front) (free' : mark ∉ front')
    (same : front ++ mark :: back = front' ++ mark :: back') : front = front' ∧ back = back' := by
  induction front generalizing front' with
  | nil =>
    cases front' with
    | nil => exact ⟨rfl, (List.cons.inj same).2⟩
    | cons c front' => exact absurd (List.cons.inj same).1 (List.ne_of_not_mem_cons free')
  | cons c front ih =>
    cases front' with
    | nil => exact absurd (List.cons.inj same).1.symm (List.ne_of_not_mem_cons free)
    | cons d front' =>
      obtain ⟨rfl, further⟩ := List.cons.inj same
      obtain ⟨rfl, rfl⟩ :=
        ih (List.not_mem_of_not_mem_cons free) (List.not_mem_of_not_mem_cons free') further
      exact ⟨rfl, rfl⟩

/-- The same where the back is empty or starts with the mark. -/
theorem append_stop_inj {α : Type} {mark : α} {front front' back back' : List α}
    (free : mark ∉ front) (free' : mark ∉ front') (stop : ∀ c ∈ back.head?, c = mark)
    (stop' : ∀ c ∈ back'.head?, c = mark) (same : front ++ back = front' ++ back') :
    front = front' ∧ back = back' := by
  cases back with
  | nil =>
    cases back' with
    | nil => simpa using same
    | cons c back' =>
      obtain rfl := stop' c rfl
      rw [List.append_nil] at same
      exact absurd (by simp [same]) free
  | cons c back =>
    obtain rfl := stop c rfl
    cases back' with
    | nil =>
      rw [List.append_nil] at same
      exact absurd (by simp [← same]) free'
    | cons d back' =>
      obtain rfl := stop' d rfl
      obtain ⟨rfl, rfl⟩ := append_mark_inj free free' same
      exact ⟨rfl, rfl⟩

theorem exists_digitChar_of_mem {b n : Nat} {c : Char} (base : 1 < b)
    (member : c ∈ Nat.toDigits b n) : ∃ d, Nat.digitChar d = c := by
  induction n using Nat.strongRecOn with
  | ind n ih =>
    rw [Nat.toDigits_eq_if base] at member
    split at member
    · exact ⟨n, (List.mem_singleton.mp member).symm⟩
    · rcases List.mem_append.mp member with front | last
      · have smaller : n / b < n := Nat.div_lt_self (by omega) base
        exact ih (n / b) smaller front
      · exact ⟨n % b, (List.mem_singleton.mp last).symm⟩

theorem digitChar_inj {d e : Nat} (small : d < 16) (small' : e < 16)
    (same : Nat.digitChar d = Nat.digitChar e) : d = e := by
  have key : ∀ d < 16, ∀ e < 16, Nat.digitChar d = Nat.digitChar e → d = e := by decide
  exact key d small e small' same

/-- Digits to a base up to sixteen determine the number. -/
theorem toDigits_inj {b m n : Nat} (base : 1 < b) (small : b ≤ 16)
    (same : Nat.toDigits b m = Nat.toDigits b n) : m = n := by
  induction m using Nat.strongRecOn generalizing n with
  | ind m ih =>
    have single (c : Char) {k : Nat} (large : b ≤ k) : [c] ≠ Nat.toDigits b k := by
      rw [Nat.toDigits_of_base_le base large]
      intro same
      simpa [Nat.toDigits_ne_nil] using congrArg List.length same
    by_cases first : m < b
    · rw [Nat.toDigits_of_lt_base first] at same
      by_cases second : n < b
      · rw [Nat.toDigits_of_lt_base second] at same
        exact digitChar_inj (by omega) (by omega) (List.cons.inj same).1
      · exact absurd same (single _ (by omega))
    · by_cases second : n < b
      · rw [Nat.toDigits_of_lt_base second] at same
        exact absurd same.symm (single _ (by omega))
      · rw [Nat.toDigits_of_base_le base (Nat.le_of_not_lt first),
          Nat.toDigits_of_base_le base (Nat.le_of_not_lt second)] at same
        obtain ⟨front, last⟩ := List.append_inj' same rfl
        have quotients := ih (m / b) (Nat.div_lt_self (by omega) base) front
        have bound (k : Nat) : k % b < 16 := Nat.lt_of_lt_of_le (Nat.mod_lt k (by omega)) small
        have remainders := digitChar_inj (bound m) (bound n) (List.cons.inj last).1
        rw [← Nat.div_add_mod m b, ← Nat.div_add_mod n b, quotients, remainders]

/-- An escaping in front of a quotation mark. A character stands for itself, or its code is a
backslash with one of the short characters or with a `u` and more. -/
structure IsEscaping (mark : Char) (code : Char → List Char) (short : List (Char × Char))
    (long : Char → List Char → Prop) : Prop where
  mark_ne : mark ≠ '\\'
  cases : ∀ c, (code c = [c] ∧ c ≠ '\\' ∧ c ≠ mark) ∨
    (∃ k, code c = ['\\', k] ∧ (c, k) ∈ short) ∨ ∃ more, code c = '\\' :: 'u' :: more ∧ long c more
  distinct : ∀ p ∈ short, ∀ q ∈ short, p.2 = q.2 → p.1 = q.1
  other : ∀ p ∈ short, p.2 ≠ 'u'
  long_inj : ∀ {c d more more' back back'}, long c more → long d more' →
    more ++ back = more' ++ back' → c = d ∧ back = back'

namespace IsEscaping

variable {mark : Char} {code : Char → List Char} {short : List (Char × Char)}
  {long : Char → List Char → Prop} {c d : Char} {back back' : List Char}

/-- The code is prefix free: a concatenation determines its first character. -/
theorem append_inj (escaping : IsEscaping mark code short long)
    (same : code c ++ back = code d ++ back') : c = d ∧ back = back' := by
  rcases escaping.cases c with ⟨own, unmarked, _⟩ | ⟨k, own, listed⟩ | ⟨more, own, extended⟩ <;>
    rcases escaping.cases d with
      ⟨own', unmarked', _⟩ | ⟨k', own', listed'⟩ | ⟨more', own', extended'⟩ <;>
    simp only [own, own', List.cons_append, List.nil_append, List.cons.injEq, true_and] at same
  · exact same
  · exact absurd same.1 unmarked
  · exact absurd same.1 unmarked
  · exact absurd same.1.symm unmarked'
  · exact ⟨escaping.distinct _ listed _ listed' same.1, same.2⟩
  · exact absurd same.1 (escaping.other _ listed)
  · exact absurd same.1.symm unmarked'
  · exact absurd same.1.symm (escaping.other _ listed')
  · exact escaping.long_inj extended extended' same

/-- An escaped code never starts with the mark. -/
theorem ne_mark (escaping : IsEscaping mark code short long) (c : Char) (back rest : List Char) :
    code c ++ back ≠ mark :: rest := by
  rcases escaping.cases c with ⟨own, _, unmarked⟩ | ⟨k, own, _⟩ | ⟨more, own, _⟩
  · simp [own, unmarked]
  · simp [own, escaping.mark_ne.symm]
  · simp [own, escaping.mark_ne.symm]

/-- Encoded characters before a quotation mark determine the text and what follows the mark. -/
theorem flatMap_inj (escaping : IsEscaping mark code short long) {cs ds : List Char}
    (same : cs.flatMap code ++ mark :: back = ds.flatMap code ++ mark :: back') :
    cs = ds ∧ back = back' := by
  induction cs generalizing ds with
  | nil =>
    cases ds with
    | nil => exact ⟨rfl, (List.cons.inj same).2⟩
    | cons d ds =>
      rw [List.flatMap_cons, List.append_assoc] at same
      exact absurd same.symm (escaping.ne_mark d _ _)
  | cons c cs ih =>
    cases ds with
    | nil =>
      rw [List.flatMap_cons, List.append_assoc] at same
      exact absurd same (escaping.ne_mark c _ _)
    | cons d ds =>
      rw [List.flatMap_cons, List.flatMap_cons, List.append_assoc, List.append_assoc] at same
      obtain ⟨rfl, further⟩ := escaping.append_inj same
      obtain ⟨rfl, rest⟩ := ih further
      exact ⟨rfl, rest⟩

end IsEscaping

/-- Characters with a short escape, and what follows the backslash. -/
def shortEscapes (marks : List Char) : List (Char × Char) :=
  [('\x00', '0'), ('\t', 't'), ('\r', 'r'), ('\n', 'n'), ('\\', '\\')] ++ marks.map fun c => (c, c)

variable {marks : List Char} {extensions : Bool} {c d : Char}

/-- The three forms of an escaped character: itself, a short escape, or a code point. -/
theorem escapeChar_cases (marks : List Char) (extensions : Bool) (c : Char) :
    (escapeChar marks extensions c = [c] ∧ c ≠ '\\' ∧ c ∉ marks ∧ 0x20 ≤ c.toNat) ∨
      (∃ k, escapeChar marks extensions c = ['\\', k] ∧ (c, k) ∈ shortEscapes marks) ∨
      escapeChar marks extensions c = codePointEscape c := by
  unfold escapeChar
  split_ifs with null tab carriage newline marked unseen
  · exact .inr (.inl ⟨'0', rfl, by simp [shortEscapes, null]⟩)
  · exact .inr (.inl ⟨'t', rfl, by simp [shortEscapes, tab]⟩)
  · exact .inr (.inl ⟨'r', rfl, by simp [shortEscapes, carriage]⟩)
  · exact .inr (.inl ⟨'n', rfl, by simp [shortEscapes, newline]⟩)
  · refine .inr (.inl ⟨c, rfl, ?_⟩)
    rcases marked with rfl | marked
    · simp [shortEscapes]
    · simp [shortEscapes, marked]
  · exact .inr (.inr rfl)
  · obtain ⟨backslash, unmarked⟩ := not_or.mp marked
    refine .inl ⟨rfl, backslash, unmarked, ?_⟩
    simp only [isUnprintable, Bool.or_eq_true, not_or] at unseen
    by_contra control
    simp [show c.toNat < 0x80 by omega, show c.toNat < 0x20 by omega] at unseen

/-- No control character occurs, so the text stays on its line. -/
def HasNoControls (cs : List Char) : Prop := ∀ c ∈ cs, 0x20 ≤ c.toNat

instance (cs : List Char) : Decidable (HasNoControls cs) := List.decidableBAll _ cs

namespace HasNoControls

variable {cs ds : List Char}

theorem not_mem (visible : HasNoControls cs) {c : Char} (control : c.toNat < 0x20) : c ∉ cs :=
  fun member => Nat.not_le.mpr control (visible c member)

theorem newline (visible : HasNoControls cs) : '\n' ∉ cs := visible.not_mem (by decide)

theorem singleton {c : Char} (seen : 0x20 ≤ c.toNat) : HasNoControls [c] :=
  List.forall_mem_singleton.mpr seen

theorem append (first : HasNoControls cs) (second : HasNoControls ds) : HasNoControls (cs ++ ds) :=
  List.forall_mem_append.mpr ⟨first, second⟩

theorem flatMap {f : Char → List Char} (each : ∀ c, HasNoControls (f c)) :
    HasNoControls (cs.flatMap f) := by
  intro c member
  obtain ⟨d, _, inside⟩ := List.mem_flatMap.mp member
  exact each d c inside

theorem toDigits {b n : Nat} (base : 1 < b) : HasNoControls (Nat.toDigits b n) := by
  intro c member
  obtain ⟨d, same⟩ := exists_digitChar_of_mem base member
  by_contra control
  have ne (k : Char) (seen : 0x20 ≤ k.toNat := by decide) : c ≠ k := by
    rintro rfl
    exact control seen
  exact Nat.digitChar_ne c (by simp [ne]) same

theorem escapeChar (plain : HasNoControls marks) (extensions : Bool) (c : Char) :
    HasNoControls (escapeChar marks extensions c) := by
  rcases escapeChar_cases marks extensions c with ⟨same, _, _, seen⟩ | ⟨k, same, short⟩ | same
  · rw [same]
    exact .singleton seen
  · have named : 0x20 ≤ k.toNat := by
      rcases List.mem_append.mp short with letter | mark
      · have key : ∀ code ∈ [('\x00', '0'), ('\t', 't'), ('\r', 'r'), ('\n', 'n'), ('\\', '\\')],
            0x20 ≤ code.2.toNat := by decide
        exact key _ letter
      · obtain ⟨d, among, code⟩ := List.mem_map.mp mark
        cases code
        exact plain _ among
    rw [same]
    exact .append (.singleton (by decide)) (.singleton named)
  · rw [same]
    have front : HasNoControls ['\\', 'u', '\x7b'] := by decide
    exact (front.append (.toDigits (by decide))).append (.singleton (by decide))

theorem quoteChar (c : Char) : HasNoControls (Text.quoteChar c).toList := by
  have mark : HasNoControls ['\''] := by decide
  rw [Text.quoteChar, String.toList_ofList]
  exact (mark.append (escapeChar mark true c)).append mark

theorem quote (s : String) : HasNoControls (Text.quote s).toList := by
  have mark : HasNoControls ['"'] := by decide
  rw [Text.quote, String.toList_ofList]
  exact (mark.append (.flatMap (escapeChar mark true))).append mark

theorem escape (s : String) : HasNoControls (Text.escape s).toList := by
  have marks : HasNoControls ['"', '\''] := by decide
  rw [Text.escape, String.toList_ofList]
  cases s.toList with
  | nil => exact List.forall_mem_nil _
  | cons c cs => exact (escapeChar marks true c).append (.flatMap (escapeChar marks false))

end HasNoControls

theorem toDigits_append_inj {back back' : List Char}
    (same : Nat.toDigits 16 c.toNat ++ '\x7d' :: back =
      Nat.toDigits 16 d.toNat ++ '\x7d' :: back') :
    c = d ∧ back = back' := by
  have free (n : Nat) : '\x7d' ∉ Nat.toDigits 16 n := by
    intro member
    obtain ⟨d, same⟩ := exists_digitChar_of_mem (by decide) member
    exact Nat.digitChar_ne '\x7d' rfl same
  obtain ⟨digits, rest⟩ := append_mark_inj (free _) (free _) same
  exact ⟨Char.toNat_inj.mp (toDigits_inj (by decide) (by decide) digits), rest⟩

theorem isEscaping_escapeChar :
    IsEscaping '"' (escapeChar ['"'] true) (shortEscapes ['"'])
      (fun c more => more = '\x7b' :: (Nat.toDigits 16 c.toNat ++ ['\x7d'])) where
  mark_ne := by decide
  cases c := by
    rcases escapeChar_cases ['"'] true c with ⟨own, backslash, unmarked, _⟩ | short | own
    · exact .inl ⟨own, backslash, List.ne_of_not_mem_cons unmarked⟩
    · exact .inr (.inl short)
    · exact .inr (.inr ⟨_, own, rfl⟩)
  distinct := by decide
  other := by decide
  long_inj := by
    rintro c d _ _ back back' rfl rfl same
    simp only [List.cons_append, List.append_assoc, List.nil_append, List.cons.injEq,
      true_and] at same
    exact toDigits_append_inj same

/-- Quoting is injective. -/
theorem quote_injective {s t : String} (same : quote s = quote t) : s = t := by
  have inside := congrArg String.toList same
  simp only [quote, String.toList_ofList, List.cons_append, List.cons.injEq, true_and] at inside
  exact String.toList_inj.mp (isEscaping_escapeChar.flatMap_inj inside).1

end BracketScript.Text
