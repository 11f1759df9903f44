import BracketScript.Text.WordCharacter

/-! A pattern recognises lexemes at the start of a text. Splitting a text by a pattern gives
the lexeme and what follows it; together they are the text again, and no lexeme is empty. -/
namespace BracketScript

inductive Pattern where
  | exact (first : Char) (more : List Char)
  /-- fixed characters that no word character follows -/
  | word (first : Char) (more : List Char)
  | lineComment
  /-- all from a slash and a star to the nearest star and slash -/
  | blockComment
  /-- digits, then perhaps a point and perhaps more digits -/
  | number
  | quoted (mark : Char)
  /-- ASCII letters and underscores -/
  | name
deriving DecidableEq

namespace Pattern

def isNameCharacter (c : Char) : Bool := c.isAlpha || c == '_'

/-- Strips fixed characters from the front. -/
def behind? : List Char → List Char → Option (List Char)
  | [], text => some text
  | _ :: _, [] => none
  | c :: start, d :: text => if c = d then behind? start text else none

/-- Splits after the first star and slash. -/
def splitComment : List Char → Option (List Char × List Char)
  | '*' :: '/' :: rest => some (['*', '/'], rest)
  | c :: cs => (splitComment cs).map fun (inside, rest) => (c :: inside, rest)
  | [] => none

/-- Splits at the mark that closes a string: the first on the line without a backslash before it, or
else the last one. `escaped` records a backslash right before the text. -/
def splitQuoted (mark : Char) (escaped : Bool) : List Char → Option (List Char × List Char)
  | [] => none
  | c :: cs =>
    if c = '\n' then none
    else if c = mark then
      let here := some ([], cs)
      if escaped then
        ((splitQuoted mark false cs).map fun (inside, rest) => (c :: inside, rest)).or here
      else here
    else
      (splitQuoted mark (c == '\\') cs).map fun (inside, rest) => (c :: inside, rest)

/-- Splits after the leading digits, which a point and more digits may follow. -/
def splitNumber (cs : List Char) : Option (List Char × List Char) :=
  let whole := cs.takeWhile Char.isDigit
  if whole = [] then none
  else
    match cs.dropWhile Char.isDigit with
    | '.' :: rest =>
      some (whole ++ '.' :: rest.takeWhile Char.isDigit, rest.dropWhile Char.isDigit)
    | rest => some (whole, rest)

def split (text : List Char) : Pattern → Option (List Char × List Char)
  | exact first more =>
    (behind? (first :: more) text).map fun rest => (first :: more, rest)
  | word first more => do
    let rest ← behind? (first :: more) text
    if rest.head?.any Text.isWordCharacter then none else some (first :: more, rest)
  | lineComment =>
    match text with
    | '/' :: '/' :: rest =>
      some ('/' :: '/' :: rest.takeWhile (· != '\n'), rest.dropWhile (· != '\n'))
    | _ => none
  | blockComment =>
    match text with
    | '/' :: '*' :: rest =>
      (splitComment rest).map fun (inside, rest) => ('/' :: '*' :: inside, rest)
    | _ => none
  | number => splitNumber text
  | quoted mark =>
    match text with
    | c :: rest =>
      if c = mark then
        (splitQuoted mark false rest).map fun (inside, rest) => (mark :: inside ++ [mark], rest)
      else none
    | [] => none
  | name =>
    let lexeme := text.takeWhile isNameCharacter
    if lexeme = [] then none else some (lexeme, text.dropWhile isNameCharacter)

theorem behind?_append {start text rest : List Char} (found : behind? start text = some rest) :
    start ++ rest = text := by
  fun_induction behind? start text with
  | case1 => cases found; rfl
  | case2 => cases found
  | case3 c cs ds ih => rw [List.cons_append, ih found]
  | case4 => cases found

theorem splitComment_append {cs inside rest : List Char}
    (found : splitComment cs = some (inside, rest)) : inside ++ rest = cs := by
  fun_induction splitComment cs generalizing inside rest with
  | case1 => cases found; rfl
  | case2 c cs _ ih =>
    obtain ⟨⟨tail, rest⟩, deeper, same⟩ := Option.map_eq_some_iff.mp found
    cases same
    rw [List.cons_append, ih deeper]
  | case3 => cases found

theorem splitQuoted_append {mark : Char} {escaped : Bool} {cs inside rest : List Char}
    (found : splitQuoted mark escaped cs = some (inside, rest)) :
    inside ++ mark :: rest = cs := by
  induction cs generalizing escaped inside rest with
  | nil => cases found
  | cons c cs ih =>
    have deeper {escaped inside rest}
        (found : (splitQuoted mark escaped cs).map (fun (inside, rest) => (c :: inside, rest)) =
          some (inside, rest)) : inside ++ mark :: rest = c :: cs := by
      obtain ⟨⟨tail, rest⟩, below, same⟩ := Option.map_eq_some_iff.mp found
      cases same
      rw [List.cons_append, ih below]
    simp only [splitQuoted] at found
    split at found
    · cases found
    · split at found
      · next _ same =>
        split at found
        · rcases Option.or_eq_some_iff.mp found with found | ⟨_, found⟩
          · exact deeper found
          · cases found; simp [same]
        · cases found; simp [same]
      · exact deeper found

theorem splitNumber_append {cs lexeme rest : List Char}
    (found : splitNumber cs = some (lexeme, rest)) : lexeme ++ rest = cs ∧ lexeme ≠ [] := by
  simp only [splitNumber] at found
  split at found
  · cases found
  · next nonempty =>
    split at found
    · next tail point =>
      cases found
      refine ⟨?_, by simp⟩
      rw [List.append_assoc, List.cons_append, List.takeWhile_append_dropWhile, ← point,
        List.takeWhile_append_dropWhile]
    · cases found
      exact ⟨List.takeWhile_append_dropWhile, nonempty⟩

/-- A split neither loses nor adds characters, and its lexeme is not empty. -/
theorem split_append {p : Pattern} {text lexeme rest : List Char}
    (found : p.split text = some (lexeme, rest)) : lexeme ++ rest = text ∧ lexeme ≠ [] := by
  cases p with
  | exact first more =>
    obtain ⟨tail, starts, same⟩ := Option.map_eq_some_iff.mp found
    cases same
    exact ⟨behind?_append starts, by simp⟩
  | word first more =>
    obtain ⟨tail, starts, ended⟩ := Option.bind_eq_some_iff.mp found
    split at ended
    · cases ended
    · cases ended
      exact ⟨behind?_append starts, by simp⟩
  | lineComment =>
    simp only [split] at found
    split at found
    · cases found
      simp [List.takeWhile_append_dropWhile]
    · cases found
  | blockComment =>
    simp only [split] at found
    split at found
    · obtain ⟨⟨inside, tail⟩, closed, same⟩ := Option.map_eq_some_iff.mp found
      cases same
      simp [splitComment_append closed]
    · cases found
  | number => exact splitNumber_append found
  | quoted mark =>
    simp only [split] at found
    split at found
    · split at found
      · next same =>
        obtain ⟨⟨inside, tail⟩, closed, equal⟩ := Option.map_eq_some_iff.mp found
        cases equal
        simp [splitQuoted_append closed, same]
      · cases found
    · cases found
  | name =>
    simp only [split] at found
    split at found
    · cases found
    · next nonempty =>
      cases found
      exact ⟨List.takeWhile_append_dropWhile, nonempty⟩

end Pattern

end BracketScript
