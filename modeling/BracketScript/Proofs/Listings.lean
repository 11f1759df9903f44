import BracketScript.Proofs.Documents
import BracketScript.Proofs.FrontEnd

/-! A listing determines its tokens, but for their widths. No line of it holds a line break, so the
lines are those of the tokens. In a line neither the place nor the kind holds a space, so that each
ends at the first one behind it, and the payload is quoted up to the end; whether it is a number or
a text is told by the kind. -/
namespace BracketScript
open Text (append_mark_inj)

namespace Text

def lines (s : String) : List String := (s.split '\n').toList.map (·.copy)

/-- Nonempty texts without the separating mark are determined by their concatenation with marks. -/
theorem intercalate_inj {mark : Char} {xs ys : List String}
    (free : ∀ x ∈ xs, mark ∉ x.toList) (free' : ∀ y ∈ ys, mark ∉ y.toList)
    (filled : "" ∉ xs) (filled' : "" ∉ ys)
    (same : (String.singleton mark).intercalate xs = (String.singleton mark).intercalate ys) :
    xs = ys := by
  have parts := String.toList_split_intercalate free
  rw [same, String.toList_split_intercalate free'] at parts
  split at parts
  · next empty =>
    split at parts
    · next empty' => rw [empty, empty']
    · exact absurd (parts ▸ List.mem_singleton_self "") filled
  · split at parts
    · exact absurd (parts ▸ List.mem_singleton_self "") filled'
    · exact parts.symm

end Text

theorem Kind.space_not_mem_name (kind : Kind) : ' ' ∉ kind.name.toList := by
  have key : ∀ kind ∈ Kind.all, ' ' ∉ kind.name.toList := by decide +kernel
  exact key kind kind.mem_all

namespace Position

variable {p q : Position} {back back' : List Char}

theorem toList_text (p : Position) :
    p.text.toList = Nat.toDigits 10 p.line ++ ':' :: Nat.toDigits 10 p.col := by
  simp [text]

/-- A printed position followed by a space determines the position and the rest. -/
theorem text_append_inj (same : p.text.toList ++ ' ' :: back = q.text.toList ++ ' ' :: back') :
    p = q ∧ back = back' := by
  have spelled {m n : Nat} : Nat.toDigits 10 m = Nat.toDigits 10 n → m = n :=
    Text.toDigits_inj (by decide) (by decide)
  simp only [toList_text, List.append_assoc, List.cons_append] at same
  obtain ⟨lines, behind⟩ := append_mark_inj (not_mem_digits rfl _) (not_mem_digits rfl _) same
  obtain ⟨cols, rest⟩ := append_mark_inj (not_mem_digits rfl _) (not_mem_digits rfl _) behind
  exact ⟨congrArg₂ Position.mk (spelled lines) (spelled cols), rest⟩

end Position

namespace Token

variable {t u : Token} {ts us : List Token}

theorem toList_listing (t : Token) :
    t.listing.toList = t.position.text.toList ++ ' ' ::
      (t.kind.name.toList ++ ' ' :: (Text.quote t.payload.display).toList) := by
  simp [listing]

theorem newline_not_mem_listing (t : Token) : '\n' ∉ t.listing.toList := by
  have kind := t.kind.hasNoControls_name.newline
  have quoted := (Text.HasNoControls.quote t.payload.display).newline
  simp [toList_listing, Position.toList_text, newline_not_mem_digits, kind, quoted]

theorem listing_ne_empty (t : Token) : t.listing ≠ "" := by
  intro empty
  have inside := congrArg String.toList empty
  simp [toList_listing] at inside

theorem listing_widthless (t : Token) : t.widthless.listing = t.listing := rfl

/-- The listing of a spelled token determines the token up to its width. -/
theorem listing_inj (spelled : t.IsSpelled) (spelled' : u.IsSpelled)
    (same : t.listing = u.listing) : t.widthless = u.widthless := by
  have inside := congrArg String.toList same
  rw [toList_listing, toList_listing] at inside
  obtain ⟨places, behind⟩ := Position.text_append_inj inside
  obtain ⟨names, quotes⟩ :=
    append_mark_inj t.kind.space_not_mem_name u.kind.space_not_mem_name behind
  obtain ⟨lines, cols⟩ := Position.mk.inj places
  have kinds : t.kind = u.kind := Kind.name_injective (String.toList_inj.mp names)
  have texts : t.payload.display = u.payload.display :=
    Text.quote_injective (String.toList_inj.mp quotes)
  rw [widthless, widthless, kinds, display_inj spelled spelled' kinds texts, lines, cols]

theorem listings_inj (spelled : ∀ t ∈ ts, t.IsSpelled) (spelled' : ∀ u ∈ us, u.IsSpelled)
    (same : ts.map listing = us.map listing) : ts.map widthless = us.map widthless := by
  induction ts generalizing us with
  | nil =>
    cases us with
    | nil => rfl
    | cons u us => cases same
  | cons t ts ih =>
    cases us with
    | nil => cases same
    | cons u us =>
      obtain ⟨first, others⟩ := List.forall_mem_cons.mp spelled
      obtain ⟨first', others'⟩ := List.forall_mem_cons.mp spelled'
      obtain ⟨line, further⟩ := List.cons.inj same
      exact congrArg₂ List.cons (listing_inj first first' line) (ih others others' further)

end Token

/-- Every token of a source is spelled in it. -/
theorem isSpelled_of_tokenize {source : Source} {ts : List Token}
    (scanned : tokenize source = .ok ts) : ∀ t ∈ ts, t.IsSpelled :=
  (Scanner.tokens_eq_ok_iff.mp scanned).layout.spelled

section Lists

variable {ts us : List Token}

/-- A listing splits into the lines of its tokens. -/
theorem lines_renderTokens (nonempty : ts ≠ []) :
    Text.lines (renderTokens ts .tree) = ts.map Token.listing := by
  have free : ∀ l ∈ ts.map Token.listing, '\n' ∉ l.toList :=
    List.forall_mem_map.mpr fun t _ => t.newline_not_mem_listing
  have lines := String.toList_split_intercalate free
  rwa [if_neg (by simpa using nonempty)] at lines

/-- Equal listings list their tokens alike, line by line. -/
theorem renderTokens_inj (same : renderTokens ts .tree = renderTokens us .tree) :
    ts.map Token.listing = us.map Token.listing := by
  have free (ts : List Token) : ∀ l ∈ ts.map Token.listing, '\n' ∉ l.toList :=
    List.forall_mem_map.mpr fun t _ => t.newline_not_mem_listing
  have filled (ts : List Token) : "" ∉ ts.map Token.listing := by
    simp [Token.listing_ne_empty]
  exact Text.intercalate_inj (free ts) (free us) (filled ts) (filled us) same

theorem renderTokens_widthless (same : ts.map Token.widthless = us.map Token.widthless) :
    renderTokens ts .tree = renderTokens us .tree := by
  have listed (ts : List Token) :
      (ts.map Token.widthless).map Token.listing = ts.map Token.listing := by
    simp [Token.listing_widthless]
  rw [renderTokens, renderTokens, ← listed ts, same, listed us]

end Lists

/-- A listing has one line for each token in order, and the listings of two sources are equal
exactly when their tokens are equal up to widths. -/
theorem listing_eq_iff {source source' : Source} {ts us : List Token}
    (scanned : tokenize source = .ok ts) (scanned' : tokenize source' = .ok us) :
    (render source .tokens .tree).outcome = .ok (renderTokens ts .tree) ∧
      (ts ≠ [] → Text.lines (renderTokens ts .tree) = ts.map Token.listing) ∧
      (renderTokens ts .tree = renderTokens us .tree ↔
        ts.map Token.widthless = us.map Token.widthless) := by
  refine ⟨?_, ?_, ?_, renderTokens_widthless⟩
  · rw [outcome_render_tokens, scanned]
    rfl
  · exact lines_renderTokens
  · intro same
    exact Token.listings_inj (isSpelled_of_tokenize scanned) (isSpelled_of_tokenize scanned')
      (renderTokens_inj same)

/-- Escaping keeps a quotation mark and a line break on single lines, and two spellings of a number
are listed alike. -/
theorem listing_eq_iff_numerals :
    let source := Source.ofContent "'a\" 1'\n007.50"
    let source' := Source.ofContent "'a\" 1'\n7.5"
    let token (width : Nat) : Token := ⟨.num, .number ⟨0x401e000000000000⟩, 2, 1, width⟩
    let front : List Token := [⟨.string, .text "a\" 1", 1, 1, 6⟩, ⟨.newline, .text "\n", 1, 7, 1⟩]
    let text := "1:1 string \"a\\\" 1\"\n1:7 newline \"\\n\"\n2:1 num \"7.5\""
    tokenize source = .ok (front ++ [token 6]) ∧ tokenize source' = .ok (front ++ [token 3]) ∧
      renderTokens (front ++ [token 6]) .tree = renderTokens (front ++ [token 3]) .tree ∧
      (render source .tokens .tree).outcome = .ok text ∧
      Text.lines text = ["1:1 string \"a\\\" 1\"", "1:7 newline \"\\n\"", "2:1 num \"7.5\""] := by
  intro source source' token front text
  have start : Scanner.ofSource source =
      ⟨['\'', 'a', '"', ' ', '1', '\'', '\n', '0', '0', '7', '.', '5', '0'], 0, ⟨1, 1⟩⟩ := by cbv
  have start' : Scanner.ofSource source' =
      ⟨['\'', 'a', '"', ' ', '1', '\'', '\n', '7', '.', '5'], 0, ⟨1, 1⟩⟩ := by cbv
  have long : (Decimal.mk 750 (-2)).toNumber = ⟨0x401e000000000000⟩ := by decide +kernel
  have short : (Decimal.mk 75 (-1)).toNumber = ⟨0x401e000000000000⟩ := by decide +kernel
  have scanned : (Scanner.ofSource source).Reads (front ++ [token 6]) := by
    simp only [start, token, ← long]
    iterate 3 refine .cons .none rfl rfl (by decide) rfl ?_
    exact .finish .none
  have scanned' : (Scanner.ofSource source').Reads (front ++ [token 3]) := by
    simp only [start', token, ← short]
    iterate 3 refine .cons .none rfl rfl (by decide) rfl ?_
    exact .finish .none
  have ok := Scanner.tokens_eq_ok_iff.mpr scanned
  have ok' := Scanner.tokens_eq_ok_iff.mpr scanned'
  obtain ⟨shown, lines, told⟩ := listing_eq_iff ok ok'
  have listed : renderTokens (front ++ [token 6]) .tree = text := by decide +kernel
  rw [listed] at shown lines
  refine ⟨ok, ok', told.mpr rfl, shown, (lines (by simp)).trans ?_⟩
  decide +kernel

end BracketScript
