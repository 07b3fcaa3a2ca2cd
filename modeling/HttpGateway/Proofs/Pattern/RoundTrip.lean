import HttpGateway.Pattern.Written
import HttpGateway.Proofs.Pattern.Tokens

/-!
# Reading and writing a pattern

A pattern is written with its tokens, one after the other (`spell_eq_flatMap`), and reading a text
keeps all its tokens (`tokens_of_assemble`). So a pattern that was read is written as the text that
it was read from (`text_of_parse`).
-/

namespace HttpGateway.Pattern

/-! ## The tokens of a pattern -/

mutual

/-- The tokens that a pattern is written with. -/
def tokens : Pattern → List Token
  | .literal text => text.toList.map .char
  | .separator => [.separator]
  | .capture name => [.capture name]
  | .wildcard => [.wildcard]
  | .optional child => .opening :: (tokens child ++ [.closing])
  | .sequence children => tokensAll children

/-- The tokens that patterns are written with one after the other. -/
def tokensAll : List Pattern → List Token
  | [] => []
  | pattern :: patterns => tokens pattern ++ tokensAll patterns

end

mutual

theorem spell_eq_flatMap : ∀ p : Pattern, spell p = (tokens p).flatMap Token.spell
  | .literal text => by
    rw [spell, tokens, List.flatMap_map]
    rfl
  | .separator => rfl
  | .capture name => by simp [spell, tokens, Token.spell]
  | .wildcard => rfl
  | .optional child => by
    simp [spell, tokens, Token.spell, spell_eq_flatMap child]
  | .sequence children => spellAll_eq_flatMap children

theorem spellAll_eq_flatMap : ∀ ps : List Pattern,
    spellAll ps = (tokensAll ps).flatMap Token.spell
  | [] => rfl
  | p :: ps => by
    rw [spellAll, tokensAll, List.flatMap_append, spell_eq_flatMap p, spellAll_eq_flatMap ps]

end

theorem tokensAll_append (ps qs : List Pattern) :
    tokensAll (ps ++ qs) = tokensAll ps ++ tokensAll qs := by
  induction ps with
  | nil => rfl
  | cons p ps ih => rw [List.cons_append, tokensAll, tokensAll, ih, List.append_assoc]

@[simp] theorem tokensAll_singleton (p : Pattern) : tokensAll [p] = tokens p := by
  simp [tokensAll]

theorem tokensAll_items (p : Pattern) : tokensAll p.items = tokens p := by
  cases p <;> simp [items, tokens]

theorem tokens_ofItems (ps : List Pattern) : tokens (ofItems ps) = tokensAll ps := by
  match ps with
  | [] => rfl
  | [p] => simp [ofItems]
  | p :: q :: ps => rfl

/-- Building one pattern from several keeps their tokens. -/
theorem tokens_concat (ps : List Pattern) : tokens (concat ps) = tokensAll ps := by
  rw [concat, tokens_ofItems]
  induction ps with
  | nil => rfl
  | cons p ps ih => rw [List.flatMap_cons, tokensAll_append, tokensAll_items, ih, tokensAll]

/-! ## Reading keeps the tokens -/

/-- The tokens that have been read, given the open groups and the items since the last `(`. -/
def stackTokens : List OpenGroup → List Pattern → List Token
  | [], items => tokensAll items.reverse
  | group :: groups, items => stackTokens groups group.before ++ .opening :: tokensAll items.reverse

theorem stackTokens_append_items (groups : List OpenGroup) {items newer : List Pattern}
    {ts : List Token} (h : tokensAll newer.reverse = tokensAll items.reverse ++ ts) :
    stackTokens groups newer = stackTokens groups items ++ ts := by
  cases groups with
  | nil => exact h
  | cons group groups => simp [stackTokens, h]

theorem stackTokens_cons (groups : List OpenGroup) (p : Pattern) (items : List Pattern) :
    stackTokens groups (p :: items) = stackTokens groups items ++ tokens p := by
  apply stackTokens_append_items
  rw [List.reverse_cons, tokensAll_append, tokensAll_singleton]

theorem stackTokens_addChar (groups : List OpenGroup) (c : Char) (items : List Pattern) :
    stackTokens groups (addChar c items) = stackTokens groups items ++ [.char c] := by
  apply stackTokens_append_items
  unfold addChar
  split
  · simp [tokensAll_append, tokens]
  · simp [tokensAll_append, tokens]

/-- **A pattern that was read has all the tokens of the text.** -/
theorem tokens_of_assemble {placed : List PlacedToken} {groups : List OpenGroup}
    {items : List Pattern} {p : Pattern} (h : assemble groups items placed = .ok p) :
    tokens p = stackTokens groups items ++ placed.map PlacedToken.token := by
  induction placed generalizing groups items with
  | nil =>
    cases groups with
    | nil =>
      obtain rfl := Except.ok.inj h
      simp [tokens_concat, stackTokens]
    | cons group groups => simp [assemble] at h
  | cons first placed ih =>
    obtain ⟨offset, token⟩ := first
    cases token with
    | char c =>
      rw [assemble] at h
      simp [ih h, stackTokens_addChar]
    | separator =>
      rw [assemble] at h
      simp [ih h, stackTokens_cons, tokens]
    | wildcard =>
      rw [assemble] at h
      simp [ih h, stackTokens_cons, tokens]
    | capture name =>
      rw [assemble] at h
      simp [ih h, stackTokens_cons, tokens]
    | bareColon => simp [assemble] at h
    | opening =>
      rw [assemble] at h
      simp [ih h, stackTokens, tokensAll]
    | closing =>
      cases groups with
      | nil => simp [assemble] at h
      | cons group groups =>
        cases items with
        | nil => simp [assemble] at h
        | cons item items =>
          rw [assemble] at h
          · simp [ih h, stackTokens_cons, stackTokens, tokens, tokens_concat]
          · simp

theorem tokens_of_parse {text : String} {p : Pattern} (h : parse text = .ok p) :
    (Token.scan text.toList).map PlacedToken.token = tokens p := by
  simp [tokens_of_assemble h, stackTokens, tokensAll]

/-- A pattern that was read is written as the text. -/
theorem text_of_parse {text : String} {p : Pattern} (h : parse text = .ok p) : p.text = text := by
  have htokens := tokens_of_parse h
  obtain ⟨-, hspell⟩ := Token.tokens_scan_iff.1 htokens
  rw [Pattern.text, spell_eq_flatMap, hspell, String.ofList_toList]

/-- **Writing undoes reading**: a pattern that was read is written as the text that it was read
from, so it is read again as itself, and no other text is read as it. -/
theorem parse_text_of_parse {text : String} {p : Pattern} (h : parse text = .ok p) :
    p.text = text ∧ parse p.text = .ok p ∧ ∀ other, parse other = .ok p → other = text := by
  have htext := text_of_parse h
  refine ⟨htext, htext.symm ▸ h, fun other hother => ?_⟩
  rw [← text_of_parse hother, htext]

/-- A backslash is literal before an escaped `*` and at the end of the text. -/
theorem parse_text_of_parse_backslashes :
    let p := sequence [.separator, .literal "a\\*",
      .optional (.sequence [.capture "b", .literal ":c"]), .literal "\\"]
    p.text = "/a\\\\*(:b\\:c)\\" ∧ parse p.text = .ok p ∧
      ∀ other, parse other = .ok p → other = "/a\\\\*(:b\\:c)\\" :=
  parse_text_of_parse (by rfl)

end HttpGateway.Pattern
