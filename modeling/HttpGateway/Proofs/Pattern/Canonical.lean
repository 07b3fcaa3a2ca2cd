import HttpGateway.Proofs.Pattern.Rebuild

/-!
# Canonical patterns

A pattern is canonical (`IsCanonical`) when it is empty or each of its nodes could have been read:
its sequences have two items or more and none of them is a sequence, its literals are not empty and
hold no `/`, its captures have names, and no two neighbours would be read in another way when they
are written one after the other. The canonical patterns are those that are read again as themselves
once they are written (`parse_text_eq_iff`).

A canonical pattern is well shaped, and a well-shaped pattern is canonical exactly if its tokens are
separate (`canonical_iff_separate`), that is, if they survive being written and cut again.
-/

namespace HttpGateway.Pattern

open Text

/-! ## Canonical patterns -/

/-- The second item may follow the first one directly: no two literals are neighbours, no literal
goes on with the name of a capture, and no backslash at the end of a literal takes a meaning
away. -/
def CanFollow : Pattern → Pattern → Prop
  | .literal _, .literal _ => False
  | .literal s, .capture _ => s.toList.getLast? ≠ some '\\'
  | .literal s, .wildcard => s.toList.getLast? ≠ some '\\'
  | .literal s, .optional _ => s.toList.getLast? ≠ some '\\'
  | .capture _, .literal t => ∀ c ∈ t.toList.head?, continuesName c = false
  | _, _ => True

/-- The item may be the last one of a group: it is no literal with a backslash at its end. -/
def CanClose : Pattern → Prop
  | .literal s => s.toList.getLast? ≠ some '\\'
  | _ => True

/-- A node of a canonical pattern. -/
def CanonicalNode : Pattern → Prop
  | .literal text => text ≠ "" ∧ '/' ∉ text.toList
  | .separator => True
  | .capture name => IsName name.toList
  | .wildcard => True
  | .optional child => ∀ last ∈ child.items.getLast?, CanClose last
  | .sequence children =>
    2 ≤ children.length ∧ (∀ child ∈ children, ¬child.IsSequence) ∧ children.IsChain CanFollow

/-- The empty pattern, or one whose nodes are all canonical. -/
def IsCanonical (p : Pattern) : Prop := p = empty ∨ p.Everywhere CanonicalNode

variable {p q : Pattern} {ps : List Pattern}

theorem CanFollow.unmerged (h : CanFollow p q) : Unmerged p q := by
  cases p with
  | literal s =>
    cases q with
    | literal t => exact h
    | _ => trivial
  | _ => cases q <;> trivial

theorem CanonicalNode.shaped (h : CanonicalNode p) : ShapedNode p := by
  cases p with
  | literal text => exact h.1
  | sequence children =>
    obtain ⟨hlength, hflat, hchain⟩ := h
    exact ⟨hlength, hflat, hchain.imp fun _ _ => CanFollow.unmerged⟩
  | _ => trivial

/-! ## The characters at a border -/

/-- The last token of the pattern may stand before a written character. -/
def LastFits (p : Pattern) (d : Char) : Prop := ∀ t ∈ (tokens p).getLast?, t.Fits d

theorem lastFits_literal_iff {s : String} {d : Char} :
    LastFits (.literal s) d ↔ (s.toList.getLast? = some '\\' → takesBackslash d = false) := by
  simp only [LastFits, tokens, List.getLast?_map, Option.mem_def, Option.map_eq_some_iff]
  constructor
  · intro h hlast
    exact h _ ⟨'\\', hlast, rfl⟩ rfl
  · rintro h t ⟨c, hlast, rfl⟩ rfl
    exact h hlast

theorem lastFits_iff (t : Token) {d : Char} (h : (tokens p).getLast? = some t) :
    LastFits p d ↔ t.Fits d := by
  rw [LastFits, h]
  exact ⟨fun hfits => hfits t rfl, fun hfits _ ht => Option.some.inj ht ▸ hfits⟩

theorem lastFits_capture_iff {name : String} {d : Char} :
    LastFits (.capture name) d ↔ continuesName d = false :=
  lastFits_iff (.capture name) rfl

theorem lastFits_separator (d : Char) : LastFits .separator d :=
  (lastFits_iff .separator rfl).2 trivial

theorem lastFits_wildcard (d : Char) : LastFits .wildcard d :=
  (lastFits_iff .wildcard rfl).2 trivial

theorem lastFits_optional (child : Pattern) (d : Char) : LastFits (.optional child) d := by
  have hlast : (tokens (.optional child)).getLast? = some .closing := by
    rw [tokens, ← List.cons_append, List.getLast?_concat]
  exact (lastFits_iff .closing hlast).2 trivial

/-- A character that a backslash takes the meaning of goes on with no name. -/
theorem continuesName_of_takesBackslash {c : Char} (h : takesBackslash c = true) :
    continuesName c = false := by
  simp only [takesBackslash, Bool.or_eq_true, beq_iff_eq] at h
  rcases h with ((rfl | rfl) | rfl) | rfl <;> rfl

/-- Whether a name ends before a literal does not depend on how the literal is written. -/
theorem continuesName_head?_spell_literal {t : String} :
    (∀ d ∈ (spell (.literal t)).head?, continuesName d = false) ↔
      ∀ c ∈ t.toList.head?, continuesName c = false := by
  rw [spell]
  cases t.toList with
  | nil => simp
  | cons c cs =>
    rw [List.flatMap_cons, spellChar]
    split
    · next hc => simp [continuesName_of_takesBackslash hc, (by decide : continuesName '\\' = false)]
    · simp

/-- A pattern may follow another one if not both are literals and the first one fits what is
written after it. -/
theorem canFollow_iff (hp : ¬p.IsSequence) (hq : ¬q.IsSequence) :
    CanFollow p q ↔ Unmerged p q ∧ ∀ d ∈ (spell q).head?, LastFits p d := by
  cases p with
  | literal s =>
    cases q with
    | sequence children => exact absurd trivial hq
    | _ => simp [CanFollow, Unmerged, lastFits_literal_iff, spell, takesBackslash]
  | capture name =>
    simp only [lastFits_capture_iff]
    cases q with
    | literal t => simp only [CanFollow, Unmerged, true_and, continuesName_head?_spell_literal]
    | sequence children => exact absurd trivial hq
    | _ =>
      simp [CanFollow, Unmerged, spell]
      decide
  | separator => exact iff_of_true trivial ⟨trivial, fun d _ => lastFits_separator d⟩
  | wildcard => exact iff_of_true trivial ⟨trivial, fun d _ => lastFits_wildcard d⟩
  | optional child => exact iff_of_true trivial ⟨trivial, fun d _ => lastFits_optional child d⟩
  | sequence children => exact absurd trivial hp

theorem canClose_iff (hp : ¬p.IsSequence) : CanClose p ↔ LastFits p ')' := by
  cases p with
  | literal s => simp [CanClose, lastFits_literal_iff, takesBackslash]
  | capture name => exact iff_of_true trivial (lastFits_capture_iff.2 (by decide))
  | separator => exact iff_of_true trivial (lastFits_separator ')')
  | wildcard => exact iff_of_true trivial (lastFits_wildcard ')')
  | optional child => exact iff_of_true trivial (lastFits_optional child ')')
  | sequence children => exact absurd trivial hp

/-- A well-shaped pattern ends as the last one of its items. -/
theorem canClose_items_iff (h : p.Everywhere ShapedNode) :
    (∀ last ∈ p.items.getLast?, CanClose last) ↔ LastFits p ')' := by
  have hitems := shapedItems_items h
  obtain ⟨init, last, hlast⟩ := (List.eq_nil_or_concat' p.items).resolve_left
    (items_ne_nil (isFlat_of_shaped h))
  have hmem : last ∈ p.items := by simp [hlast]
  have htokens : (tokens p).getLast? = (tokens last).getLast? := by
    rw [← tokensAll_items, hlast, tokensAll_append, tokensAll_singleton,
      List.getLast?_append_of_ne_nil _ (tokens_ne_nil (hitems.shaped _ hmem) (hitems.flat _ hmem))]
  rw [LastFits, htokens]
  simp only [hlast, List.getLast?_concat, Option.mem_def, Option.some.injEq, forall_eq']
  exact canClose_iff (hitems.flat _ hmem)

/-! ## Canonical patterns and separate tokens -/

/-- A written literal starts with no character that a backslash takes the meaning of. -/
theorem takesBackslash_head?_chars {cs : List Char} :
    ∀ d ∈ ((cs.map Token.char).flatMap Token.spell).head?, takesBackslash d = false := by
  cases cs with
  | nil => simp
  | cons c cs =>
    rw [List.map_cons, List.flatMap_cons, Token.spell, spellChar]
    split
    · simp [takesBackslash]
    · next hc => simpa using hc

theorem separate_chars_iff {cs : List Char} : Token.Separate (cs.map .char) ↔ '/' ∉ cs := by
  induction cs with
  | nil => simp [Token.separate_nil]
  | cons c cs ih =>
    have hfits : ∀ d ∈ ((cs.map Token.char).flatMap Token.spell).head?, (Token.char c).Fits d :=
      fun d hd _ => takesBackslash_head?_chars d hd
    rw [List.map_cons, Token.separate_cons_iff, ih, and_iff_right hfits, List.mem_cons, not_or,
      Token.IsProper, ne_comm]

theorem head?_spell_tokensAll_cons (h : tokens q ≠ []) (ps : List Pattern) :
    ((tokensAll (q :: ps)).flatMap Token.spell).head? = (spell q).head? := by
  rw [Token.head?_flatMap_spell, tokensAll, List.head?_append_of_ne_nil _ h,
    ← Token.head?_flatMap_spell, ← spell_eq_flatMap]

/-- Whether an item may stand before others is a question of its last token and of the first
character that is written after it. -/
theorem canFollow_head?_iff (h : ShapedItems (p :: ps)) :
    (∀ q ∈ ps.head?, CanFollow p q) ↔
      ∀ t ∈ (tokens p).getLast?, ∀ d ∈ ((tokensAll ps).flatMap Token.spell).head?, t.Fits d := by
  obtain ⟨-, hflat, hhead, hps⟩ := shapedItems_cons_iff.1 h
  cases ps with
  | nil => simp [tokensAll]
  | cons q ps =>
    obtain ⟨hq, hqflat, -, -⟩ := shapedItems_cons_iff.1 hps
    rw [head?_spell_tokensAll_cons (tokens_ne_nil hq hqflat)]
    simp only [List.head?_cons, Option.mem_def, Option.some.injEq, forall_eq',
      canFollow_iff hflat hqflat, and_iff_right (hhead q rfl), LastFits]
    exact ⟨fun h t ht d hd => h d hd t ht, fun h d hd t ht => h t ht d hd⟩

mutual

/-- **A well-shaped pattern is canonical exactly if its tokens are separate.** -/
theorem canonical_iff_separate : ∀ {p : Pattern}, p.Everywhere ShapedNode →
    (p.Everywhere CanonicalNode ↔ Token.Separate (tokens p))
  | .literal text, h => by
    rw [tokens, separate_chars_iff, Everywhere, CanonicalNode]
    exact and_iff_right h
  | .separator, _ => iff_of_true trivial (Token.separate_singleton_iff.2 trivial)
  | .capture name, _ => by
    rw [tokens, Token.separate_singleton_iff, Everywhere, CanonicalNode, Token.IsProper]
  | .wildcard, _ => iff_of_true trivial (Token.separate_singleton_iff.2 trivial)
  | .optional child, h => by
    rw [Everywhere, CanonicalNode, canClose_items_iff h.2, canonical_iff_separate h.2, tokens,
      Token.separate_group_iff, LastFits, and_comm]
  | .sequence children, h => by
    obtain ⟨hlength, hflat, -⟩ := h.node
    have hitems : ShapedItems children := shapedItems_items h
    rw [tokens, ← canonicalAll_iff_separate hitems, Everywhere, CanonicalNode]
    exact ⟨fun ⟨⟨_, _, hchain⟩, hall⟩ => ⟨hall, hchain⟩,
      fun ⟨hall, hchain⟩ => ⟨⟨hlength, hflat, hchain⟩, hall⟩⟩

theorem canonicalAll_iff_separate : ∀ {ps : List Pattern}, ShapedItems ps →
    (EverywhereAll CanonicalNode ps ∧ ps.IsChain CanFollow ↔ Token.Separate (tokensAll ps))
  | [], _ => iff_of_true ⟨trivial, .nil⟩ Token.separate_nil
  | p :: ps, h => by
    obtain ⟨hp, -, -, hps⟩ := shapedItems_cons_iff.1 h
    rw [tokensAll, Token.separate_append_iff, ← canonical_iff_separate hp,
      ← canonicalAll_iff_separate hps, EverywhereAll, List.isChain_cons, canFollow_head?_iff h]
    exact ⟨fun ⟨⟨hp, hps⟩, hhead, hchain⟩ => ⟨hp, ⟨hps, hchain⟩, hhead⟩,
      fun ⟨hp, ⟨hps, hchain⟩, hhead⟩ => ⟨⟨hp, hps⟩, hhead, hchain⟩⟩

end

/-! ## Reading a canonical pattern -/

/-- What is read is canonical. -/
theorem canonical_of_parse {text : String} (h : parse text = .ok p) : IsCanonical p := by
  obtain hempty | hshaped := shaped_of_assemble .nil (by simp) h
  · exact Or.inl hempty
  · have htokens := tokens_of_parse h
    obtain ⟨hseparate, -⟩ := Token.tokens_scan_iff.1 htokens
    exact Or.inr ((canonical_iff_separate hshaped).2 hseparate)

/-- A canonical pattern is read again as itself. -/
theorem parse_text_of_canonical (h : IsCanonical p) : parse p.text = .ok p := by
  obtain rfl | hcanonical := h
  · rfl
  · have hshaped : p.Everywhere ShapedNode := hcanonical.mono fun _ => CanonicalNode.shaped
    have hseparate : Token.Separate (tokens p) := (canonical_iff_separate hshaped).1 hcanonical
    have hspell : (tokens p).flatMap Token.spell = p.text.toList := by
      rw [Pattern.text, String.toList_ofList, spell_eq_flatMap]
    have htokens : (Token.scan p.text.toList).map PlacedToken.token = tokens p :=
      Token.tokens_scan_iff.2 ⟨hseparate, hspell⟩
    have hread : assemble [] [] (Token.scan p.text.toList ++ []) = assemble [] _ [] :=
      assemble_tokens hshaped (by simp) htokens []
    rw [List.append_nil, List.append_nil] at hread
    rw [parse, hread, assemble, List.reverse_reverse, concat_items (isFlat_of_shaped hshaped)]

/-- **The canonical patterns are those that are read again as themselves** once they are written,
and nothing else is ever read. -/
theorem parse_text_eq_iff (p : Pattern) :
    (parse p.text = .ok p ↔ IsCanonical p) ∧ ∀ text, parse text = .ok p → IsCanonical p := by
  refine ⟨⟨fun h => ?_, fun h => ?_⟩, fun text h => ?_⟩
  · exact canonical_of_parse h
  · exact parse_text_of_canonical h
  · exact canonical_of_parse h

/-- A backslash may end the text, and a name may end before another capture. -/
theorem parse_text_eq_iff_backslash :
    IsCanonical (sequence [.capture "a", .capture "b", .literal "-\\"]) :=
  (parse_text_eq_iff _).2 ":a:b-\\" (by rfl)

end HttpGateway.Pattern
