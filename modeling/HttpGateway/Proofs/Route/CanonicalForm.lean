import HttpGateway.Proofs.Pattern.Splits
import HttpGateway.Proofs.Route.Readiness

/-!
# The canonical form of a route

The canonical form of a route pattern is written with a `/` at both ends. It is read as the pattern
with a separator at both ends (`parse_canonicalRoute`), of which the core leaves out as many as were
put there (`core_slashed`). So the canonical form matches the same paths (`find_slashed`).
-/

namespace HttpGateway

open Text

namespace Pattern

variable {p : Pattern} {items : List Pattern}

/-! ## A separator at both ends -/

/-- The items that a pattern is written with: none for the empty pattern. -/
def writtenItems (p : Pattern) : List Pattern := if p = empty then [] else p.items

/-- The items with a separator at both ends, which may be the same one. -/
def slashedItems (items : List Pattern) : List Pattern :=
  withoutLastSeparator (.separator :: withoutFirstSeparator items) ++ [.separator]

/-- The pattern with a separator at both ends. -/
def slashed (p : Pattern) : Pattern := ofItems (slashedItems p.writtenItems)

theorem withoutLastSeparator_concat (items : List Pattern) :
    withoutLastSeparator (items ++ [.separator]) = items := by
  simp [withoutLastSeparator]

theorem withoutLastSeparator_of_getLast?_ne (h : items.getLast? ≠ some .separator) :
    withoutLastSeparator items = items := by
  unfold withoutLastSeparator
  split
  · next hlast => exact absurd hlast h
  · rfl

theorem withoutLastSeparator_cons (p : Pattern) (h : items ≠ []) :
    withoutLastSeparator (p :: items) = p :: withoutLastSeparator items := by
  by_cases hlast : items.getLast? = some .separator
  · obtain ⟨init, rfl⟩ := List.getLast?_eq_some_iff.1 hlast
    rw [← List.cons_append, withoutLastSeparator_concat, withoutLastSeparator_concat]
  · have hcons : (p :: items).getLast? ≠ some .separator := by
      rwa [List.getLast?_cons_of_ne_nil h]
    rw [withoutLastSeparator_of_getLast?_ne hlast, withoutLastSeparator_of_getLast?_ne hcons]

/-- The separators at the ends are left out again. -/
theorem withoutSeparators_slashedItems (items : List Pattern) :
    withoutLastSeparator (withoutFirstSeparator (slashedItems items)) =
      withoutLastSeparator (withoutFirstSeparator items) := by
  rw [slashedItems]
  by_cases h : withoutFirstSeparator items = []
  · rw [h]
    rfl
  · rw [withoutLastSeparator_cons _ h, List.cons_append, withoutFirstSeparator,
      withoutLastSeparator_concat]

/-! ## Canonical items -/

/-- Items of a canonical pattern that may stand in one sequence. -/
structure CanonicalItems (items : List Pattern) : Prop where
  canonical : ∀ item ∈ items, item.Everywhere CanonicalNode
  flat : ∀ item ∈ items, ¬item.IsSequence
  follow : items.IsChain CanFollow

namespace CanonicalItems

theorem separator : CanonicalItems [.separator] :=
  ⟨by simp [Everywhere, CanonicalNode], by simp [IsSequence], .singleton _⟩

theorem isInfix {others : List Pattern} (h : CanonicalItems items) (hwithin : others <:+: items) :
    CanonicalItems others :=
  ⟨fun item hitem => h.canonical item (hwithin.subset hitem),
    fun item hitem => h.flat item (hwithin.subset hitem), h.follow.infix hwithin⟩

theorem append {others : List Pattern} (h : CanonicalItems items) (ho : CanonicalItems others)
    (hfollow : ∀ p ∈ items.getLast?, ∀ q ∈ others.head?, CanFollow p q) :
    CanonicalItems (items ++ others) :=
  ⟨List.forall_mem_append.2 ⟨h.canonical, ho.canonical⟩,
    List.forall_mem_append.2 ⟨h.flat, ho.flat⟩,
    List.isChain_append.2 ⟨h.follow, ho.follow, hfollow⟩⟩

/-- A separator may stand before anything. -/
theorem opened (h : CanonicalItems items) :
    CanonicalItems (.separator :: withoutFirstSeparator items) := by
  obtain ⟨front, hfirst, -⟩ := exists_withoutFirstSeparator items
  have hrest : CanonicalItems (withoutFirstSeparator items) :=
    h.isInfix ⟨front, [], by rw [List.append_nil, ← hfirst]⟩
  refine separator.append hrest fun p hp q _ => ?_
  obtain rfl := Option.some.inj hp
  cases q <;> trivial

/-- A separator may stand behind anything. -/
theorem closed (h : CanonicalItems items) :
    CanonicalItems (withoutLastSeparator items ++ [.separator]) := by
  obtain ⟨back, hlast, -⟩ := exists_withoutLastSeparator items
  refine (h.isInfix ⟨[], back, hlast.symm⟩).append separator fun p _ q hq => ?_
  obtain rfl := Option.some.inj hq
  cases p <;> trivial

theorem ofItems (h : CanonicalItems items) (hne : items ≠ []) :
    (ofItems items).Everywhere CanonicalNode := by
  match items with
  | [] => exact absurd rfl hne
  | [item] => exact h.canonical item (by simp)
  | first :: second :: items =>
    exact ⟨⟨by simp, h.flat, h.follow⟩, everywhereAll_iff.2 h.canonical⟩

end CanonicalItems

/-- A pattern that was read is written with canonical items. -/
theorem canonicalItems_writtenItems (h : IsCanonical p) : CanonicalItems p.writtenItems := by
  rw [writtenItems]
  split
  · exact ⟨by simp, by simp, .nil⟩
  · next hne =>
    have hcanonical := h.resolve_left hne
    cases p with
    | sequence children =>
      obtain ⟨⟨-, hflat, hchain⟩, hall⟩ := hcanonical
      exact ⟨everywhereAll_iff.1 hall, hflat, hchain⟩
    | _ => exact ⟨by simpa [items] using hcanonical, by simp [items, IsSequence], .singleton _⟩

/-! ## The characters at the ends -/

theorem spellAll_append (ps qs : List Pattern) :
    spellAll (ps ++ qs) = spellAll ps ++ spellAll qs := by
  rw [spellAll_eq_flatMap, tokensAll_append, List.flatMap_append, ← spellAll_eq_flatMap,
    ← spellAll_eq_flatMap]

theorem spellAll_writtenItems (p : Pattern) : spellAll p.writtenItems = spell p := by
  rw [writtenItems]
  split
  · next hempty => rw [hempty]; rfl
  · cases p <;> simp [items, spell, spellAll]

theorem spell_ofItems (ps : List Pattern) : spell (ofItems ps) = spellAll ps := by
  rw [spell_eq_flatMap, tokens_ofItems, ← spellAll_eq_flatMap]

/-- The text neither starts nor ends with a `/`, and is not empty. -/
structure SlashlessEnds (cs : List Char) : Prop where
  first : ∃ c rest, cs = c :: rest ∧ c ≠ '/'
  last : ∃ init c, cs = init ++ [c] ∧ c ≠ '/'

theorem slashlessEnds_spellChar {c : Char} (hc : c ≠ '/') : SlashlessEnds (spellChar c) := by
  rw [spellChar]
  split
  · exact ⟨⟨'\\', [c], rfl, by decide⟩, ['\\'], c, rfl, hc⟩
  · exact ⟨⟨c, [], rfl, hc⟩, [], c, rfl, hc⟩

theorem slashlessEnds_spell_literal {text : String} (hne : text ≠ "") (hslash : '/' ∉ text.toList) :
    SlashlessEnds (spell (.literal text)) := by
  have hchars : text.toList ≠ [] := mt String.toList_eq_nil_iff.1 hne
  have hspelled : ∀ c ∈ text.toList, SlashlessEnds (spellChar c) := fun c hc =>
    slashlessEnds_spellChar fun heq => hslash (heq ▸ hc)
  rw [spell]
  constructor
  · obtain ⟨c, cs, hcs⟩ := List.exists_cons_of_ne_nil hchars
    obtain ⟨d, ds, hds, hd⟩ := (hspelled c (by simp [hcs])).first
    exact ⟨d, _, by rw [hcs, List.flatMap_cons, hds, List.cons_append], hd⟩
  · obtain ⟨cs, c, hcs⟩ := (List.eq_nil_or_concat' text.toList).resolve_left hchars
    obtain ⟨ds, d, hds, hd⟩ := (hspelled c (by simp [hcs])).last
    refine ⟨cs.flatMap spellChar ++ ds, d, ?_, hd⟩
    rw [hcs, List.flatMap_append, List.flatMap_singleton, hds, List.append_assoc]

theorem slashlessEnds_spell_capture {name : String} (h : IsName name.toList) :
    SlashlessEnds (spell (.capture name)) := by
  have hchars : name.toList ≠ [] := fun hnil => by rw [hnil] at h; exact h
  obtain ⟨cs, c, hcs⟩ := (List.eq_nil_or_concat' name.toList).resolve_left hchars
  have hc : continuesName c = true := continuesName_of_isName h c (by simp [hcs])
  refine ⟨⟨':', name.toList, rfl, by decide⟩, ':' :: cs, c, by rw [spell, hcs]; rfl, ?_⟩
  rintro rfl
  exact absurd hc (by decide)

/-- Only a separator is written with a `/` at the start or at the end. -/
theorem slashlessEnds_spell (h : p.Everywhere CanonicalNode) (hflat : ¬p.IsSequence)
    (hne : p ≠ .separator) : SlashlessEnds (spell p) := by
  cases p with
  | literal text => exact slashlessEnds_spell_literal h.1 h.2
  | separator => exact absurd rfl hne
  | capture name => exact slashlessEnds_spell_capture h
  | wildcard => exact ⟨⟨'*', [], rfl, by decide⟩, [], '*', rfl, by decide⟩
  | optional child => exact ⟨⟨'(', _, rfl, by decide⟩, '(' :: spell child, ')', rfl, by decide⟩
  | sequence children => exact absurd trivial hflat

/-- The characters with a `/` at the start. -/
def openedChars : List Char → List Char
  | '/' :: cs => '/' :: cs
  | cs => '/' :: cs

/-- The characters with a `/` at the end. -/
def closedChars (cs : List Char) : List Char := if cs.getLast? = some '/' then cs else cs ++ ['/']

theorem canonicalRoute_eq (text : String) :
    canonicalRoute text = String.ofList (closedChars (openedChars (trimChars text.toList))) := rfl

theorem openedChars_spellAll (h : CanonicalItems items) :
    openedChars (spellAll items) = spellAll (.separator :: withoutFirstSeparator items) := by
  cases items with
  | nil => rfl
  | cons item items =>
    by_cases hitem : item = .separator
    · subst hitem
      rfl
    · obtain ⟨c, cs, hspell, hc⟩ :=
        (slashlessEnds_spell (h.canonical item (by simp)) (h.flat item (by simp)) hitem).first
      have hwithout : withoutFirstSeparator (item :: items) = item :: items := by
        cases item with
        | separator => exact absurd rfl hitem
        | _ => rfl
      rw [hwithout, spellAll, spellAll, spellAll, hspell]
      unfold openedChars
      split
      · next heq => exact absurd (List.cons.inj heq).1 hc
      · rfl

theorem closedChars_spellAll (h : CanonicalItems items) (hne : items ≠ []) :
    closedChars (spellAll items) = spellAll (withoutLastSeparator items ++ [.separator]) := by
  obtain ⟨init, last, rfl⟩ := (List.eq_nil_or_concat' items).resolve_left hne
  have hlast : spellAll (init ++ [last]) = spellAll init ++ spell last := by
    rw [spellAll_append, spellAll, spellAll, List.append_nil]
  by_cases hsep : last = .separator
  · subst hsep
    rw [withoutLastSeparator_concat, closedChars, if_pos]
    rw [hlast, spell, List.getLast?_concat]
  · obtain ⟨cs, c, hspell, hc⟩ :=
      (slashlessEnds_spell (h.canonical last (by simp)) (h.flat last (by simp)) hsep).last
    have hend : (spellAll (init ++ [last])).getLast? ≠ some '/' := by
      rw [hlast, hspell, ← List.append_assoc, List.getLast?_concat]
      simpa using hc
    rw [withoutLastSeparator_of_getLast?_ne (by simpa using hsep), closedChars, if_neg hend,
      spellAll_append _ [.separator]]
    rfl

/-! ## Reading the canonical form -/

theorem slashedItems_ne_nil (items : List Pattern) : slashedItems items ≠ [] := by
  simp [slashedItems]

/-- **The canonical form is read as the pattern with a separator at both ends.** -/
theorem parse_canonicalRoute {text : String} (h : parse (trim text) = .ok p) :
    parse (canonicalRoute text) = .ok p.slashed := by
  have hitems := canonicalItems_writtenItems (canonical_of_parse h)
  have hspell : trimChars text.toList = spellAll p.writtenItems := by
    have htext := congrArg String.toList (text_of_parse h)
    rw [Pattern.text, trim, String.toList_ofList, String.toList_ofList] at htext
    rw [spellAll_writtenItems, htext]
  have hcanonical : canonicalRoute text = p.slashed.text := by
    rw [canonicalRoute_eq, hspell, openedChars_spellAll hitems,
      closedChars_spellAll hitems.opened (List.cons_ne_nil _ _), Pattern.text, slashed,
      spell_ofItems, slashedItems]
  rw [hcanonical]
  exact parse_text_of_canonical
    (Or.inr (hitems.opened.closed.ofItems (slashedItems_ne_nil p.writtenItems)))

/-- The core of the canonical form is that of the written items. -/
theorem core_slashed (h : IsCanonical p) :
    p.slashed.core = withoutLastSeparator (withoutFirstSeparator p.writtenItems) := by
  have hitems := (canonicalItems_writtenItems h).opened.closed
  rw [core, slashed, slashedItems, items_ofItems hitems.flat (slashedItems_ne_nil _), ← slashedItems,
    withoutSeparators_slashedItems]

/-- The canonical form matches the same paths in the same way. -/
theorem find_slashed (h : IsCanonical p) (path : List Char) :
    find p.slashed.core path = find p.core path := by
  rw [core_slashed h]
  by_cases hempty : p = empty
  · -- an empty literal is as good as no item
    subst hempty
    have hwritten : writtenItems empty = [] := if_pos rfl
    rw [hwritten]
    refine find_congr (fun cs => ?_) path
    rfl
  · rw [writtenItems, if_neg hempty, core]

end Pattern

end HttpGateway
