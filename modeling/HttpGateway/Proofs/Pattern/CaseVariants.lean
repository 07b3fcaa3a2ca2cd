import HttpGateway.Proofs.Pattern.Canonical
import HttpGateway.Proofs.Pattern.Splits
import HttpGateway.Proofs.Text.LetterCase

/-!
# Patterns in other letters

`mapChars f g` writes the literals of a pattern with other characters, and the names of its captures
with yet others. As long as the literals keep their letters up to case, the pattern has the same
instances, with the texts under the new names (`instances_mapChars`), so it matches the same paths
in the same way (`find_mapCharsAll`). A written pattern that is put in lower case is read as the
pattern in lower case (`parse_toLower`).
-/

namespace HttpGateway.Pattern

open Text

/-! ## Other characters -/

mutual

/-- The pattern with other characters in its literals and in the names of its captures. -/
def mapChars (f g : Char → Char) : Pattern → Pattern
  | .literal text => .literal (text.map f)
  | .separator => .separator
  | .capture name => .capture (name.map g)
  | .wildcard => .wildcard
  | .optional child => .optional (mapChars f g child)
  | .sequence children => .sequence (mapCharsAll f g children)

/-- The patterns with other characters. -/
def mapCharsAll (f g : Char → Char) : List Pattern → List Pattern
  | [] => []
  | pattern :: patterns => mapChars f g pattern :: mapCharsAll f g patterns

end

variable {f g : Char → Char} {p q : Pattern} {ps : List Pattern}

theorem mapCharsAll_eq_map (ps : List Pattern) : mapCharsAll f g ps = ps.map (mapChars f g) := by
  induction ps with
  | nil => rfl
  | cons p ps ih => rw [mapCharsAll, ih, List.map_cons]

theorem items_mapChars (p : Pattern) : (mapChars f g p).items = mapCharsAll f g p.items := by
  cases p <;> simp [mapChars, mapCharsAll, items]

theorem withoutFirstSeparator_mapCharsAll (ps : List Pattern) :
    withoutFirstSeparator (mapCharsAll f g ps) = mapCharsAll f g (withoutFirstSeparator ps) := by
  cases ps with
  | nil => rfl
  | cons p ps => cases p <;> simp [mapCharsAll, mapChars, withoutFirstSeparator]

theorem withoutLastSeparator_mapCharsAll (ps : List Pattern) :
    withoutLastSeparator (mapCharsAll f g ps) = mapCharsAll f g (withoutLastSeparator ps) := by
  simp only [mapCharsAll_eq_map]
  cases hlast : ps.getLast? with
  | none => rw [List.getLast?_eq_none_iff.1 hlast]; rfl
  | some last =>
    simp only [withoutLastSeparator, List.getLast?_map, hlast, Option.map_some]
    cases last <;> simp [mapChars, List.map_dropLast]

/-- The core is taken before or after the characters are changed. -/
theorem core_mapChars (p : Pattern) : (mapChars f g p).core = mapCharsAll f g p.core := by
  rw [core, items_mapChars, withoutFirstSeparator_mapCharsAll, withoutLastSeparator_mapCharsAll,
    core]

/-! ## The same instances -/

/-- The instance with other characters in the names of its captures. -/
def Instance.mapNames (g : Char → Char) (i : Instance) : Instance :=
  { i with captured := i.captured.map fun taken => (taken.1.map g, taken.2) }

/-- Instances with other names, each with what is left. -/
def mapNamesAll (g : Char → Char) (is : List (Instance × List Char)) :
    List (Instance × List Char) :=
  is.map fun entry => (entry.1.mapNames g, entry.2)

theorem mapNames_append (i j : Instance) :
    (i ++ j).mapNames g = i.mapNames g ++ j.mapNames g := by
  simp only [Instance.mapNames, HAppend.hAppend, Append.append, Instance.mk.injEq, true_and]
  exact List.map_append

theorem literalText_map (hf : ∀ c, foldCase (f c) = foldCase c) (ls cs : List Char) :
    literalText (ls.map f) cs = literalText ls cs := by
  induction ls generalizing cs with
  | nil => rfl
  | cons l ls ih =>
    cases cs with
    | nil => rfl
    | cons c cs =>
      have hsame : sameLetter (f l) c = sameLetter l c := by
        rw [Bool.eq_iff_iff, sameLetter_iff, sameLetter_iff, hf]
      rw [List.map_cons, literalText, literalText, hsame, ih]

mutual

/-- **A pattern in other letters has the same instances.** -/
theorem instances_mapChars (hf : ∀ c, foldCase (f c) = foldCase c) : ∀ (p : Pattern)
    (cs : List Char), instances (mapChars f g p) cs = mapNamesAll g (instances p cs)
  | .literal text, cs => by
    rw [mapChars, instances, instances, String.toList_map, literalText_map hf, mapNamesAll,
      List.map_map]
    rfl
  | .separator, cs => by
    cases cs with
    | nil => rfl
    | cons c cs =>
      rw [mapChars, instances]
      split <;> rfl
  | .capture name, cs => by
    rw [mapChars, instances, instances, mapNamesAll, List.map_map]
    rfl
  | .wildcard, cs => by
    rw [mapChars, instances, mapNamesAll, List.map_map]
    rfl
  | .optional child, cs => by
    rw [mapChars, instances, instances, instances_mapChars hf child, mapNamesAll, mapNamesAll,
      List.map_append, List.map_map, List.map_map]
    rfl
  | .sequence children, cs => instancesAll_mapCharsAll hf children cs

theorem instancesAll_mapCharsAll (hf : ∀ c, foldCase (f c) = foldCase c) : ∀ (ps : List Pattern)
    (cs : List Char), instancesAll (mapCharsAll f g ps) cs = mapNamesAll g (instancesAll ps cs)
  | [], cs => rfl
  | p :: ps, cs => by
    rw [mapCharsAll, instancesAll, instancesAll, instances_mapChars hf p, mapNamesAll,
      mapNamesAll, List.flatMap_map, List.map_flatMap]
    refine congrArg (List.flatMap · _) (funext fun ⟨i, rest⟩ => ?_)
    dsimp only
    rw [instancesAll_mapCharsAll hf ps, mapNamesAll, List.map_map, List.map_map]
    refine List.map_congr_left fun ⟨j, rest⟩ _ => ?_
    exact Prod.ext (mapNames_append i j).symm rfl

end

/-- The way to match with other characters in the names of the captures. -/
def Finish.mapNames (g : Char → Char) (finish : Finish) : Finish :=
  { finish with captured := finish.captured.map fun taken => (taken.1.map g, taken.2) }

theorem Finish.mapNames_prepend (captured : List (String × List Char)) (finish : Finish) :
    (finish.prepend captured).mapNames g =
      (finish.mapNames g).prepend (captured.map fun taken => (taken.1.map g, taken.2)) := by
  rw [mapNames, mapNames, prepend, prepend, List.map_append]

/-- No name is captured at a border. -/
theorem map_borderAt (cs : List Char) : (borderAt cs).map (·.mapNames g) = borderAt cs := by
  cases cs with
  | nil => rfl
  | cons c cs =>
    rw [borderAt]
    split <;> rfl

theorem findAt_mapCharsAll (hf : ∀ c, foldCase (f c) = foldCase c) (ps : List Pattern)
    (cs : List Char) : findAt (mapCharsAll f g ps) cs = (findAt ps cs).map (·.mapNames g) := by
  rw [findAt, findAt, instancesAll_mapCharsAll hf, mapNamesAll, firstInstance, firstInstance,
    List.findSome?_map, List.map_findSome?]
  refine congrArg (List.findSome? · _) (funext fun ⟨i, rest⟩ => ?_)
  have hborder := map_borderAt (g := g) rest
  dsimp only [Function.comp_apply]
  cases hfinish : borderAt rest with
  | none => rfl
  | some finish =>
    rw [hfinish] at hborder
    have hsame : finish.mapNames g = finish := Option.some.inj hborder
    rw [Option.map_some, Option.map_some, Option.map_some, Finish.mapNames_prepend, hsame]
    rfl

/-- **A pattern in other letters matches the same paths in the same way.** -/
theorem find_mapCharsAll (hf : ∀ c, foldCase (f c) = foldCase c) (ps : List Pattern)
    (path : List Char) : find (mapCharsAll f g ps) path = (find ps path).map (·.mapNames g) := by
  by_cases hpath : path.head? = some '/'
  · obtain ⟨cs, rfl⟩ := List.head?_eq_some_iff.1 hpath
    rw [find_cons_slash, find_cons_slash, findAt_mapCharsAll hf, findAt_mapCharsAll hf,
      Option.map_or]
  · rw [find_of_not_slash _ hpath, find_of_not_slash _ hpath, findAt_mapCharsAll hf]

/-! ## Lower case -/

/-- The pattern in lower case. -/
def lower (p : Pattern) : Pattern := mapChars Char.toLower Char.toLower p

theorem spellChar_toLower (c : Char) : spellChar c.toLower = (spellChar c).map Char.toLower := by
  have htakes : takesBackslash c.toLower = takesBackslash c := apply_toLower (by decide) c
  rw [spellChar, spellChar, htakes]
  split <;> rfl

mutual

theorem spell_mapChars_toLower : ∀ p : Pattern,
    spell (mapChars Char.toLower Char.toLower p) = (spell p).map Char.toLower
  | .literal text => by
    rw [mapChars, spell, spell, String.toList_map, List.flatMap_map, List.map_flatMap]
    exact congrArg (List.flatMap · _) (funext spellChar_toLower)
  | .separator => rfl
  | .capture name => by
    rw [mapChars, spell, spell, String.toList_map]
    rfl
  | .wildcard => rfl
  | .optional child => by
    rw [mapChars, spell, spell, spell_mapChars_toLower child, List.map_cons, List.map_append]
    rfl
  | .sequence children => spellAll_mapCharsAll_toLower children

theorem spellAll_mapCharsAll_toLower : ∀ ps : List Pattern,
    spellAll (mapCharsAll Char.toLower Char.toLower ps) = (spellAll ps).map Char.toLower
  | [] => rfl
  | p :: ps => by
    rw [mapCharsAll, spellAll, spellAll, spell_mapChars_toLower p,
      spellAll_mapCharsAll_toLower ps, List.map_append]

end

/-- The pattern in lower case is written in lower case. -/
theorem text_lower (p : Pattern) : p.lower.text = p.text.toLower := by
  change p.lower.text = p.text.map Char.toLower
  rw [text, text, lower, spell_mapChars_toLower, String.ext_iff, String.toList_ofList,
    String.toList_map, String.toList_ofList]

theorem getLast?_toLower_eq_backslash_iff {cs : List Char} :
    (cs.map Char.toLower).getLast? = some '\\' ↔ cs.getLast? = some '\\' := by
  rw [List.getLast?_map]
  cases cs.getLast? with
  | none => rfl
  | some c =>
    simp only [Option.map_some, Option.some_inj]
    exact toLower_eq_iff (by decide) c

theorem isSequence_mapChars_iff : (mapChars f g p).IsSequence ↔ p.IsSequence := by
  cases p <;> rfl

/-- What may follow directly may do so in lower case. -/
theorem CanFollow.toLower (h : CanFollow p q) : CanFollow p.lower q.lower := by
  have hliteral : ∀ s : String, s.toList.getLast? ≠ some '\\' →
      (s.map Char.toLower).toList.getLast? ≠ some '\\' := fun s hs => by
    rw [String.toList_map]
    exact mt getLast?_toLower_eq_backslash_iff.1 hs
  cases p with
  | literal s =>
    cases q with
    | literal t => exact h
    | capture name => exact hliteral s h
    | wildcard => exact hliteral s h
    | optional child => exact hliteral s h
    | separator => trivial
    | sequence children => trivial
  | capture name =>
    cases q with
    | literal t =>
      intro c hc
      rw [String.toList_map, List.head?_map] at hc
      obtain ⟨d, hd, rfl⟩ := Option.map_eq_some_iff.1 hc
      exact (continuesName_toLower d).trans (h d hd)
    | _ => trivial
  | _ => cases q <;> trivial

theorem CanClose.toLower (h : CanClose p) : CanClose p.lower := by
  cases p with
  | literal s =>
    rw [lower, mapChars, CanClose, String.toList_map]
    exact mt getLast?_toLower_eq_backslash_iff.1 h
  | _ => trivial

mutual

/-- A canonical pattern is canonical in lower case. -/
theorem canonical_lower : ∀ {p : Pattern}, p.Everywhere CanonicalNode →
    p.lower.Everywhere CanonicalNode
  | .literal text, h => by
    obtain ⟨hne, hslash⟩ := h
    refine ⟨mt String.map_eq_empty.1 hne, fun hmem => hslash ?_⟩
    rw [String.toList_map] at hmem
    obtain ⟨c, hc, hlower⟩ := List.mem_map.1 hmem
    rwa [(toLower_eq_iff (by decide) c).1 hlower] at hc
  | .separator, h => h
  | .capture name, h => by
    rw [lower, mapChars, Everywhere, CanonicalNode, String.toList_map]
    exact isName_map_toLower h
  | .wildcard, h => h
  | .optional child, h => by
    obtain ⟨hclose, hchild⟩ := h
    refine ⟨fun last hlast => ?_, canonical_lower hchild⟩
    rw [items_mapChars, mapCharsAll_eq_map, List.getLast?_map] at hlast
    obtain ⟨item, hitem, rfl⟩ := Option.map_eq_some_iff.1 hlast
    exact (hclose item hitem).toLower
  | .sequence children, h => by
    obtain ⟨⟨hlength, hflat, hchain⟩, hall⟩ := h
    refine ⟨?_, canonicalAll_lower hall⟩
    rw [CanonicalNode, mapCharsAll_eq_map, List.length_map, List.forall_mem_map,
      List.isChain_map]
    exact ⟨hlength, fun child hchild => mt isSequence_mapChars_iff.1 (hflat child hchild),
      hchain.imp fun _ _ => CanFollow.toLower⟩

theorem canonicalAll_lower : ∀ {ps : List Pattern}, EverywhereAll CanonicalNode ps →
    EverywhereAll CanonicalNode (mapCharsAll Char.toLower Char.toLower ps)
  | [], h => h
  | _ :: _, h => ⟨canonical_lower h.1, canonicalAll_lower h.2⟩

end

/-- **A text in lower case is read as the pattern in lower case.** -/
theorem parse_toLower {text : String} (h : parse text = .ok p) :
    parse text.toLower = .ok p.lower := by
  rw [← text_of_parse h, ← text_lower]
  refine parse_text_of_canonical ?_
  rcases canonical_of_parse h with rfl | hcanonical
  · exact Or.inl (congrArg literal (String.map_eq_empty.2 rfl))
  · exact Or.inr (canonical_lower hcanonical)

end HttpGateway.Pattern
