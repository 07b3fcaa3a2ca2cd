import HttpGateway.Proofs.Pattern.CaseVariants
import HttpGateway.Proofs.Pattern.Matches
import HttpGateway.Proofs.Pattern.Places
import HttpGateway.Proofs.Pattern.Rules
import HttpGateway.Proofs.Text.LetterCase
import Mathlib.Logic.Function.Basic

/-!
# Matching in any case

On paths that are the same up to case, a search with backtracking meets the same choices: its
instances agree one by one in the sizes of their choices, and what they leave is again the same up
to case (`alike_instances`). So the first splits of such paths have the same places. The letters of
a pattern count up to case only (`CaseVariant`): a pattern in other letters has the same captures,
is as large as before, and makes a matcher with the same answers (`compile_mapChars`).
-/

namespace HttpGateway.Pattern

open Text

/-! ## Paths in other letters -/

/-- Two texts of the same length, each before what is left, that leave the same text up to case. -/
def AlikeText (a b : List Char × List Char) : Prop := a.1.length = b.1.length ∧ SameText a.2 b.2

/-- Two instances with choices of the same sizes that leave the same text up to case. -/
def Alike (a b : Instance × List Char) : Prop := a.1.sizes = b.1.sizes ∧ SameText a.2 b.2

variable {cs ds : List Char}

theorem sameText_iff_forall₂ :
    SameText cs ds ↔ List.Forall₂ (fun c d => foldCase c = foldCase d) cs ds := by
  rw [SameText, ← List.forall₂_eq_eq_eq, List.forall₂_map_left_iff, List.forall₂_map_right_iff]

/-- Characters that fold alike are both `/` or both something else. -/
theorem ite_slash {α : Type} {R : α → α → Prop} {c d : Char} (h : foldCase c = foldCase d)
    {a b a' b' : α} (hyes : R a b) (hno : R a' b') :
    R (if c = '/' then a else a') (if d = '/' then b else b') := by
  have hslash : c = '/' ↔ d = '/' := by
    rw [← foldCase_eq_slash_iff c, h, foldCase_eq_slash_iff]
  by_cases hc : c = '/'
  · rw [if_pos hc, if_pos (hslash.1 hc)]
    exact hyes
  · rw [if_neg hc, if_neg (mt hslash.2 hc)]
    exact hno

/-- Texts that are alike are so with one more character before each. -/
theorem alikeText_cons {as bs : List (List Char × List Char)} (h : List.Forall₂ AlikeText as bs)
    (c d : Char) :
    List.Forall₂ AlikeText (as.map fun (w, rest) => (c :: w, rest))
      (bs.map fun (w, rest) => (d :: w, rest)) := by
  rw [List.forall₂_map_left_iff, List.forall₂_map_right_iff]
  exact h.imp fun a b hab => ⟨congrArg (· + 1) hab.1, hab.2⟩

theorem alike_literalText (ls : List Char) (h : SameText cs ds) :
    List.Forall₂ AlikeText (literalText ls cs).toList (literalText ls ds).toList := by
  induction ls generalizing cs ds with
  | nil => exact .cons ⟨rfl, h⟩ .nil
  | cons l ls ih =>
    cases sameText_iff_forall₂.1 h with
    | nil => exact .nil
    | @cons c d cs ds hcd hrest =>
      have hsame : sameLetter l c = sameLetter l d := by
        rw [Bool.eq_iff_iff, sameLetter_iff, sameLetter_iff, hcd]
      rw [literalText, literalText, hsame]
      split
      · rw [Option.toList_map, Option.toList_map]
        exact alikeText_cons (ih (sameText_iff_forall₂.2 hrest)) c d
      · exact .nil

theorem alike_segmentTexts (h : SameText cs ds) :
    List.Forall₂ AlikeText (segmentTexts cs) (segmentTexts ds) := by
  induction sameText_iff_forall₂.1 h with
  | nil => exact .nil
  | @cons c d cs ds hcd hrest ih =>
    have hsame := sameText_iff_forall₂.2 hrest
    rw [segmentTexts, segmentTexts]
    exact ite_slash hcd .nil (List.rel_append (alikeText_cons (ih hsame) c d)
      (.cons ⟨rfl, hsame⟩ .nil))

/-- The instances of a capture or a wildcard. -/
theorem alike_map_segmentTexts (captured : List Char → List (String × List Char))
    (h : SameText cs ds) :
    List.Forall₂ Alike
      ((segmentTexts cs).map fun (w, rest) => (⟨w, [.segment w], captured w⟩, rest))
      ((segmentTexts ds).map fun (w, rest) => (⟨w, [.segment w], captured w⟩, rest)) := by
  rw [List.forall₂_map_left_iff, List.forall₂_map_right_iff]
  exact (alike_segmentTexts h).imp fun a b hab => ⟨congrArg (fun n => [n]) hab.1, hab.2⟩

mutual

/-- **On the same text up to case, the instances of a pattern agree one by one.** -/
theorem alike_instances : ∀ (p : Pattern) {cs ds : List Char}, SameText cs ds →
    List.Forall₂ Alike (instances p cs) (instances p ds)
  | .literal text, cs, ds, h => by
    rw [instances, instances, List.forall₂_map_left_iff, List.forall₂_map_right_iff]
    exact (alike_literalText text.toList h).imp fun a b hab => ⟨rfl, hab.2⟩
  | .separator, cs, ds, h => by
    cases sameText_iff_forall₂.1 h with
    | nil => exact .nil
    | @cons c d cs ds hcd hrest =>
      rw [instances, instances]
      exact ite_slash hcd (.cons ⟨rfl, sameText_iff_forall₂.2 hrest⟩ .nil) .nil
  | .capture name, cs, ds, h => alike_map_segmentTexts (fun w => [(name, w)]) h
  | .wildcard, cs, ds, h => alike_map_segmentTexts (fun _ => []) h
  | .optional child, cs, ds, h => by
    rw [instances, instances]
    refine List.rel_append ?_ (.cons ⟨rfl, h⟩ .nil)
    rw [List.forall₂_map_left_iff, List.forall₂_map_right_iff]
    exact (alike_instances child h).imp fun a b hab => ⟨congrArg (1 :: ·) hab.1, hab.2⟩
  | .sequence children, cs, ds, h => alike_instancesAll children h

theorem alike_instancesAll : ∀ (ps : List Pattern) {cs ds : List Char}, SameText cs ds →
    List.Forall₂ Alike (instancesAll ps cs) (instancesAll ps ds)
  | [], cs, ds, h => .cons ⟨rfl, h⟩ .nil
  | p :: ps, cs, ds, h => by
    rw [instancesAll, instancesAll]
    -- What the first pattern leaves is the same up to case, so the others go on alike from there.
    refine List.rel_flatMap (alike_instances p h) fun a b hab => ?_
    rw [List.forall₂_map_left_iff, List.forall₂_map_right_iff]
    refine (alike_instancesAll ps hab.2).imp fun i j hij => ⟨?_, hij.2⟩
    rw [Instance.sizes_append, Instance.sizes_append, hab.1, hij.1]

end

theorem alike_borderText (h : SameText cs ds) :
    List.Forall₂ AlikeText (borderText cs).toList (borderText ds).toList := by
  cases sameText_iff_forall₂.1 h with
  | nil => exact .cons ⟨rfl, h⟩ .nil
  | @cons c d cs ds hcd hrest =>
    rw [borderText, borderText, apply_ite Option.toList, apply_ite Option.toList]
    exact ite_slash hcd (.cons ⟨rfl, sameText_iff_forall₂.2 hrest⟩ .nil) .nil

theorem alike_leads (h : SameText cs ds) :
    List.Forall₂ AlikeText (leads cs) (leads ds) := by
  cases sameText_iff_forall₂.1 h with
  | nil => exact .cons ⟨rfl, h⟩ .nil
  | @cons c d cs ds hcd hrest =>
    have hsame := sameText_iff_forall₂.2 hrest
    rw [leads, leads]
    exact ite_slash hcd (.cons ⟨rfl, hsame⟩ (.cons ⟨rfl, h⟩ .nil)) (.cons ⟨rfl, h⟩ .nil)

/-- **Paths that are the same up to case are split at the same places, one by one.** -/
theorem places_splits (core : List Pattern) (h : SameText cs ds) :
    List.Forall₂ (fun s t => s.places core = t.places core) (splits core cs) (splits core ds) := by
  refine List.rel_flatMap (alike_leads h) fun a b hlead => ?_
  refine List.rel_flatMap (alike_instancesAll core hlead.2) fun i j hij => ?_
  rw [List.forall₂_map_left_iff, List.forall₂_map_right_iff]
  refine (alike_borderText hij.2).imp fun c d hborder => ?_
  rw [Split.places, Split.places]
  dsimp only
  rw [hlead.1, hij.1, hborder.1]

/-! ## Patterns in other letters -/

/-- The same pattern with other characters in its literals, equal up to case. -/
def CaseVariant (p q : Pattern) : Prop := mapChars foldCase id p = mapChars foldCase id q

instance (p q : Pattern) : Decidable (CaseVariant p q) := inferInstanceAs (Decidable (_ = _))

variable {f : Char → Char} {p q : Pattern}

mutual

theorem mapChars_comp (f f' : Char → Char) : ∀ p : Pattern,
    mapChars f id (mapChars f' id p) = mapChars (f ∘ f') id p
  | .literal text => by rw [mapChars, mapChars, mapChars, String.map_map]
  | .separator => rfl
  | .capture name => by rw [mapChars, mapChars, mapChars, String.map_map]; rfl
  | .wildcard => rfl
  | .optional child => by rw [mapChars, mapChars, mapChars, mapChars_comp f f' child]
  | .sequence children => by rw [mapChars, mapChars, mapChars, mapCharsAll_comp f f' children]

theorem mapCharsAll_comp (f f' : Char → Char) : ∀ ps : List Pattern,
    mapCharsAll f id (mapCharsAll f' id ps) = mapCharsAll (f ∘ f') id ps
  | [] => rfl
  | p :: ps => by
    rw [mapCharsAll, mapCharsAll, mapCharsAll, mapChars_comp f f' p, mapCharsAll_comp f f' ps]

end

/-- Writing other letters that fold alike makes a variant. -/
theorem caseVariant_mapChars (hf : ∀ c, foldCase (f c) = foldCase c) (p : Pattern) :
    CaseVariant p (mapChars f id p) := by
  have hfold : foldCase ∘ f = foldCase := funext hf
  rw [CaseVariant, mapChars_comp, hfold]

/-- What does not change with the letters of a pattern is the same for its variants. -/
theorem CaseVariant.congr {α : Type} {F : Pattern → α} (h : CaseVariant p q)
    (hF : ∀ f, (∀ c, foldCase (f c) = foldCase c) → ∀ p, F (mapChars f id p) = F p) :
    F p = F q := by
  -- Any choice of one letter among those that fold alike will do; folding twice is not needed.
  let letter : Char → Char := Function.invFun foldCase
  have hletter : ∀ c, foldCase ((letter ∘ foldCase) c) = foldCase c := fun c =>
    Function.invFun_eq ⟨c, rfl⟩
  rw [← hF _ hletter p, ← mapChars_comp, h, mapChars_comp, hF _ hletter q]

/-- What a walk meets, with other characters in a literal. -/
def withLetters (f : Char → Char) : Visit → Visit
  | .literal text => .literal (text.map f)
  | v => v

mutual

theorem visits_mapChars : ∀ p : Pattern,
    visits (mapChars f id p) = (visits p).map (withLetters f)
  | .literal text => rfl
  | .separator => rfl
  | .capture name => by rw [mapChars, String.map_id]; rfl
  | .wildcard => rfl
  | .optional child => by
    rw [mapChars, visits, visits, visits_mapChars child, List.map_cons, List.map_append]
    rfl
  | .sequence children => visitsAll_mapCharsAll children

theorem visitsAll_mapCharsAll : ∀ ps : List Pattern,
    visitsAll (mapCharsAll f id ps) = (visitsAll ps).map (withLetters f)
  | [] => rfl
  | p :: ps => by
    rw [mapCharsAll, visitsAll, visitsAll, visits_mapChars p, visitsAll_mapCharsAll ps,
      List.map_append]

end

theorem captureNames_mapChars (p : Pattern) : captureNames (mapChars f id p) = captureNames p := by
  rw [captureNames_eq_filterMap, captureNames_eq_filterMap, visits_mapChars, List.filterMap_map]
  refine congrArg (List.filterMap · _) (funext fun v => ?_)
  cases v <;> rfl

/-- A walk that does not look at the text of literals does the same in other letters. -/
theorem walk_mapChars {m : Type → Type} [Monad m] [LawfulMonad m] {visit : Visit → m Unit}
    (h : ∀ s t, visit (.literal s) = visit (.literal t)) (p : Pattern) :
    walk visit (mapChars f id p) = walk visit p := by
  have hvisit : ∀ v, visit (withLetters f v) = visit v := fun v => by
    cases v with
    | literal text => exact h _ _
    | _ => rfl
  rw [walk_eq_forM, walk_eq_forM, visits_mapChars, List.forM_map]
  exact congrArg _ (funext hvisit)

theorem check_mapChars (p : Pattern) : check (mapChars f id p) = check p := by
  rw [check, check, checkUnique, checkUnreserved, checkSeparated, walk_mapChars fun _ _ => rfl,
    walk_mapChars fun _ _ => rfl, walk_mapChars fun _ _ => rfl]
  rfl

/-- Characters that fold alike take the same states. -/
theorem charSize_congr {c d : Char} (h : foldCase c = foldCase d) : charSize c = charSize d := by
  have hforms := caseForms_congr h
  simp only [charSize]
  rw [hforms]
  split
  · next hone =>
    obtain ⟨e, he⟩ := List.length_eq_one_iff.1 (beq_iff_eq.1 hone)
    have hc := mem_caseForms c
    have hd := mem_caseForms d
    rw [hforms, he, List.mem_singleton] at hc
    rw [he, List.mem_singleton] at hd
    rw [hc, hd]
  · rfl

mutual

/-- A pattern in other letters has as many items, as deeply nested, and takes as many states. -/
theorem measures_mapChars (hf : ∀ c, foldCase (f c) = foldCase c) : ∀ p : Pattern,
    regexItems (mapChars f id p) = regexItems p ∧ itemNesting (mapChars f id p) = itemNesting p ∧
      bodySize (mapChars f id p) = bodySize p
  | .literal text => by
    refine ⟨String.length_map, rfl, ?_⟩
    have hsize : ∀ c, charSize (f c) = charSize c := fun c => charSize_congr (hf c)
    rw [mapChars, bodySize, bodySize, String.toList_map, List.foldr_map]
    simp only [hsize]
  | .separator => ⟨rfl, rfl, rfl⟩
  | .capture name => ⟨rfl, rfl, rfl⟩
  | .wildcard => ⟨rfl, rfl, rfl⟩
  | .optional child => by
    obtain ⟨hitems, hnesting, hsize⟩ := measures_mapChars hf child
    refine ⟨rfl, ?_, ?_⟩
    · rw [mapChars, itemNesting, itemNesting, hitems, hnesting]
    · rw [mapChars, bodySize, bodySize, hitems, hsize]
  | .sequence children => measuresAll_mapCharsAll hf children

theorem measuresAll_mapCharsAll (hf : ∀ c, foldCase (f c) = foldCase c) : ∀ ps : List Pattern,
    regexItemsAll (mapCharsAll f id ps) = regexItemsAll ps ∧
      itemNestingAll (mapCharsAll f id ps) = itemNestingAll ps ∧
      bodySizeAll (mapCharsAll f id ps) = bodySizeAll ps
  | [] => ⟨rfl, rfl, rfl⟩
  | p :: ps => by
    obtain ⟨hitems, hnesting, hsize⟩ := measures_mapChars hf p
    obtain ⟨hitemsAll, hnestingAll, hsizeAll⟩ := measuresAll_mapCharsAll hf ps
    refine ⟨?_, ?_, ?_⟩
    · rw [mapCharsAll, regexItemsAll, regexItemsAll, hitems, hitemsAll]
    · rw [mapCharsAll, itemNestingAll, itemNestingAll, hnesting, hnestingAll]
    · rw [mapCharsAll, bodySizeAll, bodySizeAll, hsize, hsizeAll]

end

theorem match?_mapCharsAll (hf : ∀ c, foldCase (f c) = foldCase c) (core : List Pattern)
    (names : List String) :
    Matcher.match? ⟨mapCharsAll f id core, names⟩ = Matcher.match? ⟨core, names⟩ := by
  have hnames : ∀ finish : Finish, finish.mapNames id = finish := fun finish => by
    simp [Finish.mapNames]
  funext path
  simp only [Matcher.match?, find_mapCharsAll hf, hnames, Option.map_id']

/-- The matcher of a pattern in other letters gives the same answers. -/
theorem compile_mapChars (hf : ∀ c, foldCase (f c) = foldCase c) (p : Pattern) :
    (Matcher.compile (mapChars f id p)).map Matcher.match? =
      (Matcher.compile p).map Matcher.match? := by
  obtain ⟨-, hitems, hbody⟩ := measuresAll_mapCharsAll hf p.core
  have hnesting : nesting (mapChars f id p).core = nesting p.core := by
    rw [core_mapChars, nesting, nesting, hitems]
  have hsize : footprint (mapChars f id p).core = footprint p.core := by
    rw [core_mapChars, footprint, footprint, hbody]
  unfold Matcher.compile
  dsimp only
  rw [captureNames_mapChars, hnesting, hsize, core_mapChars]
  split
  · rfl
  split
  · rfl
  split
  · rfl
  exact congrArg Except.ok (match?_mapCharsAll hf p.core p.captureNames)

end HttpGateway.Pattern

namespace HttpGateway

open Text Pattern

/-- Of two paths that are the same up to case, either none matches or both match at the same
places. -/
theorem Matcher.matchesAt_of_sameText (matcher : Matcher) {path other : String}
    (h : SameText path.toList other.toList) :
    (matcher.match? path = none ∧ matcher.match? other = none) ∨
      ∃ places, matcher.MatchesAt path places ∧ matcher.MatchesAt other places := by
  have hplaces := places_splits matcher.core h
  cases hsplits : splits matcher.core path.toList with
  | nil =>
    rw [hsplits, List.forall₂_nil_left_iff] at hplaces
    rw [match?_eq_head?, match?_eq_head?, hsplits, hplaces]
    exact Or.inl ⟨rfl, rfl⟩
  | cons first more =>
    rw [hsplits, List.forall₂_cons_left_iff] at hplaces
    obtain ⟨second, others, hsame, -, hother⟩ := hplaces
    have hfirst := matchesAt_of_head? (congrArg List.head? hsplits)
    have hsecond := matchesAt_of_head? (congrArg List.head? hother)
    exact Or.inr ⟨_, hfirst, hsame ▸ hsecond⟩

/-- The case variants of a pattern make matchers with its answers. -/
theorem Matcher.exists_compile_caseVariant {p q : Pattern} {matcher : Matcher}
    (hcompile : Matcher.compile p = .ok matcher) (h : CaseVariant p q) :
    ∃ other, Matcher.compile q = .ok other ∧ other.match? = matcher.match? := by
  have hsame : (Matcher.compile p).map match? = (Matcher.compile q).map match? :=
    h.congr (F := fun p => (Matcher.compile p).map match?) fun f hf => compile_mapChars hf
  rw [hcompile] at hsame
  cases hother : Matcher.compile q with
  | error fault =>
    rw [hother] at hsame
    cases hsame
  | ok other =>
    rw [hother] at hsame
    exact ⟨other, rfl, (Except.ok.inj hsame).symm⟩

/-- **Matching ignores case.** Of paths that are the same up to case all or none match, with the
captures and the suffix at the same places of each. And a pattern with its literals in other letters
is accepted and has the same answers on every path. -/
theorem matching_ignores_case {text : String} {pattern : Pattern} {matcher : Matcher}
    (hread : Pattern.parse text = .ok pattern) (hmatcher : Route.matcherOf text = .ok matcher) :
    (∀ path other : String, SameText path.toList other.toList →
      (matcher.match? path = none ∧ matcher.match? other = none) ∨
        ∃ places, matcher.MatchesAt path places ∧ matcher.MatchesAt other places) ∧
    ∀ variant, CaseVariant pattern variant →
      variant.check = .ok () ∧
        ∃ other, Matcher.compile variant = .ok other ∧
          ∀ path, other.match? path = matcher.match? path := by
  obtain ⟨tree, htree, hcheck, hcompile⟩ := Route.matcherOf_eq_ok_iff.1 hmatcher
  obtain rfl : pattern = tree := Except.ok.inj (hread.symm.trans htree)
  refine ⟨fun path other => matcher.matchesAt_of_sameText, fun variant hvariant => ⟨?_, ?_⟩⟩
  · rw [← hvariant.congr (F := check) fun f _ => check_mapChars, hcheck]
  · obtain ⟨other, hother, hmatch⟩ := Matcher.exists_compile_caseVariant hcompile hvariant
    exact ⟨other, hother, congrFun hmatch⟩

/-- The Kelvin sign is a letter `k`, though it takes three bytes. -/
theorem matching_ignores_case_kelvin :
    let small : Matcher := ⟨nestedGroups.core, nestedGroups.captureNames⟩
    let capital := mapChars (fun c => if c = 'a' then 'A' else c) id nestedGroups
    small.match? "/A/\u212A-V/w/rest" = some ⟨[("x", "\u212A-V"), ("y", "")], "rest"⟩ ∧
      (∃ places, small.MatchesAt "/A/\u212A-V/w/rest" places ∧
        small.MatchesAt "/a/k-v/W/rest" places) ∧
      ∃ matcher, Matcher.compile capital = .ok matcher ∧
        matcher.match? "/A/\u212A-V/w/rest" = small.match? "/A/\u212A-V/w/rest" := by
  intro small capital
  have hfound : small.match? "/A/\u212A-V/w/rest" =
      some ⟨[("x", "\u212A-V"), ("y", "")], "rest"⟩ := by decide +kernel
  have hcapital : CaseVariant nestedGroups capital := by
    refine caseVariant_mapChars (fun c => ?_) nestedGroups
    split
    · next h => rw [h]; rfl
    · rfl
  obtain ⟨hpaths, hvariants⟩ := matching_ignores_case rfl matcherOf_nestedGroups
  obtain ⟨-, matcher, hmatcher, hanswers⟩ := hvariants capital hcapital
  refine ⟨hfound, ?_, matcher, hmatcher, hanswers _⟩
  obtain ⟨hnone, -⟩ | hplaces :=
    hpaths "/A/\u212A-V/w/rest" "/a/k-v/W/rest" (by decide +kernel)
  · rw [hfound] at hnone
    cases hnone
  · exact hplaces

end HttpGateway
