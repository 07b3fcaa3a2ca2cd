import HttpGateway.Proofs.Pattern.Rules
import HttpGateway.Proofs.Pattern.Matches
import Mathlib.Data.List.Forall2

/-!
# Instantiating a pattern

A path is made from a pattern by giving every leaf a text: a literal any of its spellings, a capture
or a wildcard a segment (`Visit.FilledWith`). If the leaves are delimited, the matcher undoes this
(`match?_instantiate`): no capture can take more than it was given, since a `/` or the end of the
path comes after it, and the groups are all taken to be present.
-/

namespace HttpGateway

open Pattern

/-- The text that a leaf stands for in a path, given those of the captures. -/
inductive Visit.FilledWith (assigned : String → String) : Visit → List Char → Prop
  | literal {text : String} {w : List Char} :
    SameText text.toList w → FilledWith assigned (.literal text) w
  | separator : FilledWith assigned .separator ['/']
  | capture {name : String} :
    IsSegment (assigned name).toList → FilledWith assigned (.capture name) (assigned name).toList
  | wildcard {w : List Char} : IsSegment w → FilledWith assigned .wildcard w

namespace Pattern

variable {assigned : String → String} {rest w : List Char} {leaf : Visit} {ls ls' : List Visit}

/-! ## Leaves before a rest -/

/-- The text starts with a `/` or is empty. -/
def AtBorder (cs : List Char) : Prop := ∀ c ∈ cs.head?, c = '/'

/-- The leaves stand for a text before a rest, and the text of each capture and wildcard ends at a
border. -/
inductive Filled (assigned : String → String) (rest : List Char) : List Visit → List Char → Prop
  | nil : Filled assigned rest [] []
  | cons {leaf : Visit} {ls : List Visit} {v w : List Char} :
    leaf.FilledWith assigned v → (leaf.takesSegment = true → AtBorder (w ++ rest)) →
      Filled assigned rest ls w → Filled assigned rest (leaf :: ls) (v ++ w)

/-- Leaves that are delimited are filled before any border. -/
theorem filled_of_delimited {texts : List (List Char)} (hdelimited : Visit.Delimited ls)
    (hfilled : List.Forall₂ (Visit.FilledWith assigned) ls texts) (hrest : AtBorder rest) :
    Filled assigned rest ls texts.flatten := by
  induction hfilled with
  | nil => exact .nil
  | @cons leaf v ls texts hleaf hothers ih =>
    rw [Visit.Delimited, List.isChain_cons] at hdelimited
    obtain ⟨hnext, hdelimited⟩ := hdelimited
    rw [List.flatten_cons]
    refine .cons hleaf (fun htakes => ?_) (ih hdelimited)
    cases hothers with
    | nil => exact hrest
    | cons hfollowing _ =>
      -- the leaf after a segment is a separator, and is written as one
      obtain rfl := hnext _ rfl htakes
      cases hfollowing
      simp [AtBorder]

theorem filled_singleton_iff {assigned : String → String} :
    Filled assigned rest [leaf] w ↔
      leaf.FilledWith assigned w ∧ (leaf.takesSegment = true → AtBorder rest) := by
  refine ⟨fun h => ?_, fun h => ?_⟩
  · cases h with
    | cons hleaf hborder hnil =>
      cases hnil
      rw [List.append_nil]
      exact ⟨hleaf, hborder⟩
  · rw [← List.append_nil w]
    exact .cons h.1 h.2 .nil

/-- What the first leaves stand for comes before what the others stand for. -/
theorem Filled.exists_append (h : Filled assigned rest (ls ++ ls') w) :
    ∃ v u, w = v ++ u ∧ Filled assigned (u ++ rest) ls v ∧ Filled assigned rest ls' u := by
  induction ls generalizing w with
  | nil => exact ⟨[], w, rfl, .nil, h⟩
  | cons leaf ls ih =>
    cases h with
    | cons hleaf hborder hothers =>
      obtain ⟨v, u, rfl, hls, hls'⟩ := ih hothers
      rw [List.append_assoc] at hborder
      exact ⟨_ ++ v, u, (List.append_assoc _ _ _).symm, .cons hleaf hborder hls, hls'⟩

/-! ## The first instance -/

/-- Before a border the whole segment comes first. -/
theorem head?_segmentTexts (hw : IsSegment w) (hrest : AtBorder rest) :
    (segmentTexts (w ++ rest)).head? = some (w, rest) := by
  induction w with
  | nil => exact absurd rfl hw.1
  | cons c w ih =>
    have hc : c ≠ '/' := fun h => hw.2 (h ▸ List.mem_cons_self)
    rw [List.cons_append, segmentTexts, if_neg hc]
    cases w with
    | nil =>
      have hnone : segmentTexts rest = [] := by
        cases rest with
        | nil => rfl
        | cons d rest => rw [segmentTexts, if_pos (hrest d rfl)]
      rw [List.nil_append, hnone]
      rfl
    | cons d w =>
      have hsegment : IsSegment (d :: w) :=
        ⟨List.cons_ne_nil d w, fun h => hw.2 (List.mem_cons_of_mem c h)⟩
      rw [List.head?_append, List.head?_map, ih hsegment]
      rfl

/-- The first instance of a capture or a wildcard before a border is the whole segment. -/
theorem head?_map_segmentTexts (captured : List Char → List (String × List Char))
    (hw : IsSegment w) (hrest : AtBorder rest) :
    ((segmentTexts (w ++ rest)).map fun (w, rest) => ((⟨w, [.segment w], captured w⟩ : Instance),
      rest)).head? = some (⟨w, [.segment w], captured w⟩, rest) := by
  rw [List.head?_map, head?_segmentTexts hw hrest, Option.map_some]

/-- The texts of the captures with the given names. -/
def assignedTexts (assigned : String → String) (names : List String) :
    List (String × List Char) :=
  names.map fun name => (name, (assigned name).toList)

/-- The first instance of the pattern at the start of the text is the one that leaves the rest, and
its captures have the texts that they were given. -/
def TakesFirst (assigned : String → String) (rest : List Char) (names : List String)
    (is : List (Instance × List Char)) : Prop :=
  ∃ i, is.head? = some (i, rest) ∧ i.captured = assignedTexts assigned names

mutual

/-- **The first instance of a pattern is the one that it was filled with.** -/
theorem takesFirst_instances : ∀ (p : Pattern) {rest w : List Char},
    Filled assigned rest (leaves p) w →
      TakesFirst assigned rest p.captureNames (instances p (w ++ rest))
  | .literal text, rest, w, h => by
    obtain ⟨hleaf, -⟩ := filled_singleton_iff.1 h
    cases hleaf with
    | literal hsame =>
      have htext := literalText_eq_some_iff.2 ⟨hsame, (rfl : w ++ rest = _)⟩
      rw [instances, htext]
      exact ⟨_, rfl, rfl⟩
  | .separator, rest, w, h => by
    obtain ⟨hleaf, -⟩ := filled_singleton_iff.1 h
    cases hleaf
    exact ⟨_, rfl, rfl⟩
  | .capture name, rest, w, h => by
    obtain ⟨hleaf, hborder⟩ := filled_singleton_iff.1 h
    cases hleaf with
    | capture hsegment =>
      rw [instances]
      exact ⟨_, head?_map_segmentTexts (fun w => [(name, w)]) hsegment (hborder rfl), rfl⟩
  | .wildcard, rest, w, h => by
    obtain ⟨hleaf, hborder⟩ := filled_singleton_iff.1 h
    cases hleaf with
    | wildcard hsegment =>
      rw [instances]
      exact ⟨_, head?_map_segmentTexts (fun _ => []) hsegment (hborder rfl), rfl⟩
  | .optional child, rest, w, h => by
    rw [leaves_optional] at h
    obtain ⟨i, hhead, hcaptured⟩ := takesFirst_instances child h
    refine ⟨⟨i.text, .group true :: i.choices, i.captured⟩, ?_, hcaptured⟩
    rw [instances, List.head?_append, List.head?_map, hhead, Option.map_some, Option.some_or]
  | .sequence children, rest, w, h => takesFirst_instancesAll children h

theorem takesFirst_instancesAll : ∀ (ps : List Pattern) {rest w : List Char},
    Filled assigned rest (leavesAll ps) w →
      TakesFirst assigned rest (captureNamesAll ps) (instancesAll ps (w ++ rest))
  | [], rest, w, h => by
    cases h
    exact ⟨_, rfl, rfl⟩
  | p :: ps, rest, w, h => by
    rw [leavesAll_cons] at h
    obtain ⟨v, u, rfl, hfirst, hothers⟩ := h.exists_append
    obtain ⟨i, hi, hicaptured⟩ := takesFirst_instances p hfirst
    obtain ⟨j, hj, hjcaptured⟩ := takesFirst_instancesAll ps hothers
    obtain ⟨is, his⟩ := List.head?_eq_some_iff.1 hi
    refine ⟨i ++ j, ?_, ?_⟩
    · rw [List.append_assoc, instancesAll, List.head?_flatMap, his, List.findSome?_cons,
        List.head?_map, hj]
      rfl
    · rw [Instance.captured_append, hicaptured, hjcaptured, captureNamesAll, assignedTexts,
        assignedTexts, assignedTexts, List.map_append]

end

/-! ## The path -/

/-- A text that the items are filled with is found after a leading `/`, before any border. -/
theorem find_of_filled {core : List Pattern} {suffix : List Char}
    (hborder : borderAt rest = some ⟨[], suffix⟩) (h : Filled assigned rest (leavesAll core) w) :
    find core ('/' :: (w ++ rest)) =
      some ⟨assignedTexts assigned (captureNamesAll core), suffix⟩ := by
  obtain ⟨i, hhead, hcaptured⟩ := takesFirst_instancesAll core h
  obtain ⟨is, his⟩ := List.head?_eq_some_iff.1 hhead
  have hfound : findAt core (w ++ rest) = some ((⟨[], suffix⟩ : Finish).prepend i.captured) := by
    rw [findAt, firstInstance, his, List.findSome?_cons]
    dsimp only
    rw [hborder, Option.map_some]
  rw [find_cons_slash, hfound, Option.some_or, hcaptured, Finish.prepend, List.append_nil]

end Pattern

section Instantiation

variable {text : String} {pattern : Pattern} {matcher : Matcher} {assigned : String → String}
  {texts : List (List Char)}

/-- A path that is made from texts for all leaves, before a border. -/
theorem match?_of_filled {rest suffix : List Char} (hborder : borderAt rest = some ⟨[], suffix⟩)
    (hfilled : Filled assigned rest (leavesAll pattern.core) texts.flatten) {path : String}
    (hpath : path.toList = '/' :: (texts.flatten ++ rest)) :
    (⟨pattern.core, pattern.captureNames⟩ : Matcher).match? path =
      some ⟨pattern.captureNames.map fun name => (name, assigned name), String.ofList suffix⟩ := by
  rw [Matcher.match?, hpath, find_of_filled hborder hfilled, Option.map_some, Option.some_inj,
    MatchedPath.mk.injEq, captureNamesAll_core]
  refine ⟨List.map_congr_left fun name hname => ?_, rfl⟩
  rw [assignedTexts, List.lookup_graph _ hname, Option.getD_some, String.ofList_toList]

/-- **Matching undoes instantiation.** If the leaves of the core are delimited, a path that is made
from texts for all of them is matched, and each capture has the text that it was given. What comes
after the next `/` is the suffix. -/
theorem match?_instantiate (hread : Pattern.parse text = .ok pattern)
    (hmatcher : Route.matcherOf text = .ok matcher)
    (hdelimited : Visit.Delimited (leavesAll pattern.core))
    (hfilled : List.Forall₂ (Visit.FilledWith assigned) (leavesAll pattern.core) texts)
    (suffix : String) :
    matcher.match? ("/" ++ String.ofList texts.flatten ++ "/" ++ suffix) =
        some ⟨pattern.captureNames.map fun name => (name, assigned name), suffix⟩ ∧
      matcher.match? ("/" ++ String.ofList texts.flatten) =
        some ⟨pattern.captureNames.map fun name => (name, assigned name), ""⟩ := by
  obtain ⟨-, rfl⟩ := Route.matcherOf_eq_ok hread hmatcher
  have hslash : AtBorder ('/' :: suffix.toList) := by simp [AtBorder]
  have hend : AtBorder [] := by simp [AtBorder]
  constructor
  · have hpath : ("/" ++ String.ofList texts.flatten ++ "/" ++ suffix).toList =
        '/' :: (texts.flatten ++ '/' :: suffix.toList) := by simp
    rw [match?_of_filled rfl (filled_of_delimited hdelimited hfilled hslash) hpath,
      String.ofList_toList]
  · have hpath : ("/" ++ String.ofList texts.flatten).toList = '/' :: (texts.flatten ++ []) := by
      simp
    exact match?_of_filled rfl (filled_of_delimited hdelimited hfilled hend) hpath

/-- The tree of `/kit(/:x(/*))/:y`. -/
def delimitedGroups : Pattern :=
  .sequence [.separator, .literal "kit",
    .optional (.sequence [.separator, .capture "x", .optional (.sequence [.separator, .wildcard])]),
    .separator, .capture "y"]

theorem matcherOf_delimitedGroups : Route.matcherOf "/kit(/:x(/*))/:y" =
    .ok ⟨delimitedGroups.core, delimitedGroups.captureNames⟩ :=
  Route.matcherOf_eq_ok_iff.2 ⟨delimitedGroups, rfl, rfl,
    Matcher.compile_of_limits (by decide) (by decide) (by decide +kernel)⟩

/-- The literal is written with a Kelvin sign, and the suffix starts with a `/`. -/
theorem match?_instantiate_delimitedGroups :
    let matcher : Matcher := ⟨delimitedGroups.core, delimitedGroups.captureNames⟩
    matcher.match? "/\u212AIt/u-v/w/9//rest" = some ⟨[("x", "u-v"), ("y", "9")], "/rest"⟩ ∧
      matcher.match? "/\u212AIt/u-v/w/9" = some ⟨[("x", "u-v"), ("y", "9")], ""⟩ := by
  have hfilled : List.Forall₂ (Visit.FilledWith fun name => if name = "x" then "u-v" else "9")
      (leavesAll delimitedGroups.core)
      ["\u212AIt".toList, ['/'], "u-v".toList, ['/'], ['w'], ['/'], "9".toList] :=
    .cons (.literal (by decide +kernel)) <| .cons .separator <| .cons (.capture (by decide)) <|
      .cons .separator <| .cons (.wildcard (by decide)) <| .cons .separator <|
      .cons (.capture (by decide)) .nil
  exact match?_instantiate rfl matcherOf_delimitedGroups (by decide) hfilled "/rest"

end Instantiation

end HttpGateway
