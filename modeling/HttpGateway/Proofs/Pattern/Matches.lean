import HttpGateway.Proofs.Pattern.Yields
import HttpGateway.Route.Basic

/-!
# What a matcher answers

A matcher answers exactly for the paths that its pattern can split, with what a split yields
(`match?_iff_isSplit`), and that split is the first one (`match?_eq_first_split`).
-/

namespace HttpGateway

open Pattern

/-! ## Matchers of written patterns -/

theorem Matcher.compile_eq_ok {pattern : Pattern} {matcher : Matcher}
    (h : Matcher.compile pattern = .ok matcher) :
    pattern.captureNames.Nodup ∧ matcher = ⟨pattern.core, pattern.captureNames⟩ := by
  simp only [Matcher.compile] at h
  split at h
  · simp at h
  · next hnodup =>
    refine ⟨Decidable.not_not.1 hnodup, ?_⟩
    split at h
    · simp at h
    · split at h
      · simp at h
      · exact (Except.ok.inj h).symm

theorem Matcher.compile_of_limits {pattern : Pattern} (hnodup : pattern.captureNames.Nodup)
    (hnesting : ¬nesting pattern.core > nestingLimit)
    (hsize : ¬footprint pattern.core > sizeLimit) :
    Matcher.compile pattern = .ok ⟨pattern.core, pattern.captureNames⟩ := by
  simp only [Matcher.compile]
  rw [if_neg (Decidable.not_not.2 hnodup), if_neg hnesting, if_neg hsize]

theorem mapError_eq_ok_iff {ε ε' α : Type} {f : ε → ε'} {x : Except ε α} {a : α} :
    x.mapError f = .ok a ↔ x = .ok a := by
  cases x with
  | error e => exact ⟨nofun, nofun⟩
  | ok b => exact ⟨fun h => congrArg _ (Except.ok.inj h), fun h => congrArg _ (Except.ok.inj h)⟩

theorem Route.matcherOf_eq_ok_iff {text : String} {matcher : Matcher} :
    Route.matcherOf text = .ok matcher ↔
      ∃ pattern, Pattern.parse text = .ok pattern ∧ pattern.check = .ok () ∧
        Matcher.compile pattern = .ok matcher := by
  rw [Route.matcherOf]
  cases hread : Pattern.parse text with
  | error fault => simp [bind, Except.bind]
  | ok pattern =>
    cases hcheck : pattern.check with
    | error fault => simp [bind, Except.bind, hcheck]
    | ok _ => simp [bind, Except.bind, hcheck, mapError_eq_ok_iff]

/-! ## What a matcher answers -/

section Answers

variable {text : String} {pattern : Pattern} {matcher : Matcher}

/-- The matcher of a written pattern has the core and the captures of its tree. -/
theorem Route.matcherOf_eq_ok (hread : Pattern.parse text = .ok pattern)
    (hmatcher : Route.matcherOf text = .ok matcher) :
    pattern.captureNames.Nodup ∧ matcher = ⟨pattern.core, pattern.captureNames⟩ := by
  obtain ⟨tree, htree, -, hcompile⟩ := Route.matcherOf_eq_ok_iff.1 hmatcher
  obtain rfl : pattern = tree := Except.ok.inj (hread.symm.trans htree)
  exact Matcher.compile_eq_ok hcompile

theorem Matcher.match?_eq_none_iff {core : List Pattern} {names : List String} {path : String} :
    (⟨core, names⟩ : Matcher).match? path = none ↔
      ∀ split, ¬IsSplit core path.toList split := by
  rw [Matcher.match?, Option.map_eq_none_iff, find_eq_none_iff]

/-- An answer is what the first split yields. -/
theorem Matcher.yields_of_match? (hnodup : pattern.captureNames.Nodup) {path : String}
    {found : MatchedPath}
    (h : (⟨pattern.core, pattern.captureNames⟩ : Matcher).match? path = some found) :
    ∃ split, IsFirstSplit pattern.core path.toList split ∧
      split.Yields pattern.captureNames found := by
  obtain ⟨finish, hfind, hfound⟩ := Option.map_eq_some_iff.1 h
  obtain ⟨split, hfirst, rfl⟩ := exists_isFirstSplit_of_find hfind
  exact ⟨split, hfirst, hfound ▸ Split.yields hnodup hfirst.isSplit.sublist_captureNames⟩

/-- The tree of `/a(/:x(-:y))/*`. -/
def nestedGroups : Pattern :=
  .sequence [.separator, .literal "a",
    .optional (.sequence [.separator, .capture "x",
      .optional (.sequence [.literal "-", .capture "y"])]),
    .separator, .wildcard]

theorem matcherOf_nestedGroups : Route.matcherOf "/a(/:x(-:y))/*" =
    .ok ⟨nestedGroups.core, nestedGroups.captureNames⟩ :=
  Route.matcherOf_eq_ok_iff.2 ⟨nestedGroups, rfl, rfl,
    Matcher.compile_of_limits (by decide) (by decide) (by decide +kernel)⟩

/-- **A path is matched exactly if the pattern splits it**, and the answer is what one of the
splits yields. -/
theorem match?_iff_isSplit (hread : Pattern.parse text = .ok pattern)
    (hmatcher : Route.matcherOf text = .ok matcher) (path : String) :
    ((∃ found, matcher.match? path = some found) ↔
        ∃ split, IsSplit pattern.core path.toList split) ∧
      ∀ found, matcher.match? path = some found →
        ∃ split, IsSplit pattern.core path.toList split ∧
          split.Yields pattern.captureNames found ∧
          (found.captured.map Prod.fst).Nodup ∧
          ∀ name taken, (name, taken) ∈ split.body.captured → IsSegment taken := by
  obtain ⟨hnodup, rfl⟩ := Route.matcherOf_eq_ok hread hmatcher
  constructor
  · rw [← Option.isSome_iff_exists, Option.isSome_iff_ne_none, Ne, Matcher.match?_eq_none_iff,
      Classical.not_forall]
    simp only [Classical.not_not]
  · intro found hfound
    obtain ⟨split, hfirst, hyields⟩ := Matcher.yields_of_match? hnodup hfound
    refine ⟨split, hfirst.isSplit, hyields, hyields.names_eq ▸ hnodup, fun name taken h => ?_⟩
    exact hfirst.isSplit.body.isSegment (name, taken) h

/-- `x` takes `u-v` and the inner group is absent. -/
theorem match?_iff_isSplit_nestedGroups :
    ∃ split, IsSplit nestedGroups.core "/A/u-v/w/rest".toList split ∧
      split.Yields ["x", "y"] ⟨[("x", "u-v"), ("y", "")], "rest"⟩ := by
  have hfound : (⟨nestedGroups.core, nestedGroups.captureNames⟩ : Matcher).match? "/A/u-v/w/rest" =
      some ⟨[("x", "u-v"), ("y", "")], "rest"⟩ := by decide +kernel
  obtain ⟨split, hsplit, hyields, -⟩ :=
    (match?_iff_isSplit rfl matcherOf_nestedGroups "/A/u-v/w/rest").2 _ hfound
  exact ⟨split, hsplit, hyields⟩

/-- **The answer is what the first split yields**: if the pattern splits the path at all, there is
a split that comes before every other one, and no other answer fits it. -/
theorem match?_eq_first_split (hread : Pattern.parse text = .ok pattern)
    (hmatcher : Route.matcherOf text = .ok matcher) (path : String)
    (hsplit : ∃ split, IsSplit pattern.core path.toList split) :
    ∃ split found, IsFirstSplit pattern.core path.toList split ∧
      matcher.match? path = some found ∧ split.Yields pattern.captureNames found ∧
      ∀ other result, IsFirstSplit pattern.core path.toList other →
        other.Yields pattern.captureNames result → other = split ∧ result = found := by
  obtain ⟨hnodup, rfl⟩ := Route.matcherOf_eq_ok hread hmatcher
  have hsome : (⟨pattern.core, pattern.captureNames⟩ : Matcher).match? path ≠ none := by
    obtain ⟨split, h⟩ := hsplit
    exact fun hnone => Matcher.match?_eq_none_iff.1 hnone split h
  obtain ⟨found, hfound⟩ := Option.ne_none_iff_exists'.1 hsome
  obtain ⟨split, hfirst, hyields⟩ := Matcher.yields_of_match? hnodup hfound
  refine ⟨split, found, hfirst, hfound, hyields, fun other result hother hresult => ?_⟩
  obtain rfl := hfirst.unique hother
  have hsub := hfirst.isSplit.sublist_captureNames
  exact ⟨rfl, (hresult.unique hnodup hsub).trans (hyields.unique hnodup hsub).symm⟩

/-- The split in which `x` takes `u-v` comes before the one in which it takes `u` only and the inner
group is present. -/
theorem match?_eq_first_split_nestedGroups :
    ∃ split, IsFirstSplit nestedGroups.core "/A/u-v/w/rest".toList split ∧
      split.Yields ["x", "y"] ⟨[("x", "u-v"), ("y", "")], "rest"⟩ := by
  have hfound : (⟨nestedGroups.core, nestedGroups.captureNames⟩ : Matcher).match? "/A/u-v/w/rest" =
      some ⟨[("x", "u-v"), ("y", "")], "rest"⟩ := by decide +kernel
  have hsplit : IsSplit nestedGroups.core "/A/u-v/w/rest".toList
      ⟨['/'], ⟨"A/u-v/w".toList,
        [.group true, .segment "u".toList, .group true, .segment "v".toList, .segment "w".toList],
        [("x", "u".toList), ("y", "v".toList)]⟩, ['/'], "rest".toList⟩ :=
    mem_splits_iff.1 (by decide +kernel)
  obtain ⟨split, found, hfirst, hmatch, hyields, -⟩ :=
    match?_eq_first_split rfl matcherOf_nestedGroups "/A/u-v/w/rest" ⟨_, hsplit⟩
  obtain rfl := Option.some.inj (hmatch.symm.trans hfound)
  exact ⟨split, hfirst, hyields⟩

end Answers

end HttpGateway
