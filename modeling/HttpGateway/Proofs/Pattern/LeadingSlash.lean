import HttpGateway.Proofs.Pattern.Matches

/-!
# A leading slash

A path that does not start with a `/` is matched in the same way with a `/` before it: the `/` is
consumed first. Only where it is not matched by itself can the pattern take the `/`, as the
start of an instance of its core or as the border after an empty one (`match?_slash_append`). So a
pattern whose instances are all read from another character does not tell the two paths apart.
-/

namespace HttpGateway

open Pattern

namespace Pattern

variable {core : List Pattern} {cs : List Char} {split : Split}

/-- The core takes the leading `/` of the path: as the start of its text, or, if its text is empty,
as the border after it. -/
structure Split.TakesSlash (split : Split) : Prop where
  lead : split.lead = []
  takes : split.body.text.head? = some '/' ∨ split.body.text = [] ∧ split.border = ['/']

/-- If a path has no split, the core takes the `/` that is put before it. -/
theorem IsSplit.takesSlash (h : IsSplit core ('/' :: cs) split)
    (hnone : ∀ other, ¬IsSplit core cs other) : split.TakesSlash := by
  obtain ⟨hpath, hlead, hbody, hborder⟩ := h
  rcases hlead with hlead | hlead
  · refine ⟨hlead, ?_⟩
    rw [hlead, List.nil_append] at hpath
    cases htext : split.body.text with
    | cons c text =>
      rw [htext] at hpath
      obtain ⟨rfl, -⟩ := List.cons.inj hpath
      exact Or.inl rfl
    | nil =>
      rcases hborder with hborder | ⟨hborder, hsuffix⟩
      · exact Or.inr ⟨rfl, hborder⟩
      · simp [htext, hborder, hsuffix] at hpath
  · -- a split that consumes the `/` leaves one of the path itself
    have hrest : cs = split.body.text ++ split.border ++ split.suffix := by
      rw [hlead] at hpath
      simpa using hpath
    exact absurd ⟨hrest, Or.inl rfl, hbody, hborder⟩
      (hnone ⟨[], split.body, split.border, split.suffix⟩)

end Pattern

variable {text : String} {pattern : Pattern} {matcher : Matcher} {path : String}

/-- An answer stays the same with a `/` before the path. -/
theorem Matcher.match?_slash_append_of_some (hpath : path.toList.head? ≠ some '/')
    {found : MatchedPath} (h : matcher.match? path = some found) :
    matcher.match? ("/" ++ path) = some found := by
  rw [match?, find_of_not_slash _ hpath] at h
  obtain ⟨finish, hfind, hfound⟩ := Option.map_eq_some_iff.1 h
  have hslash : ("/" ++ path).toList = '/' :: path.toList := by simp
  rw [match?, hslash, find_cons_slash, hfind, Option.some_or, Option.map_some, hfound]

/-- Where there is no answer for the path, there is one with a `/` before it exactly if the core can
take the `/`. -/
theorem Matcher.exists_match?_slash_append_iff {core : List Pattern} {names : List String}
    (h : (⟨core, names⟩ : Matcher).match? path = none) :
    (∃ found, (⟨core, names⟩ : Matcher).match? ("/" ++ path) = some found) ↔
      ∃ split, IsSplit core ("/" ++ path).toList split ∧ split.TakesSlash := by
  have hslash : ("/" ++ path).toList = '/' :: path.toList := by simp
  rw [← Option.isSome_iff_exists, Option.isSome_iff_ne_none, Ne, match?_eq_none_iff, hslash,
    Classical.not_forall]
  refine exists_congr fun split => ?_
  rw [Classical.not_not]
  exact ⟨fun hsplit => ⟨hsplit, hsplit.takesSlash (match?_eq_none_iff.1 h)⟩, And.left⟩

/-- **A leading slash changes no answer** that there is without it, and where there is none it adds
one exactly if the core can take the slash. -/
theorem match?_slash_append (hread : Pattern.parse text = .ok pattern)
    (hmatcher : Route.matcherOf text = .ok matcher) (hpath : path.toList.head? ≠ some '/') :
    (∀ found, matcher.match? path = some found → matcher.match? ("/" ++ path) = some found) ∧
    (matcher.match? path = none →
      ((∃ found, matcher.match? ("/" ++ path) = some found) ↔
        ∃ split, IsSplit pattern.core ("/" ++ path).toList split ∧ split.TakesSlash)) ∧
    ((∀ i, HasInstanceAll pattern.core i → ∃ c cs, i.text = c :: cs ∧ c ≠ '/') →
      matcher.match? ("/" ++ path) = matcher.match? path) := by
  obtain ⟨-, rfl⟩ := Route.matcherOf_eq_ok hread hmatcher
  refine ⟨fun found => Matcher.match?_slash_append_of_some hpath,
    Matcher.exists_match?_slash_append_iff, fun hfirm => ?_⟩
  cases hfound : (⟨pattern.core, pattern.captureNames⟩ : Matcher).match? path with
  | some found => exact Matcher.match?_slash_append_of_some hpath hfound
  | none =>
    rw [← Option.not_isSome_iff_eq_none, Option.isSome_iff_exists,
      Matcher.exists_match?_slash_append_iff hfound]
    rintro ⟨split, hsplit, -, htakes⟩
    obtain ⟨c, cs, htext, hc⟩ := hfirm split.body hsplit.body
    simp [htext, hc] at htakes

/-- The pattern `//a` needs one of its two slashes: only the other one is optional. -/
theorem slash_required : ∃ matcher, Route.matcherOf "//a" = .ok matcher ∧
    "a".toList.head? ≠ some '/' ∧ matcher.match? "a" = none ∧
    matcher.match? ("/" ++ "a") = some ⟨[], ""⟩ := by
  have hmatcher : Route.matcherOf "//a" = .ok ⟨[.separator, .literal "a"], []⟩ :=
    Route.matcherOf_eq_ok_iff.2 ⟨.sequence [.separator, .separator, .literal "a"], rfl, rfl,
      Matcher.compile_of_limits (by decide) (by decide) (by decide +kernel)⟩
  exact ⟨_, hmatcher, by decide, by decide +kernel, by decide +kernel⟩

/-- The pattern `(/:x)/b` does not match `v/b`, and its group takes the slash of `/v/b`. -/
theorem match?_slash_append_group :
    let pattern : Pattern :=
      .sequence [.optional (.sequence [.separator, .capture "x"]), .separator, .literal "b"]
    let matcher : Matcher := ⟨pattern.core, pattern.captureNames⟩
    matcher.match? "v/b" = none ∧ matcher.match? ("/" ++ "v/b") = some ⟨[("x", "v")], ""⟩ ∧
      ∃ split, IsSplit pattern.core ("/" ++ "v/b").toList split ∧ split.TakesSlash := by
  intro pattern matcher
  have hmatcher : Route.matcherOf "(/:x)/b" = .ok matcher :=
    Route.matcherOf_eq_ok_iff.2 ⟨pattern, rfl, rfl,
      Matcher.compile_of_limits (by decide) (by decide) (by decide +kernel)⟩
  have hnone : matcher.match? "v/b" = none := by decide +kernel
  have hfound : matcher.match? ("/" ++ "v/b") = some ⟨[("x", "v")], ""⟩ := by decide +kernel
  obtain ⟨-, htakes, -⟩ := @match?_slash_append _ _ _ "v/b" rfl hmatcher (by decide)
  exact ⟨hnone, hfound, (htakes hnone).1 ⟨_, hfound⟩⟩

end HttpGateway
