import HttpGateway.Proofs.Pattern.Verdict
import HttpGateway.Proofs.Route.Loading

/-!
# What is left to fail after the rules

The captures of a pattern that was read and keeps the rules have different names, all of them usable
and none reserved (`NamesApart`). So no two groups of its regular expression share a name, and its
names make a tree: nothing but the limits of the matcher can keep it from making a route
(`ExceedsLimit`).
-/

namespace HttpGateway

open Text

/-- The names are different, each can be written in an expression, and none is that of a system
variable. -/
structure NamesApart (names : List String) : Prop where
  nodup : names.Nodup
  isName : ∀ name ∈ names, IsName name.toList
  unreserved : ∀ name ∈ names, ∀ v : RequestAttribute, v.name ≠ name

/-- The matcher of a core exceeds a limit; that on its size counts if the nesting is allowed. -/
inductive ExceedsLimit (core : List Pattern) : MatcherFault → Prop
  | nesting : nestingLimit < Pattern.nesting core → ExceedsLimit core .nestingTooDeep
  | size : Pattern.nesting core ≤ nestingLimit → sizeLimit < Pattern.footprint core →
    ExceedsLimit core .tooLarge

/-- The captures of a pattern that was read and keeps the rules have names apart. -/
theorem Pattern.namesApart {text : String} {p : Pattern} (hread : parse text = .ok p)
    (hcheck : p.check = .ok ()) : NamesApart p.captureNames := by
  refine ⟨nodup_captureNames_of_check hcheck, isName_of_parse hread, fun name hname v hv => ?_⟩
  have hunreserved := isName_eq_false_of_check hcheck name hname
  rw [RequestAttribute.isName_iff.2 ⟨v, hv⟩] at hunreserved
  cases hunreserved

/-- Without a repeated name, a matcher fails exactly with the limit that it exceeds. -/
theorem Matcher.compile_eq_error_iff {p : Pattern} {fault : MatcherFault}
    (hnodup : p.captureNames.Nodup) :
    Matcher.compile p = .error fault ↔ ExceedsLimit p.core fault := by
  simp only [Matcher.compile]
  rw [if_neg (not_not_intro hnodup)]
  by_cases hnesting : Pattern.nesting p.core > nestingLimit
  · rw [if_pos hnesting, Except.error.injEq]
    refine ⟨fun h => h ▸ .nesting hnesting, fun h => ?_⟩
    cases h with
    | nesting => rfl
    | size hle => exact absurd hle (Nat.not_le.2 hnesting)
  · rw [if_neg hnesting]
    by_cases hsize : Pattern.footprint p.core > sizeLimit
    · rw [if_pos hsize, Except.error.injEq]
      refine ⟨fun h => h ▸ .size (Nat.not_lt.1 hnesting) hsize, fun h => ?_⟩
      cases h with
      | nesting hlt => exact absurd hlt hnesting
      | size => rfl
    · rw [if_neg hsize]
      constructor
      · intro h
        cases h
      · intro h
        cases h with
        | nesting hlt => exact absurd hlt hnesting
        | size _ hlt => exact absurd hlt hsize

/-- Settings whose own faults are left aside fail exactly with the fault of their pattern. -/
theorem Route.ofPattern_eq_error_iff {settings : RouteSettings} {fault : PatternFault} :
    ofPattern settings = .error fault ↔ RefusedPattern (trim settings.pattern) fault := by
  rw [← matcherOf_eq_error_iff]
  obtain ⟨cause, hmatcher, hpattern⟩ | ⟨matcher, names, hmatcher, -, hpattern⟩ :=
    ofPattern_cases settings
  · rw [hmatcher, hpattern, Except.error.injEq, Except.error.injEq]
  · rw [hmatcher, hpattern]
    exact iff_of_false nofun nofun

/-- A pattern that was read and keeps the rules is refused for a limit only. -/
theorem refusedPattern_iff_exceedsLimit {text : String} {p : Pattern} {fault : PatternFault}
    (hread : Pattern.parse text = .ok p) (hcheck : p.check = .ok ()) :
    RefusedPattern text fault ↔ ∃ limit, fault = .compile limit ∧ ExceedsLimit p.core limit := by
  have hlimit : ∀ limit, Matcher.compile p = .error limit ↔ ExceedsLimit p.core limit := fun _ =>
    Matcher.compile_eq_error_iff (Pattern.namesApart hread hcheck).nodup
  refine ⟨fun h => ?_, ?_⟩
  · cases h with
    | reading hfault =>
      rw [hread] at hfault
      cases hfault
    | checking hother hfault =>
      obtain rfl := Except.ok.inj (hread.symm.trans hother)
      rw [hcheck] at hfault
      cases hfault
    | compiling hother _ hfault =>
      obtain rfl := Except.ok.inj (hread.symm.trans hother)
      exact ⟨_, rfl, (hlimit _).1 hfault⟩
  · rintro ⟨limit, rfl, hexceeds⟩
    exact .compiling hread hcheck ((hlimit limit).2 hexceeds)

/-- **A pattern that was read and keeps the rules fails at the limits of the matcher only.** Its
names are apart, so they make a tree and no group of the regular expression repeats one. Its
settings make a route unless a limit is exceeded, and in any configuration the route is rejected for
its pattern exactly then. -/
theorem compiling_fails_only_at_limits {settings : RouteSettings} {pattern : Pattern}
    (hread : Pattern.parse (trim settings.pattern) = .ok pattern)
    (hcheck : pattern.check = .ok ()) :
    NamesApart pattern.captureNames ∧
    (∃ tree, NameTree.ofNames pattern.captureNames = .ok tree) ∧
    (Pattern.captureNamesAll pattern.core).Nodup ∧
    Matcher.compile pattern ≠ .error .repeatedName ∧
    (∀ fault, Route.ofPattern settings = .error fault ↔
      ∃ limit, fault = .compile limit ∧ ExceedsLimit pattern.core limit) ∧
    ∀ generation (whole : Settings) built index, Snapshot.load generation whole = .ok built →
      whole.routes[index]? = some settings → ∀ text fault,
        ⟨index, .pattern text fault⟩ ∈ built.summary.rejected ↔
          settings.faults = [] ∧ text = settings.pattern ∧
            ∃ limit, fault = .compile limit ∧ ExceedsLimit pattern.core limit := by
  have hapart := Pattern.namesApart hread hcheck
  have hrefused : ∀ fault, RefusedPattern (trim settings.pattern) fault ↔
      ∃ limit, fault = .compile limit ∧ ExceedsLimit pattern.core limit := fun _ =>
    refusedPattern_iff_exceedsLimit hread hcheck
  refine ⟨hapart, Pattern.exists_namesOf hread, ?_, fun h => ?_, fun fault => ?_, ?_⟩
  · rw [Pattern.captureNamesAll_core]
    exact hapart.nodup
  · cases (Matcher.compile_eq_error_iff hapart.nodup).1 h
  · exact Route.ofPattern_eq_error_iff.trans (hrefused fault)
  · intro generation whole built index hload hroute text fault
    rw [Snapshot.eq_loaded_of_load hload,
      (Snapshot.sorts_loaded generation whole).rejected_iff index, ← hrefused]
    constructor
    · rintro ⟨other, hother, hfault⟩
      obtain rfl := Option.some.inj (hroute.symm.trans hother)
      cases hfault with
      | pattern hnone hpattern => exact ⟨hnone, rfl, hpattern⟩
    · rintro ⟨hnone, rfl, hpattern⟩
      exact ⟨settings, hroute, .pattern hnone hpattern⟩

/-- A wildcard in groups. -/
def nestedWildcard : Nat → Pattern
  | 0 => .wildcard
  | groups + 1 => .optional (nestedWildcard groups)

/-- A wildcard in groups, as it is written. -/
def nestedText (groups : Nat) : List Char :=
  List.replicate groups '(' ++ '*' :: List.replicate groups ')'

/-- A route whose pattern is a wildcard in 124 groups. -/
def nestedSettings : RouteSettings := { pattern := String.ofList (nestedText 124) }

/-- 124 groups are too many: each is nested two deeper, and the wildcard in them three. -/
theorem compiling_fails_only_at_limits_nested :
    Route.ofPattern nestedSettings = .error (.compile .nestingTooDeep) := by
  have htext : (trim nestedSettings.pattern).toList = trimChars (nestedText 124) := by
    rw [trim, String.toList_ofList]
    exact congrArg trimChars String.toList_ofList
  have hread : Pattern.parse (trim nestedSettings.pattern) = .ok (nestedWildcard 124) := by
    rw [Pattern.parse, htext]
    decide +kernel
  have hcheck : (nestedWildcard 124).check = .ok () := by decide +kernel
  obtain ⟨-, -, -, -, hfails, -⟩ := compiling_fails_only_at_limits hread hcheck
  exact (hfails _).2 ⟨_, rfl, .nesting (by decide +kernel)⟩

end HttpGateway
