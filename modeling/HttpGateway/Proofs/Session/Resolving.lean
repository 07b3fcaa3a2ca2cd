import HttpGateway.Proofs.Session.Reloading

/-!
# The first match wins

With a clock that lasts, a path is resolved by the first route that matches it; with one that is
used up at once, only the first route is tried (`Snapshot.FirstMatchWins`). The outcome is counted,
and no other one is. A session resolves paths in just this way (`first_match_wins`).
-/

namespace HttpGateway

namespace Snapshot

variable {snapshot : Snapshot} {expired : Nat → Bool} {path : String}

/-- A resolution adds one to the count of its outcome and nothing to that of any other. -/
theorem total_resolutionSignals (snapshot : Snapshot) (path : String) (before : List Signal)
    (outcome other : Outcome) :
    Signal.total (Metric.resolution other).name
        (before ++ snapshot.resolutionSignals path outcome) =
      Signal.total (Metric.resolution other).name before + if outcome = other then 1 else 0 := by
  rw [Signal.total_append (Metric.name_resolution_ne_installedName other),
    Session.metrics_resolutionSignals, List.countP_singleton]
  simp only [Metric.name_resolution_inj, decide_eq_true_eq]

/-! ## Clocks that last and clocks that are used up -/

/-- There is a result if and only if a route matches, and it is of the first one that does. -/
structure IsOfFirstMatch (snapshot : Snapshot) (path : String)
    (answer : Outcome × Option Resolved) : Prop where
  isSome_iff : (∃ resolved, answer.2 = some resolved) ↔
    ∃ route ∈ snapshot.routes, ∃ found, route.matcher.match? path = some found
  of_some : ∀ resolved, answer.2 = some resolved →
    answer.1 = .matched ∧ ∃ index, snapshot.IsFirstMatch path index resolved
  of_none : answer.2 = none → answer.1 = .miss

/-- Only the first route is tried, if there is one. -/
structure IsOfFirstRoute (snapshot : Snapshot) (path : String)
    (answer : Outcome × Option Resolved) : Prop where
  of_nil : snapshot.routes = [] → answer = (.miss, none)
  of_fails : ∀ route rest, snapshot.routes = route :: rest → route.matcher.match? path = none →
    answer = (.budgetExceeded, none)
  of_matches : ∀ route rest, snapshot.routes = route :: rest →
    ∀ found, route.matcher.match? path = some found → ∃ resolved,
      answer = (.matched, some resolved) ∧ snapshot.IsFirstMatch path 0 resolved

theorem Answers.isOfFirstMatch {answer : Outcome × Option Resolved}
    (h : snapshot.Answers expired path answer)
    (hlength : path.utf8ByteSize ≤ snapshot.limits.maxPathLength.toNat)
    (htime : ∀ place < snapshot.size, expired place = false) :
    snapshot.IsOfFirstMatch path answer := by
  cases h with
  | tooLong hlong => exact absurd hlength hlong.not_ge
  | matched _ hfirst _ =>
    refine ⟨iff_of_true ⟨_, rfl⟩ ⟨_, hfirst.mem, _, hfirst.found⟩, ?_, fun hnone => ?_⟩
    · rintro resolved ⟨⟩
      exact ⟨rfl, _, hfirst⟩
    · cases hnone
  | budgetExceeded _ hplace _ _ hexpired => simp [htime _ hplace] at hexpired
  | miss _ hfailed _ =>
    have hnone : ∀ resolved : Resolved, none ≠ some resolved :=
      fun resolved => (Option.some_ne_none resolved).symm
    refine ⟨iff_of_false (fun hsome => ?_) ?_, fun resolved hsome => ?_, fun _ => rfl⟩
    · exact hsome.elim hnone
    · rintro ⟨route, hroute, found, hfound⟩
      simp [hfailed route hroute] at hfound
    · exact absurd hsome (hnone resolved)

theorem isOfFirstRoute_resolveWithin
    (hlength : path.utf8ByteSize ≤ snapshot.limits.maxPathLength.toNat) (hused : expired 0 = true) :
    snapshot.IsOfFirstRoute path (snapshot.resolveWithin expired path) := by
  rw [resolveWithin, if_neg hlength.not_gt]
  constructor
  case of_nil =>
    intro hroutes
    rw [hroutes, tryRoutes]
  case of_fails =>
    intro route rest hroutes hfail
    rw [hroutes, tryRoutes, hfail, hused]
    rfl
  case of_matches =>
    intro route rest hroutes found hfound
    rw [hroutes, tryRoutes, hfound]
    exact ⟨_, rfl, rfl, rfl, by rw [hroutes, List.getElem?_cons_zero], hfound, by simp⟩

/-- What becomes of a path, for a clock. -/
structure FirstMatchWins (snapshot : Snapshot) (expired : Nat → Bool) (path : String) : Prop where
  tooLong : snapshot.limits.maxPathLength.toNat < path.utf8ByteSize →
    snapshot.resolveWithin expired path = (.tooLong, none)
  lasting : path.utf8ByteSize ≤ snapshot.limits.maxPathLength.toNat →
    (∀ place < snapshot.size, expired place = false) →
    snapshot.IsOfFirstMatch path (snapshot.resolveWithin expired path)
  usedUp : path.utf8ByteSize ≤ snapshot.limits.maxPathLength.toNat → expired 0 = true →
    snapshot.IsOfFirstRoute path (snapshot.resolveWithin expired path)
  /-- The outcome is counted, once, and no other one is. -/
  counted : ∀ before other, Signal.total (Metric.resolution other).name
      (before ++ snapshot.resolutionSignals path (snapshot.resolveWithin expired path).1) =
    Signal.total (Metric.resolution other).name before +
      if (snapshot.resolveWithin expired path).1 = other then 1 else 0

theorem firstMatchWins (snapshot : Snapshot) (expired : Nat → Bool) (path : String) :
    snapshot.FirstMatchWins expired path where
  tooLong hlong := by rw [resolveWithin, if_pos hlong]
  lasting := (snapshot.answers_resolveWithin expired path).isOfFirstMatch
  usedUp := isOfFirstRoute_resolveWithin
  counted before other := snapshot.total_resolutionSignals path before _ other

end Snapshot

/-- **The first match wins**, and every outcome is counted once. A budget of zero is used up at
once, and any other one lasts. A session resolves a path with the snapshot that it asks for, and
emits nothing but the signals of the outcome. -/
theorem first_match_wins (snapshot : Snapshot) (path : String) :
    (∀ expired, snapshot.FirstMatchWins expired path) ∧
    (snapshot.limits.matchBudgetMs = 0 →
      snapshot.resolve path = snapshot.resolveWithin (fun _ => true) path) ∧
    (snapshot.limits.matchBudgetMs ≠ 0 →
      snapshot.resolve path = snapshot.resolveWithin (fun _ => false) path) ∧
    ∀ (session : Session) kept hold, session.snapshot? kept = some snapshot →
      let turn := session.step (.resolve path kept hold)
      turn.answer = .resolved (snapshot.resolve path).2 ∧
        turn.signals = snapshot.resolutionSignals path (snapshot.resolve path).1 ∧
        Signal.metrics turn.signals = [.resolution (snapshot.resolve path).1] := by
  refine ⟨fun expired => snapshot.firstMatchWins expired path, fun hzero => ?_, fun hmore => ?_, ?_⟩
  · rw [Snapshot.resolve, hzero]
    rfl
  · rw [Snapshot.resolve, beq_false_of_ne hmore]
  · intro session kept hold hkept
    rw [Session.step_resolve, hkept]
    exact ⟨rfl, rfl, Session.metrics_resolutionSignals _ _ _⟩

end HttpGateway
