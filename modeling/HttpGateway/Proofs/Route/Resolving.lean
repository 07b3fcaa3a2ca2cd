import HttpGateway.Route.Snapshot
import Mathlib.Data.List.Basic

/-!
# Resolving a path

A path is resolved by the first route that matches it (`Snapshot.IsFirstMatch`), unless it is too
long or the time is used up before that route is tried. `Snapshot.Answers` says so for every clock,
and `answers_resolveWithin` proves it along the routes.
-/

namespace HttpGateway

/-- The result is of a route of the snapshot. -/
structure Resolved.IsOf (resolved : Resolved) (snapshot : Snapshot) : Prop where
  generation_eq : resolved.key.generation = snapshot.generation
  route_eq : snapshot.routes[resolved.key.index]? = some resolved.route
  limits_eq : resolved.limits = snapshot.limits

namespace Snapshot

variable {snapshot : Snapshot} {expired : Nat → Bool} {path : String} {resolved : Resolved}

/-! ## The first match -/

/-- The result is of the route at a place, the first one that matches the path, with what this route
makes of the path. -/
structure IsFirstMatch (snapshot : Snapshot) (path : String) (index : Nat) (resolved : Resolved) :
    Prop where
  key_eq : resolved.key = ⟨snapshot.generation, index⟩
  limits_eq : resolved.limits = snapshot.limits
  route_eq : snapshot.routes[index]? = some resolved.route
  found : resolved.route.matcher.match? path = some ⟨resolved.captured, resolved.suffix⟩
  first : ∀ route ∈ snapshot.routes.take index, route.matcher.match? path = none

/-- What a path is resolved to, with a clock. -/
inductive Answers (snapshot : Snapshot) (expired : Nat → Bool) (path : String) :
    Outcome × Option Resolved → Prop
  | tooLong :
    snapshot.limits.maxPathLength.toNat < path.utf8ByteSize →
      snapshot.Answers expired path (.tooLong, none)
  /-- There is time until the first match. -/
  | matched {index : Nat} {resolved : Resolved} :
    path.utf8ByteSize ≤ snapshot.limits.maxPathLength.toNat →
      snapshot.IsFirstMatch path index resolved → (∀ place < index, expired place = false) →
      snapshot.Answers expired path (.matched, some resolved)
  /-- The time is used up after a route that does not match, nor does any before it. -/
  | budgetExceeded {place : Nat} :
    path.utf8ByteSize ≤ snapshot.limits.maxPathLength.toNat → place < snapshot.size →
      (∀ route ∈ snapshot.routes.take (place + 1), route.matcher.match? path = none) →
      (∀ earlier < place, expired earlier = false) → expired place = true →
      snapshot.Answers expired path (.budgetExceeded, none)
  | miss :
    path.utf8ByteSize ≤ snapshot.limits.maxPathLength.toNat →
      (∀ route ∈ snapshot.routes, route.matcher.match? path = none) →
      (∀ place < snapshot.size, expired place = false) →
      snapshot.Answers expired path (.miss, none)

/-- Trying the routes behind some that did not match. -/
theorem answers_tryRoutes (hlength : path.utf8ByteSize ≤ snapshot.limits.maxPathLength.toNat)
    {tried routes : List Route} (hroutes : snapshot.routes = tried ++ routes)
    (hfailed : ∀ route ∈ tried, route.matcher.match? path = none)
    (htime : ∀ place < tried.length, expired place = false) :
    snapshot.Answers expired path (snapshot.tryRoutes expired path tried.length routes) := by
  induction routes generalizing tried with
  | nil =>
    rw [List.append_nil] at hroutes
    rw [tryRoutes]
    exact .miss hlength (hroutes ▸ hfailed) (by rwa [size, hroutes])
  | cons route rest ih =>
    rw [tryRoutes]
    split
    · next found hfound =>
      refine .matched hlength ⟨rfl, rfl, ?_, hfound, ?_⟩ htime
      · rw [hroutes, List.getElem?_append_right (Nat.le_refl _), Nat.sub_self,
          List.getElem?_cons_zero]
      · rwa [hroutes, List.take_left]
    · next hfail =>
      have hmore : ∀ route' ∈ tried ++ [route], route'.matcher.match? path = none := by
        simpa [or_imp, forall_and] using ⟨hfailed, hfail⟩
      rw [List.append_cons] at hroutes
      have hlen : (tried ++ [route]).length = tried.length + 1 := by simp
      split
      · next hexpired =>
        refine .budgetExceeded hlength ?_ ?_ htime hexpired
        · rw [size, hroutes, List.length_append, hlen]
          omega
        · rwa [hroutes, ← hlen, List.take_left]
      · next hlasts =>
        rw [← hlen]
        refine ih hroutes hmore fun place hplace => ?_
        rw [hlen, Nat.lt_succ_iff_lt_or_eq] at hplace
        obtain hplace | rfl := hplace
        · exact htime place hplace
        · exact Bool.eq_false_iff.2 hlasts

/-- **A path is resolved by the first route that matches it**, as far as there is time. -/
theorem answers_resolveWithin (snapshot : Snapshot) (expired : Nat → Bool) (path : String) :
    snapshot.Answers expired path (snapshot.resolveWithin expired path) := by
  rw [resolveWithin]
  split
  · next hlong => exact .tooLong hlong
  · next hshort =>
    have hroutes : snapshot.routes = [] ++ snapshot.routes := rfl
    exact answers_tryRoutes (Nat.not_lt.1 hshort) hroutes
      (fun _ hroute => absurd hroute List.not_mem_nil)
      (fun place hplace => absurd hplace (Nat.not_lt_zero place))

/-! ## Results -/

/-- The route of a first match is one of the snapshot. -/
theorem IsFirstMatch.mem {index : Nat} (h : snapshot.IsFirstMatch path index resolved) :
    resolved.route ∈ snapshot.routes :=
  List.mem_of_getElem? h.route_eq

/-- No route before the first match matches the path. -/
theorem IsFirstMatch.le {index place : Nat} {route : Route}
    (h : snapshot.IsFirstMatch path index resolved) (hroute : snapshot.routes[place]? = some route)
    (hmatch : route.matcher.match? path ≠ none) : index ≤ place := by
  by_contra hbefore
  have htaken : (snapshot.routes.take index)[place]? = some route := by
    rw [List.getElem?_take_of_lt (Nat.lt_of_not_le hbefore), hroute]
  exact hmatch (h.first route (List.mem_of_getElem? htaken))

theorem IsFirstMatch.match?_ne_none {index : Nat} (h : snapshot.IsFirstMatch path index resolved) :
    resolved.route.matcher.match? path ≠ none := by
  rw [h.found]
  exact Option.some_ne_none _

/-- A path has one first match at most. -/
theorem IsFirstMatch.unique {index other : Nat} {result : Resolved}
    (h : snapshot.IsFirstMatch path index resolved)
    (hother : snapshot.IsFirstMatch path other result) : other = index ∧ result = resolved := by
  have hindex : other = index := by
    apply Nat.le_antisymm
    · exact hother.le h.route_eq h.match?_ne_none
    · exact h.le hother.route_eq hother.match?_ne_none
  subst hindex
  obtain ⟨key, limits, route, captured, suffix⟩ := resolved
  obtain ⟨key', limits', route', captured', suffix'⟩ := result
  obtain rfl : key' = key := hother.key_eq.trans h.key_eq.symm
  obtain rfl : limits' = limits := hother.limits_eq.trans h.limits_eq.symm
  obtain rfl : route' = route := Option.some.inj (hother.route_eq.symm.trans h.route_eq)
  obtain ⟨rfl, rfl⟩ := MatchedPath.mk.inj (Option.some.inj (hother.found.symm.trans h.found))
  exact ⟨rfl, rfl⟩

/-- A path that is not too long is resolved to its first match if there is time until then. -/
theorem Answers.eq_of_isFirstMatch {index : Nat} {answer : Outcome × Option Resolved}
    (h : snapshot.Answers expired path answer)
    (hlength : path.utf8ByteSize ≤ snapshot.limits.maxPathLength.toNat)
    (hfirst : snapshot.IsFirstMatch path index resolved)
    (htime : ∀ earlier < index, expired earlier = false) : answer = (.matched, some resolved) := by
  cases h with
  | tooLong hlong => exact absurd hlength (Nat.not_le_of_lt hlong)
  | matched _ hother _ => rw [(hfirst.unique hother).2]
  | miss _ hfailed _ => exact absurd (hfailed _ hfirst.mem) hfirst.match?_ne_none
  | @budgetExceeded used _ _ hfailed _ hexpired =>
    have hbefore : used < index := by
      by_contra hbehind
      have htaken : (snapshot.routes.take (used + 1))[index]? = some resolved.route := by
        rw [List.getElem?_take_of_lt (by omega), hfirst.route_eq]
      exact hfirst.match?_ne_none (hfailed _ (List.mem_of_getElem? htaken))
    rw [htime used hbefore] at hexpired
    cases hexpired

/-- A path that is not too long and that some route matches has a first match, and it is resolved
to it with every clock that leaves time until then. -/
theorem exists_isFirstMatch_of_match {place : Nat} {route : Route}
    (hlength : path.utf8ByteSize ≤ snapshot.limits.maxPathLength.toNat)
    (hroute : snapshot.routes[place]? = some route) (hmatch : route.matcher.match? path ≠ none) :
    ∃ index ≤ place, ∃ resolved, snapshot.IsFirstMatch path index resolved ∧
      ∀ expired, (∀ earlier < index, expired earlier = false) →
        snapshot.resolveWithin expired path = (.matched, some resolved) := by
  -- with a clock that lasts, the path is resolved to its first match
  have hlasting := snapshot.answers_resolveWithin (fun _ => false) path
  cases hanswer : snapshot.resolveWithin (fun _ => false) path
  rw [hanswer] at hlasting
  cases hlasting with
  | tooLong hlong => exact absurd hlength (Nat.not_le_of_lt hlong)
  | budgetExceeded _ _ _ _ hexpired => cases hexpired
  | miss _ hfailed _ => exact absurd (hfailed route (List.mem_of_getElem? hroute)) hmatch
  | @matched index resolved _ hfirst _ =>
    refine ⟨index, hfirst.le hroute hmatch, resolved, hfirst, fun expired htime => ?_⟩
    exact (snapshot.answers_resolveWithin expired path).eq_of_isFirstMatch hlength hfirst htime

theorem IsFirstMatch.isOf {index : Nat} (h : snapshot.IsFirstMatch path index resolved) :
    resolved.IsOf snapshot := by
  obtain ⟨hkey, hlimits, hroute, -, -⟩ := h
  have hindex : resolved.key.index = index := congrArg RouteKey.index hkey
  exact ⟨congrArg RouteKey.generation hkey, hindex ▸ hroute, hlimits⟩

/-- A result is of a first match, whatever the clock. -/
theorem exists_isFirstMatch_of_resolveWithin
    (h : (snapshot.resolveWithin expired path).2 = some resolved) :
    ∃ index, snapshot.IsFirstMatch path index resolved := by
  have hanswers := snapshot.answers_resolveWithin expired path
  generalize snapshot.resolveWithin expired path = answer at h hanswers
  cases hanswers with
  | matched _ hfirst _ =>
    obtain rfl := Option.some.inj h
    exact ⟨_, hfirst⟩
  | _ => cases h

theorem exists_isFirstMatch_of_resolve (h : (snapshot.resolve path).2 = some resolved) :
    ∃ index, snapshot.IsFirstMatch path index resolved :=
  exists_isFirstMatch_of_resolveWithin h

theorem isOf_of_resolve (h : (snapshot.resolve path).2 = some resolved) :
    resolved.IsOf snapshot := by
  obtain ⟨index, hfirst⟩ := exists_isFirstMatch_of_resolve h
  exact hfirst.isOf

theorem resolve_of_too_long
    (h : snapshot.limits.maxPathLength.toNat < path.utf8ByteSize) :
    snapshot.resolve path = (.tooLong, none) := by
  rw [resolve, resolveWithin, if_pos h]

theorem resolve_of_le (h : path.utf8ByteSize ≤ snapshot.limits.maxPathLength.toNat) :
    snapshot.resolve path =
      snapshot.tryRoutes (fun _ => snapshot.limits.matchBudgetMs == 0) path 0 snapshot.routes := by
  rw [resolve, resolveWithin, if_neg (Nat.not_lt.2 h)]

end Snapshot

end HttpGateway
