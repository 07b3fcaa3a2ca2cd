import HttpGateway.Proofs.Pattern.CaseVariants
import HttpGateway.Proofs.Route.CanonicalForm
import HttpGateway.Proofs.Route.Loading
import HttpGateway.Proofs.Route.Resolving

/-!
# Shadowed routes

Two routes with the same shadow key match the same paths: what they are read from differs in outer
slashes and in the case of letters only, and neither matters (`find_of_key_eq`). The first match
wins, so the later one is never reached (`shadowed_route_unreachable`).
-/

namespace HttpGateway

open Text

namespace Pattern

variable {text other : String} {p q : Pattern}

/-- A pattern in lower case matches the same paths in the same way. -/
theorem find_core_lower (p : Pattern) (path : List Char) :
    find p.lower.core path = (find p.core path).map (·.mapNames Char.toLower) := by
  rw [lower, core_mapChars, find_mapCharsAll foldCase_toLower]

/-- **Patterns with the same canonical form in lower case match the same paths**, in the same way up
to the case of the captured names. -/
theorem find_of_key_eq (hp : parse (trim text) = .ok p) (hq : parse (trim other) = .ok q)
    (hkey : (canonicalRoute text).toLower = (canonicalRoute other).toLower) (path : List Char) :
    (find p.core path).map (·.mapNames Char.toLower) =
      (find q.core path).map (·.mapNames Char.toLower) := by
  have hlower : p.slashed.lower = q.slashed.lower := by
    have hread := parse_toLower (parse_canonicalRoute hp)
    rw [hkey, parse_toLower (parse_canonicalRoute hq)] at hread
    exact (Except.ok.inj hread).symm
  rw [← find_slashed (canonical_of_parse hp), ← find_slashed (canonical_of_parse hq),
    ← find_core_lower, ← find_core_lower, hlower]

end Pattern

variable {earlier later : Route} {path : String}

/-- A route with the shadow key of another one matches no other paths. -/
theorem Route.match?_eq_none_of_shadowKey_eq {settings other : RouteSettings}
    (hearlier : settings.IsReady earlier) (hlater : other.IsReady later)
    (hkey : later.shadowKey = earlier.shadowKey) (h : earlier.matcher.match? path = none) :
    later.matcher.match? path = none := by
  obtain ⟨p, hp, -, hpcompile⟩ := hearlier.matcher
  obtain ⟨q, hq, -, hqcompile⟩ := hlater.matcher
  rw [(Matcher.compile_eq_ok hpcompile).2, Matcher.match?, Option.map_eq_none_iff] at h
  rw [(Matcher.compile_eq_ok hqcompile).2, Matcher.match?, Option.map_eq_none_iff]
  rw [shadowKey, shadowKey, hearlier.canonical_eq, hlater.canonical_eq] at hkey
  rw [← Option.map_eq_none_iff, Pattern.find_of_key_eq hq hp hkey, h, Option.map_none]

/-- The routes of a configuration that builds are ready. -/
theorem Snapshot.isReady_of_load {generation : Nat} {settings : Settings} {built : LoadedSnapshot}
    (hload : Snapshot.load generation settings = .ok built) {route : Route}
    (hroute : route ∈ built.snapshot.routes) : route.settings.IsReady route := by
  rw [eq_loaded_of_load hload] at hroute
  exact isReady_of_mem_installed hroute

/-- **A shadowed route is never reached.** If a route of a configuration that builds has the shadow
key of an earlier one, no path is resolved to it, whatever the limits and the clock. -/
theorem shadowed_route_unreachable {generation : Nat} {settings : Settings} {built : LoadedSnapshot}
    (hload : Snapshot.load generation settings = .ok built) {first second : Nat}
    (hearlier : built.snapshot.routes[first]? = some earlier)
    (hlater : built.snapshot.routes[second]? = some later) (hbefore : first < second)
    (hkey : later.shadowKey = earlier.shadowKey) (path : String) :
    (∀ expired resolved, (built.snapshot.resolveWithin expired path).2 = some resolved →
      resolved.key.index ≠ second) ∧
    ∀ resolved, (built.snapshot.resolve path).2 = some resolved → resolved.key.index ≠ second := by
  have hall : ∀ expired resolved, (built.snapshot.resolveWithin expired path).2 = some resolved →
      resolved.key.index ≠ second := by
    intro expired resolved hresolved hsecond
    obtain ⟨index, hfirst⟩ := Snapshot.exists_isFirstMatch_of_resolveWithin hresolved
    obtain rfl : index = second := by rw [← hsecond, hfirst.key_eq]
    obtain rfl : later = resolved.route := Option.some.inj (hlater.symm.trans hfirst.route_eq)
    have hfailed : earlier.matcher.match? path = none := by
      have htaken : (built.snapshot.routes.take index)[first]? = some earlier := by
        rw [List.getElem?_take_of_lt hbefore, hearlier]
      exact hfirst.first earlier (List.mem_of_getElem? htaken)
    have hnone := Route.match?_eq_none_of_shadowKey_eq
      (Snapshot.isReady_of_load hload (List.mem_of_getElem? hearlier))
      (Snapshot.isReady_of_load hload (List.mem_of_getElem? hlater)) hkey hfailed
    rw [hfirst.found] at hnone
    cases hnone
  exact ⟨hall, fun resolved hresolved => hall _ resolved hresolved⟩

/-- Two routes that differ in outer slashes and in the case of letters, with another one between. -/
def shadowedSettings : Settings where
  routes := [{ pattern := " /Shop/:Id" }, { pattern := "shop/*/new" }, { pattern := "shop/:id/" }]

/-- What the third route would match goes to the first one. -/
theorem shadowed_route_unreachable_shop :
    ∃ built, Snapshot.load 3 shadowedSettings = .ok built ∧ built.snapshot.size = 3 ∧
      (built.snapshot.resolve "SHOP/7").2.map (·.key.index) = some 0 ∧
      ∀ resolved, (built.snapshot.resolve "SHOP/7").2 = some resolved →
        resolved.key.index ≠ 2 := by
  have hnone : shadowedSettings.globalFaults = [] := by decide +kernel
  have hload := Snapshot.load_of_globalFaults_eq_nil hnone 3
  have hkeys : (Snapshot.loaded 3 shadowedSettings).snapshot.routes.map Route.shadowKey =
      ["/shop/:id/", "/shop/*/new/", "/shop/:id/"] := by
    decide +kernel
  have hfound : ((Snapshot.loaded 3 shadowedSettings).snapshot.resolve "SHOP/7").2.map
      (·.key.index) = some 0 := by
    decide +kernel
  generalize Snapshot.loaded 3 shadowedSettings = built at hload hkeys hfound
  obtain ⟨earlier, _, hroutes, hearlier, htail⟩ := List.map_eq_cons_iff.1 hkeys
  obtain ⟨between, _, rfl, -, htail⟩ := List.map_eq_cons_iff.1 htail
  obtain ⟨later, _, rfl, hlater, htail⟩ := List.map_eq_cons_iff.1 htail
  obtain rfl := List.map_eq_nil_iff.1 htail
  have hfirst : built.snapshot.routes[0]? = some earlier := by rw [hroutes]; rfl
  have hthird : built.snapshot.routes[2]? = some later := by rw [hroutes]; rfl
  refine ⟨built, hload, by rw [Snapshot.size, hroutes]; rfl, hfound, ?_⟩
  exact (shadowed_route_unreachable hload hfirst hthird (by decide)
    (hlater.trans hearlier.symm) "SHOP/7").2

end HttpGateway
