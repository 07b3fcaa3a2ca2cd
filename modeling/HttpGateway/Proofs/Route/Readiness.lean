import HttpGateway.Proofs.Pattern.Canonical
import HttpGateway.Proofs.Pattern.Matches
import HttpGateway.Proofs.Text.NameTree

/-!
# When a route is ready

A route is ready (`IsReady`) or refused with one fault (`Refused`), depending on its settings alone:
`Route.ofSettings_eq_ok_iff` and `Route.ofSettings_eq_error_iff`. The last stage, which makes the
captured names known to the expressions of the route, never fails, since a pattern that is read
captures names only (`exists_namesOf`).
-/

namespace HttpGateway

open Text

/-! ## The names that a pattern captures -/

namespace Pattern

mutual

theorem isName_of_mem_captureNames : ∀ {p : Pattern}, p.Everywhere CanonicalNode →
    ∀ name ∈ p.captureNames, IsName name.toList
  | .literal _, _ => by simp [captureNames]
  | .separator, _ => by simp [captureNames]
  | .capture name, h => by simpa [captureNames, CanonicalNode] using h.node
  | .wildcard, _ => by simp [captureNames]
  | .optional _, h => by
    rw [captureNames]
    exact isName_of_mem_captureNames h.2
  | .sequence _, h => by
    rw [captureNames]
    exact isName_of_mem_captureNamesAll h.2

theorem isName_of_mem_captureNamesAll : ∀ {ps : List Pattern}, EverywhereAll CanonicalNode ps →
    ∀ name ∈ captureNamesAll ps, IsName name.toList
  | [], _ => by simp [captureNamesAll]
  | p :: ps, h => by
    rw [captureNamesAll, List.forall_mem_append]
    exact ⟨isName_of_mem_captureNames h.1, isName_of_mem_captureNamesAll h.2⟩

end

/-- The captures of a pattern that was read have names. -/
theorem isName_of_parse {text : String} {p : Pattern} (h : parse text = .ok p) :
    ∀ name ∈ p.captureNames, IsName name.toList := by
  obtain rfl | hcanonical := canonical_of_parse h
  · simp [empty, captureNames]
  · exact isName_of_mem_captureNames hcanonical

/-- The captures of a pattern that was read make a tree of names. -/
theorem exists_namesOf {text : String} {p : Pattern} (h : parse text = .ok p) :
    ∃ names, NameTree.ofNames p.captureNames = .ok names :=
  ⟨_, NameTree.ofNames_eq_ok_iff.2
    ⟨fun name hname => continuesName_of_isName (isName_of_parse h name hname), rfl⟩⟩

end Pattern

/-! ## Ready routes and refused ones -/

/-- The fault of a written pattern: that of reading, checking or compiling it, whichever fails
first. -/
inductive RefusedPattern (text : String) : PatternFault → Prop
  | reading {fault : PatternFault} : Pattern.parse text = .error fault → RefusedPattern text fault
  | checking {pattern : Pattern} {fault : PatternFault} :
    Pattern.parse text = .ok pattern → pattern.check = .error fault → RefusedPattern text fault
  | compiling {pattern : Pattern} {fault : MatcherFault} :
    Pattern.parse text = .ok pattern → pattern.check = .ok () →
      Matcher.compile pattern = .error fault → RefusedPattern text (.compile fault)

/-- The fault of a route: the first one of its settings, whatever its pattern, or that of its
pattern. -/
inductive RouteSettings.Refused (settings : RouteSettings) : RouteFault → Prop
  | settings {fault : SettingsFault} {others : List SettingsFault} :
    settings.faults = fault :: others → settings.Refused (.settings fault)
  | pattern {fault : PatternFault} :
    settings.faults = [] → RefusedPattern (trim settings.pattern) fault →
      settings.Refused (.pattern settings.pattern fault)

/-- The route that settings without a fault make. -/
structure RouteSettings.IsReady (settings : RouteSettings) (route : Route) : Prop where
  faultless : settings.faults = []
  settings_eq : route.settings = settings
  canonical_eq : route.canonical = canonicalRoute settings.pattern
  matcher : ∃ pattern, Pattern.parse (trim settings.pattern) = .ok pattern ∧
    pattern.check = .ok () ∧ Matcher.compile pattern = .ok route.matcher
  names : NameTree.ofNames route.matcher.names = .ok route.names

namespace Route

variable {text : String} {settings : RouteSettings}

/-- A written pattern has no matcher exactly if it is refused. -/
theorem matcherOf_eq_error_iff {fault : PatternFault} :
    matcherOf text = .error fault ↔ RefusedPattern text fault := by
  refine ⟨fun h => ?_, fun h => ?_⟩
  · rw [matcherOf] at h
    cases hread : Pattern.parse text with
    | error cause =>
      rw [hread] at h
      obtain rfl : cause = fault := Except.error.inj h
      exact .reading hread
    | ok pattern =>
      rw [hread] at h
      cases hcheck : pattern.check with
      | error cause =>
        simp only [bind, Except.bind, hcheck] at h
        obtain rfl : cause = fault := Except.error.inj h
        exact .checking hread hcheck
      | ok _ =>
        cases hcompile : Matcher.compile pattern with
        | error cause =>
          simp only [bind, Except.bind, hcheck, hcompile, Except.mapError] at h
          obtain rfl : PatternFault.compile cause = fault := Except.error.inj h
          exact .compiling hread hcheck hcompile
        | ok matcher => simp [bind, Except.bind, hcheck, hcompile, Except.mapError] at h
  · cases h with
    | reading hread => simp [matcherOf, hread, bind, Except.bind]
    | checking hread hcheck => simp [matcherOf, hread, hcheck, bind, Except.bind]
    | compiling hread hcheck hcompile =>
      simp [matcherOf, hread, hcheck, hcompile, Except.mapError, bind, Except.bind]

/-- A matcher has names that expressions may refer to. -/
theorem exists_namesOf_matcherOf {matcher : Matcher} (h : matcherOf text = .ok matcher) :
    ∃ names, NameTree.ofNames matcher.names = .ok names := by
  obtain ⟨pattern, hread, -, hcompile⟩ := matcherOf_eq_ok_iff.1 h
  obtain ⟨-, rfl⟩ := Matcher.compile_eq_ok hcompile
  exact Pattern.exists_namesOf hread

theorem ofPattern_of_matcherOf {matcher : Matcher} {names : NameTree String}
    (hmatcher : matcherOf (trim settings.pattern) = .ok matcher)
    (hnames : NameTree.ofNames matcher.names = .ok names) :
    ofPattern settings = .ok ⟨settings, canonicalRoute settings.pattern, matcher, names⟩ := by
  simp [ofPattern, hmatcher, namesOf, hnames, Except.mapError, bind, Except.bind, pure, Except.pure]

/-- Nothing but the pattern keeps settings from making a route. -/
theorem ofPattern_cases (settings : RouteSettings) :
    (∃ fault, matcherOf (trim settings.pattern) = .error fault ∧
        ofPattern settings = .error fault) ∨
      ∃ matcher names, matcherOf (trim settings.pattern) = .ok matcher ∧
        NameTree.ofNames matcher.names = .ok names ∧
        ofPattern settings = .ok ⟨settings, canonicalRoute settings.pattern, matcher, names⟩ := by
  cases hmatcher : matcherOf (trim settings.pattern) with
  | error fault =>
    exact Or.inl ⟨fault, rfl, by simp [ofPattern, hmatcher, bind, Except.bind]⟩
  | ok matcher =>
    obtain ⟨names, hnames⟩ := exists_namesOf_matcherOf hmatcher
    exact Or.inr ⟨matcher, names, rfl, hnames, ofPattern_of_matcherOf hmatcher hnames⟩

theorem ofSettings_of_faults_eq_nil (h : settings.faults = []) :
    ofSettings settings = (ofPattern settings).mapError (.pattern settings.pattern) := by
  rw [ofSettings, h]

theorem ofSettings_of_faults_eq_cons {fault : SettingsFault} {others : List SettingsFault}
    (h : settings.faults = fault :: others) :
    ofSettings settings = .error (.settings fault) := by
  rw [ofSettings, h]

/-- Settings make a route exactly if it is ready. -/
theorem ofSettings_eq_ok_iff {route : Route} :
    ofSettings settings = .ok route ↔ settings.IsReady route := by
  refine ⟨fun h => ?_, fun h => ?_⟩
  · cases hfaults : settings.faults with
    | cons fault others =>
      rw [ofSettings_of_faults_eq_cons hfaults] at h
      cases h
    | nil =>
      rw [ofSettings_of_faults_eq_nil hfaults, mapError_eq_ok_iff] at h
      obtain ⟨fault, -, hpattern⟩ | ⟨matcher, names, hmatcher, hnames, hpattern⟩ :=
        ofPattern_cases settings
      · rw [hpattern] at h
        cases h
      · obtain rfl := Except.ok.inj (hpattern.symm.trans h)
        exact ⟨hfaults, rfl, rfl, matcherOf_eq_ok_iff.1 hmatcher, hnames⟩
  · obtain ⟨hfaults, hsettings, hcanonical, hmatcher, hnames⟩ := h
    rw [ofSettings_of_faults_eq_nil hfaults, mapError_eq_ok_iff,
      ofPattern_of_matcherOf (matcherOf_eq_ok_iff.2 hmatcher) hnames, ← hcanonical, ← hsettings]

/-- Settings have a fault exactly if they are refused with it. -/
theorem ofSettings_eq_error_iff {fault : RouteFault} :
    ofSettings settings = .error fault ↔ settings.Refused fault := by
  refine ⟨fun h => ?_, fun h => ?_⟩
  · cases hfaults : settings.faults with
    | cons cause others =>
      rw [ofSettings_of_faults_eq_cons hfaults] at h
      cases h
      exact .settings hfaults
    | nil =>
      rw [ofSettings_of_faults_eq_nil hfaults] at h
      obtain ⟨cause, hmatcher, hpattern⟩ | ⟨matcher, names, -, -, hpattern⟩ :=
        ofPattern_cases settings
      · rw [hpattern] at h
        cases h
        exact .pattern hfaults (matcherOf_eq_error_iff.1 hmatcher)
      · rw [hpattern] at h
        cases h
  · cases h with
    | settings hfaults => exact ofSettings_of_faults_eq_cons hfaults
    | @pattern cause hfaults hrefused =>
      rw [ofSettings_of_faults_eq_nil hfaults]
      have hmatcher := matcherOf_eq_error_iff.2 hrefused
      obtain ⟨other, hother, hpattern⟩ | ⟨matcher, names, hok, -, -⟩ := ofPattern_cases settings
      · obtain rfl := Except.error.inj (hmatcher.symm.trans hother)
        rw [hpattern]
        rfl
      · rw [hmatcher] at hok
        cases hok

end Route

end HttpGateway
