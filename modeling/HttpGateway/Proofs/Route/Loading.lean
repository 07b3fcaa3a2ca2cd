import HttpGateway.Gateway
import HttpGateway.Proofs.Metrics
import HttpGateway.Proofs.Route.Readiness

/-!
# Loading a configuration

A configuration without a fault as a whole is loaded, and its routes are sorted into those that are
ready and those that are refused, each by its own settings alone (`LoadedSnapshot.Sorts`,
`load_sorts_routes`). Without the refused routes the same snapshot is built.
-/

namespace HttpGateway

/-! ## Faults of the whole configuration -/

namespace Settings

variable {settings : Settings}

theorem concernsWhole_of_mem_faults {route : RouteSettings} {fault : SettingsFault}
    (h : fault ∈ route.faults) : fault.concernsWhole = false := by
  rw [RouteSettings.faults] at h
  split at h
  · simp at h
  · rcases List.mem_append.1 h with h | h
    · split at h
      · rw [List.mem_singleton.1 h]; rfl
      · simp at h
    · split at h
      · rw [List.mem_singleton.1 h]; rfl
      · simp at h

theorem concernsWhole_of_mem_globalFaults {fault : SettingsFault}
    (h : fault ∈ settings.globalFaults) : fault.concernsWhole = true := by
  rw [globalFaults] at h
  rcases List.mem_append.1 h with h | h
  · split at h
    · rw [List.mem_singleton.1 h]; rfl
    · simp at h
  · split at h
    · rw [List.mem_singleton.1 h]; rfl
    · simp at h

/-- The faults of the whole configuration are those of all its faults that concern it as a whole. -/
theorem filter_faults (settings : Settings) :
    settings.faults.filter SettingsFault.concernsWhole = settings.globalFaults := by
  rw [faults, List.filter_append, List.filter_eq_self.2 fun _ => concernsWhole_of_mem_globalFaults,
    List.filter_eq_nil_iff.2, List.append_nil]
  intro fault hfault
  obtain ⟨route, -, hroute⟩ := List.mem_flatMap.1 hfault
  rw [concernsWhole_of_mem_faults hroute]
  exact Bool.false_ne_true

/-- The configuration keeps its own limit on routes, and paths may have a length. -/
def Acceptable (settings : Settings) : Prop :=
  settings.routes.length ≤ settings.limits.maxRouteCount.toNat ∧ settings.limits.maxPathLength ≠ 0

instance : Decidable settings.Acceptable := inferInstanceAs (Decidable (_ ∧ _))

theorem globalFaults_eq_nil_iff : settings.globalFaults = [] ↔ settings.Acceptable := by
  rw [globalFaults, List.append_eq_nil_iff, ite_eq_right_iff, ite_eq_right_iff, Acceptable]
  simp

end Settings

/-! ## Sorting the routes -/

/-- The routes of a configuration at the places that are not listed. -/
def withoutPlaces (places : List Nat) (routes : List RouteSettings) : List RouteSettings :=
  (routes.zipIdx.filter fun entry => entry.2 ∉ places).map Prod.fst

/-- The routes whose shadow key is one of those seen or that of an earlier route. -/
def shadowedRoutes (seen : List String) (routes : List Route) : List Route :=
  (routes.zipIdx.filter fun entry =>
    entry.1.shadowKey ∈ seen ++ (routes.take entry.2).map Route.shadowKey).map Prod.fst

/-- The pattern of a route that can never be reached. -/
def Event.shadowed? : Event → Option String
  | .routeShadowed pattern => some pattern
  | _ => none

/-- The event reports that a route is left out. -/
def Event.isRejection : Event → Bool
  | .routeRejected .. => true
  | _ => false

/-- Whether the settings make a route. -/
def RouteSettings.makesRoute (settings : RouteSettings) : Bool := (Route.ofSettings settings).isOk

namespace LoadedRoutes

variable (route : Route) (shadowed : Bool) (index : Nat) (pattern : String) (fault : RouteFault)
  (later : LoadedRoutes)

@[simp] theorem installed_install :
    (later.install route shadowed).installed = route :: later.installed := rfl

@[simp] theorem rejected_install : (later.install route shadowed).rejected = later.rejected := rfl

@[simp] theorem installed_reject :
    (later.reject index pattern fault).installed = later.installed := rfl

@[simp] theorem rejected_reject :
    (later.reject index pattern fault).rejected = ⟨index, fault⟩ :: later.rejected := rfl

theorem metrics_install : Signal.metrics (later.install route shadowed).signals =
    Signal.metrics later.signals := by
  rw [install, Signal.metrics_append]
  split <;> rfl

theorem events_install : Signal.events (later.install route shadowed).signals =
    (if shadowed then [.routeShadowed route.settings.pattern] else []) ++
      Signal.events later.signals := by
  rw [install, Signal.events_append]
  split <;> rfl

theorem metrics_reject : Signal.metrics (later.reject index pattern fault).signals =
    .routeRejected :: Signal.metrics later.signals := rfl

theorem events_reject : Signal.events (later.reject index pattern fault).signals =
    .routeRejected index pattern fault.message :: Signal.events later.signals := rfl

end LoadedRoutes

section LoadRoutes

variable {index : Nat} {seen : List String} {routes : List RouteSettings}

theorem loadRoutes_cons_ok {settings : RouteSettings} {route : Route}
    (h : Route.ofSettings settings = .ok route) (index : Nat) (seen : List String)
    (rest : List RouteSettings) :
    loadRoutes index seen (settings :: rest) =
      (loadRoutes (index + 1) (route.shadowKey :: seen) rest).install route
        (seen.contains route.shadowKey) := by
  rw [loadRoutes, h]

theorem loadRoutes_cons_error {settings : RouteSettings} {fault : RouteFault}
    (h : Route.ofSettings settings = .error fault) (index : Nat) (seen : List String)
    (rest : List RouteSettings) :
    loadRoutes index seen (settings :: rest) =
      (loadRoutes (index + 1) seen rest).reject index settings.pattern fault := by
  rw [loadRoutes, h]

/-- The routes left out are those with a fault, each at its place and with its fault. -/
theorem mem_rejected_iff {rejection : Rejection} :
    rejection ∈ (loadRoutes index seen routes).rejected ↔
      ∃ place settings, routes[place]? = some settings ∧ rejection.index = index + place ∧
        Route.ofSettings settings = .error rejection.fault := by
  induction routes generalizing index seen with
  | nil => simp [loadRoutes, LoadedRoutes.empty]
  | cons settings rest ih =>
    -- a place after the first one is a place of the rest
    have hlater : (∃ place later, (settings :: rest)[place + 1]? = some later ∧
          rejection.index = index + (place + 1) ∧
          Route.ofSettings later = .error rejection.fault) ↔
        ∃ place later, rest[place]? = some later ∧ rejection.index = index + 1 + place ∧
          Route.ofSettings later = .error rejection.fault := by
      simp only [List.getElem?_cons_succ, Nat.add_assoc, Nat.add_comm 1]
    rw [← Nat.or_exists_add_one, hlater]
    cases hsettings : Route.ofSettings settings with
    | ok route =>
      rw [loadRoutes_cons_ok hsettings, LoadedRoutes.rejected_install, ih]
      simp [hsettings]
    | error fault =>
      rw [loadRoutes_cons_error hsettings, LoadedRoutes.rejected_reject, List.mem_cons, ih]
      refine or_congr_left ⟨fun h => ?_, fun h => ?_⟩
      · subst h
        exact ⟨settings, rfl, rfl, hsettings⟩
      · obtain ⟨_, hfirst, hindex, hfault⟩ := h
        obtain rfl := Option.some.inj hfirst
        obtain rfl := Except.error.inj (hsettings.symm.trans hfault)
        cases rejection
        cases hindex
        rfl

theorem le_of_mem_rejected {rejection : Rejection}
    (h : rejection ∈ (loadRoutes index seen routes).rejected) : index ≤ rejection.index := by
  obtain ⟨place, -, -, hindex, -⟩ := mem_rejected_iff.1 h
  omega

/-- The routes left out come in the order of the configuration. -/
theorem pairwise_rejected (index : Nat) (seen : List String) (routes : List RouteSettings) :
    ((loadRoutes index seen routes).rejected.map Rejection.index).Pairwise (· < ·) := by
  induction routes generalizing index seen with
  | nil => exact .nil
  | cons settings rest ih =>
    cases hsettings : Route.ofSettings settings with
    | ok route =>
      rw [loadRoutes_cons_ok hsettings]
      exact ih _ _
    | error fault =>
      rw [loadRoutes_cons_error hsettings, LoadedRoutes.rejected_reject, List.map_cons,
        List.pairwise_cons]
      refine ⟨fun other hother => ?_, ih _ _⟩
      obtain ⟨rejection, hrejection, rfl⟩ := List.mem_map.1 hother
      exact le_of_mem_rejected hrejection

/-- The routes installed are the other ones, made ready, in the order of the configuration. -/
theorem forall₂_installed (index : Nat) (seen : List String) (routes : List RouteSettings) :
    List.Forall₂ RouteSettings.IsReady (routes.filter RouteSettings.makesRoute)
      (loadRoutes index seen routes).installed := by
  induction routes generalizing index seen with
  | nil => exact .nil
  | cons settings rest ih =>
    cases hsettings : Route.ofSettings settings with
    | ok route =>
      rw [loadRoutes_cons_ok hsettings, List.filter_cons_of_pos (by
        rw [RouteSettings.makesRoute, hsettings]; rfl)]
      exact .cons (Route.ofSettings_eq_ok_iff.1 hsettings) (ih _ _)
    | error fault =>
      rw [loadRoutes_cons_error hsettings, List.filter_cons_of_neg (by
        rw [RouteSettings.makesRoute, hsettings]; exact Bool.false_ne_true)]
      exact ih _ _

/-- A route that is installed is made ready from its settings. -/
theorem isReady_of_mem_installed {route : Route}
    (h : route ∈ (loadRoutes index seen routes).installed) : route.settings.IsReady route := by
  have hready := forall₂_installed index seen routes
  generalize (loadRoutes index seen routes).installed = installed at h hready
  generalize routes.filter RouteSettings.makesRoute = settings at hready
  induction hready with
  | nil => cases h
  | cons hfirst _ ih =>
    obtain rfl | h := List.mem_cons.1 h
    · rwa [hfirst.settings_eq]
    · exact ih h

theorem length_installed_add_rejected (index : Nat) (seen : List String)
    (routes : List RouteSettings) :
    (loadRoutes index seen routes).installed.length +
      (loadRoutes index seen routes).rejected.length = routes.length := by
  induction routes generalizing index seen with
  | nil => rfl
  | cons settings rest ih =>
    cases hsettings : Route.ofSettings settings with
    | ok route =>
      rw [loadRoutes_cons_ok hsettings, LoadedRoutes.installed_install,
        LoadedRoutes.rejected_install, List.length_cons, List.length_cons,
        ← ih (index + 1) (route.shadowKey :: seen)]
      omega
    | error fault =>
      rw [loadRoutes_cons_error hsettings, LoadedRoutes.installed_reject,
        LoadedRoutes.rejected_reject, List.length_cons, List.length_cons, ← ih (index + 1) seen]
      omega

/-- The only metric that loading updates counts the routes left out. -/
theorem metrics_loadRoutes (index : Nat) (seen : List String) (routes : List RouteSettings) :
    Signal.metrics (loadRoutes index seen routes).signals =
      List.replicate (loadRoutes index seen routes).rejected.length .routeRejected := by
  induction routes generalizing index seen with
  | nil => rfl
  | cons settings rest ih =>
    cases hsettings : Route.ofSettings settings with
    | ok route =>
      rw [loadRoutes_cons_ok hsettings, LoadedRoutes.metrics_install, ih,
        LoadedRoutes.rejected_install]
    | error fault =>
      rw [loadRoutes_cons_error hsettings, LoadedRoutes.metrics_reject, ih,
        LoadedRoutes.rejected_reject, List.length_cons, List.replicate_succ]

/-- The routes left out leave no trace in what is installed. -/
theorem loadRoutes_filter (index other : Nat) (seen : List String) (routes : List RouteSettings) :
    (loadRoutes other seen (routes.filter RouteSettings.makesRoute)).installed =
        (loadRoutes index seen routes).installed ∧
      (loadRoutes other seen (routes.filter RouteSettings.makesRoute)).rejected = [] := by
  induction routes generalizing index other seen with
  | nil => exact ⟨rfl, rfl⟩
  | cons settings rest ih =>
    cases hsettings : Route.ofSettings settings with
    | ok route =>
      rw [List.filter_cons_of_pos (by rw [RouteSettings.makesRoute, hsettings]; rfl),
        loadRoutes_cons_ok hsettings, loadRoutes_cons_ok hsettings]
      obtain ⟨hinstalled, hrejected⟩ := ih (index + 1) (other + 1) (route.shadowKey :: seen)
      simp [hinstalled, hrejected]
    | error fault =>
      rw [List.filter_cons_of_neg (by
        rw [RouteSettings.makesRoute, hsettings]; exact Bool.false_ne_true),
        loadRoutes_cons_error hsettings]
      exact ih (index + 1) other seen

theorem shadowedRoutes_cons (seen : List String) (route : Route) (rest : List Route) :
    shadowedRoutes seen (route :: rest) =
      (if seen.contains route.shadowKey then [route] else []) ++
        shadowedRoutes (route.shadowKey :: seen) rest := by
  have hlater : ((rest.zipIdx 1).filter fun entry =>
        entry.1.shadowKey ∈ seen ++ ((route :: rest).take entry.2).map Route.shadowKey).map Prod.fst =
      shadowedRoutes (route.shadowKey :: seen) rest := by
    rw [shadowedRoutes, List.zipIdx_succ, List.filter_map, List.map_map]
    refine congrArg _ (List.filter_congr fun entry _ => ?_)
    simp [Bool.or_left_comm]
  rw [shadowedRoutes, List.zipIdx_cons, List.filter_cons, ← hlater]
  by_cases hseen : route.shadowKey ∈ seen <;> simp [hseen]

/-- Loading warns of the routes whose shadow key an earlier route has, and of no others. -/
theorem shadowed_loadRoutes (index : Nat) (seen : List String) (routes : List RouteSettings) :
    (Signal.events (loadRoutes index seen routes).signals).filterMap Event.shadowed? =
      (shadowedRoutes seen (loadRoutes index seen routes).installed).map fun route =>
        route.settings.pattern := by
  induction routes generalizing index seen with
  | nil => rfl
  | cons settings rest ih =>
    cases hsettings : Route.ofSettings settings with
    | ok route =>
      rw [loadRoutes_cons_ok hsettings, LoadedRoutes.events_install, List.filterMap_append, ih,
        LoadedRoutes.installed_install, shadowedRoutes_cons, List.map_append]
      split <;> rfl
    | error fault =>
      rw [loadRoutes_cons_error hsettings, LoadedRoutes.events_reject, List.filterMap_cons_none rfl,
        LoadedRoutes.installed_reject, ih]

/-- Loading reports each route left out with its place, its pattern and its fault. -/
theorem forall₂_rejected (all : List RouteSettings) (index : Nat) (seen : List String)
    (routes : List RouteSettings)
    (hall : ∀ place settings, routes[place]? = some settings →
      all[index + place]? = some settings) :
    List.Forall₂ (fun rejection event => ∃ settings, all[rejection.index]? = some settings ∧
        event = Event.routeRejected rejection.index settings.pattern rejection.fault.message)
      (loadRoutes index seen routes).rejected
      ((Signal.events (loadRoutes index seen routes).signals).filter Event.isRejection) := by
  induction routes generalizing index seen with
  | nil => exact .nil
  | cons settings rest ih =>
    have hrest : ∀ place later, rest[place]? = some later → all[index + 1 + place]? = some later :=
      fun place later hlater => by
        rw [Nat.add_assoc, Nat.add_comm 1]
        exact hall (place + 1) later hlater
    cases hsettings : Route.ofSettings settings with
    | ok route =>
      rw [loadRoutes_cons_ok hsettings, LoadedRoutes.events_install, List.filter_append]
      have hnone : (if seen.contains route.shadowKey then
          [Event.routeShadowed route.settings.pattern] else []).filter Event.isRejection = [] := by
        split <;> rfl
      rw [hnone]
      exact ih _ _ hrest
    | error fault =>
      rw [loadRoutes_cons_error hsettings, LoadedRoutes.events_reject, List.filter_cons_of_pos rfl,
        LoadedRoutes.rejected_reject]
      exact .cons ⟨settings, hall 0 settings rfl, rfl⟩ (ih _ _ hrest)

/-- The routes at the places of those left out are the ones that make no route. -/
theorem withoutPlaces_rejected (seen : List String) (routes : List RouteSettings) :
    withoutPlaces ((loadRoutes 0 seen routes).rejected.map Rejection.index) routes =
      routes.filter RouteSettings.makesRoute := by
  have hplaces : ∀ entry ∈ routes.zipIdx,
      (entry.2 ∉ (loadRoutes 0 seen routes).rejected.map Rejection.index ↔
        entry.1.makesRoute = true) := by
    rintro ⟨settings, place⟩ hentry
    have hplace : routes[place]? = some settings := List.mem_zipIdx_iff_getElem?.1 hentry
    rw [List.mem_map, RouteSettings.makesRoute]
    cases hsettings : Route.ofSettings settings with
    | ok route =>
      refine iff_of_true (fun ⟨rejection, hrejection, hindex⟩ => ?_) rfl
      obtain ⟨_, other, hother, hat, hfault⟩ := mem_rejected_iff.1 hrejection
      rw [Nat.zero_add] at hat
      obtain rfl := Option.some.inj (hplace.symm.trans ((hindex ▸ hat) ▸ hother))
      rw [hsettings] at hfault
      cases hfault
    | error fault =>
      refine iff_of_false (not_not_intro ⟨⟨place, fault⟩, ?_, rfl⟩) Bool.false_ne_true
      exact mem_rejected_iff.2 ⟨place, settings, hplace, (Nat.zero_add place).symm, hsettings⟩
  have hfilter : routes.zipIdx.filter (fun entry =>
        entry.2 ∉ (loadRoutes 0 seen routes).rejected.map Rejection.index) =
      routes.zipIdx.filter (RouteSettings.makesRoute ∘ Prod.fst) :=
    List.filter_congr fun entry hentry =>
      Bool.eq_iff_iff.2 (decide_eq_true_iff.trans (hplaces entry hentry))
  rw [withoutPlaces, hfilter, ← List.filter_map, List.zipIdx_map_fst]

end LoadRoutes

/-! ## Loading a snapshot -/

/-- The routes of a configuration are sorted into those installed and those left out. -/
structure LoadedSnapshot.Sorts (settings : Settings) (loaded : LoadedSnapshot) : Prop where
  /-- The places of the routes left out, in increasing order. -/
  increasing : (loaded.summary.rejected.map Rejection.index).Pairwise (· < ·)
  /-- The routes left out are the refused ones, each with its fault. -/
  rejected_iff : ∀ index fault, ⟨index, fault⟩ ∈ loaded.summary.rejected ↔
    ∃ route, settings.routes[index]? = some route ∧ route.Refused fault
  /-- The routes installed are all the others in order, each made from its own settings. -/
  installed : List.Forall₂ RouteSettings.IsReady
    (withoutPlaces (loaded.summary.rejected.map Rejection.index) settings.routes)
    loaded.snapshot.routes
  limits : loaded.snapshot.limits = settings.limits
  installed_eq : loaded.summary.installed = loaded.snapshot.routes.length
  count : loaded.summary.installed + loaded.summary.rejected.length = settings.routes.length
  /-- The counter of routes left out grows by their number. -/
  counter : ∀ before, Signal.total Metric.routeRejected.name (before ++ loaded.signals) =
    Signal.total Metric.routeRejected.name before + loaded.summary.rejected.length
  /-- Each route left out is reported, with its pattern as it is written. -/
  reported : List.Forall₂ (fun rejection event => ∃ route,
      settings.routes[rejection.index]? = some route ∧
        event = Event.routeRejected rejection.index route.pattern rejection.fault.message)
    loaded.summary.rejected ((Signal.events loaded.signals).filter Event.isRejection)
  /-- The routes that are reported as shadowed have the shadow key of an earlier installed route. -/
  shadowed : (Signal.events loaded.signals).filterMap Event.shadowed? =
    (shadowedRoutes [] loaded.snapshot.routes).map fun route => route.settings.pattern

namespace Snapshot

variable {generation : Nat} {settings : Settings}

/-- What loading yields if the configuration has no fault as a whole. -/
def loaded (generation : Nat) (settings : Settings) : LoadedSnapshot :=
  let routes := loadRoutes 0 [] settings.routes
  { snapshot := ⟨generation, settings.limits, routes.installed⟩
    summary := ⟨routes.installed.length, routes.rejected⟩
    signals := routes.signals }

theorem load_of_globalFaults_eq_nil (h : settings.globalFaults = []) (generation : Nat) :
    load generation settings = .ok (loaded generation settings) := by
  rw [load, h]
  rfl

theorem load_of_globalFaults_ne_nil (h : settings.globalFaults ≠ []) (generation : Nat) :
    load generation settings = .error ⟨settings.globalFaults⟩ := by
  rw [load]
  split
  · next hnil => exact absurd hnil h
  · rfl

/-- Whatever is built is what loading yields. -/
theorem eq_loaded_of_load {built : LoadedSnapshot} (h : load generation settings = .ok built) :
    built = loaded generation settings := by
  by_cases hfaults : settings.globalFaults = []
  · exact Except.ok.inj (h.symm.trans (load_of_globalFaults_eq_nil hfaults generation))
  · rw [load_of_globalFaults_ne_nil hfaults] at h
    cases h

theorem sorts_loaded (generation : Nat) (settings : Settings) :
    (loaded generation settings).Sorts settings := by
  constructor
  case increasing => exact pairwise_rejected 0 [] settings.routes
  case rejected_iff =>
    intro index fault
    refine mem_rejected_iff.trans ⟨fun h => ?_, fun h => ?_⟩
    · obtain ⟨place, route, hroute, hindex, hfault⟩ := h
      obtain rfl : index = place := hindex.trans (Nat.zero_add place)
      exact ⟨route, hroute, Route.ofSettings_eq_error_iff.1 hfault⟩
    · obtain ⟨route, hroute, hfault⟩ := h
      exact ⟨index, route, hroute, (Nat.zero_add index).symm,
        Route.ofSettings_eq_error_iff.2 hfault⟩
  case installed =>
    rw [loaded, withoutPlaces_rejected]
    exact forall₂_installed 0 [] settings.routes
  case limits => rfl
  case installed_eq => rfl
  case count => exact length_installed_add_rejected 0 [] settings.routes
  case counter =>
    intro before
    rw [Signal.total_append (by decide), loaded, metrics_loadRoutes, List.countP_replicate,
      decide_eq_true rfl, if_pos rfl]
  case reported =>
    refine forall₂_rejected settings.routes 0 [] settings.routes fun place route hroute => ?_
    rwa [Nat.zero_add]
  case shadowed => exact shadowed_loadRoutes 0 [] settings.routes

/-- The routes left out may as well not be there. -/
theorem loaded_withoutPlaces (generation : Nat) (settings : Settings) :
    let kept := withoutPlaces ((loaded generation settings).summary.rejected.map Rejection.index)
      settings.routes
    (loaded generation { settings with routes := kept }).snapshot =
        (loaded generation settings).snapshot ∧
      (loaded generation { settings with routes := kept }).summary.rejected = [] := by
  obtain ⟨hinstalled, hrejected⟩ := loadRoutes_filter 0 0 [] settings.routes
  simp [loaded, withoutPlaces_rejected, hinstalled, hrejected]

theorem globalFaults_withoutPlaces (h : settings.globalFaults = []) (places : List Nat) :
    ({ settings with routes := withoutPlaces places settings.routes } : Settings).globalFaults =
      [] := by
  obtain ⟨hcount, hlength⟩ := Settings.globalFaults_eq_nil_iff.1 h
  refine Settings.globalFaults_eq_nil_iff.2 ⟨le_trans ?_ hcount, hlength⟩
  dsimp only
  rw [withoutPlaces, List.length_map]
  exact (List.length_filter_le _ _).trans_eq List.length_zipIdx

end Snapshot

namespace Gateway

variable {gateway : Gateway} {settings : Settings}

theorem reload_of_load {loaded : LoadedSnapshot}
    (h : Snapshot.load gateway.nextGeneration settings = .ok loaded) :
    gateway.reload settings =
      { gateway :=
          { gateway with
            current := loaded.snapshot
            nextGeneration := gateway.nextGeneration + 1 }
        result := .ok loaded.summary
        signals := loaded.signals ++
          [.metric (.routesInstalled loaded.summary.installed),
           .event (.tableLoaded loaded.summary.installed loaded.summary.rejected.length)] } := by
  rw [reload, h]

theorem reload_of_refused {refusal : SettingsRefusal}
    (h : Snapshot.load gateway.nextGeneration settings = .error refusal) :
    gateway.reload settings = ⟨gateway, .error refusal, [.event (.loadFailed refusal.message)]⟩ := by
  rw [reload, h]

end Gateway

/-- **Loading sorts the routes.** A configuration without a fault as a whole is loaded and put in
force, every route is installed or left out by its own settings alone, and the routes left out may
as well not be there. -/
theorem load_sorts_routes (generation : Nat) (settings : Settings)
    (hwhole : ∀ fault ∈ settings.faults, fault.concernsWhole = false) :
    ∃ loaded, Snapshot.load generation settings = .ok loaded ∧ loaded.Sorts settings ∧
      (∀ gateway : Gateway, gateway.nextGeneration = generation →
        (gateway.reload settings).result = .ok loaded.summary ∧
        (gateway.reload settings).gateway.current = loaded.snapshot ∧
        ∀ before, Signal.total Metric.routeRejected.name
            (before ++ (gateway.reload settings).signals) =
          Signal.total Metric.routeRejected.name before + loaded.summary.rejected.length) ∧
      ∃ again, Snapshot.load generation { settings with
            routes := withoutPlaces (loaded.summary.rejected.map Rejection.index)
              settings.routes } = .ok again ∧
        again.summary.rejected = [] ∧
        ∀ path, again.snapshot.resolve path = loaded.snapshot.resolve path ∧
          ∀ expired, again.snapshot.resolveWithin expired path =
            loaded.snapshot.resolveWithin expired path := by
  have hglobal : settings.globalFaults = [] := by
    rw [← Settings.filter_faults, List.filter_eq_nil_iff]
    exact fun fault hfault => Bool.eq_false_iff.1 (hwhole fault hfault)
  have hload := Snapshot.load_of_globalFaults_eq_nil hglobal generation
  have hsorts := Snapshot.sorts_loaded generation settings
  obtain ⟨hsnapshot, hrejected⟩ := Snapshot.loaded_withoutPlaces generation settings
  refine ⟨_, hload, hsorts, fun gateway hgeneration => ?_, _,
    Snapshot.load_of_globalFaults_eq_nil (Snapshot.globalFaults_withoutPlaces hglobal _) generation,
    hrejected, fun path => ?_⟩
  · subst hgeneration
    rw [Gateway.reload_of_load hload]
    refine ⟨rfl, rfl, fun before => ?_⟩
    rw [← List.append_assoc, Signal.total_append (by decide), hsorts.counter]
    rfl
  · rw [hsnapshot]
    exact ⟨rfl, fun _ => rfl⟩

/-- Two routes are ready, the later one shadowed; one has a pattern and another has settings that
are refused. -/
def mixedSettings : Settings where
  routes := [
    { pattern := " /Shop", proxy := some { target := "http://shop" } },
    { pattern := "/:id/:id", proxy := some { target := "http://shop" } },
    { pattern := "(", proxy := some { target := " " } },
    { pattern := "shop/" }]

/-- The third route is refused for its settings although its pattern cannot be read either. -/
theorem load_sorts_routes_mixed :
    ∃ loaded, Snapshot.load 3 mixedSettings = .ok loaded ∧ loaded.Sorts mixedSettings ∧
      loaded.summary = ⟨2, [⟨1, .pattern "/:id/:id" (.repeatedName "id")⟩,
        ⟨2, .settings (.blankTarget "(")⟩]⟩ := by
  obtain ⟨loaded, hload, hsorts, -⟩ := load_sorts_routes 3 mixedSettings (by decide +kernel)
  refine ⟨loaded, hload, hsorts, ?_⟩
  have hsummary : (Snapshot.loaded 3 mixedSettings).summary =
      ⟨2, [⟨1, .pattern "/:id/:id" (.repeatedName "id")⟩, ⟨2, .settings (.blankTarget "(")⟩]⟩ := by
    decide +kernel
  have hnone : mixedSettings.globalFaults = [] := by decide +kernel
  obtain rfl := Except.ok.inj (hload.symm.trans (Snapshot.load_of_globalFaults_eq_nil hnone 3))
  exact hsummary

end HttpGateway
