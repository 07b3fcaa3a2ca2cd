import HttpGateway.Proofs.Cache.Runs
import HttpGateway.Proofs.Expression.Boundaries
import HttpGateway.Proofs.Pattern.Verdict
import HttpGateway.Proofs.Session.Values

/-!
# Every variable can be referred to

The variables that a route declares are names, none of which is that of a system variable. So before
a text that ends a name, each of them stands for what was captured for it, and each system name for
the value of its variable, whatever other names there are (`Scope.KnowsVariables`). It holds of the
scope of every path that a route matches, and this is what is evaluated, with every cache
(`variables_are_known`). It also holds of every result that a session holds
(`Session.knowsVariables_of_held?`).
-/

namespace HttpGateway

open Text

theorem RequestAttribute.isName_toList_name (v : RequestAttribute) : IsName v.name.toList := by
  have husable := Expression.usable_name v
  have hstart : v.name.toList.head?.any startsName = true := by cases v <;> decide
  cases hname : v.name.toList with
  | nil => simp [hname] at hstart
  | cons c cs =>
    rw [hname] at husable hstart
    exact ⟨hstart, (List.forall_mem_cons.1 husable).2⟩

namespace Scope

/-- The declared names stand for what was captured for them, and the system names for the values of
their variables. -/
structure KnowsVariables (scope : Scope) (names : List String) : Prop where
  apart : ∀ name ∈ names, RequestAttribute.isName name = false
  captured : ∀ name ∈ names, ∃ taken, scope.captured.lookup name = some taken ∧
    ∀ rest : String, EndsName rest.toList →
      scope.plainValue ("$" ++ name ++ rest) = taken ++ scope.plainValue rest
  system : ∀ (v : RequestAttribute) (rest : String), EndsName rest.toList →
    scope.plainValue ("$" ++ v.name ++ rest) =
      (scope.request.value? v).getD "" ++ scope.plainValue rest

variable {scope : Scope} {names : List String}

theorem knowsVariables (htree : NameTree.ofNames names = .ok scope.names)
    (hnames : ∀ name ∈ names, IsName name.toList)
    (hapart : ∀ name ∈ names, RequestAttribute.isName name = false)
    (hcaptured : scope.captured.map Prod.fst = names) : scope.KnowsVariables names := by
  constructor
  case apart => exact hapart
  case captured =>
    intro name hname
    obtain ⟨taken, htaken⟩ : ∃ taken, scope.captured.lookup name = some taken := by
      refine Option.ne_none_iff_exists'.1 fun hnone => ?_
      exact lookup_eq_none_iff_notMem.1 hnone (hcaptured ▸ hname)
    refine ⟨taken, htaken, fun rest hrest => ?_⟩
    have hdeclared : (Reference.route name).IsDeclared names := by
      refine ⟨hname, ?_⟩
      rintro rfl
      exact hnames "" hname
    have hpreferred : ∀ v : RequestAttribute, v.name = name → Reference.route name = .system v :=
      fun v hv => by simpa [RequestAttribute.isName_iff.2 ⟨v, hv⟩] using hapart name hname
    have hvalue := plainValue_reference htree hdeclared (hnames name hname) hpreferred hrest
    rwa [Expression.referenceValue, htaken, Option.getD_some] at hvalue
  case system =>
    intro v rest hrest
    have hdeclared : (Reference.system v).IsDeclared names := trivial
    have hpreferred : ∀ w : RequestAttribute, w.name = v.name → Reference.system v = .system w :=
      fun w hw => congrArg _ (RequestAttribute.name_injective hw.symm)
    exact plainValue_reference htree hdeclared v.isName_toList_name hpreferred hrest

end Scope

/-- The scope of a path that the pattern of the names matches knows its variables. -/
theorem Matcher.knowsVariables {text path : String} {pattern : Pattern} {matcher : Matcher}
    {scope : Scope} {suffix : String} (hread : Pattern.parse text = .ok pattern)
    (hcheck : pattern.check = .ok ()) (hcompile : Matcher.compile pattern = .ok matcher)
    (htree : NameTree.ofNames matcher.names = .ok scope.names)
    (hfound : matcher.match? path = some ⟨scope.captured, suffix⟩) :
    scope.KnowsVariables pattern.captureNames := by
  obtain ⟨hnodup, rfl⟩ := Matcher.compile_eq_ok hcompile
  obtain ⟨split, -, hyields⟩ := Matcher.yields_of_match? hnodup hfound
  exact Scope.knowsVariables htree (Pattern.isName_of_parse hread)
    (Pattern.isName_eq_false_of_check hcheck) hyields.names_eq

/-! ## Routes and sessions -/

/-- The cache of a route after evaluations that have fetched texts. -/
def Route.cacheAfter (route : Route) (limit : Nat) (texts : List String) : Cache Expression :=
  (Cache.empty limit).after (texts.map (Expression.call route.names))

theorem Route.faithful_cacheAfter (route : Route) (limit : Nat) (texts : List String) :
    (route.cacheAfter limit texts).Faithful (Expression.compile route.names) := by
  have hfetched := EvaluationState.foldl_fetch route.names ⟨.empty limit, []⟩ texts
  have hcache : route.cacheAfter limit texts = _ := congrArg EvaluationState.cache hfetched.symm
  rw [hcache]
  exact Evaluation.faithful_foldl (Cache.faithful_empty _ limit) texts

namespace Session

variable {session next : Session} {step : Step}

/-- The held results are what their routes make of paths. -/
def HoldsMatches (session : Session) : Prop :=
  ∀ entry ∈ session.held, ∀ resolved, entry.2 = some resolved →
    ∃ path, resolved.route.matcher.match? path = some ⟨resolved.captured, resolved.suffix⟩

theorem HoldsMatches.becomes (h : session.HoldsMatches) (hstep : session.Becomes step next) :
    next.HoldsMatches := by
  cases hstep with
  | @holds path name kept snapshot _ _ =>
    refine List.forall_mem_cons.2 ⟨fun resolved hresolved => ⟨path, ?_⟩, h⟩
    obtain ⟨index, hfirst⟩ := Snapshot.exists_isFirstMatch_of_resolve hresolved
    exact hfirst.found
  | _ => exact h

theorem holdsMatches_after (limits : Limits) (steps : List Step) :
    ((start limits).after steps).HoldsMatches := by
  have hstart : (start limits).HoldsMatches := fun _ hentry => absurd hentry List.not_mem_nil
  exact invariant_after HoldsMatches.becomes hstart steps

/-- After any steps, the variables of a held result are known for every request. -/
theorem knowsVariables_of_held? {limits : Limits} {steps : List Step} {held : String}
    {resolved : Resolved} (hheld : ((start limits).after steps).held? held = some resolved)
    (request : Request) :
    (resolved.scope request).KnowsVariables resolved.route.matcher.names := by
  obtain ⟨issued, hrecords⟩ := isRecorded_after limits steps
  obtain ⟨snapshot, hsnapshot, hresolved⟩ := hrecords.isOf_of_held? hheld
  have hready := hrecords.isReady snapshot hsnapshot _ (List.mem_of_getElem? hresolved.route_eq)
  obtain ⟨pattern, hread, hcheck, hcompile⟩ := hready.matcher
  obtain ⟨path, hfound⟩ :=
    holdsMatches_after limits steps _ (Records.mem_held hheld) resolved rfl
  have hknows : (resolved.scope request).KnowsVariables pattern.captureNames :=
    Matcher.knowsVariables hread hcheck hcompile hready.names hfound
  have hnames : resolved.route.matcher.names = pattern.captureNames :=
    congrArg Matcher.names (Matcher.compile_eq_ok hcompile).2
  rwa [hnames]

end Session

/-- **Every declared variable can be referred to and none can be hijacked.** For each path that a
route matches, the declared names and the system names stand for their values, before any text that
ends a name. So they are evaluated, with every cache that the route may have by then, and so a
session answers. -/
theorem variables_are_known {settings : RouteSettings} {pattern : Pattern} {matcher : Matcher}
    (hread : Pattern.parse (trim settings.pattern) = .ok pattern) (hcheck : pattern.check = .ok ())
    (hcompile : Matcher.compile pattern = .ok matcher) :
    ∃ route, Route.ofPattern settings = .ok route ∧ route.matcher = matcher ∧
      ∀ path found, matcher.match? path = some found → ∀ request,
        let scope : Scope := ⟨route.names, found.captured, request⟩
        scope.KnowsVariables pattern.captureNames ∧
        (∀ limit earlier text, ((scope.evaluate text).runWith (route.cacheAfter limit earlier)).1 =
          scope.plainValue text) ∧
        ∀ limits steps held resolved,
          let session := (Session.start limits).after steps
          session.held? held = some resolved → resolved.route = route →
            resolved.captured = found.captured → ∀ text, ∃ cached,
              (session.step (.evaluate held request text)).answer =
                .value (scope.plainValue text) cached := by
  have hmatcher := Route.matcherOf_eq_ok_iff.2 ⟨pattern, hread, hcheck, hcompile⟩
  obtain ⟨tree, htree⟩ := Route.exists_namesOf_matcherOf hmatcher
  refine ⟨_, Route.ofPattern_of_matcherOf hmatcher htree, rfl, fun path found hfound request => ?_⟩
  refine ⟨?_, fun limit earlier text => ?_, ?_⟩
  · exact Matcher.knowsVariables hread hcheck hcompile htree hfound
  · exact (Scope.yields_evaluate _ text).value_runWith (Route.faithful_cacheAfter _ limit earlier)
  · intro limits steps held resolved session hheld hroute hcaptured text
    have hrecorded : session.IsRecorded := Session.isRecorded_after limits steps
    have hplain := Session.evaluatesPlainly hrecorded.cachesFaithfully hheld request
    have hanswer := hplain.evaluate text
    rw [hroute, hcaptured] at hanswer
    exact ⟨_, hanswer⟩

/-- A route whose variables have names that go on from that of the system variable `host`. -/
def hostnameSettings : RouteSettings := { pattern := "/users/:hostname/:host_id" }

/-- Its tree. -/
def hostnamePattern : Pattern :=
  .sequence [.separator, .literal "users", .separator, .capture "hostname", .separator,
    .capture "host_id"]

theorem variables_are_known_hostname :
    ∃ route, Route.ofPattern hostnameSettings = .ok route ∧ ∀ request : Request,
      let scope : Scope := ⟨route.names, [("hostname", "box1"), ("host_id", "77")], request⟩
      scope.plainValue "$hostname:$host" = "box1" ++ scope.plainValue ":$host" ∧
        scope.plainValue "$host:$hostname" =
          (request.value? .host).getD "" ++ scope.plainValue ":$hostname" := by
  have hread : Pattern.parse (trim hostnameSettings.pattern) = .ok hostnamePattern := by rfl
  have hcompile : Matcher.compile hostnamePattern =
      .ok ⟨hostnamePattern.core, hostnamePattern.captureNames⟩ :=
    Matcher.compile_of_limits (by decide) (by decide) (by decide +kernel)
  have hfound : (⟨hostnamePattern.core, hostnamePattern.captureNames⟩ : Matcher).match?
      "/users/box1/77" = some ⟨[("hostname", "box1"), ("host_id", "77")], ""⟩ := by
    decide +kernel
  obtain ⟨route, hroute, -, hknown⟩ := variables_are_known hread (by rfl) hcompile
  refine ⟨route, hroute, fun request => ?_⟩
  obtain ⟨hknows, -, -⟩ := hknown "/users/box1/77" _ hfound request
  obtain ⟨taken, htaken, hvalue⟩ := hknows.captured "hostname" (by decide)
  obtain rfl : taken = "box1" := Option.some.inj (htaken.symm.trans rfl)
  exact ⟨hvalue ":$host" (by decide), hknows.system .host ":$hostname" (by decide)⟩

/-- In a session, the three names next to each other keep apart. -/
example :
    let session := (Session.start {}).after [
      .reload { routes := [{ pattern := "/users/:hostname/:host_id" }] },
      .resolve "/users/box1/77" none (some "box")]
    (session.step (.evaluate "box" { host := "example.com" } "$host:$hostname:$host_id")).answer
      matches .value "example.com:box1:77" 1 := by
  decide +kernel

end HttpGateway
