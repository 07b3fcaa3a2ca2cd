import HttpGateway.Proofs.Session.CacheLimits

/-!
# Caches are transparent

Each route of each snapshot has a cache of its own, which only evaluations for the results of that
route change (`Session.SeparatesCaches`). No cache changes a value: this is
`caching_changes_no_value`, for any steps in any order.
-/

namespace HttpGateway

/-- What an evaluation does to a cache depends on the names only. -/
theorem Scope.state_evaluate {scope other : Scope} (hnames : scope.names = other.names)
    (text : String) (cache : Cache Expression) :
    ((scope.evaluate text).runWith cache).2 = ((other.evaluate text).runWith cache).2 := by
  rw [evaluate, evaluate, hnames]
  split <;> rfl

namespace Session

/-- Each route of each snapshot has a cache of its own. -/
structure SeparatesCaches (session : Session) : Prop where
  /-- A result has the key of its route in the snapshot that it was resolved with. -/
  keyed : ∀ path kept hold snapshot resolved, session.snapshot? kept = some snapshot →
    (session.step (.resolve path kept hold)).answer = .resolved (some resolved) →
      resolved.IsOf snapshot
  /-- Results with one key are of one route, and evaluating for either does the same to its cache. -/
  shared : ∀ one other first second, session.held? one = some first →
    session.held? other = some second → first.key = second.key →
      first.route = second.route ∧ session.cached first = session.cached second ∧
        ∀ request otherRequest text,
          (session.step (.evaluate one request text)).session =
              (session.step (.evaluate other otherRequest text)).session ∧
            (session.step (.evaluate one request text)).signals =
              (session.step (.evaluate other otherRequest text)).signals
  /-- An evaluation changes the cache of the route of the held result and nothing else. -/
  apart : ∀ step name resolved, step.evaluated? = some name → session.held? name = some resolved →
    let next := (session.step step).session
    next = { session with gateway := { session.gateway with caches := next.gateway.caches } } ∧
      ∀ key, key ≠ resolved.key → ∀ limits,
        next.gateway.cache key limits = session.gateway.cache key limits
  /-- Other steps change no cache, and neither does an evaluation for a result that is not held. -/
  unchanged : ∀ step, (∀ name resolved, step.evaluated? = some name →
      session.held? name ≠ some resolved) →
    (session.step step).session.gateway.caches = session.gateway.caches
  /-- A snapshot that is put in force is newer than any other, and its caches are empty. -/
  fresh : ∀ step origin, step.origin? = some origin →
    let next := (session.step step).session.gateway
    (∀ index limits, next.cache ⟨next.current.generation, index⟩ limits =
        .empty limits.expressionCacheLimit.toNat) ∧
      session.gateway.current.generation < next.current.generation ∧
      (∀ entry ∈ session.snapshots, entry.2.generation < next.current.generation) ∧
      ∀ name resolved, session.held? name = some resolved →
        resolved.key.generation < next.current.generation

variable {session next : Session} {step : Step} {issued : List Snapshot}

/-- Results with one key are of one route. -/
theorem Records.route_eq (h : session.Records issued) {one other : String} {first second : Resolved}
    (hfirst : session.held? one = some first) (hsecond : session.held? other = some second)
    (hkey : first.key = second.key) :
    first.route = second.route ∧ first.limits = second.limits := by
  obtain ⟨snapshot, hsnapshot, hof⟩ := h.isOf_of_held? hfirst
  obtain ⟨same, hsame, hofSame⟩ := h.isOf_of_held? hsecond
  have hgeneration : snapshot.generation = same.generation := by
    rw [← hof.generation_eq, ← hofSame.generation_eq, hkey]
  obtain rfl := h.generation_inj snapshot hsnapshot same hsame hgeneration
  refine ⟨Option.some.inj ?_, hof.limits_eq.trans hofSame.limits_eq.symm⟩
  rw [← hof.route_eq, ← hofSame.route_eq, hkey]

theorem apart_of_becomes (h : session.Becomes step next) {name : String} {resolved : Resolved}
    (hname : step.evaluated? = some name) (hheld : session.held? name = some resolved) :
    next = { session with gateway := { session.gateway with caches := next.gateway.caches } } ∧
      ∀ key, key ≠ resolved.key → ∀ limits,
        next.gateway.cache key limits = session.gateway.cache key limits := by
  cases h with
  | installs horigin => rw [Step.origin?_of_evaluated hname] at horigin; cases horigin
  | stays _ => exact ⟨rfl, fun _ _ _ => rfl⟩
  | keeps hkeep => subst hkeep; cases hname
  | holds hhold => subst hhold; cases hname
  | @evaluates other found cache hother hfound _ =>
    obtain rfl := Option.some.inj (hother.symm.trans hname)
    obtain rfl := Option.some.inj (hfound.symm.trans hheld)
    exact ⟨rfl, fun key hkey limits =>
      (session.gateway.cache_put found.key key cache limits).trans (if_neg hkey)⟩

theorem caches_of_becomes (h : session.Becomes step next)
    (hstep : ∀ name resolved, step.evaluated? = some name → session.held? name ≠ some resolved) :
    next.gateway.caches = session.gateway.caches := by
  cases h with
  | evaluates hname hheld => exact absurd hheld (hstep _ _ hname)
  | _ => rfl

theorem IsRecorded.separatesCaches (h : session.IsRecorded) : session.SeparatesCaches := by
  obtain ⟨issued, h⟩ := h
  constructor
  case keyed =>
    intro path kept hold snapshot resolved hsnapshot hanswer
    rw [step_resolve, hsnapshot] at hanswer
    exact Snapshot.isOf_of_resolve (Answer.resolved.inj hanswer)
  case shared =>
    intro one other first second hfirst hsecond hkey
    obtain ⟨hroute, hlimits⟩ := h.route_eq hfirst hsecond hkey
    refine ⟨hroute, by rw [cached, cached, hkey, hlimits], fun request otherRequest text => ?_⟩
    have hnames : (first.scope request).names = (second.scope otherRequest).names :=
      congrArg Route.names hroute
    have hstate := Scope.state_evaluate hnames text
      (session.gateway.cache first.key first.limits)
    rw [step_evaluate hfirst, step_evaluate hsecond]
    simp only [evaluateWith, Gateway.evaluate]
    rw [hstate, hkey, hlimits]
    exact ⟨rfl, rfl⟩
  case apart =>
    intro step name resolved hname hheld
    exact apart_of_becomes (session.step_becomes step) hname hheld
  case unchanged =>
    intro step hstep
    exact caches_of_becomes (session.step_becomes step) hstep
  case fresh =>
    intro step origin hstep
    obtain ⟨snapshot, -, hgeneration, hnext⟩ :=
      (session.step_becomes step).exists_installed hstep
    rw [hnext]
    have hlatest := h.latest
    have hlt : session.gateway.current.generation < snapshot.generation := by omega
    refine ⟨fun index limits => Gateway.cache_eq_empty fun entry hentry hkey => ?_, hlt,
      fun entry hentry => ?_, fun name resolved hheld => ?_⟩
    · have hle := h.caches_le entry hentry
      rw [hkey] at hle
      exact hle.not_gt hlt
    · exact (h.generation_le _ (h.kept_mem entry hentry)).trans_lt hlt
    · obtain ⟨other, hother, hof⟩ := h.isOf_of_held? hheld
      rw [hof.generation_eq]
      exact (h.generation_le other hother).trans_lt hlt

end Session

/-- **Caching changes no value.** After any steps, expressions and proxy settings have the values
that they have without a cache, for the names that the route declares; held results and kept
snapshots stay as they were; each route of each snapshot has a cache of its own; and the answers are
those of any other run that differs in the limits of caches only, but for the numbers of entries. -/
theorem caching_changes_no_value (limits : Limits) (steps : List Step) :
    let session := (Session.start limits).after steps
    (∀ held resolved, session.held? held = some resolved → ∃ pattern names,
      Pattern.parse (Text.trim resolved.route.settings.pattern) = .ok pattern ∧
        NameTree.ofNames pattern.captureNames = .ok names ∧
        ∀ request, session.EvaluatesPlainly held resolved names request) ∧
    session.KeepsResults ∧ session.KeepsSnapshots ∧ session.SeparatesCaches ∧
    ∀ otherLimits others, otherLimits.uncached = limits.uncached →
      others.map Step.uncached = steps.map Step.uncached →
        ((Session.start otherLimits).answers others).map Answer.uncached =
          ((Session.start limits).answers steps).map Answer.uncached := by
  intro session
  have hrecorded : session.IsRecorded := Session.isRecorded_after limits steps
  refine ⟨fun held resolved hheld => ?_, session.keepsResults, session.keepsSnapshots,
    hrecorded.separatesCaches, fun otherLimits others hlimits hsteps => ?_⟩
  · obtain ⟨pattern, hread, hnames⟩ := hrecorded.names_of_held? hheld
    exact ⟨pattern, _, hread, hnames, fun request =>
      Session.evaluatesPlainly hrecorded.cachesFaithfully hheld request⟩
  · refine Session.answers_uncached (Session.isRecorded_start otherLimits)
      (Session.isRecorded_start limits) ?_ hsteps
    rw [Session.uncached_start, Session.uncached_start, hlimits]

/-- A held result is evaluated with the cache of its route, also when the table was replaced. -/
example :
    let session := (Session.start {}).after [
      .reload { routes := [{ pattern := "/shop/:id" }] }, .resolve "/shop/7" none (some "item"),
      .evaluate "item" {} "no. $id", .reset {}, .evaluate "item" {} "no. $id"]
    (session.held? "item").map session.cached = some 1 := by
  decide +kernel

end HttpGateway
