import HttpGateway.Proofs.Session.Caches

/-!
# Reloading is all or nothing

A configuration that is not acceptable is refused and changes nothing; any other one is put in force
as a whole (`Turn.PutsInForce`). So after any steps the snapshot in force is what is built from the
origin that was put in force last (`Origin.after`), paths are resolved within its limits, and the
gauge of installed routes tells its size (`reload_all_or_nothing`).
-/

namespace HttpGateway

/-! ## The origin in force -/

namespace Origin

/-- The origin in force after a step. -/
def next (origin : Origin) (step : Step) : Origin := step.origin?.getD origin

/-- The origin in force after steps. -/
def after (origin : Origin) (steps : List Step) : Origin := steps.foldl next origin

end Origin

namespace Snapshot

/-- A snapshot has no more routes than its configuration allows. -/
theorem IsBuildOf.size_le {snapshot : Snapshot} {settings : Settings}
    (h : snapshot.IsBuildOf (.accepted settings)) :
    snapshot.size ≤ settings.limits.maxRouteCount.toNat := by
  have hsum := (sorts_loaded snapshot.generation settings).count
  have hsize : snapshot.size = (loaded snapshot.generation settings).summary.installed :=
    congrArg size h.eq_loaded
  have hcount := h.acceptable.1
  omega

end Snapshot

/-! ## The gauge of installed routes -/

namespace Session

variable {session : Session} {step : Step} {settings : Settings}

theorem metrics_resolutionSignals (snapshot : Snapshot) (path : String) (outcome : Outcome) :
    Signal.metrics (snapshot.resolutionSignals path outcome) = [.resolution outcome] := by
  cases outcome <;> rfl

theorem name_ne_of_evaluated (h : session.IsRecorded) {name : String}
    (hname : step.evaluated? = some name) {m : Metric}
    (hm : m ∈ Signal.metrics (session.step step).signals) : m.name ≠ Metric.installedName := by
  obtain hquiet | ⟨resolved, α, evaluation, value, answer, hheld, hyields, hrun⟩ :=
    session.step_of_evaluated hname
  · rw [hquiet] at hm
    cases hm
  · rw [hrun] at hm
    obtain rfl | rfl := hyields.mem_metrics_runWith (h.cachesFaithfully name resolved hheld) hm <;>
      decide

/-- Only putting a configuration in force sets the gauge. -/
theorem name_ne_of_mem_metrics (h : session.IsRecorded) (hstep : step.origin? = none) {m : Metric}
    (hm : m ∈ Signal.metrics (session.step step).signals) : m.name ≠ Metric.installedName := by
  cases step with
  | reset limits => cases hstep
  | restart settings =>
    have hrefused : ¬settings.Acceptable := by simpa [Step.origin?] using hstep
    rw [step, loadWith_of_not_acceptable hrefused] at hm
    cases hm
  | reload settings =>
    have hrefused : ¬settings.Acceptable := by simpa [Step.origin?] using hstep
    rw [step, loadWith_of_not_acceptable hrefused] at hm
    cases hm
  | keep name => cases hm
  | resolve path kept hold =>
    rw [step_resolve] at hm
    split at hm
    · rw [resolveWith, metrics_resolutionSignals, List.mem_singleton] at hm
      rw [hm]
      exact Metric.name_resolution_ne_installedName _
    · cases hm
  | evaluate held request text => exact name_ne_of_evaluated h rfl hm
  | forward held request => exact name_ne_of_evaluated h rfl hm
  | evaluateForward held request text => exact name_ne_of_evaluated h rfl hm

end Session

/-! ## Putting a configuration in force -/

/-- What a step with a configuration does, after signals: it is refused and changes nothing, or the
configuration is put in force. -/
structure Turn.PutsInForce (turn : Turn) (session : Session) (before : List Signal)
    (settings : Settings) (answer : LoadSummary → Answer) : Prop where
  refused_iff : (∃ refusal, turn.answer = .refused refusal) ↔
    settings.limits.maxRouteCount.toNat < settings.routes.length ∨
      settings.limits.maxPathLength = 0
  /-- A refusal has the faults that it is refused for, in this order. -/
  faults_eq : ∀ refusal, turn.answer = .refused refusal → refusal.faults =
    (if settings.limits.maxRouteCount.toNat < settings.routes.length then
      [.tooManyRoutes settings.routes.length settings.limits.maxRouteCount.toNat] else []) ++
    (if settings.limits.maxPathLength = 0 then [.zeroPathLimit] else [])
  /-- A refusal has faults, and no fault of a route. -/
  concernsWhole : ∀ refusal, turn.answer = .refused refusal →
    refusal.faults ≠ [] ∧ ∀ fault ∈ refusal.faults, fault.concernsWhole = true
  /-- A refusal changes nothing, neither in the session nor in what the metrics add up to. -/
  unchanged : ∀ refusal, turn.answer = .refused refusal →
    turn.session = session ∧ Signal.totals (before ++ turn.signals) = Signal.totals before
  /-- Otherwise what is built from the configuration is put in force, under a new generation, and
  the gauge is set to its size. -/
  accepted : (∀ refusal, turn.answer ≠ .refused refusal) → ∃ generation loaded,
    session.gateway.nextGeneration ≤ generation ∧
      Snapshot.load generation settings = .ok loaded ∧
      turn.answer = answer loaded.summary ∧
      turn.session = { session with
        gateway := ⟨loaded.snapshot, generation + 1, session.gateway.caches⟩ } ∧
      Signal.gauge? (before ++ turn.signals) = some loaded.summary.installed ∧
      loaded.summary.installed = turn.session.gateway.current.size

namespace Session

variable {session : Session} {settings : Settings} {gateway : Gateway}

/-- A loaded configuration sets the gauge to the number of its routes. -/
theorem gauge?_loadWith (session : Session) (h : settings.Acceptable) (gateway fallback : Gateway)
    (answer : LoadSummary → Answer) (before : List Signal) :
    Signal.gauge? (before ++ (session.loadWith gateway fallback settings answer).signals) =
      some (session.loadWith gateway fallback settings answer).session.gateway.current.size := by
  rw [loadWith_of_acceptable h]
  exact Signal.gauge?_append_set before (Signal.metrics_append _ _)

theorem putsInForce_loadWith {answer : LoadSummary → Answer}
    (hanswer : ∀ summary refusal, answer summary ≠ .refused refusal)
    (hgeneration : session.gateway.nextGeneration ≤ gateway.nextGeneration)
    (hcaches : gateway.caches = session.gateway.caches) (before : List Signal) :
    (session.loadWith gateway session.gateway settings answer).PutsInForce session before settings
      answer := by
  have hreasons : (settings.limits.maxRouteCount.toNat < settings.routes.length ∨
      settings.limits.maxPathLength = 0) ↔ ¬settings.Acceptable := by
    rw [Settings.Acceptable, not_and_or, not_le, not_not]
  by_cases h : settings.Acceptable
  · have hgauge := session.gauge?_loadWith h gateway session.gateway answer before
    rw [loadWith_of_acceptable h, hcaches] at hgauge ⊢
    have hloaded : ∀ refusal, answer (Snapshot.loaded gateway.nextGeneration settings).summary ≠
        .refused refusal := hanswer _
    constructor
    case refused_iff =>
      exact iff_of_false (not_exists.2 hloaded) (mt hreasons.1 (not_not_intro h))
    case faults_eq => exact fun refusal hrefusal => absurd hrefusal (hloaded refusal)
    case concernsWhole => exact fun refusal hrefusal => absurd hrefusal (hloaded refusal)
    case unchanged => exact fun refusal hrefusal => absurd hrefusal (hloaded refusal)
    case accepted =>
      intro _
      exact ⟨gateway.nextGeneration, _, hgeneration, Snapshot.load_of_acceptable h _, rfl, rfl,
        hgauge, rfl⟩
  · rw [loadWith_of_not_acceptable h]
    constructor
    case refused_iff => exact iff_of_true ⟨_, rfl⟩ (hreasons.2 h)
    case faults_eq =>
      rintro refusal ⟨⟩
      rfl
    case concernsWhole =>
      rintro refusal ⟨⟩
      exact ⟨mt Settings.globalFaults_eq_nil_iff.1 h,
        fun fault => Settings.concernsWhole_of_mem_globalFaults⟩
    case unchanged =>
      intro refusal _
      refine ⟨rfl, ?_⟩
      -- the only signal of a refusal is an event
      rw [Signal.totals, Signal.metrics_append]
      exact congrArg _ (List.append_nil _)
    case accepted => exact fun hrefused => absurd rfl (hrefused _)

/-! ## The snapshot in force -/

/-- After signals, the snapshot in force is built from an origin, and the gauge tells its size. -/
structure InForce (session : Session) (origin : Origin) (signals : List Signal) : Prop where
  isBuildOf : session.gateway.current.IsBuildOf origin
  gauge : ∀ settings, origin = .accepted settings →
    Signal.gauge? signals = some session.gateway.current.size

theorem InForce.step {origin : Origin} {signals : List Signal} (h : session.InForce origin signals)
    (hrecorded : session.IsRecorded) (step : Step) :
    (session.step step).session.InForce (origin.next step)
      (signals ++ (session.step step).signals) := by
  cases hstep : step.origin? with
  | none =>
    have hcurrent := (session.step_becomes step).current_eq hstep
    have hgauge : Signal.gauge? (signals ++ (session.step step).signals) = Signal.gauge? signals :=
      Signal.total?_append_of_forall fun m hm => name_ne_of_mem_metrics hrecorded hstep hm
    rw [Origin.next, hstep, Option.getD_none]
    constructor
    case isBuildOf =>
      rw [hcurrent]
      exact h.isBuildOf
    case gauge =>
      intro settings horigin
      rw [hgauge, hcurrent]
      exact h.gauge settings horigin
  | some newer =>
    rw [Origin.next, hstep, Option.getD_some]
    obtain ⟨snapshot, hbuild, -, hnext⟩ := (session.step_becomes step).exists_installed hstep
    have hcurrent : (session.step step).session.gateway.current = snapshot := by rw [hnext]
    constructor
    case isBuildOf =>
      rw [hcurrent]
      exact hbuild
    case gauge =>
      rintro settings rfl
      cases step with
      | restart other =>
        have haccepted : other.Acceptable ∧ other = settings := by simpa [Step.origin?] using hstep
        exact session.gauge?_loadWith haccepted.1 _ _ _ signals
      | reload other =>
        have haccepted : other.Acceptable ∧ other = settings := by simpa [Step.origin?] using hstep
        exact session.gauge?_loadWith haccepted.1 _ _ _ signals
      | _ => cases hstep

theorem InForce.after {origin : Origin} {signals : List Signal} (h : session.InForce origin signals)
    (hrecorded : session.IsRecorded) (steps : List Step) :
    (session.after steps).InForce (origin.after steps) (signals ++ session.emitted steps) := by
  induction steps generalizing session origin signals with
  | nil => simpa [emitted, Origin.after] using h
  | cons step steps ih =>
    rw [emitted, ← List.append_assoc]
    exact ih (h.step hrecorded step) (hrecorded.becomes (session.step_becomes step))

/-- Paths are resolved with the snapshot in force, within limits. -/
def ResolvesWithin (session : Session) (limits : Limits) : Prop :=
  ∀ path hold, let turn := session.step (.resolve path none hold)
    (limits.maxPathLength.toNat < path.utf8ByteSize → turn.answer = .resolved none ∧
      turn.signals = [.event (.pathTooLong path.utf8ByteSize limits.maxPathLength.toNat),
        .metric (.resolution .tooLong)]) ∧
    (path.utf8ByteSize ≤ limits.maxPathLength.toNat → turn.answer = .resolved
      (session.gateway.current.tryRoutes (fun _ => limits.matchBudgetMs == 0) path 0
        session.gateway.current.routes).2) ∧
    ∀ resolved, turn.answer = .resolved (some resolved) → resolved.limits = limits

theorem resolvesWithin (session : Session) :
    session.ResolvesWithin session.gateway.current.limits := by
  intro path hold
  refine ⟨fun hlong => ?_, fun hshort => ?_, fun resolved hresolved => ?_⟩
  · rw [step_resolve, snapshot?]
    simp only [resolveWith]
    rw [Snapshot.resolve_of_too_long hlong]
    exact ⟨rfl, rfl⟩
  · rw [← Snapshot.resolve_of_le hshort]
    rfl
  · exact (Snapshot.isOf_of_resolve (Answer.resolved.inj hresolved)).limits_eq

end Session

/-- **Reloading is all or nothing.** After any steps the snapshot in force is built from the origin
that was put in force last, and a configuration is put in force as a whole or changes nothing. -/
theorem reload_all_or_nothing (limits : Limits) (steps : List Step) :
    let session := (Session.start limits).after steps
    let signals := (Session.start limits).emitted steps
    let origin := (Origin.blank limits).after steps
    session.gateway.current.IsBuildOf origin ∧
    session.ResolvesWithin origin.limits ∧
    (∀ settings, origin = .accepted settings →
      session.gateway.current.size ≤ settings.limits.maxRouteCount.toNat ∧
      Signal.gauge? signals = some session.gateway.current.size) ∧
    ∀ settings,
      (session.step (.reload settings)).PutsInForce session signals settings .loaded ∧
      (session.step (.restart settings)).PutsInForce session signals settings fun _ => .done := by
  have hstart : (Session.start limits).InForce (.blank limits) [] :=
    ⟨Snapshot.isBuildOf_empty 0 limits, fun _ horigin => nomatch horigin⟩
  obtain ⟨hbuild, hgauge⟩ := hstart.after (Session.isRecorded_start limits) steps
  refine ⟨hbuild, hbuild.limits_eq ▸ Session.resolvesWithin _, fun settings horigin =>
    ⟨(horigin ▸ hbuild).size_le, hgauge settings horigin⟩, fun settings => ⟨?_, ?_⟩⟩
  · have hloaded : ∀ summary refusal, Answer.loaded summary ≠ .refused refusal := nofun
    exact Session.putsInForce_loadWith hloaded le_rfl rfl _
  · have hdone : ∀ (_ : LoadSummary) refusal, Answer.done ≠ .refused refusal := nofun
    refine Session.putsInForce_loadWith hdone ?_ ?_ _
    · exact Nat.le_succ _
    · rfl

end HttpGateway
