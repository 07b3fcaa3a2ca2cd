import HttpGateway.Session
import HttpGateway.Proofs.Expression.Evaluation
import HttpGateway.Proofs.Route.Loading

/-!
# Runs of a session

What one step can make of a session is said once, by `Session.Becomes` and `step_becomes`; an
invariant of the state is preserved by a step if it is preserved by each of these changes. A run is
a list of steps: `Session.after` is the session it leads to, `Session.answers` and `Session.emitted`
are what it answers and which signals it emits.
-/

namespace HttpGateway

/-! ## Where the routes in force come from -/

/-- What put a snapshot in force. -/
inductive Origin where
  /-- A new table without routes. -/
  | blank (limits : Limits)
  /-- A configuration that was accepted. -/
  | accepted (settings : Settings)

/-- The limits that come with the routes. -/
def Origin.limits : Origin → Limits
  | blank limits => limits
  | accepted settings => settings.limits

/-- The snapshot is what is built from the origin. -/
def Snapshot.IsBuildOf (snapshot : Snapshot) : Origin → Prop
  | .blank limits => snapshot = .empty snapshot.generation limits
  | .accepted settings => ∃ loaded,
      Snapshot.load snapshot.generation settings = .ok loaded ∧ loaded.snapshot = snapshot

/-- The origin that a step puts in force, if it puts one in force. -/
def Step.origin? : Step → Option Origin
  | .reset limits => some (.blank limits)
  | .restart settings => if settings.Acceptable then some (.accepted settings) else none
  | .reload settings => if settings.Acceptable then some (.accepted settings) else none
  | _ => none

/-- The name of the held result that a step evaluates for. -/
def Step.evaluated? : Step → Option String
  | .evaluate held _ _ => some held
  | .forward held _ => some held
  | .evaluateForward held _ _ => some held
  | _ => none

theorem Step.origin?_of_evaluated {step : Step} {name : String}
    (h : step.evaluated? = some name) : step.origin? = none := by
  cases step with
  | evaluate | forward | evaluateForward => rfl
  | _ => cases h

namespace Snapshot

variable {generation : Nat} {settings : Settings}

theorem load_of_acceptable (h : settings.Acceptable) (generation : Nat) :
    load generation settings = .ok (loaded generation settings) :=
  load_of_globalFaults_eq_nil (Settings.globalFaults_eq_nil_iff.2 h) generation

theorem load_of_not_acceptable (h : ¬settings.Acceptable) (generation : Nat) :
    load generation settings = .error ⟨settings.globalFaults⟩ :=
  load_of_globalFaults_ne_nil (mt Settings.globalFaults_eq_nil_iff.1 h) generation

theorem isBuildOf_empty (generation : Nat) (limits : Limits) :
    (empty generation limits).IsBuildOf (.blank limits) := rfl

theorem isBuildOf_loaded (h : settings.Acceptable) (generation : Nat) :
    (loaded generation settings).snapshot.IsBuildOf (.accepted settings) :=
  ⟨_, load_of_acceptable h generation, rfl⟩

/-- A configuration from which a snapshot is built is acceptable. -/
theorem IsBuildOf.acceptable {snapshot : Snapshot} (h : snapshot.IsBuildOf (.accepted settings)) :
    settings.Acceptable := by
  by_contra hrefused
  obtain ⟨loaded, hload, -⟩ := h
  rw [load_of_not_acceptable hrefused] at hload
  cases hload

theorem IsBuildOf.eq_loaded {snapshot : Snapshot} (h : snapshot.IsBuildOf (.accepted settings)) :
    snapshot = (loaded snapshot.generation settings).snapshot := by
  have haccepted := h.acceptable
  obtain ⟨other, hload, hsnapshot⟩ := h
  rw [load_of_acceptable haccepted] at hload
  exact hsnapshot.symm.trans (congrArg LoadedSnapshot.snapshot (Except.ok.inj hload).symm)

/-- What is built from an origin has its limits. -/
theorem IsBuildOf.limits_eq {snapshot : Snapshot} {origin : Origin}
    (h : snapshot.IsBuildOf origin) : snapshot.limits = origin.limits := by
  cases origin with
  | blank limits => exact congrArg Snapshot.limits h
  | accepted settings => exact congrArg Snapshot.limits h.eq_loaded

end Snapshot

/-! ## What a step does -/

namespace Session

variable {session : Session} {settings : Settings}

/-- The snapshot that a path is resolved with: a kept one, or the one in force. -/
def snapshot? (session : Session) : Option String → Option Snapshot
  | none => some session.gateway.current
  | some kept => session.snapshots.lookup kept

/-- What one step can make of a session. -/
inductive Becomes (session : Session) (step : Step) : Session → Prop
  /-- Another snapshot is put in force. It is newer than all before it, and has no caches yet. -/
  | installs {origin : Origin} {snapshot : Snapshot} :
    step.origin? = some origin → snapshot.IsBuildOf origin →
      session.gateway.nextGeneration ≤ snapshot.generation →
      session.Becomes step
        { session with gateway := ⟨snapshot, snapshot.generation + 1, session.gateway.caches⟩ }
  | stays : step.origin? = none → session.Becomes step session
  /-- The snapshot in force is kept. -/
  | keeps {name : String} : step = .keep name →
      session.Becomes step
        { session with snapshots := (name, session.gateway.current) :: session.snapshots }
  /-- A result is held. -/
  | holds {path name : String} {kept : Option String} {snapshot : Snapshot} :
    step = .resolve path kept (some name) → session.snapshot? kept = some snapshot →
      session.Becomes step { session with held := (name, (snapshot.resolve path).2) :: session.held }
  /-- An evaluation changes the cache of the route of a held result, and keeps it faithful. -/
  | evaluates {name : String} {resolved : Resolved} {cache : Cache Expression} :
    step.evaluated? = some name → session.held? name = some resolved →
      ((session.gateway.cache resolved.key resolved.limits).Faithful
          (Expression.compile resolved.route.names) →
        cache.Faithful (Expression.compile resolved.route.names)) →
      session.Becomes step { session with gateway :=
        { session.gateway with caches := session.gateway.caches.put resolved.key cache } }

theorem loadWith_of_acceptable (h : settings.Acceptable) (gateway fallback : Gateway)
    (answer : LoadSummary → Answer) :
    session.loadWith gateway fallback settings answer =
      let loaded := Snapshot.loaded gateway.nextGeneration settings
      { session := { session with
          gateway := ⟨loaded.snapshot, gateway.nextGeneration + 1, gateway.caches⟩ }
        answer := answer loaded.summary
        signals := loaded.signals ++
          [.metric (.routesInstalled loaded.summary.installed),
           .event (.tableLoaded loaded.summary.installed loaded.summary.rejected.length)] } := by
  rw [loadWith, Gateway.reload_of_load (Snapshot.load_of_acceptable h _)]

theorem loadWith_of_not_acceptable (h : ¬settings.Acceptable) (gateway fallback : Gateway)
    (answer : LoadSummary → Answer) :
    session.loadWith gateway fallback settings answer =
      ⟨{ session with gateway := fallback }, .refused ⟨settings.globalFaults⟩,
        [.event (.loadFailed (SettingsRefusal.message ⟨settings.globalFaults⟩))]⟩ := by
  rw [loadWith, Gateway.reload_of_refused (Snapshot.load_of_not_acceptable h _)]

/-- A path is resolved with the snapshot that the step names. -/
theorem step_resolve (session : Session) (path : String) (kept hold : Option String) :
    session.step (.resolve path kept hold) =
      match session.snapshot? kept with
      | some snapshot => session.resolveWith snapshot path hold
      | none => session.quiet .absent := by
  cases kept <;> rfl

/-- A step that evaluates for a held result runs an evaluation that yields a value, if there is
something to evaluate. -/
theorem step_of_evaluated (session : Session) {step : Step} {name : String}
    (h : step.evaluated? = some name) :
    session.step step = session.quiet .absent ∨
      ∃ (resolved : Resolved) (α : Type) (evaluation : Evaluation α) (value : α)
        (answer : α → Nat → Answer),
        session.held? name = some resolved ∧ evaluation.Yields resolved.route.names value ∧
          session.step step = session.evaluateWith resolved evaluation answer := by
  cases step with
  | evaluate held request text =>
    obtain rfl := Option.some.inj h
    rw [step]
    split
    · next resolved hheld =>
      exact .inr ⟨resolved, _, _, _, _, hheld, (resolved.scope request).yields_evaluate text, rfl⟩
    · exact .inl rfl
  | forward held request =>
    obtain rfl := Option.some.inj h
    rw [step]
    split
    · next resolved hheld =>
      split
      · exact .inr ⟨resolved, _, _, _, _, hheld,
          Forwarding.yields_ofSettings (resolved.scope request).yields_evaluate _ _ _, rfl⟩
      · exact .inl rfl
    · exact .inl rfl
  | evaluateForward held request text =>
    obtain rfl := Option.some.inj h
    rw [step]
    split
    · next resolved hheld =>
      split
      · exact .inr ⟨resolved, _, _, _, _, hheld, (resolved.scope request).yields_evaluate text, rfl⟩
      · exact .inl rfl
    · exact .inl rfl
  | _ => cases h

theorem becomes_of_evaluated {step : Step} {name : String} (h : step.evaluated? = some name) :
    session.Becomes step (session.step step).session := by
  obtain hquiet | ⟨resolved, α, evaluation, value, answer, hheld, hyields, hrun⟩ :=
    session.step_of_evaluated h
  · rw [hquiet]
    exact .stays (Step.origin?_of_evaluated h)
  · rw [hrun]
    exact .evaluates h hheld hyields.faithful_runWith

theorem becomes_loadWith {step : Step} {gateway : Gateway} (answer : LoadSummary → Answer)
    (hstep : step.origin? = if settings.Acceptable then some (.accepted settings) else none)
    (hgeneration : session.gateway.nextGeneration ≤ gateway.nextGeneration)
    (hcaches : gateway.caches = session.gateway.caches) :
    session.Becomes step (session.loadWith gateway session.gateway settings answer).session := by
  by_cases h : settings.Acceptable
  · rw [loadWith_of_acceptable h, hcaches]
    rw [if_pos h] at hstep
    exact .installs hstep (Snapshot.isBuildOf_loaded h gateway.nextGeneration) hgeneration
  · rw [loadWith_of_not_acceptable h]
    rw [if_neg h] at hstep
    exact .stays hstep

/-- What a step does to the state. -/
theorem step_becomes (session : Session) (step : Step) :
    session.Becomes step (session.step step).session := by
  cases step with
  | reset limits => exact .installs rfl (Snapshot.isBuildOf_empty _ limits) le_rfl
  | restart settings => exact becomes_loadWith _ rfl (Nat.le_succ _) rfl
  | reload settings => exact becomes_loadWith _ rfl le_rfl rfl
  | keep name => exact .keeps rfl
  | resolve path kept hold =>
    rw [step_resolve]
    cases hsnapshot : session.snapshot? kept with
    | none => exact .stays rfl
    | some snapshot =>
      cases hold with
      | none => exact .stays rfl
      | some name => exact .holds rfl hsnapshot
  | evaluate held request text => exact becomes_of_evaluated rfl
  | forward held request => exact becomes_of_evaluated rfl
  | evaluateForward held request text => exact becomes_of_evaluated rfl

/-- A step that puts an origin in force installs a snapshot of it. -/
theorem Becomes.exists_installed {next : Session} {step : Step} {origin : Origin}
    (h : session.Becomes step next) (hstep : step.origin? = some origin) :
    ∃ snapshot : Snapshot, snapshot.IsBuildOf origin ∧
      session.gateway.nextGeneration ≤ snapshot.generation ∧
      next = { session with gateway := ⟨snapshot, snapshot.generation + 1, session.gateway.caches⟩ } := by
  cases h with
  | @installs other snapshot horigin hbuild hgeneration =>
    obtain rfl := Option.some.inj (horigin.symm.trans hstep)
    exact ⟨snapshot, hbuild, hgeneration, rfl⟩
  | stays hnone =>
    rw [hstep] at hnone
    cases hnone
  | keeps hkeep =>
    subst hkeep
    cases hstep
  | holds hhold =>
    subst hhold
    cases hstep
  | evaluates hname =>
    rw [Step.origin?_of_evaluated hname] at hstep
    cases hstep

/-- Any other step leaves the snapshot in force. -/
theorem Becomes.current_eq {next : Session} {step : Step} (h : session.Becomes step next)
    (hstep : step.origin? = none) : next.gateway.current = session.gateway.current := by
  cases h with
  | installs horigin =>
    rw [hstep] at horigin
    cases horigin
  | _ => rfl

/-! ## Runs -/

/-- The session after steps. -/
def after (session : Session) (steps : List Step) : Session :=
  steps.foldl (fun session step => (session.step step).session) session

/-- What steps answer, in order. -/
def answers (session : Session) : List Step → List Answer
  | [] => []
  | step :: steps => (session.step step).answer :: (session.step step).session.answers steps

/-- The signals that steps emit, in order. -/
def emitted (session : Session) : List Step → List Signal
  | [] => []
  | step :: steps => (session.step step).signals ++ (session.step step).session.emitted steps

@[simp] theorem after_nil (session : Session) : session.after [] = session := rfl

@[simp] theorem after_cons (session : Session) (step : Step) (steps : List Step) :
    session.after (step :: steps) = (session.step step).session.after steps := rfl

/-- What holds of a session and is preserved by every change holds after any steps. -/
theorem invariant_after {P : Session → Prop}
    (hstep : ∀ {session next : Session} {step : Step}, P session → session.Becomes step next → P next)
    (h : P session) (steps : List Step) : P (session.after steps) := by
  induction steps generalizing session with
  | nil => exact h
  | cons step steps ih => exact ih (hstep h (session.step_becomes step))

end Session

end HttpGateway
