import HttpGateway.Proofs.Session.Caches

/-!
# Values in a session

For a held result, a session evaluates expressions and proxy settings to the values that they have
without a cache, with the names that the pattern of the route declares (`evaluatesPlainly`). A held
result stays as it was answered, and a kept snapshot resolves paths as when it was taken, whatever
comes between (`keepsResults`, `keepsSnapshots`).
-/

namespace HttpGateway

open Text

namespace Session

variable {session : Session}

/-! ## Evaluating for held results -/

/-- The number of entries in the cache of the route of a result. -/
def cached (session : Session) (resolved : Resolved) : Nat :=
  (session.gateway.cache resolved.key resolved.limits).size

/-- What a session answers to steps that evaluate for a held result, if the route of the result
declares the given names: the values without a cache, and the number of entries in the cache. -/
structure EvaluatesPlainly (session : Session) (held : String) (resolved : Resolved)
    (names : NameTree String) (request : Request) : Prop where
  evaluate : ∀ text, let turn := session.step (.evaluate held request text)
    turn.answer = .value (Scope.plainValue ⟨names, resolved.captured, request⟩ text)
      (turn.session.cached resolved)
  empty : let turn := session.step (.evaluate held request "")
    turn.answer = .value "" (turn.session.cached resolved)
  evaluateForward : ∀ proxy, resolved.route.settings.proxy = some proxy → ∀ text,
    let turn := session.step (.evaluateForward held request text)
    turn.answer = .value (Scope.plainValue ⟨names, resolved.captured, request⟩ text)
      (turn.session.cached resolved)
  forward : ∀ proxy, resolved.route.settings.proxy = some proxy →
    let turn := session.step (.forward held request)
    turn.answer = .forwarding resolved.route proxy
      (Forwarding.ofSettings (m := Id) (Scope.plainValue ⟨names, resolved.captured, request⟩) proxy
        resolved.suffix (request.queryString.getD "")).run
      (turn.session.cached resolved)

theorem answer_evaluateWith {α : Type} {resolved : Resolved} {evaluation : Evaluation α} {value : α}
    (answer : α → Nat → Answer)
    (hcache : (session.gateway.cache resolved.key resolved.limits).Faithful
      (Expression.compile resolved.route.names))
    (hyields : evaluation.Yields resolved.route.names value) :
    (session.evaluateWith resolved evaluation answer).answer =
      answer value ((session.evaluateWith resolved evaluation answer).session.cached resolved) := by
  have hlookup : (session.evaluateWith resolved evaluation answer).session.gateway.cache
      resolved.key resolved.limits = (evaluation.runWith
        (session.gateway.cache resolved.key resolved.limits)).2.cache :=
    (session.gateway.cache_put resolved.key resolved.key _ _).trans (if_pos rfl)
  rw [cached, hlookup, ← hyields.value_runWith hcache]
  rfl

section Held

variable {held : String} {resolved : Resolved}

theorem step_evaluate (hheld : session.held? held = some resolved) (request : Request)
    (text : String) :
    session.step (.evaluate held request text) =
      session.evaluateWith resolved ((resolved.scope request).evaluate text) .value := by
  rw [step, hheld]

theorem step_evaluateForward (hheld : session.held? held = some resolved) {proxy : ProxySettings}
    (hproxy : resolved.route.settings.proxy = some proxy) (request : Request) (text : String) :
    session.step (.evaluateForward held request text) =
      session.evaluateWith resolved ((resolved.scope request).evaluate text) .value := by
  rw [step, hheld]
  dsimp only
  rw [hproxy]

theorem step_forward (hheld : session.held? held = some resolved) {proxy : ProxySettings}
    (hproxy : resolved.route.settings.proxy = some proxy) (request : Request) :
    session.step (.forward held request) =
      session.evaluateWith resolved
        (Forwarding.ofSettings (resolved.scope request).evaluate proxy resolved.suffix
          (request.queryString.getD ""))
        (.forwarding resolved.route proxy) := by
  rw [step, hheld]
  dsimp only
  rw [hproxy]

/-- Evaluating for a held result yields the values without a cache. -/
theorem evaluatesPlainly (h : session.CachesFaithfully) (hheld : session.held? held = some resolved)
    (request : Request) :
    session.EvaluatesPlainly held resolved resolved.route.names request := by
  have hcache := h held resolved hheld
  have hyields := (resolved.scope request).yields_evaluate
  refine ⟨fun text => ?_, ?_, fun proxy hproxy text => ?_, fun proxy hproxy => ?_⟩
  · rw [step_evaluate hheld]
    exact answer_evaluateWith .value hcache (hyields text)
  · rw [step_evaluate hheld]
    exact answer_evaluateWith .value hcache (hyields "")
  · rw [step_evaluateForward hheld hproxy]
    exact answer_evaluateWith .value hcache (hyields text)
  · rw [step_forward hheld hproxy]
    exact answer_evaluateWith _ hcache (Forwarding.yields_ofSettings hyields proxy _ _)

end Held

/-- The names that a held result is evaluated with are those that the pattern of its route
declares. -/
theorem IsRecorded.names_of_held? (h : session.IsRecorded) {held : String} {resolved : Resolved}
    (hheld : session.held? held = some resolved) :
    ∃ pattern, Pattern.parse (trim resolved.route.settings.pattern) = .ok pattern ∧
      NameTree.ofNames pattern.captureNames = .ok resolved.route.names := by
  obtain ⟨issued, h⟩ := h
  obtain ⟨snapshot, hsnapshot, hresolved⟩ := h.isOf_of_held? hheld
  have hready := h.isReady snapshot hsnapshot _ (List.mem_of_getElem? hresolved.route_eq)
  obtain ⟨pattern, hread, -, hcompile⟩ := hready.matcher
  obtain ⟨-, hmatcher⟩ := Matcher.compile_eq_ok hcompile
  refine ⟨pattern, hread, ?_⟩
  rw [← hready.names, hmatcher]

/-! ## Held results and kept snapshots -/

end Session

/-- The name under which a step holds a result. -/
def Step.holdName? : Step → Option String
  | .resolve _ _ hold => hold
  | _ => none

namespace Session

variable {session next : Session} {step : Step}

/-- A held result is replaced only by holding another one under its name. -/
theorem lookup_held_of_becomes (h : session.Becomes step next) {name : String}
    (hstep : step.holdName? ≠ some name) : next.held.lookup name = session.held.lookup name := by
  cases h with
  | @holds path other kept snapshot hhold _ =>
    subst hhold
    rw [lookup_cons_eq, if_neg fun hname => hstep (congrArg some hname.symm)]
  | _ => rfl

/-- A kept snapshot is replaced only by keeping another one under its name. -/
theorem lookup_snapshots_of_becomes (h : session.Becomes step next) {name : String}
    (hstep : step ≠ .keep name) : next.snapshots.lookup name = session.snapshots.lookup name := by
  cases h with
  | @keeps other hkeep =>
    subst hkeep
    rw [lookup_cons_eq, if_neg fun hname => hstep (congrArg Step.keep hname.symm)]
  | _ => rfl

theorem lookup_held_after (session : Session) {name : String} {steps : List Step}
    (h : ∀ step ∈ steps, step.holdName? ≠ some name) :
    (session.after steps).held.lookup name = session.held.lookup name := by
  induction steps generalizing session with
  | nil => rfl
  | cons step steps ih =>
    rw [List.forall_mem_cons] at h
    rw [after_cons, ih _ h.2]
    exact lookup_held_of_becomes (session.step_becomes step) h.1

theorem lookup_snapshots_after (session : Session) {name : String} {steps : List Step}
    (h : ∀ step ∈ steps, step ≠ .keep name) :
    (session.after steps).snapshots.lookup name = session.snapshots.lookup name := by
  induction steps generalizing session with
  | nil => rfl
  | cons step steps ih =>
    rw [List.forall_mem_cons] at h
    rw [after_cons, ih _ h.2]
    exact lookup_snapshots_of_becomes (session.step_becomes step) h.1

/-- A result that is held stays as it was answered until another one is held under its name. -/
def KeepsResults (session : Session) : Prop :=
  ∀ path kept name result later,
    (session.step (.resolve path kept (some name))).answer = .resolved result →
      (∀ step ∈ later, step.holdName? ≠ some name) →
        ((session.step (.resolve path kept (some name))).session.after later).held.lookup name =
          some result

/-- A snapshot that is kept resolves paths like the one in force when it was taken, until another
one is kept under its name. -/
def KeepsSnapshots (session : Session) : Prop :=
  ∀ name later, (∀ step ∈ later, step ≠ .keep name) → ∀ path hold,
    let resolved := ((session.step (.keep name)).session.after later).step
      (.resolve path (some name) hold)
    resolved.answer = (session.step (.resolve path none hold)).answer ∧
      resolved.signals = (session.step (.resolve path none hold)).signals

/-- A path that is answered is resolved with the snapshot that the step names. -/
theorem exists_snapshot_of_answer {path : String} {kept hold : Option String}
    {result : Option Resolved}
    (h : (session.step (.resolve path kept hold)).answer = .resolved result) :
    ∃ snapshot, session.snapshot? kept = some snapshot ∧ (snapshot.resolve path).2 = result := by
  rw [step_resolve] at h
  cases hsnapshot : session.snapshot? kept with
  | none =>
    rw [hsnapshot] at h
    cases h
  | some snapshot =>
    rw [hsnapshot] at h
    exact ⟨snapshot, rfl, Answer.resolved.inj h⟩

theorem keepsResults (session : Session) : session.KeepsResults := by
  intro path kept name result later hanswer hlater
  obtain ⟨snapshot, hsnapshot, rfl⟩ := exists_snapshot_of_answer hanswer
  rw [lookup_held_after _ hlater, step_resolve, hsnapshot]
  exact (lookup_cons_eq name name _ _).trans (if_pos rfl)

theorem keepsSnapshots (session : Session) : session.KeepsSnapshots := by
  intro name later hlater path hold
  have hkept : ((session.step (.keep name)).session.after later).snapshot? (some name) =
      some session.gateway.current := by
    rw [snapshot?, lookup_snapshots_after _ hlater]
    exact (lookup_cons_eq name name _ _).trans (if_pos rfl)
  rw [step_resolve, step_resolve, hkept]
  exact ⟨rfl, rfl⟩

end Session

end HttpGateway
