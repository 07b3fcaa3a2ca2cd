import HttpGateway.Proofs.Session.Values

/-!
# Sessions without caches

The limit on the entries of caches, and the numbers of entries that are answered, are left out by
`uncached`. What a session does is otherwise the same for every limit: a step of a session does what
the step does in the session whose caches have no room (`outline_step`). So runs that differ in
these limits only give the same answers but for the numbers of entries (`answers_uncached`).
-/

namespace HttpGateway

/-! ## Leaving out the limits of caches -/

/-- Limits with no room in caches. -/
def Limits.uncached (limits : Limits) : Limits := { limits with expressionCacheLimit := 0 }

def Settings.uncached (settings : Settings) : Settings :=
  { settings with limits := settings.limits.uncached }

def Snapshot.uncached (snapshot : Snapshot) : Snapshot :=
  { snapshot with limits := snapshot.limits.uncached }

def Resolved.uncached (resolved : Resolved) : Resolved :=
  { resolved with limits := resolved.limits.uncached }

@[simp] theorem Snapshot.uncached_uncached (snapshot : Snapshot) :
    snapshot.uncached.uncached = snapshot.uncached := rfl

@[simp] theorem Resolved.uncached_uncached (resolved : Resolved) :
    resolved.uncached.uncached = resolved.uncached := rfl

/-- The step, with no room in the caches of the routes that it puts in force. -/
def Step.uncached : Step → Step
  | .reset limits => .reset limits.uncached
  | .restart settings => .restart settings.uncached
  | .reload settings => .reload settings.uncached
  | step => step

/-- The answer, but for the numbers of entries and the limit of caches. -/
def Answer.uncached : Answer → Answer
  | .kept snapshot => .kept snapshot.uncached
  | .resolved result => .resolved (result.map Resolved.uncached)
  | .value text _ => .value text 0
  | .forwarding route proxy evaluated _ => .forwarding route proxy evaluated 0
  | answer => answer

namespace Session

/-- The session with no room in caches, and nothing in them. -/
def uncached (session : Session) : Session where
  gateway := ⟨session.gateway.current.uncached, session.gateway.nextGeneration, []⟩
  snapshots := session.snapshots.map fun entry => (entry.1, entry.2.uncached)
  held := session.held.map fun entry => (entry.1, entry.2.map Resolved.uncached)

variable {session : Session}

/-- Leaving out caches twice is the same as once, whatever gateway is put in place. -/
theorem uncached_with_gateway (session : Session) {gateway other : Gateway}
    (hcurrent : gateway.current.uncached = other.current.uncached)
    (hgeneration : gateway.nextGeneration = other.nextGeneration) :
    ({ session with gateway := gateway } : Session).uncached =
      ({ session.uncached with gateway := other } : Session).uncached := by
  simp only [uncached, hcurrent, hgeneration, List.map_map, Function.comp_def, Option.map_map,
    Snapshot.uncached_uncached, Resolved.uncached_uncached]

@[simp] theorem uncached_uncached (session : Session) :
    session.uncached.uncached = session.uncached :=
  (session.uncached_with_gateway rfl rfl).symm

theorem uncached_start (limits : Limits) : (start limits).uncached = start limits.uncached := rfl

theorem snapshot?_uncached (session : Session) (kept : Option String) :
    session.uncached.snapshot? kept = (session.snapshot? kept).map Snapshot.uncached := by
  cases kept with
  | none => rfl
  | some name => exact lookup_map_snd Snapshot.uncached name session.snapshots

theorem held?_uncached (session : Session) (name : String) :
    session.uncached.held? name = (session.held? name).map Resolved.uncached := by
  rw [held?, held?, uncached, lookup_map_snd]
  cases session.held.lookup name with
  | none => rfl
  | some result => rfl

end Session

namespace Snapshot

/-- Resolving takes no notice of caches. -/
theorem tryRoutes_uncached (snapshot : Snapshot) (expired : Nat → Bool) (path : String) (index : Nat)
    (routes : List Route) :
    snapshot.uncached.tryRoutes expired path index routes =
      Prod.map id (Option.map Resolved.uncached) (snapshot.tryRoutes expired path index routes) := by
  induction routes generalizing index with
  | nil => rfl
  | cons route rest ih =>
    rw [tryRoutes, tryRoutes]
    split
    · rfl
    · split
      · rfl
      · exact ih (index + 1)

theorem resolve_uncached (snapshot : Snapshot) (path : String) :
    (snapshot.uncached.resolve path).2 = (snapshot.resolve path).2.map Resolved.uncached := by
  obtain hshort | hlong := le_or_gt path.utf8ByteSize snapshot.limits.maxPathLength.toNat
  · rw [resolve_of_le hshort, snapshot.uncached.resolve_of_le hshort, tryRoutes_uncached]
    rfl
  · rw [resolve_of_too_long hlong, snapshot.uncached.resolve_of_too_long hlong]
    rfl

end Snapshot

/-! ## Steps without caches -/

/-- What a step leads to and answers, but for caches. -/
def Turn.outline (turn : Turn) : Session × Answer := (turn.session.uncached, turn.answer.uncached)

namespace Session

variable {session : Session} {settings : Settings}

theorem outline_quiet (session : Session) (answer : Answer) :
    (session.quiet answer).outline = (session.uncached.quiet answer).outline :=
  Prod.ext session.uncached_uncached.symm rfl

theorem outline_keep (session : Session) (name : String) :
    (session.step (.keep name)).outline = (session.uncached.step (.keep name)).outline := by
  refine Prod.ext ?_ rfl
  simp only [Turn.outline, step, quiet, uncached, List.map_cons, List.map_map, Function.comp_def,
    Option.map_map, Snapshot.uncached_uncached, Resolved.uncached_uncached]

theorem outline_loadWith {gateway other : Gateway} (answer : LoadSummary → Answer)
    (hgeneration : gateway.nextGeneration = other.nextGeneration) :
    (session.loadWith gateway session.gateway settings answer).outline =
      (session.uncached.loadWith other session.uncached.gateway settings.uncached answer).outline := by
  by_cases h : settings.Acceptable
  · have hother : settings.uncached.Acceptable := h
    rw [loadWith_of_acceptable h, loadWith_of_acceptable hother, hgeneration]
    exact Prod.ext (session.uncached_with_gateway rfl rfl) rfl
  · have hother : ¬settings.uncached.Acceptable := h
    rw [loadWith_of_not_acceptable h, loadWith_of_not_acceptable hother]
    exact Prod.ext session.uncached_uncached.symm rfl

theorem outline_resolveWith (snapshot : Snapshot) (path : String) (hold : Option String) :
    (session.resolveWith snapshot path hold).outline =
      (session.uncached.resolveWith snapshot.uncached path hold).outline := by
  have hresult := snapshot.resolve_uncached path
  have hanswer : (Answer.resolved (snapshot.resolve path).2).uncached =
      (Answer.resolved (snapshot.uncached.resolve path).2).uncached := by
    rw [hresult, Answer.uncached, Answer.uncached, Option.map_map]
    rfl
  refine Prod.ext ?_ hanswer
  cases hold with
  | none => exact session.uncached_uncached.symm
  | some name =>
    simp only [Turn.outline, resolveWith, uncached, hresult, List.map_cons, List.map_map,
      Function.comp_def, Option.map_map, Snapshot.uncached_uncached, Resolved.uncached_uncached]

theorem cachesFaithfully_uncached (session : Session) : session.uncached.CachesFaithfully :=
  fun _ _ _ => Cache.faithful_empty _ _

theorem outline_evaluateWith {α : Type} {name : String} {resolved : Resolved}
    {evaluation : Evaluation α} {value : α} {answer : α → Nat → Answer}
    (h : session.CachesFaithfully) (hheld : session.held? name = some resolved)
    (hyields : evaluation.Yields resolved.route.names value)
    (hanswer : ∀ cached, (answer value cached).uncached = answer value 0) :
    (session.evaluateWith resolved evaluation answer).outline =
      (session.uncached, answer value 0) := by
  refine Prod.ext rfl ?_
  rw [Turn.outline, answer_evaluateWith answer (h name resolved hheld) hyields]
  exact hanswer _

/-- Evaluating for a held result answers the same with and without caches. -/
theorem outline_evaluateWith_uncached {α : Type} {name : String} {resolved : Resolved}
    {evaluation : Evaluation α} {value : α} {answer : α → Nat → Answer}
    (h : session.CachesFaithfully) (hheld : session.held? name = some resolved)
    (hyields : evaluation.Yields resolved.route.names value)
    (hanswer : ∀ cached, (answer value cached).uncached = answer value 0) :
    (session.evaluateWith resolved evaluation answer).outline =
      (session.uncached.evaluateWith resolved.uncached evaluation answer).outline := by
  have hother : session.uncached.held? name = some resolved.uncached := by
    rw [held?_uncached, hheld, Option.map_some]
  rw [outline_evaluateWith h hheld hyields hanswer,
    outline_evaluateWith session.cachesFaithfully_uncached hother hyields hanswer,
    uncached_uncached]

/-- A step does what it does in the session without caches. -/
theorem outline_step (h : session.CachesFaithfully) (step : Step) :
    (session.step step).outline = (session.uncached.step step.uncached).outline := by
  cases step with
  | reset limits => exact Prod.ext (session.uncached_with_gateway rfl rfl) rfl
  | restart settings => exact outline_loadWith _ rfl
  | reload settings => exact outline_loadWith _ rfl
  | keep name => exact session.outline_keep name
  | resolve path kept hold =>
    change _ = (session.uncached.step (.resolve path kept hold)).outline
    rw [step_resolve, step_resolve, snapshot?_uncached]
    cases session.snapshot? kept with
    | none => exact session.outline_quiet .absent
    | some snapshot => exact outline_resolveWith snapshot path hold
  | evaluate held request text =>
    change _ = (session.uncached.step (.evaluate held request text)).outline
    rw [step, step, held?_uncached]
    cases hheld : session.held? held with
    | none => exact session.outline_quiet .absent
    | some resolved =>
      exact outline_evaluateWith_uncached h hheld
        ((resolved.scope request).yields_evaluate text) fun _ => rfl
  | forward held request =>
    change _ = (session.uncached.step (.forward held request)).outline
    rw [step, step, held?_uncached]
    cases hheld : session.held? held with
    | none => exact session.outline_quiet .absent
    | some resolved =>
      dsimp only [Option.map_some, Resolved.uncached]
      split
      · exact outline_evaluateWith_uncached h hheld
          (Forwarding.yields_ofSettings (resolved.scope request).yields_evaluate _ _ _) fun _ => rfl
      · exact session.outline_quiet .absent
  | evaluateForward held request text =>
    change _ = (session.uncached.step (.evaluateForward held request text)).outline
    rw [step, step, held?_uncached]
    cases hheld : session.held? held with
    | none => exact session.outline_quiet .absent
    | some resolved =>
      dsimp only [Option.map_some, Resolved.uncached]
      split
      · exact outline_evaluateWith_uncached h hheld
          ((resolved.scope request).yields_evaluate text) fun _ => rfl
      · exact session.outline_quiet .absent

/-! ## Runs without caches -/

/-- Runs of sessions that agree but for caches, over steps that agree but for the limits of caches,
answer the same but for the numbers of entries. -/
theorem answers_uncached {session other : Session} (h : session.IsRecorded) (hother : other.IsRecorded)
    (hsame : session.uncached = other.uncached) {steps others : List Step}
    (hsteps : steps.map Step.uncached = others.map Step.uncached) :
    (session.answers steps).map Answer.uncached = (other.answers others).map Answer.uncached := by
  induction steps generalizing session other others with
  | nil =>
    obtain rfl := List.map_eq_nil_iff.1 hsteps.symm
    rfl
  | cons step steps ih =>
    obtain ⟨first, rest, rfl, hfirst, hrest⟩ := List.map_eq_cons_iff.1 hsteps.symm
    have houtline : (session.step step).outline = (other.step first).outline := by
      rw [outline_step h.cachesFaithfully, outline_step hother.cachesFaithfully, hsame, hfirst]
    obtain ⟨hsession, hanswer⟩ := Prod.ext_iff.1 houtline
    exact congrArg₂ List.cons hanswer (ih (h.becomes (session.step_becomes step))
      (hother.becomes (other.step_becomes first)) hsession hrest.symm)

end Session

end HttpGateway
