import HttpGateway.Proofs.Route.Resolving
import HttpGateway.Proofs.Session.Runs

/-!
# The caches of a session

The snapshots that have been in force have generations of their own, so that a key stands for one
route of one snapshot. `Session.Records` says so, together with what follows for the rest of the
state: kept snapshots and held results come from these snapshots, and the cache of a route is
faithful for the names of that very route. It holds of a new session and is preserved by every step
(`isRecorded_after`).
-/

namespace HttpGateway

/-! ## The pool of caches -/

namespace CachePool

theorem lookup_put (key other : RouteKey) (cache : Cache Expression) (pool : CachePool) :
    (pool.put key cache).lookup other = if other = key then some cache else pool.lookup other := by
  induction pool with
  | nil => rw [put, lookup_cons_eq]
  | cons entry pool ih =>
    obtain ⟨first, old⟩ := entry
    rw [put]
    split
    · next hfirst =>
      subst hfirst
      rw [lookup_cons_eq, lookup_cons_eq]
      split <;> rfl
    · next hfirst =>
      rw [lookup_cons_eq, lookup_cons_eq, ih]
      split
      · next hother => rw [if_neg (hother ▸ hfirst)]
      · rfl

theorem mem_put {key : RouteKey} {cache : Cache Expression} {pool : CachePool}
    {entry : RouteKey × Cache Expression} (h : entry ∈ pool.put key cache) :
    entry = (key, cache) ∨ entry ∈ pool := by
  induction pool with
  | nil => exact .inl (List.mem_singleton.1 h)
  | cons first pool ih =>
    rw [put] at h
    split at h
    · next hfirst =>
      rw [hfirst] at h
      exact (List.mem_cons.1 h).imp_right (List.mem_cons_of_mem first)
    · obtain rfl | h := List.mem_cons.1 h
      · exact .inr List.mem_cons_self
      · exact (ih h).imp_right (List.mem_cons_of_mem first)

end CachePool

namespace Gateway

variable {gateway : Gateway} {key : RouteKey} {limits : Limits}

/-- A cache is one of the pool, or it is empty. -/
theorem mem_caches_or_empty (gateway : Gateway) (key : RouteKey) (limits : Limits) :
    (key, gateway.cache key limits) ∈ gateway.caches ∨
      gateway.cache key limits = .empty limits.expressionCacheLimit.toNat := by
  rw [cache]
  cases hlookup : gateway.caches.lookup key with
  | none => exact .inr rfl
  | some found => exact .inl (mem_of_lookup hlookup)

theorem cache_eq_empty (h : ∀ entry ∈ gateway.caches, entry.1 ≠ key) :
    gateway.cache key limits = .empty limits.expressionCacheLimit.toNat :=
  (gateway.mem_caches_or_empty key limits).resolve_left fun hmem => h _ hmem rfl

theorem cache_put (gateway : Gateway) (key other : RouteKey) (cache : Cache Expression)
    (limits : Limits) :
    Gateway.cache { gateway with caches := gateway.caches.put key cache } other limits =
      if other = key then cache else gateway.cache other limits := by
  rw [Gateway.cache, Gateway.cache, CachePool.lookup_put]
  split <;> rfl

end Gateway

/-- The routes that are built are ready. -/
theorem Snapshot.IsBuildOf.isReady {snapshot : Snapshot} {origin : Origin}
    (h : snapshot.IsBuildOf origin) : ∀ route ∈ snapshot.routes, route.settings.IsReady route := by
  intro route hroute
  cases origin with
  | blank limits =>
    rw [show snapshot.routes = [] from congrArg Snapshot.routes h] at hroute
    cases hroute
  | accepted settings =>
    rw [h.eq_loaded] at hroute
    exact isReady_of_mem_installed hroute

/-! ## What a session records -/

namespace Session

/-- The state of a session in which these snapshots have been in force. -/
structure Records (session : Session) (issued : List Snapshot) : Prop where
  current_mem : session.gateway.current ∈ issued
  latest : session.gateway.nextGeneration = session.gateway.current.generation + 1
  generation_le : ∀ snapshot ∈ issued, snapshot.generation ≤ session.gateway.current.generation
  generation_inj : ∀ snapshot ∈ issued, ∀ other ∈ issued,
    snapshot.generation = other.generation → snapshot = other
  isReady : ∀ snapshot ∈ issued, ∀ route ∈ snapshot.routes, route.settings.IsReady route
  kept_mem : ∀ entry ∈ session.snapshots, entry.2 ∈ issued
  held_isOf : ∀ entry ∈ session.held, ∀ resolved, entry.2 = some resolved →
    ∃ snapshot ∈ issued, resolved.IsOf snapshot
  caches_le : ∀ entry ∈ session.gateway.caches,
    entry.1.generation ≤ session.gateway.current.generation
  /-- The cache of a route holds what texts compile to with the names of that route. -/
  faithful : ∀ entry ∈ session.gateway.caches, ∀ snapshot ∈ issued, ∀ route,
    entry.1.generation = snapshot.generation → snapshot.routes[entry.1.index]? = some route →
      entry.2.Faithful (Expression.compile route.names)

variable {session : Session} {issued : List Snapshot}

theorem records_start (limits : Limits) : (start limits).Records [.empty 0 limits] where
  current_mem := List.mem_singleton_self _
  latest := rfl
  generation_le snapshot hsnapshot := by rw [List.mem_singleton.1 hsnapshot]; exact le_rfl
  generation_inj snapshot hsnapshot other hother _ :=
    (List.mem_singleton.1 hsnapshot).trans (List.mem_singleton.1 hother).symm
  isReady snapshot hsnapshot route hroute := by
    rw [List.mem_singleton.1 hsnapshot] at hroute
    cases hroute
  kept_mem _ hentry := nomatch hentry
  held_isOf _ hentry := nomatch hentry
  caches_le _ hentry := nomatch hentry
  faithful _ hentry := nomatch hentry

namespace Records

theorem mem_held {name : String} {resolved : Resolved} (h : session.held? name = some resolved) :
    (name, some resolved) ∈ session.held := by
  rw [held?, Option.join_eq_some_iff] at h
  exact mem_of_lookup h

theorem isOf_of_held? (h : session.Records issued) {name : String} {resolved : Resolved}
    (hheld : session.held? name = some resolved) : ∃ snapshot ∈ issued, resolved.IsOf snapshot :=
  h.held_isOf _ (mem_held hheld) resolved rfl

/-- The cache for a result of a snapshot is faithful for the names of the route. -/
theorem faithful_cache (h : session.Records issued) {snapshot : Snapshot} (hsnapshot : snapshot ∈ issued)
    {resolved : Resolved} (hresolved : resolved.IsOf snapshot) :
    (session.gateway.cache resolved.key resolved.limits).Faithful
      (Expression.compile resolved.route.names) := by
  obtain hmem | hempty := session.gateway.mem_caches_or_empty resolved.key resolved.limits
  · exact h.faithful _ hmem snapshot hsnapshot _ hresolved.generation_eq hresolved.route_eq
  · rw [hempty]
    exact Cache.faithful_empty _ _

theorem snapshot?_mem (h : session.Records issued) {kept : Option String} {snapshot : Snapshot}
    (hsnapshot : session.snapshot? kept = some snapshot) : snapshot ∈ issued := by
  cases kept with
  | none =>
    obtain rfl := Option.some.inj hsnapshot
    exact h.current_mem
  | some name => exact h.kept_mem _ (mem_of_lookup hsnapshot)

/-- A snapshot that is put in force joins those recorded. -/
theorem installs (h : session.Records issued) {snapshot : Snapshot} {origin : Origin}
    (hbuild : snapshot.IsBuildOf origin)
    (hgeneration : session.gateway.nextGeneration ≤ snapshot.generation) :
    Records { session with
      gateway := ⟨snapshot, snapshot.generation + 1, session.gateway.caches⟩ }
      (snapshot :: issued) := by
  have hlatest := h.latest
  have hlt : session.gateway.current.generation < snapshot.generation := by omega
  have hnew : ∀ other ∈ issued, other.generation ≠ snapshot.generation := by
    intro other hother
    have hle := h.generation_le other hother
    omega
  constructor
  case current_mem => exact List.mem_cons_self
  case latest => rfl
  case generation_le =>
    refine List.forall_mem_cons.2 ⟨le_rfl, fun other hother => ?_⟩
    exact (h.generation_le other hother).trans hlt.le
  case generation_inj =>
    rintro one (_ | ⟨_, hone⟩) other (_ | ⟨_, hother⟩) heq
    · rfl
    · exact absurd heq.symm (hnew other hother)
    · exact absurd heq (hnew one hone)
    · exact h.generation_inj one hone other hother heq
  case isReady => exact List.forall_mem_cons.2 ⟨hbuild.isReady, h.isReady⟩
  case kept_mem =>
    intro entry hentry
    exact List.mem_cons_of_mem _ (h.kept_mem entry hentry)
  case held_isOf =>
    intro entry hentry resolved hresolved
    obtain ⟨other, hother, hisOf⟩ := h.held_isOf entry hentry resolved hresolved
    exact ⟨other, List.mem_cons_of_mem _ hother, hisOf⟩
  case caches_le =>
    intro entry hentry
    exact (h.caches_le entry hentry).trans hlt.le
  case faithful =>
    intro entry hentry other hother route hkey hroute
    -- no cache that has been used is of the new snapshot
    have hold := h.caches_le entry hentry
    obtain rfl | hother := List.mem_cons.1 hother
    · exact absurd hkey (hold.trans_lt hlt).ne
    · exact h.faithful entry hentry other hother route hkey hroute

/-- The cache of the route of a result is changed. -/
theorem evaluates (h : session.Records issued) {snapshot : Snapshot} (hsnapshot : snapshot ∈ issued)
    {resolved : Resolved} (hresolved : resolved.IsOf snapshot) {cache : Cache Expression}
    (hcache : cache.Faithful (Expression.compile resolved.route.names)) :
    Records { session with gateway :=
      { session.gateway with caches := session.gateway.caches.put resolved.key cache } } issued := by
  refine { h with caches_le := ?_, faithful := ?_ }
  · intro entry hentry
    obtain rfl | hentry := CachePool.mem_put hentry
    · exact hresolved.generation_eq.trans_le (h.generation_le snapshot hsnapshot)
    · exact h.caches_le entry hentry
  · intro entry hentry other hother route hkey hroute
    obtain rfl | hentry := CachePool.mem_put hentry
    · have hsame := h.generation_inj snapshot hsnapshot other hother
        (hresolved.generation_eq.symm.trans hkey)
      subst hsame
      rw [Option.some.inj (hroute.symm.trans hresolved.route_eq)]
      exact hcache
    · exact h.faithful entry hentry other hother route hkey hroute

end Records

/-- Some snapshots are recorded. -/
def IsRecorded (session : Session) : Prop := ∃ issued, session.Records issued

theorem IsRecorded.becomes {next : Session} {step : Step} (h : session.IsRecorded)
    (hstep : session.Becomes step next) : next.IsRecorded := by
  obtain ⟨issued, h⟩ := h
  cases hstep with
  | installs _ hbuild hgeneration => exact ⟨_, h.installs hbuild hgeneration⟩
  | stays _ => exact ⟨issued, h⟩
  | keeps _ =>
    exact ⟨issued, { h with kept_mem := List.forall_mem_cons.2 ⟨h.current_mem, h.kept_mem⟩ }⟩
  | @holds path name kept snapshot _ hsnapshot =>
    refine ⟨issued, { h with held_isOf := List.forall_mem_cons.2 ⟨?_, h.held_isOf⟩ }⟩
    exact fun resolved hresolved =>
      ⟨snapshot, h.snapshot?_mem hsnapshot, Snapshot.isOf_of_resolve hresolved⟩
  | evaluates _ hheld hcache =>
    obtain ⟨snapshot, hsnapshot, hresolved⟩ := h.isOf_of_held? hheld
    exact ⟨issued, h.evaluates hsnapshot hresolved
      (hcache (h.faithful_cache hsnapshot hresolved))⟩

theorem isRecorded_start (limits : Limits) : (start limits).IsRecorded :=
  ⟨_, records_start limits⟩

/-- After any steps the snapshots that have been in force are recorded. -/
theorem isRecorded_after (limits : Limits) (steps : List Step) :
    ((start limits).after steps).IsRecorded :=
  invariant_after IsRecorded.becomes (isRecorded_start limits) steps

/-- The caches of the routes of held results are faithful for the names of these routes. -/
def CachesFaithfully (session : Session) : Prop :=
  ∀ name resolved, session.held? name = some resolved →
    (session.gateway.cache resolved.key resolved.limits).Faithful
      (Expression.compile resolved.route.names)

theorem IsRecorded.cachesFaithfully (h : session.IsRecorded) : session.CachesFaithfully := by
  intro name resolved hheld
  obtain ⟨issued, h⟩ := h
  obtain ⟨snapshot, hsnapshot, hresolved⟩ := h.isOf_of_held? hheld
  exact h.faithful_cache hsnapshot hresolved

end Session

end HttpGateway
