import HttpGateway.Proofs.Expression.Concatenation
import HttpGateway.Proofs.Route.Shadowing
import HttpGateway.Proofs.Session.Values
import Mathlib.Data.List.DropRight

/-!
# The address forwarded to

The address for a path that was resolved is made of a base without slashes at its end, a `/`, what
the match leaves of the path without slashes at its start, and the query string
(`Resolved.ForwardsTo`). Nothing of the path gets lost but slashes: what stands before the rest is
consumed by the split that the matcher finds, or is a `/` behind it (`Pattern.Split.Leaves`). A root
route consumes slashes only. It matches every path that starts with one, yet such a path can be too
long to be resolved, or the time can be used up before (`root_path_unanswered`).
-/

namespace HttpGateway

open Text

/-! ## Slashes -/

/-- Nothing but slashes. -/
def IsSlashes (cs : List Char) : Prop := ∀ c ∈ cs, c = '/'

/-- A text without the slashes at its end. -/
structure IsBase (text base : List Char) : Prop where
  text_eq : ∃ slashes, IsSlashes slashes ∧ text = base ++ slashes
  last : base.getLast? ≠ some '/'

theorem IsSlashes.append {cs ds : List Char} (hcs : IsSlashes cs) (hds : IsSlashes ds) :
    IsSlashes (cs ++ ds) :=
  List.forall_mem_append.2 ⟨hcs, hds⟩

theorem isSlashes_takeWhile (cs : List Char) : IsSlashes (cs.takeWhile (· == '/')) :=
  fun _ hc => beq_iff_eq.1 (List.mem_takeWhile_imp (p := (· == '/')) hc)

theorem head?_dropWhile_slash (cs : List Char) : (cs.dropWhile (· == '/')).head? ≠ some '/' := by
  have hnot := List.head?_dropWhile_not (· == '/') cs
  intro hhead
  rw [hhead] at hnot
  cases hnot

/-- What follows slashes is left when they are dropped. -/
theorem IsSlashes.dropWhile_append {slashes rest : List Char} (h : IsSlashes slashes)
    (hrest : rest.head? ≠ some '/') : (slashes ++ rest).dropWhile (· == '/') = rest := by
  rw [List.dropWhile_append_of_pos fun c hc => beq_iff_eq.2 (h c hc)]
  cases rest with
  | nil => rfl
  | cons c rest =>
    have hc : c ≠ '/' := fun heq => hrest (congrArg some heq)
    rw [List.dropWhile_cons_of_neg (by simpa using hc)]

/-- A text that goes on with slashes only ends in one. -/
theorem IsSlashes.getLast?_append {slashes : List Char} (h : IsSlashes slashes) (cs : List Char) :
    (cs ++ '/' :: slashes).getLast? = some '/' := by
  have hall : IsSlashes ('/' :: slashes) := List.forall_mem_cons.2 ⟨rfl, h⟩
  have hne : '/' :: slashes ≠ [] := List.cons_ne_nil _ _
  rw [List.getLast?_append_of_ne_nil cs hne, List.getLast?_eq_some_getLast hne]
  exact congrArg some (hall _ (List.getLast_mem hne))

theorem isBase_rdropWhile (text : List Char) : IsBase text (text.rdropWhile (· == '/')) where
  text_eq := by
    refine ⟨text.rtakeWhile (· == '/'), ?_, List.rdropWhile_append_rtakeWhile.symm⟩
    exact fun c hc => isSlashes_takeWhile _ c (List.mem_reverse.1 hc)
  last := by
    rw [List.rdropWhile, List.getLast?_reverse]
    exact head?_dropWhile_slash _

/-! ## What a split leaves of a path -/

namespace Pattern

variable {core : List Pattern} {path consumed rest : List Char} {split : Split}

/-- A path is what the split consumes, with all slashes behind it, and the rest. -/
structure Split.Leaves (split : Split) (path consumed rest : List Char) : Prop where
  path_eq : path = consumed ++ rest
  consumed_eq : ∃ slashes, IsSlashes slashes ∧
    consumed = split.lead ++ split.body.text ++ split.border ++ slashes
  first : rest.head? ≠ some '/'
  last : consumed.getLast? = some '/' ∨ rest = []

/-- The rest is the suffix of the split without slashes at its start. -/
theorem IsSplit.leaves (h : IsSplit core path split) :
    split.Leaves path
      (split.lead ++ split.body.text ++ split.border ++ split.suffix.takeWhile (· == '/'))
      (split.suffix.dropWhile (· == '/')) where
  path_eq := by rw [List.append_assoc, List.takeWhile_append_dropWhile, ← h.path_eq]
  consumed_eq := ⟨_, isSlashes_takeWhile _, rfl⟩
  first := head?_dropWhile_slash _
  last := by
    obtain hborder | ⟨-, hsuffix⟩ := h.border
    · refine .inl ?_
      rw [hborder, List.append_assoc, List.singleton_append]
      exact (isSlashes_takeWhile _).getLast?_append _
    · refine .inr ?_
      rw [hsuffix, List.dropWhile_nil]

/-- If the pattern stands for nothing, the slashes at the start of the path are consumed and no
more. -/
theorem Split.Leaves.rest_eq (h : split.Leaves path consumed rest)
    (hsplit : IsSplit core path split) (hbody : split.body.text = []) :
    rest = path.dropWhile (· == '/') := by
  obtain ⟨slashes, hslashes, hconsumed⟩ := h.consumed_eq
  have hlead : IsSlashes split.lead := by
    obtain hlead | hlead := hsplit.lead <;> simp [hlead, IsSlashes]
  have hborder : IsSlashes split.border := by
    obtain hborder | ⟨hborder, -⟩ := hsplit.border <;> simp [hborder, IsSlashes]
  have hall : IsSlashes consumed := by
    rw [hconsumed, hbody, List.append_nil]
    exact (hlead.append hborder).append hslashes
  rw [h.path_eq, hall.dropWhile_append h.first]

end Pattern

/-! ## Root routes -/

/-- The pattern is empty or a `/`, between blanks. -/
def RouteSettings.IsRoot (settings : RouteSettings) : Prop :=
  trim settings.pattern = "" ∨ trim settings.pattern = "/"

instance (settings : RouteSettings) : Decidable settings.IsRoot :=
  inferInstanceAs (Decidable (_ ∨ _))

namespace RouteSettings.IsReady

open Pattern

variable {settings : RouteSettings} {route : Route}

theorem core_of_isRoot (h : settings.IsReady route) (hroot : settings.IsRoot) :
    route.matcher.core = [.literal ""] ∨ route.matcher.core = [] := by
  obtain ⟨pattern, hread, -, hcompile⟩ := h.matcher
  rw [(Matcher.compile_eq_ok hcompile).2]
  obtain hempty | hslash := hroot
  · rw [hempty] at hread
    obtain rfl : Pattern.empty = pattern := Except.ok.inj hread
    exact .inl rfl
  · rw [hslash] at hread
    obtain rfl : Pattern.separator = pattern := Except.ok.inj hread
    exact .inr rfl

/-- A root route stands for the empty text only. -/
theorem hasInstanceAll_iff_of_isRoot (h : settings.IsReady route) (hroot : settings.IsRoot)
    {i : Instance} : HasInstanceAll route.matcher.core i ↔ i = ⟨[], [], []⟩ := by
  obtain hcore | hcore := h.core_of_isRoot hroot
  · rw [hcore]
    constructor
    · rintro (_ | ⟨hliteral, hnil⟩)
      cases hnil
      cases hliteral with
      | literal hsame =>
        obtain rfl := List.map_eq_nil_iff.1 hsame.symm
        rfl
    · rintro rfl
      exact .cons (.literal rfl) .nil
  · rw [hcore]
    constructor
    · rintro ⟨⟩
      rfl
    · rintro rfl
      exact .nil

/-- A root route matches every path that starts with a `/`. -/
theorem match?_ne_none_of_isRoot (h : settings.IsReady route) (hroot : settings.IsRoot)
    {path : String} (hpath : path.toList.head? = some '/') : route.matcher.match? path ≠ none := by
  obtain ⟨cs, hcs⟩ := List.head?_eq_some_iff.1 hpath
  have hsplit : IsSplit route.matcher.core path.toList ⟨[], ⟨[], [], []⟩, ['/'], cs⟩ :=
    ⟨hcs, .inl rfl, (h.hasInstanceAll_iff_of_isRoot hroot).2 rfl, .inl rfl⟩
  exact fun hnone => Matcher.match?_eq_none_iff.1 hnone _ hsplit

end RouteSettings.IsReady

/-! ## The address -/

/-- The pieces of the address for a path that was resolved: the value of the target without blanks
at its ends and then without slashes at its end, a `/`, the rest of the path, and the query
string. -/
structure Resolved.Forwards (resolved : Resolved) (path : String) (request : Request)
    (target uri : String) (base consumed rest : List Char) : Prop where
  uri_eq : uri = String.ofList (base ++ '/' :: rest ++ (request.queryString.getD "").toList)
  isBase : IsBase (trim ((resolved.scope request).plainValue target)).toList base
  /-- The split is the one that the matcher finds. -/
  leaves : ∃ split, Pattern.IsFirstSplit resolved.route.matcher.core path.toList split ∧
    String.ofList split.suffix = resolved.suffix ∧ split.Leaves path.toList consumed rest
  root : resolved.route.settings.IsRoot → rest = path.toList.dropWhile (· == '/')

/-- The address for a path that was resolved. -/
def Resolved.ForwardsTo (resolved : Resolved) (path : String) (request : Request)
    (target uri : String) : Prop :=
  ∃ base consumed rest, resolved.Forwards path request target uri base consumed rest

namespace Snapshot

variable {snapshot : Snapshot} {path : String} {resolved : Resolved}

/-- What a path is resolved to forwards it to the address that is evaluated. -/
theorem IsFirstMatch.forwardsTo {index : Nat} (h : snapshot.IsFirstMatch path index resolved)
    (hready : resolved.route.settings.IsReady resolved.route) (request : Request)
    (target : String) :
    resolved.ForwardsTo path request target
      (Forwarding.uriOf (m := Id) (resolved.scope request).plainValue target resolved.suffix
        (request.queryString.getD "")).run := by
  obtain ⟨finish, hfind, hfound⟩ := Option.map_eq_some_iff.1 h.found
  obtain ⟨split, hfirst, rfl⟩ := Pattern.exists_isFirstSplit_of_find hfind
  have hsuffix : String.ofList split.suffix = resolved.suffix := congrArg MatchedPath.suffix hfound
  have hleaves := hfirst.isSplit.leaves
  refine ⟨_, _, _, ?_, isBase_rdropWhile _, ⟨split, hfirst, hsuffix, hleaves⟩, fun hroot => ?_⟩
  · show Forwarding.joinUri (trim ((resolved.scope request).plainValue target)) _ _ = _
    rw [← hsuffix, Forwarding.joinUri, String.toList_ofList, List.rdropWhile]
  · have hbody := (hready.hasInstanceAll_iff_of_isRoot hroot).1 hfirst.isSplit.body
    exact hleaves.rest_eq hfirst.isSplit (congrArg Pattern.Instance.text hbody)

end Snapshot

/-- A path that is resolved and held in a session is forwarded to its address, whatever comes
between. -/
theorem Session.IsRecorded.forwardsTo {session : Session} (h : session.IsRecorded)
    {path held : String} {kept : Option String} {resolved : Resolved}
    (hanswer : (session.step (.resolve path kept (some held))).answer = .resolved (some resolved))
    {later : List Step} (hlater : ∀ step ∈ later, step.holdName? ≠ some held)
    {proxy : ProxySettings} (hproxy : resolved.route.settings.proxy = some proxy)
    (request : Request) :
    ∃ evaluated cached,
      (((session.step (.resolve path kept (some held))).session.after later).step
        (.forward held request)).answer = .forwarding resolved.route proxy evaluated cached ∧
      resolved.ForwardsTo path request proxy.target evaluated.uri := by
  have hkeeps := session.keepsResults path kept held (some resolved) later hanswer hlater
  have hstep := h.becomes (session.step_becomes (.resolve path kept (some held)))
  have hrecorded := invariant_after IsRecorded.becomes hstep later
  generalize (session.step (.resolve path kept (some held))).session.after later = next
    at hkeeps hrecorded ⊢
  have hheld : next.held? held = some resolved := by rw [held?, hkeeps, Option.join_some]
  have hplain := evaluatesPlainly hrecorded.cachesFaithfully hheld request
  refine ⟨_, _, hplain.forward proxy hproxy, ?_⟩
  obtain ⟨issued, hissued⟩ := h
  obtain ⟨snapshot, hsnapshot, hresolved⟩ := exists_snapshot_of_answer hanswer
  obtain ⟨index, hfirst⟩ := Snapshot.exists_isFirstMatch_of_resolve hresolved
  have hready := hissued.isReady snapshot (hissued.snapshot?_mem hsnapshot) _ hfirst.mem
  exact hfirst.forwardsTo hready request proxy.target

/-- **A path is forwarded with its rest intact.** The address for a path that was resolved is a base
without slashes at its end, a `/`, what is left of the path once all slashes behind the match are
dropped, and the query string, with every cache that has been reached, and so a session answers. A
root route matches every path that starts with a `/`: one that is not too long is resolved to the
first route that matches it, as far as there is time. -/
theorem uri_keeps_rest_of_path :
    (∀ generation settings built, Snapshot.load generation settings = .ok built →
      ∀ expired path resolved, (built.snapshot.resolveWithin expired path).2 = some resolved →
        ∀ target request limit cache, Reached resolved.route.names limit cache →
          resolved.ForwardsTo path request target
            ((Forwarding.uriOf (resolved.scope request).evaluate target resolved.suffix
              (request.queryString.getD "")).runWith cache).1) ∧
    (∀ limits steps path kept held resolved later proxy request,
      let turn := ((Session.start limits).after steps).step (.resolve path kept (some held))
      turn.answer = .resolved (some resolved) → (∀ step ∈ later, step.holdName? ≠ some held) →
        resolved.route.settings.proxy = some proxy →
        ∃ evaluated cached, ((turn.session.after later).step (.forward held request)).answer =
            .forwarding resolved.route proxy evaluated cached ∧
          resolved.ForwardsTo path request proxy.target evaluated.uri) ∧
    ∀ generation settings built, Snapshot.load generation settings = .ok built →
      ∀ place route, built.snapshot.routes[place]? = some route → route.settings.IsRoot →
        ∀ path : String, path.toList.head? = some '/' →
          (∃ found, route.matcher.match? path = some found) ∧
          (path.utf8ByteSize ≤ built.snapshot.limits.maxPathLength.toNat →
            ∃ index ≤ place, ∃ resolved, built.snapshot.IsFirstMatch path index resolved ∧
              ∀ expired, (∀ earlier < index, expired earlier = false) →
                built.snapshot.resolveWithin expired path = (.matched, some resolved)) := by
  refine ⟨?_, ?_, ?_⟩
  · intro generation settings built hload expired path resolved hresolved target request limit
      cache hcache
    obtain ⟨index, hfirst⟩ := Snapshot.exists_isFirstMatch_of_resolveWithin hresolved
    have hyields := Forwarding.yields_uriOf (resolved.scope request).yields_evaluate target
      resolved.suffix (request.queryString.getD "")
    rw [hyields.value_runWith hcache.faithful]
    exact hfirst.forwardsTo (Snapshot.isReady_of_load hload hfirst.mem) request target
  · intro limits steps path kept held resolved later proxy request turn hanswer hlater hproxy
    exact (Session.isRecorded_after limits steps).forwardsTo hanswer hlater hproxy request
  · intro generation settings built hload place route hroute hroot path hpath
    have hready := Snapshot.isReady_of_load hload (List.mem_of_getElem? hroute)
    have hmatch := hready.match?_ne_none_of_isRoot hroot hpath
    exact ⟨Option.ne_none_iff_exists'.1 hmatch, fun hlength =>
      Snapshot.exists_isFirstMatch_of_match hlength hroute hmatch⟩

/-- A root route and a limit that every longer path than `/` exceeds. -/
def shortPathSettings : Settings where
  limits := { maxPathLength := 1 }
  routes := [{ pattern := "/", proxy := some { target := "http://u" } }]

/-- A root route behind another one, and no time to try it. -/
def noTimeSettings : Settings where
  limits := { matchBudgetMs := 0 }
  routes := [{ pattern := "/b" }, { pattern := "", proxy := some { target := "http://u" } }]

/-- A path that starts with a `/` need not be resolved, though there is a root route: it is too
long, or there is no time to try the root route. -/
theorem root_path_unanswered :
    (∃ built, Snapshot.load 0 shortPathSettings = .ok built ∧
      (∃ route ∈ built.snapshot.routes, route.settings.IsRoot) ∧
      built.snapshot.resolve "/a" = (.tooLong, none)) ∧
    ∃ built, Snapshot.load 0 noTimeSettings = .ok built ∧
      (∃ route ∈ built.snapshot.routes, route.settings.IsRoot) ∧
      built.snapshot.resolve "/a" = (.budgetExceeded, none) := by
  have hshort : shortPathSettings.globalFaults = [] := by decide
  have hnoTime : noTimeSettings.globalFaults = [] := by decide
  refine ⟨⟨_, Snapshot.load_of_globalFaults_eq_nil hshort 0, by decide +kernel, ?_⟩,
    ⟨_, Snapshot.load_of_globalFaults_eq_nil hnoTime 0, by decide +kernel, ?_⟩⟩
  · exact Snapshot.resolve_of_too_long (by decide +kernel)
  · exact Prod.ext (by decide +kernel) (Option.isNone_iff_eq_none.1 (by decide +kernel))

/-- A route that takes a segment after its slash or nothing at all, and a root route. -/
def slashSettings : Settings where
  routes := [
    { pattern := "(/:x)", proxy := some { target := " http://up/$x// " } },
    { pattern := "/" }]

/-- Of the slashes at the start of the path one is consumed before the group and one by it, and of
those behind the segment one is the border and two are dropped. -/
theorem uri_keeps_rest_of_path_slashes :
    ∃ built, Snapshot.load 0 slashSettings = .ok built ∧ ∃ index ≤ 1, ∃ resolved,
      built.snapshot.IsFirstMatch "//v///w//" index resolved ∧
        resolved.ForwardsTo "//v///w//" { queryString := some "?q" } " http://up/$x// "
          "http://up/v/w//?q" := by
  obtain ⟨hforwards, -, hroot⟩ := uri_keeps_rest_of_path
  have hnone : slashSettings.globalFaults = [] := by decide
  have hload := Snapshot.load_of_globalFaults_eq_nil hnone 0
  have hrootRoute : ((Snapshot.loaded 0 slashSettings).snapshot.routes[1]?).map Route.settings =
      some { pattern := "/" } := by
    decide +kernel
  obtain ⟨route, hroute, hsettings⟩ := Option.map_eq_some_iff.1 hrootRoute
  have hisRoot : route.settings.IsRoot := by
    rw [hsettings]
    decide +kernel
  obtain ⟨index, hindex, resolved, hfirst, hresolves⟩ :=
    (hroot 0 _ _ hload 1 route hroute hisRoot "//v///w//" rfl).2 (by decide +kernel)
  have hresolved := congrArg Prod.snd (hresolves (fun _ => false) fun _ _ => rfl)
  have huri : ((Snapshot.loaded 0 slashSettings).snapshot.resolveWithin (fun _ => false)
      "//v///w//").2.map (fun resolved => ((Forwarding.uriOf
        (resolved.scope { queryString := some "?q" }).evaluate " http://up/$x// " resolved.suffix
        "?q").runWith (.empty 1)).1) = some "http://up/v/w//?q" := by
    decide +kernel
  rw [hresolved, Option.map_some, Option.some.injEq] at huri
  refine ⟨_, hload, index, hindex, resolved, hfirst, ?_⟩
  rw [← huri]
  exact hforwards 0 _ _ hload _ _ resolved hresolved _ _ 1 _ .start

end HttpGateway
