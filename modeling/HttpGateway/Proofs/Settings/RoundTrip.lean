import HttpGateway.Proofs.Settings.Spellings
import HttpGateway.Settings.Codec

/-!
# Reading settings back

Settings are read back from what is written, and from every other spelling of them: at every depth,
and in each record on its own, fields may be reordered, left out if they have their default values,
and written without their names, and unknown ones may be added (`Settings.Spelled`,
`every_spelling_read_back`). For each record there are its spellings; reading reads them all, and
writing writes one.
-/

namespace HttpGateway

open Data Spelling

namespace Limits

/-- The spellings of limits. -/
def Spelled (limits : Limits) : Data → Prop :=
  let default : Limits := {}
  Record [
    .of "max_route_count" Word limits.maxRouteCount default.maxRouteCount,
    .of "max_path_length" Word limits.maxPathLength default.maxPathLength,
    .of "match_budget_ms" Word limits.matchBudgetMs default.matchBudgetMs,
    .of "expression_cache_limit" Word limits.expressionCacheLimit default.expressionCacheLimit]

theorem reads_spelled : Reads ofData? Spelled := by
  intro limits data h
  obtain ⟨entries, hentries, hfound⟩ := Record.exists_fields? fieldNames h rfl (by decide)
  simp only [List.forall_mem_cons] at hfound
  obtain ⟨hcount, hlength, hbudget, hcache, -⟩ := hfound
  simp [ofData?, hentries, hcount.field?_eq reads_word, hlength.field?_eq reads_word,
    hbudget.field?_eq reads_word, hcache.field?_eq reads_word]

theorem writes_spelled : Writes toData Spelled := fun _ =>
  .full (.cons (Field.isEntry_of_writes writes_word) (.cons (Field.isEntry_of_writes writes_word)
    (.cons (Field.isEntry_of_writes writes_word)
      (.cons (Field.isEntry_of_writes writes_word) .nil))))

end Limits

namespace HeaderSetting

/-- The spellings of a header. -/
def Spelled (header : HeaderSetting) : Data → Prop :=
  Record [.of "name" Text header.name "", .of "values" (Items Text) header.values []]

theorem reads_spelled : Reads ofData? Spelled := by
  intro header data h
  obtain ⟨entries, hentries, hfound⟩ := Record.exists_fields? fieldNames h rfl (by decide)
  simp only [List.forall_mem_cons] at hfound
  obtain ⟨hname, hvalues, -⟩ := hfound
  simp [ofData?, hentries, hname.field?_eq reads_text, hvalues.field?_eq reads_text.items]

theorem writes_spelled : Writes toData Spelled := fun _ =>
  .full (.cons (Field.isEntry_of_writes writes_text)
    (.cons (Field.isEntry_of_writes writes_text.items) .nil))

end HeaderSetting

namespace ForwardedHeaders

/-- The spellings of the headers of the forwarded request. -/
def Spelled (headers : ForwardedHeaders) : Data → Prop :=
  Record [
    .of "default_host" (Optional Text) headers.defaultHost none,
    .of "proxy_name" (Optional Text) headers.proxyName none,
    .of "overrides" (Items HeaderSetting.Spelled) headers.overrides []]

theorem reads_spelled : Reads ofData? Spelled := by
  intro headers data h
  obtain ⟨entries, hentries, hfound⟩ := Record.exists_fields? fieldNames h rfl (by decide)
  simp only [List.forall_mem_cons] at hfound
  obtain ⟨hhost, hname, hoverrides, -⟩ := hfound
  simp [ofData?, hentries, hhost.field?_eq (reads_text.optional rfl),
    hname.field?_eq (reads_text.optional rfl),
    hoverrides.field?_eq HeaderSetting.reads_spelled.items]

theorem writes_spelled : Writes toData Spelled := fun _ =>
  .full (.cons (Field.isEntry_of_writes writes_text.optional)
    (.cons (Field.isEntry_of_writes writes_text.optional)
      (.cons (Field.isEntry_of_writes HeaderSetting.writes_spelled.items) .nil)))

end ForwardedHeaders

namespace Sender

/-- The spellings of how a request is sent. -/
def Spelled (sender : Sender) : Data → Prop :=
  Record [.of "timeout_ms" (Optional Text) sender.timeoutMs none]

theorem reads_spelled : Reads ofData? Spelled := by
  intro sender data h
  obtain ⟨entries, hentries, hfound⟩ := Record.exists_fields? fieldNames h rfl (by decide)
  simp only [List.forall_mem_cons] at hfound
  obtain ⟨htimeout, -⟩ := hfound
  simp [ofData?, hentries, htimeout.field?_eq (reads_text.optional rfl)]

theorem writes_spelled : Writes toData Spelled := fun _ =>
  .full (.cons (Field.isEntry_of_writes writes_text.optional) .nil)

end Sender

namespace ForwardedRequest

/-- The spellings of the settings of the forwarded request. -/
def Spelled (request : ForwardedRequest) : Data → Prop :=
  Record [
    .of "http_version" (Optional Text) request.httpVersion none,
    .of "headers" ForwardedHeaders.Spelled request.headers {},
    .of "sender" Sender.Spelled request.sender {}]

theorem reads_spelled : Reads ofData? Spelled := by
  intro request data h
  obtain ⟨entries, hentries, hfound⟩ := Record.exists_fields? fieldNames h rfl (by decide)
  simp only [List.forall_mem_cons] at hfound
  obtain ⟨hversion, hheaders, hsender, -⟩ := hfound
  simp [ofData?, hentries, hversion.field?_eq (reads_text.optional rfl),
    hheaders.field?_eq ForwardedHeaders.reads_spelled, hsender.field?_eq Sender.reads_spelled]

theorem writes_spelled : Writes toData Spelled := fun _ =>
  .full (.cons (Field.isEntry_of_writes writes_text.optional)
    (.cons (Field.isEntry_of_writes ForwardedHeaders.writes_spelled)
      (.cons (Field.isEntry_of_writes Sender.writes_spelled) .nil)))

end ForwardedRequest

namespace ResponseHeaders

/-- The spellings of the headers of the response. -/
def Spelled (headers : ResponseHeaders) : Data → Prop :=
  Record [.of "overrides" (Items HeaderSetting.Spelled) headers.overrides []]

theorem reads_spelled : Reads ofData? Spelled := by
  intro headers data h
  obtain ⟨entries, hentries, hfound⟩ := Record.exists_fields? fieldNames h rfl (by decide)
  simp only [List.forall_mem_cons] at hfound
  obtain ⟨hoverrides, -⟩ := hfound
  simp [ofData?, hentries, hoverrides.field?_eq HeaderSetting.reads_spelled.items]

theorem writes_spelled : Writes toData Spelled := fun _ =>
  .full (.cons (Field.isEntry_of_writes HeaderSetting.writes_spelled.items) .nil)

end ResponseHeaders

namespace ResponseSettings

/-- The spellings of the settings of the response. -/
def Spelled (response : ResponseSettings) : Data → Prop :=
  Record [.of "headers" ResponseHeaders.Spelled response.headers {}]

theorem reads_spelled : Reads ofData? Spelled := by
  intro response data h
  obtain ⟨entries, hentries, hfound⟩ := Record.exists_fields? fieldNames h rfl (by decide)
  simp only [List.forall_mem_cons] at hfound
  obtain ⟨hheaders, -⟩ := hfound
  simp [ofData?, hentries, hheaders.field?_eq ResponseHeaders.reads_spelled]

theorem writes_spelled : Writes toData Spelled := fun _ =>
  .full (.cons (Field.isEntry_of_writes ResponseHeaders.writes_spelled) .nil)

end ResponseSettings

namespace ProxySettings

/-- The spellings of proxy settings. -/
def Spelled (proxy : ProxySettings) : Data → Prop :=
  Record [
    .of "to" Text proxy.target "",
    .of "correlation_id_header" (Optional Text) proxy.correlationIdHeader none,
    .of "upstream_request" ForwardedRequest.Spelled proxy.request {},
    .of "downstream_response" ResponseSettings.Spelled proxy.response {}]

theorem reads_spelled : Reads ofData? Spelled := by
  intro proxy data h
  obtain ⟨entries, hentries, hfound⟩ := Record.exists_fields? fieldNames h rfl (by decide)
  simp only [List.forall_mem_cons] at hfound
  obtain ⟨htarget, hheader, hrequest, hresponse, -⟩ := hfound
  simp [ofData?, hentries, htarget.field?_eq reads_text,
    hheader.field?_eq (reads_text.optional rfl), hrequest.field?_eq ForwardedRequest.reads_spelled,
    hresponse.field?_eq ResponseSettings.reads_spelled]

theorem writes_spelled : Writes toData Spelled := fun _ =>
  .full (.cons (Field.isEntry_of_writes writes_text)
    (.cons (Field.isEntry_of_writes writes_text.optional)
      (.cons (Field.isEntry_of_writes ForwardedRequest.writes_spelled)
        (.cons (Field.isEntry_of_writes ResponseSettings.writes_spelled) .nil))))

end ProxySettings

namespace RouteSettings

/-- The spellings of a route. -/
def Spelled (route : RouteSettings) : Data → Prop :=
  Record [
    .of "pattern" Text route.pattern "",
    .of "proxy" (Optional ProxySettings.Spelled) route.proxy none]

theorem reads_spelled : Reads ofData? Spelled := by
  intro route data h
  obtain ⟨entries, hentries, hfound⟩ := Record.exists_fields? fieldNames h rfl (by decide)
  simp only [List.forall_mem_cons] at hfound
  obtain ⟨hpattern, hproxy, -⟩ := hfound
  simp [ofData?, hentries, hpattern.field?_eq reads_text,
    hproxy.field?_eq (ProxySettings.reads_spelled.optional rfl)]

theorem writes_spelled : Writes toData Spelled := fun _ =>
  .full (.cons (Field.isEntry_of_writes writes_text)
    (.cons (Field.isEntry_of_writes ProxySettings.writes_spelled.optional) .nil))

end RouteSettings

namespace Settings

/-- The spellings of a configuration. -/
def Spelled (settings : Settings) : Data → Prop :=
  Record [
    .of "system" Limits.Spelled settings.limits {},
    .of "routes" (Items RouteSettings.Spelled) settings.routes []]

theorem reads_spelled : Reads ofData? Spelled := by
  intro settings data h
  obtain ⟨entries, hentries, hfound⟩ := Record.exists_fields? fieldNames h rfl (by decide)
  simp only [List.forall_mem_cons] at hfound
  obtain ⟨hlimits, hroutes, -⟩ := hfound
  simp [ofData?, hentries, hlimits.field?_eq Limits.reads_spelled,
    hroutes.field?_eq RouteSettings.reads_spelled.items]

theorem writes_spelled : Writes toData Spelled := fun _ =>
  .full (.cons (Field.isEntry_of_writes Limits.writes_spelled)
    (.cons (Field.isEntry_of_writes RouteSettings.writes_spelled.items) .nil))

end Settings

/-- **A configuration is read back** from what is written, and from every other spelling of it. So
writing a configuration that was read, and reading it again, changes nothing. -/
theorem every_spelling_read_back (settings : Settings) :
    Settings.ofData? settings.toData = some settings ∧
      settings.Spelled settings.toData ∧
      (∀ data, settings.Spelled data → Settings.ofData? data = some settings) ∧
      ∀ data, Settings.ofData? data = some settings →
        Settings.ofData? settings.toData = Settings.ofData? data := by
  have hwritten := Settings.writes_spelled settings
  have hread := Settings.reads_spelled settings _ hwritten
  exact ⟨hread, hwritten, Settings.reads_spelled settings, fun data hdata => hread.trans hdata.symm⟩

/-- One route, and a limit that is not the default. -/
def oneRoute : Settings where
  limits := { maxPathLength := 100 }
  routes := [{ pattern := "/a" }]

/-- One route in few words: an unknown field comes first and the limits last, as a list without its
tail, and the route has no proxy settings, not even null. -/
def oneRouteData : Data :=
  .record [
    ("note", .bool true),
    ("routes", .list [.record [("pattern", .text "/a")]]),
    ("system", .list [.integer 1024, .integer 100])]

theorem every_spelling_read_back_oneRoute :
    oneRoute.Spelled oneRouteData ∧ Settings.ofData? oneRouteData = some oneRoute := by
  have hlimits : oneRoute.limits.Spelled (.list [.integer 1024, .integer 100]) :=
    .inOrder (rfl : _ = [_, _] ++ [_, _]) (.cons rfl (.cons rfl .nil))
      (by simp [Field.of, oneRoute])
  have hroute : RouteSettings.Spelled { pattern := "/a" } (.record [("pattern", .text "/a")]) := by
    have hswap : List.Perm [("pattern", Data.text "/a"), ("proxy", .null)]
        [("proxy", .null), ("pattern", .text "/a")] := .swap _ _ _
    have hproxy : Field.of "proxy" (Optional ProxySettings.Spelled) none none ∈
        [.of "pattern" Text "/a" "", .of "proxy" (Optional ProxySettings.Spelled) none none] :=
      List.mem_cons_of_mem _ List.mem_cons_self
    refine .named (.omitted (.permuted (.full ?_) hswap) hproxy rfl)
    exact .cons ⟨rfl, rfl⟩ (.cons ⟨rfl, .null⟩ .nil)
  have hspelled : oneRoute.Spelled oneRouteData := by
    refine .named (.unknown (.permuted (.full ?_) (.swap _ _ _)) ?_)
    · exact .cons ⟨rfl, hlimits⟩ (.cons ⟨rfl, .intro (.cons hroute .nil)⟩ .nil)
    · simp [Field.of]
  exact ⟨hspelled, (every_spelling_read_back oneRoute).2.2.1 _ hspelled⟩

end HttpGateway
