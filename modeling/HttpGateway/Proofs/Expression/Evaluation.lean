import HttpGateway.Forwarding
import HttpGateway.Proofs.Metrics

/-!
# Evaluating by way of a cache

A cache is faithful to a compiler if each entry is what its text compiles to. Fetching keeps a cache
faithful, and from a faithful cache it yields what compiling yields. So an evaluation that runs with
a faithful cache has the value that it has without one (`Evaluation.Yields`): a single expression
(`Scope.yields_evaluate`) and whole proxy settings (`Forwarding.yields_ofSettings`).
-/

namespace HttpGateway

/-! ## Faithful caches -/

namespace Cache

variable {α : Type} {compile : String → α} {cache : Cache α}

/-- Each entry is what its text compiles to. -/
def Faithful (compile : String → α) (cache : Cache α) : Prop :=
  ∀ entry ∈ cache.entries, entry.2 = compile entry.1

theorem faithful_empty (compile : String → α) (limit : Nat) : (empty limit).Faithful compile :=
  fun _ hentry => nomatch hentry

theorem Faithful.eq_of_get? (h : cache.Faithful compile) {text : String} {value : α}
    (hget : cache.get? text = some value) : value = compile text :=
  h (text, value) (mem_of_lookup hget)

/-- Fetching from a faithful cache yields what the text compiles to. -/
theorem Faithful.value_fetch (h : cache.Faithful compile) (text : String) :
    (cache.fetch text compile).value = compile text := by
  rw [fetch]
  split
  · next hget => exact h.eq_of_get? hget
  · split <;> rfl

theorem Faithful.fetch (h : cache.Faithful compile) (text : String) :
    (cache.fetch text compile).cache.Faithful compile := by
  rw [Cache.fetch]
  split
  · exact h
  · split
    · intro entry hentry
      obtain hentry | hentry := List.mem_append.1 hentry
      · exact h entry hentry
      · rw [List.mem_singleton.1 hentry]
    · exact h

end Cache

/-! ## Evaluations -/

/-- The state after fetching the compiled expression of a text. -/
def EvaluationState.fetch (names : NameTree String) (state : EvaluationState) (text : String) :
    EvaluationState :=
  ((Expression.fetch names text).run state).2

namespace Evaluation

variable {α β : Type} {names : NameTree String} {state : EvaluationState}

theorem faithful_foldl (h : state.cache.Faithful (Expression.compile names)) (texts : List String) :
    (texts.foldl (EvaluationState.fetch names) state).cache.Faithful (Expression.compile names) := by
  induction texts generalizing state with
  | nil => exact h
  | cons text texts ih => exact ih (h.fetch text)

/-- Fetching counts the texts that are compiled, and those that are entered. -/
theorem mem_metrics_foldl {texts : List String} {m : Metric}
    (h : m ∈ Signal.metrics (texts.foldl (EvaluationState.fetch names) state).signals) :
    m ∈ Signal.metrics state.signals ∨ m = .expressionMiss ∨ m = .expressionInsert := by
  induction texts generalizing state with
  | nil => exact .inl h
  | cons text texts ih =>
    obtain hfetch | hm := ih h
    · change m ∈ Signal.metrics (state.signals ++ Access.signals state.cache.limit _) at hfetch
      rw [Signal.metrics_append, List.mem_append] at hfetch
      refine hfetch.imp_right fun haccess => ?_
      generalize (state.cache.fetch text (Expression.compile names)).access = access at haccess
      match access, haccess with
      | .inserted, haccess => simpa [Access.signals] using haccess
      | .overflow true, haccess => exact .inl (by simpa [Access.signals] using haccess)
      | .overflow false, haccess => exact .inl (by simpa [Access.signals] using haccess)
    · exact .inr hm

/-- With every cache that is faithful for the names the evaluation has the value, and it does
nothing but fetch certain texts in order. -/
def Yields (names : NameTree String) (evaluation : Evaluation α) (value : α) : Prop :=
  ∃ texts : List String, ∀ state : EvaluationState,
    state.cache.Faithful (Expression.compile names) →
      evaluation.run state = (value, texts.foldl (EvaluationState.fetch names) state)

theorem Yields.pure (value : α) : Yields names (pure value) value := ⟨[], fun _ _ => rfl⟩

theorem Yields.bind {evaluation : Evaluation α} {value : α} {next : α → Evaluation β} {result : β}
    (h : evaluation.Yields names value) (hnext : (next value).Yields names result) :
    Yields names (evaluation >>= next) result := by
  obtain ⟨earlier, hearlier⟩ := h
  obtain ⟨later, hlater⟩ := hnext
  refine ⟨earlier ++ later, fun state hcache => ?_⟩
  change (next (evaluation.run state).1).run (evaluation.run state).2 = _
  rw [hearlier state hcache, hlater _ (faithful_foldl hcache earlier), List.foldl_append]

theorem Yields.map {evaluation : Evaluation α} {value : α} (h : evaluation.Yields names value)
    (f : α → β) : Yields names (f <$> evaluation) (f value) := by
  rw [← bind_pure_comp]
  exact h.bind (.pure (f value))

/-- Items evaluated in order have the values that they have one by one. -/
theorem Yields.mapM {evaluate : α → Evaluation β} {plain : α → Id β} (items : List α)
    (h : ∀ item ∈ items, (evaluate item).Yields names (plain item).run) :
    Yields names (items.mapM evaluate) (items.mapM plain).run := by
  induction items with
  | nil => exact .pure []
  | cons item items ih =>
    rw [List.forall_mem_cons] at h
    rw [List.mapM_cons, List.mapM_cons]
    exact h.1.bind ((ih h.2).bind (.pure _))

section RunWith

variable {evaluation : Evaluation α} {value : α} {cache : Cache Expression}

/-- An evaluation has its value with every faithful cache. -/
theorem Yields.value_runWith (h : evaluation.Yields names value)
    (hcache : cache.Faithful (Expression.compile names)) : (evaluation.runWith cache).1 = value := by
  obtain ⟨texts, hrun⟩ := h
  exact congrArg Prod.fst (hrun ⟨cache, []⟩ hcache)

theorem Yields.faithful_runWith (h : evaluation.Yields names value)
    (hcache : cache.Faithful (Expression.compile names)) :
    (evaluation.runWith cache).2.cache.Faithful (Expression.compile names) := by
  obtain ⟨texts, hrun⟩ := h
  rw [runWith, hrun ⟨cache, []⟩ hcache]
  exact faithful_foldl hcache texts

theorem Yields.mem_metrics_runWith (h : evaluation.Yields names value)
    (hcache : cache.Faithful (Expression.compile names)) {m : Metric}
    (hm : m ∈ Signal.metrics (evaluation.runWith cache).2.signals) :
    m = .expressionMiss ∨ m = .expressionInsert := by
  obtain ⟨texts, hrun⟩ := h
  rw [runWith, hrun ⟨cache, []⟩ hcache] at hm
  exact (mem_metrics_foldl hm).resolve_left List.not_mem_nil

end RunWith

end Evaluation

/-! ## Expressions -/

theorem Expression.yields_fetch (names : NameTree String) (text : String) :
    (Expression.fetch names text).Yields names (Expression.compile names text) :=
  ⟨[text], fun _ hcache => Prod.ext (hcache.value_fetch text) rfl⟩

namespace Scope

open Evaluation

theorem plainValue_empty (scope : Scope) : scope.plainValue "" = "" := rfl

/-- An expression has the value that it has without a cache. -/
theorem yields_evaluate (scope : Scope) (text : String) :
    (scope.evaluate text).Yields scope.names (scope.plainValue text) := by
  rw [evaluate]
  split
  · next hempty =>
    rw [String.isEmpty_iff.1 hempty, plainValue_empty]
    exact .pure ""
  · exact (Expression.yields_fetch scope.names text).map _

end Scope

/-! ## Proxy settings -/

namespace Forwarding

open Evaluation

variable {names : NameTree String} {evaluate : String → Evaluation String} {plain : String → String}

theorem yields_value? (h : ∀ text, (evaluate text).Yields names (plain text)) :
    ∀ text, (value? evaluate text).Yields names (value? (m := Id) plain text).run
  | none => .pure none
  | some text => (h text).map unlessBlank

theorem yields_nameOf (h : ∀ text, (evaluate text).Yields names (plain text)) :
    ∀ text, (nameOf evaluate text).Yields names (nameOf (m := Id) plain text).run
  | none => .pure (some defaultName)
  | some text => yields_value? h (some text)

theorem yields_headersOf (h : ∀ text, (evaluate text).Yields names (plain text))
    (headers : List HeaderSetting) :
    (headersOf evaluate headers).Yields names (headersOf (m := Id) plain headers).run :=
  .mapM headers fun header _ => (Yields.mapM header.values fun text _ => h text).map _

theorem yields_timeoutOf (h : ∀ text, (evaluate text).Yields names (plain text))
    (timeout : Option String) :
    (timeoutOf evaluate timeout).Yields names (timeoutOf (m := Id) plain timeout).run :=
  (yields_value? h timeout).map fun value => (value.bind timeout?).getD defaultTimeout

theorem yields_baseUriOf (h : ∀ text, (evaluate text).Yields names (plain text)) (target : String) :
    (baseUriOf evaluate target).Yields names (baseUriOf (m := Id) plain target).run :=
  (h target).map Text.trim

theorem yields_uriOf (h : ∀ text, (evaluate text).Yields names (plain text))
    (target suffix query : String) :
    (uriOf evaluate target suffix query).Yields names
      (uriOf (m := Id) plain target suffix query).run :=
  (yields_baseUriOf h target).map fun base => joinUri base suffix query

/-- Proxy settings have the values that they have without a cache. -/
theorem yields_ofSettings (h : ∀ text, (evaluate text).Yields names (plain text))
    (proxy : ProxySettings) (suffix query : String) :
    (ofSettings evaluate proxy suffix query).Yields names
      (ofSettings (m := Id) plain proxy suffix query).run := by
  refine (yields_nameOf h _).bind ?_
  refine (yields_timeoutOf h _).bind ?_
  refine (yields_baseUriOf h _).bind ?_
  refine (yields_uriOf h _ suffix query).bind ?_
  refine ((yields_value? h proxy.request.httpVersion).map fun value =>
    (value.map Text.trim).getD defaultVersion).bind ?_
  refine (yields_value? h _).bind ?_
  exact (yields_headersOf h _).bind ((yields_headersOf h _).bind (.pure _))

end Forwarding

end HttpGateway
