import HttpGateway.Proofs.Expression.Evaluation
import Mathlib.Data.List.Induction

/-!
# Runs of a cache

Of the texts that are fetched, a cache keeps the first distinct ones up to its limit, each with what
it was compiled to when it was fetched first (`Cache.Keeps`). What a call does is said once, by
`Cache.Does`; from it come the totals of the two counters and that a full cache is noticed once,
when a text is first left out. `cache_keeps_first_fetches` is about any calls of a new cache.
-/

namespace HttpGateway

namespace Cache

variable {α : Type}

/-! ## Calls -/

/-- A call of a cache. -/
inductive Call (α : Type) where
  /-- Look up the entry of a text. -/
  | get (text : String)
  /-- Fetch a text, with what to compile it with if it has no entry. -/
  | fetch (text : String) (compile : String → α)

/-- What comes of a call. -/
structure Reply (α : Type) where
  value : Option α
  /-- The text was compiled. -/
  compiled : Bool
  cache : Cache α
  signals : List Signal

/-- Answer a call. -/
def reply (cache : Cache α) : Call α → Reply α
  | .get text => ⟨cache.get? text, false, cache, []⟩
  | .fetch text compile =>
    let fetched := cache.fetch text compile
    { value := some fetched.value
      compiled := fetched.access.compiled
      cache := fetched.cache
      signals := fetched.access.signals cache.limit }

/-- The cache after calls. -/
def after (cache : Cache α) (calls : List (Call α)) : Cache α :=
  calls.foldl (fun cache call => (cache.reply call).cache) cache

/-- What comes of calls, in order. -/
def replies (cache : Cache α) : List (Call α) → List (Reply α)
  | [] => []
  | call :: calls => cache.reply call :: (cache.reply call).cache.replies calls

/-- The signals that calls emit, in order. -/
def emitted (cache : Cache α) (calls : List (Call α)) : List Signal :=
  (cache.replies calls).flatMap Reply.signals

/-- The text that a call fetches, with what the call would compile it to. -/
def Call.fetched? : Call α → Option (String × α)
  | .get _ => none
  | .fetch text compile => some (text, compile text)

/-- The fetched texts in order, each with what the call would compile it to. -/
def fetches (calls : List (Call α)) : List (String × α) := calls.filterMap Call.fetched?

/-- The distinct texts of fetches, in the order of the first fetch. -/
def distinct (fetches : List (String × α)) : List String := (fetches.map Prod.fst).eraseDups

/-- A call fetches a text that has no entry, and there is no room for it. -/
def Overflows (cache : Cache α) : Call α → Prop
  | .get _ => False
  | .fetch text _ => cache.get? text = none ∧ cache.size = cache.limit

variable {cache : Cache α} {call : Call α} {text : String} {value : α} {limit : Nat}
  {earlier : List (String × α)}

@[simp] theorem after_nil (cache : Cache α) : cache.after [] = cache := rfl

@[simp] theorem after_cons (cache : Cache α) (call : Call α) (calls : List (Call α)) :
    cache.after (call :: calls) = (cache.reply call).cache.after calls := rfl

theorem after_append (cache : Cache α) (calls more : List (Call α)) :
    cache.after (calls ++ more) = (cache.after calls).after more := List.foldl_append

theorem emitted_cons (cache : Cache α) (call : Call α) (calls : List (Call α)) :
    cache.emitted (call :: calls) =
      (cache.reply call).signals ++ (cache.reply call).cache.emitted calls := rfl

theorem fetches_cons (call : Call α) (calls : List (Call α)) :
    fetches (call :: calls) = call.fetched?.toList ++ fetches calls := by
  cases call <;> rfl

/-! ## What a call does -/

/-- What comes of a call of a cache. -/
inductive Does (cache : Cache α) : Call α → Reply α → Prop
  | looks (text : String) : cache.Does (.get text) ⟨cache.get? text, false, cache, []⟩
  | hits {text : String} {value : α} (compile : String → α) :
    cache.get? text = some value → cache.Does (.fetch text compile) ⟨some value, false, cache, []⟩
  | enters {text : String} (compile : String → α) :
    cache.get? text = none → cache.size < cache.limit →
      cache.Does (.fetch text compile)
        { value := some (compile text)
          compiled := true
          cache := { cache with entries := cache.entries ++ [(text, compile text)] }
          signals := [.metric .expressionMiss, .metric .expressionInsert] }
  | leavesOut {text : String} (compile : String → α) :
    cache.get? text = none → cache.limit ≤ cache.size →
      cache.Does (.fetch text compile)
        { value := some (compile text)
          compiled := true
          cache := { cache with fullNoticed := true }
          signals := .metric .expressionMiss ::
            if cache.fullNoticed then [] else [.event (.cacheFull cache.limit)] }

theorem does_reply (cache : Cache α) (call : Call α) : cache.Does call (cache.reply call) := by
  cases call with
  | get text => exact .looks text
  | fetch text compile =>
    rw [reply, fetch]
    cases hget : cache.get? text with
    | some value => exact .hits compile hget
    | none =>
      by_cases hroom : cache.size < cache.limit
      · simp only [if_pos hroom]
        exact .enters compile hget hroom
      · have hsignals : (Access.overflow !cache.fullNoticed).signals cache.limit =
            .metric .expressionMiss ::
              if cache.fullNoticed then [] else [.event (.cacheFull cache.limit)] := by
          cases cache.fullNoticed <;> rfl
        simp only [if_neg hroom, hsignals]
        exact .leavesOut compile hget (Nat.not_lt.1 hroom)

/-! ## Entries -/

theorem distinct_concat (earlier : List (String × α)) (text : String) (value : α) :
    distinct (earlier ++ [(text, value)]) =
      if text ∈ distinct earlier then distinct earlier else distinct earlier ++ [text] := by
  rw [distinct, List.map_append, List.eraseDups_append]
  simp only [distinct, List.mem_eraseDups]
  split
  · next hmem => simp [List.removeAll, hmem]
  · next hmem => simp [List.removeAll, hmem, List.eraseDups_cons]

/-- After fetches, the entries are the first distinct texts up to the limit, each with what it was
compiled to when it was fetched first. That the limit was passed has been noticed. -/
structure Keeps (limit : Nat) (earlier : List (String × α)) (cache : Cache α) : Prop where
  limit_eq : cache.limit = limit
  keys_eq : cache.entries.map Prod.fst = (distinct earlier).take limit
  value_eq : ∀ entry ∈ cache.entries, earlier.lookup entry.1 = some entry.2
  fullNoticed_iff : cache.fullNoticed = true ↔ limit < (distinct earlier).length

theorem keeps_empty (limit : Nat) : (empty limit : Cache α).Keeps limit [] where
  limit_eq := rfl
  keys_eq := by simp [empty, distinct]
  value_eq _ hentry := nomatch hentry
  fullNoticed_iff := by simp [empty, distinct]

theorem Keeps.size_eq (h : cache.Keeps limit earlier) :
    cache.size = min limit (distinct earlier).length := by
  rw [size, ← List.length_map Prod.fst, h.keys_eq, List.length_take]

theorem Keeps.size_le (h : cache.Keeps limit earlier) : cache.size ≤ cache.limit := by
  rw [h.size_eq, h.limit_eq]
  exact Nat.min_le_left _ _

theorem Keeps.get?_eq_none_iff (h : cache.Keeps limit earlier) :
    cache.get? text = none ↔ text ∉ (distinct earlier).take limit := by
  rw [get?, lookup_eq_none_iff_notMem, h.keys_eq]

theorem Keeps.get?_eq_some_iff (h : cache.Keeps limit earlier) : cache.get? text = some value ↔
    text ∈ (distinct earlier).take limit ∧ earlier.lookup text = some value := by
  constructor
  · intro hget
    refine ⟨?_, h.value_eq _ (mem_of_lookup hget)⟩
    by_contra hnot
    simp [h.get?_eq_none_iff.2 hnot] at hget
  · rintro ⟨hmem, hlookup⟩
    cases hget : cache.get? text with
    | none => exact absurd hmem (h.get?_eq_none_iff.1 hget)
    | some other => exact (h.value_eq _ (mem_of_lookup hget)).symm.trans hlookup

/-- Fetches that come later change nothing about what a kept text was compiled to first. -/
theorem Keeps.lookup_append (h : cache.Keeps limit earlier) (later : List (String × α)) :
    ∀ entry ∈ cache.entries, (earlier ++ later).lookup entry.1 = some entry.2 := by
  intro entry hentry
  rw [List.lookup_append, h.value_eq entry hentry, Option.some_or]

/-- A text is fetched that was fetched before, and stays as it is. -/
theorem Keeps.again (h : cache.Keeps limit earlier) (hmem : text ∈ distinct earlier) (value : α) :
    cache.Keeps limit (earlier ++ [(text, value)]) := by
  have hdistinct : distinct (earlier ++ [(text, value)]) = distinct earlier := by
    rw [distinct_concat, if_pos hmem]
  exact ⟨h.limit_eq, hdistinct ▸ h.keys_eq, h.lookup_append _, hdistinct ▸ h.fullNoticed_iff⟩

/-- A text is entered when there is room for it. -/
theorem Keeps.enter (h : cache.Keeps limit earlier) (hget : cache.get? text = none)
    (hroom : cache.size < limit) (value : α) :
    { cache with entries := cache.entries ++ [(text, value)] }.Keeps limit
      (earlier ++ [(text, value)]) := by
  -- there is room for all distinct texts, so all of them are kept and this is a new one
  have hfew : (distinct earlier).length < limit := by
    have hsize := h.size_eq
    omega
  have hkeys : cache.entries.map Prod.fst = distinct earlier :=
    h.keys_eq.trans (List.take_of_length_le (Nat.le_of_lt hfew))
  have hnew : text ∉ distinct earlier := by
    rw [← hkeys]
    exact lookup_eq_none_iff_notMem.1 hget
  have hdistinct : distinct (earlier ++ [(text, value)]) = distinct earlier ++ [text] := by
    rw [distinct_concat, if_neg hnew]
  have hlength : (distinct earlier ++ [text]).length = (distinct earlier).length + 1 := by simp
  constructor
  case limit_eq => exact h.limit_eq
  case keys_eq =>
    rw [hdistinct, List.take_of_length_le (hlength ▸ hfew), List.map_append, hkeys]
    rfl
  case value_eq =>
    intro entry hentry
    obtain hentry | hentry := List.mem_append.1 hentry
    · exact h.lookup_append _ entry hentry
    · have hnone : earlier.lookup text = none :=
        lookup_eq_none_iff_notMem.2 (mt List.mem_eraseDups.2 hnew)
      rw [List.mem_singleton.1 hentry, List.lookup_append, hnone]
      simp
  case fullNoticed_iff =>
    have hnoticed := h.fullNoticed_iff
    rw [hdistinct, hlength]
    exact iff_of_false (mt hnoticed.1 (Nat.lt_asymm hfew)) (Nat.not_lt.2 hfew)

/-- A text is left out when there is no room for it. -/
theorem Keeps.leaveOut (h : cache.Keeps limit earlier) (hget : cache.get? text = none)
    (hfull : limit ≤ cache.size) (value : α) :
    { cache with fullNoticed := true }.Keeps limit (earlier ++ [(text, value)]) := by
  have hmany : limit ≤ (distinct earlier).length := by
    have hsize := h.size_eq
    omega
  obtain ⟨hkeys, hpassed⟩ :
      (distinct (earlier ++ [(text, value)])).take limit = (distinct earlier).take limit ∧
        limit < (distinct (earlier ++ [(text, value)])).length := by
    rw [distinct_concat]
    split
    · next hmem =>
      refine ⟨rfl, Nat.lt_of_not_ge fun hfew => h.get?_eq_none_iff.1 hget ?_⟩
      rwa [List.take_of_length_le hfew]
    · exact ⟨List.take_append_of_le_length hmany, by simpa using Nat.lt_succ_of_le hmany⟩
  constructor
  case limit_eq => exact h.limit_eq
  case keys_eq => exact h.keys_eq.trans hkeys.symm
  case value_eq => exact h.lookup_append _
  case fullNoticed_iff => exact iff_of_true rfl hpassed

/-- A call adds its fetch. -/
theorem Keeps.reply (h : cache.Keeps limit earlier) (call : Call α) :
    (cache.reply call).cache.Keeps limit (earlier ++ call.fetched?.toList) := by
  have hdoes := cache.does_reply call
  generalize cache.reply call = reply at hdoes
  cases hdoes with
  | looks text => simpa [Call.fetched?] using h
  | hits compile hget => exact h.again (List.mem_of_mem_take (h.get?_eq_some_iff.1 hget).1) _
  | enters compile hget hroom => exact h.enter hget (h.limit_eq ▸ hroom) _
  | leavesOut compile hget hfull => exact h.leaveOut hget (h.limit_eq ▸ hfull) _

theorem Keeps.after (h : cache.Keeps limit earlier) (calls : List (Call α)) :
    (cache.after calls).Keeps limit (earlier ++ fetches calls) := by
  induction calls generalizing cache earlier with
  | nil => simpa [fetches] using h
  | cons call calls ih =>
    rw [after_cons, fetches_cons, ← List.append_assoc]
    exact ih (h.reply call)

/-! ## One call -/

section Does

variable {reply : Reply α}

/-- No entry is removed or replaced. -/
theorem Does.entries_remain (h : cache.Does call reply) :
    cache.entries <+: reply.cache.entries := by
  cases h with
  | enters => exact List.prefix_append _ _
  | _ => exact List.prefix_refl _

theorem Does.limit_eq (h : cache.Does call reply) : reply.cache.limit = cache.limit := by
  cases h <;> rfl

/-- A compiled text is counted once. -/
theorem Does.countP_miss (h : cache.Does call reply) :
    (Signal.metrics reply.signals).countP (·.name = Metric.expressionMiss.name) =
      if reply.compiled then 1 else 0 := by
  cases h with
  | leavesOut =>
    dsimp only
    split <;> rfl
  | _ => rfl

/-- An entered text is counted once. -/
theorem Does.countP_insert (h : cache.Does call reply) :
    cache.size +
        (Signal.metrics reply.signals).countP (·.name = Metric.expressionInsert.name) =
      reply.cache.size := by
  cases h with
  | enters =>
    rw [size, size, List.length_append]
    rfl
  | leavesOut =>
    dsimp only
    split <;> rfl
  | _ => rfl

/-- That a cache is full is told when it is noticed. -/
theorem Does.events_eq (h : cache.Does call reply) :
    Signal.events reply.signals =
      if cache.fullNoticed = false ∧ reply.cache.fullNoticed = true then [.cacheFull cache.limit]
      else [] := by
  cases h with
  | leavesOut => cases hnoticed : cache.fullNoticed <;> rfl
  | _ => cases hnoticed : cache.fullNoticed <;> rfl

theorem Does.fullNoticed_of (h : cache.Does call reply) (hnoticed : cache.fullNoticed = true) :
    reply.cache.fullNoticed = true := by
  cases h with
  | leavesOut => rfl
  | _ => exact hnoticed

theorem Does.fullNoticed_iff (h : cache.Does call reply) (hsize : cache.size ≤ cache.limit) :
    reply.cache.fullNoticed = true ↔ cache.fullNoticed = true ∨ cache.Overflows call := by
  cases h with
  | looks => simp [Overflows]
  | hits compile hget => simp [Overflows, hget]
  | enters compile hget hroom => simp [Overflows, Nat.ne_of_lt hroom]
  | leavesOut compile hget hfull => simp [Overflows, hget, Nat.le_antisymm hsize hfull]

end Does

/-! ## Runs -/

theorem entries_remain_after (cache : Cache α) (calls : List (Call α)) :
    cache.entries <+: (cache.after calls).entries := by
  induction calls generalizing cache with
  | nil => exact List.prefix_refl _
  | cons call calls ih => exact (cache.does_reply call).entries_remain.trans (ih _)

theorem countP_miss_emitted (cache : Cache α) (calls : List (Call α)) :
    (Signal.metrics (cache.emitted calls)).countP (·.name = Metric.expressionMiss.name) =
      (cache.replies calls).countP Reply.compiled := by
  induction calls generalizing cache with
  | nil => rfl
  | cons call calls ih =>
    rw [emitted_cons, Signal.metrics_append, List.countP_append, ih,
      (cache.does_reply call).countP_miss, replies, List.countP_cons, Nat.add_comm]

theorem countP_insert_emitted (cache : Cache α) (calls : List (Call α)) :
    cache.size +
        (Signal.metrics (cache.emitted calls)).countP (·.name = Metric.expressionInsert.name) =
      (cache.after calls).size := by
  induction calls generalizing cache with
  | nil => rfl
  | cons call calls ih =>
    rw [emitted_cons, Signal.metrics_append, List.countP_append, ← Nat.add_assoc,
      (cache.does_reply call).countP_insert, ih, after_cons]

theorem fullNoticed_after (h : cache.fullNoticed = true) (calls : List (Call α)) :
    (cache.after calls).fullNoticed = true := by
  induction calls generalizing cache with
  | nil => exact h
  | cons call calls ih => exact ih ((cache.does_reply call).fullNoticed_of h)

/-- That a cache is full is told once. -/
theorem events_emitted (cache : Cache α) (calls : List (Call α)) :
    Signal.events (cache.emitted calls) =
      if cache.fullNoticed = false ∧ (cache.after calls).fullNoticed = true then
        [.cacheFull cache.limit]
      else [] := by
  induction calls generalizing cache with
  | nil => simp [emitted, replies, Signal.events]
  | cons call calls ih =>
    have hdoes := cache.does_reply call
    rw [emitted_cons, Signal.events_append, ih, hdoes.events_eq, hdoes.limit_eq, after_cons]
    cases hbefore : cache.fullNoticed with
    | true => simp [hdoes.fullNoticed_of hbefore]
    | false =>
      cases hnow : (cache.reply call).cache.fullNoticed with
      | true => simp [fullNoticed_after hnow calls]
      | false => simp

/-- One of the calls of a new cache overflows. -/
def Overflowed (limit : Nat) (calls : List (Call α)) : Prop :=
  ∃ before call, before ++ [call] <+: calls ∧ ((empty limit).after before).Overflows call

/-- That a cache is full is noticed when a call overflows. -/
theorem fullNoticed_after_iff (limit : Nat) (calls : List (Call α)) :
    ((empty limit).after calls).fullNoticed = true ↔ Overflowed limit calls := by
  induction calls using List.reverseRecOn with
  | nil => simp [Overflowed, empty]
  | append_singleton calls call ih =>
    have hsize := ((keeps_empty limit).after calls).size_le
    rw [after_append, after_cons, after_nil, (does_reply _ call).fullNoticed_iff hsize, ih]
    simp only [Overflowed, List.prefix_concat_iff]
    constructor
    · rintro (⟨before, other, hearlier, hoverflows⟩ | hoverflows)
      · exact ⟨before, other, .inr hearlier, hoverflows⟩
      · exact ⟨calls, call, .inl rfl, hoverflows⟩
    · rintro ⟨before, other, heq | hearlier, hoverflows⟩
      · obtain ⟨rfl, hcall⟩ := List.append_inj' heq rfl
        rw [List.singleton_inj.1 hcall] at hoverflows
        exact .inr hoverflows
      · exact .inl ⟨before, other, hearlier, hoverflows⟩

/-! ## A new cache -/

/-- After calls of a new cache, a call is the first one that overflows. -/
def IsFirstOverflow (limit : Nat) (calls : List (Call α)) (call : Call α) : Prop :=
  ((empty limit).after calls).Overflows call ∧ ¬Overflowed limit calls

/-- A call tells that the cache is full if it is the first one that overflows. -/
theorem events_reply (limit : Nat) (calls : List (Call α)) (call : Call α) :
    (IsFirstOverflow limit calls call →
      Signal.events (((empty limit).after calls).reply call).signals = [.cacheFull limit]) ∧
    (¬IsFirstOverflow limit calls call →
      Signal.events (((empty limit).after calls).reply call).signals = []) := by
  have hkeeps := (keeps_empty limit).after calls
  have hdoes := ((empty limit).after calls).does_reply call
  have hfirst : (((empty limit).after calls).fullNoticed = false ∧
      (((empty limit).after calls).reply call).cache.fullNoticed = true) ↔
        IsFirstOverflow limit calls call := by
    rw [hdoes.fullNoticed_iff hkeeps.size_le, IsFirstOverflow, ← fullNoticed_after_iff]
    cases ((empty limit).after calls).fullNoticed <;> simp
  rw [hdoes.events_eq, hkeeps.limit_eq]
  exact ⟨fun h => if_pos (hfirst.2 h), fun h => if_neg (mt hfirst.1 h)⟩

/-- What holds of a new cache with a limit after calls. -/
structure KeepsFirstFetches (limit : Nat) (calls : List (Call α)) (cache : Cache α) : Prop where
  keys_eq : cache.entries.map Prod.fst = (distinct (fetches calls)).take limit
  size_eq : cache.size = min limit (distinct (fetches calls)).length
  /-- An entry is what the text was compiled to when it was fetched first. -/
  get?_eq_some_iff : ∀ text value, cache.get? text = some value ↔
    text ∈ (distinct (fetches calls)).take limit ∧ (fetches calls).lookup text = some value
  /-- No entry is ever removed or replaced. -/
  remains : ∀ more, cache.entries <+: (cache.after more).entries
  /-- A look-up answers with the entry, and so does a fetch of a text that has one. The text is not
  compiled. -/
  stored : ∀ text, cache.reply (.get text) = ⟨cache.get? text, false, cache, []⟩ ∧
    ∀ value, cache.get? text = some value →
      ∀ compile, cache.reply (.fetch text compile) = ⟨some value, false, cache, []⟩
  /-- Any other text is compiled when it is fetched. -/
  compiled : ∀ text, cache.get? text = none → ∀ compile,
    (cache.reply (.fetch text compile)).value = some (compile text) ∧
      (cache.reply (.fetch text compile)).compiled = true
  misses : ∀ before,
    Signal.total Metric.expressionMiss.name (before ++ (empty limit).emitted calls) =
      Signal.total Metric.expressionMiss.name before +
        ((empty limit).replies calls).countP Reply.compiled
  inserts : ∀ before,
    Signal.total Metric.expressionInsert.name (before ++ (empty limit).emitted calls) =
      Signal.total Metric.expressionInsert.name before + cache.size
  /-- That the cache is full is told at most once, when a text is left out for the first time. -/
  events_eq : Signal.events ((empty limit).emitted calls) =
    if limit < (distinct (fetches calls)).length then [.cacheFull limit] else []
  tells_iff : ∀ call,
    (IsFirstOverflow limit calls call →
      Signal.events (cache.reply call).signals = [.cacheFull limit]) ∧
    (¬IsFirstOverflow limit calls call → Signal.events (cache.reply call).signals = [])

end Cache

/-- **A cache keeps what is fetched first**, up to its limit. -/
theorem cache_keeps_first_fetches {α : Type} (limit : Nat) (calls : List (Cache.Call α)) :
    Cache.KeepsFirstFetches limit calls ((Cache.empty limit).after calls) := by
  have hkeeps := (Cache.keeps_empty (α := α) limit).after calls
  rw [List.nil_append] at hkeeps
  have hmiss : Metric.expressionMiss.name ≠ Metric.installedName := by decide
  have hinsert : Metric.expressionInsert.name ≠ Metric.installedName := by decide
  constructor
  case keys_eq => exact hkeeps.keys_eq
  case size_eq => exact hkeeps.size_eq
  case get?_eq_some_iff => exact fun text value => hkeeps.get?_eq_some_iff
  case remains => exact fun more => Cache.entries_remain_after _ more
  case stored =>
    refine fun text => ⟨rfl, fun value hget compile => ?_⟩
    rw [Cache.reply, Cache.fetch, hget]
    rfl
  case compiled =>
    intro text hget compile
    have hdoes := ((Cache.empty limit).after calls).does_reply (.fetch text compile)
    generalize Cache.reply _ _ = reply at hdoes ⊢
    cases hdoes with
    | hits _ hfound => simp [hget] at hfound
    | _ => exact ⟨rfl, rfl⟩
  case misses =>
    intro before
    rw [Signal.total_append hmiss, Cache.countP_miss_emitted]
  case inserts =>
    intro before
    rw [Signal.total_append hinsert, ← Cache.countP_insert_emitted]
    simp [Cache.size, Cache.empty]
  case events_eq =>
    rw [Cache.events_emitted]
    simp only [hkeeps.fullNoticed_iff]
    simp [Cache.empty]
  case tells_iff => exact fun call => Cache.events_reply limit calls call

/-- Without room, each fetch compiles anew, and only the first one tells that the cache is full. -/
example : (Cache.empty 0).emitted [.fetch "$path" String.length, .fetch "$path" String.length] =
    [.metric .expressionMiss, .event (.cacheFull 0), .metric .expressionMiss] := rfl

/-! ## Evaluations -/

/-- The call by which an evaluation fetches the compiled expression of a text. -/
def Expression.call (names : NameTree String) (text : String) : Cache.Call Expression :=
  .fetch text (Expression.compile names)

/-- The expressions that an evaluation fetches are calls of the cache. -/
theorem EvaluationState.foldl_fetch (names : NameTree String) (state : EvaluationState)
    (texts : List String) :
    texts.foldl (fetch names) state =
      ⟨state.cache.after (texts.map (Expression.call names)),
        state.signals ++ state.cache.emitted (texts.map (Expression.call names))⟩ := by
  induction texts generalizing state with
  | nil => simp [Cache.emitted, Cache.replies]
  | cons text texts ih =>
    rw [List.foldl_cons, ih, List.map_cons, Cache.after_cons, Cache.emitted_cons,
      ← List.append_assoc]
    rfl

end HttpGateway
