import HttpGateway.Signal
import Mathlib.Data.List.Basic
import Mathlib.Data.List.Count

/-!
# What signals add up to

A counter grows by the number of its updates (`total_append`), and the gauge of installed routes has
the value that it was set to last (`gauge?_append_set`). Metrics other than the updated one keep
their total (`total?_append_of_forall`). Totals are kept by name in a list of pairs, as the gateway
keeps whatever it looks up by a name or key: the first pair with the key counts.
-/

namespace HttpGateway

/-! ## Looking up in pairs -/

section Pairs

variable {α β γ : Type} [DecidableEq α]

theorem lookup_cons_eq (key a : α) (b : β) (pairs : List (α × β)) :
    ((a, b) :: pairs).lookup key = if key = a then some b else pairs.lookup key := by
  rw [List.lookup_cons]
  by_cases h : key = a
  · rw [if_pos h, beq_iff_eq.2 h]
  · rw [if_neg h, beq_false_of_ne h]

theorem mem_of_lookup {key : α} {value : β} {pairs : List (α × β)}
    (h : pairs.lookup key = some value) : (key, value) ∈ pairs := by
  obtain ⟨earlier, later, rfl, -⟩ := List.lookup_eq_some_iff.1 h
  exact List.mem_append_right earlier List.mem_cons_self

/-- Where no key occurs twice, every pair is found. -/
theorem lookup_of_mem {key : α} {value : β} {pairs : List (α × β)}
    (hnodup : (pairs.map Prod.fst).Nodup) (h : (key, value) ∈ pairs) :
    pairs.lookup key = some value := by
  induction pairs with
  | nil => cases h
  | cons pair pairs ih =>
    rw [List.map_cons, List.nodup_cons] at hnodup
    rw [lookup_cons_eq]
    rcases List.mem_cons.1 h with rfl | h
    · exact if_pos rfl
    · rw [if_neg, ih hnodup.2 h]
      rintro rfl
      exact hnodup.1 (List.mem_map.2 ⟨_, h, rfl⟩)

theorem lookup_eq_none_iff_notMem {key : α} {pairs : List (α × β)} :
    pairs.lookup key = none ↔ key ∉ pairs.map Prod.fst := by
  rw [List.lookup_eq_none_iff, List.mem_map]
  simp only [bne_iff_ne, ne_eq, not_exists, not_and, @eq_comm _ key]

theorem lookup_map_snd (f : β → γ) (key : α) (pairs : List (α × β)) :
    (pairs.map fun pair => (pair.1, f pair.2)).lookup key = (pairs.lookup key).map f := by
  induction pairs with
  | nil => rfl
  | cons pair pairs ih =>
    rw [List.map_cons, lookup_cons_eq, lookup_cons_eq, ih]
    split <;> rfl

end Pairs

/-! ## Metrics -/

namespace Metric

/-- The name of the gauge of installed routes. -/
def installedName : String := "gateway_routes_installed"

/-- Every metric but the gauge is a counter. -/
theorem update_of_name_ne {m : Metric} (h : m.name ≠ installedName) (total : Nat) :
    m.update total = total + 1 := by
  cases m with
  | routesInstalled => exact absurd rfl h
  | _ => rfl

theorem name_resolution_ne_installedName (outcome : Outcome) :
    (resolution outcome).name ≠ installedName := by
  cases outcome <;> decide

/-- Outcomes are counted apart. -/
theorem name_resolution_inj {outcome other : Outcome} :
    (resolution outcome).name = (resolution other).name ↔ outcome = other := by
  constructor
  · intro h
    cases outcome <;> cases other <;> first | rfl | exact absurd h (by decide)
  · rintro rfl
    rfl

end Metric

namespace Signal

variable {before after : List Signal} {name : String}

@[simp] theorem metrics_nil : metrics [] = [] := rfl

@[simp] theorem metrics_append (before after : List Signal) :
    metrics (before ++ after) = metrics before ++ metrics after := List.filterMap_append

@[simp] theorem events_append (before after : List Signal) :
    events (before ++ after) = events before ++ events after := List.filterMap_append

@[simp] theorem metrics_cons_metric (m : Metric) (signals : List Signal) :
    metrics (.metric m :: signals) = m :: metrics signals := rfl

@[simp] theorem metrics_cons_event (e : Event) (signals : List Signal) :
    metrics (.event e :: signals) = metrics signals := rfl

/-! ## Totals -/

/-- What the updates of a metric add up to, if there are any. -/
def total? (name : String) (signals : List Signal) : Option Nat := (totals signals).lookup name

/-- What the updates of a metric add up to. -/
def total (name : String) (signals : List Signal) : Nat := (total? name signals).getD 0

/-- The value to which the gauge of installed routes was set last. -/
def gauge? (signals : List Signal) : Option Nat := total? Metric.installedName signals

theorem lookup_addTotal (m : Metric) (totals : List (String × Nat)) (name : String) :
    (addTotal m totals).lookup name =
      if name = m.name then some (m.update ((totals.lookup name).getD 0))
      else totals.lookup name := by
  induction totals with
  | nil => rw [addTotal, lookup_cons_eq]; rfl
  | cons entry totals ih =>
    obtain ⟨other, total⟩ := entry
    rw [addTotal]
    split
    · next hother =>
      subst hother
      simp only [lookup_cons_eq]
      split <;> rfl
    · next hother =>
      simp only [lookup_cons_eq, ih]
      split
      · next hname => rw [if_neg (hname ▸ hother)]
      · rfl

/-- Signals are added up one update after the other. -/
theorem total?_append (name : String) (before after : List Signal) :
    total? name (before ++ after) =
      (metrics after).foldl
        (fun total m => if name = m.name then some (m.update (total.getD 0)) else total)
        (total? name before) := by
  rw [total?, total?, totals, metrics_append, List.foldl_append, ← totals]
  generalize totals before = start
  induction metrics after generalizing start with
  | nil => rfl
  | cons m ms ih => rw [List.foldl_cons, List.foldl_cons, ih, lookup_addTotal]

/-- Signals in which a metric is not updated keep its total. -/
theorem total?_append_of_forall (h : ∀ m ∈ metrics after, m.name ≠ name) :
    total? name (before ++ after) = total? name before := by
  rw [total?_append]
  generalize metrics after = ms at h
  induction ms with
  | nil => rfl
  | cons m ms ih =>
    rw [List.forall_mem_cons] at h
    rw [List.foldl_cons, if_neg (Ne.symm h.1), ih h.2]

/-- A counter grows by the number of its updates. -/
theorem total_append (hname : name ≠ Metric.installedName) (before after : List Signal) :
    total name (before ++ after) =
      total name before + (metrics after).countP fun m => m.name = name := by
  rw [total, total, total?_append]
  generalize total? name before = start
  induction metrics after generalizing start with
  | nil => rfl
  | cons m ms ih =>
    rw [List.foldl_cons, ih, List.countP_cons]
    by_cases hm : m.name = name
    · subst hm
      rw [if_pos rfl, Metric.update_of_name_ne hname, Option.getD_some, decide_eq_true rfl,
        if_pos rfl]
      omega
    · rw [if_neg (Ne.symm hm), decide_eq_false hm]
      rfl

/-- The gauge has the value that it was set to, whatever came before. -/
theorem gauge?_append_set (before : List Signal) {after : List Signal} {earlier : List Metric}
    {count : Nat} (h : metrics after = earlier ++ [.routesInstalled count]) :
    gauge? (before ++ after) = some count := by
  rw [gauge?, total?_append, h, List.foldl_append]
  rfl

end Signal

end HttpGateway
