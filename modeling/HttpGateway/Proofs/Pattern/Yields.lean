import HttpGateway.Proofs.Metrics
import HttpGateway.Proofs.Pattern.Rules
import HttpGateway.Proofs.Pattern.Splits

/-!
# What a split yields

A split yields a text for each capture of the pattern and a suffix (`Split.Yields`): a capture that
takes part has the text that it took, any other is empty, and the suffix is what the border leaves.
The names of a pattern being different, a split yields one thing only (`Split.Yields.unique`).
-/

namespace HttpGateway.Pattern

/-! ## The captures of the core -/

theorem exists_withoutFirstSeparator (items : List Pattern) :
    ∃ front, items = front ++ withoutFirstSeparator items ∧
      (front = [] ∨ front = [.separator]) := by
  unfold withoutFirstSeparator
  split
  · exact ⟨[.separator], rfl, Or.inr rfl⟩
  · exact ⟨[], rfl, Or.inl rfl⟩

theorem exists_withoutLastSeparator (items : List Pattern) :
    ∃ back, items = withoutLastSeparator items ++ back ∧ (back = [] ∨ back = [.separator]) := by
  unfold withoutLastSeparator
  split
  · next hlast =>
    obtain ⟨front, rfl⟩ := List.getLast?_eq_some_iff.1 hlast
    exact ⟨[.separator], by simp, Or.inr rfl⟩
  · exact ⟨[], by simp, Or.inl rfl⟩

/-- The core leaves out at most one separator at either end. -/
theorem exists_items_eq_core (p : Pattern) :
    ∃ front back, p.items = front ++ (p.core ++ back) ∧ (front = [] ∨ front = [.separator]) ∧
      (back = [] ∨ back = [.separator]) := by
  obtain ⟨front, hitems, hfront⟩ := exists_withoutFirstSeparator p.items
  obtain ⟨back, hrest, hback⟩ := exists_withoutLastSeparator (withoutFirstSeparator p.items)
  exact ⟨front, back, hitems.trans (congrArg (front ++ ·) hrest), hfront, hback⟩

/-- The separators that the core leaves out capture nothing. -/
theorem captureNamesAll_core (p : Pattern) : captureNamesAll p.core = p.captureNames := by
  obtain ⟨front, back, hitems, hfront, hback⟩ := exists_items_eq_core p
  rw [← captureNamesAll_items p, hitems, captureNamesAll_append, captureNamesAll_append]
  rcases hfront with rfl | rfl <;> rcases hback with rfl | rfl <;>
    simp [captureNamesAll, captureNames]

/-! ## What a split yields -/

/-- What a split yields for the captures with the given names: a capture that takes part has the
text that it takes, any other is empty, and the suffix is what the border leaves. -/
structure Split.Yields (split : Split) (names : List String) (found : MatchedPath) : Prop where
  suffix_eq : found.suffix = String.ofList split.suffix
  names_eq : found.captured.map Prod.fst = names
  taken : ∀ name text, (name, text) ∈ split.body.captured →
    (name, String.ofList text) ∈ found.captured
  missing : ∀ name ∈ names, name ∉ split.body.captured.map Prod.fst →
    (name, "") ∈ found.captured

/-- The text of a capture in a split, empty if it takes no part. -/
def Split.textOf (split : Split) (name : String) : String :=
  String.ofList ((split.body.captured.lookup name).getD [])

variable {split : Split} {names : List String}

theorem Split.textOf_of_mem {name : String} {text : List Char}
    (hnodup : (split.body.captured.map Prod.fst).Nodup)
    (h : (name, text) ∈ split.body.captured) : split.textOf name = String.ofList text := by
  rw [textOf, lookup_of_mem hnodup h]
  rfl

theorem Split.textOf_of_not_mem {name : String}
    (h : name ∉ split.body.captured.map Prod.fst) : split.textOf name = "" := by
  rw [textOf, lookup_eq_none_iff_notMem.2 h]
  rfl

/-- A split whose captures are among the names, in order, yields a text for each of them. -/
theorem Split.yields (hnodup : names.Nodup)
    (hsub : (split.body.captured.map Prod.fst).Sublist names) :
    split.Yields names
      ⟨names.map fun name => (name, split.textOf name), String.ofList split.suffix⟩ := by
  refine ⟨rfl, by simp [Function.comp_def], fun name text h => ?_, fun name hname h => ?_⟩
  · have hname := hsub.subset (List.mem_map_of_mem h)
    rw [← Split.textOf_of_mem (hsub.nodup hnodup) h]
    exact List.mem_map.2 ⟨name, hname, rfl⟩
  · rw [← Split.textOf_of_not_mem h]
    exact List.mem_map.2 ⟨name, hname, rfl⟩

/-- Pairs with given names, each found among the pairs, are all of them. -/
theorem eq_map_of_mem {captured : List (String × String)} {text : String → String}
    (hnames : captured.map Prod.fst = names) (hnodup : names.Nodup)
    (h : ∀ name ∈ names, (name, text name) ∈ captured) :
    captured = names.map fun name => (name, text name) := by
  subst hnames
  rw [List.map_map]
  refine (List.map_id captured).symm.trans (List.map_congr_left fun pair hpair => ?_)
  have hmem := h pair.1 (List.mem_map_of_mem hpair)
  have htext := (lookup_of_mem hnodup hmem).symm.trans (lookup_of_mem hnodup hpair)
  exact Prod.ext rfl (Option.some.inj htext).symm

/-- A split yields one thing only. -/
theorem Split.Yields.unique {found : MatchedPath} (h : split.Yields names found)
    (hnodup : names.Nodup) (hsub : (split.body.captured.map Prod.fst).Sublist names) :
    found = ⟨names.map fun name => (name, split.textOf name), String.ofList split.suffix⟩ := by
  have hcaptured : found.captured = names.map fun name => (name, split.textOf name) := by
    refine eq_map_of_mem h.names_eq hnodup fun name hname => ?_
    by_cases hmem : name ∈ split.body.captured.map Prod.fst
    · obtain ⟨⟨_, text⟩, hpair, rfl⟩ := List.mem_map.1 hmem
      rw [Split.textOf_of_mem (hsub.nodup hnodup) hpair]
      exact h.taken _ text hpair
    · rw [Split.textOf_of_not_mem hmem]
      exact h.missing name hname hmem
  cases found
  simp only [MatchedPath.mk.injEq]
  exact ⟨hcaptured, h.suffix_eq⟩

theorem IsSplit.sublist_captureNames {pattern : Pattern} {path : List Char}
    (h : IsSplit pattern.core path split) :
    (split.body.captured.map Prod.fst).Sublist pattern.captureNames := by
  rw [← captureNamesAll_core pattern]
  exact h.body.sublist_captureNames

end HttpGateway.Pattern
