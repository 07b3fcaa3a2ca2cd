import HttpGateway.Proofs.Pattern.Rules
import Mathlib.Data.List.Nodup

/-!
# What the rules decide

A rule says of a leaf, given the leaves before it, whether it is at fault (`LeafRule`): a capture
with the name of an earlier one (`repeated`), a capture with the name of a system variable
(`reserved`), a wildcard directly after a capture (`afterCapture`). A walk that enforces a rule
keeps in its state what the rule needs of the leaves before (`Enforces`), so it fails at the first
leaf at fault, wherever the optionals begin and end (`Enforces.decides`). Of the three rules the
first that is broken decides what becomes of the pattern (`Verdict`).
-/

namespace HttpGateway.Pattern

/-! ## Rules on leaves -/

/-- The fault of a leaf after the leaves before it, if it is at fault. -/
abbrev LeafRule := List Visit → Visit → Option PatternFault

/-- A capture with the name of an earlier one is at fault. -/
def repeated : LeafRule
  | before, .capture name => if .capture name ∈ before then some (.repeatedName name) else none
  | _, _ => none

/-- A capture with the name of a system variable is at fault. -/
def reserved : LeafRule
  | _, .capture name =>
    if ∃ v ∈ RequestAttribute.all, v.name = name then some (.reservedName name) else none
  | _, _ => none

/-- A wildcard directly after a capture is at fault. -/
def afterCapture : LeafRule
  | before, .wildcard =>
    match before.getLast? with
    | some (.capture _) => some .wildcardAfterCapture
    | _ => none
  | _, _ => none

namespace LeafRule

/-- No leaf is at fault. -/
def Kept (rule : LeafRule) (leaves : List Visit) : Prop :=
  ∀ before leaf after, leaves = before ++ leaf :: after → rule before leaf = none

/-- The fault of the first leaf at fault. -/
def FirstFault (rule : LeafRule) (leaves : List Visit) (fault : PatternFault) : Prop :=
  ∃ before leaf after, leaves = before ++ leaf :: after ∧ rule before leaf = some fault ∧
    rule.Kept before

/-- What a rule makes of leaves. -/
inductive Decides (rule : LeafRule) (leaves : List Visit) : Except PatternFault Unit → Prop
  | broken {fault : PatternFault} :
    rule.FirstFault leaves fault → Decides rule leaves (.error fault)
  | kept : rule.Kept leaves → Decides rule leaves (.ok ())

end LeafRule

/-- What becomes of a pattern with the given leaves: the first rule that is broken decides. -/
inductive Verdict (leaves : List Visit) : Except PatternFault Unit → Prop
  | repeated {fault : PatternFault} :
    LeafRule.FirstFault repeated leaves fault → Verdict leaves (.error fault)
  | reserved {fault : PatternFault} :
    LeafRule.Kept repeated leaves → LeafRule.FirstFault reserved leaves fault →
      Verdict leaves (.error fault)
  | afterCapture {fault : PatternFault} :
    LeafRule.Kept repeated leaves → LeafRule.Kept reserved leaves →
      LeafRule.FirstFault afterCapture leaves fault → Verdict leaves (.error fault)
  | accepted :
    LeafRule.Kept repeated leaves → LeafRule.Kept reserved leaves →
      LeafRule.Kept afterCapture leaves → Verdict leaves (.ok ())

section Rules

variable {rule : LeafRule} {leaves : List Visit} {leaf : Visit} {fault other : PatternFault}

/-- Of two places in a list, one comes before the other if they are not the same. -/
theorem place_cases {α : Type} {as bs cs ds : List α} {a c : α}
    (h : as ++ a :: bs = cs ++ c :: ds) :
    as = cs ∧ a = c ∨ (∃ more, cs = as ++ a :: more) ∨ ∃ more, as = cs ++ c :: more := by
  rcases List.append_eq_append_iff.1 h with ⟨more, rfl, hmore⟩ | ⟨more, rfl, hmore⟩
  · cases more with
    | nil =>
      obtain ⟨rfl, -⟩ := List.cons.inj hmore
      exact Or.inl ⟨(List.append_nil as).symm, rfl⟩
    | cons b more =>
      obtain ⟨rfl, -⟩ := List.cons.inj hmore
      exact Or.inr (Or.inl ⟨more, rfl⟩)
  · cases more with
    | nil =>
      obtain ⟨rfl, -⟩ := List.cons.inj hmore
      exact Or.inl ⟨List.append_nil cs, rfl⟩
    | cons b more =>
      obtain ⟨rfl, -⟩ := List.cons.inj hmore
      exact Or.inr (Or.inr ⟨more, rfl⟩)

namespace LeafRule

theorem kept_nil : rule.Kept [] := by
  intro before leaf after h
  exact absurd h.symm (List.append_ne_nil_of_right_ne_nil before (List.cons_ne_nil leaf after))

/-- Leaves that keep a rule do so with one more exactly if it is not at fault. -/
theorem kept_concat_iff :
    rule.Kept (leaves ++ [leaf]) ↔ rule.Kept leaves ∧ rule leaves leaf = none := by
  constructor
  · intro h
    refine ⟨fun before other after heq => ?_, h leaves leaf [] rfl⟩
    exact h before other (after ++ [leaf]) (by rw [heq, List.append_assoc, List.cons_append])
  · rintro ⟨h, hleaf⟩ before other after heq
    obtain ⟨rfl, rfl⟩ | ⟨more, rfl⟩ | ⟨more, rfl⟩ := place_cases heq
    · exact hleaf
    · simp at heq
    · exact h before other more rfl

theorem FirstFault.not_kept (h : rule.FirstFault leaves fault) : ¬rule.Kept leaves := by
  obtain ⟨before, leaf, after, rfl, hfault, -⟩ := h
  intro hkept
  have hnone := hkept before leaf after rfl
  simp [hfault] at hnone

theorem FirstFault.unique (h : rule.FirstFault leaves fault) (ho : rule.FirstFault leaves other) :
    fault = other := by
  obtain ⟨before, leaf, after, rfl, hfault, hkept⟩ := h
  obtain ⟨before', leaf', after', heq, hother, hkept'⟩ := ho
  obtain ⟨rfl, rfl⟩ | ⟨more, rfl⟩ | ⟨more, rfl⟩ := place_cases heq
  · exact Option.some.inj (hfault.symm.trans hother)
  · simp [hkept' before leaf more rfl] at hfault
  · simp [hkept before' leaf' more rfl] at hother

end LeafRule

/-- The leaves decide. -/
theorem Verdict.unique {outcome result : Except PatternFault Unit} (h : Verdict leaves outcome)
    (ho : Verdict leaves result) : outcome = result := by
  cases h with
  | repeated hfirst =>
    cases ho with
    | repeated hother => exact congrArg _ (hfirst.unique hother)
    | reserved hkept => exact absurd hkept hfirst.not_kept
    | afterCapture hkept => exact absurd hkept hfirst.not_kept
    | accepted hkept => exact absurd hkept hfirst.not_kept
  | reserved hunique hfirst =>
    cases ho with
    | repeated hother => exact absurd hunique hother.not_kept
    | reserved _ hother => exact congrArg _ (hfirst.unique hother)
    | afterCapture _ hkept => exact absurd hkept hfirst.not_kept
    | accepted _ hkept => exact absurd hkept hfirst.not_kept
  | afterCapture hunique hunreserved hfirst =>
    cases ho with
    | repeated hother => exact absurd hunique hother.not_kept
    | reserved _ hother => exact absurd hunreserved hother.not_kept
    | afterCapture _ _ hother => exact congrArg _ (hfirst.unique hother)
    | accepted _ _ hkept => exact absurd hkept hfirst.not_kept
  | accepted hunique hunreserved hseparated =>
    cases ho with
    | repeated hother => exact absurd hunique hother.not_kept
    | reserved _ hother => exact absurd hunreserved hother.not_kept
    | afterCapture _ _ hother => exact absurd hseparated hother.not_kept
    | accepted => rfl

end Rules

/-! ## Walks that enforce a rule -/

/-- An action enforces a rule: its state knows what the rule needs of the leaves before, it fails at
a leaf with its fault, and it does not see the borders of an optional. -/
structure Enforces {σ : Type} (visit : Visit → Checking σ Unit) (knows : List Visit → σ → Prop)
    (rule : LeafRule) : Prop where
  border : ∀ {v : Visit} (s : σ), v.isLeaf = false → (visit v).run s = .ok ((), s)
  broken : ∀ {before : List Visit} {v : Visit} {s : σ} {fault : PatternFault}, knows before s →
    rule before v = some fault → (visit v).run s = .error fault
  kept : ∀ {before : List Visit} {v : Visit} {s : σ}, knows before s → v.isLeaf = true →
    rule before v = none → ∃ t, (visit v).run s = .ok ((), t) ∧ knows (before ++ [v]) t

section Enforces

variable {σ : Type} {visit : Visit → Checking σ Unit} {knows : List Visit → σ → Prop}
  {rule : LeafRule} {before : List Visit} {s : σ}

/-- After leaves that keep the rule, visits fail with the first fault, if there is one. -/
theorem Enforces.decides_forM (h : Enforces visit knows rule) (hs : knows before s)
    (hbefore : rule.Kept before) (vs : List Visit) :
    rule.Decides (before ++ vs.filter Visit.isLeaf) ((forM vs visit).run' s) := by
  -- A leaf that is not at fault joins those before it; the border of an optional does not.
  induction vs generalizing before s with
  | nil =>
    rw [List.filter_nil, List.append_nil]
    exact .kept hbefore
  | cons v vs ih =>
    rw [List.forM_cons, StateT.run'_eq, StateT.run_bind]
    cases hleaf : v.isLeaf with
    | false =>
      rw [List.filter_cons_of_neg (by simp [hleaf]), h.border s hleaf]
      exact ih hs hbefore
    | true =>
      rw [List.filter_cons_of_pos hleaf]
      cases hfault : rule before v with
      | some fault =>
        rw [h.broken hs hfault]
        exact .broken ⟨before, v, vs.filter Visit.isLeaf, rfl, hfault, hbefore⟩
      | none =>
        obtain ⟨t, hrun, ht⟩ := h.kept hs hleaf hfault
        rw [hrun, List.append_cons]
        exact ih ht (LeafRule.kept_concat_iff.2 ⟨hbefore, hfault⟩)

/-- **A walk that enforces a rule fails with the fault of the first leaf at fault.** -/
theorem Enforces.decides (h : Enforces visit knows rule) {start : σ} (hstart : knows [] start)
    (p : Pattern) : rule.Decides p.leaves ((walk visit p).run' start) := by
  rw [walk_eq_forM]
  exact h.decides_forM hstart LeafRule.kept_nil p.visits

end Enforces

/-! ## The three rules -/

theorem eq_enter_or_leave {v : Visit} (h : v.isLeaf = false) : v = .enter ∨ v = .leave := by
  cases v with
  | enter => exact Or.inl rfl
  | leave => exact Or.inr rfl
  | _ => cases h

/-- A name is refused exactly if it is one of those so far. -/
theorem run_visitUnique_capture (name : String) (seen : List String) :
    (visitUnique (.capture name)).run seen =
      if seen.contains name then .error (.repeatedName name) else .ok ((), name :: seen) := by
  rw [visitUnique]
  cases hseen : seen.contains name <;>
    simp only [StateT.run_bind, StateT.run_get, pure_bind, hseen] <;> rfl

/-- The state holds the names of the captures before. -/
theorem enforces_visitUnique :
    Enforces visitUnique (fun before seen => ∀ name, name ∈ seen ↔ .capture name ∈ before)
      repeated := by
  constructor
  case border =>
    intro v s hv
    rcases eq_enter_or_leave hv with rfl | rfl <;> rfl
  case broken =>
    intro before v seen fault hseen hfault
    cases v with
    | capture name =>
      rw [repeated, Option.ite_none_right_eq_some] at hfault
      obtain ⟨hname, hfault⟩ := hfault
      rw [run_visitUnique_capture, if_pos (List.contains_iff_mem.2 ((hseen name).2 hname)),
        Option.some.inj hfault]
    | _ => cases hfault
  case kept =>
    intro before v seen hseen hv hkept
    cases v with
    | capture name =>
      rw [repeated, ite_eq_right_iff] at hkept
      have hname : ¬seen.contains name = true := fun h =>
        nomatch hkept ((hseen name).1 (List.contains_iff_mem.1 h))
      rw [run_visitUnique_capture, if_neg hname]
      refine ⟨name :: seen, rfl, fun other => ?_⟩
      rw [List.mem_cons, List.mem_append, List.mem_singleton, hseen other, or_comm,
        Visit.capture.injEq]
    | enter => cases hv
    | leave => cases hv
    | _ =>
      refine ⟨seen, rfl, fun other => ?_⟩
      rw [hseen other, List.mem_append, List.mem_singleton]
      simp

/-- The rule on reserved names needs to know nothing of the leaves before. -/
theorem enforces_visitUnreserved :
    Enforces visitUnreserved (fun _ _ => True) reserved := by
  have hisName : ∀ name, RequestAttribute.isName name = true ↔
      ∃ v ∈ RequestAttribute.all, v.name = name := by
    intro name
    simp [RequestAttribute.isName]
  constructor
  case border =>
    intro v s hv
    rcases eq_enter_or_leave hv with rfl | rfl <;> rfl
  case broken =>
    intro before v s fault _ hfault
    cases v with
    | capture name =>
      rw [reserved, Option.ite_none_right_eq_some] at hfault
      obtain ⟨hname, hfault⟩ := hfault
      rw [visitUnreserved, if_pos ((hisName name).2 hname), ← Option.some.inj hfault]
      rfl
    | _ => cases hfault
  case kept =>
    intro before v s _ _ hkept
    cases v with
    | capture name =>
      rw [reserved, ite_eq_right_iff] at hkept
      have hname : ¬RequestAttribute.isName name = true := fun h =>
        nomatch hkept ((hisName name).1 h)
      rw [visitUnreserved, if_neg hname]
      exact ⟨s, rfl, trivial⟩
    | _ => exact ⟨s, rfl, trivial⟩

/-- The state tells whether the last leaf was a capture. -/
theorem enforces_visitSeparated :
    Enforces visitSeparated
      (fun before taken => taken = true ↔ ∃ name, before.getLast? = some (.capture name))
      afterCapture := by
  constructor
  case border =>
    intro v s hv
    rcases eq_enter_or_leave hv with rfl | rfl <;> rfl
  case broken =>
    intro before v s fault hs hfault
    cases v with
    | wildcard =>
      rw [afterCapture] at hfault
      split at hfault
      · next name hlast =>
        rw [hs.2 ⟨name, hlast⟩, ← Option.some.inj hfault]
        rfl
      · cases hfault
    | _ => cases hfault
  case kept =>
    intro before v s hs hv hkept
    cases v with
    | wildcard =>
      rw [afterCapture] at hkept
      have hstate : s = false := by
        rw [← Bool.not_eq_true, hs]
        rintro ⟨name, hlast⟩
        simp [hlast] at hkept
      subst hstate
      exact ⟨false, rfl, by simp⟩
    | enter => cases hv
    | leave => cases hv
    | capture name => exact ⟨true, rfl, by simp⟩
    | literal text => exact ⟨false, rfl, by simp⟩
    | separator => exact ⟨false, rfl, by simp⟩

theorem verdict_check (p : Pattern) : Verdict p.leaves p.check := by
  have hunique : LeafRule.Decides repeated p.leaves p.checkUnique :=
    enforces_visitUnique.decides (by simp) p
  have hunreserved : LeafRule.Decides reserved p.leaves p.checkUnreserved :=
    enforces_visitUnreserved.decides trivial p
  have hseparated : LeafRule.Decides afterCapture p.leaves p.checkSeparated :=
    enforces_visitSeparated.decides (by simp) p
  rw [check]
  generalize p.checkUnique = unique at hunique
  generalize p.checkUnreserved = unreserved at hunreserved
  generalize p.checkSeparated = separated at hseparated
  cases hunique with
  | broken hfirst => exact .repeated hfirst
  | kept hunique =>
  cases hunreserved with
  | broken hfirst => exact .reserved hunique hfirst
  | kept hunreserved =>
  cases hseparated with
  | broken hfirst => exact .afterCapture hunique hunreserved hfirst
  | kept hseparated => exact .accepted hunique hunreserved hseparated

/-- **The leaves decide, by the three rules in their order.** -/
theorem check_eq_iff_verdict (p : Pattern) (outcome : Except PatternFault Unit) :
    p.check = outcome ↔ Verdict p.leaves outcome :=
  ⟨fun h => h ▸ verdict_check p, (verdict_check p).unique⟩

/-- A repeated name comes before a reserved one, and the borders of an optional separate nothing. -/
example :
    check (.sequence [.capture "host", .optional (.capture "host"), .wildcard]) =
        .error (.repeatedName "host") ∧
      check (.sequence [.optional (.capture "a"), .optional .wildcard]) =
        .error .wildcardAfterCapture ∧
      check (.sequence [.capture "a", .literal "", .wildcard]) = .ok () :=
  ⟨rfl, rfl, rfl⟩

/-! ## What the rules ensure -/

section Accepted

variable {p : Pattern} {fault : PatternFault}

theorem filterMap_captured?_leaves (p : Pattern) :
    p.leaves.filterMap Visit.captured? = p.captureNames := by
  rw [captureNames_eq_filterMap, leaves, List.filterMap_filter]
  refine congrArg (List.filterMap · _) (funext fun v => ?_)
  cases v <;> rfl

/-- Captures whose names are not repeated have different names. -/
theorem LeafRule.Kept.nodup {leaves : List Visit} (h : LeafRule.Kept repeated leaves) :
    (leaves.filterMap Visit.captured?).Nodup := by
  induction leaves using List.reverseRecOn with
  | nil => exact List.nodup_nil
  | append_singleton leaves leaf ih =>
    obtain ⟨hkept, hleaf⟩ := kept_concat_iff.1 h
    rw [List.filterMap_append]
    cases leaf with
    | capture name =>
      rw [repeated, ite_eq_right_iff] at hleaf
      have hfresh : name ∉ leaves.filterMap Visit.captured? := by
        intro hname
        obtain ⟨v, hv, hcaptured⟩ := List.mem_filterMap.1 hname
        cases v with
        | capture earlier =>
          obtain rfl := Option.some.inj hcaptured
          exact nomatch hleaf hv
        | _ => cases hcaptured
      rw [show [Visit.capture name].filterMap Visit.captured? = [name] from rfl,
        ← List.concat_eq_append]
      exact List.Nodup.concat hfresh (ih hkept)
    | _ =>
      change (leaves.filterMap Visit.captured? ++ []).Nodup
      rw [List.append_nil]
      exact ih hkept

/-- The captures of a pattern that keeps the rules have different names. -/
theorem nodup_captureNames_of_check (h : p.check = .ok ()) : p.captureNames.Nodup := by
  have hverdict := verdict_check p
  rw [h] at hverdict
  cases hverdict with
  | accepted hunique =>
    rw [← filterMap_captured?_leaves]
    exact hunique.nodup

/-- A capture of a pattern that keeps the rules does not have the name of a system variable. -/
theorem isName_eq_false_of_check (h : p.check = .ok ()) :
    ∀ name ∈ p.captureNames, RequestAttribute.isName name = false := by
  have hverdict := verdict_check p
  rw [h] at hverdict
  intro name hname
  rw [← filterMap_captured?_leaves] at hname
  obtain ⟨leaf, hleaf, hcaptured⟩ := List.mem_filterMap.1 hname
  cases hverdict with
  | accepted _ hunreserved =>
    cases leaf with
    | capture other =>
      obtain rfl := Option.some.inj hcaptured
      obtain ⟨before, after, heq⟩ := List.append_of_mem hleaf
      have hnone := hunreserved before _ after heq
      rw [reserved, ite_eq_right_iff] at hnone
      rw [← Bool.not_eq_true, RequestAttribute.isName_iff]
      rintro ⟨v, hv⟩
      exact nomatch hnone ⟨v, RequestAttribute.mem_all v, hv⟩
    | _ => cases hcaptured

/-- A rule that is broken names no place of the text. -/
theorem offset?_of_check (h : p.check = .error fault) : fault.offset? = none := by
  have hverdict := verdict_check p
  rw [h] at hverdict
  cases hverdict with
  | repeated hfirst =>
    obtain ⟨before, leaf, after, -, hfault, -⟩ := hfirst
    cases leaf with
    | capture name =>
      rw [repeated, Option.ite_none_right_eq_some] at hfault
      rw [← Option.some.inj hfault.2]
      rfl
    | _ => cases hfault
  | reserved _ hfirst =>
    obtain ⟨before, leaf, after, -, hfault, -⟩ := hfirst
    cases leaf with
    | capture name =>
      rw [reserved, Option.ite_none_right_eq_some] at hfault
      rw [← Option.some.inj hfault.2]
      rfl
    | _ => cases hfault
  | afterCapture _ _ hfirst =>
    obtain ⟨before, leaf, after, -, hfault, -⟩ := hfirst
    cases leaf with
    | wildcard =>
      rw [afterCapture] at hfault
      split at hfault
      · rw [← Option.some.inj hfault]
        rfl
      · cases hfault
    | _ => cases hfault

end Accepted

end HttpGateway.Pattern
