import HttpGateway.Pattern.Visit
import Mathlib.Data.List.Basic
import Mathlib.Data.List.Chain

/-!
# The rules on captures

A walk runs its action at each visit, in order (`walk_eq_forM`), so what a rule says of a pattern is
what it says of the visits. No rule sees a separator at either end (`check_eq_of_visits`).

The leaves of a pattern are what a walk meets, without the borders of the optionals: all of these
count as present. `Delimited` tells of leaves that every capture and wildcard among them ends at a
separator or at the end.
-/

namespace HttpGateway

namespace Visit

/-- The name of a capture. -/
def captured? : Visit → Option String
  | .capture name => some name
  | _ => none

/-- What a walk meets is a leaf unless it is the border of an optional. -/
def isLeaf : Visit → Bool
  | .enter => false
  | .leave => false
  | _ => true

/-- The leaf stands for one or more characters of a segment. -/
def takesSegment : Visit → Bool
  | .capture _ => true
  | .wildcard => true
  | _ => false

/-- Every capture and wildcard is followed by a separator or by nothing. -/
def Delimited (leaves : List Visit) : Prop :=
  leaves.IsChain fun leaf next => leaf.takesSegment = true → next = .separator

instance (leaves : List Visit) : Decidable (Delimited leaves) :=
  inferInstanceAs (Decidable (leaves.IsChain _))

end Visit

namespace Pattern

/-! ## Walks -/

section Walk

variable {m : Type → Type} [Monad m] [LawfulMonad m]

mutual

/-- A walk runs its action at each visit, in order. -/
theorem walk_eq_forM (visit : Visit → m Unit) : ∀ p : Pattern,
    walk visit p = forM (visits p) visit
  | .literal _ => by simp [walk, visits]
  | .separator => by simp [walk, visits]
  | .capture _ => by simp [walk, visits]
  | .wildcard => by simp [walk, visits]
  | .optional child => by
    rw [walk, visits, walk_eq_forM visit child, List.forM_cons, List.forM_append]
    simp
  | .sequence children => by rw [walk, visits, walkAll_eq_forM visit children]

theorem walkAll_eq_forM (visit : Visit → m Unit) : ∀ ps : List Pattern,
    walkAll visit ps = forM (visitsAll ps) visit
  | [] => rfl
  | p :: ps => by
    rw [walkAll, visitsAll, walk_eq_forM visit p, walkAll_eq_forM visit ps, List.forM_append]

end

end Walk

mutual

/-- The captures are met in order. -/
theorem captureNames_eq_filterMap : ∀ p : Pattern,
    p.captureNames = (visits p).filterMap Visit.captured?
  | .literal _ => rfl
  | .separator => rfl
  | .capture _ => rfl
  | .wildcard => rfl
  | .optional child => by
    rw [captureNames, visits, captureNames_eq_filterMap child]
    simp [List.filterMap_cons, Visit.captured?]
  | .sequence children => by rw [captureNames, visits, captureNamesAll_eq_filterMap children]

theorem captureNamesAll_eq_filterMap : ∀ ps : List Pattern,
    captureNamesAll ps = (visitsAll ps).filterMap Visit.captured?
  | [] => rfl
  | p :: ps => by
    rw [captureNamesAll, visitsAll, captureNames_eq_filterMap p, captureNamesAll_eq_filterMap ps,
      List.filterMap_append]

end

/-! ## The visits of items in order -/

theorem visitsAll_items (p : Pattern) : visitsAll p.items = visits p := by
  cases p <;> simp [items, visitsAll, visits]

theorem visitsAll_append (ps qs : List Pattern) :
    visitsAll (ps ++ qs) = visitsAll ps ++ visitsAll qs := by
  induction ps with
  | nil => rfl
  | cons p ps ih => rw [List.cons_append, visitsAll, visitsAll, ih, List.append_assoc]

theorem captureNamesAll_items (p : Pattern) : captureNamesAll p.items = p.captureNames := by
  rw [captureNamesAll_eq_filterMap, visitsAll_items, ← captureNames_eq_filterMap]

theorem captureNamesAll_append (ps qs : List Pattern) :
    captureNamesAll (ps ++ qs) = captureNamesAll ps ++ captureNamesAll qs := by
  rw [captureNamesAll_eq_filterMap, visitsAll_append, List.filterMap_append,
    ← captureNamesAll_eq_filterMap, ← captureNamesAll_eq_filterMap]

/-! ## Leaves -/

/-- The leaves of a pattern, in order. -/
def leaves (p : Pattern) : List Visit := (visits p).filter Visit.isLeaf

/-- The leaves of patterns one after the other. -/
def leavesAll (ps : List Pattern) : List Visit := (visitsAll ps).filter Visit.isLeaf

/-- The borders of an optional are no leaves. -/
theorem leaves_optional (child : Pattern) : leaves (.optional child) = leaves child := by
  rw [leaves, visits, List.filter_cons_of_neg (by decide), List.filter_append,
    List.filter_cons_of_neg (by decide), List.filter_nil, List.append_nil, leaves]

theorem leavesAll_cons (p : Pattern) (ps : List Pattern) :
    leavesAll (p :: ps) = leaves p ++ leavesAll ps := by
  rw [leavesAll, visitsAll, List.filter_append, leaves, leavesAll]

/-! ## Separators at the ends -/

section Separators

variable {σ : Type} {visit : Visit → Checking σ Unit} {start : σ} {vs : List Visit}

/-- A separator at the start means nothing to a rule that it tells what is known from the start. -/
theorem run'_forM_separator_cons (h : (visit .separator).run start = .ok ((), start)) :
    (forM (.separator :: vs) visit).run' start = (forM vs visit).run' start := by
  rw [StateT.run'_eq, List.forM_cons, StateT.run_bind, h]
  rfl

/-- A separator at the end means nothing to a rule that accepts it. -/
theorem run'_forM_concat_separator (h : ∀ s, ∃ t, (visit .separator).run s = .ok ((), t)) :
    (forM (vs ++ [.separator]) visit).run' start = (forM vs visit).run' start := by
  rw [StateT.run'_eq, StateT.run'_eq, List.forM_append, StateT.run_bind]
  cases (forM vs visit).run start with
  | error fault => rfl
  | ok outcome =>
    obtain ⟨t, ht⟩ := h outcome.2
    have hlast : (forM [.separator] visit).run outcome.2 = .ok ((), t) := by
      rw [List.forM_cons, StateT.run_bind, ht]
      rfl
    change Prod.fst <$> (forM [.separator] visit).run outcome.2 = _
    rw [hlast]
    rfl

/-- The rules do not see a separator at either end. -/
theorem check_eq_of_visits {p q : Pattern} {front back : List Visit}
    (hfront : front = [] ∨ front = [.separator]) (hback : back = [] ∨ back = [.separator])
    (h : visits p = front ++ visits q ++ back) : p.check = q.check := by
  have hall : ∀ {σ : Type} (visit : Visit → Checking σ Unit) (start : σ),
      (visit .separator).run start = .ok ((), start) →
      (∀ s, ∃ t, (visit .separator).run s = .ok ((), t)) →
      (walk visit p).run' start = (walk visit q).run' start := by
    intro σ visit start hstart hnever
    rw [walk_eq_forM, walk_eq_forM, h]
    rcases hback with rfl | rfl
    · rcases hfront with rfl | rfl
      · rw [List.append_nil, List.nil_append]
      · rw [List.append_nil, List.singleton_append, run'_forM_separator_cons hstart]
    · rw [run'_forM_concat_separator hnever]
      rcases hfront with rfl | rfl
      · rw [List.nil_append]
      · rw [List.singleton_append, run'_forM_separator_cons hstart]
  rw [check, check, checkUnique, checkUnreserved, checkSeparated, checkUnique, checkUnreserved,
    checkSeparated, hall visitUnique [] rfl fun s => ⟨s, rfl⟩,
    hall visitUnreserved () rfl fun s => ⟨s, rfl⟩,
    hall visitSeparated false rfl fun _ => ⟨false, rfl⟩]

end Separators

end Pattern

end HttpGateway
