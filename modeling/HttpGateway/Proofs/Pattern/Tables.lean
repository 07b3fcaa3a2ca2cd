import HttpGateway.Proofs.Pattern.Search

/-!
# The table of a matcher

The matcher fills its table from the end of the pattern to its start. When the table that it starts
from holds a way to match at each place of the path (`Table.tabulate`), the table that it ends with
holds at each place the first instance after which there is such a way (`table_tabulate`). So the
table has the answers of a search with backtracking.
-/

namespace HttpGateway.Pattern

open Text

namespace Table

variable {α β : Type}

/-- The table with a given way to match at each place of a path. -/
def tabulate (way : List Char → Option α) : List Char → Table α
  | [] => [way []]
  | c :: cs => way (c :: cs) :: tabulate way cs

@[simp] theorem first_tabulate (way : List Char → Option α) (cs : List Char) :
    (tabulate way cs).first = way cs := by
  cases cs <;> rfl

@[simp] theorem rest_tabulate (way : List Char → Option α) (c : Char) (cs : List Char) :
    (tabulate way (c :: cs)).rest = tabulate way cs := rfl

theorem orElse_tabulate (way other : List Char → Option α) (cs : List Char) :
    (tabulate way cs).orElse (tabulate other cs) =
      tabulate (fun cs => (way cs).or (other cs)) cs := by
  induction cs with
  | nil => rfl
  | cons c cs ih => exact congrArg (_ :: ·) ih

theorem map_tabulate (f : α → β) (way : List Char → Option α) (cs : List Char) :
    (tabulate way cs).map (·.map f) = tabulate (fun cs => (way cs).map f) cs := by
  induction cs with
  | nil => rfl
  | cons c cs ih => exact congrArg (_ :: ·) ih

end Table

open Table

variable {path : List Char} {way : List Char → Option Finish}

/-! ## One table for each kind of item -/

/-- The border at a place: a `/` or the end of the path. -/
def borderAt : List Char → Option Finish
  | [] => some ⟨[], []⟩
  | c :: cs => if c = '/' then some ⟨[], cs⟩ else none

theorem borderTable_eq_tabulate (path : List Char) :
    borderTable path = tabulate borderAt path := by
  induction path with
  | nil => rfl
  | cons c cs ih => exact congrArg (_ :: ·) ih

theorem afterLiteral_tabulate (text cs : List Char) :
    afterLiteral text cs (tabulate way cs) =
      (literalText text cs).bind fun (_, rest) => way rest := by
  induction text generalizing cs with
  | nil => simp [afterLiteral, literalText]
  | cons l ls ih =>
    cases cs with
    | nil => rfl
    | cons c cs =>
      simp only [tabulate, afterLiteral, literalText]
      split
      · rw [ih cs]
        cases literalText ls cs <;> rfl
      · rfl

theorem literalTable_tabulate (text : List Char) :
    literalTable text path (tabulate way path) =
      tabulate (fun cs => (literalText text cs).bind fun (_, rest) => way rest) path := by
  induction path with
  | nil => simp only [literalTable, tabulate, ← afterLiteral_tabulate]
  | cons c cs ih =>
    rw [literalTable, rest_tabulate, ih, afterLiteral_tabulate]
    rfl

/-- A separator, then a way to go on. -/
def afterSeparator (way : List Char → Option Finish) : List Char → Option Finish
  | [] => none
  | c :: cs => if c = '/' then way cs else none

theorem separatorTable_tabulate :
    separatorTable path (tabulate way path) = tabulate (afterSeparator way) path := by
  induction path with
  | nil => rfl
  | cons c cs ih =>
    rw [separatorTable, rest_tabulate, ih, first_tabulate]
    rfl

/-- The longest segment after which there is a way to go on. -/
def firstSegment (way : List Char → Option Finish) (cs : List Char) :
    Option (List Char × Finish) :=
  (segmentTexts cs).findSome? fun (w, rest) => (way rest).map (w, ·)

theorem firstSegment_cons {c : Char} (hc : c ≠ '/') (cs : List Char) :
    firstSegment way (c :: cs) =
      ((firstSegment way cs).map fun found => (c :: found.1, found.2)).or
        ((way cs).map fun finish => ([c], finish)) := by
  have hlonger : (segmentTexts cs).findSome? (fun (w, rest) => (way rest).map (c :: w, ·)) =
      (firstSegment way cs).map fun found => (c :: found.1, found.2) := by
    rw [firstSegment, List.map_findSome?]
    simp [Function.comp_def]
  rw [firstSegment, segmentTexts, if_neg hc, List.findSome?_append, List.findSome?_map]
  simp only [Function.comp_def, hlonger, List.findSome?_singleton]

theorem segmentTable_tabulate :
    segmentTable path (tabulate way path) = tabulate (firstSegment way) path := by
  induction path with
  | nil => rfl
  | cons c cs ih =>
    rw [segmentTable, rest_tabulate, ih, first_tabulate, first_tabulate, tabulate]
    by_cases hc : c = '/'
    · rw [if_pos hc, firstSegment, segmentTexts, if_pos hc]
      rfl
    · rw [if_neg hc, firstSegment_cons hc]
      cases firstSegment way cs <;> rfl

/-! ## The table of a pattern -/

/-- Captures before those of the rest of the match. -/
def Finish.prepend (captured : List (String × List Char)) (finish : Finish) : Finish :=
  { finish with captured := captured ++ finish.captured }

@[simp] theorem Finish.prepend_nil (finish : Finish) : finish.prepend [] = finish := rfl

theorem Finish.prepend_prepend (captured later : List (String × List Char)) (finish : Finish) :
    (finish.prepend later).prepend captured = finish.prepend (captured ++ later) := by
  simp [Finish.prepend]

/-- The first of the instances after which there is a way to go on. -/
def firstInstance (way : List Char → Option Finish) (is : List (Instance × List Char)) :
    Option Finish :=
  is.findSome? fun (i, rest) => (way rest).map (·.prepend i.captured)

theorem firstInstance_segmentTexts (captured : List Char → List (String × List Char))
    (cs : List Char) :
    firstInstance way
        ((segmentTexts cs).map fun (w, rest) => (⟨w, [.segment w], captured w⟩, rest)) =
      (firstSegment way cs).map fun (w, finish) => finish.prepend (captured w) := by
  rw [firstInstance, firstSegment, List.findSome?_map, List.map_findSome?]
  simp [Function.comp_def]

/-- Instances with another instance before them. -/
theorem firstInstance_append (i : Instance) (js : List (Instance × List Char)) :
    firstInstance way (js.map fun (j, rest) => (i ++ j, rest)) =
      (firstInstance way js).map (·.prepend i.captured) := by
  rw [firstInstance, firstInstance, List.findSome?_map, List.map_findSome?]
  simp [Function.comp_def, Finish.prepend_prepend]

theorem firstInstance_flatMap {α : Type} (as : List α) (f : α → List (Instance × List Char)) :
    firstInstance way (as.flatMap f) = as.findSome? fun a => firstInstance way (f a) := by
  rw [firstInstance, ← List.head?_filterMap, List.filterMap_flatMap, List.head?_flatMap]
  simp only [List.head?_filterMap]
  rfl

mutual

theorem table_tabulate : ∀ (p : Pattern) (way : List Char → Option Finish),
    table path p (tabulate way path) =
      tabulate (fun cs => firstInstance way (instances p cs)) path
  | .literal text, way => by
    rw [table, literalTable_tabulate]
    congr 1
    funext cs
    rw [instances]
    cases literalText text.toList cs <;> simp [firstInstance]
  | .separator, way => by
    rw [table, separatorTable_tabulate]
    congr 1
    funext cs
    cases cs with
    | nil => rfl
    | cons c cs =>
      rw [instances, afterSeparator]
      split <;> simp [firstInstance]
  | .capture name, way => by
    rw [table, segmentTable_tabulate, map_tabulate]
    congr 1
    funext cs
    rw [instances, firstInstance_segmentTexts fun w => [(name, w)]]
    rfl
  | .wildcard, way => by
    rw [table, segmentTable_tabulate, map_tabulate]
    congr 1
    funext cs
    rw [instances, firstInstance_segmentTexts fun _ => []]
    rfl
  | .optional child, way => by
    rw [table, table_tabulate child way, orElse_tabulate]
    congr 1
    funext cs
    simp [instances, firstInstance, List.findSome?_append, List.findSome?_map, Function.comp_def]
  | .sequence children, way => tableAll_tabulate children way

theorem tableAll_tabulate : ∀ (ps : List Pattern) (way : List Char → Option Finish),
    tableAll path ps (tabulate way path) =
      tabulate (fun cs => firstInstance way (instancesAll ps cs)) path
  | [], way => by
    rw [tableAll]
    congr 1
    funext cs
    simp [instancesAll, firstInstance]
  | p :: ps, way => by
    rw [tableAll, tableAll_tabulate ps way, table_tabulate p]
    congr 1
    funext cs
    rw [instancesAll, firstInstance_flatMap]
    simp only [firstInstance_append]
    rfl

end

end HttpGateway.Pattern
