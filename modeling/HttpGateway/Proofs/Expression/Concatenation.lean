import HttpGateway.Proofs.Expression.Boundaries
import HttpGateway.Proofs.Expression.Evaluation

/-!
# Evaluating texts one after the other

An evaluator knows the names of some variables and keeps a cache, which each evaluation leaves to
the next one (`Reached`). Whatever cache it has reached, a text has the value that it has without
one (`Reached.value_eq`), so evaluation distributes at the end of a name: the value of a text and of
what comes after it is the value of the one and then that of the other. What a text is read as
depends on the names only, and each reference in it is replaced by its value as it is, so a `$` in a
value means nothing.
-/

namespace HttpGateway

open Text Expression

/-- The caches of an evaluator for variables with the given names: the empty one at first, and then
whatever evaluating or compiling a text makes of a cache, for any request and any values. -/
inductive Reached (names : NameTree String) (limit : Nat) : Cache Expression → Prop
  | start : Reached names limit (.empty limit)
  | evaluate {cache : Cache Expression} (captured : List (String × String)) (request : Request)
    (text : String) : Reached names limit cache →
      Reached names limit
        (((⟨names, captured, request⟩ : Scope).evaluate text).runWith cache).2.cache
  | compile {cache : Cache Expression} (text : String) : Reached names limit cache →
      Reached names limit ((Expression.fetch names text).runWith cache).2.cache

/-- The value of a text, evaluated with a cache. -/
def Scope.valueWith (scope : Scope) (cache : Cache Expression) (text : String) : String :=
  ((scope.evaluate text).runWith cache).1

variable {names : List String} {tree : NameTree String} {limit : Nat} {cache : Cache Expression}

theorem Reached.faithful (h : Reached tree limit cache) :
    cache.Faithful (Expression.compile tree) := by
  induction h with
  | start => exact Cache.faithful_empty _ limit
  | evaluate captured request text _ ih =>
    exact (Scope.yields_evaluate ⟨tree, captured, request⟩ text).faithful_runWith ih
  | compile text _ ih => exact (Expression.yields_fetch tree text).faithful_runWith ih

/-- With every cache that is reached, a text has the value that it has without one. -/
theorem Reached.value_eq (h : Reached tree limit cache) (captured : List (String × String))
    (request : Request) (text : String) :
    (⟨tree, captured, request⟩ : Scope).valueWith cache text =
      (⟨tree, captured, request⟩ : Scope).plainValue text :=
  (Scope.yields_evaluate ⟨tree, captured, request⟩ text).value_runWith h.faithful

/-- A text without a `$` is made of characters only. -/
theorem Expression.atoms_of_dollar_notMem (tree : NameTree String) {text : List Char}
    (h : '$' ∉ text) : atoms tree text = text.map .char := by
  rw [atoms]
  induction text with
  | nil => rfl
  | cons c cs ih =>
    have hc : c ≠ '$' := fun heq => h (heq ▸ List.mem_cons_self)
    have hcs : '$' ∉ cs := fun hmem => h (List.mem_cons_of_mem c hmem)
    rw [atomsFrom, if_neg hc, ih hcs, List.map_cons]

theorem Scope.plainValue_of_dollar_notMem (scope : Scope) {text : String}
    (h : '$' ∉ text.toList) : scope.plainValue text = text := by
  apply String.toList_injective
  have hchar : ∀ c, atomValue scope (.char c) = [c] := fun _ => rfl
  rw [toList_plainValue, atoms_of_dollar_notMem scope.names h, List.flatMap_map]
  simp only [hchar, List.flatMap_singleton']

/-- Compiling a text reads it. -/
theorem Expression.isReading_compile (h : NameTree.ofNames names = .ok tree) (text : String) :
    IsReading names text.toList (compile tree text).parts := by
  have hatoms : (compile tree text).parts.flatMap Part.atoms = atoms tree text.toList :=
    flatMap_atoms_join _
  refine (isReading_iff h).2 ⟨isSeparated_join _, ?_⟩
  rw [hatoms]
  exact reads_atoms h text.toList

/-- **Evaluation distributes over what ends a name**, for every request, all values and any caches
that the evaluator has by then. A text without a `$` has itself as value. And a text is read once
for all requests and values, which are put in as they are. -/
theorem evaluation_distributes (htree : NameTree.ofNames names = .ok tree) (limit : Nat) :
    (∀ text rest : String, EndsName rest.toList → ∀ captured request whole first second,
      Reached tree limit whole → Reached tree limit first → Reached tree limit second →
        let scope : Scope := ⟨tree, captured, request⟩
        scope.valueWith whole (text ++ rest) =
          scope.valueWith first text ++ scope.valueWith second rest) ∧
    (∀ text : String, '$' ∉ text.toList → ∀ captured request cache, Reached tree limit cache →
      (⟨tree, captured, request⟩ : Scope).valueWith cache text = text) ∧
    ∀ text : String, ∃ parts, IsReading names text.toList parts ∧
      ∀ captured request cache, Reached tree limit cache →
        let scope : Scope := ⟨tree, captured, request⟩
        scope.valueWith cache text = String.join (parts.map (partValue scope)) := by
  refine ⟨?_, ?_, fun text => ?_⟩
  · intro text rest hrest captured request whole first second hwhole hfirst hsecond scope
    calc scope.valueWith whole (text ++ rest)
        = scope.plainValue (text ++ rest) := hwhole.value_eq captured request _
      _ = scope.plainValue text ++ scope.plainValue rest :=
        Scope.plainValue_append htree hrest text
      _ = scope.valueWith first text ++ scope.valueWith second rest := by
        rw [hfirst.value_eq captured request, hsecond.value_eq captured request]
  · intro text htext captured request cache hcache
    rw [hcache.value_eq captured request]
    exact Scope.plainValue_of_dollar_notMem _ htext
  · refine ⟨_, isReading_compile htree text, fun captured request cache hcache => ?_⟩
    exact hcache.value_eq captured request text

/-- The value of `id` is not expanded, neither in the whole text nor in its two parts, though the
cache has room for one text only. -/
theorem evaluation_distributes_dollar :
    ∃ tree, NameTree.ofNames ["id"] = .ok tree ∧
      let scope : Scope := ⟨tree, [("id", "$host")], { host := some "box" }⟩
      let later := ((scope.evaluate "a$id").runWith (.empty 1)).2.cache
      scope.valueWith later ("$host/$id" ++ "-$id$") =
          scope.valueWith (.empty 1) "$host/$id" ++ scope.valueWith later "-$id$" ∧
        scope.valueWith (.empty 1) "$host/$id" = "box/$host" ∧
        scope.valueWith later "-$id$" = "-$host$" := by
  obtain ⟨tree, htree⟩ : ∃ tree, NameTree.ofNames ["id"] = .ok tree := ⟨_, rfl⟩
  refine ⟨tree, htree, ?_, ?_, ?_⟩
  · have hstart : Reached tree 1 (.empty 1) := .start
    have hlater := hstart.evaluate [("id", "$host")] { host := some "box" } "a$id"
    exact (evaluation_distributes htree 1).1 "$host/$id" "-$id$" (by decide) _ _ _ _ _ hlater
      hstart hlater
  all_goals
    obtain rfl := Except.ok.inj htree
    decide +kernel

end HttpGateway
