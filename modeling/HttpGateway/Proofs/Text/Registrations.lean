import HttpGateway.Proofs.Text.NameTree

/-!
# Registering names

An attempt to register a name either gives it a value or is refused, and then the tree stays as it
is (`NameTree.attempt_eq_refused_iff`). So after any attempts the tree is the one of the accepted
ones (`ofAttempts_eq_foldl`): it counts their distinct names (`size_ofAttempts`), and at the start of
a text it finds the accepted names that are there, each with its latest value
(`registered_names_are_found`).
-/

namespace HttpGateway

open Text

variable {α : Type}

/-! ## The number of names -/

namespace Branches

theorem size_single (value : α) {name : List Char} (h : name ≠ []) :
    (single value name).size = 1 := by
  induction name with
  | nil => exact absurd rfl h
  | cons c name ih =>
    cases name with
    | nil => rfl
    | cons d name =>
      have hbelow : (single value (d :: name)).size = 1 := ih (List.cons_ne_nil d name)
      have hsingle : single value (c :: d :: name) =
          .branch c Option.none (single value (d :: name)) .none := rfl
      simp only [hsingle, size, hbelow, Option.toList_none, List.length_nil]

/-- Registering a name counts it, unless it has a value already. -/
theorem size_insert (branches : Branches α) (value : α) {name : List Char} (h : name ≠ []) :
    (branches.insert value name).size =
      branches.size + if (branches.get? name).isSome then 0 else 1 := by
  induction branches generalizing name with
  | none =>
    obtain ⟨c, name, rfl⟩ := List.exists_cons_of_ne_nil h
    have hinsert : (Branches.none : Branches α).insert value (c :: name) =
        single value (c :: name) := rfl
    rw [hinsert, size_single value h]
    rfl
  | branch d old below next ihbelow ihnext =>
    obtain ⟨c, name, rfl⟩ := List.exists_cons_of_ne_nil h
    by_cases hc : c = d
    · subst hc
      cases name with
      | nil =>
        cases old with
        | none =>
          simp only [insert, get?, size, if_true, Option.toList_some, Option.toList_none,
            Option.isSome_none, List.length_singleton, List.length_nil, Bool.false_eq_true,
            if_false]
          omega
        | some old => simp [insert, get?, size]
      | cons e name =>
        have hbelow := ihbelow (List.cons_ne_nil e name)
        simp only [insert, get?, size, hbelow, if_true, List.cons_ne_nil, if_false]
        omega
    · simp only [insert, get?, size, if_neg hc, ihnext h]
      omega

end Branches

namespace NameTree

variable {tree : NameTree α} {attempts : List (String × α)} {name : String} {value : α} {c : Char}

theorem size_insert (tree : NameTree α) (name : String) (value : α) :
    (tree.insert name value).size =
      tree.size + if (tree.get? name.toList).isSome then 0 else 1 := by
  rw [insert]
  split
  · next hname =>
    obtain ⟨old, branches⟩ := tree
    rw [hname]
    cases old with
    | none => simp [size, get?, Nat.add_comm]
    | some old => simp [size, get?]
  · next hname =>
    rw [get?_of_ne_nil tree hname]
    simp only [size, Branches.size_insert _ _ hname]
    omega

/-! ## Attempts -/

/-- Try to register a name: the tree afterwards, and the character that the name is refused for. -/
def attempt (tree : NameTree α) (entry : String × α) : NameTree α × Option Char :=
  match tree.add entry.1 entry.2 with
  | .ok tree => (tree, none)
  | .error c => (tree, some c)

/-- The tree after attempts, from no names on. -/
def ofAttempts (attempts : List (String × α)) : NameTree α :=
  attempts.foldl (fun tree entry => (tree.attempt entry).1) empty

/-- All characters may stand in a name. -/
def isUsable (name : String) : Bool := name.toList.all continuesName

/-- The first character that no name may hold. -/
def IsFirstUnusable (name : String) (c : Char) : Prop :=
  ∃ before after, name.toList = before ++ c :: after ∧
    (∀ d ∈ before, continuesName d = true) ∧ continuesName c = false

/-- The attempts with a name that may be registered. -/
def accepted (attempts : List (String × α)) : List (String × α) :=
  attempts.filter fun entry => isUsable entry.1

/-- The value of the latest accepted attempt with a name. -/
def latest? (attempts : List (String × α)) (name : String) : Option α :=
  ((accepted attempts).reverse.find? fun entry => entry.1 = name).map Prod.snd

theorem isUsable_iff : isUsable name = true ↔ ∀ c ∈ name.toList, continuesName c = true :=
  List.all_eq_true

theorem unusable?_eq_some_iff : unusable? name = some c ↔ IsFirstUnusable name c := by
  rw [unusable?, List.find?_eq_some_iff_append, IsFirstUnusable]
  simp only [Bool.not_eq_true', Bool.not_not]
  constructor
  · rintro ⟨hc, before, after, hname, hbefore⟩
    exact ⟨before, after, hname, hbefore, hc⟩
  · rintro ⟨before, after, hname, hbefore, hc⟩
    exact ⟨hc, before, after, hname, hbefore⟩

theorem attempt_of_isUsable (h : isUsable name = true) (tree : NameTree α) (value : α) :
    tree.attempt (name, value) = (tree.insert name value, none) := by
  have hadd : tree.add name value = .ok (tree.insert name value) :=
    add_eq_ok_iff.2 ⟨isUsable_iff.1 h, rfl⟩
  rw [attempt, hadd]

theorem exists_isFirstUnusable (h : isUsable name = false) : ∃ c, IsFirstUnusable name c := by
  cases hc : unusable? name with
  | some c => exact ⟨c, unusable?_eq_some_iff.1 hc⟩
  | none =>
    have hall : isUsable name = true := by
      simpa [unusable?, isUsable_iff] using hc
    rw [h] at hall
    cases hall

/-- **A name is refused for its first character that no name may hold**, and then the tree stays as
it is. -/
theorem attempt_eq_refused_iff :
    tree.attempt (name, value) = (tree, some c) ↔ IsFirstUnusable name c := by
  rw [← unusable?_eq_some_iff, attempt, add]
  cases unusable? name with
  | none => simp
  | some d => simp

theorem attempt_snd_eq_none_iff :
    (tree.attempt (name, value)).2 = none ↔ isUsable name = true := by
  refine ⟨fun h => ?_, fun h => by rw [attempt_of_isUsable h]⟩
  by_contra husable
  obtain ⟨c, hc⟩ := exists_isFirstUnusable (Bool.eq_false_iff.2 husable)
  rw [attempt_eq_refused_iff.2 hc] at h
  cases h

/-- Only the accepted attempts count. -/
theorem ofAttempts_eq_foldl (attempts : List (String × α)) :
    ofAttempts attempts =
      (accepted attempts).foldl (fun tree entry => tree.insert entry.1 entry.2) empty := by
  rw [ofAttempts]
  generalize (empty : NameTree α) = start
  induction attempts generalizing start with
  | nil => rfl
  | cons entry attempts ih =>
    obtain ⟨name, value⟩ := entry
    rw [List.foldl_cons, ih, accepted, accepted, List.filter_cons]
    cases husable : isUsable name with
    | true => rw [attempt_of_isUsable husable, if_pos rfl, List.foldl_cons]
    | false =>
      obtain ⟨c, hc⟩ := exists_isFirstUnusable husable
      rw [attempt_eq_refused_iff.2 hc, if_neg Bool.false_ne_true]

/-- A name has the value of its latest accepted attempt. -/
theorem get?_ofAttempts (attempts : List (String × α)) (name : String) :
    (ofAttempts attempts).get? name.toList = latest? attempts name := by
  rw [ofAttempts_eq_foldl, get?_foldl_insert Prod.fst Prod.snd, get?_empty, Option.or_none, latest?]
  simp only [String.toList_inj]

theorem isSome_latest?_iff :
    (latest? attempts name).isSome = true ↔ name ∈ (accepted attempts).map Prod.fst := by
  simp [latest?]

/-- The tree counts the distinct names that were accepted. -/
theorem size_ofAttempts (attempts : List (String × α)) :
    (ofAttempts attempts).size = ((accepted attempts).map Prod.fst).eraseDups.length := by
  induction attempts using List.reverseRecOn with
  | nil => rfl
  | append_singleton attempts entry ih =>
    obtain ⟨name, value⟩ := entry
    rw [ofAttempts, List.foldl_concat, ← ofAttempts, accepted, List.filter_append, ← accepted]
    cases husable : isUsable name with
    | false =>
      obtain ⟨c, hc⟩ := exists_isFirstUnusable husable
      simp [attempt_eq_refused_iff.2 hc, husable, ih]
    | true =>
      have hsome : ((ofAttempts attempts).get? name.toList).isSome = true ↔
          name ∈ (accepted attempts).map Prod.fst := by
        rw [get?_ofAttempts, isSome_latest?_iff]
      rw [attempt_of_isUsable husable, size_insert, ih]
      simp only [husable, List.filter_cons, List.filter_nil, List.map_append, List.eraseDups_append]
      by_cases hmem : name ∈ (accepted attempts).map Prod.fst
      · simp [hsome.2 hmem, List.removeAll, hmem]
      · simp [Bool.eq_false_iff.2 (mt hsome.1 hmem), List.removeAll, hmem, List.eraseDups_cons]

theorem isEmpty_ofAttempts_iff :
    (ofAttempts attempts).isEmpty = true ↔ accepted attempts = [] := by
  rw [isEmpty, beq_iff_eq, size_ofAttempts, List.length_eq_zero_iff]
  cases accepted attempts with
  | nil => simp
  | cons entry entries => simp [List.eraseDups_cons]

/-! ## What is found -/

/-- What is found at the start of a text are the names there that have a value. -/
theorem mem_matching_iff {text : List Char} {n : Nat} :
    (value, n) ∈ tree.matching text ↔
      ∃ name : String, name ≠ "" ∧ name.toList <+: text ∧ tree.get? name.toList = some value ∧
        n = name.utf8ByteSize := by
  rw [matching, List.mem_reverse, Branches.mem_matchingFrom_iff]
  constructor
  · rintro ⟨cs, hleads, hvalue, rfl⟩
    have hne : cs ≠ [] := by
      rintro rfl
      simp at hvalue
    refine ⟨String.ofList cs, by simpa using hne, by simpa using hleads, ?_, ?_⟩
    · rw [String.toList_ofList, get?_of_ne_nil tree hne, hvalue]
    · rw [utf8ByteSize_ofList, Nat.zero_add]
  · rintro ⟨name, hname, hleads, hvalue, rfl⟩
    have hne : name.toList ≠ [] := mt String.toList_eq_nil_iff.1 hname
    refine ⟨name.toList, hleads, ?_, ?_⟩
    · rw [← get?_of_ne_nil tree hne, hvalue]
    · rw [utf8Length_toList, Nat.zero_add]

/-- The longest name comes first, and none comes twice. -/
theorem pairwise_matching (tree : NameTree α) (text : List Char) :
    (tree.matching text).Pairwise fun m n => n.2 < m.2 :=
  List.pairwise_reverse.2 (Branches.pairwise_matchingFrom tree.branches 0 text)

theorem longest?_eq_head? (tree : NameTree α) (text : List Char) :
    tree.longest? text = (tree.matching text).head? := by
  rw [longest?_eq_getLast?, matching, List.head?_reverse]

/-- **A tree of names finds what was registered.** After any attempts, a name is refused for its
first character that no name may hold, and the tree then stays as it is; any other name is accepted.
The tree counts the distinct names accepted so far. At the start of a text it finds exactly the
accepted names there that are not empty, the longest first, each with its latest value and its
length in bytes, and the longest name is the first of them. -/
theorem registered_names_are_found (attempts : List (String × α)) :
    (∀ name value c, (ofAttempts attempts).attempt (name, value) = (ofAttempts attempts, some c) ↔
      IsFirstUnusable name c) ∧
    (∀ name value, ((ofAttempts attempts).attempt (name, value)).2 = none ↔
      isUsable name = true) ∧
    (ofAttempts attempts).size = ((accepted attempts).map Prod.fst).eraseDups.length ∧
    ((ofAttempts attempts).isEmpty = true ↔ accepted attempts = []) ∧
    ∀ text : String,
      (∀ value n, (value, n) ∈ (ofAttempts attempts).matching text.toList ↔
        ∃ name : String, name ≠ "" ∧ name.toList <+: text.toList ∧
          latest? attempts name = some value ∧ n = name.utf8ByteSize) ∧
      ((ofAttempts attempts).matching text.toList).Pairwise (fun m n => n.2 < m.2) ∧
      (ofAttempts attempts).longest? text.toList =
        ((ofAttempts attempts).matching text.toList).head? := by
  refine ⟨fun _ _ _ => attempt_eq_refused_iff, fun _ _ => attempt_snd_eq_none_iff,
    size_ofAttempts attempts, isEmpty_ofAttempts_iff, fun text => ⟨fun value n => ?_, ?_, ?_⟩⟩
  · simp only [mem_matching_iff, get?_ofAttempts]
  · exact pairwise_matching _ _
  · exact longest?_eq_head? _ _

/-- The empty name counts and is not found, and `a-b` is refused. -/
example :
    let tree := ofAttempts [("ab", 1), ("", 2), ("a", 3), ("a-b", 4), ("ab", 5)]
    tree.size = 3 ∧ tree.matching "abc".toList = [(5, 2), (3, 1)] ∧
      (tree.attempt ("a-b!", 6)).2 = some '-' := by
  decide

end NameTree

end HttpGateway
