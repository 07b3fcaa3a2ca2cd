import HttpGateway.Text.NameTree
import Mathlib.Data.List.Infix

/-!
# What a tree of names holds

All that a look-up tells of a tree of names is which value each name has (`NameTree.get?`).
Registering a name gives it a value and leaves the others alone (`get?_insert`); the names found at
the start of a text are the prefixes of the text that have a value (`Branches.mem_matchingFrom_iff`),
and `longest?` finds the longest of them (`exists_of_longest?`).
-/

namespace HttpGateway

open Text

namespace Text

theorem utf8Length_pos {cs : List Char} (h : cs ≠ []) : 0 < utf8Length cs := by
  obtain ⟨c, cs, rfl⟩ := List.exists_cons_of_ne_nil h
  have hc := c.utf8Size_pos
  rw [utf8Length_cons]
  omega

/-- Of two texts that a third one starts with, the one with more characters has more bytes. -/
theorem length_le_of_utf8Length_le {cs ds text : List Char} (hcs : cs <+: text)
    (hds : ds <+: text) (h : utf8Length cs ≤ utf8Length ds) : cs.length ≤ ds.length := by
  by_contra hlt
  obtain ⟨more, rfl⟩ := List.prefix_of_prefix_length_le hds hcs (by omega)
  have hmore : more ≠ [] := by
    rintro rfl
    simp at hlt
  have hpos := utf8Length_pos hmore
  rw [utf8Length_append] at h
  omega

theorem utf8Size_of_continuesName {c : Char} (h : continuesName c = true) : c.utf8Size = 1 := by
  have hrange : ∀ {low high : UInt32}, high ≤ 127 →
      (decide (low ≤ c.val) && decide (c.val ≤ high)) = true → c.val ≤ 127 := by
    intro low high hhigh hc
    rw [Bool.and_eq_true, decide_eq_true_iff, decide_eq_true_iff] at hc
    exact UInt32.le_trans hc.2 hhigh
  change ((c.isUpper || c.isLower) || c.isDigit || c == '_') = true at h
  rw [Bool.or_eq_true, Bool.or_eq_true, Bool.or_eq_true, beq_iff_eq] at h
  rw [Char.utf8Size_eq_one_iff]
  obtain ((hupper | hlower) | hdigit) | rfl := h
  · exact UInt32.le_trans (of_decide_eq_true hupper).2 (by decide)
  · exact hrange (by decide) hlower
  · exact hrange (by decide) hdigit
  · decide

/-- Characters that may stand in a name take one byte each. -/
theorem utf8Length_eq_length {cs : List Char} (h : ∀ c ∈ cs, continuesName c = true) :
    utf8Length cs = cs.length := by
  induction cs with
  | nil => rfl
  | cons c cs ih =>
    rw [List.forall_mem_cons] at h
    rw [utf8Length_cons, utf8Size_of_continuesName h.1, ih h.2, List.length_cons, Nat.add_comm]

end Text

/-! ## Branches -/

namespace Branches

variable {α : Type}

/-- The value of a name that is not empty. -/
def get? : Branches α → List Char → Option α
  | .none, _ => Option.none
  | .branch .., [] => Option.none
  | .branch d value below next, c :: cs =>
    if c = d then if cs = [] then value else below.get? cs else next.get? (c :: cs)

@[simp] theorem get?_nil (branches : Branches α) : branches.get? [] = Option.none := by
  cases branches <;> rfl

theorem get?_single (value : α) (name key : List Char) :
    (single value name).get? key = if key = name ∧ name ≠ [] then some value else Option.none := by
  induction name generalizing key with
  | nil => simp [single, get?]
  | cons c name ih =>
    cases key with
    | nil => simp
    | cons d key =>
      cases name with
      | nil =>
        by_cases hd : d = c <;> by_cases hkey : key = [] <;> simp [single, get?, hd, hkey]
      | cons e name =>
        by_cases hd : d = c <;> by_cases hkey : key = [] <;> simp [single, get?, hd, hkey, ih]

/-- Registering a name changes the value of this name only. -/
theorem get?_insert (branches : Branches α) (value : α) {name : List Char} (hname : name ≠ [])
    (key : List Char) :
    (branches.insert value name).get? key =
      if key = name then some value else branches.get? key := by
  induction branches generalizing name key with
  | none =>
    obtain ⟨c, name, rfl⟩ := List.exists_cons_of_ne_nil hname
    simp [insert, get?_single, get?]
  | branch d old below next ihbelow ihnext =>
    obtain ⟨c, name, rfl⟩ := List.exists_cons_of_ne_nil hname
    cases key with
    | nil => simp
    | cons e key =>
      by_cases hc : c = d
      · subst hc
        cases name with
        | nil => by_cases he : e = c <;> by_cases hkey : key = [] <;> simp [insert, get?, he, hkey]
        | cons f name =>
          by_cases he : e = c <;> by_cases hkey : key = [] <;>
            simp [insert, get?, he, hkey, ihbelow]
      · by_cases he : e = d
        · subst he
          simp [insert, get?, hc, Ne.symm hc]
        · simp [insert, get?, hc, he, ihnext]

/-- The names found at the start of a text are its prefixes that have a value. -/
theorem mem_matchingFrom_iff {branches : Branches α} {covered n : Nat} {text : List Char}
    {value : α} :
    (value, n) ∈ branches.matchingFrom covered text ↔
      ∃ name, name <+: text ∧ branches.get? name = some value ∧ n = covered + utf8Length name := by
  induction branches generalizing covered text with
  | none => simp [matchingFrom, get?]
  | branch d old below next ihbelow ihnext =>
    cases text with
    | nil => simp [matchingFrom]
    | cons c cs =>
      by_cases hc : c = d
      · subst hc
        rw [matchingFrom, if_pos rfl, List.mem_append, ihbelow, Option.mem_toList]
        refine ⟨fun h => ?_, fun h => ?_⟩
        · rcases h with h | ⟨name, hname, hvalue, rfl⟩
          · obtain ⟨w, rfl, hw⟩ := Option.map_eq_some_iff.1 h
            obtain ⟨rfl, rfl⟩ := Prod.mk.inj hw
            exact ⟨[c], by simp, by simp [get?], by simp⟩
          · have hne : name ≠ [] := by
              rintro rfl
              simp at hvalue
            refine ⟨c :: name, by simpa using hname, by simpa [get?, hne] using hvalue, ?_⟩
            rw [utf8Length_cons, Nat.add_assoc]
        · obtain ⟨name, hname, hvalue, rfl⟩ := h
          cases name with
          | nil => simp at hvalue
          | cons e name =>
            obtain ⟨rfl, hrest⟩ := List.cons_prefix_cons.1 hname
            by_cases hnil : name = []
            · subst hnil
              exact Or.inl (by simpa [get?] using hvalue)
            · refine Or.inr ⟨name, hrest, by simpa [get?, hnil] using hvalue, ?_⟩
              rw [utf8Length_cons, Nat.add_assoc]
      · rw [matchingFrom, if_neg hc, ihnext]
        refine exists_congr fun name => and_congr_right fun hname => ?_
        cases name with
        | nil => simp
        | cons e name =>
          obtain ⟨rfl, -⟩ := List.cons_prefix_cons.1 hname
          simp [get?, hc]

/-- The longest name found is the last of all that are found. -/
theorem longestFrom_eq (branches : Branches α) (covered : Nat) (best : Option (α × Nat))
    (text : List Char) :
    branches.longestFrom covered best text =
      (branches.matchingFrom covered text).getLast?.or best := by
  induction branches generalizing covered best text with
  | none => cases text <;> simp [longestFrom, matchingFrom]
  | branch d old below next ihbelow ihnext =>
    cases text with
    | nil => simp [longestFrom, matchingFrom]
    | cons c cs =>
      by_cases hc : c = d
      · rw [longestFrom, if_pos hc, matchingFrom, if_pos hc, ihbelow, List.getLast?_append,
          Option.or_assoc]
        cases old <;> rfl
      · rw [longestFrom, if_neg hc, matchingFrom, if_neg hc, ihnext]

theorem lt_of_mem_matchingFrom {branches : Branches α} {covered : Nat} {text : List Char}
    {found : α × Nat} (h : found ∈ branches.matchingFrom covered text) : covered < found.2 := by
  obtain ⟨name, -, hvalue, hn⟩ := mem_matchingFrom_iff.1 h
  have hne : name ≠ [] := by
    rintro rfl
    simp at hvalue
  have hpos := utf8Length_pos hne
  omega

/-- The names found come with the shortest first. -/
theorem pairwise_matchingFrom (branches : Branches α) (covered : Nat) (text : List Char) :
    (branches.matchingFrom covered text).Pairwise fun m n => m.2 < n.2 := by
  induction branches generalizing covered text with
  | none => cases text <;> simp [matchingFrom]
  | branch d old below next ihbelow ihnext =>
    cases text with
    | nil => simp [matchingFrom]
    | cons c cs =>
      by_cases hc : c = d
      · rw [matchingFrom, if_pos hc]
        refine List.pairwise_append.2 ⟨by cases old <;> simp, ihbelow _ _, fun m hm n hn => ?_⟩
        have hlt := lt_of_mem_matchingFrom hn
        obtain ⟨w, -, rfl⟩ := Option.map_eq_some_iff.1 (Option.mem_toList.1 hm)
        exact hlt
      · rw [matchingFrom, if_neg hc]
        exact ihnext _ _

end Branches

/-! ## Trees -/

namespace NameTree

variable {α : Type}

/-- The value of a name. -/
def get? (tree : NameTree α) : List Char → Option α
  | [] => tree.empty?
  | name => tree.branches.get? name

theorem get?_of_ne_nil (tree : NameTree α) {name : List Char} (h : name ≠ []) :
    tree.get? name = tree.branches.get? name := by
  obtain ⟨c, name, rfl⟩ := List.exists_cons_of_ne_nil h
  rfl

@[simp] theorem get?_empty (name : List Char) : (empty : NameTree α).get? name = none := by
  cases name <;> rfl

/-- Registering a name changes the value of this name only. -/
theorem get?_insert (tree : NameTree α) (name : String) (value : α) (key : List Char) :
    (tree.insert name value).get? key =
      if key = name.toList then some value else tree.get? key := by
  rw [insert]
  split
  · next hname => cases key <;> simp [get?, hname]
  · next hname =>
    cases key with
    | nil => rw [if_neg (Ne.symm hname)]; rfl
    | cons c key => exact Branches.get?_insert _ _ hname _

/-- Of several registrations of a name, the last one counts. -/
theorem get?_foldl_insert {β : Type} (name : β → String) (value : β → α) (entries : List β)
    (tree : NameTree α) (key : List Char) :
    (entries.foldl (fun tree entry => tree.insert (name entry) (value entry)) tree).get? key =
      ((entries.reverse.find? fun entry => (name entry).toList = key).map value).or
        (tree.get? key) := by
  induction entries generalizing tree with
  | nil => simp
  | cons entry entries ih =>
    rw [List.foldl_cons, ih, get?_insert, List.reverse_cons, List.find?_append, Option.map_or,
      Option.or_assoc]
    by_cases hkey : (name entry).toList = key
    · simp [hkey]
    · simp [hkey, Ne.symm hkey]

/-- A registered name that is not empty, at the start of a text. -/
structure IsFound (tree : NameTree α) (text name : List Char) : Prop where
  ne_nil : name ≠ []
  leads : name <+: text
  registered : tree.get? name ≠ none

theorem isFound_iff {tree : NameTree α} {text name : List Char} :
    tree.IsFound text name ↔ name <+: text ∧ ∃ value, tree.branches.get? name = some value := by
  rw [← Option.ne_none_iff_exists']
  refine ⟨fun h => ⟨h.leads, tree.get?_of_ne_nil h.ne_nil ▸ h.registered⟩, fun h => ?_⟩
  have hne : name ≠ [] := by
    rintro rfl
    simp at h
  exact ⟨hne, h.1, (tree.get?_of_ne_nil hne).symm ▸ h.2⟩

theorem longest?_eq_getLast? (tree : NameTree α) (text : List Char) :
    tree.longest? text = (tree.branches.matchingFrom 0 text).getLast? := by
  rw [longest?, Branches.longestFrom_eq, Option.or_none]

/-- Nothing is found exactly if no registered name is at the start of the text. -/
theorem longest?_eq_none_iff {tree : NameTree α} {text : List Char} :
    tree.longest? text = none ↔ ∀ name, ¬tree.IsFound text name := by
  rw [longest?_eq_getLast?, List.getLast?_eq_none_iff, List.eq_nil_iff_forall_not_mem]
  simp only [Prod.forall, Branches.mem_matchingFrom_iff, isFound_iff]
  exact ⟨fun h name ⟨hname, value, hvalue⟩ => h value _ ⟨name, hname, hvalue, rfl⟩,
    fun h value _ ⟨name, hname, hvalue, _⟩ => h name ⟨hname, value, hvalue⟩⟩

/-- **What is found is the longest registered name at the start of the text**, with its value and
its length in bytes. -/
theorem exists_of_longest? {tree : NameTree α} {text : List Char} {value : α} {n : Nat}
    (h : tree.longest? text = some (value, n)) :
    ∃ name, tree.IsFound text name ∧ tree.get? name = some value ∧ n = utf8Length name ∧
      ∀ other, tree.IsFound text other → other.length ≤ name.length := by
  rw [longest?_eq_getLast?, List.getLast?_eq_some_iff] at h
  obtain ⟨shorter, hall⟩ := h
  have hlast : (value, n) ∈ tree.branches.matchingFrom 0 text := by simp [hall]
  obtain ⟨name, hname, hvalue, hn⟩ := Branches.mem_matchingFrom_iff.1 hlast
  have hfound : tree.IsFound text name := isFound_iff.2 ⟨hname, value, hvalue⟩
  rw [Nat.zero_add] at hn
  refine ⟨name, hfound, (tree.get?_of_ne_nil hfound.ne_nil).trans hvalue, hn, fun other hother => ?_⟩
  obtain ⟨hleads, w, hw⟩ := isFound_iff.1 hother
  have hmem : (w, utf8Length other) ∈ tree.branches.matchingFrom 0 text :=
    Branches.mem_matchingFrom_iff.2 ⟨other, hleads, hw, (Nat.zero_add _).symm⟩
  have hsorted := Branches.pairwise_matchingFrom tree.branches 0 text
  rw [hall] at hmem hsorted
  have hbytes : utf8Length other ≤ utf8Length name := by
    rcases List.mem_append.1 hmem with hshort | hlong
    · have hlt := (List.pairwise_append.1 hsorted).2.2 _ hshort _ (List.mem_singleton.2 rfl)
      exact hn ▸ hlt.le
    · exact hn ▸ (Prod.mk.inj (List.mem_singleton.1 hlong)).2.le
  exact length_le_of_utf8Length_le hleads hname hbytes

/-! ## Trees of names that stand for themselves -/

theorem add_eq_ok_iff {tree tree' : NameTree α} {name : String} {value : α} :
    tree.add name value = .ok tree' ↔
      (∀ c ∈ name.toList, continuesName c = true) ∧ tree' = tree.insert name value := by
  rw [add]
  cases hname : unusable? name with
  | none =>
    have hgood : ∀ c ∈ name.toList, continuesName c = true := by simpa [unusable?] using hname
    exact ⟨fun h => ⟨hgood, (Except.ok.inj h).symm⟩, fun h => congrArg _ h.2.symm⟩
  | some c =>
    refine ⟨nofun, fun h => ?_⟩
    have hbad := List.find?_some hname
    simp [h.1 c (List.mem_of_find?_eq_some hname)] at hbad

/-- Names make a tree exactly if all their characters may stand in a name. -/
theorem ofNames_eq_ok_iff {names : List String} {tree : NameTree String} :
    ofNames names = .ok tree ↔
      (∀ name ∈ names, ∀ c ∈ name.toList, continuesName c = true) ∧
        tree = names.foldl (fun tree name => tree.insert name name) empty := by
  rw [ofNames]
  generalize (empty : NameTree String) = start
  induction names generalizing start with
  | nil =>
    exact ⟨fun h => ⟨nofun, (Except.ok.inj h).symm⟩, fun h => congrArg _ h.2.symm⟩
  | cons name names ih =>
    rw [List.foldlM_cons, List.forall_mem_cons, List.foldl_cons, and_assoc]
    cases hadd : start.add name name with
    | ok next =>
      obtain ⟨hname, rfl⟩ := add_eq_ok_iff.1 hadd
      rw [and_iff_right hname]
      exact ih _
    | error c =>
      refine ⟨nofun, fun h => ?_⟩
      rw [add_eq_ok_iff.2 ⟨h.1, rfl⟩] at hadd
      cases hadd

/-- In the tree of names, exactly these have a value, which is the name itself. -/
theorem get?_ofNames {names : List String} {tree : NameTree String}
    (h : ofNames names = .ok tree) {key : List Char} {value : String} :
    tree.get? key = some value ↔ value ∈ names ∧ value.toList = key := by
  obtain ⟨-, rfl⟩ := ofNames_eq_ok_iff.1 h
  rw [get?_foldl_insert (fun name => name) (fun name => name), get?_empty, Option.or_none,
    Option.map_id']
  refine ⟨fun hfind => ?_, fun hvalue => ?_⟩
  · refine ⟨List.mem_reverse.1 (List.mem_of_find?_eq_some hfind), ?_⟩
    simpa using List.find?_some hfind
  · obtain ⟨hmem, rfl⟩ := hvalue
    cases hfind : names.reverse.find? fun name => decide (name.toList = value.toList) with
    | none => simpa using List.find?_eq_none.1 hfind value (List.mem_reverse.2 hmem)
    | some found =>
      have hsame : found = value := String.toList_injective (by simpa using List.find?_some hfind)
      rw [hsame]

/-! ## Trees of values that have names -/

/-- The tree holds exactly the registered values, each under its name. -/
structure Holds (tree : NameTree α) (registered : α → Prop) (name : α → String) : Prop where
  get?_eq_some_iff : ∀ key value,
    tree.get? key = some value ↔ registered value ∧ (name value).toList = key
  usable : ∀ value, registered value → ∀ c ∈ (name value).toList, continuesName c = true

/-- The tree of names holds the names, each under itself. -/
theorem holds_ofNames {names : List String} {tree : NameTree String}
    (h : ofNames names = .ok tree) : tree.Holds (· ∈ names) fun name => name :=
  ⟨fun _ _ => get?_ofNames h, (ofNames_eq_ok_iff.1 h).1⟩

section Holds

variable {tree : NameTree α} {registered : α → Prop} {name : α → String} {text : List Char}

theorem Holds.isFound (h : tree.Holds registered name) {value : α} (hvalue : registered value)
    (hname : name value ≠ "") (hleads : (name value).toList <+: text) :
    tree.IsFound text (name value).toList := by
  refine ⟨by simpa using hname, hleads, ?_⟩
  rw [(h.get?_eq_some_iff _ _).2 ⟨hvalue, rfl⟩]
  exact Option.some_ne_none _

theorem Holds.of_longest?_eq_none (h : tree.Holds registered name)
    (hnone : tree.longest? text = none) {value : α} (hvalue : registered value)
    (hname : name value ≠ "") : ¬(name value).toList <+: text := fun hleads =>
  longest?_eq_none_iff.1 hnone _ (h.isFound hvalue hname hleads)

/-- What is found is the registered value with the longest name at the start of the text, and the
length in bytes is the number of characters of its name. -/
theorem Holds.of_longest?_eq_some (h : tree.Holds registered name) {value : α} {n : Nat}
    (hsome : tree.longest? text = some (value, n)) :
    registered value ∧ name value ≠ "" ∧ (name value).toList <+: text ∧
      n = (name value).length ∧
      ∀ other, registered other → name other ≠ "" → (name other).toList <+: text →
        (name other).length ≤ n := by
  obtain ⟨_, hfound, hvalue, hn, hlongest⟩ := exists_of_longest? hsome
  obtain ⟨hregistered, rfl⟩ := (h.get?_eq_some_iff _ _).1 hvalue
  rw [utf8Length_eq_length (h.usable value hregistered), String.length_toList] at hn
  refine ⟨hregistered, by simpa using hfound.ne_nil, hfound.leads, hn, ?_⟩
  intro other hother hname hleads
  have hle := hlongest _ (h.isFound hother hname hleads)
  rwa [String.length_toList, String.length_toList, ← hn] at hle

end Holds

end NameTree

end HttpGateway
