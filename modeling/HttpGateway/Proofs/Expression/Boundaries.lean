import HttpGateway.Expression
import HttpGateway.Proofs.Expression.Compiled

/-!
# Where a name ends

A text that does not start with a character of names ends the name before it: no reference goes
beyond, so what is before it and the text itself are evaluated apart (`Scope.plainValue_append`).
A whole name before such a text refers to what has this name (`Scope.plainValue_reference`).
-/

namespace HttpGateway

open Text

/-- No name goes on with the text. -/
def EndsName (text : List Char) : Prop := ∀ c ∈ text.head?, continuesName c = false

instance : (text : List Char) → Decidable (EndsName text)
  | [] => .isTrue nofun
  | c :: _ => decidable_of_iff (continuesName c = false) (by simp [EndsName])

/-- A name is a prefix of a text if it is one of the text before the end of a name. -/
theorem EndsName.prefix_append_iff {rest : List Char} (h : EndsName rest) {name text : List Char}
    (hname : ∀ c ∈ name, continuesName c = true) : name <+: text ++ rest ↔ name <+: text := by
  refine ⟨fun hleads => ?_, fun hleads => hleads.trans (List.prefix_append text rest)⟩
  induction text generalizing name with
  | nil =>
    cases name with
    | nil => exact List.nil_prefix
    | cons c name =>
      obtain ⟨more, rfl⟩ := hleads
      simpa [hname c] using h c rfl
  | cons d text ih =>
    cases name with
    | nil => exact List.nil_prefix
    | cons c name =>
      rw [List.cons_append, List.cons_prefix_cons] at hleads
      rw [List.forall_mem_cons] at hname
      exact List.cons_prefix_cons.2 ⟨hleads.1, ih hname.2 hleads.2⟩

namespace Expression

variable {names : List String} {tree : NameTree String} {text rest : List Char}
  {as bs : List Atom} {target : Reference}

/-! ## References do not go beyond the end of a name -/

theorem isCandidate_append_iff (h : NameTree.ofNames names = .ok tree) (hrest : EndsName rest) :
    IsCandidate names (text ++ rest) target ↔ IsCandidate names text target := by
  refine ⟨fun htarget => ⟨htarget.declared, ?_⟩, fun htarget => ⟨htarget.declared, ?_⟩⟩
  · exact (hrest.prefix_append_iff (htarget.usable h)).1 htarget.leads
  · exact (hrest.prefix_append_iff (htarget.usable h)).2 htarget.leads

theorem isBest_append_iff (h : NameTree.ofNames names = .ok tree) (hrest : EndsName rest) :
    IsBest names (text ++ rest) target ↔ IsBest names text target := by
  have hcandidate : ∀ other, IsCandidate names (text ++ rest) other ↔
      IsCandidate names text other := fun other => isCandidate_append_iff h hrest
  refine ⟨fun hbest => ⟨?_, fun other hother => ?_, hbest.preferred⟩,
    fun hbest => ⟨?_, fun other hother => ?_, hbest.preferred⟩⟩
  · exact (hcandidate target).1 hbest.candidate
  · exact hbest.longest other ((hcandidate other).2 hother)
  · exact (hcandidate target).2 hbest.candidate
  · exact hbest.longest other ((hcandidate other).1 hother)

theorem isReferable_append_iff (h : NameTree.ofNames names = .ok tree) (hrest : EndsName rest) :
    IsReferable names (text ++ rest) ↔ IsReferable names text := by
  have hstart : (∃ c ∈ (text ++ rest).head?, startsName c = true) ↔
      ∃ c ∈ text.head?, startsName c = true := by
    cases text with
    | cons c text => rfl
    | nil =>
      refine iff_of_false ?_ nofun
      rintro ⟨c, hc, hstarts⟩
      simpa [hrest c hc] using continuesName_of_startsName hstarts
  refine ⟨fun hreferable => ⟨hstart.1 hreferable.start, ?_⟩,
    fun hreferable => ⟨hstart.2 hreferable.start, ?_⟩⟩
  · exact hreferable.candidate.imp fun _ => (isCandidate_append_iff h hrest).1
  · exact hreferable.candidate.imp fun _ => (isCandidate_append_iff h hrest).2

/-- What ends a name is read apart from the text before it. -/
theorem Reads.append (h : NameTree.ofNames names = .ok tree) (hrest : EndsName rest)
    (htext : Reads names as text) (hreads : Reads names bs rest) :
    Reads names (as ++ bs) (text ++ rest) := by
  induction htext with
  | nil => exact hreads
  | @char c as cs hc _ ih =>
    exact .char (fun hdollar => mt (isReferable_append_iff h hrest).1 (hc hdollar)) ih
  | @reference target as cs hreferable hbest _ ih =>
    rw [List.cons_append, List.cons_append, List.append_assoc]
    refine .reference ?_ ?_ ih
    · rw [← List.append_assoc]
      exact (isReferable_append_iff h hrest).2 hreferable
    · rw [← List.append_assoc]
      exact (isBest_append_iff h hrest).2 hbest

theorem atoms_append (h : NameTree.ofNames names = .ok tree) (hrest : EndsName rest) :
    atoms tree (text ++ rest) = atoms tree text ++ atoms tree rest :=
  ((reads_atoms h text).append h hrest (reads_atoms h rest)).atoms_eq h

/-! ## Whole names -/

/-- A whole name refers to what has the name. -/
theorem reads_name (hdeclared : target.IsDeclared names) (hname : IsName target.name.toList)
    (hpreferred : ∀ v : RequestAttribute, v.name = target.name → target = .system v) :
    Reads names [.reference target] ('$' :: target.name.toList) := by
  have hcandidate : IsCandidate names target.name.toList target :=
    ⟨hdeclared, List.prefix_refl _⟩
  have hstart : ∃ c ∈ target.name.toList.head?, startsName c = true := by
    cases hcs : target.name.toList with
    | nil => rw [hcs] at hname; exact hname.elim
    | cons c cs => rw [hcs] at hname; exact ⟨c, rfl, hname.1⟩
  have hbest : IsBest names target.name.toList target := by
    refine ⟨hcandidate, fun other hother => ?_, hpreferred⟩
    rw [← String.length_toList, ← String.length_toList]
    exact hother.leads.length_le
  rw [← List.append_nil target.name.toList] at hstart hbest ⊢
  exact .reference ⟨hstart, target, hbest.candidate⟩ hbest .nil

end Expression

/-! ## Values -/

namespace Expression

/-- The value of an atom. -/
def atomValue (scope : Scope) : Atom → List Char
  | .char c => [c]
  | .reference target => (referenceValue scope target).toList

theorem flatMap_partValue_consChar (scope : Scope) (c : Char) (parts : List Part) :
    (consChar c parts).flatMap (fun part => (partValue scope part).toList) =
      c :: parts.flatMap fun part => (partValue scope part).toList := by
  cases parts with
  | nil => simp [consChar, partValue]
  | cons part parts => cases part <;> simp [consChar, partValue]

/-- The joined parts have the values of the atoms. -/
theorem flatMap_partValue_join (scope : Scope) (as : List Atom) :
    (join as).flatMap (fun part => (partValue scope part).toList) =
      as.flatMap (atomValue scope) := by
  induction as with
  | nil => rfl
  | cons a as ih =>
    rw [List.flatMap_cons, ← ih]
    cases a with
    | reference target => rfl
    | char c =>
      rw [join, flatMap_partValue_consChar]
      rfl

end Expression

namespace Scope

open Expression

variable {scope : Scope} {names : List String}

theorem toList_plainValue (scope : Scope) (text : String) :
    (scope.plainValue text).toList =
      (atoms scope.names text.toList).flatMap (atomValue scope) := by
  rw [plainValue, value, compile, String.toList_join, List.flatMap_map, flatMap_partValue_join]

/-- **What ends a name is evaluated apart from the text before it.** -/
theorem plainValue_append (h : NameTree.ofNames names = .ok scope.names) {rest : String}
    (hrest : EndsName rest.toList) (text : String) :
    scope.plainValue (text ++ rest) = scope.plainValue text ++ scope.plainValue rest := by
  apply String.toList_injective
  rw [String.toList_append, toList_plainValue, toList_plainValue, toList_plainValue,
    String.toList_append, atoms_append h hrest, List.flatMap_append]

/-- A `$` and a whole name have the value of what has the name. -/
theorem plainValue_reference (h : NameTree.ofNames names = .ok scope.names) {target : Reference}
    (hdeclared : target.IsDeclared names) (hname : IsName target.name.toList)
    (hpreferred : ∀ v : RequestAttribute, v.name = target.name → target = .system v)
    {rest : String} (hrest : EndsName rest.toList) :
    scope.plainValue ("$" ++ target.name ++ rest) =
      referenceValue scope target ++ scope.plainValue rest := by
  have hatoms := (reads_name hdeclared hname hpreferred).atoms_eq h
  have hvalue : scope.plainValue ("$" ++ target.name) = referenceValue scope target := by
    apply String.toList_injective
    rw [toList_plainValue, String.toList_append]
    change (atoms scope.names ('$' :: target.name.toList)).flatMap (atomValue scope) = _
    rw [hatoms, List.flatMap_singleton, atomValue]
  rw [plainValue_append h hrest, hvalue]

end Scope

end HttpGateway
