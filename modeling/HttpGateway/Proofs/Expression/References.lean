import HttpGateway.Expression
import HttpGateway.Proofs.Text.NameTree

/-!
# What a `$` refers to

A `$` may refer to any system variable and to any variable of the route whose name the text after it
starts with. Of these it refers to the one with the longest name, and to the system variable if a
variable of the route has the same name (`IsBest`). `reference?_eq_some_iff` says that the compiler
finds just this reference, and that it looks for one only before a letter or an underscore.
-/

namespace HttpGateway

open Text

/-- The name by which a reference is written. -/
def Reference.name : Reference → String
  | .system v => v.name
  | .route name => name

/-- A reference that an expression of a route with the given variables may make. -/
def Reference.IsDeclared (names : List String) : Reference → Prop
  | .system _ => True
  | .route name => name ∈ names ∧ name ≠ ""

namespace Expression

variable {names : List String} {tree : NameTree String} {text : List Char}
  {target other : Reference}

/-- A reference that a `$` before the text might make. -/
structure IsCandidate (names : List String) (text : List Char) (target : Reference) : Prop where
  declared : target.IsDeclared names
  leads : target.name.toList <+: text

/-- The reference that a `$` before the text makes. -/
structure IsBest (names : List String) (text : List Char) (target : Reference) : Prop where
  candidate : IsCandidate names text target
  longest : ∀ other, IsCandidate names text other → other.name.length ≤ target.name.length
  preferred : ∀ v : RequestAttribute, v.name = target.name → target = .system v

/-- The text starts with a character that may start a name, and with the whole name of something
that may be referred to. -/
structure IsReferable (names : List String) (text : List Char) : Prop where
  start : ∃ c ∈ text.head?, startsName c = true
  candidate : ∃ target, IsCandidate names text target

theorem isCandidate_system_iff {v : RequestAttribute} :
    IsCandidate names text (.system v) ↔ v.name.toList <+: text :=
  ⟨fun h => h.leads, fun h => ⟨trivial, h⟩⟩

theorem isCandidate_route_iff {name : String} :
    IsCandidate names text (.route name) ↔ name ∈ names ∧ name ≠ "" ∧ name.toList <+: text :=
  ⟨fun h => ⟨h.declared.1, h.declared.2, h.leads⟩, fun h => ⟨⟨h.1, h.2.1⟩, h.2.2⟩⟩

/-- Two candidates whose names are equally long have the same name. -/
theorem IsCandidate.name_eq (h : IsCandidate names text target)
    (ho : IsCandidate names text other) (hlen : target.name.length = other.name.length) :
    target.name = other.name := by
  rw [← String.length_toList, ← String.length_toList] at hlen
  have hsame := List.prefix_of_prefix_length_le h.leads ho.leads hlen.le
  exact String.toList_injective (hsame.eq_of_length hlen)

/-- A `$` refers to one thing at most. -/
theorem IsBest.unique (h : IsBest names text target) (ho : IsBest names text other) :
    target = other := by
  have hname : target.name = other.name :=
    h.candidate.name_eq ho.candidate
      (Nat.le_antisymm (ho.longest _ h.candidate) (h.longest _ ho.candidate))
  cases target with
  | system v => exact (ho.preferred v hname).symm
  | route name =>
    cases other with
    | system w => exact h.preferred w hname.symm
    | route name' => exact congrArg _ hname

/-! ## The two trees -/

theorem usable_name (v : RequestAttribute) : ∀ c ∈ v.name.toList, continuesName c = true := by
  rw [← List.all_eq_true]
  cases v <;> decide

theorem name_ne_empty (v : RequestAttribute) : v.name ≠ "" := by
  cases v <;> decide

/-- The tree of the system variables holds all of them. -/
theorem holds_tree : RequestAttribute.tree.Holds (fun _ => True) RequestAttribute.name := by
  refine ⟨fun key v => ?_, fun v _ => usable_name v⟩
  rw [RequestAttribute.tree, NameTree.get?_foldl_insert RequestAttribute.name (fun v => v),
    NameTree.get?_empty, Option.or_none, Option.map_id', true_and]
  refine ⟨fun hfind => by simpa using List.find?_some hfind, fun hname => ?_⟩
  subst hname
  cases hfind : RequestAttribute.all.reverse.find? fun w => decide (w.name.toList = v.name.toList)
    with
  | none =>
    simpa using List.find?_eq_none.1 hfind v (List.mem_reverse.2 (RequestAttribute.mem_all v))
  | some found =>
    have hsame : found.name = v.name := String.toList_injective (by simpa using List.find?_some hfind)
    rw [RequestAttribute.name_injective hsame]

/-! ## What the compiler finds -/

/-- The system variable found is referred to if no candidate of the route has a longer name. -/
theorem isBest_system {v : RequestAttribute} {m : Nat}
    (hsystem : RequestAttribute.tree.longest? text = some (v, m))
    (hroute : ∀ name, IsCandidate names text (.route name) → name.length ≤ m) :
    IsBest names text (.system v) ∧ m = v.name.length := by
  obtain ⟨-, -, hleads, hm, hlongest⟩ := holds_tree.of_longest?_eq_some hsystem
  refine ⟨⟨isCandidate_system_iff.2 hleads, fun other hother => ?_, fun w hw => ?_⟩, hm⟩
  · rw [Reference.name, ← hm]
    cases other with
    | system w => exact hlongest w trivial (name_ne_empty w) hother.leads
    | route name => exact hroute name hother
  · rw [RequestAttribute.name_injective hw]

/-- The variable of the route found is referred to if it has a longer name than every candidate
among the system variables. -/
theorem isBest_route (h : NameTree.ofNames names = .ok tree) {name : String} {n : Nat}
    (hroute : tree.longest? text = some (name, n))
    (hsystem : ∀ v : RequestAttribute, v.name.toList <+: text → v.name.length < n) :
    IsBest names text (.route name) ∧ n = name.length := by
  obtain ⟨hmem, hne, hleads, hn, hlongest⟩ := (NameTree.holds_ofNames h).of_longest?_eq_some hroute
  refine ⟨⟨isCandidate_route_iff.2 ⟨hmem, hne, hleads⟩, fun other hother => ?_, fun v hv => ?_⟩, hn⟩
  · rw [Reference.name, ← hn]
    cases other with
    | system v => exact (hsystem v hother.leads).le
    | route name' => exact hlongest name' hother.declared.1 hother.declared.2 hother.leads
  · have hlt := hsystem v (by rw [hv]; exact hleads)
    rw [hv, Reference.name, ← hn] at hlt
    exact absurd hlt (Nat.lt_irrefl n)

/-- The preferred one of what the two trees find is the reference to make. -/
theorem prefer_eq_some (h : NameTree.ofNames names = .ok tree) {n : Nat}
    (hprefer : prefer (RequestAttribute.tree.longest? text) (tree.longest? text) =
      some (target, n)) : IsBest names text target ∧ n = target.name.length := by
  cases hsystem : RequestAttribute.tree.longest? text with
  | none =>
    have hnone : ∀ v : RequestAttribute, ¬v.name.toList <+: text := fun v =>
      holds_tree.of_longest?_eq_none hsystem trivial (name_ne_empty v)
    cases hroute : tree.longest? text with
    | none => simp [prefer, hsystem, hroute] at hprefer
    | some found =>
      simp only [prefer, hsystem, hroute, Option.some.injEq, Prod.mk.injEq] at hprefer
      obtain ⟨rfl, rfl⟩ := hprefer
      exact isBest_route h hroute fun v hv => absurd hv (hnone v)
  | some system =>
    obtain ⟨v, m⟩ := system
    obtain ⟨-, -, -, -, hlongest⟩ := holds_tree.of_longest?_eq_some hsystem
    cases hroute : tree.longest? text with
    | none =>
      simp only [prefer, hsystem, hroute, Option.some.injEq, Prod.mk.injEq] at hprefer
      obtain ⟨rfl, rfl⟩ := hprefer
      refine isBest_system hsystem fun name hname => absurd hname.leads ?_
      exact (NameTree.holds_ofNames h).of_longest?_eq_none hroute hname.declared.1 hname.declared.2
    | some route =>
      obtain ⟨name, k⟩ := route
      obtain ⟨-, -, -, -, hlongest'⟩ := (NameTree.holds_ofNames h).of_longest?_eq_some hroute
      simp only [prefer, hsystem, hroute] at hprefer
      split at hprefer
      · next hlonger =>
        obtain ⟨rfl, rfl⟩ := Prod.mk.inj (Option.some.inj hprefer)
        exact isBest_route h hroute fun w hw =>
          (hlongest w trivial (name_ne_empty w) hw).trans_lt hlonger
      · next hshorter =>
        obtain ⟨rfl, rfl⟩ := Prod.mk.inj (Option.some.inj hprefer)
        exact isBest_system hsystem fun name' hname =>
          (hlongest' name' hname.declared.1 hname.declared.2 hname.leads).trans
            (Nat.not_lt.1 hshorter)

theorem prefer_eq_none (h : NameTree.ofNames names = .ok tree)
    (hprefer : prefer (RequestAttribute.tree.longest? text) (tree.longest? text) = none) :
    ¬IsCandidate names text target := by
  intro htarget
  cases hsystem : RequestAttribute.tree.longest? text with
  | some system =>
    cases hroute : tree.longest? text with
    | none => simp [prefer, hsystem, hroute] at hprefer
    | some route =>
      simp only [prefer, hsystem, hroute] at hprefer
      split at hprefer <;> simp at hprefer
  | none =>
    cases hroute : tree.longest? text with
    | some route => simp [prefer, hsystem, hroute] at hprefer
    | none =>
      cases target with
      | system v =>
        exact holds_tree.of_longest?_eq_none hsystem trivial (name_ne_empty v) htarget.leads
      | route name =>
        exact (NameTree.holds_ofNames h).of_longest?_eq_none hroute htarget.declared.1
          htarget.declared.2 htarget.leads

/-- Only before the start of a name are the two trees looked up. -/
theorem reference?_eq_some {n : Nat} (hsome : reference? tree text = some (target, n)) :
    (∃ c ∈ text.head?, startsName c = true) ∧
      prefer (RequestAttribute.tree.longest? text) (tree.longest? text) = some (target, n) := by
  cases text with
  | nil => simp [reference?] at hsome
  | cons c cs =>
    rw [reference?] at hsome
    split at hsome
    · next hc => exact ⟨⟨c, rfl, hc⟩, hsome⟩
    · simp at hsome

theorem reference?_eq_prefer (hstart : ∃ c ∈ text.head?, startsName c = true) :
    reference? tree text = prefer (RequestAttribute.tree.longest? text) (tree.longest? text) := by
  obtain ⟨c, hc, hstarts⟩ := hstart
  obtain ⟨cs, rfl⟩ := List.head?_eq_some_iff.1 hc
  rw [reference?, if_pos hstarts]

/-- A `$` is no reference exactly if the text after it starts with nothing that may be referred
to. -/
theorem reference?_eq_none_iff (h : NameTree.ofNames names = .ok tree) :
    reference? tree text = none ↔ ¬IsReferable names text := by
  refine ⟨fun hnone hreferable => ?_, fun hnot => ?_⟩
  · obtain ⟨hstart, target, htarget⟩ := hreferable
    exact prefer_eq_none h ((reference?_eq_prefer hstart).symm.trans hnone) htarget
  · by_contra hne
    obtain ⟨⟨target, n⟩, hsome⟩ := Option.ne_none_iff_exists'.1 hne
    obtain ⟨hstart, hprefer⟩ := reference?_eq_some hsome
    exact hnot ⟨hstart, target, (prefer_eq_some h hprefer).1.candidate⟩

/-- **A `$` is the reference with the longest name that the text after it starts with.** -/
theorem reference?_eq_some_iff (h : NameTree.ofNames names = .ok tree) {n : Nat} :
    reference? tree text = some (target, n) ↔
      IsReferable names text ∧ IsBest names text target ∧ n = target.name.length := by
  refine ⟨fun hsome => ?_, fun hbest => ?_⟩
  · obtain ⟨hstart, hprefer⟩ := reference?_eq_some hsome
    obtain ⟨hbest, hn⟩ := prefer_eq_some h hprefer
    exact ⟨⟨hstart, target, hbest.candidate⟩, hbest, hn⟩
  · obtain ⟨hreferable, hbest, rfl⟩ := hbest
    have hne := mt (reference?_eq_none_iff h).1 (not_not_intro hreferable)
    obtain ⟨⟨other, m⟩, hsome⟩ := Option.ne_none_iff_exists'.1 hne
    obtain ⟨hother, rfl⟩ := prefer_eq_some h (reference?_eq_some hsome).2
    rw [hsome, hbest.unique hother]

end Expression

end HttpGateway
