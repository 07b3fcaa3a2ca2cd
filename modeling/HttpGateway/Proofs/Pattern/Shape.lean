import HttpGateway.Proofs.Pattern.RoundTrip

/-!
# The shape of a pattern that was read

Whatever the text, reading builds well-shaped patterns only (`shaped_of_assemble`): a sequence has
two items or more, none of them a sequence and no two literals side by side, and no literal is
empty.
-/

namespace HttpGateway.Pattern

/-! ## Every node -/

mutual

/-- A property of every node of a pattern. -/
def Everywhere (P : Pattern → Prop) : Pattern → Prop
  | .literal text => P (.literal text)
  | .separator => P .separator
  | .capture name => P (.capture name)
  | .wildcard => P .wildcard
  | .optional child => P (.optional child) ∧ Everywhere P child
  | .sequence children => P (.sequence children) ∧ EverywhereAll P children

/-- A property of every node of some patterns. -/
def EverywhereAll (P : Pattern → Prop) : List Pattern → Prop
  | [] => True
  | pattern :: patterns => Everywhere P pattern ∧ EverywhereAll P patterns

end

section Everywhere

variable {P Q : Pattern → Prop} {p : Pattern} {ps : List Pattern}

theorem Everywhere.node (h : p.Everywhere P) : P p := by
  cases p with
  | optional child => exact h.1
  | sequence children => exact h.1
  | _ => exact h

theorem everywhereAll_iff : EverywhereAll P ps ↔ ∀ p ∈ ps, p.Everywhere P := by
  induction ps with
  | nil => simp [EverywhereAll]
  | cons p ps ih => rw [EverywhereAll, ih, List.forall_mem_cons]

mutual

theorem Everywhere.mono (hPQ : ∀ p, P p → Q p) : ∀ {p : Pattern}, p.Everywhere P → p.Everywhere Q
  | .literal _, h => hPQ _ h
  | .separator, h => hPQ _ h
  | .capture _, h => hPQ _ h
  | .wildcard, h => hPQ _ h
  | .optional _, h => ⟨hPQ _ h.1, Everywhere.mono hPQ h.2⟩
  | .sequence _, h => ⟨hPQ _ h.1, EverywhereAll.mono hPQ h.2⟩

theorem EverywhereAll.mono (hPQ : ∀ p, P p → Q p) :
    ∀ {ps : List Pattern}, EverywhereAll P ps → EverywhereAll Q ps
  | [], _ => trivial
  | _ :: _, h => ⟨Everywhere.mono hPQ h.1, EverywhereAll.mono hPQ h.2⟩

end

end Everywhere

/-! ## Well-shaped patterns -/

/-- A sequence of patterns, of any length. -/
def IsSequence : Pattern → Prop
  | .sequence _ => True
  | _ => False

/-- Not both are literals. -/
def Unmerged : Pattern → Pattern → Prop
  | .literal _, .literal _ => False
  | _, _ => True

/-- A node of a well-shaped pattern. -/
def ShapedNode : Pattern → Prop
  | .literal text => text ≠ ""
  | .sequence children =>
    2 ≤ children.length ∧ (∀ child ∈ children, ¬child.IsSequence) ∧ children.IsChain Unmerged
  | _ => True

/-- Well-shaped items that may stand in one sequence. -/
structure ShapedItems (items : List Pattern) : Prop where
  shaped : ∀ item ∈ items, item.Everywhere ShapedNode
  flat : ∀ item ∈ items, ¬item.IsSequence
  unmerged : items.IsChain Unmerged

variable {p q : Pattern} {items : List Pattern} {groups : List OpenGroup}
  {placed : List PlacedToken}

theorem Unmerged.symm (h : Unmerged p q) : Unmerged q p := by
  cases p with
  | literal s =>
    cases q with
    | literal t => exact h
    | _ => trivial
  | _ => cases q <;> trivial

theorem ShapedItems.nil : ShapedItems [] := ⟨by simp, by simp, .nil⟩

theorem shapedItems_cons_iff :
    ShapedItems (p :: items) ↔
      p.Everywhere ShapedNode ∧ ¬p.IsSequence ∧ (∀ q ∈ items.head?, Unmerged p q) ∧
        ShapedItems items := by
  refine ⟨fun h => ?_, fun h => ?_⟩
  · obtain ⟨hshaped, hflat, hchain⟩ := h
    rw [List.forall_mem_cons] at hshaped hflat
    rw [List.isChain_cons] at hchain
    exact ⟨hshaped.1, hflat.1, hchain.1, hshaped.2, hflat.2, hchain.2⟩
  · obtain ⟨hp, hpflat, hhead, hshaped, hflat, hchain⟩ := h
    exact ⟨List.forall_mem_cons.2 ⟨hp, hshaped⟩, List.forall_mem_cons.2 ⟨hpflat, hflat⟩,
      List.isChain_cons.2 ⟨hhead, hchain⟩⟩

/-- A pattern that is no literal may stand before any items. -/
theorem ShapedItems.cons (h : ShapedItems items) (p : Pattern) (hp : p.Everywhere ShapedNode)
    (hflat : ¬p.IsSequence) (hunmerged : ∀ q, Unmerged p q) : ShapedItems (p :: items) :=
  shapedItems_cons_iff.2 ⟨hp, hflat, fun q _ => hunmerged q, h⟩

theorem ShapedItems.reverse (h : ShapedItems items) : ShapedItems items.reverse := by
  have hchain : items.reverse.IsChain Unmerged := by
    rw [List.isChain_reverse]
    exact h.unmerged.imp fun _ _ => Unmerged.symm
  exact ⟨fun p hp => h.shaped p (List.mem_reverse.1 hp),
    fun p hp => h.flat p (List.mem_reverse.1 hp), hchain⟩

theorem ShapedItems.isInfix {others : List Pattern} (h : ShapedItems items)
    (hwithin : others <:+: items) : ShapedItems others :=
  ⟨fun item hitem => h.shaped item (hwithin.subset hitem),
    fun item hitem => h.flat item (hwithin.subset hitem), h.unmerged.infix hwithin⟩

theorem items_eq_singleton (h : ¬p.IsSequence) : p.items = [p] := by
  cases p with
  | sequence children => exact absurd trivial h
  | _ => rfl

theorem items_ofItems (h : ∀ item ∈ items, ¬item.IsSequence) (hne : items ≠ []) :
    (ofItems items).items = items := by
  match items with
  | [] => exact absurd rfl hne
  | [item] => exact items_eq_singleton (h item (by simp))
  | _ :: _ :: _ => rfl

/-- The items of a well-shaped pattern may stand in one sequence. -/
theorem shapedItems_items (h : p.Everywhere ShapedNode) : ShapedItems p.items := by
  cases p with
  | sequence children =>
    obtain ⟨⟨-, hflat, hchain⟩, hall⟩ := h
    exact ⟨everywhereAll_iff.1 hall, hflat, hchain⟩
  | _ => exact shapedItems_cons_iff.2 ⟨h, id, by simp, .nil⟩

theorem tokens_ne_nil (h : p.Everywhere ShapedNode) (hflat : ¬p.IsSequence) : tokens p ≠ [] := by
  cases p with
  | literal text =>
    intro htokens
    rw [tokens, List.map_eq_nil_iff, String.toList_eq_nil_iff] at htokens
    exact h htokens
  | sequence children => exact absurd trivial hflat
  | _ => simp [tokens]

/-! ## Reading builds well-shaped patterns -/

theorem concat_eq_ofItems (h : ∀ item ∈ items, ¬item.IsSequence) :
    concat items = ofItems items := by
  have hitems : items.flatMap Pattern.items = items := by
    induction items with
    | nil => rfl
    | cons item items ih =>
      rw [List.forall_mem_cons] at h
      rw [List.flatMap_cons, items_eq_singleton h.1, ih h.2, List.singleton_append]
  rw [concat, hitems]

theorem shaped_concat (h : ShapedItems items) (hne : items ≠ []) :
    (concat items).Everywhere ShapedNode := by
  rw [concat_eq_ofItems h.flat]
  match items with
  | [] => exact absurd rfl hne
  | [item] => exact h.shaped item (by simp)
  | first :: second :: items =>
    exact ⟨⟨by simp, h.flat, h.unmerged⟩, everywhereAll_iff.2 h.shaped⟩

theorem ShapedItems.addChar (h : ShapedItems items) (c : Char) :
    ShapedItems (addChar c items) := by
  unfold Pattern.addChar
  split
  · next text items =>
    obtain ⟨-, -, hhead, hitems⟩ := shapedItems_cons_iff.1 h
    refine shapedItems_cons_iff.2 ⟨by simp [Everywhere, ShapedNode], id, fun q hq => ?_, hitems⟩
    have := hhead q hq
    cases q <;> trivial
  · next hliteral =>
    refine shapedItems_cons_iff.2 ⟨by simp [Everywhere, ShapedNode], id, fun q hq => ?_, h⟩
    cases q with
    | literal text =>
      obtain ⟨rest, rfl⟩ := List.head?_eq_some_iff.1 hq
      exact absurd rfl (hliteral text rest)
    | _ => trivial

/-- **Reading builds well-shaped patterns**, or the empty one from no token. -/
theorem shaped_of_assemble (hitems : ShapedItems items)
    (hgroups : ∀ group ∈ groups, ShapedItems group.before)
    (h : assemble groups items placed = .ok p) : p = empty ∨ p.Everywhere ShapedNode := by
  induction placed generalizing groups items with
  | nil =>
    cases groups with
    | nil =>
      obtain rfl := Except.ok.inj h
      by_cases hne : items = []
      · subst hne
        exact Or.inl rfl
      · have hreverse : items.reverse ≠ [] := mt List.reverse_eq_nil_iff.1 hne
        exact Or.inr (shaped_concat hitems.reverse hreverse)
    | cons group groups => simp [assemble] at h
  | cons first placed ih =>
    obtain ⟨offset, token⟩ := first
    cases token with
    | char c =>
      rw [assemble] at h
      exact ih (hitems.addChar c) hgroups h
    | separator =>
      rw [assemble] at h
      exact ih (hitems.cons .separator trivial id fun _ => trivial) hgroups h
    | wildcard =>
      rw [assemble] at h
      exact ih (hitems.cons .wildcard trivial id fun _ => trivial) hgroups h
    | capture name =>
      rw [assemble] at h
      exact ih (hitems.cons (.capture name) trivial id fun _ => trivial) hgroups h
    | bareColon => simp [assemble] at h
    | opening =>
      rw [assemble] at h
      exact ih .nil (List.forall_mem_cons.2 ⟨hitems, hgroups⟩) h
    | closing =>
      cases groups with
      | nil => simp [assemble] at h
      | cons group groups =>
        cases items with
        | nil => simp [assemble] at h
        | cons item items =>
          rw [List.forall_mem_cons] at hgroups
          have hchild : (concat (item :: items).reverse).Everywhere ShapedNode :=
            shaped_concat hitems.reverse (by simp)
          rw [assemble] at h
          · exact ih (hgroups.1.cons (.optional _) ⟨trivial, hchild⟩ id fun _ => trivial) hgroups.2 h
          · simp

end HttpGateway.Pattern
