import HttpGateway.Proofs.Pattern.Rules
import HttpGateway.Proofs.Pattern.Shape

/-!
# Flat patterns

A pattern is flat (`IsFlat`) when each of its sequences has two items or more, none of them a
sequence. All patterns that are read are flat (`isFlat_of_parse`), and a flat pattern is what its
items make (`concat_items`). One after the other, flat patterns make a flat pattern whose items are
all of theirs (`items_concat`). It is written as they are and captures what they capture, and it
does not matter how they were grouped, as long as no group is empty (`concat_keeps_flat`).
-/

namespace HttpGateway.Pattern

/-! ## Flat patterns and their items -/

/-- A node of a flat pattern. -/
def FlatNode : Pattern → Prop
  | .sequence children => 2 ≤ children.length ∧ ∀ child ∈ children, ¬child.IsSequence
  | _ => True

/-- Each sequence of the pattern has two items or more, none of them a sequence. -/
def IsFlat (p : Pattern) : Prop := p.Everywhere FlatNode

/-- A flat pattern that may be an item of a sequence. -/
structure IsFlatItem (p : Pattern) : Prop where
  flat : p.IsFlat
  single : ¬p.IsSequence

variable {p q : Pattern} {items ps qs : List Pattern}

theorem ShapedNode.flat (h : ShapedNode p) : FlatNode p := by
  cases p with
  | sequence children => exact ⟨h.1, h.2.1⟩
  | _ => trivial

theorem isFlat_of_shaped (h : p.Everywhere ShapedNode) : p.IsFlat := h.mono fun _ => ShapedNode.flat

/-- **Reading builds flat patterns.** -/
theorem isFlat_of_parse {text : String} (h : parse text = .ok p) : p.IsFlat := by
  obtain rfl | hshaped := shaped_of_assemble .nil (by simp) h
  · exact trivial
  · exact isFlat_of_shaped hshaped

theorem items_ne_nil (h : p.IsFlat) : p.items ≠ [] := by
  cases p with
  | sequence children =>
    obtain ⟨⟨hlength, -⟩, -⟩ := h
    exact List.length_pos_iff.1 (by omega : 0 < children.length)
  | _ => simp [Pattern.items]

theorem isFlatItem_of_mem_items (h : p.IsFlat) : ∀ item ∈ p.items, item.IsFlatItem := by
  cases p with
  | sequence children =>
    obtain ⟨⟨-, hsingle⟩, hflat⟩ := h
    exact fun item hitem => ⟨everywhereAll_iff.1 hflat item hitem, hsingle item hitem⟩
  | _ => exact List.forall_mem_singleton.2 ⟨h, id⟩

theorem isFlat_ofItems (h : ∀ item ∈ items, item.IsFlatItem) : (ofItems items).IsFlat := by
  match items with
  | [] => exact trivial
  | [item] => exact (h item (by simp)).flat
  | first :: second :: items =>
    exact ⟨⟨by simp, fun item hitem => (h item hitem).single⟩,
      everywhereAll_iff.2 fun item hitem => (h item hitem).flat⟩

/-- A flat pattern is put together again from its items. -/
theorem concat_items (h : p.IsFlat) : concat p.items = p := by
  rw [concat_eq_ofItems fun item hitem => (isFlatItem_of_mem_items h item hitem).single]
  cases p with
  | sequence children =>
    obtain ⟨⟨hlength, -⟩, -⟩ := h
    match children with
    | [] => simp at hlength
    | [_] => simp at hlength
    | _ :: _ :: _ => rfl
  | _ => rfl

/-! ## Flat patterns one after the other -/

theorem isFlatItem_of_mem_flatMap (h : ∀ p ∈ ps, p.IsFlat) :
    ∀ item ∈ ps.flatMap Pattern.items, item.IsFlatItem := by
  intro item hitem
  obtain ⟨p, hp, hmem⟩ := List.mem_flatMap.1 hitem
  exact isFlatItem_of_mem_items (h p hp) item hmem

theorem isFlat_concat (h : ∀ p ∈ ps, p.IsFlat) : (concat ps).IsFlat :=
  isFlat_ofItems (isFlatItem_of_mem_flatMap h)

/-- No item gets lost and none is added, unless there is no pattern at all. -/
theorem items_concat (h : ∀ p ∈ ps, p.IsFlat) (hne : ps ≠ []) :
    (concat ps).items = ps.flatMap Pattern.items := by
  obtain ⟨p, ps, rfl⟩ := List.exists_cons_of_ne_nil hne
  have hitems : (p :: ps).flatMap Pattern.items ≠ [] := by
    rw [List.flatMap_cons]
    exact List.append_ne_nil_of_left_ne_nil (items_ne_nil (h p (by simp))) _
  exact items_ofItems (fun item hitem => (isFlatItem_of_mem_flatMap h item hitem).single) hitems

/-- Groups of flat patterns, none of them empty, may be put together first. -/
theorem concat_map_concat {groups : List (List Pattern)}
    (h : ∀ group ∈ groups, ∀ p ∈ group, p.IsFlat) (hne : ∀ group ∈ groups, group ≠ []) :
    concat (groups.map concat) = concat groups.flatten := by
  have hitems : (groups.map concat).flatMap Pattern.items =
      groups.flatten.flatMap Pattern.items := by
    induction groups with
    | nil => rfl
    | cons group groups ih =>
      rw [List.forall_mem_cons] at h hne
      rw [List.map_cons, List.flatMap_cons, items_concat h.1 hne.1, ih h.2 hne.2,
        List.flatten_cons, List.flatMap_append]
  rw [concat, hitems, concat]

/-- Two groups of flat patterns may be put together first exactly if neither is empty. -/
theorem concat_concat_eq_iff (hps : ∀ p ∈ ps, p.IsFlat) (hqs : ∀ q ∈ qs, q.IsFlat) :
    concat [concat ps, concat qs] = concat (ps ++ qs) ↔ ps ≠ [] ∧ qs ≠ [] := by
  refine ⟨fun h => ?_, fun ⟨hpsne, hqsne⟩ => ?_⟩
  · have hpair : ∀ p ∈ [concat ps, concat qs], p.IsFlat :=
      List.forall_mem_cons.2 ⟨isFlat_concat hps, List.forall_mem_singleton.2 (isFlat_concat hqs)⟩
    have hitems : (concat (ps ++ qs)).items = (concat ps).items ++ (concat qs).items := by
      rw [← h, items_concat hpair (by simp), List.flatMap_cons, List.flatMap_singleton]
    -- an empty group would be one item more, the empty pattern
    have hnone : (concat []).items ≠ [] := items_ne_nil (isFlat_concat (by simp))
    constructor
    · rintro rfl
      rw [List.nil_append] at hitems
      exact hnone (List.self_eq_append_left.1 hitems)
    · rintro rfl
      rw [List.append_nil] at hitems
      exact hnone (List.self_eq_append_right.1 hitems)
  · have hgroups : concat ([ps, qs].map concat) = concat [ps, qs].flatten :=
      concat_map_concat (by simpa using ⟨hps, hqs⟩) (by simp [hpsne, hqsne])
    rwa [List.flatten_cons, List.flatten_singleton] at hgroups

example : concat [concat [], .wildcard] = .sequence [empty, .wildcard] := by decide

/-! ## What is written and captured -/

theorem ofList_spellAll (ps : List Pattern) :
    String.ofList (spellAll ps) = String.join (ps.map text) := by
  induction ps with
  | nil => rfl
  | cons p ps ih =>
    rw [spellAll, String.ofList_append, ih, List.map_cons, String.join_cons, text]

/-- Patterns one after the other are written one after the other. -/
theorem text_concat (ps : List Pattern) : (concat ps).text = String.join (ps.map text) := by
  rw [text, spell_eq_flatMap, tokens_concat, ← spellAll_eq_flatMap, ofList_spellAll]

theorem captureNames_ofItems (ps : List Pattern) :
    (ofItems ps).captureNames = captureNamesAll ps := by
  match ps with
  | [] => rfl
  | [p] => simp [ofItems, captureNamesAll]
  | p :: q :: ps => rfl

/-- Patterns one after the other capture what each of them captures, in order. -/
theorem captureNames_concat (ps : List Pattern) :
    (concat ps).captureNames = ps.flatMap captureNames := by
  rw [concat, captureNames_ofItems]
  induction ps with
  | nil => rfl
  | cons p ps ih =>
    rw [List.flatMap_cons, List.flatMap_cons, captureNamesAll_append, captureNamesAll_items, ih]

/-- **Patterns one after the other stay flat and lose nothing.** If they are flat, so is what they
make, which is written as they are, one after the other, and captures what they capture, in order.
To put two lists of them together each on its own first makes no difference exactly if neither list
is empty. -/
theorem concat_keeps_flat (ps qs : List Pattern) (hps : ∀ p ∈ ps, p.IsFlat)
    (hqs : ∀ q ∈ qs, q.IsFlat) :
    (concat ps).IsFlat ∧ (concat ps).text = String.join (ps.map text) ∧
    (concat ps).captureNames = ps.flatMap captureNames ∧
    (concat [concat ps, concat qs] = concat (ps ++ qs) ↔ ps ≠ [] ∧ qs ≠ []) :=
  ⟨isFlat_concat hps, text_concat ps, captureNames_concat ps, concat_concat_eq_iff hps hqs⟩

/-- The sequences are taken apart, but not the one within a group. -/
theorem concat_keeps_flat_group :
    let version : Pattern := .optional (.sequence [.separator, .capture "version"])
    let ps : List Pattern := [.sequence [.separator, .literal "api"], version]
    let qs : List Pattern := [.sequence [.separator, .wildcard]]
    (concat ps).IsFlat ∧ (concat ps).text = "/api(/:version)" ∧
      (concat ps).captureNames = ["version"] ∧
      concat [concat ps, concat qs] = concat (ps ++ qs) := by
  intro version ps qs
  have hps : ∀ p ∈ ps, p.IsFlat := by
    simp [ps, version, IsFlat, Everywhere, EverywhereAll, FlatNode, IsSequence]
  have hqs : ∀ q ∈ qs, q.IsFlat := by
    simp [qs, IsFlat, Everywhere, EverywhereAll, FlatNode, IsSequence]
  obtain ⟨hflat, htext, hnames, hgroups⟩ := concat_keeps_flat ps qs hps hqs
  exact ⟨hflat, htext.trans (by decide), hnames.trans (by decide),
    hgroups.2 ⟨by simp [ps], by simp [qs]⟩⟩

end HttpGateway.Pattern
