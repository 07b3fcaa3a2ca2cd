import HttpGateway.Proofs.Pattern.Instances

/-!
# The instances at the start of a text

`instances` lists the instances of a pattern at the start of a text as a search with backtracking
meets them: all of them (`mem_instances_iff`), and the preferred ones first (`ordered_instances`).
-/

namespace HttpGateway.Pattern

open Text

/-! ## The list -/

/-- The text at the start of `cs` that stands for a literal, and what is left. -/
def literalText : List Char → List Char → Option (List Char × List Char)
  | [], cs => some ([], cs)
  | _ :: _, [] => none
  | l :: ls, c :: cs =>
    if sameLetter l c then (literalText ls cs).map fun (w, rest) => (c :: w, rest) else none

/-- The segments at the start of a text, the longest first, each with what is left. -/
def segmentTexts : List Char → List (List Char × List Char)
  | [] => []
  | c :: cs =>
    if c = '/' then []
    else (segmentTexts cs).map (fun (w, rest) => (c :: w, rest)) ++ [([c], cs)]

mutual

/-- The instances of a pattern at the start of a text, the preferred ones first, each with what is
left of the text. -/
def instances : Pattern → List Char → List (Instance × List Char)
  | .literal text, cs =>
    (literalText text.toList cs).toList.map fun (w, rest) => (⟨w, [], []⟩, rest)
  | .separator, cs =>
    match cs with
    | [] => []
    | c :: cs => if c = '/' then [(⟨['/'], [], []⟩, cs)] else []
  | .capture name, cs =>
    (segmentTexts cs).map fun (w, rest) => (⟨w, [.segment w], [(name, w)]⟩, rest)
  | .wildcard, cs => (segmentTexts cs).map fun (w, rest) => (⟨w, [.segment w], []⟩, rest)
  | .optional child, cs =>
    (instances child cs).map
      (fun (i, rest) => (⟨i.text, .group true :: i.choices, i.captured⟩, rest)) ++
      [(⟨[], [.group false], []⟩, cs)]
  | .sequence children, cs => instancesAll children cs

/-- The instances of patterns one after the other at the start of a text. -/
def instancesAll : List Pattern → List Char → List (Instance × List Char)
  | [], cs => [(⟨[], [], []⟩, cs)]
  | pattern :: patterns, cs =>
    (instances pattern cs).flatMap fun (i, rest) =>
      (instancesAll patterns rest).map fun (j, rest) => (i ++ j, rest)

end

theorem literalText_eq_some_iff {ls cs w rest : List Char} :
    literalText ls cs = some (w, rest) ↔ SameText ls w ∧ cs = w ++ rest := by
  induction ls generalizing cs w with
  | nil =>
    simp only [literalText, SameText, Option.some.injEq, Prod.mk.injEq, List.map_nil,
      List.nil_eq, List.map_eq_nil_iff]
    refine ⟨fun h => ?_, fun h => ?_⟩
    · obtain ⟨rfl, rfl⟩ := h
      exact ⟨rfl, rfl⟩
    · obtain ⟨rfl, rfl⟩ := h
      exact ⟨rfl, rfl⟩
  | cons l ls ih =>
    cases cs with
    | nil =>
      simp only [literalText, reduceCtorEq, false_iff]
      intro ⟨h, hw⟩
      obtain ⟨rfl, rfl⟩ := List.append_eq_nil_iff.1 hw.symm
      simp [SameText] at h
    | cons c cs =>
      simp only [literalText]
      by_cases hlc : sameLetter l c = true
      · rw [if_pos hlc, Option.map_eq_some_iff]
        refine ⟨fun h => ?_, fun h => ?_⟩
        · obtain ⟨⟨v, rest'⟩, hv, heq⟩ := h
          obtain ⟨rfl, rfl⟩ := Prod.mk.inj heq
          obtain ⟨hs, rfl⟩ := ih.1 hv
          have hsame : SameText (l :: ls) (c :: v) :=
            List.cons_eq_cons.2 ⟨sameLetter_iff.1 hlc, hs⟩
          exact ⟨hsame, rfl⟩
        · obtain ⟨hs, hw⟩ := h
          cases w with
          | nil => simp [SameText] at hs
          | cons d v =>
            obtain ⟨rfl, rfl⟩ := List.cons.inj hw
            have hv : literalText ls (v ++ rest) = some (v, rest) :=
              ih.2 ⟨(List.cons.inj hs).2, rfl⟩
            exact ⟨(v, rest), hv, rfl⟩
      · rw [if_neg hlc]
        simp only [reduceCtorEq, false_iff]
        intro ⟨hs, hw⟩
        cases w with
        | nil => simp [SameText] at hs
        | cons d v =>
          obtain ⟨rfl, rfl⟩ := List.cons.inj hw
          have hsame : sameLetter l c = true := sameLetter_iff.2 (List.cons.inj hs).1
          exact hlc hsame

theorem mem_segmentTexts_iff {cs w rest : List Char} :
    (w, rest) ∈ segmentTexts cs ↔ IsSegment w ∧ cs = w ++ rest := by
  induction cs generalizing w with
  | nil =>
    simp only [segmentTexts, List.not_mem_nil, false_iff]
    intro ⟨hw, h⟩
    exact hw.1 (List.append_eq_nil_iff.1 h.symm).1
  | cons c cs ih =>
    simp only [segmentTexts]
    by_cases hc : c = '/'
    · rw [if_pos hc]
      simp only [List.not_mem_nil, false_iff]
      intro ⟨hw, h⟩
      cases w with
      | nil => exact hw.1 rfl
      | cons d v =>
        have hd : d = '/' := (List.cons.inj h).1.symm.trans hc
        exact hw.2 (hd ▸ List.mem_cons_self)
    · rw [if_neg hc]
      simp only [List.mem_append, List.mem_map, List.mem_singleton, Prod.mk.injEq]
      refine ⟨fun h => ?_, fun h => ?_⟩
      · obtain ⟨⟨v, rest'⟩, hv, rfl, rfl⟩ | ⟨rfl, rfl⟩ := h
        · obtain ⟨hs, rfl⟩ := ih.1 hv
          have hsegment : IsSegment (c :: v) := ⟨by simp, by simp [Ne.symm hc, hs.2]⟩
          exact ⟨hsegment, rfl⟩
        · have hsegment : IsSegment [c] := ⟨by simp, by simp [Ne.symm hc]⟩
          exact ⟨hsegment, rfl⟩
      · obtain ⟨hs, h⟩ := h
        cases w with
        | nil => exact absurd rfl hs.1
        | cons d v =>
          obtain ⟨rfl, rfl⟩ := List.cons.inj h
          cases v with
          | nil => exact Or.inr ⟨rfl, rfl⟩
          | cons e v =>
            have hv : IsSegment (e :: v) :=
              ⟨by simp, fun hmem => hs.2 (List.mem_cons_of_mem _ hmem)⟩
            exact Or.inl ⟨(e :: v, rest), ih.2 ⟨hv, rfl⟩, rfl, rfl⟩

/-- The instances of a capture or a wildcard, its segment being the only choice. -/
theorem mem_map_segmentTexts_iff (captured : List Char → List (String × List Char))
    {cs rest : List Char} {i : Instance} :
    (i, rest) ∈ (segmentTexts cs).map (fun (w, rest) => (⟨w, [.segment w], captured w⟩, rest)) ↔
      ∃ w, IsSegment w ∧ i = ⟨w, [.segment w], captured w⟩ ∧ cs = w ++ rest := by
  simp only [List.mem_map, Prod.exists, Prod.mk.injEq]
  refine ⟨fun h => ?_, fun h => ?_⟩
  · obtain ⟨w, rest, hw, rfl, rfl⟩ := h
    obtain ⟨hs, hcs⟩ := mem_segmentTexts_iff.1 hw
    exact ⟨w, hs, rfl, hcs⟩
  · obtain ⟨w, hs, rfl, hcs⟩ := h
    exact ⟨w, rest, mem_segmentTexts_iff.2 ⟨hs, hcs⟩, rfl, rfl⟩

mutual

theorem mem_instances_iff : ∀ (p : Pattern) {cs rest : List Char} {i : Instance},
    (i, rest) ∈ instances p cs ↔ HasInstance p i ∧ cs = i.text ++ rest
  | .literal text, cs, rest, i => by
    simp only [instances, List.mem_map, Option.mem_toList, Prod.exists, Prod.mk.injEq]
    refine ⟨fun h => ?_, fun h => ?_⟩
    · obtain ⟨w, rest, hw, rfl, rfl⟩ := h
      obtain ⟨hs, hcs⟩ := literalText_eq_some_iff.1 hw
      exact ⟨.literal hs, hcs⟩
    · obtain ⟨h, hcs⟩ := h
      cases h with
      | literal hs => exact ⟨_, _, literalText_eq_some_iff.2 ⟨hs, hcs⟩, rfl, rfl⟩
  | .separator, cs, rest, i => by
    refine ⟨fun h => ?_, fun h => ?_⟩
    · cases cs with
      | nil => simp [instances] at h
      | cons c cs =>
        by_cases hc : c = '/'
        · simp only [instances, hc, if_true, List.mem_singleton, Prod.mk.injEq] at h
          obtain ⟨rfl, rfl⟩ := h
          exact ⟨.separator, by simp [hc]⟩
        · simp [instances, hc] at h
    · obtain ⟨h, rfl⟩ := h
      cases h
      simp [instances]
  | .capture name, cs, rest, i => by
    rw [instances, mem_map_segmentTexts_iff fun w => [(name, w)]]
    refine ⟨fun h => ?_, fun h => ?_⟩
    · obtain ⟨w, hs, rfl, hcs⟩ := h
      exact ⟨.capture hs, hcs⟩
    · obtain ⟨h, hcs⟩ := h
      cases h with
      | capture hs => exact ⟨_, hs, rfl, hcs⟩
  | .wildcard, cs, rest, i => by
    rw [instances, mem_map_segmentTexts_iff fun _ => []]
    refine ⟨fun h => ?_, fun h => ?_⟩
    · obtain ⟨w, hs, rfl, hcs⟩ := h
      exact ⟨.wildcard hs, hcs⟩
    · obtain ⟨h, hcs⟩ := h
      cases h with
      | wildcard hs => exact ⟨_, hs, rfl, hcs⟩
  | .optional child, cs, rest, i => by
    simp only [instances, List.mem_append, List.mem_map, List.mem_singleton, Prod.exists,
      Prod.mk.injEq]
    refine ⟨fun h => ?_, fun h => ?_⟩
    · obtain ⟨j, rest, hj, rfl, rfl⟩ | ⟨rfl, rfl⟩ := h
      · obtain ⟨hchild, hcs⟩ := (mem_instances_iff child).1 hj
        exact ⟨.present hchild, hcs⟩
      · exact ⟨.absent, rfl⟩
    · obtain ⟨h, hcs⟩ := h
      cases h with
      | present hj =>
        have hchild := (mem_instances_iff child).2 ⟨hj, hcs⟩
        exact Or.inl ⟨_, _, hchild, rfl, rfl⟩
      | absent => exact Or.inr ⟨rfl, hcs.symm⟩
  | .sequence children, cs, rest, i => by
    simp only [instances, mem_instancesAll_iff children]
    refine ⟨fun h => ?_, fun h => ?_⟩
    · obtain ⟨h, hcs⟩ := h
      exact ⟨.sequence h, hcs⟩
    · obtain ⟨h, hcs⟩ := h
      cases h with
      | sequence h => exact ⟨h, hcs⟩

theorem mem_instancesAll_iff : ∀ (ps : List Pattern) {cs rest : List Char} {i : Instance},
    (i, rest) ∈ instancesAll ps cs ↔ HasInstanceAll ps i ∧ cs = i.text ++ rest
  | [], cs, rest, i => by
    simp only [instancesAll, List.mem_singleton, Prod.mk.injEq]
    refine ⟨fun h => ?_, fun h => ?_⟩
    · obtain ⟨rfl, rfl⟩ := h
      exact ⟨.nil, rfl⟩
    · obtain ⟨h, hcs⟩ := h
      cases h with
      | nil => exact ⟨rfl, hcs.symm⟩
  | p :: ps, cs, rest, i => by
    simp only [instancesAll, List.mem_flatMap, List.mem_map, Prod.exists, Prod.mk.injEq]
    refine ⟨fun h => ?_, fun h => ?_⟩
    · obtain ⟨j, mid, hj, k, rest, hk, rfl, rfl⟩ := h
      obtain ⟨hjp, hcs⟩ := (mem_instances_iff p).1 hj
      obtain ⟨hkps, hmid⟩ := (mem_instancesAll_iff ps).1 hk
      have htext : cs = (j ++ k).text ++ rest := by
        rw [hcs, hmid, Instance.text_append, List.append_assoc]
      exact ⟨.cons hjp hkps, htext⟩
    · obtain ⟨h, hcs⟩ := h
      cases h with
      | @cons _ _ j k hj hk =>
        have htext : cs = j.text ++ (k.text ++ rest) := by
          rw [hcs, Instance.text_append, List.append_assoc]
        have hfirst := (mem_instances_iff p).2 ⟨hj, htext⟩
        have hothers := (mem_instancesAll_iff ps).2 ⟨hk, (rfl : k.text ++ rest = _)⟩
        exact ⟨j, k.text ++ rest, hfirst, k, rest, hothers, rfl, rfl⟩

end

/-- Longer segments come first. -/
theorem pairwise_segmentTexts (cs : List Char) :
    (segmentTexts cs).Pairwise fun a b => b.1.length < a.1.length := by
  induction cs with
  | nil => exact .nil
  | cons c cs ih =>
    simp only [segmentTexts]
    by_cases hc : c = '/'
    · rw [if_pos hc]
      exact .nil
    · rw [if_neg hc, List.pairwise_append]
      refine ⟨?_, List.pairwise_singleton _ _, ?_⟩
      · rw [List.pairwise_map]
        exact ih.imp fun hab => Nat.succ_lt_succ hab
      · intro a ha b hb
        obtain ⟨⟨w, rest⟩, hw, rfl⟩ := List.mem_map.1 ha
        obtain rfl := List.mem_singleton.1 hb
        have hpos := List.length_pos_iff.2 (mem_segmentTexts_iff.1 hw).1.1
        exact Nat.succ_lt_succ hpos

/-- Instances at the start of a text, each with what is left, in the order of preference. -/
def Ordered (is : List (Instance × List Char)) : Prop :=
  is.Pairwise fun a b => Preferred a.1.choices b.1.choices

/-- An instance for each segment, the segment being the only choice. -/
theorem ordered_segmentTexts (captured : List Char → List (String × List Char)) (cs : List Char) :
    Ordered ((segmentTexts cs).map fun (w, rest) => (⟨w, [.segment w], captured w⟩, rest)) := by
  rw [Ordered, List.pairwise_map]
  refine (pairwise_segmentTexts cs).imp fun {a b} hab => ?_
  have hbefore : (Choice.segment a.1).Before (.segment b.1) := hab
  exact .head hbefore [] []

mutual

theorem ordered_instances : ∀ (p : Pattern) (cs : List Char), Ordered (instances p cs)
  | .literal text, cs => by
    rw [Ordered, instances, List.pairwise_map]
    cases literalText text.toList cs <;> simp
  | .separator, [] => .nil
  | .separator, c :: cs => by
    rw [instances]
    split
    · exact List.pairwise_singleton _ _
    · exact .nil
  | .capture name, cs => ordered_segmentTexts (fun w => [(name, w)]) cs
  | .wildcard, cs => ordered_segmentTexts (fun _ => []) cs
  | .optional child, cs => by
    rw [Ordered, instances, List.pairwise_append]
    refine ⟨?_, List.pairwise_singleton _ _, ?_⟩
    · rw [List.pairwise_map]
      exact (ordered_instances child cs).imp fun hab => hab.prepend [.group true]
    · intro a ha b hb
      obtain ⟨j, -, rfl⟩ := List.mem_map.1 ha
      obtain rfl := List.mem_singleton.1 hb
      have hbefore : (Choice.group true).Before (.group false) := ⟨rfl, rfl⟩
      exact .head hbefore _ _
  | .sequence children, cs => ordered_instancesAll children cs

theorem ordered_instancesAll : ∀ (ps : List Pattern) (cs : List Char),
    Ordered (instancesAll ps cs)
  | [], cs => List.pairwise_singleton _ _
  | p :: ps, cs => by
    rw [Ordered, instancesAll, List.pairwise_flatMap]
    refine ⟨fun ⟨i, rest⟩ _ => ?_, ?_⟩
    · rw [List.pairwise_map]
      exact (ordered_instancesAll ps rest).imp fun hab => hab.prepend i.choices
    · refine (ordered_instances p cs).imp fun {i j} hij => ?_
      intro a ha b hb
      obtain ⟨k, -, rfl⟩ := List.mem_map.1 ha
      obtain ⟨l, -, rfl⟩ := List.mem_map.1 hb
      exact hij.append k.1.choices l.1.choices

end

end HttpGateway.Pattern
