import HttpGateway.Text.CaseFold
import HttpGateway.Text.Basic

/-!
# Letter case

Lower-casing changes the capitals of ASCII and nothing else, so what it keeps for them it keeps for
every character (`apply_toLower`): what a character folds to, and whether it may stand in a name.

Beyond ASCII, a character that folds at all is one of a range of the table and folds to what stands
as far from the target of the range (`foldCase_cases`). The targets being letters, nothing but `/`
folds to `/` (`foldCase_eq_slash_iff`), and from what a character folds to the table leads back to
it, so a character is one of its forms (`mem_caseForms`).
-/

namespace HttpGateway.Text

/-! ## Lower case -/

/-- The characters that have a lower case. -/
def capitals : List Char := "ABCDEFGHIJKLMNOPQRSTUVWXYZ".toList

/-- Every other character stays the same in lower case. -/
theorem toLower_eq_or_mem_capitals (c : Char) : c.toLower = c ∨ c ∈ capitals := by
  by_cases hc : c.val ≥ 'A'.val ∧ c.val ≤ 'Z'.val
  · have hall : ∀ n < 91, 65 ≤ n → Char.ofNat n ∈ capitals := by decide
    rw [← Char.ofNat_toNat c]
    exact Or.inr (hall c.toNat (Nat.lt_succ_of_le hc.2) hc.1)
  · exact Or.inl (dif_neg hc)

/-- Whatever lower-casing keeps for capitals it keeps for every character. -/
theorem apply_toLower {α : Type} {f : Char → α}
    (h : capitals.map (fun c => f c.toLower) = capitals.map f) (c : Char) :
    f c.toLower = f c := by
  rcases toLower_eq_or_mem_capitals c with hc | hc
  · rw [hc]
  · exact List.map_inj_left.1 h c hc

/-- A character in no letter case is the lower case of itself only. -/
theorem toLower_eq_iff {d : Char} (h : d ∉ capitals ∧ d ∉ capitals.map Char.toLower) (c : Char) :
    c.toLower = d ↔ c = d := by
  rcases toLower_eq_or_mem_capitals c with hc | hc
  · rw [hc]
  · exact iff_of_false (ne_of_mem_of_not_mem (List.mem_map_of_mem hc) h.2)
      (ne_of_mem_of_not_mem hc h.1)

/-- Lower-casing is a change of case. -/
theorem foldCase_toLower (c : Char) : foldCase c.toLower = foldCase c :=
  apply_toLower (by decide) c

theorem startsName_toLower (c : Char) : startsName c.toLower = startsName c :=
  apply_toLower (by decide) c

theorem continuesName_toLower (c : Char) : continuesName c.toLower = continuesName c :=
  apply_toLower (by decide) c

/-- Names stay names in lower case. -/
theorem isName_map_toLower {cs : List Char} (h : IsName cs) : IsName (cs.map Char.toLower) := by
  cases cs with
  | nil => exact h
  | cons c cs =>
    refine ⟨(startsName_toLower c).trans h.1, List.forall_mem_map.2 fun d hd => ?_⟩
    exact (continuesName_toLower d).trans (h.2 d hd)

/-! ## Folding -/

/-- The targets of the table are characters after `/`, up to the end of their range. -/
theorem foldRanges_targets : ∀ range ∈ foldRanges, '/'.toNat < range.target ∧
    (range.target + (range.last - range.first) < 0xD800 ∨
      0xDFFF < range.target ∧ range.target + (range.last - range.first) < 0x110000) := by
  decide +kernel

namespace FoldRange

variable {range : FoldRange} {n : Nat}

theorem covers_iff :
    range.covers n = true ↔
      range.first ≤ n ∧ n ≤ range.last ∧ (n - range.first) % range.step = 0 := by
  simp only [covers, Bool.and_eq_true, decide_eq_true_eq, beq_iff_eq, and_assoc]

theorem toNat_image (hrange : range ∈ foldRanges) (h : range.covers n = true) :
    (Char.ofNat (range.image n)).toNat = range.image n := by
  obtain ⟨hfirst, hlast, -⟩ := covers_iff.1 h
  obtain ⟨-, htarget⟩ := foldRanges_targets range hrange
  have hvalid : (range.image n).isValidChar := by
    rw [image, Nat.isValidChar]
    omega
  rw [Char.ofNat, dif_pos hvalid]
  rfl

/-- The source of an image. -/
theorem source?_image (h : range.covers n = true) : range.source? (range.image n) = some n := by
  have hfirst := (covers_iff.1 h).1
  have hsource : range.first + (range.image n - range.target) = n := by
    rw [image]
    omega
  have htarget : range.target ≤ range.image n := Nat.le_add_right _ _
  simp [source?, hsource, h, htarget]

end FoldRange

/-- A character folds to its lower case, or to itself, or as a range of the table says. -/
theorem foldCase_cases (c : Char) :
    foldCase c = c.toLower ∨ foldCase c = c ∨ ∃ range ∈ foldRanges,
      range.covers c.toNat = true ∧ (foldCase c).toNat = range.image c.toNat := by
  by_cases hascii : c.toNat < 0x80
  · exact Or.inl (if_pos hascii)
  · rw [foldCase, if_neg hascii]
    split
    · next range hfind =>
      have hrange := List.mem_of_find?_eq_some hfind
      have hcovers := List.find?_some hfind
      exact Or.inr (Or.inr ⟨range, hrange, hcovers, FoldRange.toNat_image hrange hcovers⟩)
    · exact Or.inr (Or.inl rfl)

/-- Folding makes no `/`. -/
theorem foldCase_eq_slash_iff (c : Char) : foldCase c = '/' ↔ c = '/' := by
  constructor
  · intro h
    obtain hlower | hself | ⟨range, hrange, -, himage⟩ := foldCase_cases c
    · exact (toLower_eq_iff (by decide) c).1 (hlower.symm.trans h)
    · exact hself.symm.trans h
    · have htarget := (foldRanges_targets range hrange).1
      rw [h, FoldRange.image] at himage
      omega
  · rintro rfl
    rfl

theorem sameLetter_slash_iff {c : Char} : sameLetter '/' c = true ↔ c = '/' := by
  rw [sameLetter_iff, eq_comm]
  exact foldCase_eq_slash_iff c

/-- A character is one of its forms. -/
theorem mem_caseForms (c : Char) : c ∈ caseForms c := by
  have hself : foldCase c = c → c ∈ caseForms c := fun h => by
    rw [caseForms, h]
    exact List.mem_append_right _ List.mem_cons_self
  obtain hlower | hsame | ⟨range, hrange, hcovers, himage⟩ := foldCase_cases c
  · rcases toLower_eq_or_mem_capitals c with hc | hc
    · exact hself (hlower.trans hc)
    · have hall : capitals.all (fun c => c.toLower.isLower && c.toLower.toUpper == c) = true := by
        decide
      obtain ⟨hisLower, hupper⟩ := Bool.and_eq_true_iff.1 (List.all_eq_true.1 hall c hc)
      rw [caseForms, hlower, if_pos hisLower, beq_iff_eq.1 hupper]
      exact List.mem_append_left _ List.mem_cons_self
  · exact hself hsame
  · have hsource : c.toNat ∈ foldRanges.filterMap (·.source? (foldCase c).toNat) :=
      List.mem_filterMap.2 ⟨range, hrange, himage ▸ FoldRange.source?_image hcovers⟩
    refine List.mem_append_right _ (List.mem_cons_of_mem _ ?_)
    exact List.mem_map.2 ⟨c.toNat, hsource, Char.ofNat_toNat c⟩

/-- Characters that fold alike have the same forms. -/
theorem caseForms_congr {c d : Char} (h : foldCase c = foldCase d) : caseForms c = caseForms d := by
  rw [caseForms, caseForms, h]

end HttpGateway.Text
