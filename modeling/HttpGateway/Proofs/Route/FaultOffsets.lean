import HttpGateway.Proofs.Pattern.Offsets
import HttpGateway.Proofs.Route.Loading
import Mathlib.Data.List.DropRight

/-!
# The offset of a rejection

A route whose pattern is not read is rejected with the pattern as it is written in the settings and
with an offset in the pattern without its outer blanks. So the offending character stands as many
bytes later as the leading blanks take (`rejected_offset_points`), and the offset misses it in a
pattern that starts with a blank (`offset_misses_behind_blank`).
-/

namespace HttpGateway

open Text

namespace Text

/-- A text is what trimming leaves, between blanks. -/
theorem exists_eq_trimChars (cs : List Char) :
    ∃ trailing, cs = cs.takeWhile isBlank ++ (trimChars cs ++ trailing) := by
  refine ⟨(cs.dropWhile isBlank).rtakeWhile isBlank, ?_⟩
  rw [trimChars, ← List.rdropWhile, List.rdropWhile_append_rtakeWhile,
    List.takeWhile_append_dropWhile]

/-- The leading blanks take bytes, unless there are none. -/
theorem utf8Length_takeWhile_eq_zero_iff {p : Char → Bool} {cs : List Char} :
    utf8Length (cs.takeWhile p) = 0 ↔ ∀ c ∈ cs.head?, p c = false := by
  cases cs with
  | nil => simp
  | cons c cs =>
    have hpos := c.utf8Size_pos
    cases hc : p c with
    | true =>
      simp only [List.takeWhile_cons, hc, if_true, utf8Length_cons, List.head?_cons,
        Option.mem_def, Option.some.injEq, forall_eq', Bool.true_eq_false, iff_false]
      omega
    | false => simp [hc]

end Text

namespace PatternFault

variable {fault : PatternFault} {cs lead trailing : List Char}

theorem offender?_moveBy (fault : PatternFault) (bytes : Nat) :
    (fault.moveBy bytes).offender? = fault.offender? := by
  cases fault <;> rfl

theorem offset?_moveBy (fault : PatternFault) (bytes : Nat) :
    (fault.moveBy bytes).offset? = fault.offset?.map (· + bytes) := by
  cases fault <;> rfl

/-- In a longer text the offending character stands behind what comes before. -/
theorem PointsAt.append (h : fault.PointsAt cs) (lead trailing : List Char) :
    (fault.moveBy (utf8Length lead)).PointsAt (lead ++ (cs ++ trailing)) := by
  obtain ⟨before, c, after, rfl, hoffset, hc⟩ := h
  refine ⟨lead ++ before, c, after ++ trailing, ?_, ?_, ?_⟩
  · simp only [List.append_assoc, List.cons_append]
  · rw [offset?_moveBy, hoffset, Option.map_some, utf8Length_append, Nat.add_comm]
  · rw [offender?_moveBy, hc]

/-- A fault with an offset stays the same only where nothing comes before. -/
theorem moveBy_eq_self_iff {offset : Nat} (h : fault.offset? = some offset) {bytes : Nat} :
    fault.moveBy bytes = fault ↔ bytes = 0 := by
  refine ⟨fun heq => ?_, fun hzero => by rw [hzero, moveBy_zero]⟩
  have hsame := offset?_moveBy fault bytes
  rw [heq, h, Option.map_some, Option.some.injEq] at hsame
  omega

end PatternFault

/-- Only reading refuses a pattern with an offset. -/
theorem RefusedPattern.parse_eq_error {text : String} {fault : PatternFault}
    (h : RefusedPattern text fault) (hoffset : fault.offset? ≠ none) :
    Pattern.parse text = .error fault := by
  cases h with
  | reading hread => exact hread
  | checking _ hcheck => exact absurd (Pattern.offset?_of_check hcheck) hoffset
  | compiling => exact absurd rfl hoffset

/-- **The offset of a rejection counts from behind the leading blanks.** A route that is rejected
with an offset is reported with its pattern as it is written, where the offending character stands
so many bytes later as the leading blanks take. So the offset is the right one exactly if the
pattern starts with no blank. -/
theorem rejected_offset_points {generation : Nat} {settings : Settings} {built : LoadedSnapshot}
    (hload : Snapshot.load generation settings = .ok built) {index : Nat} {text : String}
    {cause : PatternFault} {offset : Nat}
    (hrejected : ⟨index, .pattern text cause⟩ ∈ built.summary.rejected)
    (hoffset : cause.offset? = some offset) :
    (∃ route, settings.routes[index]? = some route ∧ route.pattern = text) ∧
    (cause.moveBy (utf8Length (text.toList.takeWhile isBlank))).PointsAt text.toList ∧
    (cause.moveBy (utf8Length (text.toList.takeWhile isBlank)) = cause ↔
      ∀ c ∈ text.toList.head?, isBlank c = false) ∧
    ((∀ c ∈ text.toList.head?, isBlank c = false) → cause.PointsAt text.toList) := by
  rw [Snapshot.eq_loaded_of_load hload] at hrejected
  obtain ⟨route, hroute, hrefused⟩ :=
    ((Snapshot.sorts_loaded generation settings).rejected_iff index _).1 hrejected
  cases hrefused with
  | pattern _ hpattern =>
    have hread := hpattern.parse_eq_error (hoffset ▸ Option.some_ne_none offset)
    have hpoints := Pattern.pointsAt_of_parse hread
    rw [trim, String.toList_ofList] at hpoints
    obtain ⟨trailing, htext⟩ := exists_eq_trimChars route.pattern.toList
    have hmoved := hpoints.append (route.pattern.toList.takeWhile isBlank) trailing
    rw [← htext] at hmoved
    have hsame : cause.moveBy (utf8Length (route.pattern.toList.takeWhile isBlank)) = cause ↔
        ∀ c ∈ route.pattern.toList.head?, isBlank c = false :=
      (PatternFault.moveBy_eq_self_iff hoffset).trans utf8Length_takeWhile_eq_zero_iff
    exact ⟨⟨route, hroute, rfl⟩, hmoved, hsame, fun hstart => hsame.2 hstart ▸ hmoved⟩

/-- A pattern that is not read starts with a no-break space, which takes two bytes. -/
def unreadSettings : Settings where
  routes := [{ pattern := "/shop" }, { pattern := "\u00a0/é(a)()" }]

/-- The empty group opens at byte 6 of the trimmed pattern and at byte 8 of the pattern. -/
theorem rejected_offset_points_noBreakSpace :
    ∃ built, Snapshot.load 3 unreadSettings = .ok built ∧
      ⟨1, .pattern "\u00a0/é(a)()" (.emptyGroup 6)⟩ ∈ built.summary.rejected ∧
      (PatternFault.emptyGroup 8).PointsAt "\u00a0/é(a)()".toList := by
  have hnone : unreadSettings.globalFaults = [] := by decide +kernel
  have hload := Snapshot.load_of_globalFaults_eq_nil hnone 3
  have hrejected : ⟨1, .pattern "\u00a0/é(a)()" (.emptyGroup 6)⟩ ∈
      (Snapshot.loaded 3 unreadSettings).summary.rejected := by
    decide +kernel
  exact ⟨_, hload, hrejected, (rejected_offset_points hload hrejected rfl).2.1⟩

/-- Behind a leading blank the offset of a rejection misses the offending character: byte 0 of the
pattern is the blank. -/
theorem offset_misses_behind_blank :
    ∃ built, Snapshot.load 0 { routes := [{ pattern := " (a" }] } = .ok built ∧
      built.summary.rejected = [⟨0, .pattern " (a" (.unclosedGroup 0)⟩] ∧
      ¬(PatternFault.unclosedGroup 0).PointsAt " (a".toList := by
  refine ⟨_, Snapshot.load_of_globalFaults_eq_nil (by decide +kernel) 0, by decide +kernel, ?_⟩
  rintro ⟨before, c, after, htext, hoffset, hc⟩
  cases before with
  | nil =>
    obtain ⟨rfl, -⟩ := List.cons.inj (htext : [' ', '(', 'a'] = c :: after)
    cases hc
  | cons d before =>
    have hpos := utf8Length_pos (List.cons_ne_nil d before)
    rw [← Option.some.inj hoffset] at hpos
    exact absurd hpos (Nat.lt_irrefl 0)

end HttpGateway
