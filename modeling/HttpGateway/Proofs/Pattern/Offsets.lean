import HttpGateway.Proofs.Pattern.Refusals
import HttpGateway.Proofs.Pattern.Verdict

/-!
# The offsets of faults

A text that is not read is refused at the character that offends (`pointsAt_of_parse`); other faults
have no offset (`offset?_of_check`). A `/` before the text moves the fault by the one byte that it
takes, and a `/` behind the text leaves the fault as it is (`parse_slash_cons`,
`parse_append_slash`), since a separator stands before and behind any token, in no group and no
name.
-/

namespace HttpGateway

open Text

namespace PatternFault

/-- The character that offends, for a refusal while reading. -/
def offender? : PatternFault → Option Char
  | .unclosedGroup _ => some '('
  | .unopenedGroup _ => some ')'
  | .emptyGroup _ => some '('
  | .missingName _ => some ':'
  | _ => none

/-- The fault names the offset, in bytes, at which the offending character stands in the text. -/
def PointsAt (fault : PatternFault) (cs : List Char) : Prop :=
  ∃ before c after, cs = before ++ c :: after ∧ fault.offset? = some (utf8Length before) ∧
    fault.offender? = some c

/-- The fault, so many bytes later in the text. -/
def moveBy (bytes : Nat) : PatternFault → PatternFault
  | .unclosedGroup offset => .unclosedGroup (offset + bytes)
  | .unopenedGroup offset => .unopenedGroup (offset + bytes)
  | .emptyGroup offset => .emptyGroup (offset + bytes)
  | .missingName offset => .missingName (offset + bytes)
  | fault => fault

variable {fault : PatternFault}

@[simp] theorem moveBy_zero (fault : PatternFault) : fault.moveBy 0 = fault := by
  cases fault <;> rfl

/-- A fault without an offset stays the same wherever the text begins. -/
theorem moveBy_of_offset?_eq_none (h : fault.offset? = none) (bytes : Nat) :
    fault.moveBy bytes = fault := by
  cases fault with
  | unclosedGroup offset => cases h
  | unopenedGroup offset => cases h
  | emptyGroup offset => cases h
  | missingName offset => cases h
  | _ => rfl

end PatternFault

namespace Pattern

open Token

variable {ts before after : List Token} {t : Token} {fault : PatternFault} {cs : List Char}

/-- The outcome of reading says what the tokens say that the text is written with. -/
theorem explains_parse (hts : Separate ts) (hspell : ts.flatMap Token.spell = cs) :
    Explains ts (parse (String.ofList cs)) := by
  rw [parse, String.toList_ofList, scan, ← hspell, scanFrom_flatMap_spell hts]
  exact explains_assemble (.outside balanced_nil) inoffensive_nil ts

/-! ## The offending character -/

theorem pointsAt_token {c : Char} (hts : ts = before ++ t :: after) (ht : t.spell = [c])
    (hoffset : fault.offset? = some (writtenLength before)) (hc : fault.offender? = some c) :
    fault.PointsAt (ts.flatMap Token.spell) := by
  refine ⟨before.flatMap Token.spell, c, after.flatMap Token.spell, ?_, hoffset, hc⟩
  rw [hts, List.flatMap_append, List.flatMap_cons, ht, List.singleton_append]

/-- A fault of reading points at the token that is at fault. -/
theorem IsReadingFault.pointsAt (h : IsReadingFault ts fault) :
    fault.PointsAt (ts.flatMap Token.spell) := by
  cases h with
  | offence hts _ hoffence =>
    cases hoffence with
    | missingName => exact pointsAt_token hts rfl rfl rfl
    | unopenedGroup => exact pointsAt_token hts rfl rfl rfl
    | emptyGroup =>
      -- the fault is reported where the group opens
      rw [List.append_assoc, List.singleton_append] at hts
      exact pointsAt_token hts rfl rfl rfl
  | unclosedGroup hts => exact pointsAt_token hts rfl rfl rfl

/-- **A text that is not read is refused at the character that offends.** -/
theorem pointsAt_of_parse {text : String} (h : parse text = .error fault) :
    fault.PointsAt text.toList := by
  obtain ⟨ts, hts, hspell⟩ := exists_separate text.toList
  have hexplains := explains_parse hts hspell
  rw [String.ofList_toList] at hexplains
  exact hspell ▸ (hexplains.error_iff.1 h).pointsAt

/-! ## Separators around the tokens -/

theorem balanced_separator_cons_iff : Balanced (.separator :: ts) ↔ Balanced ts := by
  have hone : Balanced [.separator] := balanced_singleton nofun nofun
  refine ⟨fun h => ⟨?_, fun n => ?_⟩, hone.append⟩
  · have hclosed := h.closed
    rwa [List.count_cons_of_ne (by decide), List.count_cons_of_ne (by decide)] at hclosed
  · have hopened := h.opened (n + 1)
    rwa [List.take_succ_cons, List.count_cons_of_ne (by decide),
      List.count_cons_of_ne (by decide)] at hopened

theorem writtenLength_separator_cons (ts : List Token) :
    writtenLength (.separator :: ts) = writtenLength ts + 1 :=
  Nat.add_comm 1 (writtenLength ts)

/-- What offends behind some tokens offends one byte later behind a separator and these. -/
theorem Offence.separator_cons (h : Offence before t fault) :
    Offence (.separator :: before) t (fault.moveBy 1) := by
  cases h with
  | missingName =>
    rw [PatternFault.moveBy, ← writtenLength_separator_cons]
    exact .missingName
  | unopenedGroup hbefore =>
    rw [PatternFault.moveBy, ← writtenLength_separator_cons]
    exact .unopenedGroup (balanced_separator_cons_iff.2 hbefore)
  | @emptyGroup before =>
    rw [PatternFault.moveBy, ← writtenLength_separator_cons, ← List.cons_append]
    exact .emptyGroup

theorem exists_offence_of_separator_cons (h : Offence (.separator :: before) t fault) :
    ∃ cause, Offence before t cause := by
  generalize hall : Token.separator :: before = all at h
  cases h with
  | missingName => exact ⟨_, .missingName⟩
  | unopenedGroup hbalanced =>
    exact ⟨_, .unopenedGroup (balanced_separator_cons_iff.1 (hall ▸ hbalanced))⟩
  | @emptyGroup outer =>
    cases outer with
    | nil => cases hall
    | cons u outer =>
      obtain ⟨-, rfl⟩ := List.cons.inj hall
      exact ⟨_, .emptyGroup⟩

theorem not_offence_separator : ¬Offence before .separator fault := nofun

theorem Inoffensive.separator_cons (h : Inoffensive ts) : Inoffensive (.separator :: ts) := by
  intro before t after fault hts hoffence
  cases before with
  | nil =>
    obtain ⟨rfl, -⟩ := List.cons.inj hts
    exact not_offence_separator hoffence
  | cons u before =>
    obtain ⟨rfl, rfl⟩ := List.cons.inj hts
    obtain ⟨cause, hcause⟩ := exists_offence_of_separator_cons hoffence
    exact h before t after cause rfl hcause

theorem Inoffensive.concat_separator (h : Inoffensive ts) : Inoffensive (ts ++ [.separator]) :=
  inoffensive_concat_iff.2 ⟨h, fun _ => not_offence_separator⟩

/-- Behind a separator the fault is the same, one byte later. -/
theorem IsReadingFault.separator_cons (h : IsReadingFault ts fault) :
    IsReadingFault (.separator :: ts) (fault.moveBy 1) := by
  cases h with
  | offence hts hbefore hoffence =>
    subst hts
    exact .offence (List.cons_append).symm hbefore.separator_cons hoffence.separator_cons
  | unclosedGroup hts hinoffensive hafter =>
    subst hts
    rw [PatternFault.moveBy, ← writtenLength_separator_cons]
    exact .unclosedGroup (List.cons_append).symm hinoffensive.separator_cons hafter

/-- A separator at the end changes no fault. -/
theorem IsReadingFault.concat_separator (h : IsReadingFault ts fault) :
    IsReadingFault (ts ++ [.separator]) fault := by
  cases h with
  | offence hts hbefore hoffence =>
    subst hts
    exact .offence (List.append_assoc _ _ _) hbefore hoffence
  | unclosedGroup hts hinoffensive hafter =>
    subst hts
    exact .unclosedGroup (List.append_assoc _ _ _) hinoffensive.concat_separator
      (hafter.append (balanced_singleton nofun nofun))

theorem separate_separator_cons (h : Separate ts) : Separate (.separator :: ts) :=
  separate_cons_iff.2 ⟨trivial, fun _ _ => trivial, h⟩

/-- Every token may stand before a separator. -/
theorem fits_slash (t : Token) : t.Fits '/' := by
  cases t with
  | char c => exact fun _ => by decide
  | capture name => exact (by decide : continuesName '/' = false)
  | bareColon => exact (by decide : startsName '/' = false)
  | _ => trivial

theorem separate_concat_separator (h : Separate ts) : Separate (ts ++ [.separator]) := by
  refine separate_append_iff.2 ⟨h, separate_singleton_iff.2 trivial, fun t _ d hd => ?_⟩
  obtain rfl := Option.some.inj hd
  exact fits_slash t

/-- A `/` before a text that is not read moves the fault by one byte. -/
theorem parse_slash_cons (h : parse (String.ofList cs) = .error fault) :
    parse (String.ofList ('/' :: cs)) = .error (fault.moveBy 1) := by
  obtain ⟨ts, hts, hspell⟩ := exists_separate cs
  have hfault := (explains_parse hts hspell).error_iff.1 h
  refine (explains_parse (separate_separator_cons hts) ?_).error_iff.2 hfault.separator_cons
  rw [List.flatMap_cons, hspell]
  rfl

/-- A `/` behind a text that is not read changes nothing. -/
theorem parse_append_slash (h : parse (String.ofList cs) = .error fault) :
    parse (String.ofList (cs ++ ['/'])) = .error fault := by
  obtain ⟨ts, hts, hspell⟩ := exists_separate cs
  have hfault := (explains_parse hts hspell).error_iff.1 h
  refine (explains_parse (separate_concat_separator hts) ?_).error_iff.2 hfault.concat_separator
  rw [List.flatMap_append, hspell]
  rfl

end Pattern

end HttpGateway
