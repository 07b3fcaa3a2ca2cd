import HttpGateway.Proofs.Pattern.Yields
import HttpGateway.Proofs.Route.CanonicalForm
import HttpGateway.Proofs.Route.FaultOffsets

/-!
# The meaning of the canonical form

A route pattern and its canonical form mean the same (`canonicalRoute_keeps_meaning`). If the
pattern is read, both have one core, unless the pattern is empty (`core_slashed`), and nothing but
the core decides whether there is a matcher and which (`matcherOf_eq_of_core_eq`). If it is not
read, the fault is the same, moved by the `/` that the canonical form starts with.
-/

namespace HttpGateway

open Text

namespace Pattern

variable {p q : Pattern} {fault : PatternFault} {cs : List Char}

/-! ## Nothing but the core counts -/

/-- The rules do not see the separators that the core leaves out. -/
theorem check_core (p : Pattern) : p.check = (sequence p.core).check := by
  obtain ⟨front, back, hitems, hfront, hback⟩ := exists_items_eq_core p
  have hvisits : visits p = visitsAll front ++ visits (sequence p.core) ++ visitsAll back := by
    rw [← visitsAll_items p, hitems, visitsAll_append, visitsAll_append, visits, List.append_assoc]
  have hends : ∀ ps : List Pattern, ps = [] ∨ ps = [.separator] →
      visitsAll ps = [] ∨ visitsAll ps = [.separator] := by
    rintro ps (rfl | rfl)
    · exact Or.inl rfl
    · exact Or.inr rfl
  exact check_eq_of_visits (hends front hfront) (hends back hback) hvisits

theorem compile_eq_of_core_eq (h : p.core = q.core) : Matcher.compile p = Matcher.compile q := by
  rw [Matcher.compile, Matcher.compile, ← captureNamesAll_core p, ← captureNamesAll_core q, h]

/-- Two patterns with the same core have the same matcher, or neither has one for the same
reason. -/
theorem matcherOf_eq_of_core_eq {text other : String} (hp : parse text = .ok p)
    (hq : parse other = .ok q) (h : p.core = q.core) :
    Route.matcherOf text = Route.matcherOf other := by
  rw [Route.matcherOf, Route.matcherOf, hp, hq]
  change (p.check >>= fun _ => (Matcher.compile p).mapError .compile) =
    (q.check >>= fun _ => (Matcher.compile q).mapError .compile)
  rw [check_core p, check_core q, compile_eq_of_core_eq h, h]

/-! ## The characters that the canonical form adds -/

/-- The `/` that the canonical form starts with, unless the characters do. -/
def slashBefore (cs : List Char) : List Char := if cs.head? = some '/' then [] else ['/']

/-- The `/` that the canonical form ends with, unless the characters do. -/
def slashBehind (cs : List Char) : List Char := if cs.getLast? = some '/' then [] else ['/']

theorem openedChars_eq (cs : List Char) : openedChars cs = slashBefore cs ++ cs := by
  rw [slashBefore]
  split
  · next hslash =>
    obtain ⟨rest, rfl⟩ := List.head?_eq_some_iff.1 hslash
    rfl
  · next hslash =>
    unfold openedChars
    split
    · exact absurd rfl hslash
    · rfl

theorem closedChars_eq (cs : List Char) : closedChars cs = cs ++ slashBehind cs := by
  rw [closedChars, slashBehind]
  split
  · rw [List.append_nil]
  · rfl

theorem exists_openedChars_eq_cons (cs : List Char) : ∃ rest, openedChars cs = '/' :: rest := by
  unfold openedChars
  split
  · exact ⟨_, rfl⟩
  · exact ⟨_, rfl⟩

theorem getLast?_closedChars (cs : List Char) : (closedChars cs).getLast? = some '/' := by
  rw [closedChars]
  split
  · assumption
  · exact List.getLast?_concat

/-- Characters that neither start nor end with a blank are left alone. -/
theorem trimChars_eq_self {c d : Char} {rest : List Char} (hhead : cs = c :: rest)
    (hlast : cs.getLast? = some d) (hc : isBlank c = false) (hd : isBlank d = false) :
    trimChars cs = cs := by
  have hfirst : cs.dropWhile isBlank = cs := by
    rw [hhead, List.dropWhile_cons_of_neg (by simp [hc])]
  obtain ⟨init, rfl⟩ := List.getLast?_eq_some_iff.1 hlast
  rw [trimChars, hfirst, ← List.rdropWhile, List.rdropWhile_concat_neg _ _ _ (by simp [hd])]

/-- A text that starts and ends with a `/` is its own canonical form. -/
theorem canonicalRoute_eq_self {text : String} {rest : List Char}
    (hhead : text.toList = '/' :: rest) (hlast : text.toList.getLast? = some '/') :
    canonicalRoute text = text := by
  have htrim := trimChars_eq_self hhead hlast (by decide) (by decide)
  have hopened : openedChars text.toList = text.toList := by
    rw [hhead]
    rfl
  rw [canonicalRoute_eq, htrim, hopened, closedChars, if_pos hlast, String.ofList_toList]

/-- The canonical form is its own canonical form. -/
theorem canonicalRoute_canonicalRoute (text : String) :
    canonicalRoute (canonicalRoute text) = canonicalRoute text := by
  obtain ⟨rest, hopened⟩ := exists_openedChars_eq_cons (trimChars text.toList)
  have htext : (canonicalRoute text).toList = closedChars ('/' :: rest) := by
    rw [canonicalRoute_eq, String.toList_ofList, hopened]
  have hhead : (canonicalRoute text).toList = '/' :: (rest ++ slashBehind ('/' :: rest)) := by
    rw [htext, closedChars_eq, List.cons_append]
  refine canonicalRoute_eq_self hhead ?_
  rw [htext, getLast?_closedChars]

/-! ## Texts that are not read -/

theorem parse_openedChars (h : parse (String.ofList cs) = .error fault) :
    parse (String.ofList (openedChars cs)) = .error (fault.moveBy (slashBefore cs).length) := by
  rw [openedChars_eq, slashBefore]
  split
  · rwa [List.nil_append, List.length_nil, PatternFault.moveBy_zero]
  · exact parse_slash_cons h

theorem parse_closedChars (h : parse (String.ofList cs) = .error fault) :
    parse (String.ofList (closedChars cs)) = .error fault := by
  rw [closedChars]
  split
  · exact h
  · exact parse_append_slash h

/-- The canonical form of a pattern that is not read is not read either. -/
theorem parse_canonicalRoute_of_error {text : String} (h : parse (trim text) = .error fault) :
    parse (canonicalRoute text) =
      .error (fault.moveBy (slashBefore (trimChars text.toList)).length) := by
  rw [canonicalRoute_eq]
  exact parse_closedChars (parse_openedChars h)

end Pattern

/-! ## Outcomes that mean the same -/

/-- Two outcomes of reading, checking and compiling mean the same: there are matchers with one
regular expression and the same names, which match the same paths in the same way, or the faults
are the same but for the offset, which is so many bytes larger for the second text. -/
inductive SameMeaning (bytes : Nat) :
    Except PatternFault Matcher → Except PatternFault Matcher → Prop
  | ready {matcher other : Matcher} : other.regex = matcher.regex → other.names = matcher.names →
    (∀ path, other.match? path = matcher.match? path) → SameMeaning bytes (.ok matcher) (.ok other)
  | refused (fault : PatternFault) : SameMeaning bytes (.error fault) (.error (fault.moveBy bytes))

open Pattern

variable {text : String} {p : Pattern}

/-- Where a pattern is read, the outcome has no offset that would move. -/
theorem sameMeaning_of_parse (h : parse text = .ok p) (bytes : Nat) :
    SameMeaning bytes (Route.matcherOf text) (Route.matcherOf text) := by
  cases hmatcher : Route.matcherOf text with
  | ok matcher => exact .ready rfl rfl fun _ => rfl
  | error fault =>
    have hrefused := Route.matcherOf_eq_error_iff.1 hmatcher
    have hnone : fault.offset? = none := by
      by_contra hoffset
      have herror := hrefused.parse_eq_error hoffset
      rw [h] at herror
      cases herror
    have hsame : SameMeaning bytes (.error fault) (.error (fault.moveBy bytes)) := .refused fault
    rwa [PatternFault.moveBy_of_offset?_eq_none hnone] at hsame

/-- The empty pattern is read as an empty literal and its canonical form as a separator, which the
core leaves out. -/
theorem sameMeaning_of_parse_empty (h : parse (trim text) = .ok empty) (bytes : Nat) :
    SameMeaning bytes (Route.matcherOf (trim text)) (Route.matcherOf (canonicalRoute text)) := by
  have hmatcher : Route.matcherOf (trim text) = .ok ⟨empty.core, []⟩ :=
    Route.matcherOf_eq_ok_iff.2 ⟨empty, h, rfl,
      Matcher.compile_of_limits (by decide) (by decide) (by decide +kernel)⟩
  have hcanonical : Route.matcherOf (canonicalRoute text) = .ok ⟨empty.slashed.core, []⟩ :=
    Route.matcherOf_eq_ok_iff.2 ⟨empty.slashed, parse_canonicalRoute h, rfl,
      Matcher.compile_of_limits (by decide) (by decide) (by decide +kernel)⟩
  rw [hmatcher, hcanonical]
  refine .ready rfl rfl fun path => ?_
  rw [Matcher.match?, Matcher.match?, find_slashed (canonical_of_parse h)]

/-- **The canonical form of a route pattern keeps its meaning.** It is the trimmed pattern with a
`/` before it and behind it where these are missing, and is its own canonical form. The trimmed
pattern and the canonical form are both accepted, with one regular expression, the same names and
the same answer for each path, or they are refused with the same fault, whose offset, if it has one,
is larger by the `/` that was put before. -/
theorem canonicalRoute_keeps_meaning (text : String) :
    (canonicalRoute text).toList =
      slashBefore (trim text).toList ++ (trim text).toList ++
        slashBehind (slashBefore (trim text).toList ++ (trim text).toList) ∧
    canonicalRoute (canonicalRoute text) = canonicalRoute text ∧
    SameMeaning (slashBefore (trim text).toList).length
      (Route.matcherOf (trim text)) (Route.matcherOf (canonicalRoute text)) := by
  refine ⟨?_, canonicalRoute_canonicalRoute text, ?_⟩
  · rw [canonicalRoute_eq, String.toList_ofList, closedChars_eq, openedChars_eq, trim,
      String.toList_ofList]
  cases hread : parse (trim text) with
  | error fault =>
    have hcanonical := parse_canonicalRoute_of_error hread
    rw [Route.matcherOf_eq_error_iff.2 (.reading hread),
      Route.matcherOf_eq_error_iff.2 (.reading hcanonical), trim, String.toList_ofList]
    exact .refused fault
  | ok p =>
    by_cases hempty : p = empty
    · subst hempty
      exact sameMeaning_of_parse_empty hread _
    · have hcore : p.core = p.slashed.core := by
        rw [core_slashed (canonical_of_parse hread), writtenItems, if_neg hempty, core]
      rw [← matcherOf_eq_of_core_eq hread (parse_canonicalRoute hread) hcore]
      exact sameMeaning_of_parse hread _

example : canonicalRoute " (a\\" = "/(a\\/" := by decide

example : Route.matcherOf "(a\\" = .error (.unclosedGroup 0) := rfl

example : Route.matcherOf "/(a\\/" = .error (.unclosedGroup 1) := rfl

end HttpGateway
