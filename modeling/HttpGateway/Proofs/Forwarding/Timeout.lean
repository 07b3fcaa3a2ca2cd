import HttpGateway.Proofs.Expression.Concatenation
import HttpGateway.Proofs.Session.Values
import Mathlib.Data.Nat.Digits.Defs

/-!
# The time allowed

A text writes a time with decimal digits, perhaps after a `+`, whose value is positive and fits a
signed word of 64 bits (`WritesTime`). The time allowed is the one that the value of the setting
writes between its blanks, and four minutes if there is no value or it writes none (`AllowsTime`).
So it is never zero, and it is never cut to a word, however many digits there are
(`timeout_is_written_or_default`).
-/

namespace HttpGateway

open Text

namespace Forwarding

/-! ## Decimal digits -/

/-- The number that decimal digits write, the most significant first. -/
def decimalValue (digits : List Char) : Nat :=
  Nat.ofDigits 10 (digits.map fun c => c.toNat - '0'.toNat).reverse

variable {cs digits : List Char} {n : Nat}

theorem decimalValue_concat (digits : List Char) (c : Char) :
    decimalValue (digits ++ [c]) = 10 * decimalValue digits + (c.toNat - '0'.toNat) := by
  rw [decimalValue, List.map_append, List.reverse_append, List.map_singleton,
    List.reverse_singleton, List.singleton_append, Nat.ofDigits_cons, Nat.add_comm]
  rfl

/-- Reading digits from the left gives the number that they write. -/
theorem foldl_digits_eq (digits : List Char) :
    digits.foldl (fun n c => 10 * n + (c.toNat - '0'.toNat)) 0 = decimalValue digits := by
  induction digits using List.reverseRecOn with
  | nil => rfl
  | append_singleton digits c ih => rw [List.foldl_concat, ih, decimalValue_concat]

theorem decimal?_eq_some_iff :
    decimal? digits = some n ↔
      digits ≠ [] ∧ (∀ c ∈ digits, c.isDigit = true) ∧ decimalValue digits = n := by
  rw [decimal?, foldl_digits_eq, Option.ite_none_right_eq_some, List.all_eq_true, Option.some.injEq,
    and_assoc]

/-! ## Times -/

/-- Digits whose value is positive and fits a signed word of 64 bits. -/
structure IsTime (digits : List Char) : Prop where
  ne_nil : digits ≠ []
  isDigit : ∀ c ∈ digits, c.isDigit = true
  positive : 1 ≤ decimalValue digits
  fits : decimalValue digits ≤ 2 ^ 63 - 1

/-- A text writes a time. -/
inductive WritesTime : List Char → Nat → Prop
  | plain {digits : List Char} : IsTime digits → WritesTime digits (decimalValue digits)
  | signed {digits : List Char} : IsTime digits → WritesTime ('+' :: digits) (decimalValue digits)

theorem WritesTime.positive (h : WritesTime cs n) : 1 ≤ n := by
  cases h with
  | plain h => exact h.positive
  | signed h => exact h.positive

theorem WritesTime.fits (h : WritesTime cs n) : n ≤ 2 ^ 63 - 1 := by
  cases h with
  | plain h => exact h.fits
  | signed h => exact h.fits

theorem decimal?_bind_eq_some_iff :
    ((decimal? digits).bind fun m => if 1 ≤ m ∧ m ≤ maxTimeout then some m else none) = some n ↔
      IsTime digits ∧ decimalValue digits = n := by
  simp only [Option.bind_eq_some_iff, decimal?_eq_some_iff, Option.ite_none_right_eq_some,
    Option.some.injEq]
  constructor
  · rintro ⟨m, ⟨hne, hdigit, rfl⟩, ⟨hpositive, hfits⟩, rfl⟩
    exact ⟨⟨hne, hdigit, hpositive, hfits⟩, rfl⟩
  · rintro ⟨⟨hne, hdigit, hpositive, hfits⟩, rfl⟩
    exact ⟨_, ⟨hne, hdigit, rfl⟩, ⟨hpositive, hfits⟩, rfl⟩

/-- A time is read exactly if the text writes it between its blanks. -/
theorem timeout?_eq_some_iff {text : String} :
    timeout? text = some n ↔ WritesTime (trimChars text.toList) n := by
  rw [timeout?]
  generalize trimChars text.toList = cs
  show Option.bind _ _ = some n ↔ _
  rw [decimal?_bind_eq_some_iff]
  split
  · next digits =>
    constructor
    · rintro ⟨h, rfl⟩
      exact .signed h
    · intro h
      cases h with
      | plain h => exact absurd (h.isDigit '+' List.mem_cons_self) (by decide)
      | signed h => exact ⟨h, rfl⟩
  · next hsign =>
    constructor
    · rintro ⟨h, rfl⟩
      exact .plain h
    · intro h
      cases h with
      | plain h => exact ⟨h, rfl⟩
      | @signed digits _ => exact absurd rfl (hsign digits)

/-- Leading zeros do not count, and the greatest signed word is the limit. -/
example : timeout? " +0009223372036854775807 " = some 9223372036854775807 ∧
    timeout? "9223372036854775808" = none := by
  decide +kernel

/-- A blank text writes no time. -/
theorem not_writesTime_nil : ¬WritesTime [] n := by
  intro h
  cases h with
  | plain h => exact h.ne_nil rfl

/-! ## The time allowed -/

/-- The time that the value of a setting allows: the one that it writes between its blanks, and four
minutes if there is no value or it writes none. -/
structure AllowsTime (value : Option String) (ms : Nat) : Prop where
  written : ∀ text n, value = some text → WritesTime (trimChars text.toList) n → ms = n
  otherwise : (∀ text n, value = some text → ¬WritesTime (trimChars text.toList) n) → ms = 240000
  positive : 1 ≤ ms
  fits : ms ≤ 2 ^ 63 - 1

/-- A blank value is dropped, and it would write no time anyway. -/
theorem unlessBlank_bind_timeout? (text : String) :
    (unlessBlank text).bind timeout? = timeout? text := by
  rw [unlessBlank]
  split
  · next hblank =>
    have hnone : timeout? text = none := by
      rw [Option.eq_none_iff_forall_ne_some]
      intro n h
      rw [timeout?_eq_some_iff, List.isEmpty_iff.1 hblank] at h
      exact not_writesTime_nil h
    rw [hnone, Option.bind_none]
  · rw [Option.bind_some]

theorem timeoutOf_eq (evaluate : String → String) (timeout : Option String) :
    (timeoutOf (m := Id) evaluate timeout).run =
      ((timeout.map evaluate).bind timeout?).getD defaultTimeout := by
  cases timeout with
  | none => rfl
  | some text =>
    rw [Option.map_some, Option.bind_some, ← unlessBlank_bind_timeout?]
    rfl

/-- A setting allows the time that its value does. -/
theorem allowsTime_timeoutOf (evaluate : String → String) (timeout : Option String) :
    AllowsTime (timeout.map evaluate) (timeoutOf (m := Id) evaluate timeout).run := by
  rw [timeoutOf_eq]
  generalize timeout.map evaluate = value
  have hread : ∀ n, value.bind timeout? = some n ↔
      ∃ text, value = some text ∧ WritesTime (trimChars text.toList) n := by
    intro n
    simp only [Option.bind_eq_some_iff, timeout?_eq_some_iff]
  cases htime : value.bind timeout? with
  | none =>
    refine ⟨fun text n hvalue hwrites => ?_, fun _ => rfl, by decide, by decide⟩
    have hsome := (hread n).2 ⟨text, hvalue, hwrites⟩
    rw [htime] at hsome
    cases hsome
  | some n =>
    obtain ⟨text, hvalue, hwrites⟩ := (hread n).1 htime
    rw [Option.getD_some]
    refine ⟨fun other m hother hm => ?_, fun hnone => ?_, hwrites.positive, hwrites.fits⟩
    · have hsome := (hread m).2 ⟨other, hother, hm⟩
      exact Option.some.inj (htime.symm.trans hsome)
    · exact absurd hwrites (hnone text n hvalue)

end Forwarding

/-- **The time allowed is the one that is written, or four minutes.** It is positive and fits a
signed word, for every request and with every cache that has been reached, and so a session
answers. -/
theorem timeout_is_written_or_default :
    (∀ (resolved : Resolved) (timeout : Option String) request limit cache,
      Reached resolved.route.names limit cache →
        let scope := resolved.scope request
        Forwarding.AllowsTime (timeout.map scope.plainValue)
          ((Forwarding.timeoutOf scope.evaluate timeout).runWith cache).1) ∧
    ∀ limits steps held resolved proxy request,
      let session := (Session.start limits).after steps
      session.held? held = some resolved → resolved.route.settings.proxy = some proxy →
        ∃ evaluated cached, (session.step (.forward held request)).answer =
            .forwarding resolved.route proxy evaluated cached ∧
          Forwarding.AllowsTime
            (proxy.request.sender.timeoutMs.map (resolved.scope request).plainValue)
            evaluated.timeoutMs := by
  constructor
  · intro resolved timeout request limit cache hcache scope
    have hyields := Forwarding.yields_timeoutOf scope.yields_evaluate timeout
    rw [hyields.value_runWith hcache.faithful]
    exact Forwarding.allowsTime_timeoutOf scope.plainValue timeout
  · intro limits steps held resolved proxy request session hheld hproxy
    have hrecorded : session.IsRecorded := Session.isRecorded_after limits steps
    have hplain := Session.evaluatesPlainly hrecorded.cachesFaithfully hheld request
    exact ⟨_, _, hplain.forward proxy hproxy, Forwarding.allowsTime_timeoutOf _ _⟩

end HttpGateway
