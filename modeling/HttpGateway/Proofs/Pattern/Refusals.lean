import HttpGateway.Pattern.Written
import HttpGateway.Proofs.Pattern.Tokens

/-!
# Why a text is not read

A text is read as a pattern exactly if every `:` in it has a name, its groups are balanced and none
of them is empty. Any other text is refused for its leftmost offence or, if no token offends, for
the innermost group that is left open (`IsReadingFault`, `parse_outcome`). The offset that a refusal
names is the length in bytes of what is written before the token.
-/

namespace HttpGateway.Pattern

open Text Token

/-! ## Balanced groups -/

/-- Every `(` is closed, and no `)` closes nothing. -/
structure Balanced (ts : List Token) : Prop where
  closed : ts.count .opening = ts.count .closing
  opened : ∀ n, (ts.take n).count .closing ≤ (ts.take n).count .opening

variable {ts before inner outer more after : List Token} {t : Token} {fault : PatternFault}

theorem balanced_nil : Balanced [] := ⟨rfl, fun n => by simp⟩

theorem balanced_singleton (hopening : t ≠ .opening) (hclosing : t ≠ .closing) : Balanced [t] := by
  refine ⟨by simp [hopening, hclosing], fun n => ?_⟩
  cases n with
  | zero => simp
  | succ n => simp [hclosing]

theorem Balanced.append (h : Balanced before) (hmore : Balanced more) :
    Balanced (before ++ more) := by
  refine ⟨?_, fun n => ?_⟩
  · rw [List.count_append, List.count_append, h.closed, hmore.closed]
  · rw [List.take_append, List.count_append, List.count_append]
    exact Nat.add_le_add (h.opened n) (hmore.opened _)

/-- Balanced tokens between brackets are balanced. -/
theorem Balanced.group (h : Balanced inner) : Balanced (.opening :: (inner ++ [.closing])) := by
  refine ⟨by simp [h.closed], fun n => ?_⟩
  cases n with
  | zero => simp
  | succ n =>
    have hinner := h.opened n
    have hlast : ([Token.closing].take (n - inner.length)).count .closing ≤ 1 := by
      cases n - inner.length <;> simp
    rw [List.take_succ_cons, List.take_append, List.count_cons_of_ne (by decide),
      List.count_cons_self, List.count_append, List.count_append]
    omega

/-- A group that is left open is not balanced. -/
theorem not_balanced_of_unclosed (hinner : Balanced inner) :
    ¬Balanced (outer ++ .opening :: inner) := by
  intro h
  have houter := h.opened outer.length
  have htotal := h.closed
  rw [List.take_left] at houter
  rw [List.count_append, List.count_append, List.count_cons_self,
    List.count_cons_of_ne (by decide), hinner.closed] at htotal
  omega

/-- A `)` that closes nothing is not balanced. -/
theorem not_balanced_of_unopened (hbefore : Balanced before) :
    ¬Balanced (before ++ .closing :: after) := by
  intro h
  have hplace := h.opened (before ++ [Token.closing]).length
  rw [List.append_cons before .closing after, List.take_left, List.count_append, List.count_append,
    hbefore.closed, List.count_singleton_self, List.count_singleton, if_neg (by decide)] at hplace
  omega

/-! ## Offences -/

/-- The length in bytes of what is written with the tokens. -/
def writtenLength (ts : List Token) : Nat := utf8Length (ts.flatMap Token.spell)

/-- A token offends where it stands, behind other tokens. -/
inductive Offence : List Token → Token → PatternFault → Prop
  /-- No name follows a `:`. -/
  | missingName {before : List Token} :
    Offence before .bareColon (.missingName (writtenLength before))
  /-- A `)` closes nothing: all groups before it are closed. -/
  | unopenedGroup {before : List Token} :
    Balanced before → Offence before .closing (.unopenedGroup (writtenLength before))
  /-- A `)` comes directly after its `(`. -/
  | emptyGroup {before : List Token} :
    Offence (before ++ [.opening]) .closing (.emptyGroup (writtenLength before))

/-- No token offends. -/
def Inoffensive (ts : List Token) : Prop :=
  ∀ before t after fault, ts = before ++ t :: after → ¬Offence before t fault

/-- The fault for which a text with these tokens is not read. -/
inductive IsReadingFault (ts : List Token) : PatternFault → Prop
  /-- The leftmost offence decides. -/
  | offence {before after : List Token} {t : Token} {fault : PatternFault} :
    ts = before ++ t :: after → Inoffensive before → Offence before t fault →
      IsReadingFault ts fault
  /-- No token offends, but a group is left open. It is the innermost one, since all groups that are
  opened after it are closed. -/
  | unclosedGroup {before after : List Token} :
    ts = before ++ .opening :: after → Inoffensive ts → Balanced after →
      IsReadingFault ts (.unclosedGroup (writtenLength before))

theorem writtenLength_concat (ts : List Token) (t : Token) :
    writtenLength (ts ++ [t]) = writtenLength ts + utf8Length t.spell := by
  simp [writtenLength]

theorem inoffensive_nil : Inoffensive [] := fun before t after _ h => by simp at h

theorem inoffensive_concat_iff :
    Inoffensive (before ++ [t]) ↔ Inoffensive before ∧ ∀ fault, ¬Offence before t fault := by
  refine ⟨fun h => ⟨fun earlier u later fault heq => ?_, fun fault => ?_⟩,
    fun h earlier u later fault heq => ?_⟩
  · exact h earlier u (later ++ [t]) fault (by simp [heq])
  · exact h before t [] fault rfl
  · obtain ⟨hbefore, ht⟩ := h
    obtain rfl | ⟨later, last, rfl⟩ := List.eq_nil_or_concat' later
    · obtain ⟨rfl, hu⟩ := List.append_inj' heq rfl
      obtain rfl := (List.cons.inj hu).1
      exact ht fault
    · rw [← List.cons_append, ← List.append_assoc] at heq
      exact hbefore earlier u later fault (List.append_inj' heq rfl).1

/-- No token stands before an offence that follows inoffensive tokens. -/
theorem Offence.le (h : Offence before t fault) {earlier rest : List Token}
    (hearlier : Inoffensive earlier) (heq : before ++ t :: after = earlier ++ rest) :
    ∃ more, before = earlier ++ more ∧ rest = more ++ t :: after := by
  obtain ⟨more, rfl, hrest⟩ | ⟨more, hbefore, hrest⟩ := List.append_eq_append_iff.1 heq
  · cases more with
    | nil => exact ⟨[], by simp, by simpa using hrest.symm⟩
    | cons u more =>
      obtain ⟨rfl, -⟩ := List.cons.inj hrest
      exact absurd h (hearlier before t more fault rfl)
  · exact ⟨more, hbefore, hrest⟩

theorem Offence.unique {other : PatternFault} (h : Offence before t fault)
    (hother : Offence before t other) : fault = other := by
  generalize hsame : before = same at hother
  cases h with
  | missingName => cases hother; rw [hsame]
  | unopenedGroup hbalanced =>
    cases hother with
    | unopenedGroup => rw [hsame]
    | emptyGroup => exact absurd (hsame ▸ hbalanced) (not_balanced_of_unclosed balanced_nil)
  | emptyGroup =>
    cases hother with
    | unopenedGroup hbalanced =>
      exact absurd (hsame ▸ hbalanced) (not_balanced_of_unclosed balanced_nil)
    | emptyGroup => rw [List.append_cancel_right hsame]

/-- A `)` does not offend behind an open group that is not empty. -/
theorem not_offence_closing (hinner : Balanced inner) (hne : inner ≠ []) :
    ¬Offence (outer ++ .opening :: inner) .closing fault := by
  intro h
  obtain ⟨init, last, rfl⟩ := (List.eq_nil_or_concat' inner).resolve_left hne
  generalize hbefore : outer ++ .opening :: (init ++ [last]) = before at h
  cases h with
  | unopenedGroup hbalanced =>
    exact not_balanced_of_unclosed hinner (hbefore ▸ hbalanced)
  | emptyGroup =>
    rw [← List.cons_append, ← List.append_assoc] at hbefore
    obtain rfl := (List.cons.inj (List.append_inj' hbefore rfl).2).1
    exact not_balanced_of_unclosed balanced_nil hinner

/-- Of the groups that are left open only one is the innermost. -/
theorem eq_of_unclosed {others : List Token} (hafter : Balanced after) (hothers : Balanced others)
    (heq : before ++ .opening :: after = outer ++ .opening :: others) : before = outer := by
  obtain ⟨more, rfl, hrest⟩ | ⟨more, rfl, hrest⟩ := List.append_eq_append_iff.1 heq
  · cases more with
    | nil => simp
    | cons u more =>
      obtain ⟨rfl, rfl⟩ := List.cons.inj hrest
      exact absurd hafter (not_balanced_of_unclosed hothers)
  · cases more with
    | nil => simp
    | cons u more =>
      obtain ⟨rfl, rfl⟩ := List.cons.inj hrest
      exact absurd hothers (not_balanced_of_unclosed hafter)

/-- A text is not read for one fault at most. -/
theorem IsReadingFault.unique {other : PatternFault} (h : IsReadingFault ts fault)
    (hother : IsReadingFault ts other) : fault = other := by
  cases h with
  | @offence before after t _ heq hbefore hoffence =>
    cases hother with
    | @offence before' after' t' _ heq' hbefore' hoffence' =>
      -- neither of the two places comes before the other one
      rw [heq] at heq'
      obtain ⟨more, rfl, hrest⟩ := hoffence.le hbefore' heq'
      obtain ⟨back, hback, -⟩ := hoffence'.le hbefore heq'.symm
      obtain rfl : more = [] := by
        rw [List.append_assoc, List.self_eq_append_right] at hback
        exact (List.append_eq_nil_iff.1 hback).1
      obtain ⟨rfl, rfl⟩ := List.cons.inj hrest
      rw [List.append_nil] at hoffence
      exact hoffence.unique hoffence'
    | unclosedGroup _ hinoffensive _ => exact absurd hoffence (hinoffensive _ _ _ _ heq)
  | unclosedGroup heq hinoffensive hafter =>
    cases hother with
    | offence heq' _ hoffence => exact absurd hoffence (hinoffensive _ _ _ _ heq')
    | unclosedGroup heq' _ hafter' => rw [eq_of_unclosed hafter hafter' (heq.symm.trans heq')]

/-- Balanced tokens do not offend exactly if every `:` has a name and no group is empty. -/
theorem inoffensive_iff (h : Balanced ts) :
    Inoffensive ts ↔ .bareColon ∉ ts ∧ ¬[.opening, .closing] <:+: ts := by
  refine ⟨fun hinoffensive => ⟨fun hcolon => ?_, fun hempty => ?_⟩,
    fun hclean before t after fault heq hoffence => ?_⟩
  · obtain ⟨before, after, rfl⟩ := List.append_of_mem hcolon
    exact hinoffensive before .bareColon after _ rfl .missingName
  · obtain ⟨before, after, rfl⟩ := hempty
    exact hinoffensive (before ++ [.opening]) .closing after _ (by simp) .emptyGroup
  · subst heq
    obtain ⟨hcolon, hempty⟩ := hclean
    cases hoffence with
    | missingName => exact hcolon (by simp)
    | unopenedGroup hbefore => exact not_balanced_of_unopened hbefore h
    | @emptyGroup outer => exact hempty ⟨outer, after, by simp⟩

/-! ## The outcome of reading -/

/-- What the outcome of reading says of the tokens. -/
def Explains (ts : List Token) : Except PatternFault Pattern → Prop
  | .ok _ => Inoffensive ts ∧ Balanced ts
  | .error fault => IsReadingFault ts fault

/-- The tokens with the offsets at which they are written, from a given one on. -/
def place (offset : Nat) : List Token → List PlacedToken
  | [] => []
  | t :: ts => ⟨offset, t⟩ :: place (offset + utf8Length t.spell) ts

theorem scanFrom_flatMap_spell (h : Separate ts) (offset : Nat) :
    scanFrom 0 offset (ts.flatMap Token.spell) = place offset ts := by
  induction ts generalizing offset with
  | nil => rfl
  | cons t ts ih =>
    obtain ⟨hproper, hfits, hts⟩ := separate_cons_iff.1 h
    rw [List.flatMap_cons, scanFrom_spell hproper hfits, ih hts, place]

/-- What reading has come to behind some tokens: the groups that are open, the innermost first, and
whether there are items since the last `(`. -/
inductive Pending : List OpenGroup → List Pattern → List Token → Prop
  | outside {items : List Pattern} {before : List Token} :
    Balanced before → Pending [] items before
  | inside {group : OpenGroup} {groups : List OpenGroup} {items : List Pattern}
    {outer inner : List Token} :
    Pending groups group.before outer → group.offset = writtenLength outer → Balanced inner →
      (items = [] ↔ inner = []) → Pending (group :: groups) items (outer ++ .opening :: inner)

variable {groups : List OpenGroup} {items newer : List Pattern}

/-- Reading goes on behind tokens that open and close groups of their own only. -/
theorem Pending.append (h : Pending groups items before) (hmore : Balanced more) (hne : more ≠ [])
    (hnewer : newer ≠ []) : Pending groups newer (before ++ more) := by
  cases h with
  | outside hbefore => exact .outside (hbefore.append hmore)
  | inside houter hoffset hinner =>
    rw [List.append_assoc, List.cons_append]
    exact .inside houter hoffset (hinner.append hmore)
      (iff_of_false hnewer (mt List.append_eq_nil_iff.1 fun hnil => hne hnil.2))

theorem addChar_ne_nil (c : Char) (items : List Pattern) : addChar c items ≠ [] := by
  unfold addChar
  split <;> simp

/-- **Reading reports the leftmost offence**, or the innermost group that is left open. -/
theorem explains_assemble (h : Pending groups items before) (hbefore : Inoffensive before)
    (rest : List Token) :
    Explains (before ++ rest) (assemble groups items (place (writtenLength before) rest)) := by
  induction rest generalizing groups items before with
  | nil =>
    rw [List.append_nil, place]
    cases h with
    | outside hbalanced => exact ⟨hbefore, hbalanced⟩
    | @inside group groups items outer inner houter hoffset hinner =>
      rw [assemble, hoffset]
      exact .unclosedGroup rfl hbefore hinner
  | cons t rest ih =>
    -- a token that does not offend is left behind
    have hnext : ∀ {groups items}, Pending groups items (before ++ [t]) →
        (∀ fault, ¬Offence before t fault) →
        Explains (before ++ t :: rest)
          (assemble groups items (place (writtenLength before + utf8Length t.spell) rest)) := by
      intro groups items hpending ht
      rw [List.append_cons, ← writtenLength_concat]
      exact ih hpending (inoffensive_concat_iff.2 ⟨hbefore, ht⟩)
    rw [place]
    cases t with
    | char c =>
      rw [assemble]
      exact hnext
        (h.append (balanced_singleton nofun nofun) (by simp) (addChar_ne_nil c items)) nofun
    | separator =>
      rw [assemble]
      exact hnext (h.append (balanced_singleton nofun nofun) (by simp) (by simp)) nofun
    | wildcard =>
      rw [assemble]
      exact hnext (h.append (balanced_singleton nofun nofun) (by simp) (by simp)) nofun
    | capture name =>
      rw [assemble]
      exact hnext (h.append (balanced_singleton nofun nofun) (by simp) (by simp)) nofun
    | bareColon =>
      rw [assemble]
      exact .offence rfl hbefore .missingName
    | opening =>
      rw [assemble]
      exact hnext (.inside h rfl balanced_nil (iff_of_true rfl rfl)) nofun
    | closing =>
      cases h with
      | outside hbalanced =>
        rw [assemble]
        exact .offence rfl hbefore (.unopenedGroup hbalanced)
      | @inside group groups items outer inner houter hoffset hinner hitems =>
        cases items with
        | nil =>
          obtain rfl := hitems.1 rfl
          rw [assemble, hoffset]
          exact .offence rfl hbefore .emptyGroup
        | cons item items =>
          rw [assemble]
          · have hne : inner ≠ [] := mt hitems.2 (by simp)
            refine hnext ?_ fun fault => not_offence_closing hinner hne
            rw [List.append_assoc, List.cons_append]
            exact houter.append hinner.group (by simp) (by simp)
          · simp

theorem Explains.ok_iff {outcome : Except PatternFault Pattern} (h : Explains ts outcome) :
    (∃ p, outcome = .ok p) ↔ .bareColon ∉ ts ∧ Balanced ts ∧ ¬[.opening, .closing] <:+: ts := by
  cases outcome with
  | ok p =>
    obtain ⟨hinoffensive, hbalanced⟩ := h
    obtain ⟨hcolon, hempty⟩ := (inoffensive_iff hbalanced).1 hinoffensive
    exact iff_of_true ⟨p, rfl⟩ ⟨hcolon, hbalanced, hempty⟩
  | error fault =>
    refine iff_of_false nofun fun ⟨hcolon, hbalanced, hempty⟩ => ?_
    cases h with
    | offence heq _ hoffence =>
      exact (inoffensive_iff hbalanced).2 ⟨hcolon, hempty⟩ _ _ _ _ heq hoffence
    | unclosedGroup heq _ hafter => exact not_balanced_of_unclosed hafter (heq ▸ hbalanced)

theorem Explains.error_iff {outcome : Except PatternFault Pattern} (h : Explains ts outcome) :
    outcome = .error fault ↔ IsReadingFault ts fault := by
  refine ⟨fun houtcome => ?_, fun hfault => ?_⟩
  · rwa [houtcome] at h
  · cases outcome with
    | ok p =>
      obtain ⟨hinoffensive, hbalanced⟩ := h
      cases hfault with
      | offence heq _ hoffence => exact absurd hoffence (hinoffensive _ _ _ _ heq)
      | unclosedGroup heq _ hafter =>
        exact absurd (heq ▸ hbalanced) (not_balanced_of_unclosed hafter)
    | error other => rw [IsReadingFault.unique h hfault]

/-- **A text is read or refused for what its tokens say.** It is cut into tokens in one way. It is
read exactly if every `:` has a name, the groups are balanced and none is empty. It is refused for
the leftmost offence, or for the innermost group that is left open if no token offends. -/
theorem parse_outcome (text : String) : ∃ ts : List Token,
    (∀ other, Separate other ∧ other.flatMap Token.spell = text.toList ↔ other = ts) ∧
    ((∃ p, parse text = .ok p) ↔
      .bareColon ∉ ts ∧ Balanced ts ∧ ¬[.opening, .closing] <:+: ts) ∧
    ∀ fault, parse text = .error fault ↔ IsReadingFault ts fault := by
  obtain ⟨ts, hts, hspell⟩ := exists_separate text.toList
  have hexplains : Explains ts (parse text) := by
    rw [parse, scan, ← hspell, scanFrom_flatMap_spell hts]
    exact explains_assemble (.outside balanced_nil) inoffensive_nil ts
  refine ⟨ts, fun other => ?_, hexplains.ok_iff, fun fault => hexplains.error_iff⟩
  rw [← tokens_scan_iff, tokens_scan_iff.2 ⟨hts, hspell⟩, eq_comm]

/-- The empty group comes before the `)` that closes nothing, and `é` takes two bytes. -/
example : parse "/é(a)()/b)" = .error (.emptyGroup 6) := by rfl

/-- The outer group is left open as well as the inner one. -/
example : parse "/\\((a)(b(c" = .error (.unclosedGroup 8) := by rfl

end HttpGateway.Pattern
