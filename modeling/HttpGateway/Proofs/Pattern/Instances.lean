import HttpGateway.Pattern.Matching

/-!
# Instances of a pattern

An instance of a pattern is a text that the pattern stands for, together with the choices that lead
to it and the texts of the captures that take part (`HasInstance`). A text can be an instance in
several ways. They are compared by their choices from left to right (`Preferred`): an optional is
present rather than absent, and a capture or wildcard takes a longer text rather than a shorter one.
-/

namespace HttpGateway.Pattern

open Text

/-! ## Choices -/

/-- A choice that is made while a path is matched. -/
inductive Choice where
  /-- Consume the leading `/` of the path, or not. -/
  | lead (consumed : Bool)
  /-- Take the child of an optional, or nothing. -/
  | group (present : Bool)
  /-- The text that a capture or a wildcard takes. -/
  | segment (taken : List Char)
deriving DecidableEq

/-- The first choice comes before the second one. -/
def Choice.Before : Choice → Choice → Prop
  | .lead a, .lead b => a = true ∧ b = false
  | .group a, .group b => a = true ∧ b = false
  | .segment v, .segment w => w.length < v.length
  | _, _ => False

/-- The first choices come before the second ones: the earliest difference decides. -/
def Preferred (as bs : List Choice) : Prop :=
  ∃ shared c d cs ds, as = shared ++ c :: cs ∧ bs = shared ++ d :: ds ∧ c.Before d

theorem Choice.Before.ne {c d : Choice} (h : c.Before d) : c ≠ d := by
  rintro rfl
  cases c with
  | lead a => simp [Choice.Before] at h
  | group a => simp [Choice.Before] at h
  | segment v => exact absurd h (Nat.lt_irrefl _)

theorem Choice.Before.asymm {c d : Choice} (h : c.Before d) : ¬d.Before c := by
  cases c <;> cases d <;> simp_all [Choice.Before]
  omega

namespace Preferred

variable {as bs : List Choice}

theorem head {c d : Choice} (h : c.Before d) (cs ds : List Choice) :
    Preferred (c :: cs) (d :: ds) :=
  ⟨[], c, d, cs, ds, rfl, rfl, h⟩

theorem prepend (h : Preferred as bs) (shared : List Choice) :
    Preferred (shared ++ as) (shared ++ bs) := by
  obtain ⟨more, c, d, cs, ds, rfl, rfl, hcd⟩ := h
  exact ⟨shared ++ more, c, d, cs, ds, by simp, by simp, hcd⟩

theorem append (h : Preferred as bs) (cs ds : List Choice) :
    Preferred (as ++ cs) (bs ++ ds) := by
  obtain ⟨shared, c, d, cs', ds', rfl, rfl, hcd⟩ := h
  exact ⟨shared, c, d, cs' ++ cs, ds' ++ ds, by simp, by simp, hcd⟩

theorem cons_iff {c d : Choice} :
    Preferred (c :: as) (d :: bs) ↔ c.Before d ∨ c = d ∧ Preferred as bs := by
  refine ⟨fun h => ?_, fun h => ?_⟩
  · obtain ⟨shared, c', d', cs, ds, hc, hd, h⟩ := h
    cases shared with
    | nil =>
      obtain ⟨rfl, rfl⟩ := List.cons.inj hc
      obtain ⟨rfl, rfl⟩ := List.cons.inj hd
      exact Or.inl h
    | cons e shared =>
      obtain ⟨rfl, rfl⟩ := List.cons.inj hc
      obtain ⟨rfl, rfl⟩ := List.cons.inj hd
      exact Or.inr ⟨rfl, shared, c', d', cs, ds, rfl, rfl, h⟩
  · obtain h | ⟨rfl, h⟩ := h
    · exact head h as bs
    · exact h.prepend [c]

theorem not_nil_left : ¬Preferred [] bs := by
  rintro ⟨shared, c, d, cs, ds, h, -⟩
  simp at h

theorem not_nil_right : ¬Preferred as [] := by
  rintro ⟨shared, c, d, cs, ds, -, h, -⟩
  simp at h

/-- Of two lists of choices at most one comes before the other. -/
theorem asymm (h : Preferred as bs) : ¬Preferred bs as := by
  induction as generalizing bs with
  | nil => exact absurd h not_nil_left
  | cons c as ih =>
    cases bs with
    | nil => exact absurd h not_nil_right
    | cons d bs =>
      rw [cons_iff] at h ⊢
      rintro (hdc | ⟨hdc, hba⟩)
      · rcases h with hcd | ⟨hcd, -⟩
        · exact hcd.asymm hdc
        · exact hdc.ne hcd.symm
      · rcases h with hcd | ⟨-, hab⟩
        · exact hcd.ne hdc.symm
        · exact ih hab hba

end Preferred

/-! ## Instances -/

/-- An instance of a pattern. -/
structure Instance where
  text : List Char
  /-- The choices that lead to the text, in the order in which they are made. -/
  choices : List Choice
  /-- The texts of the captures that take part, in order. -/
  captured : List (String × List Char)
deriving DecidableEq

/-- One instance after the other. -/
instance : Append Instance :=
  ⟨fun i j => ⟨i.text ++ j.text, i.choices ++ j.choices, i.captured ++ j.captured⟩⟩

@[simp] theorem Instance.text_append (i j : Instance) : (i ++ j).text = i.text ++ j.text := rfl

@[simp] theorem Instance.captured_append (i j : Instance) :
    (i ++ j).captured = i.captured ++ j.captured := rfl

/-- Equal character by character up to simple case folding. -/
def SameText (v w : List Char) : Prop :=
  v.map foldCase = w.map foldCase

instance (v w : List Char) : Decidable (SameText v w) := inferInstanceAs (Decidable (_ = _))

/-- One or more characters, none of them `/`. -/
def IsSegment (w : List Char) : Prop := w ≠ [] ∧ '/' ∉ w

instance (w : List Char) : Decidable (IsSegment w) := inferInstanceAs (Decidable (_ ∧ _))

mutual

/-- The instances of a pattern. -/
inductive HasInstance : Pattern → Instance → Prop
  | literal {text : String} {w : List Char} :
    SameText text.toList w → HasInstance (.literal text) ⟨w, [], []⟩
  | separator : HasInstance .separator ⟨['/'], [], []⟩
  | capture {name : String} {w : List Char} :
    IsSegment w → HasInstance (.capture name) ⟨w, [.segment w], [(name, w)]⟩
  | wildcard {w : List Char} : IsSegment w → HasInstance .wildcard ⟨w, [.segment w], []⟩
  | present {child : Pattern} {i : Instance} :
    HasInstance child i →
      HasInstance (.optional child) ⟨i.text, .group true :: i.choices, i.captured⟩
  | absent {child : Pattern} : HasInstance (.optional child) ⟨[], [.group false], []⟩
  | sequence {children : List Pattern} {i : Instance} :
    HasInstanceAll children i → HasInstance (.sequence children) i

/-- The instances of patterns one after the other. -/
inductive HasInstanceAll : List Pattern → Instance → Prop
  | nil : HasInstanceAll [] ⟨[], [], []⟩
  | cons {pattern : Pattern} {patterns : List Pattern} {i j : Instance} :
    HasInstance pattern i → HasInstanceAll patterns j →
      HasInstanceAll (pattern :: patterns) (i ++ j)

end

mutual

/-- What the captures take are segments. -/
theorem HasInstance.isSegment : ∀ {p : Pattern} {i : Instance}, HasInstance p i →
    ∀ taken ∈ i.captured, IsSegment taken.2
  | _, _, .literal _ => by simp
  | _, _, .separator => by simp
  | _, _, .capture hw => by simpa using hw
  | _, _, .wildcard _ => by simp
  | _, _, .present hi => hi.isSegment
  | _, _, .absent => by simp
  | _, _, .sequence hi => hi.isSegment

theorem HasInstanceAll.isSegment : ∀ {ps : List Pattern} {i : Instance}, HasInstanceAll ps i →
    ∀ taken ∈ i.captured, IsSegment taken.2
  | _, _, .nil => by simp
  | _, _, .cons hi hj => fun taken ht => by
    rcases List.mem_append.1 ht with ht | ht
    · exact hi.isSegment taken ht
    · exact hj.isSegment taken ht

end

mutual

/-- The captures that take part are captures of the pattern, in the same order. -/
theorem HasInstance.sublist_captureNames : ∀ {p : Pattern} {i : Instance}, HasInstance p i →
    (i.captured.map Prod.fst).Sublist (captureNames p)
  | _, _, .literal _ => by simp
  | _, _, .separator => by simp
  | _, _, .capture _ => by simp [captureNames]
  | _, _, .wildcard _ => by simp
  | _, _, .present hi => hi.sublist_captureNames
  | _, _, .absent => by simp
  | _, _, .sequence hi => hi.sublist_captureNames

theorem HasInstanceAll.sublist_captureNames : ∀ {ps : List Pattern} {i : Instance},
    HasInstanceAll ps i → (i.captured.map Prod.fst).Sublist (captureNamesAll ps)
  | _, _, .nil => by simp
  | _, _, .cons hi hj => by
    rw [Instance.captured_append, List.map_append]
    exact hi.sublist_captureNames.append hj.sublist_captureNames

end

end HttpGateway.Pattern
