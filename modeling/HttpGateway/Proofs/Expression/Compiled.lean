import HttpGateway.Proofs.Expression.References
import Mathlib.Data.List.Chain

/-!
# What an expression is compiled to

The parts of a compiled expression are the only ones that spell its text, with no literal that could
be joined to another one, and in which every `$` makes a reference wherever it can make one, and the
best one (`IsReading`, `compile_parts_eq_iff`). What a `$` becomes depends only on the text after
it. The way there is by the atoms of a text (`Reads`), of which the parts are only the joined form
(`join_eq_iff`).
-/

namespace HttpGateway

open Text

/-- The text that an atom stands for. -/
def Atom.spell : Atom → List Char
  | .char c => [c]
  | .reference target => '$' :: target.name.toList

/-- The text that a part stands for. -/
def Part.spell : Part → List Char
  | .literal text => text.toList
  | .reference target => '$' :: target.name.toList

/-- The atoms that are joined to a part. -/
def Part.atoms : Part → List Atom
  | .literal text => text.toList.map .char
  | .reference target => [.reference target]

/-- The two parts are not both literals. -/
def Part.Apart : Part → Part → Prop
  | .literal _, .literal _ => False
  | _, _ => True

namespace Expression

/-! ## Readings of a text -/

/-- The parts have a reference after the given text. -/
def ReferenceAt (parts : List Part) (before : List Char) (target : Reference) : Prop :=
  ∃ earlier later, parts = earlier ++ .reference target :: later ∧
    earlier.flatMap Part.spell = before

/-- The parts have a literal in which the character stands after the given text. -/
def LiteralAt (parts : List Part) (before : List Char) (c : Char) : Prop :=
  ∃ earlier literal later start rest, parts = earlier ++ .literal literal :: later ∧
    literal.toList = start ++ c :: rest ∧ earlier.flatMap Part.spell ++ start = before

/-- No literal is empty or next to another one. -/
structure IsSeparated (parts : List Part) : Prop where
  nonempty : ∀ literal, .literal literal ∈ parts → literal ≠ ""
  apart : parts.IsChain Part.Apart

/-- The parts are what a text means to a route with the given variables. -/
structure IsReading (names : List String) (text : List Char) (parts : List Part) : Prop where
  spelled : parts.flatMap Part.spell = text
  separated : IsSeparated parts
  refers : ∀ before after, text = before ++ '$' :: after → IsReferable names after →
    ∃ target, IsBest names after target ∧ ReferenceAt parts before target
  stays : ∀ before after, text = before ++ '$' :: after → ¬IsReferable names after →
    LiteralAt parts before '$'

variable {names : List String} {tree : NameTree String} {text before after : List Char}
  {as bs : List Atom} {parts : List Part}

/-! ## The atoms of a text -/

/-- The atoms are what a text means to a route with the given variables. -/
inductive Reads (names : List String) : List Atom → List Char → Prop
  | nil : Reads names [] []
  | char {c : Char} {as : List Atom} {cs : List Char} :
    (c = '$' → ¬IsReferable names cs) → Reads names as cs → Reads names (.char c :: as) (c :: cs)
  | reference {target : Reference} {as : List Atom} {cs : List Char} :
    IsReferable names (target.name.toList ++ cs) →
      IsBest names (target.name.toList ++ cs) target → Reads names as cs →
      Reads names (.reference target :: as) ('$' :: (target.name.toList ++ cs))

theorem atomsFrom_append (tree : NameTree String) (name cs : List Char) :
    atomsFrom tree name.length (name ++ cs) = atomsFrom tree 0 cs := by
  induction name with
  | nil => rfl
  | cons c name ih => exact ih

/-- Compiling cuts a text into its atoms. -/
theorem reads_atoms (h : NameTree.ofNames names = .ok tree) (text : List Char) :
    Reads names (atoms tree text) text := by
  rw [atoms]
  cases text with
  | nil => exact .nil
  | cons c cs =>
    rw [atomsFrom]
    split
    · next hc =>
      subst hc
      cases hreference : reference? tree cs with
      | none =>
        exact .char (fun _ => (reference?_eq_none_iff h).1 hreference) (reads_atoms h cs)
      | some found =>
        obtain ⟨target, n⟩ := found
        obtain ⟨hreferable, hbest, rfl⟩ := (reference?_eq_some_iff h).1 hreference
        obtain ⟨rest, hrest⟩ := hbest.candidate.leads
        have hshorter : rest.length < cs.length + 1 := by
          rw [← hrest, List.length_append]
          omega
        subst hrest
        rw [← String.length_toList]
        simp only [atomsFrom_append]
        exact .reference hreferable hbest (reads_atoms h rest)
    · next hc => exact .char (fun hdollar => absurd hdollar hc) (reads_atoms h cs)
termination_by text.length

/-- A text has no other atoms. -/
theorem Reads.atoms_eq (h : NameTree.ofNames names = .ok tree) (hreads : Reads names as text) :
    atoms tree text = as := by
  rw [atoms]
  induction hreads with
  | nil => rfl
  | @char c as cs hc _ ih =>
    rw [atomsFrom, ih]
    split
    · next hdollar => rw [(reference?_eq_none_iff h).2 (hc hdollar)]
    · rfl
  | @reference target as cs hreferable hbest _ ih =>
    rw [atomsFrom, if_pos rfl, (reference?_eq_some_iff h).2 ⟨hreferable, hbest, rfl⟩,
      ← String.length_toList]
    simp only [atomsFrom_append, ih]

theorem Reads.spelled (hreads : Reads names as text) : as.flatMap Atom.spell = text := by
  induction hreads with
  | nil => rfl
  | char _ _ ih => rw [List.flatMap_cons, ih]; rfl
  | reference _ _ _ ih => rw [List.flatMap_cons, ih]; rfl

/-! ## The place of an atom -/

/-- An item of two lists put together is in the second or in the first of them. -/
theorem split_append {α : Type} {xs ys us vs : List α} {a : α} (h : xs ++ ys = us ++ a :: vs) :
    (∃ more, us = xs ++ more ∧ ys = more ++ a :: vs) ∨ ∃ more, xs = us ++ a :: more := by
  rcases List.append_eq_append_iff.1 h with ⟨more, rfl, hys⟩ | ⟨more, rfl, hvs⟩
  · exact Or.inl ⟨more, rfl, hys⟩
  · cases more with
    | nil => exact Or.inl ⟨[], by simp, hvs.symm⟩
    | cons b more =>
      obtain ⟨rfl, -⟩ := List.cons.inj hvs
      exact Or.inr ⟨more, rfl⟩

/-- The atom stands after the given text. -/
def AtomAt (as : List Atom) (before : List Char) (a : Atom) : Prop :=
  ∃ earlier later, as = earlier ++ a :: later ∧ earlier.flatMap Atom.spell = before

theorem spell_ne_nil (a : Atom) : a.spell ≠ [] := by
  cases a <;> simp [Atom.spell]

theorem flatMap_spell_eq_nil_iff : as.flatMap Atom.spell = [] ↔ as = [] := by
  rw [List.flatMap_eq_nil_iff, List.eq_nil_iff_forall_not_mem]
  exact forall₂_congr fun a _ => iff_false_intro (spell_ne_nil a)

/-- Only one atom stands after a given text. -/
theorem AtomAt.unique {a b : Atom} (ha : AtomAt as before a) (hb : AtomAt as before b) : a = b := by
  obtain ⟨earlier, later, rfl, hbefore⟩ := ha
  obtain ⟨earlier', later', heq, hbefore'⟩ := hb
  have hsame : earlier = earlier' := by
    rcases List.append_eq_append_iff.1 heq with ⟨more, rfl, -⟩ | ⟨more, rfl, -⟩
    · rw [List.flatMap_append, hbefore] at hbefore'
      have hmore := flatMap_spell_eq_nil_iff.1 (List.append_right_eq_self.1 hbefore')
      rw [hmore, List.append_nil]
    · rw [List.flatMap_append, hbefore'] at hbefore
      have hmore := flatMap_spell_eq_nil_iff.1 (List.append_right_eq_self.1 hbefore)
      rw [hmore, List.append_nil]
  subst hsame
  exact (List.cons.inj (List.append_cancel_left heq)).1

/-- What the `$` after a given text has become. -/
def DollarRead (names : List String) (as : List Atom) (before after : List Char) : Prop :=
  (IsReferable names after → ∃ target, IsBest names after target ∧
      AtomAt as before (.reference target)) ∧
    (¬IsReferable names after → AtomAt as before (.char '$'))

theorem AtomAt.cons {a b : Atom} (h : AtomAt as before b) :
    AtomAt (a :: as) (a.spell ++ before) b := by
  obtain ⟨earlier, later, rfl, rfl⟩ := h
  exact ⟨a :: earlier, later, rfl, rfl⟩

theorem DollarRead.cons {a : Atom} (h : DollarRead names as before after) :
    DollarRead names (a :: as) (a.spell ++ before) after :=
  ⟨fun hreferable => (h.1 hreferable).imp fun _ hat => ⟨hat.1, hat.2.cons⟩,
    fun hnot => (h.2 hnot).cons⟩

/-- All that may be referred to has a name of usable characters. -/
theorem IsCandidate.usable (h : NameTree.ofNames names = .ok tree) {target : Reference}
    (htarget : IsCandidate names text target) :
    ∀ c ∈ target.name.toList, continuesName c = true := by
  cases target with
  | system v => exact usable_name v
  | route name => exact (NameTree.ofNames_eq_ok_iff.1 h).1 name htarget.declared.1

/-- In the atoms of a text every `$` has become what the text after it says. -/
theorem Reads.dollarRead (h : NameTree.ofNames names = .ok tree) (hreads : Reads names as text)
    (htext : text = before ++ '$' :: after) : DollarRead names as before after := by
  induction hreads generalizing before with
  | nil => simp at htext
  | @char c as cs hc hreads ih =>
    cases before with
    | nil =>
      obtain ⟨rfl, rfl⟩ := List.cons.inj htext
      exact ⟨fun hreferable => absurd hreferable (hc rfl), fun _ => ⟨[], as, rfl, rfl⟩⟩
    | cons d before =>
      obtain ⟨rfl, hcs⟩ := List.cons.inj htext
      exact (ih hcs).cons
  | @reference target as cs hreferable hbest hreads ih =>
    cases before with
    | nil =>
      obtain ⟨-, rfl⟩ := List.cons.inj htext
      exact ⟨fun _ => ⟨target, hbest, [], as, rfl, rfl⟩, fun hnot => absurd hreferable hnot⟩
    | cons d before =>
      obtain ⟨rfl, hcs⟩ := List.cons.inj htext
      -- the name holds no `$`, so this one comes after it
      rcases split_append hcs with ⟨more, rfl, hmore⟩ | ⟨more, hname⟩
      · exact (ih hmore).cons
      · have hbad := hbest.candidate.usable h '$' (by simp [hname])
        exact absurd hbad (by decide)

/-- Atoms that spell a text, in which every `$` has become what the text after it says, are the atoms
of the text. -/
theorem reads_of_dollarRead
    (hdollar : ∀ before after, as.flatMap Atom.spell = before ++ '$' :: after →
      DollarRead names as before after) : Reads names as (as.flatMap Atom.spell) := by
  -- the atoms after any first ones are read from what they spell
  suffices hlater : ∀ later earlier, as = earlier ++ later →
      Reads names later (later.flatMap Atom.spell) from hlater as [] rfl
  intro later
  induction later with
  | nil => exact fun _ _ => .nil
  | cons a later ih =>
    intro earlier heq
    have hlater := ih (earlier ++ [a]) (by simp [heq])
    have hat : AtomAt as (earlier.flatMap Atom.spell) a := ⟨earlier, later, heq, rfl⟩
    cases a with
    | char c =>
      refine .char (fun hc hreferable => ?_) hlater
      subst hc
      obtain ⟨target, -, hother⟩ :=
        (hdollar (earlier.flatMap Atom.spell) (later.flatMap Atom.spell)
          (by simp [heq, Atom.spell])).1 hreferable
      cases hat.unique hother
    | reference target =>
      have hread := hdollar (earlier.flatMap Atom.spell)
        (target.name.toList ++ later.flatMap Atom.spell) (by simp [heq, Atom.spell])
      by_cases hreferable : IsReferable names (target.name.toList ++ later.flatMap Atom.spell)
      · obtain ⟨best, hbest, hother⟩ := hread.1 hreferable
        cases hat.unique hother
        exact .reference hreferable hbest hlater
      · cases hat.unique (hread.2 hreferable)

/-! ## Joining atoms to parts -/

/-- What may come after a literal does not depend on the literal. -/
theorem apart_literal {text : String} {next : Part} (h : (Part.literal text).Apart next)
    (other : String) : (Part.literal other).Apart next := by
  cases next with
  | literal _ => exact h
  | reference _ => trivial

theorem isSeparated_nil : IsSeparated [] := ⟨nofun, .nil⟩

theorem isSeparated_cons_iff {part : Part} :
    IsSeparated (part :: parts) ↔
      part ≠ .literal "" ∧ (∀ next ∈ parts.head?, part.Apart next) ∧ IsSeparated parts := by
  refine ⟨fun h => ?_, fun h => ?_⟩
  · obtain ⟨hnonempty, hapart⟩ := h
    rw [List.isChain_cons] at hapart
    refine ⟨?_, hapart.1, fun literal hmem => hnonempty literal (List.mem_cons_of_mem _ hmem),
      hapart.2⟩
    rintro rfl
    exact hnonempty "" List.mem_cons_self rfl
  · obtain ⟨hpart, hnext, hparts⟩ := h
    refine ⟨fun literal hmem => ?_, List.isChain_cons.2 ⟨hnext, hparts.apart⟩⟩
    rcases List.mem_cons.1 hmem with rfl | hmem
    · rintro rfl
      exact hpart rfl
    · exact hparts.nonempty literal hmem

theorem flatMap_atoms_consChar (c : Char) (parts : List Part) :
    (consChar c parts).flatMap Part.atoms = .char c :: parts.flatMap Part.atoms := by
  cases parts with
  | nil => simp [consChar, Part.atoms]
  | cons part parts => cases part <;> simp [consChar, Part.atoms]

theorem isSeparated_consChar (c : Char) (h : IsSeparated parts) :
    IsSeparated (consChar c parts) := by
  cases parts with
  | nil => exact isSeparated_cons_iff.2 ⟨by simp, by simp, isSeparated_nil⟩
  | cons part parts =>
    cases part with
    | literal text =>
      obtain ⟨-, hnext, hparts⟩ := isSeparated_cons_iff.1 h
      exact isSeparated_cons_iff.2 ⟨by simp, fun next hmem => apart_literal (hnext next hmem) _, hparts⟩
    | reference target =>
      refine isSeparated_cons_iff.2 ⟨by simp, fun next hmem => ?_, h⟩
      obtain rfl := Option.some.inj hmem
      trivial

theorem isSeparated_join (as : List Atom) : IsSeparated (join as) := by
  induction as with
  | nil => exact isSeparated_nil
  | cons a as ih =>
    cases a with
    | char c => exact isSeparated_consChar c ih
    | reference target =>
      exact isSeparated_cons_iff.2 ⟨by simp, fun next _ => by cases next <;> trivial, ih⟩

theorem flatMap_atoms_join (as : List Atom) : (join as).flatMap Part.atoms = as := by
  induction as with
  | nil => rfl
  | cons a as ih =>
    cases a with
    | char c => rw [join, flatMap_atoms_consChar, ih]
    | reference target => rw [join, List.flatMap_cons, ih]; rfl

/-- Characters before something that does not start with a literal are joined to one literal. -/
theorem join_map_char_append {cs : List Char} (hcs : cs ≠ [])
    (hnext : ∀ text, ∀ next ∈ (join as).head?, (Part.literal text).Apart next) :
    join (cs.map .char ++ as) = .literal (String.ofList cs) :: join as := by
  induction cs with
  | nil => exact absurd rfl hcs
  | cons c cs ih =>
    rw [List.map_cons, List.cons_append, join]
    cases cs with
    | nil =>
      cases hjoin : join as with
      | nil => rw [List.map_nil, List.nil_append, hjoin, consChar, String.singleton_eq_ofList]; simp
      | cons part parts =>
        cases part with
        | literal text => exact absurd (hnext "" _ (by rw [hjoin]; rfl)) id
        | reference target =>
          rw [List.map_nil, List.nil_append, hjoin, consChar, String.singleton_eq_ofList]; simp
    | cons d cs => rw [ih (List.cons_ne_nil d cs), consChar, ← String.ofList_cons]

theorem join_flatMap_atoms (h : IsSeparated parts) : join (parts.flatMap Part.atoms) = parts := by
  induction parts with
  | nil => rfl
  | cons part parts ih =>
    obtain ⟨hpart, hnext, hparts⟩ := isSeparated_cons_iff.1 h
    rw [List.flatMap_cons]
    cases part with
    | literal text =>
      have htext : text.toList ≠ [] := by simpa using hpart
      rw [Part.atoms, join_map_char_append htext, ih hparts, String.ofList_toList]
      intro other next hmem
      rw [ih hparts] at hmem
      exact apart_literal (hnext next hmem) other
    | reference target => rw [Part.atoms, List.singleton_append, join, ih hparts]

/-- Joining is the only way to make separated parts of atoms. -/
theorem join_eq_iff : join as = parts ↔ IsSeparated parts ∧ parts.flatMap Part.atoms = as := by
  refine ⟨fun h => ?_, fun h => ?_⟩
  · obtain rfl := h
    exact ⟨isSeparated_join as, flatMap_atoms_join as⟩
  · obtain ⟨hparts, rfl⟩ := h
    exact join_flatMap_atoms hparts

/-! ## The place of an atom among the parts -/

theorem flatMap_spell_atoms (part : Part) : part.atoms.flatMap Atom.spell = part.spell := by
  cases part with
  | literal text => simp [Part.atoms, Part.spell, List.flatMap_map, Atom.spell]
  | reference target => simp [Part.atoms, Part.spell, Atom.spell]

theorem flatMap_spell_flatMap_atoms (parts : List Part) :
    (parts.flatMap Part.atoms).flatMap Atom.spell = parts.flatMap Part.spell := by
  rw [List.flatMap_assoc]
  simp only [flatMap_spell_atoms]

/-- An atom among those of the parts is one of a certain part. -/
theorem atomAt_flatMap_iff {a : Atom} :
    AtomAt (parts.flatMap Part.atoms) before a ↔
      ∃ earlier part later start rest, parts = earlier ++ part :: later ∧
        part.atoms = start ++ a :: rest ∧
        earlier.flatMap Part.spell ++ start.flatMap Atom.spell = before := by
  refine ⟨fun h => ?_, fun h => ?_⟩
  · obtain ⟨earlier, later, heq, rfl⟩ := h
    induction parts generalizing earlier with
    | nil => simp at heq
    | cons part parts ih =>
      rw [List.flatMap_cons] at heq
      rcases split_append heq with ⟨more, rfl, hmore⟩ | ⟨more, hpart⟩
      · obtain ⟨earlier', part', later', start, rest, rfl, hpart', hspell⟩ := ih more hmore
        refine ⟨part :: earlier', part', later', start, rest, rfl, hpart', ?_⟩
        rw [List.flatMap_cons, List.append_assoc, hspell, List.flatMap_append, flatMap_spell_atoms]
      · exact ⟨[], part, parts, earlier, more, rfl, hpart, rfl⟩
  · obtain ⟨earlier, part, later, start, rest, rfl, hpart, rfl⟩ := h
    refine ⟨earlier.flatMap Part.atoms ++ start, rest ++ later.flatMap Part.atoms, ?_, ?_⟩
    · simp [hpart]
    · rw [List.flatMap_append, flatMap_spell_flatMap_atoms]

theorem referenceAt_iff {target : Reference} :
    ReferenceAt parts before target ↔
      AtomAt (parts.flatMap Part.atoms) before (.reference target) := by
  rw [atomAt_flatMap_iff]
  refine ⟨fun h => ?_, fun h => ?_⟩
  · obtain ⟨earlier, later, rfl, rfl⟩ := h
    exact ⟨earlier, .reference target, later, [], [], rfl, rfl, List.append_nil _⟩
  · obtain ⟨earlier, part, later, start, rest, rfl, hpart, rfl⟩ := h
    cases part with
    | literal text =>
      have hmem : Atom.reference target ∈ text.toList.map Atom.char := by
        rw [Part.atoms] at hpart
        simp [hpart]
      simp at hmem
    | reference other =>
      cases start with
      | nil =>
        obtain ⟨hother, -⟩ := List.cons.inj hpart
        cases hother
        exact ⟨earlier, later, rfl, by simp⟩
      | cons a start => simp [Part.atoms] at hpart

theorem literalAt_iff {c : Char} :
    LiteralAt parts before c ↔ AtomAt (parts.flatMap Part.atoms) before (.char c) := by
  rw [atomAt_flatMap_iff]
  refine ⟨fun h => ?_, fun h => ?_⟩
  · obtain ⟨earlier, literal, later, start, rest, rfl, hliteral, rfl⟩ := h
    refine ⟨earlier, .literal literal, later, start.map .char, rest.map .char, rfl, ?_, ?_⟩
    · simp [Part.atoms, hliteral]
    · simp [List.flatMap_map, Atom.spell]
  · obtain ⟨earlier, part, later, start, rest, rfl, hpart, rfl⟩ := h
    cases part with
    | literal text =>
      obtain ⟨start', more, htext, rfl, hmore⟩ := List.map_eq_append_iff.1 hpart
      obtain ⟨d, rest', rfl, hd, rfl⟩ := List.map_eq_cons_iff.1 hmore
      cases hd
      refine ⟨earlier, text, later, start', rest', rfl, htext, ?_⟩
      simp [List.flatMap_map, Atom.spell]
    | reference other =>
      cases start with
      | nil => cases (List.cons.inj hpart).1
      | cons a start => simp [Part.atoms] at hpart

/-- Separated parts are a reading exactly if their atoms are those of the text. -/
theorem isReading_iff (h : NameTree.ofNames names = .ok tree) :
    IsReading names text parts ↔
      IsSeparated parts ∧ Reads names (parts.flatMap Part.atoms) text := by
  refine ⟨fun hreading => ?_, fun hreads => ?_⟩
  · obtain ⟨rfl, hseparated, hrefers, hstays⟩ := hreading
    refine ⟨hseparated, ?_⟩
    rw [← flatMap_spell_flatMap_atoms]
    refine reads_of_dollarRead fun before after heq => ?_
    rw [flatMap_spell_flatMap_atoms] at heq
    simp only [referenceAt_iff] at hrefers
    simp only [literalAt_iff] at hstays
    exact ⟨hrefers before after heq, hstays before after heq⟩
  · obtain ⟨hseparated, hreads⟩ := hreads
    refine ⟨?_, hseparated, fun before after heq => ?_, fun before after heq => ?_⟩
    · rw [← flatMap_spell_flatMap_atoms, hreads.spelled]
    · simp only [referenceAt_iff]
      exact (hreads.dollarRead h heq).1
    · rw [literalAt_iff]
      exact (hreads.dollarRead h heq).2

/-- **The parts of a compiled expression are the one reading of its text.** -/
theorem compile_parts_eq_iff (h : NameTree.ofNames names = .ok tree) (text : String)
    (parts : List Part) : (compile tree text).parts = parts ↔ IsReading names text.toList parts := by
  rw [isReading_iff h, compile, join_eq_iff]
  refine and_congr_right fun _ => ⟨fun hatoms => ?_, fun hreads => (hreads.atoms_eq h).symm⟩
  rw [hatoms]
  exact reads_atoms h _

/-- The variable `hostname` extends `host`, `9` can never be referred to, and an empty name names
nothing. -/
theorem compile_parts_eq_iff_hostname :
    IsReading ["hostname", "id", "9", ""] "$hostname/$hosts-$id7$$9$nope$".toList
      [.reference (.route "hostname"), .literal "/", .reference (.system .host), .literal "s-",
        .reference (.route "id"), .literal "7$$9$nope$"] := by
  have husable : ∀ name ∈ ["hostname", "id", "9", ""], name.toList.all continuesName = true := by
    decide
  have hnames := NameTree.ofNames_eq_ok_iff.2
    ⟨fun name hname => List.all_eq_true.1 (husable name hname), rfl⟩
  exact (compile_parts_eq_iff hnames _ _).1 (by decide +kernel)

end Expression

end HttpGateway
