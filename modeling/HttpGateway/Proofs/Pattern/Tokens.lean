import HttpGateway.Pattern.Written
import HttpGateway.Text.Basic
import Mathlib.Data.List.Chain

/-!
# The tokens of a text

Every token is written in one way (`Token.spell`). A list of tokens is separate (`Separate`) when
each token may stand before the character that is written after it: a name ends there, a `:` without
a name gets none, and a literal backslash takes no meaning away. A text is cut into the one separate
list of tokens that it spells (`tokens_scan_iff`).
-/

namespace HttpGateway

open Text Pattern

/-! ## Names at the start of a text -/

namespace Text

variable {cs name rest : List Char}

theorem continuesName_of_isName (h : IsName cs) : ∀ c ∈ cs, continuesName c = true := by
  cases cs with
  | nil => simp
  | cons c cs => exact List.forall_mem_cons.2 ⟨continuesName_of_startsName h.1, h.2⟩

/-- A name before a character that no name goes on with is the longest one. -/
theorem leadingName_append (hname : IsName name)
    (hrest : ∀ d ∈ rest.head?, continuesName d = false) : leadingName (name ++ rest) = name := by
  cases name with
  | nil => exact absurd hname id
  | cons c name =>
    rw [List.cons_append, leadingName, if_pos hname.1, List.takeWhile_append_of_pos hname.2]
    cases rest with
    | nil => simp
    | cons d rest => simp [hrest d rfl]

theorem leadingName_eq_nil (h : ∀ d ∈ cs.head?, startsName d = false) : leadingName cs = [] := by
  cases cs with
  | nil => rfl
  | cons c cs => simp [leadingName, h c rfl]

/-- Either no name starts at the start of a text, or the longest one ends where no name goes on. -/
theorem leadingName_cases (cs : List Char) :
    leadingName cs = [] ∧ (∀ d ∈ cs.head?, startsName d = false) ∨
      ∃ name rest, leadingName cs = name ∧ cs = name ++ rest ∧ IsName name ∧
        ∀ d ∈ rest.head?, continuesName d = false := by
  cases cs with
  | nil => exact Or.inl ⟨rfl, by simp⟩
  | cons c cs =>
    by_cases hc : startsName c = true
    · refine Or.inr ⟨c :: cs.takeWhile continuesName, cs.dropWhile continuesName, ?_, ?_, ⟨hc, ?_⟩,
        fun d hd => ?_⟩
      · rw [leadingName, if_pos hc]
      · rw [List.cons_append, List.takeWhile_append_dropWhile]
      · exact List.all_eq_true.1 List.all_takeWhile
      · have hnot := List.head?_dropWhile_not continuesName cs
        rw [Option.mem_def.1 hd] at hnot
        exact hnot
    · refine Or.inl ⟨by rw [leadingName, if_neg hc], fun d hd => ?_⟩
      obtain rfl := Option.some.inj hd
      exact Bool.eq_false_iff.2 hc

end Text

/-! ## Written tokens -/

namespace Token

/-- The characters of a written token. -/
def spell : Token → List Char
  | .char c => spellChar c
  | .separator => ['/']
  | .wildcard => ['*']
  | .capture name => ':' :: name.toList
  | .bareColon => [':']
  | .opening => ['(']
  | .closing => [')']

/-- A token that some text can hold: a separator is no literal character, and a capture has a
name. -/
def IsProper : Token → Prop
  | .char c => c ≠ '/'
  | .capture name => IsName name.toList
  | _ => True

/-- The token may stand before a written character. -/
def Fits : Token → Char → Prop
  | .char c, d => c = '\\' → takesBackslash d = false
  | .capture _, d => continuesName d = false
  | .bareColon, d => startsName d = false
  | _, _ => True

/-- The first token may stand before the second one. -/
def Before (t u : Token) : Prop := ∀ d ∈ u.spell.head?, t.Fits d

/-- Tokens that no scan reads in another way when they are written one after the other. -/
structure Separate (ts : List Token) : Prop where
  proper : ∀ t ∈ ts, t.IsProper
  chain : ts.IsChain Before

theorem spell_ne_nil (t : Token) : t.spell ≠ [] := by
  cases t with
  | char c =>
    simp only [spell, spellChar]
    split <;> simp
  | _ => simp [spell]

variable {t : Token} {ts : List Token}

/-- The first written character is that of the first token. -/
theorem head?_flatMap_spell (ts : List Token) :
    (ts.flatMap spell).head? = ts.head?.bind fun t => t.spell.head? := by
  cases ts with
  | nil => rfl
  | cons t ts =>
    obtain ⟨d, hd⟩ := Option.ne_none_iff_exists'.1 (mt List.head?_eq_none_iff.1 (spell_ne_nil t))
    simp [hd]

theorem separate_nil : Separate [] := ⟨by simp, .nil⟩

/-- What a token may stand before depends on the first written character only. -/
theorem before_head?_iff :
    (∀ u ∈ ts.head?, t.Before u) ↔ ∀ d ∈ (ts.flatMap spell).head?, t.Fits d := by
  rw [head?_flatMap_spell]
  simp only [Before, Option.mem_def, Option.bind_eq_some_iff]
  exact ⟨fun h d ⟨u, hu, hd⟩ => h u hu d hd, fun h u hu d hd => h d ⟨u, hu, hd⟩⟩

theorem separate_cons_iff :
    Separate (t :: ts) ↔
      t.IsProper ∧ (∀ d ∈ (ts.flatMap spell).head?, t.Fits d) ∧ Separate ts := by
  refine ⟨fun h => ?_, fun h => ?_⟩
  · obtain ⟨hproper, hchain⟩ := h
    rw [List.forall_mem_cons] at hproper
    rw [List.isChain_cons, before_head?_iff] at hchain
    exact ⟨hproper.1, hchain.1, hproper.2, hchain.2⟩
  · obtain ⟨ht, hfits, hproper, hchain⟩ := h
    exact ⟨List.forall_mem_cons.2 ⟨ht, hproper⟩,
      List.isChain_cons.2 ⟨before_head?_iff.2 hfits, hchain⟩⟩

theorem separate_append_iff {us : List Token} :
    Separate (ts ++ us) ↔
      Separate ts ∧ Separate us ∧
        ∀ t ∈ ts.getLast?, ∀ d ∈ (us.flatMap spell).head?, t.Fits d := by
  simp only [← before_head?_iff]
  refine ⟨fun h => ?_, fun h => ?_⟩
  · obtain ⟨hproper, hchain⟩ := h
    rw [List.forall_mem_append] at hproper
    rw [List.isChain_append] at hchain
    exact ⟨⟨hproper.1, hchain.1⟩, ⟨hproper.2, hchain.2.1⟩, hchain.2.2⟩
  · obtain ⟨⟨hproper, hchain⟩, ⟨hproper', hchain'⟩, hbefore⟩ := h
    exact ⟨List.forall_mem_append.2 ⟨hproper, hproper'⟩,
      List.isChain_append.2 ⟨hchain, hchain', hbefore⟩⟩

theorem separate_singleton_iff : Separate [t] ↔ t.IsProper :=
  ⟨fun h => h.proper t (List.mem_singleton.2 rfl),
    fun h => ⟨fun _ hu => List.mem_singleton.1 hu ▸ h, .singleton t⟩⟩

/-- Tokens in a group, of which the last one stands before `)`. -/
theorem separate_group_iff :
    Separate (.opening :: (ts ++ [.closing])) ↔ Separate ts ∧ ∀ t ∈ ts.getLast?, t.Fits ')' := by
  have hspell : ([closing].flatMap spell).head? = some ')' := rfl
  rw [separate_cons_iff, separate_append_iff, separate_singleton_iff, hspell]
  refine ⟨fun h => ?_, fun h => ?_⟩
  · obtain ⟨-, -, hts, -, hlast⟩ := h
    exact ⟨hts, fun t ht => hlast t ht ')' rfl⟩
  · obtain ⟨hts, hlast⟩ := h
    refine ⟨trivial, fun _ _ => trivial, hts, trivial, fun t ht d hd => ?_⟩
    obtain rfl := Option.some.inj hd
    exact hlast t ht

/-! ## One token of a scan -/

theorem scanFrom_append (offset : Nat) (cs rest : List Char) :
    scanFrom cs.length offset (cs ++ rest) = scanFrom 0 (offset + utf8Length cs) rest := by
  induction cs generalizing offset with
  | nil => rfl
  | cons c cs ih =>
    rw [List.length_cons, List.cons_append, scanFrom, ih, utf8Length_cons, Nat.add_assoc]

/-- A character without a meaning of its own is literal. -/
theorem scanFrom_char {c : Char} (hsep : c ≠ '/') (hplain : takesBackslash c = false)
    (hbackslash : c ≠ '\\') (offset : Nat) (cs : List Char) :
    scanFrom 0 offset (c :: cs) = ⟨offset, .char c⟩ :: scanFrom 0 (offset + c.utf8Size) cs := by
  simp only [takesBackslash, Bool.or_eq_false_iff, beq_eq_false_iff_ne, ne_eq] at hplain
  obtain ⟨⟨⟨hcolon, hopening⟩, hclosing⟩, hstar⟩ := hplain
  rw [scanFrom] <;> assumption

/-- A backslash that takes no meaning away is literal. -/
theorem scanFrom_backslash {cs : List Char} (h : ∀ d ∈ cs.head?, takesBackslash d = false)
    (offset : Nat) :
    scanFrom 0 offset ('\\' :: cs) =
      ⟨offset, .char '\\'⟩ :: scanFrom 0 (offset + '\\'.utf8Size) cs := by
  cases cs with
  | nil => rfl
  | cons d cs =>
    rw [scanFrom]
    simp [h d rfl]

/-- A token that fits what comes after it is read as it is written. -/
theorem scanFrom_spell (hproper : t.IsProper) {cs : List Char} (hfits : ∀ d ∈ cs.head?, t.Fits d)
    (offset : Nat) :
    scanFrom 0 offset (t.spell ++ cs) =
      ⟨offset, t⟩ :: scanFrom 0 (offset + utf8Length t.spell) cs := by
  cases t with
  | char c =>
    rw [spell, spellChar]
    split
    · next hc => simp [scanFrom, hc, Nat.add_assoc]
    · next hc =>
      rw [Bool.not_eq_true] at hc
      by_cases hbackslash : c = '\\'
      · subst hbackslash
        exact scanFrom_backslash (fun d hd => hfits d hd rfl) offset
      · exact scanFrom_char hproper hc hbackslash offset cs
  | separator => simp [spell, scanFrom]
  | wildcard => simp [spell, scanFrom]
  | opening => simp [spell, scanFrom]
  | closing => simp [spell, scanFrom]
  | bareColon => simp [spell, scanFrom, leadingName_eq_nil hfits]
  | capture name =>
    have hname := leadingName_append hproper hfits
    rw [spell, List.cons_append, scanFrom]
    simp only [hname]
    cases hcs : name.toList with
    | nil => exact absurd (hcs ▸ hproper : IsName []) id
    | cons d ds =>
      simp only [scanFrom_append, ← hcs, String.ofList_toList, utf8Length_cons, Nat.add_assoc]

/-- Every text starts with a token that fits what comes after it. -/
theorem exists_eq_spell_append {cs : List Char} (h : cs ≠ []) :
    ∃ t rest, IsProper t ∧ (∀ d ∈ rest.head?, t.Fits d) ∧ cs = t.spell ++ rest := by
  obtain ⟨c, cs, rfl⟩ := List.exists_cons_of_ne_nil h
  by_cases hc : c ∈ ['/', '*', '(', ')', ':', '\\']
  · simp only [List.mem_cons, List.not_mem_nil, or_false] at hc
    rcases hc with rfl | rfl | rfl | rfl | rfl | rfl
    · exact ⟨.separator, cs, trivial, fun _ _ => trivial, rfl⟩
    · exact ⟨.wildcard, cs, trivial, fun _ _ => trivial, rfl⟩
    · exact ⟨.opening, cs, trivial, fun _ _ => trivial, rfl⟩
    · exact ⟨.closing, cs, trivial, fun _ _ => trivial, rfl⟩
    · obtain ⟨-, hhead⟩ | ⟨name, rest, -, rfl, hname, hrest⟩ := leadingName_cases cs
      · exact ⟨.bareColon, cs, trivial, hhead, rfl⟩
      · refine ⟨.capture (String.ofList name), rest, ?_, hrest, ?_⟩
        · rwa [IsProper, String.toList_ofList]
        · rw [spell, String.toList_ofList, List.cons_append]
    · -- a backslash belongs to the character after it exactly if it takes its meaning away
      by_cases hnext : ∃ d rest, cs = d :: rest ∧ takesBackslash d = true
      · obtain ⟨d, rest, rfl, hd⟩ := hnext
        refine ⟨.char d, rest, ?_, ?_, by simp [spell, spellChar, hd]⟩
        · rintro rfl
          simp [takesBackslash] at hd
        · rintro _ - rfl
          simp [takesBackslash] at hd
      · refine ⟨.char '\\', cs, by simp [IsProper], fun d hd _ => ?_, rfl⟩
        cases cs with
        | nil => simp at hd
        | cons e rest =>
          obtain rfl := Option.some.inj hd
          exact Bool.eq_false_iff.2 fun he => hnext ⟨e, rest, rfl, he⟩
  · simp only [List.mem_cons, List.not_mem_nil, or_false, not_or] at hc
    obtain ⟨hsep, hstar, hopening, hclosing, hcolon, hbackslash⟩ := hc
    exact ⟨.char c, cs, hsep, fun _ _ h => absurd h hbackslash,
      by simp [spell, spellChar, takesBackslash, hcolon, hopening, hclosing, hstar]⟩

/-! ## The tokens of a scan -/

/-- Every text spells separate tokens. -/
theorem exists_separate (cs : List Char) : ∃ ts, Separate ts ∧ ts.flatMap spell = cs := by
  by_cases h : cs = []
  · exact ⟨[], separate_nil, h.symm⟩
  · obtain ⟨t, rest, hproper, hfits, hcs⟩ := exists_eq_spell_append h
    have hshorter : rest.length < cs.length := by
      have hpos := List.length_pos_iff.2 (spell_ne_nil t)
      rw [hcs, List.length_append]
      omega
    obtain ⟨ts, hts, hspell⟩ := exists_separate rest
    refine ⟨t :: ts, separate_cons_iff.2 ⟨hproper, hspell ▸ hfits, hts⟩, ?_⟩
    rw [List.flatMap_cons, hspell, hcs]
termination_by cs.length

theorem tokens_scanFrom_spell (h : Separate ts) (offset : Nat) :
    (scanFrom 0 offset (ts.flatMap spell)).map PlacedToken.token = ts := by
  induction ts generalizing offset with
  | nil => rfl
  | cons t ts ih =>
    obtain ⟨hproper, hfits, hts⟩ := separate_cons_iff.1 h
    rw [List.flatMap_cons, scanFrom_spell hproper hfits, List.map_cons, ih hts]

/-- **A text is cut into the only separate tokens that spell it.** -/
theorem tokens_scan_iff {cs : List Char} :
    (scan cs).map PlacedToken.token = ts ↔ Separate ts ∧ ts.flatMap spell = cs := by
  refine ⟨fun h => ?_, fun h => ?_⟩
  · obtain rfl := h
    obtain ⟨us, hus, rfl⟩ := exists_separate cs
    rw [scan, tokens_scanFrom_spell hus]
    exact ⟨hus, rfl⟩
  · obtain ⟨hts, rfl⟩ := h
    exact tokens_scanFrom_spell hts 0

end Token

end HttpGateway
