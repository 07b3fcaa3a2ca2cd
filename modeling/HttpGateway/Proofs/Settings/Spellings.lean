import HttpGateway.Settings.Codec
import Mathlib.Data.List.Forall2
import Mathlib.Data.List.Nodup

/-!
# The spellings of a record

A record may be written in many ways. Its fields may come in any order, unknown ones may be added,
and one that has its default value may be left out (`Spelling.Fields`). The values may also come
without names, in the order of the fields, and then those at the end may be left out
(`Spelling.Record`). Reading finds each field once, unless it has its default value
(`Spelling.Record.exists_fields?`).
-/

namespace HttpGateway

open Data

namespace Spelling

/-! ## Reading and writing -/

/-- Reading yields the value that is spelled. -/
def Reads {α : Type} (read : Data → Option α) (Spells : α → Data → Prop) : Prop :=
  ∀ value data, Spells value data → read data = some value

/-- Writing spells the value. -/
def Writes {α : Type} (write : α → Data) (Spells : α → Data → Prop) : Prop :=
  ∀ value, Spells value (write value)

/-! ## Values that are no records -/

/-- The only spelling of a text. -/
def Text (value : String) (data : Data) : Prop := data = .text value

/-- The only spelling of a number. -/
def Word (value : UInt64) (data : Data) : Prop := data = ofWord value

/-- A list of spellings, one for each value. -/
inductive Items {α : Type} (Spells : α → Data → Prop) : List α → Data → Prop
  | intro {values : List α} {items : List Data} :
    List.Forall₂ Spells values items → Items Spells values (.list items)

/-- Null for no value, or a spelling of the value. -/
inductive Optional {α : Type} (Spells : α → Data → Prop) : Option α → Data → Prop
  | null : Optional Spells none .null
  | value {value : α} {data : Data} : Spells value data → Optional Spells (some value) data

section Values

variable {α : Type} {read : Data → Option α} {write : α → Data} {Spells : α → Data → Prop}

theorem reads_text : Reads text? Text := by
  rintro value _ rfl
  rfl

theorem writes_text : Writes .text Text := fun _ => rfl

theorem reads_word : Reads word? Word := by
  rintro value _ rfl
  have hsize : (0 : Int) ≤ value.toNat ∧ (value.toNat : Int).toNat < UInt64.size :=
    ⟨Int.natCast_nonneg _, value.toNat_lt_size⟩
  rw [ofWord, word?, if_pos hsize, Int.toNat_natCast, Nat.toUInt64_eq, UInt64.ofNat_toNat]

theorem writes_word : Writes ofWord Word := fun _ => rfl

theorem Reads.items (hread : Reads read Spells) : Reads (listOf? read) (Items Spells) := by
  rintro values _ ⟨hitems⟩
  rw [listOf?]
  induction hitems with
  | nil => rfl
  | cons hfirst _ ih => simp [hread _ _ hfirst, ih]

theorem Writes.items (hwrite : Writes write Spells) :
    Writes (fun values => .list (values.map write)) (Items Spells) := fun _ =>
  .intro (List.forall₂_map_right_iff.2 (List.forall₂_same.2 fun value _ => hwrite value))

/-- Null spells no value that is read in this way, so it is left to say that there is none. -/
theorem Reads.optional (hread : Reads read Spells) (hnull : read .null = none) :
    Reads (optional? read) (Optional Spells) := by
  intro _ data h
  cases h with
  | null => rfl
  | @value value _ hvalue =>
    have hsome := hread value data hvalue
    cases data with
    | null =>
      rw [hnull] at hsome
      cases hsome
    | _ => simp [optional?, hsome]

theorem Writes.optional (hwrite : Writes write Spells) :
    Writes (ofOption write) (Optional Spells)
  | none => .null
  | some value => .value (hwrite value)

end Values

/-! ## Fields by name -/

/-- A field of a record with its value: how the value may be spelled, and whether it is the default
of the field. -/
structure Field where
  name : String
  Spells : Data → Prop
  IsDefault : Prop

/-- A field with a value of some type. -/
def Field.of {α : Type} (name : String) (Spells : α → Data → Prop) (value default : α) : Field :=
  ⟨name, Spells value, value = default⟩

/-- The entry has the name of the field and a spelling of its value. -/
structure Field.IsEntry (field : Field) (entry : String × Data) : Prop where
  name_eq : entry.1 = field.name
  spells : field.Spells entry.2

theorem Field.isEntry_of_writes {α : Type} {write : α → Data} {Spells : α → Data → Prop}
    {name : String} {value default : α} (hwrite : Writes write Spells) :
    (Field.of name Spells value default).IsEntry (name, write value) :=
  ⟨rfl, hwrite value⟩

/-- The spellings of fields by name: one with every field, and what it becomes step by step. -/
inductive Fields (fields : List Field) : List (String × Data) → Prop
  /-- All fields, in the order in which they are declared. -/
  | full {entries : List (String × Data)} :
    List.Forall₂ Field.IsEntry fields entries → Fields fields entries
  | permuted {entries others : List (String × Data)} :
    Fields fields entries → entries.Perm others → Fields fields others
  | unknown {entries : List (String × Data)} {name : String} {data : Data} :
    Fields fields entries → (∀ field ∈ fields, field.name ≠ name) →
      Fields fields ((name, data) :: entries)
  | omitted {entries : List (String × Data)} {field : Field} {data : Data} :
    Fields fields ((field.name, data) :: entries) → field ∈ fields → field.IsDefault →
      Fields fields entries
  | respelled {entries : List (String × Data)} {field : Field} {data other : Data} :
    Fields fields ((field.name, data) :: entries) → field ∈ fields → field.Spells other →
      Fields fields ((field.name, other) :: entries)

/-- What stands under a name. -/
def valuesAt (name : String) (entries : List (String × Data)) : List Data :=
  (entries.filter fun entry => entry.1 == name).map Prod.snd

/-- A field stands among the entries once, or it has its default value and does not. -/
inductive Field.FoundIn (field : Field) (entries : List (String × Data)) : Prop
  | once {data : Data} :
    valuesAt field.name entries = [data] → field.Spells data → field.FoundIn entries
  | never : valuesAt field.name entries = [] → field.IsDefault → field.FoundIn entries

section Fields

variable {fields : List Field} {field : Field} {entries others : List (String × Data)}
  {name key : String}

theorem valuesAt_cons_of_eq (name : String) (data : Data) (entries : List (String × Data)) :
    valuesAt name ((name, data) :: entries) = data :: valuesAt name entries := by
  simp [valuesAt]

theorem valuesAt_cons_of_ne (h : key ≠ name) (data : Data) (entries : List (String × Data)) :
    valuesAt name ((key, data) :: entries) = valuesAt name entries := by
  simp [valuesAt, h]

theorem valuesAt_eq_nil_iff : valuesAt name entries = [] ↔ name ∉ entries.map Prod.fst := by
  simp only [valuesAt, List.map_eq_nil_iff, List.filter_eq_nil_iff, List.mem_map, beq_iff_eq,
    not_exists, not_and]

theorem valuesAt_perm (name : String) (h : entries.Perm others) :
    (valuesAt name entries).Perm (valuesAt name others) :=
  (h.filter _).map _

theorem lookup_eq_head? (name : String) (entries : List (String × Data)) :
    entries.lookup name = (valuesAt name entries).head? := by
  induction entries with
  | nil => rfl
  | cons entry rest ih =>
    obtain ⟨key, data⟩ := entry
    by_cases hkey : key = name
    · subst hkey
      rw [List.lookup_cons_self, valuesAt_cons_of_eq, List.head?_cons]
    · rw [List.lookup_cons, beq_false_of_ne (Ne.symm hkey), valuesAt_cons_of_ne hkey]
      exact ih

theorem Field.FoundIn.perm (h : field.FoundIn entries) (hperm : entries.Perm others) :
    field.FoundIn others := by
  have hvalues := valuesAt_perm field.name hperm
  cases h with
  | once hdata hspells =>
    rw [hdata] at hvalues
    exact .once (List.singleton_perm.1 hvalues).symm hspells
  | never hnone hdefault =>
    rw [hnone] at hvalues
    exact .never (List.nil_perm.1 hvalues) hdefault

/-- Entries under other names do not matter. -/
theorem Field.foundIn_cons_of_ne (hname : key ≠ field.name) (data : Data) :
    field.FoundIn ((key, data) :: entries) ↔ field.FoundIn entries := by
  have hvalues := valuesAt_cons_of_ne hname data entries
  refine ⟨fun h => ?_, fun h => ?_⟩
  · cases h with
    | once hdata hspells => exact .once (hvalues ▸ hdata) hspells
    | never hnone hdefault => exact .never (hvalues ▸ hnone) hdefault
  · cases h with
    | once hdata hspells => exact .once (hvalues.trans hdata) hspells
    | never hnone hdefault => exact .never (hvalues.trans hnone) hdefault

/-- Behind an entry with the name of a field there is no other one. -/
theorem Field.FoundIn.valuesAt_eq_nil {data : Data}
    (h : field.FoundIn ((field.name, data) :: entries)) : valuesAt field.name entries = [] := by
  cases h with
  | once hdata _ =>
    rw [valuesAt_cons_of_eq] at hdata
    exact (List.cons.inj hdata).2
  | never hnone _ =>
    rw [valuesAt_cons_of_eq] at hnone
    cases hnone

theorem names_of_forall₂ (h : List.Forall₂ Field.IsEntry fields entries) :
    entries.map Prod.fst = fields.map Field.name := by
  induction h with
  | nil => rfl
  | cons hfirst _ ih => rw [List.map_cons, List.map_cons, hfirst.name_eq, ih]

theorem foundIn_of_forall₂ (hnames : (fields.map Field.name).Nodup)
    (h : List.Forall₂ Field.IsEntry fields entries) : ∀ field ∈ fields, field.FoundIn entries := by
  induction h with
  | nil => simp
  | @cons field entry fields entries hfirst hrest ih =>
    obtain ⟨key, data⟩ := entry
    obtain ⟨rfl, hspells⟩ := hfirst
    rw [List.map_cons, List.nodup_cons] at hnames
    refine List.forall_mem_cons.2 ⟨?_, fun later hlater => ?_⟩
    · have hnone : valuesAt field.name entries = [] := by
        rw [valuesAt_eq_nil_iff, names_of_forall₂ hrest]
        exact hnames.1
      exact .once (by rw [valuesAt_cons_of_eq, hnone]) hspells
    · have hother : field.name ≠ later.name := fun h =>
        hnames.1 (h ▸ List.mem_map_of_mem hlater)
      exact (Field.foundIn_cons_of_ne hother data).2 (ih hnames.2 later hlater)

/-- Fields by name are found, however they are spelled. -/
theorem Fields.foundIn (hnames : (fields.map Field.name).Nodup) (h : Fields fields entries) :
    ∀ field ∈ fields, field.FoundIn entries := by
  induction h with
  | full hentries => exact foundIn_of_forall₂ hnames hentries
  | permuted _ hperm ih => exact fun field hfield => (ih field hfield).perm hperm
  | unknown _ hunknown ih =>
    intro field hfield
    exact (Field.foundIn_cons_of_ne (hunknown field hfield).symm _).2 (ih field hfield)
  | @omitted entries gone data _ hgone hdefault ih =>
    intro field hfield
    by_cases hname : gone.name = field.name
    · obtain rfl := List.inj_on_of_nodup_map hnames hgone hfield hname
      exact .never (ih gone hgone).valuesAt_eq_nil hdefault
    · exact (Field.foundIn_cons_of_ne hname data).1 (ih field hfield)
  | @respelled entries changed data other _ hchanged hspells ih =>
    intro field hfield
    by_cases hname : changed.name = field.name
    · obtain rfl := List.inj_on_of_nodup_map hnames hchanged hfield hname
      refine .once ?_ hspells
      rw [valuesAt_cons_of_eq, (ih changed hchanged).valuesAt_eq_nil]
    · have hfound := (Field.foundIn_cons_of_ne hname data).1 (ih field hfield)
      exact (Field.foundIn_cons_of_ne hname other).2 hfound

/-- A field that is found is read, and one that is not has its default value. -/
theorem Field.FoundIn.field?_eq {α : Type} {read : Data → Option α} {Spells : α → Data → Prop}
    {value default : α} (h : (Field.of name Spells value default).FoundIn entries)
    (hread : Reads read Spells) : field? entries name read default = some value := by
  rw [field?, lookup_eq_head?]
  cases h with
  | once hdata hspells =>
    have hvalues : valuesAt name entries = [_] := hdata
    rw [hvalues]
    exact hread _ _ hspells
  | never hnone hdefault =>
    have hvalues : valuesAt name entries = [] := hnone
    have hvalue : value = default := hdefault
    rw [hvalues, hvalue, List.head?_nil]

end Fields

/-! ## Records -/

/-- The spellings of a record. -/
inductive Record (fields : List Field) : Data → Prop
  | named {entries : List (String × Data)} :
    Fields fields entries → Record fields (.record entries)
  /-- The values of the first fields in the order in which they are declared, if the others have
  their default values. -/
  | inOrder {first others : List Field} {items : List Data} :
    fields = first ++ others → List.Forall₂ Field.Spells first items →
      (∀ field ∈ others, field.IsDefault) → Record fields (.list items)

variable {fields : List Field} {data : Data}

/-- A record with all its fields, in the order in which they are declared. -/
theorem Record.full {entries : List (String × Data)}
    (h : List.Forall₂ Field.IsEntry fields entries) : Record fields (.record entries) :=
  .named (.full h)

theorem isEntry_zip {items : List Data} (h : List.Forall₂ Field.Spells fields items) :
    List.Forall₂ Field.IsEntry fields ((fields.map Field.name).zip items) := by
  induction h with
  | nil => exact .nil
  | cons hfirst _ ih => exact .cons ⟨rfl, hfirst⟩ ih

/-- **Every field of a record is found**, however the record is spelled. -/
theorem Record.exists_fields? (names : List String) (h : Record fields data)
    (hnames : fields.map Field.name = names) (hnodup : names.Nodup) :
    ∃ entries, data.fields? names = some entries ∧ ∀ field ∈ fields, field.FoundIn entries := by
  subst hnames
  cases h with
  | named hfields => exact ⟨_, rfl, hfields.foundIn hnodup⟩
  | @inOrder first others items hsplit hitems hdefault =>
    subst hsplit
    rw [List.map_append] at hnodup ⊢
    have hlength : (first.map Field.name).length = items.length := by
      rw [List.length_map, hitems.length_eq]
    have hzip : (first.map Field.name ++ others.map Field.name).zip items =
        (first.map Field.name).zip items := by
      rw [← List.append_nil items, List.zip_append hlength, List.zip_nil_right, List.append_nil,
        List.append_nil]
    refine ⟨_, by rw [fields?, if_pos (by simp [← hlength]), hzip], ?_⟩
    refine List.forall_mem_append.2 ⟨?_, fun field hfield => ?_⟩
    · exact foundIn_of_forall₂ (List.nodup_append'.1 hnodup).1 (isEntry_zip hitems)
    · refine .never (valuesAt_eq_nil_iff.2 fun hmem => ?_) (hdefault field hfield)
      rw [names_of_forall₂ (isEntry_zip hitems)] at hmem
      exact (List.nodup_append'.1 hnodup).2.2 hmem (List.mem_map_of_mem hfield)

end Spelling

end HttpGateway
