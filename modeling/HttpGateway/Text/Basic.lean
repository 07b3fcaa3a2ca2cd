/-!
# Texts

What the rest of the gateway asks of a text: its length, its blanks and the names in it.

Offsets and lengths are counted in the bytes of the UTF-8 form. `utf8Length` counts them on a list
of characters; it is additive (`utf8Length_append`) and agrees with the length of the string
(`utf8Length_toList`). `trim` cuts blanks, the white space of Unicode, at both ends and nothing
else. A name is a letter or an underscore followed by letters, digits and underscores, all of
ASCII; `leadingName` reads the longest one at the start of a text.
-/

namespace HttpGateway.Text

/-! ## Lengths in bytes -/

def utf8Length (cs : List Char) : Nat := cs.foldr (·.utf8Size + ·) 0

@[simp] theorem utf8Length_nil : utf8Length [] = 0 := rfl

@[simp] theorem utf8Length_cons (c : Char) (cs : List Char) :
    utf8Length (c :: cs) = c.utf8Size + utf8Length cs := rfl

@[simp] theorem utf8Length_append (cs ds : List Char) :
    utf8Length (cs ++ ds) = utf8Length cs + utf8Length ds := by
  induction cs with
  | nil => simp
  | cons c cs ih => rw [List.cons_append, utf8Length_cons, utf8Length_cons, ih, Nat.add_assoc]

theorem utf8ByteSize_ofList (cs : List Char) :
    (String.ofList cs).utf8ByteSize = utf8Length cs := by
  induction cs with
  | nil => simp
  | cons c cs ih =>
    rw [String.ofList_cons, String.utf8ByteSize_append, String.utf8ByteSize_singleton, ih,
      utf8Length_cons]

theorem utf8Length_toList (text : String) : utf8Length text.toList = text.utf8ByteSize := by
  rw [← utf8ByteSize_ofList, String.ofList_toList]

/-! ## Blanks -/

/-- The characters with the property `White_Space`. -/
def isBlank (c : Char) : Bool :=
  let n := c.toNat
  (0x09 ≤ n && n ≤ 0x0D) || n == 0x20 || n == 0x85 || n == 0xA0 || n == 0x1680 ||
    (0x2000 ≤ n && n ≤ 0x200A) || n == 0x2028 || n == 0x2029 || n == 0x202F || n == 0x205F ||
    n == 0x3000

/-- The characters between the leading and the trailing blanks. -/
def trimChars (cs : List Char) : List Char :=
  ((cs.dropWhile isBlank).reverse.dropWhile isBlank).reverse

def trim (text : String) : String := String.ofList (trimChars text.toList)

/-- Whether trimming leaves nothing. -/
def isBlankText (text : String) : Bool := (trimChars text.toList).isEmpty

/-! ## Names -/

/-- May start a name: `[A-Za-z_]`. -/
def startsName (c : Char) : Bool := c.isAlpha || c == '_'

/-- May stand in a name: `[A-Za-z0-9_]`. -/
def continuesName (c : Char) : Bool := c.isAlphanum || c == '_'

/-- The longest name at the start of a text; empty when none starts there. -/
def leadingName : List Char → List Char
  | [] => []
  | c :: cs => if startsName c then c :: cs.takeWhile continuesName else []

def IsName : List Char → Prop
  | [] => False
  | c :: cs => startsName c = true ∧ ∀ d ∈ cs, continuesName d = true

theorem continuesName_of_startsName {c : Char} (h : startsName c = true) :
    continuesName c = true := by
  simp only [startsName, continuesName, Char.isAlphanum, Bool.or_eq_true] at h ⊢
  rcases h with h | h
  · exact Or.inl (Or.inl h)
  · exact Or.inr h

end HttpGateway.Text
