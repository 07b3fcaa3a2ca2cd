import HttpGateway.Text.Basic

/-!
# Trees of names

A reference to a variable has no closing mark, so it is the longest registered name that the text
after it starts with. `NameTree` holds names with values and finds, at the start of a text, the
longest name (`longest?`) or all of them (`matching`, the longest first). An empty name counts as
registered but is never found.
-/

namespace HttpGateway

open Text

/-- The names below a node, by their first character: a branch for one character, with the value of
the name that ends there, the names that go on below it, and the branches for other characters. -/
inductive Branches (α : Type) where
  | none
  | branch (c : Char) (value : Option α) (below next : Branches α)

namespace Branches

variable {α : Type}

/-- The branches that hold one non-empty name. -/
def single (value : α) : List Char → Branches α
  | [] => .none
  | [c] => .branch c (some value) .none .none
  | c :: cs => .branch c Option.none (single value cs) .none

/-- Register a non-empty name, or give it a new value. -/
def insert (value : α) : Branches α → List Char → Branches α
  | branches, [] => branches
  | .none, name => single value name
  | .branch d old below next, c :: cs =>
    if c = d then
      match cs with
      | [] => .branch d (some value) below next
      | cs => .branch d old (insert value below cs) next
    else .branch d old below (insert value next (c :: cs))

def size : Branches α → Nat
  | .none => 0
  | .branch _ value below next => value.toList.length + size below + size next

/-- The longest name at the start of a text, with its length in bytes, or `best` when no name is
longer; the text begins `covered` bytes after the start of the name. -/
def longestFrom (covered : Nat) (best : Option (α × Nat)) :
    Branches α → List Char → Option (α × Nat)
  | .none, _ => best
  | _, [] => best
  | .branch d value below next, c :: cs =>
    if c = d then
      let covered := covered + c.utf8Size
      longestFrom covered ((value.map (·, covered)).or best) below cs
    else longestFrom covered best next (c :: cs)

/-- The names at the start of a text, the shortest first, each with its length in bytes; the text
begins `covered` bytes after the start of the names. -/
def matchingFrom (covered : Nat) : Branches α → List Char → List (α × Nat)
  | .none, _ => []
  | _, [] => []
  | .branch d value below next, c :: cs =>
    if c = d then
      let covered := covered + c.utf8Size
      (value.map (·, covered)).toList ++ matchingFrom covered below cs
    else matchingFrom covered next (c :: cs)

end Branches

/-- Names with their values. -/
structure NameTree (α : Type) where
  /-- The value of the empty name. -/
  empty? : Option α
  branches : Branches α

namespace NameTree

variable {α : Type}

def empty : NameTree α := ⟨none, .none⟩

instance : Inhabited (NameTree α) := ⟨empty⟩

def insert (tree : NameTree α) (name : String) (value : α) : NameTree α :=
  match name.toList with
  | [] => { tree with empty? := some value }
  | cs => { tree with branches := tree.branches.insert value cs }

/-- The first character of a text that no name may hold. -/
def unusable? (name : String) : Option Char := name.toList.find? fun c => !continuesName c

/-- Register a name, or refuse it with its first character that no name may hold. -/
def add (tree : NameTree α) (name : String) (value : α) : Except Char (NameTree α) :=
  match unusable? name with
  | some c => .error c
  | none => .ok (tree.insert name value)

def size (tree : NameTree α) : Nat := tree.empty?.toList.length + tree.branches.size

def isEmpty (tree : NameTree α) : Bool := tree.size == 0

/-- The longest registered name at the start of a text, with its length in bytes. -/
def longest? (tree : NameTree α) (text : List Char) : Option (α × Nat) :=
  tree.branches.longestFrom 0 none text

/-- Every registered name at the start of a text, the longest first, with its length in bytes. -/
def matching (tree : NameTree α) (text : List Char) : List (α × Nat) :=
  (tree.branches.matchingFrom 0 text).reverse

/-- The tree in which each of the names stands for itself. -/
def ofNames : List String → Except (String × Char) (NameTree String)
  | names => names.foldlM (fun tree name => (tree.add name name).mapError (name, ·)) empty

end NameTree

end HttpGateway
