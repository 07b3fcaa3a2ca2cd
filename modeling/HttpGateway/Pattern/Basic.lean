/-!
# Route patterns

The tree of a route pattern such as `/api(/v:version)/product/*`. A sequence inside a sequence
stands for its items in order, and `concat` removes one level of such nesting; the trees it builds
hold no sequence directly inside a sequence as long as its arguments hold none.
-/

namespace HttpGateway

inductive Pattern where
  /-- Literal text, in any case. -/
  | literal (text : String)
  | separator
  /-- `:name`, one or more characters of a segment, kept under the name. -/
  | capture (name : String)
  /-- `*`, one or more characters of a segment. -/
  | wildcard
  /-- `(…)`, the child or nothing. -/
  | optional (child : Pattern)
  | sequence (children : List Pattern)

namespace Pattern

/-! ## Equality -/

mutual

def same : Pattern → Pattern → Bool
  | .literal s, .literal t => s == t
  | .separator, .separator => true
  | .capture m, .capture n => m == n
  | .wildcard, .wildcard => true
  | .optional p, .optional q => same p q
  | .sequence ps, .sequence qs => sameAll ps qs
  | _, _ => false

def sameAll : List Pattern → List Pattern → Bool
  | [], [] => true
  | p :: ps, q :: qs => same p q && sameAll ps qs
  | _, _ => false

end

mutual

theorem same_iff : ∀ p q : Pattern, same p q = true ↔ p = q
  | .literal s, q => by cases q <;> simp [same]
  | .separator, q => by cases q <;> simp [same]
  | .capture n, q => by cases q <;> simp [same]
  | .wildcard, q => by cases q <;> simp [same]
  | .optional p, q => by cases q <;> simp [same, same_iff p]
  | .sequence ps, q => by cases q <;> simp [same, sameAll_iff ps]

theorem sameAll_iff : ∀ ps qs : List Pattern, sameAll ps qs = true ↔ ps = qs
  | [], qs => by cases qs <;> simp [sameAll]
  | p :: ps, qs => by cases qs <;> simp [sameAll, same_iff p, sameAll_iff ps]

end

instance : DecidableEq Pattern := fun p q => decidable_of_iff _ (same_iff p q)

/-! ## Building -/

def empty : Pattern := .literal ""

instance : Inhabited Pattern := ⟨empty⟩

/-- The items of a pattern at its top level. -/
def items : Pattern → List Pattern
  | .sequence children => children
  | pattern => [pattern]

/-- The pattern with the given items: the empty pattern for none, the item itself for one. -/
def ofItems : List Pattern → Pattern
  | [] => empty
  | [item] => item
  | items => .sequence items

def concat (patterns : List Pattern) : Pattern := ofItems (patterns.flatMap items)

end Pattern

end HttpGateway
