import HttpGateway.Signal

/-!
# Caches of compiled texts

A cache keeps what was compiled from a text, up to a number of entries. Entries are kept in the
order of their first use, and none is replaced or removed: past the limit a text is compiled at each
use.
-/

namespace HttpGateway

structure Cache (α : Type) where
  /-- The most entries. -/
  limit : Nat
  entries : List (String × α)
  /-- That the limit was reached has been logged. -/
  fullNoticed : Bool

inductive Access where
  | hit
  | inserted
  /-- The text was compiled, and there was no room; `first` for the first time. -/
  | overflow (first : Bool)
deriving DecidableEq

def Access.compiled : Access → Bool
  | .hit => false
  | _ => true

def Access.signals (limit : Nat) : Access → List Signal
  | .hit => []
  | .inserted => [.metric .expressionMiss, .metric .expressionInsert]
  | .overflow true => [.metric .expressionMiss, .event (.cacheFull limit)]
  | .overflow false => [.metric .expressionMiss]

structure Fetched (α : Type) where
  value : α
  access : Access
  cache : Cache α

namespace Cache

variable {α : Type}

def empty (limit : Nat) : Cache α := ⟨limit, [], false⟩

def size (cache : Cache α) : Nat := cache.entries.length

def get? (cache : Cache α) (text : String) : Option α := cache.entries.lookup text

/-- The entry of a text; without one, the text is compiled, and entered if there is room. -/
def fetch (cache : Cache α) (text : String) (compile : String → α) : Fetched α :=
  match cache.get? text with
  | some value => ⟨value, .hit, cache⟩
  | none =>
    let value := compile text
    if cache.size < cache.limit then
      ⟨value, .inserted, { cache with entries := cache.entries ++ [(text, value)] }⟩
    else ⟨value, .overflow (!cache.fullNoticed), { cache with fullNoticed := true }⟩

end Cache

end HttpGateway
