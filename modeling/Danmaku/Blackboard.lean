import Danmaku.Blendable
import Danmaku.Entries

/-! Tables of named values, for global parameters and for the custom parameters of a projectile. A name
has at most one entry as long as entries are made by `set`. -/

namespace Danmaku

structure Blackboard where
  entries : List (String × Payload) := []
  deriving DecidableEq

namespace Blackboard

def find? (b : Blackboard) (name : String) : Option Payload := b.entries.lookup name

/-- The value as one of type `α`, if it reads as one. -/
def get? (α : Type) [Blendable α] (b : Blackboard) (name : String) : Option α :=
  (b.find? name).bind ofPayload?

def size (b : Blackboard) : Nat := b.entries.length

def set (b : Blackboard) (name : String) (value : Payload) : Blackboard := ⟨Entries.put name value b.entries⟩

/-- Adds to a number, `0` if it is missing, and gives the sum; none where something else is. -/
def add? (b : Blackboard) (name : String) (delta : Single) : Option (Single × Blackboard) :=
  match b.find? name with
  | none => some (0 + delta, b.set name (.float (0 + delta)))
  | some value => do
    let x : Single ← ofPayload? value
    return (x + delta, b.set name (.float (x + delta)))

def erase (b : Blackboard) (name : String) : Blackboard := ⟨b.entries.filter (·.1 ≠ name)⟩

theorem find?_set (b : Blackboard) (name other : String) (value : Payload) :
    (b.set name value).find? other = if other = name then some value else b.find? other :=
  Entries.lookup_put name other value b.entries

end Blackboard

end Danmaku
