import Danmaku.Codec
import Danmaku.Json.Text

/-! Values in files: reading a value from a text, and the text of a value. -/

namespace Danmaku

/-- Why a text does not hold a value. -/
inductive LoadError where
  | notWellFormed
  | fault (fault : Fault)
  deriving DecidableEq

/-- Reads a value from a text. A text that is not sound is not well-formed, unless nothing that is wrong
with it stands where it is read. A tree without nodes is reported even if the text breaks off after it. -/
def load (α : Type) [Coded α] (text : String) : Except LoadError α :=
  let r := Json.read text
  match decode r.value with
  | .ok x => if r.whole then .ok x else .error .notWellFormed
  | .error f => .error (if f = .emptyTree ∨ (r.whole ∧ r.value.isSound) then .fault f else .notWellFormed)

def save {α : Type} [Coded α] (x : α) : String := (encode x).pretty

end Danmaku
