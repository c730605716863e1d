import Ragged.Error
import Ragged.Number.Decimal
import Ragged.Value.Basic

/-!
# Values of JSON documents

Arrays become lists and objects mappings. A number is an integer if it is written as one and fits 64
bits with or without sign, and else a float. There is no value for `null`.
-/

set_option autoImplicit false

namespace Ragged

namespace Json

/-- The scalar a numeral writes. Minus zero is a float, as there is no such integer. -/
def numeralAtom (n : Numeral) : Atom :=
  match n.int? with
  | some i =>
    if -0x8000000000000000 ≤ i ∧ i < 0x10000000000000000 ∧ ¬ (n.negative ∧ i = 0) then .int i
    else .float ((Decimal.nearestOfPrefix n).getD (.ofDatum .nan))
  | none => .float ((Decimal.nearestOfPrefix n).getD (.ofDatum .nan))

mutual

def toValue : Json → Except BuildError Value
  | .null => .error (.source .null)
  | .bool b => .ok (.ofBool b)
  | .number n => .ok (.atom (numeralAtom n))
  | .string s => .ok (.ofText s)
  | .array items => return .list (← toValues items)
  | .object members => return .ofEntries (← toEntries members)

def toValues : List Json → Except BuildError (List Value)
  | [] => .ok []
  | item :: rest => return (← toValue item) :: (← toValues rest)

def toEntries : List (String × Json) → Except BuildError (List (String × Value))
  | [] => .ok []
  | (name, item) :: rest => return (name, ← toValue item) :: (← toEntries rest)

end

end Json

end Ragged
