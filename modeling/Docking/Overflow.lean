/-!
# Arithmetic that leaves its word

Some steps of the engine compute in fixed-width words that are checked: a result outside
the word stops the whole request instead of wrapping. `Overflow` names which operation
left its word; `Overflow.message` is the text such a stop reports.
-/

namespace Docking

/-- A checked word operation whose exact result does not fit the word. -/
inductive Overflow where
  | subtract
  | add
  | multiply
  deriving DecidableEq, Repr

/-- The report of a stop caused by an overflow. -/
def Overflow.message : Overflow → String
  | .subtract => "attempt to subtract with overflow"
  | .add => "attempt to add with overflow"
  | .multiply => "attempt to multiply with overflow"

/-- The bounds of a signed 32-bit word. -/
def int32Min : Int := -2147483648

def int32Max : Int := 2147483647

/-- Checked addition in a signed 32-bit word. -/
def add32 (a b : Int) : Except Overflow Int :=
  if a + b < int32Min ∨ int32Max < a + b then .error .add else .ok (a + b)

/-- The sum of a list in a signed 32-bit word, added from the left: the first partial sum
outside the word overflows. -/
def sum32 (xs : List Int) : Except Overflow Int := xs.foldlM add32 0

end Docking
