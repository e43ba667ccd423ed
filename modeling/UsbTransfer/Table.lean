import UsbTransfer.Objects

/-!
# Tables of endpoints

What a table's slots tell, given the targets of the endpoints in them.  A table never holds two
endpoints whose targets match, so a one-way target is found in one place at most; a bidirectional
target may be found in two.  Look-ups go by the order of the slots.
-/

namespace UsbTransfer
namespace Table

variable (targetOf : Key Endpoint → Target)

/-- The first installed endpoint whose target matches. -/
def lookup? (t : Table) (target : Target) : Option (Nat × Key Endpoint) :=
  t.slots.findSlot? fun e => (targetOf e).Matches target

/-- The slots of the endpoints of a device. -/
def deviceSlots (t : Table) (address : UInt8) : List Nat :=
  t.slots.slotsWhere fun e => (targetOf e).address = address

/-- The installed endpoints that a reset reaches. -/
def reached (t : Table) (target : Target) (scope : ResetScope) : List (Key Endpoint) :=
  t.slots.values.filter fun e => scope.Reaches target (targetOf e)

end Table
end UsbTransfer
