import UsbTransfer.Text.Figure

/-!
# Targets and endpoint descriptions

A target names an endpoint of a device by the device's address, the endpoint's number and the
direction of its traffic.  Two targets match when they name the same number of the same device
and their directions overlap.  Matching is reflexive and symmetric but not transitive: a
bidirectional endpoint matches both of its one-way halves, which do not match each other.
-/

namespace UsbTransfer

/-- The four kinds of USB transfer. -/
inductive TransferType where
  | control
  | isochronous
  | bulk
  | interrupt
deriving DecidableEq, Repr, Inhabited

/-- The number that endpoint descriptors use for a kind of transfer. -/
def TransferType.code : TransferType → Nat
  | .control => 0
  | .isochronous => 1
  | .bulk => 2
  | .interrupt => 3

/-- The name of a kind of transfer. -/
def TransferType.word : TransferType → String
  | .control => "Control"
  | .isochronous => "Isochronous"
  | .bulk => "Bulk"
  | .interrupt => "Interrupt"

/-- The direction of an endpoint's traffic, seen from the host. -/
inductive Direction where
  | outbound
  | inbound
  | both
deriving DecidableEq, Repr, Inhabited

namespace Direction

/-- The name of a direction. -/
def word : Direction → String
  | .outbound => "Out"
  | .inbound => "In"
  | .both => "Both"

/-- The top bit of an endpoint address tells its direction. -/
def ofEndpointAddress (address : UInt8) : Direction :=
  if address &&& 0x80 = 0 then .outbound else .inbound

/-- Two directions overlap when they are the same or one of them is both. -/
def Overlaps (a b : Direction) : Prop :=
  a = b ∨ a = .both ∨ b = .both

instance (a b : Direction) : Decidable (a.Overlaps b) :=
  inferInstanceAs (Decidable (_ ∨ _ ∨ _))

end Direction

/-- An endpoint number of a device, with the direction of its traffic. -/
structure Target where
  address : UInt8
  endpoint : UInt8
  direction : Direction
deriving DecidableEq, Repr, Inhabited

namespace Target

/-- An endpoint address carries the number in its low four bits and the direction in its top bit. -/
def ofEndpointAddress (address endpointAddress : UInt8) : Target where
  address := address
  endpoint := endpointAddress &&& 0x0f
  direction := .ofEndpointAddress endpointAddress

/-- Two targets match when they share device and number and their directions overlap. -/
def Matches (a b : Target) : Prop :=
  a.address = b.address ∧ a.endpoint = b.endpoint ∧ a.direction.Overlaps b.direction

instance (a b : Target) : Decidable (a.Matches b) :=
  inferInstanceAs (Decidable (_ ∧ _ ∧ _))

/-- Two targets belong to the same device. -/
def SameDevice (a b : Target) : Prop :=
  a.address = b.address

instance (a b : Target) : Decidable (a.SameDevice b) :=
  inferInstanceAs (Decidable (_ = _))

/-- The text of a target: address, colon, number, blank, direction. -/
def text (t : Target) : String :=
  toString t.address.toNat ++ ":" ++ toString t.endpoint.toNat ++ " " ++ t.direction.word

/-- The figure of a target. -/
def figure (t : Target) : Figure :=
  .record "Target"
    [("address", .ofNat t.address.toNat), ("endpoint", .ofNat t.endpoint.toNat),
      ("direction", .word t.direction.word)] false

end Target

/-- What is known of an endpoint from its device's description of itself. -/
structure Descriptor where
  target : Target
  transferType : TransferType
  maxPacketSize : UInt16
deriving DecidableEq, Repr, Inhabited

namespace Descriptor

/-- Every device has a bidirectional control endpoint with the number zero. -/
def defaultControl (address : UInt8) (maxPacketSize : UInt16) : Descriptor where
  target := ⟨address, 0, .both⟩
  transferType := .control
  maxPacketSize := maxPacketSize

/-- The figure of an endpoint description. -/
def figure (d : Descriptor) : Figure :=
  .record "EndpointDescriptor"
    [("target", d.target.figure), ("transfer_type", .word d.transferType.word),
      ("max_packet_size", .ofNat d.maxPacketSize.toNat)] false

end Descriptor

/-- Which data toggles fall out of step with their device when a transfer fails. -/
inductive ResetScope where
  /-- No toggle is affected. -/
  | nothing
  /-- Only the endpoint that the transfer ran on is affected. -/
  | endpoint
  /-- Every endpoint of the device may be affected. -/
  | device
deriving DecidableEq, Repr, Inhabited

namespace ResetScope

/-- The name of a scope. -/
def word : ResetScope → String
  | .nothing => "None"
  | .endpoint => "Endpoint"
  | .device => "All"

/-- A failed control transfer may leave the whole device out of step, isochronous endpoints have
no toggle, and any other failure concerns its own endpoint alone. -/
def ofTransferType : TransferType → ResetScope
  | .control => .device
  | .isochronous => .nothing
  | .bulk => .endpoint
  | .interrupt => .endpoint

/-- Whether a reset of this scope, asked for one target, reaches an endpoint at another. -/
def Reaches (scope : ResetScope) (asked other : Target) : Prop :=
  match scope with
  | .nothing => False
  | .endpoint => other.Matches asked
  | .device => other.SameDevice asked

instance (scope : ResetScope) (asked other : Target) : Decidable (scope.Reaches asked other) :=
  match scope with
  | .nothing => inferInstanceAs (Decidable False)
  | .endpoint => inferInstanceAs (Decidable (Target.Matches _ _))
  | .device => inferInstanceAs (Decidable (Target.SameDevice _ _))

end ResetScope

end UsbTransfer
