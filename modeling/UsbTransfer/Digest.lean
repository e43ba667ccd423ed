import UsbTransfer.Text.Hex

/-!
# Digests of byte strings

A short byte string is shown in full.  Of a long one the length, both ends and a checksum are
shown.
-/

namespace UsbTransfer

/-- What is shown of a byte string. -/
inductive Digest where
  | whole (hex : String)
  | ends (length : Nat) (head tail : String) (checksum : UInt32)
deriving DecidableEq, Repr

namespace Digest

/-- Byte strings up to this length are shown in full. -/
def shortLength : Nat := 64

/-- The number of bytes shown at each end of a long byte string. -/
def endLength : Nat := 16

/-- A polynomial checksum with the base 31 in 32-bit words. -/
def checksum (bytes : List UInt8) : UInt32 :=
  bytes.foldl (fun sum byte => sum * 31 + byte.toUInt32) 0

/-- What is shown of the given bytes. -/
def ofBytes (bytes : List UInt8) : Digest :=
  if bytes.length ≤ shortLength then
    .whole (Hex.ofBytes bytes)
  else
    .ends bytes.length (Hex.ofBytes (bytes.take endLength))
      (Hex.ofBytes (bytes.drop (bytes.length - endLength))) (checksum bytes)

end Digest

end UsbTransfer
