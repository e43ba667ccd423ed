/-!
# Hexadecimal text

Numbers in hexadecimal without leading zeros, and byte strings with two digits a byte.  Digits
above nine are lower-case letters.
-/

namespace UsbTransfer
namespace Hex

/-- The hexadecimal digits of a number. -/
def ofNat (n : Nat) : String :=
  String.ofList (Nat.toDigits 16 n)

/-- The two hexadecimal digits of a byte. -/
def ofByte (byte : UInt8) : List Char :=
  [Nat.digitChar (byte.toNat / 16), Nat.digitChar (byte.toNat % 16)]

/-- Two digits for each byte, in order. -/
def ofBytes (bytes : List UInt8) : String :=
  String.ofList (bytes.flatMap ofByte)

end Hex
end UsbTransfer
