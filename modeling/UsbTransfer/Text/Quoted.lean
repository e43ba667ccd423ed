import UsbTransfer.Text.Hex
import UsbTransfer.Text.Invisible

/-!
# Quoted text

A text in double quotes.  The quote, the backslash, the line feed, the carriage return, the
tabulator and the null character are written with a backslash; a character without a form
of its own is written by its code; every other character stands for itself.
-/

namespace UsbTransfer
namespace Quoted

/-- One character as it stands between the quotes. -/
def escape (c : Char) : String :=
  if c = '"' then "\\\""
  else if c = '\\' then "\\\\"
  else if c = '\n' then "\\n"
  else if c = '\r' then "\\r"
  else if c = '\t' then "\\t"
  else if c.toNat = 0 then "\\0"
  else if Invisible.contains c then "\\u\x7b" ++ Hex.ofNat c.toNat ++ "\x7d"
  else c.toString

/-- The whole text between quotes. -/
def encode (text : String) : String :=
  "\"" ++ String.join (text.toList.map escape) ++ "\""

end Quoted
end UsbTransfer
