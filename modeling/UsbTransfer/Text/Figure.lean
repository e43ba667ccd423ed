/-!
# Figures

A figure is the shape of a value's descriptive text before it is laid out: a word, a record of
named parts, a wrapped value or a list.  There are two layouts.  The compact one stands on one
line; the indented one gives every part a line of its own, four blanks deeper than what encloses
it and ended by a comma.
-/

namespace UsbTransfer

/-- The shape of a descriptive text. -/
inductive Figure where
  /-- A text that is laid out as it is. -/
  | word (text : String)
  /-- A name and its labelled parts; `open_` records show that more is left out. -/
  | record (name : String) (parts : List (String × Figure)) (open_ : Bool)
  /-- A name around one value. -/
  | wrapped (name : String) (body : Figure)
  /-- A list in brackets. -/
  | list (items : List Figure)

namespace Figure

/-- The figure of a number. -/
def ofNat (n : Nat) : Figure :=
  .word (toString n)

/-- The figure of a truth value. -/
def ofBool (b : Bool) : Figure :=
  .word (if b then "true" else "false")

mutual

/-- The layout on one line. -/
def compact : Figure → String
  | .word text => text
  | .record name parts open_ =>
      let shown := compactParts parts ++ (if open_ then [".."] else [])
      name ++ " \x7b " ++ ", ".intercalate shown ++ " \x7d"
  | .wrapped name body => name ++ "(" ++ body.compact ++ ")"
  | .list items => "[" ++ ", ".intercalate (compactItems items) ++ "]"

/-- The labelled parts of a record, each on one line. -/
def compactParts : List (String × Figure) → List String
  | [] => []
  | (label, part) :: rest => (label ++ ": " ++ part.compact) :: compactParts rest

/-- The items of a list, each on one line. -/
def compactItems : List Figure → List String
  | [] => []
  | item :: rest => item.compact :: compactItems rest

end

/-- The blanks before a line at the given depth. -/
def margin (depth : Nat) : String :=
  String.ofList (List.replicate (4 * depth) ' ')

mutual

/-- The layout on several lines, for a figure that stands at the given depth. -/
def indented (depth : Nat) : Figure → String
  | .word text => text
  | .record name parts open_ =>
      name ++ " \x7b\n" ++ indentedParts (depth + 1) parts ++
        (if open_ then margin (depth + 1) ++ "..\n" else "") ++ margin depth ++ "\x7d"
  | .wrapped name body =>
      name ++ "(\n" ++ margin (depth + 1) ++ body.indented (depth + 1) ++ ",\n" ++
        margin depth ++ ")"
  | .list [] => "[]"
  | .list (item :: rest) =>
      "[\n" ++ margin (depth + 1) ++ item.indented (depth + 1) ++ ",\n" ++
        indentedItems (depth + 1) rest ++ margin depth ++ "]"

/-- The lines of a record's parts. -/
def indentedParts (depth : Nat) : List (String × Figure) → String
  | [] => ""
  | (label, part) :: rest =>
      margin depth ++ label ++ ": " ++ part.indented depth ++ ",\n" ++
        indentedParts depth rest

/-- The lines of a list's items. -/
def indentedItems (depth : Nat) : List Figure → String
  | [] => ""
  | item :: rest =>
      margin depth ++ item.indented depth ++ ",\n" ++ indentedItems depth rest

end

/-- The layout on several lines of a figure that nothing encloses. -/
def pretty (figure : Figure) : String :=
  figure.indented 0

end Figure

end UsbTransfer
