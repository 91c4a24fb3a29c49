import NedCheck.Text.Blank

/-!
# Locations

A location is the text `file:line`. The file part is free and may hold colons of its own, so the line number is read after the last one. A location without a readable number stands for the first line.
-/

namespace NedCheck

namespace Text

/-- The text after the last occurrence of `mark`, if there is one. -/
def afterLast (mark : Char) : List Char → Option (List Char)
  | [] => none
  | c :: rest => (afterLast mark rest).or (if c = mark then some rest else none)

/-- The value of a row of decimal digits, most significant first, continuing from `high`. -/
def decimalFrom (high : Nat) : List Char → Option Nat
  | [] => some high
  | c :: rest => if c.isDigit then decimalFrom (10 * high + (c.toNat - '0'.toNat)) rest else none

/-- One or more decimal digits. -/
def decimal? : List Char → Option Nat
  | [] => none
  | digits => decimalFrom 0 digits

/-- A line number: decimal digits after an optional plus sign, with a value that fits 32 bits. -/
def lineNumber? (text : List Char) : Option Nat :=
  let digits := match text with
    | '+' :: rest => rest
    | _ => text
  (decimal? digits).filter (· < UInt32.size)

/-- The line number at the end of a `file:line` location, and 1 if there is none. -/
def lineOfLocation (location : String) : Nat :=
  ((afterLast ':' location.toList).bind fun line => lineNumber? (trim line)).getD 1

/-- The location of a line of a file. -/
def location (file : String) (line : Nat) : String := file ++ ":" ++ toString line

end Text

end NedCheck
