import TabStop.Unicode.Category

/-!
# Texts in quotes

A text that is shown to a reader stands in double quotes, and each character in it that could not be
told by sight is escaped: line ends, quotes, marks that combine with the character before them, and
whatever leaves no trace.
-/

namespace TabStop.Text

/-- The hexadecimal digits of a number, in lower case. -/
def hexDigits (n : Nat) : List Char := Nat.toDigits 16 n

/-- A character as it is shown. -/
def shownChar (c : Char) : List Char :=
  match c with
  | '\x00' => ['\\', '0']
  | '\t' => ['\\', 't']
  | '\r' => ['\\', 'r']
  | '\n' => ['\\', 'n']
  | '"' => ['\\', '"']
  | '\\' => ['\\', '\\']
  | _ =>
    if Unicode.graphemeExtend.contains c ∨ Unicode.unprintable.contains c then
      ['\\', 'u', '\x7b'] ++ hexDigits c.toNat ++ ['\x7d']
    else [c]

/-- A text in quotes. -/
def quoted (s : String) : String :=
  String.ofList ('"' :: s.toList.flatMap shownChar ++ ['"'])

/-- Texts in quotes, as a list in brackets. -/
def quotedList (ss : List String) : String := "[" ++ ", ".intercalate (ss.map quoted) ++ "]"

end TabStop.Text
