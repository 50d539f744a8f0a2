import TabStop.Token
import TabStop.Toml.Scalar

/-!
# Writing strings and keys of TOML

A string is written in the first form in which it needs no escapes: double quotes, single quotes,
three double quotes, three single quotes. Where none of them will do, it is written between double
quotes with escapes, three of them if there are line ends in it. A key is written without quotes if
it can be.
-/

namespace TabStop.Toml

/-! ## What a text needs -/

/-- Whether there is a control character in a text that has to be escaped in any form. -/
def needsEscapes (cs : List Char) : Bool := cs.any fun c => isControl c && c != '\n'

/-- The length of the longest run of a character; `run` is that of the one that has been begun. -/
def longestRun (c : Char) (run : Nat) : List Char → Nat
  | [] => run
  | d :: ds => if c = d then longestRun c (run + 1) ds else max run (longestRun c 0 ds)

/-! ## Forms -/

/-- Four hexadecimal digits. -/
def hex4 (n : Nat) : List Char :=
  [n / 0x1000, n / 0x100, n / 0x10, n].map fun d =>
    (Nat.digitChar (d % 0x10)).toUpper

/-- A character between double quotes. `quotes` is the number of double quotes before it that are not
escaped; where that is `most`, a further one is escaped. -/
def escapedChar (multiLine : Bool) (most quotes : Nat) (c : Char) : List Char :=
  if c = '"' then (if quotes < most then ['"'] else ['\\', '"'])
  else if c = '\\' then ['\\', '\\']
  else if c = '\x08' then ['\\', 'b']
  else if c = '\t' then ['\\', 't']
  else if c = '\n' then (if multiLine then ['\n'] else ['\\', 'n'])
  else if c = '\x0c' then ['\\', 'f']
  else if c = '\r' then ['\\', 'r']
  else if isControl c then '\\' :: 'u' :: hex4 c.toNat
  else [c]

/-- A text between double quotes. -/
def escaped (multiLine : Bool) (most quotes : Nat) : List Char → List Char
  | [] => []
  | c :: cs =>
    let quotes' := if c = '"' ∧ quotes < most then quotes + 1 else 0
    escapedChar multiLine most quotes c ++ escaped multiLine most quotes' cs

/-- A text between quotes of one form. A line end is put first if there are line ends in the text. -/
def inForm (f : StringForm) (cs : List Char) : List Char :=
  let quotes := List.replicate (if f.multiLine then 3 else 1) f.quote
  let first := if f.multiLine && cs.contains '\n' then ['\n'] else []
  let most := if f.multiLine then 2 else 0
  quotes ++ first ++ (if f.escapes then escaped f.multiLine most 0 cs else cs) ++ quotes

/-- Whether a text can be written in a form without escapes. -/
def suits (f : StringForm) (cs : List Char) : Bool :=
  !needsEscapes cs && !(f.escapes && cs.contains '\\') &&
    longestRun f.quote 0 cs ≤ (if f.multiLine then 2 else 0) && (f.multiLine || !cs.contains '\n')

/-- The forms in the order in which they are tried. -/
def forms : List StringForm := [⟨'"', false⟩, ⟨'\'', false⟩, ⟨'"', true⟩, ⟨'\'', true⟩]

/-- A string as it is written. -/
def writeString (s : String) : String :=
  let cs := s.toList
  let form := (forms.find? fun f => suits f cs).getD ⟨'"', cs.contains '\n'⟩
  String.ofList (inForm form cs)

/-- A key as it is written. -/
def writeKey (s : String) : String :=
  let cs := s.toList
  if !cs.isEmpty && cs.all (fun c => Token.continuesWord c || c == '-') then s
  else
    let form := ((forms.take 2).find? fun f => suits f cs).getD ⟨'"', false⟩
    String.ofList (inForm form cs)

/-- A truth value as it is written. -/
def writeBoolean (b : Bool) : String := if b then "true" else "false"

/-- A key with its value, on a line. -/
def writeLine (k value : String) : String := writeKey k ++ " = " ++ value ++ "\n"

end TabStop.Toml
