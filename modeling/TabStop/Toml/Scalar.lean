import TabStop.Decimal
import TabStop.Token
import TabStop.Unicode.CharSet
import TabStop.Toml.Value

/-!
# Strings, numbers and dates of TOML

Strings come in four forms: between double quotes, where a backslash begins an escape, or between
single quotes, where it does not; and either with three quotes, over several lines. Everything else
that is not nested is written without quotes and is told apart by its form. Numbers that no format of
the machine holds are refused.
-/

namespace TabStop.Toml

/-! ## Characters -/

/-- A blank within a line. -/
def isBlank (c : Char) : Bool := c == ' ' || c == '\t'

/-- Control characters that may not stand in comments and strings. -/
def isControl (c : Char) : Bool := (c.toNat < 0x20 && c != '\t') || c.toNat == 0x7F

/-- A hexadecimal digit. -/
def isHexDigit (c : Char) : Bool :=
  Token.isDigit c || ('a' ≤ c && c ≤ 'f') || ('A' ≤ c && c ≤ 'F')

/-- A line end at the front, and what is after it. -/
def lineEnd? : List Char → Option (List Char)
  | '\n' :: cs => some cs
  | '\r' :: '\n' :: cs => some cs
  | _ => none

/-! ## Strings -/

/-- The character with a number of `n` hexadecimal digits. -/
def charOfHex? (n : Nat) (cs : List Char) : Option (Char × List Char) :=
  let digits := cs.take n
  let code := Table.hex digits
  if digits.length = n ∧ digits.all isHexDigit ∧ code.isValidChar then
    some (Char.ofNat code, cs.drop n)
  else none

/-- The character that an escape stands for, after its backslash. -/
def escape? : List Char → Option (Char × List Char)
  | 'b' :: cs => some ('\x08', cs)
  | 't' :: cs => some ('\t', cs)
  | 'n' :: cs => some ('\n', cs)
  | 'f' :: cs => some ('\x0c', cs)
  | 'r' :: cs => some ('\r', cs)
  | 'e' :: cs => some ('\x1b', cs)
  | '"' :: cs => some ('"', cs)
  | '\\' :: cs => some ('\\', cs)
  | 'x' :: cs => charOfHex? 2 cs
  | 'u' :: cs => charOfHex? 4 cs
  | 'U' :: cs => charOfHex? 8 cs
  | _ => none

/-- The blanks and line ends after a backslash at the end of a line, which mean nothing. -/
def skipBlankLines : List Char → List Char
  | '\r' :: '\n' :: cs => skipBlankLines cs
  | c :: cs => if isBlank c ∨ c = '\n' then skipBlankLines cs else c :: cs
  | [] => []

/-- What is after a backslash that ends a line. -/
def continuation? (cs : List Char) : Option (List Char) :=
  (lineEnd? (cs.dropWhile isBlank)).map skipBlankLines

/-- How a string ends and what may stand in it. -/
structure StringForm where
  quote : Char
  /-- Three quotes, and line ends. -/
  multiLine : Bool
  deriving Repr

namespace StringForm

/-- Whether a backslash begins an escape. -/
def escapes (f : StringForm) : Bool := f.quote == '"'

/-- The end of a string at the front: quotes that still belong to it, and what is after it. Up to two
quotes may stand right before the three that end a string over several lines. -/
def ending? (f : StringForm) (cs : List Char) : Option (List Char × List Char) :=
  let q := f.quote
  if f.multiLine then
    let quotes := (cs.takeWhile (· = q)).take 5
    if 3 ≤ quotes.length then some (quotes.drop 3, cs.drop quotes.length) else none
  else
    match cs with
    | c :: rest => if c = q then some ([], rest) else none
    | [] => none

/-- One character of a string, or nothing for a line that goes on; and what is after it. -/
def character? (f : StringForm) : List Char → Option (List Char × List Char)
  | [] => none
  | '\\' :: cs =>
    if f.escapes then
      match escape? cs with
      | some (c, rest) => some ([c], rest)
      | none => if f.multiLine then (continuation? cs).map fun rest => ([], rest) else none
    else some (['\\'], cs)
  | c :: cs =>
    match (if f.multiLine then lineEnd? (c :: cs) else none) with
    | some rest => some (['\n'], rest)
    | none => if isControl c then none else some ([c], cs)

/-- The text of a string after its opening quotes, read in at most `fuel` steps. -/
def body? (f : StringForm) : Nat → List Char → Option (List Char × List Char)
  | 0, _ => none
  | fuel + 1, cs =>
    match f.ending? cs with
    | some r => some r
    | none => do
      let (c, rest) ← f.character? cs
      let (text, rest) ← body? f fuel rest
      return (c ++ text, rest)

end StringForm

/-- Reads a string of one form; a line end right after three quotes is dropped. -/
def stringOf? (f : StringForm) (cs : List Char) : Option (String × List Char) :=
  let cs := if f.multiLine then (lineEnd? cs).getD cs else cs
  (f.body? (cs.length + 1) cs).map fun (text, rest) => (String.ofList text, rest)

/-- Reads a string within a line. -/
def lineString? : List Char → Option (String × List Char)
  | '"' :: cs => stringOf? ⟨'"', false⟩ cs
  | '\'' :: cs => stringOf? ⟨'\'', false⟩ cs
  | _ => none

/-- Reads a string of any form. -/
def string? : List Char → Option (String × List Char)
  | '"' :: '"' :: '"' :: cs => stringOf? ⟨'"', true⟩ cs
  | '\'' :: '\'' :: '\'' :: cs => stringOf? ⟨'\'', true⟩ cs
  | cs => lineString? cs

/-! ## Numbers -/

/-- Whether text is digits with single underscores between them. -/
def areDigits (isDigit : Char → Bool) : List Char → Bool
  | [] => false
  | [c] => isDigit c
  | c :: '_' :: cs => isDigit c && areDigits isDigit cs
  | c :: cs => isDigit c && areDigits isDigit cs

/-- A text without a sign. -/
def unsigned : List Char → List Char
  | '+' :: cs => cs
  | '-' :: cs => cs
  | cs => cs

/-- Whether text is a whole number in decimal digits, without zeros before it. -/
def isDecimal (cs : List Char) : Bool :=
  areDigits Token.isDigit cs && (cs.length == 1 || cs.head? != some '0')

/-- Whether text is a whole number, in decimal digits or with the mark of another base. -/
def isInteger (cs : List Char) : Bool :=
  match cs with
  | '0' :: 'x' :: ds => areDigits isHexDigit ds
  | '0' :: 'o' :: ds => areDigits (fun c => '0' ≤ c && c ≤ '7') ds
  | '0' :: 'b' :: ds => areDigits (fun c => c == '0' || c == '1') ds
  | _ => isDecimal (unsigned cs)

/-- The digits that a text holds, without underscores between them. -/
def digitsOf (cs : List Char) : List Char := cs.filter (· ≠ '_')

/-- The number that digits stand for, of at most sixteen kinds. -/
def valueIn (base : Nat) (ds : List Char) : Nat :=
  (digitsOf ds).foldl (fun n d => base * n + Table.hexDigit d) 0

/-- The greatest whole number of 128 bits. -/
def greatestWhole : Nat := 340282366920938463463374607431768211455

/-- Whether a whole number is within 128 bits, with a sign or without one. -/
def isInReach (cs : List Char) : Bool :=
  match cs with
  | '0' :: 'x' :: ds => valueIn 16 ds ≤ greatestWhole
  | '0' :: 'o' :: ds => valueIn 8 ds ≤ greatestWhole
  | '0' :: 'b' :: ds => valueIn 2 ds ≤ greatestWhole
  | '-' :: ds => valueIn 10 ds ≤ greatestWhole / 2 + 1
  | cs => valueIn 10 (unsigned cs) ≤ greatestWhole

/-- Whether text is nothing or an exponent. -/
def isExponent : List Char → Bool
  | [] => true
  | e :: cs => (e == 'e' || e == 'E') && areDigits Token.isDigit (unsigned cs)

/-- Whether a character can stand in digits. -/
def inDigits (c : Char) : Bool := Token.isDigit c || c == '_'

/-- Whether text is a number with a fraction or an exponent, or one of the special numbers. -/
def isFloat (cs : List Char) : Bool :=
  let cs := unsigned cs
  let rest := cs.dropWhile inDigits
  cs == ['i', 'n', 'f'] || cs == ['n', 'a', 'n'] ||
    (isDecimal (cs.takeWhile inDigits) &&
      match rest with
      | '.' :: more =>
        areDigits Token.isDigit (more.takeWhile inDigits) && isExponent (more.dropWhile inDigits)
      | [] => false
      | _ => isExponent rest)

/-- Whether a number with a fraction or an exponent is within the binary format of 64 bits. -/
def isFinite (cs : List Char) : Bool :=
  match Decimal.read? (String.ofList (digitsOf cs)) with
  | some (.infinite _) => cs.contains 'i'
  | _ => true

/-! ## Dates and times -/

/-- A number of `n` digits at the front, if it is within bounds. -/
def number? (n low high : Nat) (cs : List Char) : Option (Nat × List Char) :=
  let digits := cs.take n
  let value := Decimal.ofDigits digits
  if digits.length = n ∧ digits.all Token.isDigit ∧ low ≤ value ∧ value ≤ high then
    some (value, cs.drop n)
  else none

/-- A character at the front. -/
def expect? (c : Char) : List Char → Option (List Char)
  | d :: cs => if c = d then some cs else none
  | [] => none

/-- How many days a month has. -/
def daysIn (year month : Nat) : Nat :=
  if month = 2 then
    if (year % 4 = 0 ∧ year % 100 ≠ 0) ∨ year % 400 = 0 then 29 else 28
  else if month = 4 ∨ month = 6 ∨ month = 9 ∨ month = 11 then 30
  else 31

/-- What is after a date at the front. -/
def date? (cs : List Char) : Option (List Char) := do
  let (year, cs) ← number? 4 0 9999 cs
  let (month, cs) ← number? 2 1 12 (← expect? '-' cs)
  let (_, cs) ← number? 2 1 (daysIn year month) (← expect? '-' cs)
  return cs

/-- What is after a time of day at the front. It may lack its seconds. -/
def time? (cs : List Char) : Option (List Char) := do
  let (_, cs) ← number? 2 0 23 cs
  let (_, cs) ← number? 2 0 59 (← expect? ':' cs)
  match cs with
  | ':' :: cs =>
    let (_, cs) ← number? 2 0 60 cs
    match cs with
    | '.' :: more =>
      let rest := more.dropWhile Token.isDigit
      if rest.length < more.length then some rest else none
    | _ => return cs
  | _ => return cs

/-- Whether text is nothing or an offset from universal time. -/
def isOffset : List Char → Bool
  | [] => true
  | ['Z'] => true
  | ['z'] => true
  | c :: cs =>
    (c == '+' || c == '-') &&
      (do let (_, cs) ← number? 2 0 24 cs
          let (_, cs) ← number? 2 0 59 (← expect? ':' cs)
          return cs) == some []

/-- Whether text is a date, a time of day, or both. -/
def isDateTime (cs : List Char) : Bool :=
  match date? cs with
  | some [] => true
  | some (c :: rest) =>
    (c == 'T' || c == 't' || c == ' ') && ((time? rest).map isOffset).getD false
  | none => time? cs == some []

/-! ## Values without quotes -/

/-- Characters of values without quotes. -/
def inScalar (c : Char) : Bool :=
  Token.continuesWord c || c == '+' || c == '-' || c == '.' || c == ':'

/-- The text of a value without quotes, and what is after it. A date may have a time after a blank. -/
def scalarText (cs : List Char) : List Char × List Char :=
  let text := cs.takeWhile inScalar
  let rest := cs.dropWhile inScalar
  match date? text, rest with
  | some [], ' ' :: d :: more =>
    if Token.isDigit d then
      (text ++ ' ' :: (d :: more).takeWhile inScalar, (d :: more).dropWhile inScalar)
    else (text, rest)
  | _, _ => (text, rest)

/-- Reads a value without quotes. -/
def scalar? (cs : List Char) : Option (Value × List Char) :=
  let (text, rest) := scalarText cs
  let shown := String.ofList text
  if shown = "true" then some (.boolean true, rest)
  else if shown = "false" then some (.boolean false, rest)
  else if isInteger text then (if isInReach text then some (.number shown, rest) else none)
  else if isFloat text then (if isFinite text then some (.number shown, rest) else none)
  else if isDateTime text then some (.dateTime shown, rest)
  else none

end TabStop.Toml
