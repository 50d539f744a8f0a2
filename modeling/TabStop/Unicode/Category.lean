import TabStop.Unicode.CharSet
import TabStop.Unicode.CategoryTable
import TabStop.Unicode.ScriptTable
import TabStop.Unicode.PropertyTable

/-!
# Properties of characters

General categories, scripts and binary properties of characters, as sets that are looked up by
name. Names are expected in the loose form: lower case, without blanks, underscores and hyphens.
-/

namespace TabStop.Unicode

open Table

/-! ## Tables that divide up all code points -/

/-- The part of a table entry before `=`, and the part after it. -/
def splitEntry (entry : List Char) : List Char × String :=
  (entry.takeWhile (· ≠ '='), String.ofList ((entry.dropWhile (· ≠ '=')).drop 1))

/-- Each label of a table of starts with the range up to the next start. -/
def runsOf : List (Nat × String) → List (Nat × Nat × String)
  | [] => []
  | [(a, label)] => [(a, CharSet.last, label)]
  | (a, label) :: (b, next) :: rest => (a, b - 1, label) :: runsOf ((b, next) :: rest)

/-- The labelled ranges that a table of starts describes. -/
def readRuns (text : String) : List (Nat × Nat × String) :=
  runsOf ((entries text).map fun e => let (start, label) := splitEntry e; (hex start, label))

/-- The code points whose label is one of `labels`. -/
def select (runs : List (Nat × Nat × String)) (labels : List String) : CharSet :=
  CharSet.ofRanges <| runs.filterMap fun (a, b, label) =>
    if labels.contains label then some (a, b) else none

/-! ## General categories -/

/-- Every code point's general category by its two-letter name. -/
def categoryRuns : List (Nat × Nat × String) := readRuns categoryStarts

/-- The characters in one of the given general categories. -/
def ofCategories (codes : List String) : CharSet := select categoryRuns codes

/-- The two-letter names of letters. -/
def letterCodes : List String := ["Lu", "Ll", "Lt", "Lm", "Lo"]

/-- The two-letter names of marks. -/
def markCodes : List String := ["Mn", "Mc", "Me"]

/-- The two-letter names of numbers. -/
def numberCodes : List String := ["Nd", "Nl", "No"]

/-- The names of each general category and of each group of them, with what the group holds.
Surrogates have no name here, because no character is one. -/
def categoryNames : List (List String × List String) := [
  (["c", "other"], ["Cc", "Cf", "Cn", "Co"]),
  (["cc", "control", "cntrl"], ["Cc"]),
  (["cf", "format"], ["Cf"]),
  (["cn", "unassigned"], ["Cn"]),
  (["co", "privateuse"], ["Co"]),
  (["l", "letter"], letterCodes),
  (["lc", "casedletter"], ["Lu", "Ll", "Lt"]),
  (["ll", "lowercaseletter"], ["Ll"]),
  (["lm", "modifierletter"], ["Lm"]),
  (["lo", "otherletter"], ["Lo"]),
  (["lt", "titlecaseletter"], ["Lt"]),
  (["lu", "uppercaseletter"], ["Lu"]),
  (["m", "mark", "combiningmark"], markCodes),
  (["mc", "spacingmark"], ["Mc"]),
  (["me", "enclosingmark"], ["Me"]),
  (["mn", "nonspacingmark"], ["Mn"]),
  (["n", "number"], numberCodes),
  (["nd", "decimalnumber", "digit"], ["Nd"]),
  (["nl", "letternumber"], ["Nl"]),
  (["no", "othernumber"], ["No"]),
  (["p", "punctuation", "punct"], ["Pc", "Pd", "Ps", "Pe", "Pi", "Pf", "Po"]),
  (["pc", "connectorpunctuation"], ["Pc"]),
  (["pd", "dashpunctuation"], ["Pd"]),
  (["ps", "openpunctuation"], ["Ps"]),
  (["pe", "closepunctuation"], ["Pe"]),
  (["pi", "initialpunctuation"], ["Pi"]),
  (["pf", "finalpunctuation"], ["Pf"]),
  (["po", "otherpunctuation"], ["Po"]),
  (["s", "symbol"], ["Sm", "Sc", "Sk", "So"]),
  (["sm", "mathsymbol"], ["Sm"]),
  (["sc", "currencysymbol"], ["Sc"]),
  (["sk", "modifiersymbol"], ["Sk"]),
  (["so", "othersymbol"], ["So"]),
  (["z", "separator"], ["Zs", "Zl", "Zp"]),
  (["zs", "spaceseparator"], ["Zs"]),
  (["zl", "lineseparator"], ["Zl"]),
  (["zp", "paragraphseparator"], ["Zp"])]

/-- The set that a general category, or one of the groups `any`, `assigned` and `ascii`, names. -/
def category? (name : String) : Option CharSet :=
  if name = "any" then some CharSet.all
  else if name = "assigned" then some (ofCategories ["Cn"]).complement
  else if name = "ascii" then some (CharSet.range 0 0x7F)
  else (categoryNames.find? (·.1.contains name)).map fun row => ofCategories row.2

/-! ## Scripts -/

/-- A name in the loose form. -/
def loose (name : String) : String :=
  String.ofList <| (name.toList.filter fun c => c ≠ ' ' ∧ c ≠ '_' ∧ c ≠ '-').map Char.toLower

/-- Every code point's script by its four-letter name. -/
def scriptRuns : List (Nat × Nat × String) := readRuns scriptStarts

/-- The four-letter name of the script that a name stands for. -/
def scriptCode? (name : String) : Option String :=
  (entries scriptNames).findSome? fun e =>
    let (short, long) := splitEntry e
    let code := String.ofList short
    if (code :: (long.splitOn ",")).any (fun n => loose n = name) then some code else none

/-- The characters of a script. -/
def script? (name : String) : Option CharSet :=
  (scriptCode? name).map fun code => select scriptRuns [code]

/-- The characters in use in a script, its own and those that it shares with others. -/
def scriptExtension? (name : String) : Option CharSet :=
  (scriptCode? name).map fun code =>
    let rows := (entries scriptExtensions).map fun e =>
      let (range, codes) := splitEntry e
      (readRange range, codes.splitOn ",")
    let special := CharSet.ofRanges (rows.map (·.1))
    let shared := CharSet.ofRanges ((rows.filter (·.2.contains code)).map (·.1))
    (select scriptRuns [code]).diff special |>.union shared

/-! ## Binary properties -/

/-- The set that a row of the property table describes. -/
def ofRow (row : PropertyRow) : CharSet :=
  let base := ofCategories (row.categories.splitOn " ")
  (base.union (charSet row.also)).diff (charSet row.except)

/-- The characters that have a property. -/
def property? (name : String) : Option CharSet :=
  (properties.find? (·.names.contains name)).map ofRow

/-- The characters that have a property of the table; none for any other name. -/
def property (name : String) : CharSet := (property? name).getD CharSet.empty

/-- Letters and what counts as one in spelling. -/
def alphabetic : CharSet := property "alphabetic"

/-- Digits of any script. -/
def decimalDigits : CharSet := ofCategories ["Nd"]

/-- Numbers of any kind. -/
def numbers : CharSet := ofCategories numberCodes

/-- Marks that combine with a character before them. -/
def marks : CharSet := ofCategories markCodes

/-- Blanks and line ends. -/
def whiteSpace : CharSet := property "whitespace"

/-- What words are made of: letters, marks, decimal digits, connecting punctuation and joiners. -/
def wordChars : CharSet :=
  CharSet.unions [alphabetic, marks, decimalDigits, ofCategories ["Pc"], property "joincontrol"]

/-- Characters with case. -/
def cased : CharSet := property "cased"

/-- Characters that are skipped when the letters around them decide about case. -/
def caseIgnorable : CharSet := property "caseignorable"

/-- Characters that extend the one before them on the screen. -/
def graphemeExtend : CharSet := property "graphemeextend"

/-- Characters that leave no visible trace of their own, the plain blank excepted. -/
def unprintable : CharSet :=
  (ofCategories ["Cc", "Cf", "Cs", "Co", "Cn", "Zl", "Zp", "Zs"]).diff (CharSet.range 0x20 0x20)

/-! ## Single characters -/

/-- Whether `c` is a letter or counts as one. -/
def isAlphabetic (c : Char) : Bool := alphabetic.contains c

/-- Whether `c` is a letter or a number. -/
def isAlphanumeric (c : Char) : Bool := alphabetic.contains c || numbers.contains c

/-- Whether `c` is a blank or a line end. -/
def isSpace (c : Char) : Bool := whiteSpace.contains c

end TabStop.Unicode
