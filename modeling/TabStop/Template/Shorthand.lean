import TabStop.Token
import TabStop.Unicode.CaseMap

/-!
# Named case conversions

The conversions that a reference to a group may name: `${1:/upcase}`. Those that join words take as
words the runs of ASCII letters and digits, and leave a text without any as it is.
-/

namespace TabStop

/-- A named conversion. -/
inductive Shorthand where
  | upcase | downcase | capitalize | pascalCase | camelCase
  /-- A name that stands for no conversion and leaves a text as it is. -/
  | unknown (name : String)
  deriving DecidableEq, Repr

namespace Shorthand

/-- The conversion that a name stands for. -/
def ofName (name : String) : Shorthand :=
  match name with
  | "upcase" => upcase
  | "downcase" => downcase
  | "capitalize" => capitalize
  | "pascalcase" => pascalCase
  | "camelcase" => camelCase
  | _ => unknown name

/-- The name of a conversion. -/
def name : Shorthand → String
  | upcase => "upcase"
  | downcase => "downcase"
  | capitalize => "capitalize"
  | pascalCase => "pascalcase"
  | camelCase => "camelcase"
  | unknown name => name

/-- Whether `c` is an ASCII letter or digit. -/
def inWord (c : Char) : Bool := Token.isLetter c || Token.isDigit c

/-- The runs of ASCII letters and digits; `word` is the one that has been begun. -/
def wordsFrom (word : List Char) : List Char → List (List Char)
  | [] => if word.isEmpty then [] else [word]
  | c :: cs =>
    if inWord c then wordsFrom (word ++ [c]) cs
    else if word.isEmpty then wordsFrom [] cs
    else word :: wordsFrom [] cs

/-- The runs of ASCII letters and digits in a text. -/
def words (cs : List Char) : List (List Char) := wordsFrom [] cs

/-- Puts the first character in upper case. -/
def capitalized : List Char → List Char
  | [] => []
  | c :: cs => Unicode.upper c ++ cs

/-- Puts the first character in lower case. -/
def uncapitalized : List Char → List Char
  | [] => []
  | c :: cs => Unicode.lower c ++ cs

/-- Words joined, each capitalized. -/
def joinPascal (words : List (List Char)) : List Char := words.flatMap capitalized

/-- Words joined, each but the first capitalized. -/
def joinCamel : List (List Char) → List Char
  | [] => []
  | w :: ws => uncapitalized w ++ joinPascal ws

/-- Joins the words of a text; a text without words stays as it is. -/
def joinWords (join : List (List Char) → List Char) (s : String) : String :=
  match words s.toList with
  | [] => s
  | ws => String.ofList (join ws)

/-- Converts a text. -/
def apply (c : Shorthand) (s : String) : String :=
  match c with
  | upcase => Unicode.upperText s
  | downcase => Unicode.lowerText s
  | capitalize => String.ofList (capitalized s.toList)
  | pascalCase => joinWords joinPascal s
  | camelCase => joinWords joinCamel s
  | unknown _ => s

end Shorthand

end TabStop
