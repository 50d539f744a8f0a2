import TabStop.Unicode.Category

/-!
# Character classes by name

The classes that a pattern names: `\p{Greek}`, `\p{L}`, `\p{sc=Latin}`, `[:alpha:]`. A Unicode name
is taken loosely, without regard to case, blanks, hyphens and underscores.
-/

namespace TabStop.Pattern

/-- A Unicode name in the loose form. A leading `is` says nothing and is dropped, except in `isc`,
which is short for another property; characters beyond ASCII are dropped. -/
def looseName (name : List Char) : String :=
  let stem := match name with
    | a :: b :: rest => if a.toLower = 'i' ∧ b.toLower = 's' then rest else name
    | _ => name
  let clean (cs : List Char) : String :=
    String.ofList <|
      (cs.filter fun c => c ≠ ' ' ∧ c ≠ '_' ∧ c ≠ '-' ∧ c.toNat < 0x80).map Char.toLower
  if stem.length < name.length ∧ clean stem = "c" then "isc" else clean stem

/-- Short names that stand for a general category although a property has the same short name. -/
def categoryFirst : List String := ["cf", "sc", "lc"]

/-- The class that a single name stands for: a property, a general category or a script. -/
def classNamed? (name : List Char) : Option CharSet :=
  let name := looseName name
  let asProperty := if categoryFirst.contains name then none else Unicode.property? name
  asProperty <|> Unicode.category? name <|> Unicode.script? name

/-- The class of characters whose property `name` has the value `value`. -/
def classWhere? (name value : List Char) : Option CharSet :=
  let value := looseName value
  match looseName name with
  | "gc" | "generalcategory" => Unicode.category? value
  | "sc" | "script" => Unicode.script? value
  | "scx" | "scriptextensions" => Unicode.scriptExtension? value
  | _ => none

/-- The ranges of a class in the notation `[:name:]`. -/
def posixClass? (name : List Char) : Option CharSet :=
  let ranges : Option (List (Nat × Nat)) := match String.ofList name with
    | "alnum" => some [(0x30, 0x39), (0x41, 0x5A), (0x61, 0x7A)]
    | "alpha" => some [(0x41, 0x5A), (0x61, 0x7A)]
    | "ascii" => some [(0x00, 0x7F)]
    | "blank" => some [(0x09, 0x09), (0x20, 0x20)]
    | "cntrl" => some [(0x00, 0x1F), (0x7F, 0x7F)]
    | "digit" => some [(0x30, 0x39)]
    | "graph" => some [(0x21, 0x7E)]
    | "lower" => some [(0x61, 0x7A)]
    | "print" => some [(0x20, 0x7E)]
    | "punct" => some [(0x21, 0x2F), (0x3A, 0x40), (0x5B, 0x60), (0x7B, 0x7E)]
    | "space" => some [(0x09, 0x0D), (0x20, 0x20)]
    | "upper" => some [(0x41, 0x5A)]
    | "word" => some [(0x30, 0x39), (0x41, 0x5A), (0x5F, 0x5F), (0x61, 0x7A)]
    | "xdigit" => some [(0x30, 0x39), (0x41, 0x46), (0x61, 0x66)]
    | _ => none
  ranges.map CharSet.ofRanges

end TabStop.Pattern
