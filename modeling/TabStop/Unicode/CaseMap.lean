import TabStop.Unicode.Category
import TabStop.Unicode.CaseTable

/-!
# Upper and lower case

A character may have several characters as its upper or lower case form: the upper case of `ß` is
`SS`. ASCII letters change by themselves, everything else goes through a table. In a whole text the
lower case of `Σ` depends on its place: at the end of a word it is `ς`.
-/

namespace TabStop.Unicode

open Table

/-! ## Reading the tables -/

/-- A stretch of a case table: every `step`-th code point from `lo` to `hi` has an image. Only a
stretch of one code point may have an image of more than one. -/
structure CaseRun where
  lo : Nat
  hi : Nat
  step : Nat
  image : List Nat
  deriving Repr, Inhabited

/-- The numbers written in hexadecimal between commas. -/
def hexList (text : String) : List Nat := (text.toList.splitOn ',').map hex

/-- Reads an entry such as `100-12E/2=101`. -/
def readCaseRun (entry : List Char) : CaseRun :=
  let (source, target) := splitEntry entry
  let step := match source.dropWhile (· ≠ '/') with
    | [] => 1
    | _ :: n => hex n
  let (lo, hi) := readRange (source.takeWhile (· ≠ '/'))
  ⟨lo, hi, step, hexList target⟩

/-- The image of a code point in a stretch that reaches over it. -/
def CaseRun.image? (r : CaseRun) (n : Nat) : Option (List Nat) :=
  if n < r.lo ∨ r.hi < n ∨ (n - r.lo) % r.step ≠ 0 then none
  else some <| match r.image with
    | [t] => [t + (n - r.lo)]
    | ts => ts

/-- A case table in the order of its stretches. -/
def readCaseRuns (text : String) : Array CaseRun := ((entries text).map readCaseRun).toArray

/-- The last stretch from place `lo` up to, not including, place `hi` that starts at `n` or before. -/
def findRun (runs : Array CaseRun) (n lo hi : Nat) : Option CaseRun :=
  if lo + 1 < hi then
    let mid := (lo + hi) / 2
    match runs[mid]? with
    | none => none
    | some r => if n < r.lo then findRun runs n lo mid else findRun runs n mid hi
  else runs[lo]?
termination_by hi - lo

/-- The image of `n` in a table. -/
def lookUp (runs : Array CaseRun) (n : Nat) : Option (List Nat) :=
  (findRun runs n 0 runs.size).bind (·.image? n)

/-- Upper-case forms beyond ASCII. -/
def upperRuns : Array CaseRun := readCaseRuns upperForms

/-- Lower-case forms beyond ASCII. -/
def lowerRuns : Array CaseRun := readCaseRuns lowerForms

/-! ## Characters -/

/-- The upper-case form of a character. -/
def upper (c : Char) : List Char :=
  if c.toNat < 0x80 then [c.toUpper]
  else match lookUp upperRuns c.toNat with
    | some ns => ns.map Char.ofNat
    | none => [c]

/-- The lower-case form of a character. -/
def lower (c : Char) : List Char :=
  if c.toNat < 0x80 then [c.toLower]
  else match lookUp lowerRuns c.toNat with
    | some ns => ns.map Char.ofNat
    | none => [c]

/-! ## Texts -/

/-- A text in upper case. -/
def upperText (s : String) : String := String.ofList (s.toList.flatMap upper)

/-- Whether the first character of a text that case does not ignore has case. -/
def startsCased (cs : List Char) : Bool :=
  match cs.dropWhile caseIgnorable.contains with
  | [] => false
  | c :: _ => cased.contains c

/-- Lower case of the text after `before`, which holds the characters passed so far, last first. A
`Σ` that ends a word, with cased letters before it and none after it, becomes `ς`. -/
def lowerFrom (before : List Char) : List Char → List Char
  | [] => []
  | c :: cs =>
    let form :=
      if c = 'Σ' then (if startsCased before && !startsCased cs then ['ς'] else ['σ'])
      else lower c
    form ++ lowerFrom (c :: before) cs

/-- A text in lower case. -/
def lowerText (s : String) : String := String.ofList (lowerFrom [] s.toList)

/-! ## Letters equal up to case -/

/-- Reads an entry of the table of classes; a stretch of pairs stands for a class each. -/
def readClasses (entry : List Char) : List (List Nat) :=
  let r := readCaseRun entry
  match r.image with
  | [t] => (List.range ((r.hi - r.lo) / r.step + 1)).map fun i =>
      [r.lo + i * r.step, t + i * r.step]
  | ts => [r.lo :: ts]

/-- The classes of code points that are equal up to case, where there are at least two. -/
def foldClassList : List (List Nat) := (entries foldClasses).flatMap readClasses

/-- A set together with all that equals one of its members up to case. -/
def foldCase (s : CharSet) : CharSet :=
  let added := foldClassList.flatMap fun cls => if cls.any s.containsCode then cls else []
  s.union (CharSet.ofRanges (added.map fun n => (n, n)))

end TabStop.Unicode
