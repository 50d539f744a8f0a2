import TabStop.Unicode.CaseMap
import TabStop.Unicode.BaseLetterTable

/-!
# Taking marks off letters

A text is decomposed canonically and the marks are dropped, which leaves `é` as `e` and keeps what
has no marks. The order of marks, the one thing that decomposing a text does beyond decomposing its
characters, does not matter once they are gone.
-/

namespace TabStop.Unicode

open Table

/-- The base characters of precomposed characters. -/
def baseRuns : Array CaseRun := readCaseRuns baseForms

/-- The parts of a Hangul syllable: a leading consonant, a vowel, and perhaps a closing consonant. -/
def hangulParts (n : Nat) : List Nat :=
  let i := n - 0xAC00
  let closing := i % 28
  [0x1100 + i / 588, 0x1161 + (i % 588) / 28] ++ (if closing = 0 then [] else [0x11A7 + closing])

/-- The base of code point `n` where the table of bases lists it in a range with one common base. -/
def baseCodes? (n : Nat) : Option (List Nat) :=
  (findRun baseRuns n 0 baseRuns.size).bind fun r =>
    if r.lo ≤ n ∧ n ≤ r.hi then some r.image else none

/-- What is left of a character without its marks. -/
def baseChars (c : Char) : List Char :=
  let n := c.toNat
  if n < 0x80 then [c]
  else if 0xAC00 ≤ n ∧ n ≤ 0xD7A3 then (hangulParts n).map Char.ofNat
  else if marks.contains c then []
  else match baseCodes? n with
    | some ns => ns.map Char.ofNat
    | none => [c]

/-- A text without its marks. -/
def stripMarks (s : String) : String := String.ofList (s.toList.flatMap baseChars)

end TabStop.Unicode
