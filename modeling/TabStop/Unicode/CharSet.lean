/-!
# Sets of characters

A set of code points is kept as its maximal ranges in ascending order, which makes equal sets equal
values and lets membership be decided by bisection. The tables of this library are written as text,
`41-5A 5F 61-7A` for the ASCII letters and the underscore, and read into sets once.
-/

namespace TabStop

/-- Code points as maximal ranges, both ends included, in ascending order. -/
structure CharSet where
  ranges : Array (Nat × Nat)
  deriving DecidableEq, Repr, Inhabited

namespace CharSet

/-- The last code point. -/
def last : Nat := 0x10FFFF

/-- Joins ranges that touch or overlap, given in the order of their first ends, to the range `cur`
before them, which swallows all that it reaches. -/
def joinFrom (cur : Nat × Nat) : List (Nat × Nat) → List (Nat × Nat)
  | [] => [cur]
  | r :: rs =>
    if r.1 ≤ cur.2 + 1 then joinFrom (cur.1, max cur.2 r.2) rs else cur :: joinFrom r rs

/-- The set of all code points in some of the given ranges. -/
def ofRanges (rs : List (Nat × Nat)) : CharSet :=
  match rs.mergeSort (fun a b => a.1 ≤ b.1) with
  | [] => ⟨#[]⟩
  | r :: rest => ⟨(joinFrom r rest).toArray⟩

/-- No code point. -/
def empty : CharSet := ⟨#[]⟩

/-- Every code point. -/
def all : CharSet := ⟨#[(0, last)]⟩

/-- The code points from `lo` to `hi`. -/
def range (lo hi : Nat) : CharSet := ⟨#[(lo, hi)]⟩

/-- Just one character. -/
def singleton (c : Char) : CharSet := range c.toNat c.toNat

/-- Whether `n` lies in one of the ranges from place `lo` up to, not including, place `hi`. -/
def search (s : CharSet) (n lo hi : Nat) : Bool :=
  if lo < hi then
    let mid := (lo + hi) / 2
    match s.ranges[mid]? with
    | none => false
    | some (a, b) =>
      if n < a then search s n lo mid
      else if b < n then search s n (mid + 1) hi
      else true
  else false
termination_by hi - lo

/-- Whether code point `n` is in the set. -/
def containsCode (s : CharSet) (n : Nat) : Bool := search s n 0 s.ranges.size

/-- Whether `c` is in the set. -/
def contains (s : CharSet) (c : Char) : Bool := containsCode s c.toNat

/-- Whether no code point is in the set. -/
def isEmpty (s : CharSet) : Bool := s.ranges.isEmpty

/-- What is in one set or in the other. -/
def union (a b : CharSet) : CharSet := ofRanges (a.ranges.toList ++ b.ranges.toList)

/-- What is in some set of a list. -/
def unions (sets : List CharSet) : CharSet := ofRanges (sets.flatMap (·.ranges.toList))

/-- The gaps between ranges in ascending order, from `start` to the last code point. -/
def gaps (start : Nat) : List (Nat × Nat) → List (Nat × Nat)
  | [] => if start ≤ last then [(start, last)] else []
  | (a, b) :: rs => if start < a then (start, a - 1) :: gaps (b + 1) rs else gaps (b + 1) rs

/-- What is not in the set. -/
def complement (s : CharSet) : CharSet := ⟨(gaps 0 s.ranges.toList).toArray⟩

/-- What is in both sets. -/
def inter (a b : CharSet) : CharSet := complement (union (complement a) (complement b))

/-- What is in the first set but not in the second. -/
def diff (a b : CharSet) : CharSet := inter a (complement b)

/-- What is in exactly one of the sets. -/
def symmDiff (a b : CharSet) : CharSet := diff (union a b) (inter a b)

/-- Whether every member is an ASCII character. -/
def isAscii (s : CharSet) : Bool := s.ranges.all (fun r => r.2 < 0x80)

end CharSet

/-! ## Tables written as text -/

namespace Table

/-- The value of a hexadecimal digit; other characters count as zero. -/
def hexDigit (c : Char) : Nat :=
  if '0' ≤ c ∧ c ≤ '9' then c.toNat - '0'.toNat
  else if 'A' ≤ c ∧ c ≤ 'F' then c.toNat - 'A'.toNat + 10
  else if 'a' ≤ c ∧ c ≤ 'f' then c.toNat - 'a'.toNat + 10
  else 0

/-- The number written in hexadecimal digits. -/
def hex (cs : List Char) : Nat := cs.foldl (fun n c => 16 * n + hexDigit c) 0

/-- The entries of a table, which blanks and line ends separate. -/
def entries (text : String) : List (List Char) :=
  let close (done : List (List Char)) (entry : List Char) : List (List Char) :=
    if entry.isEmpty then done else entry.reverse :: done
  let (done, entry) := text.toList.foldl
    (fun (done, entry) c => if c = ' ' ∨ c = '\n' then (close done entry, []) else (done, c :: entry))
    (([], []) : List (List Char) × List Char)
  (close done entry).reverse

/-- The range written as `41-5A`, or as `5F` for a single code point. -/
def readRange (cs : List Char) : Nat × Nat :=
  let first := hex (cs.takeWhile (· ≠ '-'))
  match cs.dropWhile (· ≠ '-') with
  | [] => (first, first)
  | _ :: second => (first, hex second)

/-- The set that a table of ranges lists. -/
def charSet (text : String) : CharSet :=
  CharSet.ofRanges ((entries text).map readRange)

end Table

end TabStop
