import TabStop.Decimal

/-!
# Tab-stop indexes

The index of a tab stop says when the cursor gets there; index 0 is where it ends up. Indexes that
are read from source are whole numbers, but an index between two others can be given to a tab stop
that is put in later. An index is a number that is not negative, so indexes are ordered as numbers.
-/

namespace TabStop

/-- The index of a tab stop. -/
structure TabIndex where
  value : Rat
  nonneg : 0 ≤ value
  deriving DecidableEq, Repr

namespace TabIndex

/-- A whole index. -/
def ofNat (n : Nat) : TabIndex := ⟨n, by exact_mod_cast Nat.zero_le n⟩

instance : Inhabited TabIndex := ⟨ofNat 0⟩

/-- The index of the final cursor position. -/
def final : TabIndex := ofNat 0

/-- The index that a numeral stands for, if it is neither negative nor infinite. -/
def ofReading? : Decimal.Reading → Option TabIndex
  | .finite negative v =>
    if h : 0 ≤ v then (if negative ∧ v ≠ 0 then none else some ⟨v, h⟩) else none
  | .infinite _ => none
  | .notANumber => none

/-- Whether the index is that of the final cursor position. -/
def isFinal (i : TabIndex) : Bool := i.value == 0

/-- The greatest whole index. -/
def maxWhole : Nat := 4294967295

/-- The index as a whole number of at most 32 bits, if it is one. -/
def whole? (i : TabIndex) : Option Nat :=
  if i.value.den = 1 ∧ i.value.num.toNat ≤ maxWhole then some i.value.num.toNat else none

/-- The greatest whole number of at most 32 bits that is no greater than the index. -/
def floor (i : TabIndex) : Nat := min i.value.floor.toNat maxWhole

/-- The index as it is written. -/
def text (i : TabIndex) : String :=
  match i.whole? with
  | some n => toString n
  | none => Decimal.write i.value

/-- Whether one index comes before another. -/
def before (i j : TabIndex) : Bool := i.value < j.value

end TabIndex

end TabStop
