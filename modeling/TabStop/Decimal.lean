/-!
# Decimal numerals and binary floating point

Numbers are kept as exact rationals. A numeral is read as the nearest number that a 64-bit binary
floating-point format holds, a tie going to the one with the even significand; such a number is
written with the fewest digits that read back as it, in positional notation.
-/

namespace TabStop.Decimal

/-- A power of a natural number with an exponent of either sign. -/
def power (base : Nat) (e : Int) : Rat :=
  if e < 0 then 1 / (Nat.pow base (-e).toNat : Rat) else (Nat.pow base e.toNat : Rat)

/-- The nearest integer, a tie going to the even one. -/
def roundEven (r : Rat) : Int :=
  let f := r.floor
  let d := r - f
  if d < 1 / 2 then f
  else if 1 / 2 < d then f + 1
  else if f % 2 = 0 then f else f + 1

/-! ## The binary format -/

/-- The exponent of the last binary place that the format keeps of a positive number. -/
def lastPlace (r : Rat) : Int :=
  let estimate : Int := (Nat.log2 r.num.toNat : Int) - (Nat.log2 r.den : Int)
  let top := if power 2 estimate ≤ r then estimate else estimate - 1
  max (top - 52) (-1074)

/-- The nearest number in the format to one that is not negative; none if that is infinity. -/
def nearest? (r : Rat) : Option Rat :=
  if r ≤ 0 then some 0
  else
    let unit := power 2 (lastPlace r)
    let v := (roundEven (r / unit) : Rat) * unit
    if v < power 2 1024 then some v else none

/-! ## Reading -/

/-- What a numeral stands for. -/
inductive Reading where
  | finite (negative : Bool) (magnitude : Rat)
  | infinite (negative : Bool)
  | notANumber
  deriving DecidableEq, Repr

/-- The number that decimal digits stand for. -/
def ofDigits (ds : List Char) : Nat := ds.foldl (fun n d => 10 * n + (d.toNat - '0'.toNat)) 0

/-- The exponent after a numeral: nothing, or `e` with an optional sign and digits. -/
def readExponent? (cs : List Char) : Option Int :=
  match cs with
  | [] => some 0
  | e :: rest =>
    if e ≠ 'e' ∧ e ≠ 'E' then none
    else
      let (negative, ds) := match rest with
        | '-' :: ds => (true, ds)
        | '+' :: ds => (false, ds)
        | ds => (false, ds)
      if ds.isEmpty ∨ ¬ds.all Char.isDigit then none
      else some (if negative then -(ofDigits ds : Int) else ofDigits ds)

/-- The reading of `digits` times ten to the `e`. Exponents that are out of the format's reach in
any case are not computed with. -/
def scale (negative : Bool) (digits : Nat) (e : Int) : Reading :=
  let size : Int := (toString digits).length + e
  if digits = 0 ∨ size < -400 then .finite negative 0
  else if 400 < size then .infinite negative
  else match nearest? (digits * power 10 e) with
    | some v => .finite negative v
    | none => .infinite negative

/-- Reads a numeral without its sign: digits with an optional point and exponent, or a word for
infinity or for what is no number. -/
def readUnsigned? (negative : Bool) (cs : List Char) : Option Reading :=
  match String.ofList (cs.map Char.toLower) with
  | "inf" | "infinity" => some (.infinite negative)
  | "nan" => some .notANumber
  | _ =>
    let whole := cs.takeWhile Char.isDigit
    let (fraction, rest) := match cs.dropWhile Char.isDigit with
      | '.' :: more => (more.takeWhile Char.isDigit, more.dropWhile Char.isDigit)
      | more => ([], more)
    if whole.isEmpty ∧ fraction.isEmpty then none
    else (readExponent? rest).map fun e =>
      scale negative (ofDigits (whole ++ fraction)) (e - fraction.length)

/-- Reads a numeral with an optional sign. -/
def read? (s : String) : Option Reading :=
  match s.toList with
  | '-' :: cs => readUnsigned? true cs
  | '+' :: cs => readUnsigned? false cs
  | cs => readUnsigned? false cs

/-! ## Writing -/

/-- The place of the first decimal digit of a positive number. -/
def firstPlace (r : Rat) : Int :=
  if 1 ≤ r then ((toString r.floor).length : Int) - 1
  else -(((List.range 400).find? fun k : Nat => decide (1 ≤ r * power 10 k)).getD 0 : Nat)

/-- The numbers that read back as `v`, a number of the format: the least and the greatest of them,
and whether these two belong to them. -/
def interval (v : Rat) : Rat × Rat × Bool :=
  let q := lastPlace v
  let unit := power 2 q
  let m := (v / unit).floor
  let below := if m = 4503599627370496 ∧ -1074 < q then unit / 2 else unit
  (v - below / 2, v + unit / 2, m % 2 = 0)

/-- The nearest number with `k` decimal digits that reads back as `v`, as its digits and the place
of the last one. -/
def withDigits? (v : Rat) (k : Nat) : Option (Nat × Int) :=
  let place := firstPlace v - k + 1
  let unit := power 10 place
  let (lo, hi, closed) := interval v
  let below := (v / unit).floor.toNat
  let fits (n : Nat) : Bool :=
    let x := n * unit
    if closed then lo ≤ x && x ≤ hi else lo < x && x < hi
  match fits below, fits (below + 1) with
  | true, true =>
    if v - below * unit ≤ (below + 1) * unit - v then some (below, place)
    else some (below + 1, place)
  | true, false => some (below, place)
  | false, true => some (below + 1, place)
  | false, false => none

/-- The fewest decimal digits that read back as `v`, with the place of the last one. -/
def shortest (v : Rat) : Nat × Int :=
  ((List.range 17).findSome? fun k => withDigits? v (k + 1)).getD (v.floor.toNat, 0)

/-- Digits, the last of which has the given place, in positional notation. -/
def positional (digits : Nat) (place : Int) : String :=
  let ds := (toString digits).toList
  if 0 ≤ place then String.ofList (ds ++ List.replicate place.toNat '0')
  else
    let k := (-place).toNat
    let padded := List.replicate (k + 1 - ds.length) '0' ++ ds
    let cut := padded.length - k
    let fraction := ((padded.drop cut).reverse.dropWhile (· = '0')).reverse
    String.ofList (padded.take cut ++ (if fraction.isEmpty then [] else '.' :: fraction))

/-- Writes a number of the format that is not negative. -/
def write (v : Rat) : String :=
  if v ≤ 0 then "0"
  else
    let (digits, place) := shortest v
    positional digits place

end TabStop.Decimal
