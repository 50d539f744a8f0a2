import TabStop.Unicode.CaseMap

/-!
# Regular expressions

The tree of a regular expression, in which flags have been resolved: a letter that ignores case is
a set of letters, a dot is the set that it matches. A node says what it matches and in which order
alternatives are preferred; `Program` gives it its meaning on texts.
-/

namespace TabStop.Pattern

/-- A condition on the characters before and after a place in the text. -/
inductive Look where
  /-- The start of the text. -/
  | textStart
  /-- The end of the text. -/
  | textEnd
  /-- The start of a line; with `cr`, a carriage return ends lines too. -/
  | lineStart (cr : Bool)
  /-- The end of a line. -/
  | lineEnd (cr : Bool)
  /-- Where a word starts or ends; `ascii` restricts words to ASCII characters. -/
  | boundary (ascii : Bool)
  /-- Where no word starts or ends. -/
  | noBoundary (ascii : Bool)
  /-- Where a word starts. -/
  | wordStart (ascii : Bool)
  /-- Where a word ends. -/
  | wordEnd (ascii : Bool)
  /-- Not after a character of a word. -/
  | wordStartHalf (ascii : Bool)
  /-- Not before a character of a word. -/
  | wordEndHalf (ascii : Bool)
  deriving DecidableEq, Repr

/-- The ASCII characters of words. -/
def asciiWord : CharSet :=
  CharSet.ofRanges [(0x30, 0x39), (0x41, 0x5A), (0x5F, 0x5F), (0x61, 0x7A)]

namespace Look

/-- Whether a neighbouring character belongs to a word. -/
def inWord (ascii : Bool) : Option Char → Bool
  | none => false
  | some c => if ascii then asciiWord.contains c else Unicode.wordChars.contains c

/-- Whether the condition holds between the characters `before` and `after`; none stands for an end
of the text. -/
def holds (l : Look) (before after : Option Char) : Bool :=
  match l with
  | textStart => before.isNone
  | textEnd => after.isNone
  | lineStart false => before.isNone || before == some '\n'
  | lineStart true =>
    before.isNone || before == some '\n' || (before == some '\r' && after != some '\n')
  | lineEnd false => after.isNone || after == some '\n'
  | lineEnd true =>
    after.isNone || after == some '\r' || (after == some '\n' && before != some '\r')
  | boundary ascii => inWord ascii before != inWord ascii after
  | noBoundary ascii => inWord ascii before == inWord ascii after
  | wordStart ascii => !inWord ascii before && inWord ascii after
  | wordEnd ascii => inWord ascii before && !inWord ascii after
  | wordStartHalf ascii => !inWord ascii before
  | wordEndHalf ascii => !inWord ascii after

end Look

/-- A regular expression. -/
inductive Node where
  /-- Matches the empty text. -/
  | empty
  /-- Matches one character of a set. -/
  | chars (set : CharSet)
  /-- Matches the empty text where a condition holds. -/
  | look (l : Look)
  /-- Matches as its body does, and records where. -/
  | group (index : Nat) (body : Node)
  /-- Matches its body from `min` up to `max` times, as often as it can if `greedy`. -/
  | repeated (min : Nat) (max : Option Nat) (greedy : Bool) (body : Node)
  /-- Matches its items one after the other. -/
  | seq (items : List Node)
  /-- Matches one of its items, the earlier ones preferred. -/
  | alt (items : List Node)
  deriving Repr, Inhabited

namespace Node

mutual

/-- The least number of characters in a match. -/
def minLength : Node → Nat
  | empty => 0
  | chars _ => 1
  | look _ => 0
  | group _ body => minLength body
  | repeated min _ _ body => min * minLength body
  | seq items => minLengthSeq items
  | alt items => minLengthAlt items

/-- The least number of characters in a match of all items in a row. -/
def minLengthSeq : List Node → Nat
  | [] => 0
  | n :: ns => minLength n + minLengthSeq ns

/-- The least number of characters in a match of one of the items. -/
def minLengthAlt : List Node → Nat
  | [] => 0
  | [n] => minLength n
  | n :: ns => min (minLength n) (minLengthAlt ns)

end

mutual

/-- Whether every match is empty. -/
def onlyEmpty : Node → Bool
  | empty => true
  | chars _ => false
  | look _ => true
  | group _ body => onlyEmpty body
  | repeated _ max _ body => max == some 0 || onlyEmpty body
  | seq items => allOnlyEmpty items
  | alt items => allOnlyEmpty items

/-- Whether every match of every item is empty. -/
def allOnlyEmpty : List Node → Bool
  | [] => true
  | n :: ns => onlyEmpty n && allOnlyEmpty ns

end

/-- A repetition. A body that only matches the empty text is not repeated more than once. -/
def mkRepeated (min : Nat) (max : Option Nat) (greedy : Bool) (body : Node) : Node :=
  let once := body.onlyEmpty
  let min := if once then Nat.min min 1 else min
  let max := if once then some (Nat.min (max.getD 1) 1) else max
  if max = some 0 then empty
  else if min = 1 ∧ max = some 1 then body
  else repeated min max greedy body

/-! ## Size

A pattern is refused when its compiled form would take more than ten mebibytes. A state of that
form counts 32 bytes, and the states of a character are those of its bytes in UTF-8. -/

/-- The most that a compiled pattern may take, in bytes. -/
def sizeLimit : Nat := 10485760

/-- What the states for a set of characters take. -/
def setSize (s : CharSet) : Nat :=
  if s.isAscii then 32 + 8 * s.ranges.size else 50 * s.ranges.size

mutual

/-- What the compiled form takes, in bytes. -/
def size : Node → Nat
  | empty => 32
  | chars set => setSize set
  | look _ => 32
  | group _ body => 64 + size body
  | repeated min max _ body =>
    match max with
    | none => (Nat.max min 1) * size body + 40
    | some m => m * size body + (m - min) * 40
  | seq items => sizeList items
  | alt items => 32 + sizeList items

/-- What the compiled forms of several nodes take together. -/
def sizeList : List Node → Nat
  | [] => 0
  | n :: ns => 4 + size n + sizeList ns

end

end Node

end TabStop.Pattern
