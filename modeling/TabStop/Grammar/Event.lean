import TabStop.Marker
import TabStop.Token

/-!
# Events of reading a snippet

The grammar does not build a tree. It says in a row of events what there is to build: a node starts,
text comes, the last node that has started is finished. So a rule that fails has built nothing.

A rule looks at tokens and either takes some of them off the front or fails. What it takes is a
proper part of the tokens there, which is why reading comes to an end.
-/

namespace TabStop

/-- A step in building a tree. -/
inductive Event where
  /-- A node starts; what follows stands in it. -/
  | start (m : Marker)
  /-- Text stands in the current node. -/
  | text (s : String)
  /-- The current node is finished. -/
  | finish

/-- The events of a node in which there is nothing. -/
def Event.leaf (m : Marker) : List Event := [.start m, .finish]

namespace Grammar

/-- What a rule has recognized at the front of `ts`, and the tokens after it, which are fewer. -/
structure Taken (α : Type) (ts : List Token) where
  value : α
  rest : List Token
  shorter : rest.length < ts.length

namespace Taken

variable {α β : Type} {ts us : List Token}

/-- The same tokens taken, with another value. -/
def map (f : α → β) (t : Taken α ts) : Taken β ts := ⟨f t.value, t.rest, t.shorter⟩

/-- What was taken off the end `us` of `ts`, as taken off `ts` together with what is before it. -/
def behind (t : Taken α us) (h : us.length ≤ ts.length) : Taken α ts :=
  ⟨t.value, t.rest, Nat.lt_of_lt_of_le t.shorter h⟩

/-- Just the first token. -/
def one (value : α) (t : Token) (ts : List Token) : Taken α (t :: ts) :=
  ⟨value, ts, Nat.lt_succ_self _⟩

/-- What was taken, together with a token before it. -/
def cons {first : Token} (t : Taken α ts) : Taken α (first :: ts) :=
  t.behind (Nat.le_succ _)

end Taken

/-- The number that digits stand for, if it is below `bound`. -/
def indexBelow? (bound : Nat) (digits : String) : Option Nat :=
  let n := Decimal.ofDigits digits.toList
  if n < bound then some n else none

end Grammar

end TabStop
