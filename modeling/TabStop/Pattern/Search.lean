import TabStop.Pattern.Program

/-!
# Searching for a match

All ways of matching are followed at once, one character at a time. They are kept in order of
preference, and of two ways that are at the same instruction only the preferred one is followed. So
a search takes time proportional to the text, and finds the leftmost match with the earlier
alternatives preferred.
-/

namespace TabStop.Pattern

/-- The places recorded on a way through the program. -/
abbrev Slots := Array (Option Nat)

/-- A way through the program, at an instruction that needs a character or accepts. -/
structure Thread where
  pc : Nat
  slots : Slots
  deriving Inhabited

/-- The ways that have reached a place in the text, the most preferred one last, and which
instructions they have come through. -/
structure Frontier where
  threads : List Thread
  seen : Array Bool

/-- A place in a text: the character before it, its number, and the characters after it. -/
structure Place where
  before : Option Char
  index : Nat
  rest : List Char

namespace Place

/-- The start of a text. -/
def start (text : List Char) : Place := ⟨none, 0, text⟩

/-- The place one character further on; at the end of the text there is none. -/
def next? (p : Place) : Option Place :=
  match p.rest with
  | [] => none
  | c :: cs => some ⟨some c, p.index + 1, cs⟩

/-- The place `n` characters further on, or the end of the text if it comes before that. -/
def skip (p : Place) : Nat → Place
  | 0 => p
  | n + 1 =>
    match p.next? with
    | none => p
    | some q => q.skip n

end Place

namespace Program

/-- No way has reached the place yet. -/
def noThreads (prog : Program) : Frontier := ⟨[], Array.replicate prog.code.size false⟩

/-- Follows the ways on `stack`, the most preferred one first, up to instructions that need a
character or accept. Each instruction is entered once, so twice their number of steps suffice. -/
def follow (prog : Program) (p : Place) : Nat → List Thread → Frontier → Frontier
  | 0, _, f => f
  | _, [], f => f
  | fuel + 1, t :: stack, f =>
    if f.seen.getD t.pc true then follow prog p fuel stack f
    else
      let f := { f with seen := f.seen.set! t.pc true }
      match prog.code.getD t.pc .fail with
      | .fail => follow prog p fuel stack f
      | .branch first second =>
        follow prog p fuel ({ t with pc := first } :: { t with pc := second } :: stack) f
      | .look l next =>
        if l.holds p.before p.rest.head? then
          follow prog p fuel ({ t with pc := next } :: stack) f
        else follow prog p fuel stack f
      | .save slot next =>
        follow prog p fuel (⟨next, t.slots.set! slot (some p.index)⟩ :: stack) f
      | .chars _ _ | .accept => follow prog p fuel stack { f with threads := t :: f.threads }

/-- Adds a way at instruction `pc` that is less preferred than those there. -/
def addThread (prog : Program) (p : Place) (t : Thread) (f : Frontier) : Frontier :=
  prog.follow p (2 * prog.code.size + 2) [t] f

/-- Moves the ways over the character `c` to the place `q` after it, the most preferred one first.
A way that accepts ends the matter for those less preferred. -/
def step (prog : Program) (c : Option Char) (q : Place) :
    List Thread → Frontier → Frontier × Option Slots
  | [], f => (f, none)
  | t :: ts, f =>
    match prog.code.getD t.pc .fail with
    | .accept => (f, some t.slots)
    | .chars set next =>
      match c with
      | some c =>
        if set.contains c then step prog (some c) q ts (prog.addThread q { t with pc := next } f)
        else step prog (some c) q ts f
      | none => step prog none q ts f
    | _ => step prog c q ts f

/-- Goes on with the search at a place that some ways have reached. As long as no match has been
found, a new way may start at each place. -/
def searchFrom (prog : Program) (found : Option Slots) (f : Frontier) (before : Option Char)
    (index : Nat) : List Char → Option Slots
  | [] =>
    let p : Place := ⟨before, index, []⟩
    let f := if found.isNone then
      prog.addThread p ⟨prog.start, Array.replicate prog.slots none⟩ f else f
    (prog.step none p f.threads.reverse prog.noThreads).2 <|> found
  | c :: cs =>
    let p : Place := ⟨before, index, c :: cs⟩
    let f := if found.isNone then
      prog.addThread p ⟨prog.start, Array.replicate prog.slots none⟩ f else f
    if f.threads.isEmpty && found.isSome then found
    else
      let (f, accepted) :=
        prog.step (some c) ⟨some c, index + 1, cs⟩ f.threads.reverse prog.noThreads
      prog.searchFrom (accepted <|> found) f (some c) (index + 1) cs

/-- The places recorded by the leftmost match at or after a place. -/
def search (prog : Program) (p : Place) : Option Slots :=
  prog.searchFrom none prog.noThreads p.before p.index p.rest

end Program

/-! ## Successive matches -/

/-- A stretch of a text from one place up to, not including, another. -/
structure Span where
  start : Nat
  stop : Nat
  deriving DecidableEq, Repr

namespace Span

/-- The characters of the stretch. -/
def slice (s : Span) (text : List Char) : List Char := (text.drop s.start).take (s.stop - s.start)

end Span

/-- A match: where it is, and where each group is that took part in it. Group 0 is the match. -/
structure Found where
  whole : Span
  groups : List (Option Span)
  deriving DecidableEq, Repr

/-- The stretch between the two places recorded for group `i`. -/
def Slots.group (slots : Slots) (i : Nat) : Option Span :=
  match slots.getD (2 * i) none, slots.getD (2 * i + 1) none with
  | some a, some b => some ⟨a, b⟩
  | _, _ => none

/-- The match that recorded places describe. -/
def Found.ofSlots (slots : Slots) : Option Found :=
  (slots.group 0).map fun whole =>
    ⟨whole, (List.range (slots.size / 2)).map slots.group⟩

namespace Program

/-- The leftmost match at or after a place. -/
def find (prog : Program) (p : Place) : Option Found := (prog.search p).bind Found.ofSlots

/-- The next match from place `p` on, where the match before it ended. An empty match right at the
end of the match before it does not count. -/
def findNext (prog : Program) (p : Place) (afterMatch : Bool) : Option Found :=
  match prog.find p with
  | none => none
  | some m =>
    if afterMatch && m.whole.start == m.whole.stop && m.whole.stop == p.index then
      p.next?.bind prog.find
    else some m

/-- The matches from place `p` on, from left to right. -/
def findAllFrom (prog : Program) : Nat → Place → Bool → List Found
  | 0, _, _ => []
  | fuel + 1, p, afterMatch =>
    match prog.findNext p afterMatch with
    | none => []
    | some m => m :: findAllFrom prog fuel (p.skip (m.whole.stop - p.index)) true

/-- All matches in a text from left to right, none of which overlaps the one before it. -/
def findAll (prog : Program) (text : List Char) : List Found :=
  prog.findAllFrom (2 * text.length + 2) (Place.start text) false

end Program

end TabStop.Pattern
