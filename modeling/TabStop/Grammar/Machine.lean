import TabStop.Grammar.Element

/-!
# Reading with places and checkpoints

How the rules are tried, step by step: a machine goes along the tokens and writes down events. A
rule that starts a node does not know yet whether the node will end, so it keeps a place for the
event and goes on. When it knows, it fills the place, with the node or with text. Or else it gives
the place up and goes back to the checkpoint that it has set at first, in the tokens and in the
events.

Nothing bounds the steps from outside. The machine stops where the end of the tokens or a closing
brace stops it, and what it has written down then are the events that the rules of `Grammar` give.
-/

namespace TabStop

open Grammar

/-- A source that is being read. -/
structure Machine where
  dialect : Dialect
  tokens : List Token
  /-- How many tokens have been taken. -/
  pos : Nat
  /-- The events so far; none where a place is kept. -/
  events : List (Option Event)

namespace Machine

/-- The machine before its first step. -/
def start (d : Dialect) (ts : List Token) : Machine := ⟨d, ts, 0, []⟩

/-! ## Tokens -/

/-- The tokens that have not been taken. -/
def rest (s : Machine) : List Token := s.tokens.drop s.pos

/-- Whether all tokens have been taken. -/
def atEnd (s : Machine) : Bool := s.tokens.length ≤ s.pos

/-- Takes a token, if there is one. -/
def bump (s : Machine) : Machine := if s.atEnd then s else { s with pos := s.pos + 1 }

/-- Takes the next token if it is the given mark. -/
def eat (s : Machine) (m : Mark) : Bool × Machine :=
  if s.rest.head? = some (.mark m) then (true, s.bump) else (false, s)

/-- Takes the next token if it is the given mark, unless that is ruled out. -/
def eatUnless (s : Machine) (c : Bool) (m : Mark) : Bool × Machine :=
  if c then (false, s) else s.eat m

/-! ## Events -/

/-- Writes events down. -/
def tell (s : Machine) (es : List Event) : Machine :=
  { s with events := s.events ++ es.map some }

/-- Takes the next token as text. -/
def bumpAsText (s : Machine) : Machine :=
  (s.tell [.text (s.rest.head?.elim "" Token.text)]).bump

/-- Keeps a place for an event behind those so far. -/
def keep (s : Machine) : Machine := { s with events := s.events ++ [none] }

/-- Writes an event into a place, which must be kept. -/
def fill (s : Machine) (place : Nat) (e : Event) : Option Machine :=
  match s.events[place]? with
  | some none => some { s with events := s.events.set place (some e) }
  | _ => none

/-- Fills a place with the start of a node, which ends here. -/
def complete (s : Machine) (place : Nat) (m : Marker) : Option Machine :=
  (s.fill place (.start m)).map (·.tell [.finish])

/-- Gives a place up. If events have been written down behind it, it stays empty. -/
def abandon (s : Machine) (place : Nat) : Option Machine :=
  if place + 1 = s.events.length then
    match s.events.getLast? with
    | some none => some { s with events := s.events.dropLast }
    | _ => none
  else some s

/-! ## Checkpoints -/

/-- How many tokens have been taken and how many events have been written down. -/
structure Checkpoint where
  pos : Nat
  events : Nat

/-- How far the machine has come. -/
def checkpoint (s : Machine) : Checkpoint := ⟨s.pos, s.events.length⟩

/-- Goes back to a checkpoint. -/
def rewind (s : Machine) (c : Checkpoint) : Machine :=
  { s with pos := c.pos, events := s.events.take c.events }

/-- Ends a rule that does not fit. -/
def fail (s : Machine) (place : Nat) (c : Checkpoint) : Option (Bool × Machine) := do
  let s ← s.abandon place
  return (false, s.rewind c)

/-! ## Values -/

/-- Reads a value, for which no events are written down. If the value does not end, all tokens have
been looked at. -/
def value {α : Type} (s : Machine) (read : (ts : List Token) → Option (Taken α ts)) :
    Option α × Machine :=
  match read s.rest with
  | none => (none, { s with pos := max s.pos s.tokens.length })
  | some t => (some t.value, { s with pos := s.tokens.length - t.rest.length })

/-- A transform after its first slash. -/
def transform (s : Machine) : Option Transform × Machine :=
  match s.value (regexPart s.dialect) with
  | (none, s) => (none, s)
  | (some pattern, s) =>
    match s.value (templatePart s.dialect) with
    | (none, s) => (none, s)
    | (some pieces, s) =>
      match s.value flagsPart with
      | (none, s) => (none, s)
      | (some letters, s) =>
        let made := do
          let flags ← TransformFlags.read letters
          Transform.make pattern (Piece.mergeText pieces) flags
        (made.toOption, s)

/-- An option of a choice, which must not be empty. -/
def choiceOption (s : Machine) : Option String × Machine :=
  match optionText s.rest with
  | none => (none, { s with pos := max s.pos s.tokens.length })
  | some (cs, rest) =>
    (if cs.isEmpty then none else some (String.ofList cs),
      { s with pos := s.tokens.length - rest.length })

/-- The options of a choice after its first bar. There is no result if they come to no end. -/
def options (s : Machine) : Option (Option (List String) × Machine) := do
  match s.choiceOption with
  | (none, s) => return (none, s)
  | (some o, s) =>
    let (comma, s) := s.eat .comma
    if comma then
      let (os, s) ← s |>.options
      return (os.map (o :: ·), s)
    let (pipe, s) := s.eat .pipe
    if !pipe then return (none, s)
    let (brace, s) := s.eat .braceClose
    return (if brace then some [o] else none, s)
partial_fixpoint

/-! ## Rules without elements inside

A rule tells whether it fits, with the machine after it. There is no result if it comes to no end,
nor if a place that it fills or gives up is not kept. -/

/-- A backslash: before a mark that can be escaped it is dropped, else it stands for itself. -/
def escaped (s : Machine) : Option (Bool × Machine) :=
  match s.rest with
  | .mark .backslash :: next =>
    let s := s.bump
    match next with
    | .mark m :: _ =>
      some (true, if isEscape s.dialect m then s.bumpAsText else s.tell [.text "\\"])
    | _ => some (true, s.tell [.text "\\"])
  | _ => some (false, s)

/-- `$1` or `$name`. -/
def short (s : Machine) : Option (Bool × Machine) :=
  match s.rest with
  | .mark .dollar :: .digits ds :: _ =>
    match placeholder? ds with
    | none => some (false, s)
    | some p => some (true, s.bump.bump.tell (Event.leaf (.placeholder p)))
  | .mark .dollar :: .word name :: _ =>
    if s.dialect.acceptsVariable name then
      some (true, s.bump.bump.tell (Event.leaf (.var { name })))
    else some (false, s)
  | _ => some (false, s)

/-- Takes the tokens that name a kind of code. -/
def passKind (s : Machine) (kind : CodeKind) : Machine :=
  if kind = .shell then s else s.bump.bump

/-- The code of a block up to the backtick that ends it. -/
def code (s : Machine) (kind : CodeKind) (here : Checkpoint) : Option (Bool × Machine) :=
  match s.value blockBody with
  | (none, s) => some (false, s.rewind here)
  | (some body, s) => some (true, s.tell (Event.leaf (.code (blockOf kind body))))

/-- A code block; only UltiSnips has them. -/
def codeBlock (s : Machine) : Option (Bool × Machine) :=
  match s.rest with
  | .mark .backtick :: next =>
    if s.dialect.isUltiSnips then
      (s.bump.passKind (blockKind next)).code (blockKind next) s.checkpoint
    else some (false, s)
  | _ => some (false, s)

/-- The next token as text. -/
def anyToken (s : Machine) : Option (Bool × Machine) :=
  if s.atEnd then some (false, s) else some (true, s.bumpAsText)

/-! ## Rules with elements inside -/

/-- What a tab stop or a variable in braces ends with, unless a default or a choice follows: a
transform, or just the brace. -/
def ending (s : Machine) (place : Nat) (here : Checkpoint) (m : Option Transform → Marker) :
    Option (Bool × Machine) := do
  let (slash, s) := s.eat .slash
  if slash then
    match s.transform with
    | (some t, s) => return (true, ← s.complete place (m (some t)))
    | (none, s) => s.fail place here
  else
    let (brace, s) := s.eat .braceClose
    if brace then return (true, ← s.complete place (m none)) else s.fail place here

mutual

/-- One element; false only at the end of the tokens. -/
def element (s : Machine) : Option (Bool × Machine) := do
  if s.atEnd then return (false, s)
  let (fits, s) ← s |>.escaped
  if fits then return (true, s)
  let (fits, s) ← s |>.short
  if fits then return (true, s)
  let (fits, s) ← s |>.placeholder
  if fits then return (true, s)
  let (fits, s) ← s |>.variableInBraces
  if fits then return (true, s)
  let (fits, s) ← s |>.codeBlock
  if fits then return (true, s)
  s |>.anyToken
partial_fixpoint

/-- A tab stop in braces. -/
def placeholder (s : Machine) : Option (Bool × Machine) := do
  match s.rest with
  | .mark .dollar :: .mark .braceOpen :: .digits ds :: _ =>
    match placeholder? ds with
    | none => return (false, s)
    | some p =>
      let here := s.checkpoint
      let place := s.events.length
      let s := s.keep.bump.bump.bump
      let (colon, s) := s.eat .colon
      if colon then s |>.inside place (.placeholder p) ("$\x7b" ++ ds ++ ":")
      else
        let (pipe, s) := s.eatUnless p.index.isFinal .pipe
        if pipe then
          match ← s.options with
          | (some os, s) =>
            let s := s.tell (Event.leaf (.choice ⟨os⟩))
            return (true, ← s.complete place (.placeholder p))
          | (none, s) => s.fail place here
        else s.ending place here fun t => .placeholder { p with transform := t }
  | _ => return (false, s)
partial_fixpoint

/-- A variable in braces. -/
def variableInBraces (s : Machine) : Option (Bool × Machine) := do
  match s.rest with
  | .mark .dollar :: .mark .braceOpen :: .word name :: _ =>
    if s.dialect.acceptsVariable name then
      let here := s.checkpoint
      let place := s.events.length
      let s := s.keep.bump.bump.bump
      let (colon, s) := s.eat .colon
      if colon then s |>.inside place (.var { name }) ("$\x7b" ++ name ++ ":")
      else s.ending place here fun t => .var { name, transform := t }
    else return (false, s)
  | _ => return (false, s)
partial_fixpoint

/-- The elements of a default. If it does not end, they stay, and the opening is text. -/
def inside (s : Machine) (place : Nat) (m : Marker) (opening : String) :
    Option (Bool × Machine) := do
  let (brace, s) := s.eat .braceClose
  if brace then return (true, ← s.complete place m)
  let (fits, s) ← s |>.element
  if fits then s |>.inside place m opening
  else return (true, ← s.fill place (.text opening))
partial_fixpoint

end

/-- The elements of a whole source. -/
def root (s : Machine) : Option Machine := do
  let (fits, s) ← s.element
  if fits then s |>.root else return s
partial_fixpoint

end Machine

end TabStop
