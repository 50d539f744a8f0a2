import TabStop.Pattern.Node

/-!
# Compiling a regular expression

An expression becomes a program of numbered instructions. It is built from its end: compiling a
node takes the instruction to go on with after a match and gives the one to start at. A repetition
reserves its branch first and fills it in when its body is known.

The order of the two ways out of a branch is the order of preference, which is what makes the match
that is found the leftmost one with the earlier alternatives preferred.
-/

namespace TabStop.Pattern

/-- An instruction; the numbers are those of the instructions to go on with. -/
inductive Inst where
  /-- Goes on after a character of the set. -/
  | chars (set : CharSet) (next : Nat)
  /-- Goes on where the condition holds. -/
  | look (l : Look) (next : Nat)
  /-- Records the current place. -/
  | save (slot : Nat) (next : Nat)
  /-- Goes on with the first, or else with the second. -/
  | branch (first second : Nat)
  /-- Leads nowhere. -/
  | fail
  /-- A match. -/
  | accept
  deriving Repr, Inhabited

/-- Instructions, and how many places a match records. -/
structure Program where
  code : Array Inst
  start : Nat
  slots : Nat
  deriving Repr, Inhabited

namespace Program

/-- Adds an instruction; gives its number too. -/
def emit (inst : Inst) (code : Array Inst) : Nat × Array Inst :=
  (code.size, code.push inst)

/-- The branch of a repetition: into its body first if it is greedy, past it first if not. -/
def loopBranch (greedy : Bool) (body next : Nat) : Inst :=
  if greedy then .branch body next else .branch next body

/-- Applies `make` a number of times, each time in front of what is there. -/
def times (make : Nat → Array Inst → Nat × Array Inst) :
    Nat → Nat → Array Inst → Nat × Array Inst
  | 0, next, code => (next, code)
  | n + 1, next, code =>
    let (entry, code) := make next code
    times make n entry code

/-- A body matched at least once: it comes back to a branch that leads into it again. -/
def atLeastOnce (make : Nat → Array Inst → Nat × Array Inst) (greedy : Bool) (next : Nat)
    (code : Array Inst) : Nat × Array Inst :=
  let (back, code) := emit .fail code
  let (entry, code) := make back code
  (entry, code.set! back (loopBranch greedy entry next))

/-- A body matched any number of times. If the body can be empty, passing it once comes before
passing it by, so that what an empty round records is kept. -/
def anyTimes (make : Nat → Array Inst → Nat × Array Inst) (greedy canBeEmpty : Bool) (next : Nat)
    (code : Array Inst) : Nat × Array Inst :=
  if canBeEmpty then
    let (entry, code) := atLeastOnce make greedy next code
    emit (loopBranch greedy entry next) code
  else
    let (back, code) := emit .fail code
    let (entry, code) := make back code
    (back, code.set! back (loopBranch greedy entry next))

/-- A body matched up to `n` times; each further time only after the one before. -/
def upTo (make : Nat → Array Inst → Nat × Array Inst) (greedy : Bool) (next : Nat) :
    Nat → Array Inst → Nat × Array Inst
  | 0, code => (next, code)
  | n + 1, code =>
    let (inner, code) := upTo make greedy next n code
    let (entry, code) := make inner code
    emit (loopBranch greedy entry next) code

mutual

/-- The entry of a node whose match is followed by instruction `next`. -/
def compileNode : Node → Nat → Array Inst → Nat × Array Inst
  | .empty, next, code => (next, code)
  | .chars set, next, code => emit (.chars set next) code
  | .look l, next, code => emit (.look l next) code
  | .group index body, next, code =>
    let (close, code) := emit (.save (2 * index + 1) next) code
    let (entry, code) := compileNode body close code
    emit (.save (2 * index) entry) code
  | .repeated min max greedy body, next, code =>
    match max with
    | some max =>
      let (entry, code) := upTo (compileNode body) greedy next (max - min) code
      times (compileNode body) min entry code
    | none =>
      if min = 0 then
        anyTimes (compileNode body) greedy (body.minLength == 0) next code
      else
        let (entry, code) := atLeastOnce (compileNode body) greedy next code
        times (compileNode body) (min - 1) entry code
  | .seq items, next, code => compileSeq items next code
  | .alt items, next, code => compileAlt items next code

/-- The entry of several nodes in a row. -/
def compileSeq : List Node → Nat → Array Inst → Nat × Array Inst
  | [], next, code => (next, code)
  | n :: ns, next, code =>
    let (entry, code) := compileSeq ns next code
    compileNode n entry code

/-- The entry of alternatives. -/
def compileAlt : List Node → Nat → Array Inst → Nat × Array Inst
  | [], _, code => emit .fail code
  | [n], next, code => compileNode n next code
  | n :: ns, next, code =>
    let (others, code) := compileAlt ns next code
    let (entry, code) := compileNode n next code
    emit (.branch entry others) code

end

/-- The program of an expression with `groups` recorded groups. Places 0 and 1 are those of the
whole match. -/
def ofNode (node : Node) (groups : Nat) : Program :=
  let (accept, code) := emit .accept #[]
  let (entry, code) := compileNode (.group 0 node) accept code
  ⟨code, entry, 2 * (groups + 1)⟩

end Program

end TabStop.Pattern
