import TabStop.Tree.Python
import TabStop.Tree.Repeat

/-!
# Running code blocks

Code is run by an evaluator, which is asked one block at a time. What it answers may hang on what it
has been asked before. A block that fails shows nothing.
-/

namespace TabStop

/-- What a block is run with: the block, the texts of the tab stops, and the index of the nearest tab
stop around the block. -/
structure Call where
  block : CodeBlock
  values : Values
  index : Option TabIndex
  deriving DecidableEq

/-- What runs code. Given the calls before, the last one first, it answers a call, or fails. -/
abbrev Evaluator := List Call → Call → Option String

/-- A tree whose code is being run, and the calls made so far, the last one first. -/
structure Evaluation where
  tree : Tree
  calls : List Call := []

namespace Evaluation

/-- Runs one block, if it is still attached. When it makes the text of a tab stop, the repeated tab
stops are brought up to date. -/
def run (ev : Evaluator) (e : Evaluation) (h : Handle) : Evaluation :=
  let t := e.tree
  if !t.isAttached h then e
  else
    match t.code? h with
    | none => e
    | some block =>
      let call : Call := ⟨block, t.values, (t.nearestPlaceholder? h).map (·.index)⟩
      let value := (ev e.calls call).getD ""
      let t := t.setMarker h (.code { block with value := some value })
      ⟨if (t.boundIndex? h).isSome then t.repeatAll else t, call :: e.calls⟩

/-- Runs one block if it reads an index that has changed. The index whose text it makes has changed
then. -/
def runDependent (ev : Evaluator) (st : Evaluation × List Nat) (h : Handle) :
    Evaluation × List Nat :=
  let (e, changed) := st
  if (e.tree.related h).any changed.contains then
    let e := e.run ev h
    (e, ((e.tree.boundIndex? h).bind (·.whole?)).toList ++ changed)
  else st

end Evaluation

namespace Tree

/-- Runs all code blocks: shell and vim blocks, then the python blocks that make the text of a tab
stop, then the other python blocks. -/
def evaluate (ev : Evaluator) (t : Tree) : Evaluation :=
  let others := t.codeBlocks.filter fun h => !t.isPython h
  let e := others.foldl (Evaluation.run ev) ⟨t, []⟩
  let e := e.tree.orderedPythonBlocks.foldl (Evaluation.run ev) e
  t.pythonBlocks.foldl
    (fun e h => if (e.tree.boundIndex? h).isNone then e.run ev h else e) e

/-- Brings the snippet up to date after a primary tab stop has been edited, and runs the python blocks
that read it, or read what is made by such a block. The calls, the first one first. -/
def updateWith (ev : Evaluator) (primary : Handle) : Edit (List Call) := do
  update primary
  let t ← get
  let e :=
    match (t.index? primary).bind (·.whole?) with
    | some n => (t.orderedPythonBlocks.foldl (Evaluation.runDependent ev) (⟨t, []⟩, [n])).1
    | none => ⟨t, []⟩
  set e.tree.repeatAll
  return e.calls.reverse

end Tree

end TabStop
