import TabStop.Dialect
import TabStop.Grammar.Event
import TabStop.Text.Lines

/-!
# Code blocks

UltiSnips has code in backticks: a shell command, or after `!v` an expression for the editor, or
after `!p` a program. An escaped backtick does not end the block and stays escaped in the code.
-/

namespace TabStop.Grammar

/-- The code up to the backtick that ends it. -/
def blockBody : (ts : List Token) → Option (Taken (List Char) ts)
  | [] => none
  | .mark .backtick :: ts => some (.one [] _ ts)
  | .mark .backslash :: .mark .backtick :: ts =>
    (blockBody ts).map fun b => (b.map fun body => '\\' :: '`' :: body).cons.cons
  | t :: ts => (blockBody ts).map fun b => (b.map fun body => t.text.toList ++ body).cons

/-- The program of a python block: a blank rest of the first line is dropped, else the blanks before
the first line; then the indentation that all lines share, and blanks at the end. -/
def pythonBody (body : List Char) : List Char :=
  let first := body.takeWhile (· ≠ '\n')
  let start := match body.dropWhile (· ≠ '\n') with
    | _ :: rest => if Text.isBlank first then rest else Text.trimStart body
    | [] => Text.trimStart body
  Text.trimEnd (Text.dedent start)

/-- The code block of a kind with the given body. -/
def blockOf (kind : CodeKind) (body : List Char) : CodeBlock :=
  match kind with
  | .python => { kind, code := String.ofList (pythonBody body) }
  | _ => { kind, code := String.ofList (Text.trim body) }

/-- The kind of block that the tokens after its opening backtick ask for. -/
def blockKind : List Token → CodeKind
  | .other "!" :: .word "p" :: _ => .python
  | .other "!" :: .word "v" :: _ => .vim
  | _ => .shell

theorem drop_noLonger (n : Nat) (ts : List Token) : (ts.drop n).length ≤ ts.length := by
  rw [List.length_drop]
  exact Nat.sub_le _ _

/-- The code block after an opening backtick. -/
def block (ts : List Token) : Option (Taken CodeBlock ts) :=
  let kind := blockKind ts
  if kind = .shell then (blockBody ts).map (·.map (blockOf kind))
  else (blockBody (ts.drop 2)).map fun t => (t.map (blockOf kind)).behind (drop_noLonger 2 ts)

/-- A code block; only UltiSnips has them. -/
def codeBlock (d : Dialect) : (ts : List Token) → Option (Taken (List Event) ts)
  | .mark .backtick :: ts =>
    if d.isUltiSnips then
      (block ts).map fun t => (t.map fun b => Event.leaf (.code b)).cons
    else none
  | _ => none

end TabStop.Grammar
