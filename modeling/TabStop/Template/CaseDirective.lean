import TabStop.Unicode.CaseMap

/-!
# Case directives

Replacement text may hold directives that change the case of what follows them: `\u` and `\l` of the
next character, `\U` and `\L` of everything up to `\E`. `\n` and `\t` stand for a line end and a tab.

Output is put together as a list of segments, so that text taken from the input is never read as a
directive. Two cases are kept apart while the segments are joined: one for the next character, which
wins and is used up by it, and one that lasts.
-/

namespace TabStop

/-- A directive of replacement text. -/
inductive CaseDirective where
  | upperNext | lowerNext | upperAll | lowerAll | stop | newline | tab
  deriving DecidableEq, Repr

namespace CaseDirective

/-- The letter after the backslash. -/
def letter : CaseDirective → Char
  | upperNext => 'u'
  | lowerNext => 'l'
  | upperAll => 'U'
  | lowerAll => 'L'
  | stop => 'E'
  | newline => 'n'
  | tab => 't'

/-- The directive that a letter stands for. -/
def ofLetter? (c : Char) : Option CaseDirective :=
  match c with
  | 'u' => some upperNext
  | 'l' => some lowerNext
  | 'U' => some upperAll
  | 'L' => some lowerAll
  | 'E' => some stop
  | 'n' => some newline
  | 't' => some tab
  | _ => none

@[simp] theorem ofLetter?_letter (d : CaseDirective) : ofLetter? d.letter = some d := by
  cases d <;> rfl

end CaseDirective

/-- A piece of output: text, or a directive about the text after it. -/
inductive Segment where
  | text (s : String)
  | directive (d : CaseDirective)
  deriving DecidableEq, Repr

namespace Segment

/-- The case that letters are to be given. -/
inductive Case where
  | upper | lower
  deriving DecidableEq, Repr

/-- A character in a case. -/
def Case.apply : Option Case → Char → List Char
  | some .upper, c => Unicode.upper c
  | some .lower, c => Unicode.lower c
  | none, c => [c]

/-- The cases in force: of the next character, and of those after it. -/
structure CaseState where
  next : Option Case := none
  lasting : Option Case := none
  deriving DecidableEq, Repr

/-- What a directive makes of the cases in force. -/
def CaseState.after (s : CaseState) : CaseDirective → CaseState
  | .upperNext => { s with next := some .upper }
  | .lowerNext => { s with next := some .lower }
  | .upperAll => { s with lasting := some .upper }
  | .lowerAll => { s with lasting := some .lower }
  | .stop => { s with lasting := none }
  | .newline => s
  | .tab => s

/-- What a directive writes itself, whatever the case. -/
def written : CaseDirective → List Char
  | .newline => ['\n']
  | .tab => ['\t']
  | _ => []

/-- Characters with the cases in force applied: that of the next character to the first one. -/
def applyCase (s : CaseState) : List Char → List Char
  | [] => []
  | c :: cs => Case.apply (s.next <|> s.lasting) c ++ cs.flatMap (Case.apply s.lasting)

/-- The cases in force after characters have been written. -/
def CaseState.afterText (s : CaseState) : List Char → CaseState
  | [] => s
  | _ :: _ => { s with next := none }

/-- The text of segments, with their directives applied, under the cases in force. -/
def foldFrom (s : CaseState) : List Segment → List Char
  | [] => []
  | .text t :: rest => applyCase s t.toList ++ foldFrom (s.afterText t.toList) rest
  | .directive d :: rest => written d ++ foldFrom (s.after d) rest

/-- The text of segments, with their directives applied. -/
def fold (segments : List Segment) : String := String.ofList (foldFrom {} segments)

/-- The segments of a text in which directives are written out. A backslash before another one keeps
both, and neither starts a directive; before any other character it stands for itself. -/
def read : List Char → List Segment
  | [] => []
  | '\\' :: '\\' :: cs => text "\\\\" :: read cs
  | '\\' :: c :: cs =>
    match CaseDirective.ofLetter? c with
    | some d => directive d :: read cs
    | none => text "\\" :: read (c :: cs)
  | c :: cs => text (String.singleton c) :: read cs

end Segment

/-- Applies the case directives that are written out in a text. -/
def applyCaseDirectives (s : String) : String := Segment.fold (Segment.read s.toList)

end TabStop
