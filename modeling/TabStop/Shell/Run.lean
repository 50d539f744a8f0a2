import TabStop.Shell.Arithmetic
import TabStop.Shell.Word

/-!
# Running shell code

The part of the shell that short snippets use: commands one after the other, joined by `;`, `&&`, `||`
and `|`, with variables, quotes and the commands that need no files. A command that is not known
fails, as one does that is not installed. Only the output on the standard channel and the status
count.
-/

namespace TabStop.Shell

/-- What commands run in. -/
structure State where
  /-- The variables that are set, the last ones first. -/
  assigned : List (String × String) := []
  environment : String → Option String
  /-- The status of the last command; 0 is success. -/
  status : Nat := 0
  output : List Char := []
  /-- An `exit` has been run. -/
  exited : Bool := false

namespace State

/-- The value of a variable. -/
def value? (s : State) (name : String) : Option String :=
  s.assigned.lookup name <|> s.environment name

/-- The value of a variable; empty if it is not set. -/
def value (s : State) (name : String) : String := (s.value? name).getD ""

/-- A command has written and has ended with a status. -/
def finish (s : State) (status : Nat) (written : List Char := []) : State :=
  { s with status, output := s.output ++ written }

end State

/-! ## Expansion -/

/-- Whether a character separates the fields of a value. -/
def separates (c : Char) : Bool := c == ' ' || c == '\t' || c == '\n'

/-- Fields that are complete, the last one first, and the one that has been begun. -/
structure Fields where
  done : List (List Char) := []
  current : Option (List Char) := none

namespace Fields

/-- Ends the field that has been begun. -/
def close (f : Fields) : Fields :=
  match f.current with
  | some w => ⟨w :: f.done, none⟩
  | none => f

/-- Adds text to the field. -/
def add (f : Fields) (cs : List Char) : Fields := { f with current := some (f.current.getD [] ++ cs) }

/-- Adds a value, split at blanks. -/
def split (f : Fields) (cs : List Char) : Fields :=
  cs.foldl (fun f c => if separates c then f.close else f.add [c]) f

end Fields

/-- What stands for a text, as text. `run` gives the output of code. -/
def textOf? (run : State → String → State) (s : State) : Source → Option String
  | .variable name => some (s.value name)
  | .default name text => some (if (s.value name).isEmpty then text else s.value name)
  | .status => some (toString s.status)
  | .output code =>
    let out := (run { s with output := [] } code).output
    some (String.ofList (out.reverse.dropWhile (· = '\n')).reverse)
  | .number e => (evaluate? s.value e).map toString

/-- The fields that a word becomes. -/
def fields? (run : State → String → State) (s : State) (parts : List Part) :
    Option (List String) := do
  let f ← parts.foldlM (fun (f : Fields) part =>
    match part with
    | .text cs => some (f.add cs)
    | .source quoted source =>
      (textOf? run s source).map fun v => if quoted then f.add v.toList else f.split v.toList) {}
  return f.close.done.reverse.map String.ofList

/-! ## Commands -/

/-- The character of an octal number of at most `n` digits, and what is after it. -/
def octal (n : Nat) (cs : List Char) : Char × List Char :=
  let digits := (cs.take n).takeWhile fun c => '0' ≤ c && c ≤ '7'
  let code := digits.foldl (fun m d => 8 * m + (d.toNat - '0'.toNat)) 0
  (if code < 0x80 then Char.ofNat code else '\ufffd', cs.drop digits.length)

/-- The character of an escape that both `echo` and `printf` know. -/
def escape? : Char → Option Char
  | 'n' => some '\n'
  | 't' => some '\t'
  | 'r' => some '\r'
  | 'a' => some '\x07'
  | 'b' => some '\x08'
  | 'f' => some '\x0c'
  | 'v' => some '\x0b'
  | '\\' => some '\\'
  | _ => none

/-- Text with its escapes, as `echo` writes it: whether it goes on after it, and the text. -/
def echoed : Nat → List Char → Bool × List Char
  | 0, _ => (true, [])
  | fuel + 1, cs =>
    let more (first : List Char) (rest : List Char) :=
      let (goesOn, text) := echoed fuel rest
      (goesOn, first ++ text)
    match cs with
    | [] => (true, [])
    | '\\' :: 'c' :: _ => (false, [])
    | '\\' :: '0' :: rest =>
      let (c, rest) := octal 3 rest
      more [c] rest
    | '\\' :: c :: rest =>
      match escape? c with
      | some e => more [e] rest
      | none => more ['\\', c] rest
    | c :: rest => more [c] rest

/-- What `echo` writes. -/
def echo (args : List String) : List Char :=
  let (line, args) := match args with
    | "-n" :: args => ([], args)
    | args => (['\n'], args)
  let cs := (" ".intercalate args).toList
  let (goesOn, text) := echoed (cs.length + 1) cs
  if goesOn then text ++ line else text

/-- What `printf` writes for its format once, and the arguments that are left. -/
def formatted : Nat → List Char → List String → List Char × List String
  | 0, _, args => ([], args)
  | fuel + 1, cs, args =>
    let more (first : List Char) (rest : List Char) (args : List String) :=
      let (text, args) := formatted fuel rest args
      (first ++ text, args)
    match cs with
    | [] => ([], args)
    | '%' :: '%' :: rest => more ['%'] rest args
    | '%' :: 's' :: rest => more (args.headD "").toList rest args.tail
    | '%' :: 'd' :: rest => more (toString (wholeOf (args.headD "0"))).toList rest args.tail
    | '%' :: 'i' :: rest => more (toString (wholeOf (args.headD "0"))).toList rest args.tail
    | '%' :: 'c' :: rest => more ((args.headD "").toList.take 1) rest args.tail
    | '%' :: 'b' :: rest =>
      let arg := (args.headD "").toList
      more (echoed (arg.length + 1) arg).2 rest args.tail
    | '\\' :: c :: rest =>
      if '0' ≤ c ∧ c ≤ '7' then
        let (d, rest) := octal 3 (c :: rest)
        more [d] rest args
      else
        match escape? c with
        | some e => more [e] rest args
        | none => more ['\\', c] rest args
    | c :: rest => more [c] rest args

/-- What `printf` writes; the format is used again while there are arguments left. -/
def printf : Nat → List Char → List String → List Char
  | 0, _, _ => []
  | fuel + 1, format, args =>
    let (text, rest) := formatted (format.length + 1) format args
    if rest.isEmpty ∨ rest.length = args.length then text else text ++ printf fuel format rest

/-- Whether a condition holds. -/
def test : List String → Bool
  | ["!", a] => a.isEmpty
  | ["-n", a] => !a.isEmpty
  | ["-z", a] => a.isEmpty
  | [a] => !a.isEmpty
  | [a, "=", b] => a == b
  | [a, "!=", b] => a != b
  | [a, "-eq", b] => wholeOf a == wholeOf b
  | [a, "-ne", b] => wholeOf a != wholeOf b
  | [a, "-lt", b] => wholeOf a < wholeOf b
  | [a, "-le", b] => wholeOf a ≤ wholeOf b
  | [a, "-gt", b] => wholeOf a > wholeOf b
  | [a, "-ge", b] => wholeOf a ≥ wholeOf b
  | _ => false

/-- The status of a truth value. -/
def statusOf (b : Bool) : Nat := if b then 0 else 1

/-- Characters of a text changed one by one from those of one list into those of another. -/
def exchange (old new : List Char) (cs : List Char) : List Char :=
  cs.map fun c =>
    match old.findIdx? (· = c) with
    | some i => (new[i]? <|> new.getLast?).getD c
    | none => c

/-- The characters of a set as `tr` is given it. -/
def characters : List Char → List Char
  | a :: '-' :: b :: rest =>
    (List.range (b.toNat + 1 - a.toNat)).map (fun i => Char.ofNat (a.toNat + i)) ++ characters rest
  | c :: rest => c :: characters rest
  | [] => []

/-- Runs a command with its arguments; `input` is what it reads. -/
def command (s : State) (input : List Char) (name : String) (args : List String) : State :=
  match name with
  | "echo" => s.finish 0 (echo args)
  | "printf" =>
    match args with
    | format :: args => s.finish 0 (printf (args.length + 1) format.toList args)
    | [] => s.finish 2
  | "true" => s.finish 0
  | ":" => s.finish 0
  | "false" => s.finish 1
  | "exit" =>
    { s with status := (args.head?.map fun a => (wholeOf a % 256).toNat).getD s.status, exited := true }
  | "test" => s.finish (statusOf (test args))
  | "[" => s.finish (statusOf (args.getLast? == some "]" && test args.dropLast))
  | "cat" => if args.isEmpty ∨ args = ["-"] then s.finish 0 input else s.finish 1
  | "tr" =>
    match args with
    | [old, new] => s.finish 0 (exchange (characters old.toList) (characters new.toList) input)
    | _ => s.finish 1
  | _ => s.finish 127

/-! ## Lines -/

/-- The name and the first part of the value of an assignment. -/
def assignment? (parts : List Part) : Option (String × List Part) :=
  let plain := parts.takeWhile fun p =>
    match p with
    | .text [c] => Token.continuesWord c
    | _ => false
  let name := plain.flatMap fun p =>
    match p with
    | .text cs => cs
    | _ => []
  match parts.drop plain.length, name with
  | .text ['='] :: value, c :: _ =>
    if Token.startsWord c then some (String.ofList name, value) else none
  | _, _ => none

/-- A command without its redirections, and whether its output is sent elsewhere. -/
def redirected : List Token → List Token × Bool
  | .operator "2" :: .operator _ :: .word _ :: ts => redirected ts
  | .operator ">&" :: .word _ :: ts => ((redirected ts).1, true)
  | .operator ">" :: .word _ :: ts => ((redirected ts).1, true)
  | t :: ts => (t :: (redirected ts).1, (redirected ts).2)
  | [] => ([], false)

/-- The words of a command, if it is made of nothing else. -/
def words? (ts : List Token) : Option (List (List Part)) :=
  ts.mapM fun t =>
    match t with
    | .word parts => some parts
    | .operator _ => none

/-- Sets the variables of assignments; their words come before all others. -/
def assign? (run : State → String → State) (s : State) :
    List (List Part) → Option (State × List (List Part))
  | [] => some (s, [])
  | w :: ws =>
    match assignment? w with
    | some (name, value) => do
      let fs ← fields? run s value
      assign? run { s with assigned := (name, " ".intercalate fs) :: s.assigned } ws
    | none => some (s, w :: ws)

/-- Runs one command. -/
def simple (run : State → String → State) (s : State) (input : List Char) (ts : List Token) :
    State :=
  let (ts, elsewhere) := redirected ts
  let result : Option State := do
    let (assigned, ws) ← assign? run s (← words? ts)
    match (← ws.mapM (fields? run assigned)).flatten with
    | [] => return { assigned with status := 0 }
    | name :: args => return command (if ws.length < ts.length then s else assigned) input name args
  match result with
  | some after => if elsewhere then { after with output := s.output } else after
  | none => { s with status := 2, exited := true }

/-- Tokens up to an operator, that operator, and what is after it. -/
def cutAt (isCut : String → Bool) : List Token → List Token × Option (String × List Token)
  | [] => ([], none)
  | .operator o :: ts =>
    if isCut o then ([], some (o, ts))
    else
      let (front, rest) := cutAt isCut ts
      (.operator o :: front, rest)
  | t :: ts =>
    let (front, rest) := cutAt isCut ts
    (t :: front, rest)

/-- Runs commands each of which reads what the one before it has written. -/
def pipeline (run : State → String → State) : Nat → State → List Char → List Token → State
  | 0, s, _, _ => s
  | fuel + 1, s, input, ts =>
    match cutAt (· == "|") ts with
    | (front, none) => simple run s input front
    | (front, some (_, rest)) =>
      let first := simple run { s with output := [] } input front
      pipeline run fuel s first.output rest

/-- Runs pipelines one after the other, as the operators between them say. -/
def list (run : State → String → State) : Nat → State → Bool → List Token → State
  | 0, s, _, _ => s
  | fuel + 1, s, isRun, ts =>
    let (front, rest) := cutAt (fun o => o == ";" || o == "&&" || o == "||") ts
    let s :=
      if !isRun || s.exited || front.isEmpty then s else pipeline run (ts.length + 1) s [] front
    match rest with
    | none => s
    | some (o, rest) =>
      if s.exited then s
      else
        list run fuel s (o == ";" || (o == "&&" && s.status == 0) || (o == "||" && s.status != 0)) rest

/-- Runs code, with code in it nested at most `fuel` levels. -/
def runCode : Nat → State → String → State
  | 0, s, _ => s
  | fuel + 1, s, code =>
    match tokens? code with
    | some ts => list (runCode fuel) (ts.length + 1) s true ts
    | none => { s with status := 2, exited := true }

/-- What code writes, if it succeeds. -/
def run? (environment : String → Option String) (code : String) : Option String :=
  let s := runCode (code.length + 1) { environment } code
  if s.status = 0 then some (String.ofList s.output) else none

end TabStop.Shell
