import TabStop.Toml.Scalar

/-!
# Reading a TOML document

A document is a row of lines: a key with a value, a header, a comment, or nothing. Keys belong to the
table of the last header. Arrays and tables in braces may go over several lines, and a comma may stand
after the last thing in them.
-/

namespace TabStop.Toml

/-! ## Blanks and comments -/

/-- What is after blanks. -/
def skipBlanks (cs : List Char) : List Char := cs.dropWhile isBlank

/-- What is after blanks and a comment, if there is one. -/
def skipComment? (cs : List Char) : Option (List Char) :=
  match skipBlanks cs with
  | '#' :: rest =>
    let comment := rest.takeWhile fun c => c ≠ '\n' ∧ c ≠ '\r'
    if comment.any isControl then none else some (rest.drop comment.length)
  | rest => some rest

/-- What is after the rest of a line on which nothing more stands. -/
def endLine? (cs : List Char) : Option (List Char) := do
  let rest ← skipComment? cs
  match rest with
  | [] => some []
  | rest => lineEnd? rest

/-- What is after blanks, comments and line ends; at most `fuel` lines of them. -/
def skipLines? : Nat → List Char → Option (List Char)
  | 0, _ => none
  | fuel + 1, cs => do
    let rest ← skipComment? cs
    match lineEnd? rest with
    | some rest => skipLines? fuel rest
    | none => return rest

/-- What is after all blanks, comments and line ends. -/
def skipAll? (cs : List Char) : Option (List Char) := skipLines? (cs.length + 1) cs

/-! ## Keys -/

/-- Characters of keys without quotes. -/
def inKey (c : Char) : Bool := Token.continuesWord c || c == '-'

/-- Reads one part of a key. -/
def keyPart? (cs : List Char) : Option (String × List Char) :=
  match lineString? cs with
  | some r => some r
  | none =>
    let part := cs.takeWhile inKey
    if part.isEmpty then none else some (String.ofList part, cs.dropWhile inKey)

/-- Reads a key of at most `fuel` parts: the parts before the last one, and the last one. -/
def keyFrom? : Nat → List Char → Option ((List String × String) × List Char)
  | 0, _ => none
  | fuel + 1, cs => do
    let (part, rest) ← keyPart? (skipBlanks cs)
    match skipBlanks rest with
    | '.' :: more =>
      let ((path, last), rest) ← keyFrom? fuel more
      return ((part :: path, last), rest)
    | rest => return (([], part), rest)

/-- Reads a key, with the blanks around it. -/
def key? (cs : List Char) : Option ((List String × String) × List Char) :=
  keyFrom? (cs.length + 1) cs

/-! ## Values -/

mutual

/-- Reads a value, nested at most `fuel` levels. -/
def value? : Nat → List Char → Option (Value × List Char)
  | 0, _ => none
  | fuel + 1, cs =>
    match cs with
    | '[' :: rest => (items? fuel rest).map fun (items, rest) => (.array items, rest)
    | '\x7b' :: rest => (pairs? fuel [] rest).map fun (es, rest) => (.table .inline es, rest)
    | _ =>
      match string? cs with
      | some (s, rest) => some (.string s, rest)
      | none => if cs.head? = some '"' ∨ cs.head? = some '\'' then none else scalar? cs

/-- Reads the items of an array up to its closing bracket. -/
def items? : Nat → List Char → Option (List Value × List Char)
  | 0, _ => none
  | fuel + 1, cs => do
    match ← skipAll? cs with
    | ']' :: rest => return ([], rest)
    | rest =>
      let (item, rest) ← value? fuel rest
      match ← skipAll? rest with
      | ',' :: rest =>
        let (items, rest) ← items? fuel rest
        return (item :: items, rest)
      | ']' :: rest => return ([item], rest)
      | _ => none

/-- Reads the keys and values in braces up to the closing one, and adds them to a table. -/
def pairs? : Nat → Entries → List Char → Option (Entries × List Char)
  | 0, _, _ => none
  | fuel + 1, es, cs => do
    match ← skipAll? cs with
    | '\x7d' :: rest => return (es, rest)
    | rest =>
      let ((path, k), rest) ← key? rest
      let (v, rest) ← value? fuel (skipBlanks (← expect? '=' rest))
      let es ← es.addValue path k v .inline
      match ← skipAll? rest with
      | ',' :: rest => pairs? fuel es rest
      | '\x7d' :: rest => return (es, rest)
      | _ => none

end

/-! ## Lines -/

/-- A document that has been read in part: the path of the table of the last header, and all that has
been read. -/
structure Progress where
  header : List String := []
  root : Entries := []

namespace Progress

/-- Takes a key with its value. -/
def add? (p : Progress) (path : List String) (k : String) (v : Value) : Option Progress := do
  return { p with root := ← p.root.changeAt false (Entries.addValue path k v) p.header .header }

/-- Takes a header. -/
def enter? (p : Progress) (change : String → TableKind → Entries → Option Entries)
    (path : List String) (k : String) : Option Progress := do
  let root ← p.root.changeAt false (change k) path .header
  return ⟨path ++ [k], root⟩

/-- Reads what stands on a line before its end. -/
def line? (p : Progress) (cs : List Char) : Option (Progress × List Char) :=
  match cs with
  | '[' :: '[' :: rest => do
    let ((path, k), rest) ← key? rest
    let rest ← expect? ']' (← expect? ']' rest)
    return (← p.enter? Entries.addElement path k, rest)
  | '[' :: rest => do
    let ((path, k), rest) ← key? rest
    return (← p.enter? Entries.addHeader path k, ← expect? ']' rest)
  | _ => do
    let ((path, k), rest) ← key? cs
    let (v, rest) ← value? (rest.length + 1) (skipBlanks (← expect? '=' rest))
    return (← p.add? path k v, rest)

/-- Reads all lines, at most `fuel` of them. -/
def lines? : Nat → Progress → List Char → Option Progress
  | 0, _, _ => none
  | fuel + 1, p, cs => do
    match ← skipAll? cs with
    | [] => return p
    | rest =>
      let (p, rest) ← p.line? rest
      lines? fuel p (← endLine? rest)

end Progress

/-- Reads a document. A byte order mark before it is dropped. -/
def read? (source : String) : Option Entries :=
  let cs := match source.toList with
    | '\ufeff' :: cs => cs
    | cs => cs
  (Progress.lines? (cs.length + 1) {} cs).map (·.root)

end TabStop.Toml
