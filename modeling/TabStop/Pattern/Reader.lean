import TabStop.Pattern.Node
import TabStop.Pattern.Property

/-!
# Reading a regular expression

The notation is that of finite automata: it has no look-around and no references back to a group,
and a pattern that uses them is refused, as is one that nests too deep. Braces that open no
repetition count, unknown escapes and unknown class names are refused too, except that an unknown
name in `[:name:]` makes the brackets an ordinary class.

A reader is a partial function on a cursor: the characters left, the flags in force, and the groups
met so far. It either moves the cursor forward or refuses the pattern.
-/

namespace TabStop.Pattern

/-- The flags in force at a place in a pattern. -/
structure Flags where
  /-- `i`: letters stand for all that equal them up to case. -/
  ignoreCase : Bool := false
  /-- `m`: `^` and `$` match at line boundaries. -/
  multiLine : Bool := false
  /-- `s`: a dot matches line ends too. -/
  dotAll : Bool := false
  /-- `U`: repetitions are lazy unless marked. -/
  swapGreed : Bool := false
  /-- `R`: lines may end in a carriage return. -/
  crlf : Bool := false
  /-- `x`: blanks and comments in the pattern are skipped. -/
  ignoreSpace : Bool := false
  /-- `u`: classes and words are those of Unicode. -/
  unicode : Bool := true
  deriving DecidableEq, Repr

/-- A place in a pattern that is being read. -/
structure Cursor where
  rest : List Char
  flags : Flags
  groups : Nat
  names : List (List Char)

/-- Something that is read off a pattern, unless the pattern is refused. -/
abbrev Reader := StateT Cursor Option

/-- A part of a pattern that has been read. -/
structure Part where
  node : Node
  /-- How deep constructs nest in it. -/
  height : Nat
  /-- Whether an operator for repetition may follow. -/
  repeatable : Bool := true
  deriving Inhabited

/-- The deepest nesting of constructs that is read. -/
def nestLimit : Nat := 250

/-! ## Moving over characters -/

/-- Drops blanks and, from `#` to the end of the line, comments. -/
def dropBlank (inComment : Bool) : List Char → List Char
  | [] => []
  | c :: cs =>
    if inComment then dropBlank (c != '\n') cs
    else if c = '#' then dropBlank true cs
    else if Unicode.isSpace c then dropBlank false cs
    else c :: cs

/-- Drops blanks and comments where flag `x` asks for it. -/
def Flags.skip (f : Flags) (cs : List Char) : List Char :=
  if f.ignoreSpace then dropBlank false cs else cs

namespace Reader

/-- Refuses the pattern. -/
def refuse {α : Type} : Reader α := fun _ => none

/-- Refuses the pattern unless `ok`. -/
def require (ok : Bool) : Reader Unit := if ok then pure () else refuse

/-- The value that must be there. -/
def ofOption {α : Type} : Option α → Reader α
  | none => refuse
  | some a => pure a

/-- The flags in force. -/
def flags : Reader Flags := return (← get).flags

/-- The current character, if there is one. -/
def peek? : Reader (Option Char) := return (← get).rest.head?

/-- The current character, which must be there. -/
def current : Reader Char := do ofOption (← peek?)

/-- Moves over one character. -/
def bump : Reader Unit := modify fun c => { c with rest := c.rest.drop 1 }

/-- Moves over blanks and comments where flag `x` asks for it. -/
def skipSpace : Reader Unit := modify fun c => { c with rest := c.flags.skip c.rest }

/-- Moves over one character and over blanks and comments after it. -/
def advance : Reader Unit := do bump; skipSpace

/-- Moves over `text` if it comes next. -/
def bumpIf (text : List Char) : Reader Bool := do
  let c ← get
  if text.isPrefixOf c.rest then
    set { c with rest := c.rest.drop text.length }
    return true
  else
    return false

/-- The characters at the front that satisfy `p`, with blanks and comments skipped after each of
them, and what follows. At most `fuel` characters are taken. -/
def spanSkipping (f : Flags) (p : Char → Bool) : Nat → List Char → List Char × List Char
  | 0, cs => ([], cs)
  | _, [] => ([], [])
  | fuel + 1, c :: cs =>
    if p c then
      let (taken, rest) := spanSkipping f p fuel (f.skip cs)
      (c :: taken, rest)
    else ([], c :: cs)

/-- Takes characters that satisfy `p`, with blanks and comments skipped after each of them. -/
def takeSkipping (p : Char → Bool) : Reader (List Char) := do
  let c ← get
  let (taken, rest) := spanSkipping c.flags p c.rest.length c.rest
  set { c with rest }
  return taken

/-- The number written in decimal at the cursor, which must fit into 32 bits. Blanks around it are
skipped in any case. -/
def decimal : Reader Nat := do
  modify fun c => { c with rest := c.rest.dropWhile Unicode.isSpace }
  let digits ← takeSkipping Char.isDigit
  modify fun c => { c with rest := c.rest.dropWhile Unicode.isSpace }
  skipSpace
  require (!digits.isEmpty)
  let n := digits.foldl (fun n d => 10 * n + (d.toNat - '0'.toNat)) 0
  require (n < 4294967296)
  return n

/-! ## Escapes -/

/-- Whether `c` is a hexadecimal digit. -/
def isHex (c : Char) : Bool :=
  c.isDigit || ('a' ≤ c && c ≤ 'f') || ('A' ≤ c && c ≤ 'F')

/-- The character with the code that is written in hexadecimal digits. -/
def charOfHex (digits : List Char) : Reader Char := do
  let n := Table.hex digits
  if h : n.isValidChar then return Char.ofNatAux n h else refuse

/-- Exactly `n` hexadecimal digits. -/
def hexDigits : Nat → Reader (List Char)
  | 0 => return []
  | n + 1 => do
    let c ← current
    require (isHex c)
    advance
    return c :: (← hexDigits n)

/-- The number of digits after `\x`, `\u` and `\U` when they do not stand in braces. -/
def hexWidth : Char → Nat
  | 'x' => 2
  | 'u' => 4
  | _ => 8

/-- A character by its code, after the backslash of `\x41`, `\x{41}`, `\u0041` or `\U00000041`.
Where Unicode is off, two digits give a byte, and only an ASCII byte is a character. -/
def hexEscape : Reader Char := do
  let kind ← current
  advance
  if (← current) = '{' then
    advance
    let digits ← takeSkipping isHex
    require ((← current) = '}' && !digits.isEmpty)
    advance
    charOfHex digits
  else
    let c ← charOfHex (← hexDigits (hexWidth kind))
    require ((← flags).unicode || kind != 'x' || c.toNat < 0x80)
    return c

/-- What a class stands for under the flags in force. Where Unicode is off there are only ASCII
characters, so that nothing can be excluded. -/
def finishSet (negated : Bool) (s : CharSet) : Reader CharSet := do
  let f ← flags
  let s := if f.ignoreCase then
      (if f.unicode then Unicode.foldCase s
        else (Unicode.foldCase s).inter (CharSet.range 0 0x7F))
    else s
  if negated then
    require f.unicode
    return s.complement
  else
    return s

/-- A piece of a text before the first occurrence of `sep`, and the piece after it. -/
def splitAtText? (sep : List Char) : List Char → Option (List Char × List Char)
  | [] => none
  | c :: cs =>
    if sep.isPrefixOf (c :: cs) then some ([], (c :: cs).drop sep.length)
    else (splitAtText? sep cs).map fun (before, after) => (c :: before, after)

/-- The class that is written between the braces of `\p{...}`, and whether it is to be excluded. -/
def namedSet (body : List Char) : Reader (Bool × CharSet) :=
  match splitAtText? ['!', '='] body with
  | some (name, value) => return (true, ← ofOption (classWhere? name value))
  | none =>
    match splitAtText? [':'] body <|> splitAtText? ['='] body with
    | some (name, value) => return (false, ← ofOption (classWhere? name value))
    | none => return (false, ← ofOption (classNamed? body))

/-- A Unicode class, after the backslash of `\p{...}`, `\pL` or their negations. -/
def unicodeSet : Reader CharSet := do
  let negated := (← current) = 'P'
  advance
  let (flip, s) ← do
    if (← current) = '{' then
      advance
      let body ← takeSkipping (· ≠ '}')
      require ((← current) = '}')
      bump
      namedSet body
    else
      let c ← current
      require (c ≠ '\\')
      advance
      namedSet [c]
  require (← flags).unicode
  finishSet (negated != flip) s

/-- The class that one of the letters `d`, `s` and `w` names after a backslash. -/
def shortSet (f : Flags) (c : Char) : CharSet :=
  if f.unicode then
    match c with
    | 'd' => Unicode.decimalDigits
    | 's' => Unicode.whiteSpace
    | _ => Unicode.wordChars
  else
    match c with
    | 'd' => CharSet.range 0x30 0x39
    | 's' => CharSet.ofRanges [(0x09, 0x0D), (0x20, 0x20)]
    | _ => asciiWord

/-- What a single escape or character stands for. -/
inductive Atom where
  | char (c : Char)
  | set (s : CharSet)
  | look (l : Look)

/-- Whether a backslash before `c` makes it stand for itself: punctuation of ASCII, angle brackets
excepted. -/
def standsForItself (c : Char) : Bool :=
  c.toNat < 0x80 && !c.isAlphanum && c != '<' && c != '>'

/-- The kind of word boundary in the braces after `\b`, if braces of that form follow. Where the
first character in the braces is neither a letter nor a hyphen they are left alone. -/
def boundaryKind? : Reader (Option (Bool → Look)) := do
  let start ← get
  let inName (c : Char) : Bool := c.isAlpha || c == '-'
  advance
  if !inName (← current) then
    set start
    return none
  let name ← takeSkipping inName
  require ((← current) = '}')
  bump
  match String.ofList name with
  | "start" => return some Look.wordStart
  | "end" => return some Look.wordEnd
  | "start-half" => return some Look.wordStartHalf
  | "end-half" => return some Look.wordEndHalf
  | _ => refuse

/-- An escape, with the cursor at its backslash. -/
def escape : Reader Atom := do
  bump
  let c ← current
  let f ← flags
  let ascii := !f.unicode
  if c.isDigit then refuse
  else if c = 'x' || c = 'u' || c = 'U' then return .char (← hexEscape)
  else if c = 'p' || c = 'P' then return .set (← unicodeSet)
  else if c = 'd' || c = 's' || c = 'w' then bump; return .set (shortSet f c)
  else if c = 'D' || c = 'S' || c = 'W' then
    bump
    require f.unicode
    return .set (shortSet f c.toLower).complement
  else
    bump
    if standsForItself c then return .char c
    match c with
    | 'a' => return .char '\x07'
    | 'f' => return .char '\x0C'
    | 't' => return .char '\t'
    | 'n' => return .char '\n'
    | 'r' => return .char '\r'
    | 'v' => return .char '\x0B'
    | 'A' => return .look .textStart
    | 'z' => return .look .textEnd
    | 'b' =>
      if (← peek?) = some '{' then
        match ← boundaryKind? with
        | some kind => return .look (kind ascii)
        | none => return .look (.boundary ascii)
      else return .look (.boundary ascii)
    | 'B' => return .look (.noBoundary ascii)
    | '<' => return .look (.wordStart ascii)
    | '>' => return .look (.wordEnd ascii)
    | _ => refuse

/-! ## Bracketed classes -/

/-- An operator between two parts of a bracketed class. -/
inductive SetOp where
  | inter | diff | symmDiff

/-- The set that an operator makes of two, each first closed under case where case is ignored. -/
def SetOp.apply (f : Flags) (op : SetOp) (a b : CharSet) : CharSet :=
  let close (s : CharSet) : CharSet := if f.ignoreCase then Unicode.foldCase s else s
  match op with
  | inter => (close a).inter (close b)
  | diff => (close a).diff (close b)
  | symmDiff => (close a).symmDiff (close b)

/-- A set with the depth of the notation that it was read from. -/
structure SetPart where
  set : CharSet
  height : Nat

/-- What has been read of a bracketed class: the operator before the current part with the set on
its left, and the items of the current part. -/
structure SetState where
  pending : Option (SetOp × SetPart) := none
  items : List SetPart := []

/-- The current part as one set. -/
def SetState.part (s : SetState) : SetPart :=
  match s.items with
  | [] => ⟨CharSet.empty, 0⟩
  | [one] => one
  | items => ⟨CharSet.unions (items.map (·.set)), 1 + (items.map (·.height)).foldl max 0⟩

/-- All that has been read, with the pending operator applied. -/
def SetState.close (f : Flags) (s : SetState) : SetPart :=
  match s.pending with
  | none => s.part
  | some (op, left) =>
    let right := s.part
    ⟨op.apply f left.set right.set, 1 + max left.height right.height⟩

/-- Adds an item to the current part. -/
def SetState.push (s : SetState) (item : SetPart) : SetState :=
  { s with items := item :: s.items }

/-- A character or an escape in a bracketed class. -/
def setAtom : Reader Atom := do
  let c ← current
  if c = '\\' then escape
  else
    bump
    return .char c

/-- A character as part of a bracketed class; where Unicode is off it must be ASCII. -/
def classChar (c : Char) : Reader Char := do
  require ((← flags).unicode || c.toNat < 0x80)
  return c

/-- A character at one end of a range in a bracketed class. -/
def rangeEnd : Atom → Reader Char
  | .char c => classChar c
  | _ => refuse

/-- A character, an escaped class or a range in a bracketed class. -/
def setItem : Reader CharSet := do
  let first ← setAtom
  skipSpace
  let c ← get
  let next ← current
  let after := (c.flags.skip (c.rest.drop 1)).head?
  if next ≠ '-' || after = some ']' || after = some '-' then
    match first with
    | .char ch => return CharSet.singleton (← classChar ch)
    | .set s => return s
    | .look _ => refuse
  else
    advance
    let second ← (do let _ ← current; setAtom)
    let lo ← rangeEnd first
    let hi ← rangeEnd second
    require (lo ≤ hi)
    return CharSet.range lo.toNat hi.toNat

/-- A class `[:name:]` at the cursor. Where there is none the cursor stays. -/
def posixSet? : Reader (Option CharSet) := do
  let c ← get
  match c.rest with
  | '[' :: ':' :: body =>
    let (negated, body) := match body with
      | '^' :: more => (true, more)
      | _ => (false, body)
    let name := body.takeWhile (· ≠ ':')
    match body.dropWhile (· ≠ ':'), posixClass? name with
    | ':' :: ']' :: rest, some s =>
      set { c with rest }
      return some (← finishSet negated s)
    | _, _ => return none
  | _ => return none

/-- Hyphens at the start of a bracketed class, which stand for themselves. -/
def leadingDashes (s : SetState) : Nat → Reader SetState
  | 0 => return s
  | fuel + 1 => do
    if (← current) = '-' then
      advance
      let _ ← current
      leadingDashes (s.push ⟨CharSet.singleton '-', 0⟩) fuel
    else return s

/-- The start of a bracketed class at the cursor, up to its first ordinary item: whether it is
negated, and the hyphens or the closing bracket that stand for themselves there. -/
def openSet (fuel : Nat) : Reader (Bool × SetState) := do
  advance
  let negated ← do
    if (← current) = '^' then
      advance
      let _ ← current
      pure true
    else pure false
  let s ← leadingDashes {} fuel
  if s.items.isEmpty && (← current) = ']' then
    advance
    let _ ← current
    return (negated, s.push ⟨CharSet.singleton ']', 0⟩)
  else return (negated, s)

/-- The rest of a bracketed class, up to the bracket that closes it. -/
def setBody : Nat → Bool → SetState → Reader SetPart
  | 0, _, _ => refuse
  | fuel + 1, negated, s => do
    skipSpace
    let c ← get
    let f := c.flags
    let operator (op : SetOp) : Reader SetPart := do
      bump; bump
      setBody fuel negated { pending := some (op, s.close f) }
    match c.rest with
    | [] => refuse
    | '[' :: _ =>
      match ← posixSet? with
      | some set => setBody fuel negated (s.push ⟨set, 0⟩)
      | none =>
        let (innerNegated, inner) ← openSet c.rest.length
        let nested ← setBody fuel innerNegated inner
        setBody fuel negated (s.push nested)
    | ']' :: _ =>
      bump
      let whole := s.close f
      return ⟨← finishSet negated whole.set, whole.height + 1⟩
    | '&' :: '&' :: _ => operator .inter
    | '-' :: '-' :: _ => operator .diff
    | '~' :: '~' :: _ => operator .symmDiff
    | _ :: _ => setBody fuel negated (s.push ⟨← setItem, 0⟩)

/-- A bracketed class, with the cursor at its opening bracket. -/
def bracketed : Reader Part := do
  let length := (← get).rest.length
  let (negated, s) ← openSet length
  let whole ← setBody (length + 1) negated s
  return ⟨.chars whole.set, whole.height, true⟩

/-! ## Groups -/

/-- Whether `c` may stand in the name of a group, as its first character or further on. -/
def isNameChar (first : Bool) (c : Char) : Bool :=
  if first then c == '_' || Unicode.isAlphabetic c
  else c == '_' || c == '.' || c == '[' || c == ']' || Unicode.isAlphanumeric c

/-- The name of a group and the `>` after it. No two groups have one name. -/
def groupName : Reader Unit := do
  let c ← get
  let name := c.rest.takeWhile (· ≠ '>')
  let rest := c.rest.dropWhile (· ≠ '>')
  require (!rest.isEmpty && !name.isEmpty)
  require ((name.take 1).all (isNameChar true) && (name.drop 1).all (isNameChar false))
  require (!c.names.contains name)
  set { c with rest := rest.drop 1, names := name :: c.names }

/-- Turns a flag on or off. -/
def setFlag (f : Flags) (on : Bool) : Char → Option Flags
  | 'i' => some { f with ignoreCase := on }
  | 'm' => some { f with multiLine := on }
  | 's' => some { f with dotAll := on }
  | 'U' => some { f with swapGreed := on }
  | 'u' => some { f with unicode := on }
  | 'R' => some { f with crlf := on }
  | 'x' => some { f with ignoreSpace := on }
  | _ => none

/-- The flags after those written in `items` have been set, and those behind a hyphen cleared. No
flag is named twice, and a hyphen stands before at least one flag. -/
def applyFlags (f : Flags) (on : Bool) (seen : List Char) : List Char → Option Flags
  | [] => if seen.head? = some '-' then none else some f
  | c :: cs =>
    if seen.contains c then none
    else if c = '-' then applyFlags f false (c :: seen) cs
    else (setFlag f on c).bind fun f => applyFlags f on (c :: seen) cs

/-- What an opening parenthesis opens. -/
inductive Opening where
  /-- A group that is recorded. -/
  | recorded (index : Nat)
  /-- A group that is not, with the flags inside it. -/
  | plain (flags : Flags)
  /-- No group: flags for what follows. -/
  | directive (flags : Flags)

/-- Numbers a group that is recorded. -/
def newGroup : Reader Opening := do
  let c ← get
  set { c with groups := c.groups + 1 }
  return .recorded (c.groups + 1)

/-- The start of a group, with the cursor at its parenthesis. -/
def openGroup : Reader Opening := do
  bump
  skipSpace
  let c ← get
  let ahead (text : List Char) : Bool := text.isPrefixOf c.rest
  if ahead ['?', '='] || ahead ['?', '!'] || ahead ['?', '<', '='] || ahead ['?', '<', '!'] then
    refuse
  else if (← bumpIf ['?', 'P', '<']) || (← bumpIf ['?', '<']) then
    let opening ← newGroup
    groupName
    return opening
  else if ← bumpIf ['?'] then
    let c ← get
    let items := c.rest.takeWhile fun ch => ch ≠ ':' && ch ≠ ')'
    let rest := c.rest.dropWhile fun ch => ch ≠ ':' && ch ≠ ')'
    let f ← ofOption (applyFlags c.flags true [] items)
    set { c with rest := rest.drop 1 }
    match rest with
    | ':' :: _ => return .plain f
    | ')' :: _ =>
      require (!items.isEmpty)
      return .directive f
    | _ => refuse
  else newGroup

/-! ## Repetition -/

/-- Repeats the last part that was read, which must be there and be repeatable. -/
def repeatLast (min : Nat) (max : Option Nat) (greedy : Bool) : List Part → Reader (List Part)
  | [] => refuse
  | p :: ps => do
    require p.repeatable
    let greedy := if (← flags).swapGreed then !greedy else greedy
    return ⟨.mkRepeated min max greedy p.node, p.height + 1, true⟩ :: ps

/-- Whether a question mark follows, which it then moves over. -/
def isLazy : Reader Bool := bumpIf ['?']

/-- A count in braces, with the cursor at the opening one: the least and the greatest number. -/
def counts : Reader (Nat × Option Nat) := do
  advance
  let _ ← current
  let min ← decimal
  let max ← do
    if (← current) = ',' then
      advance
      if (← current) = '}' then pure none
      else pure (some (← decimal))
    else pure (some min)
  require ((← current) = '}')
  advance
  require (max.all (min ≤ ·))
  return (min, max)

/-! ## Parts in a row and alternatives -/

/-- The depth of several parts. -/
def heightOf (parts : List Part) : Nat := (parts.map (·.height)).foldl max 0

/-- Parts in a row, given last first, as one part. -/
def sequence : List Part → Part
  | [] => ⟨.empty, 0, false⟩
  | [p] => p
  | ps => ⟨.seq (ps.reverse.map (·.node)), 1 + heightOf ps, true⟩

/-- Alternatives, given last first, as one part. -/
def alternatives : List Part → Part
  | [p] => p
  | ps => ⟨.alt (ps.reverse.map (·.node)), 1 + heightOf ps, true⟩

/-- A literal character under the flags in force. -/
def literal (f : Flags) (c : Char) : Node :=
  let s := CharSet.singleton c
  if f.ignoreCase then
    if f.unicode then .chars (Unicode.foldCase s)
    else if c.toNat < 0x80 then .chars ((Unicode.foldCase s).inter (CharSet.range 0 0x7F))
    else .chars s
  else .chars s

/-- What a dot matches. -/
def dotSet (f : Flags) : CharSet :=
  if f.dotAll then CharSet.all
  else if f.crlf then (CharSet.ofRanges [(0x0A, 0x0A), (0x0D, 0x0D)]).complement
  else (CharSet.singleton '\n').complement

/-- A single character, escape, dot or anchor. -/
def primitive : Reader Part := do
  let c ← current
  let f ← flags
  match c with
  | '\\' =>
    match ← escape with
    | .char c => return ⟨literal f c, 0, true⟩
    | .set s => return ⟨.chars s, 0, true⟩
    | .look l => return ⟨.look l, 0, true⟩
  | '.' =>
    bump
    require f.unicode
    return ⟨.chars (dotSet f), 0, true⟩
  | '^' =>
    bump
    return ⟨.look (if f.multiLine then .lineStart f.crlf else .textStart), 0, true⟩
  | '$' =>
    bump
    return ⟨.look (if f.multiLine then .lineEnd f.crlf else .textEnd), 0, true⟩
  | _ =>
    bump
    return ⟨literal f c, 0, true⟩

/-- The alternatives up to the end of the pattern or of the group that they stand in. The parts of
the current alternative are in `parts` and the alternatives before it in `done`, last first. -/
def alternation : Nat → List Part → List Part → Reader Part
  | 0, _, _ => refuse
  | fuel + 1, parts, done => do
    skipSpace
    match ← peek? with
    | none | some ')' => return alternatives (sequence parts :: done)
    | some '|' =>
      bump
      alternation fuel [] (sequence parts :: done)
    | some '(' =>
      let outer ← flags
      match ← openGroup with
      | .directive f =>
        modify fun c => { c with flags := f }
        alternation fuel (⟨.empty, 0, false⟩ :: parts) done
      | .plain f =>
        modify fun c => { c with flags := f }
        let body ← alternation fuel [] []
        require ((← current) = ')')
        modify fun c => { c with flags := outer }
        bump
        alternation fuel (⟨body.node, body.height + 1, true⟩ :: parts) done
      | .recorded index =>
        let body ← alternation fuel [] []
        require ((← current) = ')')
        modify fun c => { c with flags := outer }
        bump
        alternation fuel (⟨.group index body.node, body.height + 1, true⟩ :: parts) done
    | some '[' => alternation fuel ((← bracketed) :: parts) done
    | some '?' =>
      bump
      alternation fuel (← repeatLast 0 (some 1) (!(← isLazy)) parts) done
    | some '*' =>
      bump
      alternation fuel (← repeatLast 0 none (!(← isLazy)) parts) done
    | some '+' =>
      bump
      alternation fuel (← repeatLast 1 none (!(← isLazy)) parts) done
    | some '{' =>
      let (min, max) ← counts
      alternation fuel (← repeatLast min max (!(← isLazy)) parts) done
    | some _ => alternation fuel ((← primitive) :: parts) done

/-- A whole pattern. -/
def whole (fuel : Nat) : Reader Part := do
  let part ← alternation fuel [] []
  require (← get).rest.isEmpty
  require (part.height ≤ nestLimit)
  return part

end Reader

/-- A pattern that has been read: its tree and the number of groups that it records. -/
structure Parsed where
  node : Node
  groups : Nat

/-- Reads a pattern under the given flags; none if it is refused. -/
def read? (flags : Flags) (pattern : List Char) : Option Parsed :=
  let start : Cursor := { rest := pattern, flags, groups := 0, names := [] }
  ((Reader.whole (2 * pattern.length + 2)).run start).map fun (part, c) => ⟨part.node, c.groups⟩

end TabStop.Pattern
