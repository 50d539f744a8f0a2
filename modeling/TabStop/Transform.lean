import TabStop.Pattern.Regex
import TabStop.Template.Piece
import TabStop.Unicode.BaseLetter

/-!
# Transforms

A transform changes a text by a pattern and a template: `/pattern/template/flags`. The first match,
or with flag `g` every match, is replaced by the template and the rest of the text is kept. A text
without a match becomes the empty text.
-/

namespace TabStop

/-- The flags of a transform. -/
structure TransformFlags where
  /-- `g`: every match is replaced, not only the first. -/
  global : Bool := false
  /-- `i`: letters match up to case. -/
  ignoreCase : Bool := false
  /-- `m`: `^` and `$` match at line boundaries. -/
  multiLine : Bool := false
  /-- `s`: a dot matches line ends too. -/
  dotAll : Bool := false
  /-- `u`: accepted, and without effect, since patterns are about Unicode anyway. -/
  unicode : Bool := false
  /-- `a`: marks are taken off the letters of the input first. -/
  ascii : Bool := false
  deriving DecidableEq, Repr

/-- Why a transform cannot be made. -/
inductive TransformError where
  | unknownFlag (c : Char)
  | invalidPattern
  deriving DecidableEq, Repr

namespace TransformError

/-- The wording of an error. -/
def message : TransformError → String
  | unknownFlag c => "unknown regex flag '" ++ String.singleton c ++ "'"
  | invalidPattern => "invalid regex pattern"

end TransformError

namespace TransformFlags

/-- Sets the flag that a letter stands for. -/
def set? (f : TransformFlags) (c : Char) : Option TransformFlags :=
  match c with
  | 'g' => some { f with global := true }
  | 'i' => some { f with ignoreCase := true }
  | 'm' => some { f with multiLine := true }
  | 's' => some { f with dotAll := true }
  | 'u' => some { f with unicode := true }
  | 'a' => some { f with ascii := true }
  | _ => none

/-- Sets the flags that letters stand for. The first letter that stands for none is an error. -/
def readFrom (f : TransformFlags) : List Char → Except TransformError TransformFlags
  | [] => .ok f
  | c :: cs =>
    match f.set? c with
    | some f => readFrom f cs
    | none => .error (.unknownFlag c)

/-- The flags that a text of letters stands for, in any order and any number. -/
def read (s : String) : Except TransformError TransformFlags := readFrom {} s.toList

/-- The letters of the flags in a fixed order. -/
def source (f : TransformFlags) : String :=
  String.ofList <|
    (if f.ignoreCase then ['i'] else []) ++ (if f.global then ['g'] else []) ++
    (if f.multiLine then ['m'] else []) ++ (if f.dotAll then ['s'] else []) ++
    (if f.unicode then ['u'] else []) ++ (if f.ascii then ['a'] else [])

/-- The flags that the pattern is compiled with. -/
def forPattern (f : TransformFlags) : Pattern.Flags where
  ignoreCase := f.ignoreCase
  multiLine := f.multiLine
  dotAll := f.dotAll

end TransformFlags

/-- A pattern, its compiled form, and the template for its matches. -/
structure Transform where
  pattern : String
  flags : TransformFlags
  pieces : List Piece
  regex : Regex
  compiles : Regex.compile? flags.forPattern pattern = some regex

namespace Transform

/-- The transform of a pattern, unless the pattern does not compile. -/
def make (pattern : String) (pieces : List Piece) (flags : TransformFlags) :
    Except TransformError Transform :=
  match h : Regex.compile? flags.forPattern pattern with
  | some regex => .ok ⟨pattern, flags, pieces, regex, h⟩
  | none => .error .invalidPattern

/-! ## Output -/

/-- The text of a stretch. -/
def sliceText (subject : List Char) (s : Pattern.Span) : String := String.ofList (s.slice subject)

/-- The texts of the groups of a match. -/
def groupTexts (subject : List Char) (m : Pattern.Found) : Groups :=
  m.groups.map (·.map (sliceText subject))

/-- The output from place `start` of the subject on: what stands between the matches, and the
template for each of them. -/
def outputFrom (pieces : List Piece) (subject : List Char) (start : Nat) :
    List Pattern.Found → List Segment
  | [] => [.text (String.ofList (subject.drop start))]
  | m :: ms =>
    .text (sliceText subject ⟨start, m.whole.start⟩) ::
      (Piece.renderAll (groupTexts subject m) pieces ++
        outputFrom pieces subject m.whole.stop ms)

/-- What the pattern is matched with. -/
def subject (t : Transform) (input : String) : String :=
  if t.flags.ascii then Unicode.stripMarks input else input

/-- The matches that are replaced. -/
def replaced (t : Transform) (subject : List Char) : List Pattern.Found :=
  let found := t.regex.findAll subject
  if t.flags.global then found else found.take 1

/-- Applies a transform to a text; one that the pattern does not match becomes empty. -/
def resolve (t : Transform) (input : String) : String :=
  let subject := (t.subject input).toList
  match t.replaced subject with
  | [] => ""
  | found => Segment.fold (outputFrom t.pieces subject 0 found)

/-- Applies a transform to a text; leaves the text as it is if there is none. -/
def resolveBy (t : Option Transform) (s : String) : String :=
  match t with
  | some t => t.resolve s
  | none => s

/-! ## Notation -/

/-- The pattern with its slashes escaped. -/
def patternSource (pattern : String) : String :=
  String.ofList (pattern.toList.flatMap fun c => if c = '/' then ['\\', '/'] else [c])

/-- How a transform is written, after its first slash. -/
def source (d : Dialect) (t : Transform) : String :=
  patternSource t.pattern ++ "/" ++ Piece.sourceAll d t.pieces ++ "/" ++ t.flags.source

end Transform

end TabStop
