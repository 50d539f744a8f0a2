/-!
# Tokens of snippet source

Every character of a source belongs to exactly one token. A punctuation mark that some rule of the
grammar looks for is a token of its own; digits and words are taken as long as they go; whatever
else stands between those is one token of other text. So the texts of the tokens, put together,
are the source, and a rule that fails can always fall back to the text of its tokens.
-/

namespace TabStop

/-- The punctuation that the grammar gives a meaning to. -/
inductive Mark where
  | dollar | colon | comma | braceOpen | braceClose | backslash | slash
  | pipe | plus | dash | question | parenOpen | parenClose | backtick
  deriving DecidableEq, Repr

namespace Mark

/-- The character that the mark is written as. -/
def char : Mark → Char
  | dollar => '$'
  | colon => ':'
  | comma => ','
  | braceOpen => '{'
  | braceClose => '}'
  | backslash => '\\'
  | slash => '/'
  | pipe => '|'
  | plus => '+'
  | dash => '-'
  | question => '?'
  | parenOpen => '('
  | parenClose => ')'
  | backtick => '`'

/-- The mark written as `c`, if there is one. -/
def ofChar? (c : Char) : Option Mark :=
  match c with
  | '$' => some dollar
  | ':' => some colon
  | ',' => some comma
  | '{' => some braceOpen
  | '}' => some braceClose
  | '\\' => some backslash
  | '/' => some slash
  | '|' => some pipe
  | '+' => some plus
  | '-' => some dash
  | '?' => some question
  | '(' => some parenOpen
  | ')' => some parenClose
  | '`' => some backtick
  | _ => none

@[simp] theorem ofChar?_char (m : Mark) : ofChar? m.char = some m := by
  cases m <;> rfl

end Mark

/-- A token: a mark, a run of ASCII digits, an identifier, or a run of anything else. -/
inductive Token where
  | mark (m : Mark)
  | digits (text : String)
  | word (text : String)
  | other (text : String)
  deriving DecidableEq, Repr

namespace Token

/-- The piece of source that the token stands for. -/
def text : Token → String
  | mark m => String.singleton m.char
  | digits s => s
  | word s => s
  | other s => s

/-! ## Character classes -/

/-- An ASCII digit. -/
def isDigit (c : Char) : Bool := '0' ≤ c && c ≤ '9'

/-- An ASCII letter. -/
def isLetter (c : Char) : Bool := ('A' ≤ c && c ≤ 'Z') || ('a' ≤ c && c ≤ 'z')

/-- What an identifier starts with: an ASCII letter or an underscore. -/
def startsWord (c : Char) : Bool := isLetter c || c == '_'

/-- What an identifier goes on with: an ASCII letter or digit or an underscore. -/
def continuesWord (c : Char) : Bool := startsWord c || isDigit c

/-- Neither a mark nor part of digits or of an identifier. -/
def isOther (c : Char) : Bool := !continuesWord c && (Mark.ofChar? c).isNone

/-! ## The first token -/

/-- A token at the front of a text, and the text after it, which is shorter. -/
structure Cut (cs : List Char) where
  token : Token
  rest : List Char
  shorter : rest.length < cs.length

/-- The longest run at the front of `c :: cs` whose characters after the first satisfy `p`. -/
def run (p : Char → Bool) (make : String → Token) (c : Char) (cs : List Char) : Cut (c :: cs) where
  token := make (String.ofList (c :: cs.takeWhile p))
  rest := cs.dropWhile p
  shorter := Nat.lt_succ_of_le (List.dropWhile_suffix p).length_le

/-- The first token of a text; a text without one is empty. -/
def first? : (cs : List Char) → Option (Cut cs)
  | [] => none
  | c :: cs =>
    some <|
      match Mark.ofChar? c with
      | some m => ⟨mark m, cs, Nat.lt_succ_self _⟩
      | none =>
        if isDigit c then run isDigit digits c cs
        else if startsWord c then run continuesWord word c cs
        else run isOther other c cs

/-- All tokens of a text. -/
def lex (cs : List Char) : List Token :=
  match first? cs with
  | none => []
  | some cut => cut.token :: lex cut.rest
termination_by cs.length
decreasing_by exact cut.shorter

/-- The tokens of a source. -/
def ofSource (source : String) : List Token := lex source.toList

end Token

end TabStop
