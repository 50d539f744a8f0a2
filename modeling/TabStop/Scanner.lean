import TabStop.Token

/-!
# Scanning a source token by token

A scanner hands out the tokens of its source one after the other, each with the bytes it spans in
the UTF-8 form of the source. It can be given a new source at any time.
-/

namespace TabStop

/-- A token with the byte at which it starts. -/
structure LocatedToken where
  token : Token
  start : Nat
  deriving DecidableEq, Repr

namespace LocatedToken

/-- The byte after the last one of the token. -/
def stop (t : LocatedToken) : Nat := t.start + t.token.text.utf8ByteSize

end LocatedToken

/-- A source, the characters of it not yet handed out, and the byte at which those start. -/
structure Scanner where
  source : String
  rest : List Char
  offset : Nat
  deriving Repr

namespace Scanner

/-- A scanner at the start of `source`. -/
def start (source : String) : Scanner where
  source := source
  rest := source.toList
  offset := 0

/-- Gives up the current source, whatever is left of it, for a new one. -/
def reset (_ : Scanner) (source : String) : Scanner := start source

/-- The next token and the scanner after it; no token once the source is used up. -/
def next (s : Scanner) : Option LocatedToken × Scanner :=
  match Token.first? s.rest with
  | none => (none, s)
  | some cut =>
    let located : LocatedToken := ⟨cut.token, s.offset⟩
    (some located, { s with rest := cut.rest, offset := located.stop })

end Scanner

namespace LocatedToken

/-- Places tokens that follow each other from byte `start` on. -/
def place (start : Nat) : List Token → List LocatedToken
  | [] => []
  | t :: ts => ⟨t, start⟩ :: place (start + t.text.utf8ByteSize) ts

/-- The tokens of a source with their places. -/
def ofSource (source : String) : List LocatedToken := place 0 (Token.ofSource source)

end LocatedToken

end TabStop
