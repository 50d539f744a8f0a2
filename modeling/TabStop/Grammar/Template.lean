import TabStop.Grammar.Event

/-!
# Transforms in snippet source

`pattern/template/flags}` after the slash that follows an index or a name. A transform is a property
of its tab stop or variable and no node of the tree, so these rules give values and no events. If
the pattern does not compile or a flag is unknown there is no transform.
-/

namespace TabStop.Grammar

/-! ## The pattern -/

/-- The pattern up to the next slash that is not escaped. `\/` is a slash in the pattern. In
UltiSnips `\Z`, the end of the text, is written `\z` for the pattern. -/
def regexPart (d : Dialect) : (ts : List Token) → Option (Taken String ts)
  | [] => none
  | .mark .slash :: ts => some (.one "" _ ts)
  | .mark .backslash :: .mark .slash :: ts =>
    (regexPart d ts).map fun r => (r.map ("/" ++ ·)).cons.cons
  | .mark .backslash :: .word w :: ts =>
    let start := match w.toList with
      | 'Z' :: cs => if d.isUltiSnips then "\\z" ++ String.ofList cs else "\\" ++ w
      | _ => "\\" ++ w
    (regexPart d ts).map fun r => (r.map (start ++ ·)).cons.cons
  | t :: ts => (regexPart d ts).map fun r => (r.map (t.text ++ ·)).cons

/-! ## References to groups -/

/-- Group numbers are below this bound. -/
def groupBound : Nat := 18446744073709551616

/-- Text up to a mark, with `\$`, `\}` and `\\` unescaped; there are no other escapes in it. -/
def branchText (stop : Mark) : (ts : List Token) → Option (Taken String ts)
  | [] => none
  | .mark .backslash :: ts =>
    match ts with
    | .mark m :: ts =>
      if m = .dollar ∨ m = .braceClose ∨ m = .backslash then
        (branchText stop ts).map fun r => (r.map (String.singleton m.char ++ ·)).cons.cons
      else none
    | _ => none
  | t :: ts =>
    if t = .mark stop then some (.one "" _ ts)
    else (branchText stop ts).map fun r => (r.map (t.text ++ ·)).cons

/-- Text up to a mark, at least one character of it. -/
def until? (stop : Mark) (ts : List Token) : Option (Taken String ts) :=
  (branchText stop ts).filter fun r => !r.value.isEmpty

/-- What follows the colon in a reference to group `index`, up to the closing brace. -/
def formatSuffix (index : Nat) : (ts : List Token) → Option (Taken FormatString ts)
  | .mark .slash :: ts =>
    match ts with
    | .word name :: .mark .braceClose :: rest =>
      some (Taken.one { index, shorthand := some (.ofName name) } _ rest).cons.cons
    | _ => none
  | .mark .plus :: ts =>
    (until? .braceClose ts).map fun r => (r.map fun a => { index, ifText := some a }).cons
  | .mark .dash :: ts =>
    (until? .braceClose ts).map fun r => (r.map fun b => { index, elseText := some b }).cons
  | .mark .question :: ts => do
    let a ← until? .colon ts
    let b ← until? .braceClose a.rest
    let both := b.map fun b => { index, ifText := some a.value, elseText := some b }
    return (both.behind (Nat.le_of_lt a.shorter)).cons
  | ts => (until? .braceClose ts).map fun r => r.map fun b => { index, elseText := some b }

/-- What follows the index in a reference in braces. -/
def formatRest (d : Dialect) (index : Nat) : (ts : List Token) → Option (Taken FormatString ts)
  | .mark .braceClose :: rest => some (.one { index } _ rest)
  | .mark .colon :: rest =>
    if d.isUltiSnips then none
    else (formatSuffix index rest).map (·.cons)
  | _ => none

/-- A reference to a group, after its dollar sign: `1` or `{1}`, and in TextMate also with a
conversion or branches. -/
def formatString (d : Dialect) : (ts : List Token) → Option (Taken FormatString ts)
  | .digits ds :: ts => (indexBelow? groupBound ds).map fun index => .one { index } _ ts
  | .mark .braceOpen :: .digits ds :: ts => do
    let index ← indexBelow? groupBound ds
    return (← formatRest d index ts).cons.cons
  | _ => none

/-! ## Pieces -/

/-- Marks that stand for themselves in a template after a backslash. -/
def isTemplateEscape (d : Dialect) : Mark → Bool
  | .backslash | .slash | .dollar | .braceClose => true
  | .parenOpen | .parenClose | .colon => d.isUltiSnips
  | _ => false

/-- What a backslash in a template makes of the tokens after it. In UltiSnips it may start a case
directive, whose letter stands at the start of a word. Else the backslash stands for itself. -/
def templateEscape (d : Dialect) (ts : List Token) :
    Taken (List Piece) (.mark .backslash :: ts) :=
  match ts with
  | .mark m :: rest =>
    if isTemplateEscape d m then
      (Taken.one [.text (String.singleton m.char)] _ rest).cons
    else .one [.text "\\"] _ _
  | .word w :: rest =>
    match d.isUltiSnips, w.toList with
    | true, c :: cs =>
      match CaseDirective.ofLetter? c with
      | some directive =>
        let more := if cs.isEmpty then [] else [Piece.text (String.ofList cs)]
        (Taken.one (.directive directive :: more) _ rest).cons
      | none => .one [.text "\\"] _ _
    | _, _ => .one [.text "\\"] _ _
  | _ => .one [.text "\\"] _ _

/-- Pieces up to a mark that ends them, and the tokens from that mark on. -/
structure Branch (ts : List Token) where
  pieces : List Piece
  rest : List Token
  noLonger : rest.length ≤ ts.length

mutual

/-- The next pieces of a template; none at the end of the tokens. -/
def piece (d : Dialect) (ts : List Token) : Option (Taken (List Piece) ts) :=
  match ts with
  | [] => none
  | .mark .backslash :: rest => some (templateEscape d rest)
  | .mark .dollar :: rest =>
    match formatString d rest with
    | some f => some ((f.map fun f => [.format f]).cons)
    | none => some (.one [.text "$"] _ rest)
  | .mark .parenOpen :: rest =>
    if d.isUltiSnips then
      match condition d rest with
      | some c => some ((c.map fun c => [c]).cons)
      | none => some (.one [.text "("] _ rest)
    else some (.one [.text "("] _ rest)
  | t :: rest => some (.one [.text t.text] _ rest)
termination_by (ts.length, 1)

/-- A condition on a group, after its opening parenthesis: `?1:if:else)` or `?1:if)`. -/
def condition (d : Dialect) (ts : List Token) : Option (Taken Piece ts) :=
  match ts with
  | .mark .question :: .digits ds :: .mark .colon :: rest => do
    let index ← indexBelow? groupBound ds
    let a ← branch d true rest
    match ha : a.rest with
    | .mark .colon :: more =>
      have : more.length < rest.length := by
        have := a.noLonger; rw [ha] at this; simp at this; omega
      let b ← branch d false more
      match hb : b.rest with
      | .mark .parenClose :: after =>
        return ⟨.mkCondition index (Piece.mergeText a.pieces) (Piece.mergeText b.pieces), after,
          by have := b.noLonger; rw [hb] at this; simp at this ⊢; omega⟩
      | _ => none
    | .mark .parenClose :: after =>
      return ⟨.mkCondition index (Piece.mergeText a.pieces) [], after,
        by have := a.noLonger; rw [ha] at this; simp at this ⊢; omega⟩
    | _ => none
  | _ => none
termination_by (ts.length, 0)

/-- A branch of a condition, up to the parenthesis that closes the condition or, where `colon` asks
for it, a colon. The slash that would end the template must not come before that. -/
def branch (d : Dialect) (colon : Bool) (ts : List Token) : Option (Branch ts) :=
  match ts with
  | [] => none
  | .mark .slash :: _ => none
  | .mark .parenClose :: rest => some ⟨[], .mark .parenClose :: rest, Nat.le_refl _⟩
  | t :: rest =>
    if colon ∧ t = .mark .colon then some ⟨[], t :: rest, Nat.le_refl _⟩
    else
      match piece d (t :: rest) with
      | none => none
      | some p =>
        have := p.shorter
        match branch d colon p.rest with
        | none => none
        | some b => some ⟨p.value ++ b.pieces, b.rest, by have := b.noLonger; omega⟩
termination_by (ts.length, 2)

end

/-- The pieces of a template up to the slash that ends it. -/
def templatePart (d : Dialect) (ts : List Token) : Option (Taken (List Piece) ts) :=
  match ts with
  | .mark .slash :: rest => some (.one [] _ rest)
  | ts =>
    match piece d ts with
    | none => none
    | some p =>
      have := p.shorter
      (templatePart d p.rest).map fun t => (t.map (p.value ++ ·)).behind (Nat.le_of_lt p.shorter)
termination_by ts.length

/-- The flags up to the closing brace. -/
def flagsPart : (ts : List Token) → Option (Taken String ts)
  | [] => none
  | .mark .braceClose :: ts => some (.one "" _ ts)
  | t :: ts => (flagsPart ts).map fun r => (r.map (t.text ++ ·)).cons

/-- A transform, after its first slash. -/
def transform (d : Dialect) (ts : List Token) : Option (Taken Transform ts) := do
  let pattern ← regexPart d ts
  let pieces ← templatePart d pattern.rest
  let letters ← flagsPart pieces.rest
  let made := do
    let flags ← TransformFlags.read letters.value
    Transform.make pattern.value (Piece.mergeText pieces.value) flags
  match made with
  | .error _ => none
  | .ok t =>
    return (letters.map fun _ => t).behind
      (Nat.le_of_lt (Nat.lt_trans pieces.shorter pattern.shorter))

end TabStop.Grammar
