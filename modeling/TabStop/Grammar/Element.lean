import TabStop.Grammar.Code
import TabStop.Grammar.Template

/-!
# Elements of a snippet

A source is a row of elements. The rules are tried in a fixed order: escapes, `$1` and `$name`, tab
stops in braces, variables in braces, code blocks; and any token is text if nothing else fits. So
every source can be read, and what fits no rule is text.

A default, `${1:...}`, holds elements up to its closing brace. Where that brace is missing, the
opening of the tab stop is text and the elements of the default stand in its place.
-/

namespace TabStop.Grammar

/-! ## Rules without elements inside -/

/-- Marks that a backslash makes plain text. -/
def isEscape (d : Dialect) : Mark → Bool
  | .dollar | .braceClose | .backslash => true
  | .backtick | .braceOpen => d.isUltiSnips
  | _ => false

/-- A backslash: before a mark that can be escaped it is dropped, else it stands for itself. -/
def escaped (d : Dialect) : (ts : List Token) → Option (Taken (List Event) ts)
  | .mark .backslash :: .mark m :: rest =>
    if isEscape d m then some (Taken.one [.text (String.singleton m.char)] _ rest).cons
    else some (.one [.text "\\"] _ _)
  | .mark .backslash :: rest => some (.one [.text "\\"] _ rest)
  | _ => none

/-- Indexes that are written in source are below this bound. -/
def indexBound : Nat := 4294967296

/-- A tab stop with the index that digits stand for, unless that is too great. -/
def placeholder? (digits : String) : Option Placeholder :=
  (indexBelow? indexBound digits).map fun n => { index := .ofNat n }

/-- `$1` or `$name`. -/
def short (d : Dialect) : (ts : List Token) → Option (Taken (List Event) ts)
  | .mark .dollar :: .digits ds :: rest =>
    (placeholder? ds).map fun p => (Taken.one (Event.leaf (.placeholder p)) _ rest).cons
  | .mark .dollar :: .word name :: rest =>
    if d.acceptsVariable name then some (Taken.one (Event.leaf (.var { name })) _ rest).cons
    else none
  | _ => none

/-- The first token as text. -/
def anyToken : (ts : List Token) → Option (Taken (List Event) ts)
  | [] => none
  | t :: rest => some (.one [.text t.text] t rest)

/-- The text of an option up to the comma or bar after it, which is left. Commas, bars and
backslashes in it are escaped; any other backslash stands for itself. -/
def optionText : List Token → Option (List Char × List Token)
  | [] => none
  | .mark .comma :: ts => some ([], .mark .comma :: ts)
  | .mark .pipe :: ts => some ([], .mark .pipe :: ts)
  | .mark .backslash :: .mark .comma :: ts => do
    let (cs, rest) ← optionText ts
    return (',' :: cs, rest)
  | .mark .backslash :: .mark .pipe :: ts => do
    let (cs, rest) ← optionText ts
    return ('|' :: cs, rest)
  | .mark .backslash :: .mark .backslash :: ts => do
    let (cs, rest) ← optionText ts
    return ('\\' :: cs, rest)
  | t :: ts => do
    let (cs, rest) ← optionText ts
    return (t.text.toList ++ cs, rest)

theorem optionText_noLonger {ts rest : List Token} {cs : List Char}
    (h : optionText ts = some (cs, rest)) : rest.length ≤ ts.length := by
  fun_induction optionText ts generalizing cs rest <;>
    simp_all [Option.bind_eq_some_iff, Prod.exists] <;> grind

/-- The options of a choice after its first bar, up to the bar and the brace that end it. No option
is empty. -/
def options (ts : List Token) : Option (Taken (List String) ts) :=
  match h : optionText ts with
  | none => none
  | some (cs, rest) =>
    if cs.isEmpty then none
    else match rest, optionText_noLonger h with
      | .mark .comma :: more, hr =>
        have : more.length < ts.length := hr
        (options more).map fun r =>
          (r.map (String.ofList cs :: ·)).behind (Nat.le_of_lt hr)
      | .mark .pipe :: .mark .braceClose :: more, hr =>
        some ⟨[String.ofList cs], more, Nat.lt_of_succ_lt hr⟩
      | _, _ => none
termination_by ts.length

/-! ## Rules with elements inside -/

/-- The events of elements up to the end of a default: whether there was a brace to close it, and the
tokens after it. -/
structure Default (ts : List Token) where
  events : List Event
  closed : Bool
  rest : List Token
  noLonger : rest.length ≤ ts.length

/-- The tokens of a default, together with the token that opens it. -/
def Default.taken {α : Type} {ts : List Token} {first : Token} (b : Default ts) (value : α) :
    Taken α (first :: ts) :=
  ⟨value, b.rest, Nat.lt_succ_of_le b.noLonger⟩

/-- Reads the default that tokens begin with. -/
abbrev ReadDefault (ts : List Token) : Type :=
  (us : List Token) → us.length < ts.length → Default us

/-- The events of a node with a default; of the opening and the default if it does not end. -/
def withDefault (m : Marker) (opening : String) {ts : List Token} (b : Default ts) : List Event :=
  if b.closed then .start m :: b.events ++ [.finish] else .text opening :: b.events

/-- `${1}`, `${1:default}`, `${1|a,b|}` or `${1/pattern/template/flags}`. The final tab stop has no
choice. -/
def placeholder (d : Dialect) (ts : List Token) (readDefault : ReadDefault ts) :
    Option (Taken (List Event) ts) :=
  match ts, readDefault with
  | .mark .dollar :: .mark .braceOpen :: .digits ds :: rest, readDefault =>
    match placeholder? ds with
    | none => none
    | some p =>
      match rest, readDefault with
      | .mark .colon :: more, readDefault =>
        let b := readDefault more (by simp only [List.length_cons]; omega)
        some (b.taken (withDefault (.placeholder p) ("$\x7b" ++ ds ++ ":") b)).cons.cons.cons
      | .mark .pipe :: more, _ =>
        if p.index.isFinal then none
        else (options more).map fun r =>
          (r.map fun os =>
            .start (.placeholder p) :: Event.leaf (.choice ⟨os⟩) ++ [.finish]).cons.cons.cons.cons
      | .mark .slash :: more, _ =>
        (transform d more).map fun r =>
          (r.map fun t =>
            Event.leaf (.placeholder { p with transform := some t })).cons.cons.cons.cons
      | .mark .braceClose :: more, _ =>
        some (Taken.one (Event.leaf (.placeholder p)) _ more).cons.cons.cons
      | _, _ => none
  | _, _ => none

/-- `${name}`, `${name:default}` or `${name/pattern/template/flags}`. -/
def variableInBraces (d : Dialect) (ts : List Token) (readDefault : ReadDefault ts) :
    Option (Taken (List Event) ts) :=
  match ts, readDefault with
  | .mark .dollar :: .mark .braceOpen :: .word name :: rest, readDefault =>
    if !d.acceptsVariable name then none
    else
      match rest, readDefault with
      | .mark .colon :: more, readDefault =>
        let b := readDefault more (by simp only [List.length_cons]; omega)
        some (b.taken (withDefault (.var { name }) ("$\x7b" ++ name ++ ":") b)).cons.cons.cons
      | .mark .slash :: more, _ =>
        (transform d more).map fun r =>
          (r.map fun t => Event.leaf (.var { name, transform := some t })).cons.cons.cons.cons
      | .mark .braceClose :: more, _ =>
        some (Taken.one (Event.leaf (.var { name })) _ more).cons.cons.cons
      | _, _ => none
  | _, _ => none

mutual

/-- One element; none at the end of the tokens. -/
def element (d : Dialect) (ts : List Token) : Option (Taken (List Event) ts) :=
  escaped d ts
    <|> short d ts
    <|> placeholder d ts (fun us _h => defaultElements d us)
    <|> variableInBraces d ts (fun us _h => defaultElements d us)
    <|> codeBlock d ts
    <|> anyToken ts
termination_by (ts.length, 0)

/-- The elements up to the brace that closes a default, or up to the end of the tokens. -/
def defaultElements (d : Dialect) (ts : List Token) : Default ts :=
  match ts with
  | .mark .braceClose :: rest => ⟨[], true, rest, Nat.le_succ _⟩
  | ts =>
    match element d ts with
    | none => ⟨[], false, ts, Nat.le_refl _⟩
    | some e =>
      have := e.shorter
      let b := defaultElements d e.rest
      ⟨e.value ++ b.events, b.closed, b.rest, by have := b.noLonger; omega⟩
termination_by (ts.length, 1)

end

/-- The elements of a whole source. -/
def elements (d : Dialect) (ts : List Token) : List Event :=
  match element d ts with
  | none => []
  | some e =>
    have := e.shorter
    e.value ++ elements d e.rest
termination_by ts.length

end TabStop.Grammar

namespace TabStop.Event

/-- The events of a source. -/
def ofSource (d : Dialect) (source : String) : List Event :=
  Grammar.elements d (Token.ofSource source)

end TabStop.Event
