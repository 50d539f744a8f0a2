/-!
# Values of a TOML document

A document is a table, and tables are built up piece by piece: by headers, by keys with dots in them,
and by tables in braces. Which pieces may add to a table hangs on what made it, so each table
remembers that.
-/

namespace TabStop.Toml

/-- What made a table. -/
inductive TableKind where
  /-- A header `[a]`, or the document itself. -/
  | header
  /-- A header of a table inside it, `[a.b]`; a header of its own may follow. -/
  | implied
  /-- A key with dots, `a.b = 1`. -/
  | dotted
  /-- Braces; nothing may be added. -/
  | inline
  deriving DecidableEq, Repr

/-- A value. Numbers and dates are kept as they are written. -/
inductive Value where
  | string (s : String)
  | boolean (b : Bool)
  | number (text : String)
  | dateTime (text : String)
  | array (items : List Value)
  | table (kind : TableKind) (entries : List (String × Value))
  /-- The tables that headers `[[a]]` make. -/
  | tables (elements : List (List (String × Value)))

/-- The keys and values of a table in the order in which they were made. -/
abbrev Entries := List (String × Value)

namespace Entries

/-- Gives a key a value, in the place of the one that it has. -/
def put (k : String) (v : Value) : Entries → Entries
  | [] => [(k, v)]
  | (j, w) :: es => if j = k then (k, v) :: es else (j, w) :: put k v es

/-- Changes the table at the end of a path. Tables that are missing on the way are made, by a dotted
key if `dotted` says so. A dotted key does not go through a table that has a header, and nothing goes
through a table in braces. -/
def changeAt (dotted : Bool) (change : TableKind → Entries → Option Entries) :
    List String → TableKind → Entries → Option Entries
  | [], kind, es => change kind es
  | k :: ks, _, es =>
    match es.lookup k with
    | none => do
      let kind := if dotted then .dotted else .implied
      return es.put k (.table kind (← changeAt dotted change ks kind []))
    | some (.table kind inner) =>
      if kind = .inline ∨ (dotted = true ∧ kind = .header) then none
      else do return es.put k (.table kind (← changeAt dotted change ks kind inner))
    | some (.tables elements) =>
      match elements.getLast? with
      | some last => do
        let last ← changeAt dotted change ks .header last
        return es.put k (.tables (elements.dropLast ++ [last]))
      | none => none
    | some _ => none

/-- Adds a value to a table, below a path of dotted keys. A table that was made otherwise is not added
to by dotted keys, and no key gets a second value. -/
def addValue (path : List String) (k : String) (v : Value) (kind : TableKind) (es : Entries) :
    Option Entries :=
  changeAt true (fun kind es =>
    if kind = .dotted ↔ path = [] then none
    else if (es.lookup k).isSome then none
    else some (es.put k v)) path kind es

/-- Makes the table of a header. A table that has only been implied gets its header that way. -/
def addHeader (k : String) (_ : TableKind) (es : Entries) : Option Entries :=
  match es.lookup k with
  | none => some (es.put k (.table .header []))
  | some (.table .implied inner) => some (es.put k (.table .header inner))
  | some _ => none

/-- Makes a further table of a header in double brackets. -/
def addElement (k : String) (_ : TableKind) (es : Entries) : Option Entries :=
  match es.lookup k with
  | none => some (es.put k (.tables [[]]))
  | some (.tables elements) => some (es.put k (.tables (elements ++ [[]])))
  | some _ => none

end Entries

end TabStop.Toml
