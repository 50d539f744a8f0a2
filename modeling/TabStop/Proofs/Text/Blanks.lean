import TabStop.Proofs.Template.CaseFolding
import TabStop.Unicode.Category

/-!
# Which characters are blanks

The set of blanks is put together from the tables of categories and properties. It is ten ranges,
from which it can be told whether a given character is a blank.
-/

namespace TabStop.Unicode

open Table
open String.Pos (Raw)

/-! ## The row of the table -/

theorem property?_whiteSpace : property? "whitespace" =
    some (ofRow ⟨["whitespace", "wspace", "space"], "Zs Zl Zp", "9-D 85", ""⟩) := rfl

/-- Text that is split goes on where the next character is no blank. -/
theorem splitOnAux_skip {s : String} {start i : Raw} {parts : List String} (next : Raw)
    (h : Raw.atEnd s i = false ∧ (Raw.get s i == Raw.get " " 0) = false ∧
      Raw.next s (i.unoffsetBy 0) = next) :
    s.splitOnAux " " start i 0 parts = s.splitOnAux " " start next 0 parts := by
  obtain ⟨hend, hget, rfl⟩ := h
  rw [String.splitOnAux, if_neg (by simp [hend]), if_neg (by simp [hget])]

/-- Text that is split is cut where the next character is a blank. -/
theorem splitOnAux_cut {s : String} {start i : Raw} {parts : List String} (next : Raw)
    (part : String) (h : Raw.atEnd s i = false ∧ (Raw.get s i == Raw.get " " 0) = true ∧
      Raw.next s i = next ∧ Raw.extract s start (next.unoffsetBy (Raw.next " " 0)) = part) :
    s.splitOnAux " " start i 0 parts = s.splitOnAux " " next next 0 (part :: parts) := by
  obtain ⟨hend, hget, rfl, rfl⟩ := h
  rw [String.splitOnAux, if_neg (by simp [hend]), if_pos hget, if_pos (by decide)]

theorem splitOn_separators : "Zs Zl Zp".splitOn " " = ["Zs", "Zl", "Zp"] := by
  rw [String.splitOn, if_neg (by decide), splitOnAux_skip ⟨1⟩ (by decide),
    splitOnAux_skip ⟨2⟩ (by decide), splitOnAux_cut ⟨3⟩ "Zs" (by decide),
    splitOnAux_skip ⟨4⟩ (by decide), splitOnAux_skip ⟨5⟩ (by decide),
    splitOnAux_cut ⟨6⟩ "Zl" (by decide), splitOnAux_skip ⟨7⟩ (by decide),
    splitOnAux_skip ⟨8⟩ (by decide), String.splitOnAux, if_pos (by decide)]
  decide

/-! ## The ranges -/

/-- The ranges of those entries of a table of starts whose labels, as characters, satisfy `p`. -/
def runsWhere (p : List Char → Bool) : List (List Char) → List (Nat × Nat)
  | [] => []
  | [e] =>
    if p ((e.dropWhile (· ≠ '=')).drop 1) then [(hex (e.takeWhile (· ≠ '=')), CharSet.last)] else []
  | e :: f :: rest =>
    if p ((e.dropWhile (· ≠ '=')).drop 1) then
      (hex (e.takeWhile (· ≠ '=')), hex (f.takeWhile (· ≠ '=')) - 1) :: runsWhere p (f :: rest)
    else runsWhere p (f :: rest)

/-- Labels are told apart before they are put together as texts. -/
theorem filterMap_readRuns {labels : List String} {p : List Char → Bool}
    (hp : ∀ label, labels.contains (String.ofList label) = p label) (text : String) :
    ((readRuns text).filterMap fun (a, b, label) =>
      if labels.contains label then some (a, b) else none) =
        runsWhere p (entriesFrom [] text.toList) := by
  rw [readRuns, entries_eq]
  induction entriesFrom [] text.toList using runsWhere.induct p with
  | case1 => rfl
  | case2 e h | case3 e h =>
    simp only [List.map_cons, List.map_nil, splitEntry, runsOf, List.filterMap_cons,
      List.filterMap_nil, hp, runsWhere, h, if_true, Bool.false_eq_true, if_false]
  | case4 e f rest h ih | case5 e f rest h ih =>
    simp only [List.map_cons, splitEntry] at ih
    simp only [List.map_cons, splitEntry, runsOf, List.filterMap_cons, hp, runsWhere, h, ih,
      if_true, Bool.false_eq_true, if_false]

/-- The labels of separators are told by their first letter. -/
theorem contains_separators (label : List Char) :
    ["Zs", "Zl", "Zp"].contains (String.ofList label) =
      (label.head? == some 'Z' && [['s'], ['l'], ['p']].contains label.tail) := by
  have hlabel (cs : List Char) : (String.ofList label == String.ofList cs) = (label == cs) := by
    rw [Bool.eq_iff_iff, beq_iff_eq, beq_iff_eq, ← String.toList_inj, String.toList_ofList,
      String.toList_ofList]
  refine (congrArg₂ or (hlabel ['Z', 's'])
    (congrArg₂ or (hlabel ['Z', 'l']) (congrArg₂ or (hlabel ['Z', 'p']) rfl))).trans ?_
  cases label with
  | nil => rfl
  | cons c cs => simp [Bool.and_or_distrib_left, beq_eq_decide]

set_option maxRecDepth 50000 in
/-- The entries of the table of categories that are about separators. -/
theorem categoryRuns_separators : (categoryRuns.filterMap fun (a, b, label) =>
    if ["Zs", "Zl", "Zp"].contains label then some (a, b) else none) =
      [(0x20, 0x20), (0xA0, 0xA0), (0x1680, 0x1680), (0x2000, 0x200A), (0x2028, 0x2028),
        (0x2029, 0x2029), (0x202F, 0x202F), (0x205F, 0x205F), (0x3000, 0x3000)] := by
  rw [categoryRuns, filterMap_readRuns contains_separators]
  unfold categoryStarts
  rw [String.toList_ofList]
  decide +kernel

theorem ofCategories_separators : ofCategories ["Zs", "Zl", "Zp"] =
    ⟨#[(0x20, 0x20), (0xA0, 0xA0), (0x1680, 0x1680), (0x2000, 0x200A), (0x2028, 0x2029),
      (0x202F, 0x202F), (0x205F, 0x205F), (0x3000, 0x3000)]⟩ := by
  rw [ofCategories, select, categoryRuns_separators]
  cbv

/-- The blanks as ranges. -/
def blanks : CharSet :=
  ⟨#[(0x9, 0xD), (0x20, 0x20), (0x85, 0x85), (0xA0, 0xA0), (0x1680, 0x1680), (0x2000, 0x200A),
    (0x2028, 0x2029), (0x202F, 0x202F), (0x205F, 0x205F), (0x3000, 0x3000)]⟩

theorem whiteSpace_eq : whiteSpace = blanks := by
  rw [whiteSpace, property, property?_whiteSpace, Option.getD_some, ofRow]
  simp only [splitOn_separators, ofCategories_separators]
  cbv

theorem isSpace_eq (c : Char) : isSpace c = blanks.contains c := by rw [isSpace, whiteSpace_eq]

theorem isSpace_blank : isSpace ' ' := by rw [isSpace_eq]; cbv

theorem isSpace_lineFeed : isSpace '\n' := by rw [isSpace_eq]; cbv

theorem isSpace_return : isSpace '\r' := by rw [isSpace_eq]; cbv

theorem not_isSpace_backslash : isSpace '\\' = false := by rw [isSpace_eq]; cbv

theorem not_isSpace_backtick : isSpace '`' = false := by rw [isSpace_eq]; cbv

end TabStop.Unicode
