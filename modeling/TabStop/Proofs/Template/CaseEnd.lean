import Mathlib
import TabStop.Proofs.Template.CaseFolding

/-!
# Where the case of a text stops

A text with case directives is read from left to right in pairs. Reading can be taken apart between
two pairs, so it is only a backslash with no partner at the end of the first part that could take up
something of the second.

`\E` ends the case that lasts, but not the one that `\u` or `\l` gave the next character. Where
none of these waits, what follows `\E` is read and written as if nothing stood before it.
-/

namespace TabStop

namespace Segment

/-! ## Pairs -/

/-- The letters that make a directive of the backslash before them. -/
def directiveLetters : List Char := ['u', 'l', 'U', 'L', 'E', 'n', 't']

theorem mem_directiveLetters {c : Char} :
    c ∈ directiveLetters ↔ ∃ d, CaseDirective.ofLetter? c = some d := by
  constructor
  · intro h
    simp only [directiveLetters, List.mem_cons, List.not_mem_nil, or_false] at h
    rcases h with rfl | rfl | rfl | rfl | rfl | rfl | rfl <;> exact ⟨_, rfl⟩
  · rintro ⟨d, hd⟩
    rw [← CaseDirective.letter_of_ofLetter? hd]
    cases d <;> decide

/-- A text from left to right in pairs: a backslash goes with the next character if that is a
backslash or the letter of a directive. Every other character stays alone. -/
def pairs : List Char → List (List Char)
  | [] => []
  | '\\' :: '\\' :: cs => ['\\', '\\'] :: pairs cs
  | '\\' :: c :: cs =>
    if c ∈ directiveLetters then ['\\', c] :: pairs cs else ['\\'] :: pairs (c :: cs)
  | c :: cs => [c] :: pairs cs

/-- A pair is a directive if its second character is the letter of one. -/
def IsDirectivePair (p : List Char) : Prop := p ∈ directiveLetters.map (['\\', ·])

instance : DecidablePred IsDirectivePair := fun p =>
  inferInstanceAs (Decidable (p ∈ directiveLetters.map (['\\', ·])))

/-- The last backslash has no partner. -/
def EndsUnpaired (ps : List (List Char)) : Prop := ps.getLast? = some ['\\']

instance (ps : List (List Char)) : Decidable (EndsUnpaired ps) :=
  inferInstanceAs (Decidable (_ = _))

/-- A `\u` or `\l` still waits for a character: nothing but directives comes after it. -/
def LeavesPending (ps : List (List Char)) : Prop :=
  ['\\', 'u'] ∈ ps.rtakeWhile (IsDirectivePair ·) ∨ ['\\', 'l'] ∈ ps.rtakeWhile (IsDirectivePair ·)

instance (ps : List (List Char)) : Decidable (LeavesPending ps) :=
  inferInstanceAs (Decidable (_ ∨ _))

theorem EndsUnpaired.cons {ps : List (List Char)} (h : EndsUnpaired ps) (p : List Char) :
    EndsUnpaired (p :: ps) := by
  unfold EndsUnpaired at h ⊢
  rw [List.getLast?_cons, h, Option.getD_some]

/-- Two texts are read one after the other, unless the first one ends in a backslash that the second
one could give a partner. -/
theorem pairs_append {cs : List Char} (h : ¬EndsUnpaired (pairs cs)) (ds : List Char) :
    pairs (cs ++ ds) = pairs cs ++ pairs ds := by
  fun_induction pairs cs with
  | case1 => rfl
  | case2 cs ih => simp [pairs, ih fun hend => h (hend.cons _)]
  | case3 c cs hc hletter ih =>
    have htail := ih fun hend => h (hend.cons _)
    simp [pairs, hletter, htail]
  | case4 c cs hc hletter ih =>
    have htail := ih fun hend => h (hend.cons _)
    simpa [pairs, hletter] using htail
  | case5 c cs hpair hletter ih =>
    have htail := ih fun hend => h (hend.cons _)
    -- A backslash that is the whole text is the case that the hypothesis is about
    have hne : c ≠ '\\' := by
      rintro rfl
      cases cs with
      | nil => exact h rfl
      | cons d cs => exact hletter d cs rfl rfl
    simp [pairs, hne, htail]

/-! ## The segments that pairs stand for -/

/-- A directive as a pair, and any other pair as its own characters. -/
def ofPair (p : List Char) : Segment :=
  match p with
  | ['\\', c] => (CaseDirective.ofLetter? c).elim (text (String.ofList p)) directive
  | _ => text (String.ofList p)

theorem ofPair_of_letter {c : Char} {d : CaseDirective} (h : CaseDirective.ofLetter? c = some d) :
    ofPair ['\\', c] = directive d := by
  simp [ofPair, h]

theorem isDirectivePair_iff {p : List Char} :
    IsDirectivePair p ↔ ∃ d : CaseDirective, p = ['\\', d.letter] := by
  constructor
  · intro h
    obtain ⟨c, hc, rfl⟩ := List.mem_map.1 h
    obtain ⟨d, hd⟩ := mem_directiveLetters.1 hc
    exact ⟨d, by rw [CaseDirective.letter_of_ofLetter? hd]⟩
  · rintro ⟨d, rfl⟩
    apply List.mem_map_of_mem
    exact mem_directiveLetters.2 ⟨d, CaseDirective.ofLetter?_letter d⟩

theorem ofPair_of_not_directive {p : List Char} (h : ¬IsDirectivePair p) :
    ofPair p = text (String.ofList p) := by
  unfold ofPair
  split
  next c =>
    cases hd : CaseDirective.ofLetter? c with
    | none => rfl
    | some d =>
      have hletter : c ∈ directiveLetters := mem_directiveLetters.2 ⟨d, hd⟩
      exact absurd (List.mem_map_of_mem hletter) h
  next => rfl

theorem ofPair_letter (d : CaseDirective) : ofPair ['\\', d.letter] = directive d :=
  ofPair_of_letter (CaseDirective.ofLetter?_letter d)

/-- The segments of a text are its pairs. -/
theorem read_eq_map_pairs (cs : List Char) : read cs = (pairs cs).map ofPair := by
  fun_induction pairs cs with
  | case1 => rfl
  | case2 cs ih =>
    rw [read, ih, List.map_cons]
    rfl
  | case3 c cs hc hletter ih =>
    obtain ⟨d, hd⟩ := mem_directiveLetters.1 hletter
    simp [read, hd, ih, ofPair_of_letter hd]
  | case4 c cs hc hletter ih =>
    have hd : CaseDirective.ofLetter? c = none :=
      Option.eq_none_iff_forall_ne_some.2 fun d hd => hletter (mem_directiveLetters.2 ⟨d, hd⟩)
    simp only [read, hd, ih, List.map_cons]
    rfl
  | case5 c cs hpair hletter ih =>
    -- A single character is no directive, be it a backslash at the end
    rw [List.map_cons, ← ih, ofPair_of_not_directive (by simp [isDirectivePair_iff])]
    exact read.eq_4 c cs hpair hletter

theorem pairs_ne_nil {cs p : List Char} (h : p ∈ pairs cs) : p ≠ [] := by
  fun_induction pairs cs with
  | case1 => simp at h
  | case2 | case3 | case4 | case5 => grind

/-- Texts hold no directive if none of their pairs is one. -/
theorem holdsDirective_iff {cs : List Char} :
    HoldsDirective cs ↔ ∃ p ∈ pairs cs, IsDirectivePair p := by
  unfold HoldsDirective
  rw [read_eq_map_pairs]
  constructor
  · rintro ⟨d, hd⟩
    obtain ⟨p, hp, hpair⟩ := List.mem_map.1 hd
    refine ⟨p, hp, ?_⟩
    by_contra hnot
    rw [ofPair_of_not_directive hnot] at hpair
    cases hpair
  · rintro ⟨p, hp, hdirective⟩
    obtain ⟨d, rfl⟩ := isDirectivePair_iff.1 hdirective
    exact ⟨d, List.mem_map.2 ⟨_, hp, ofPair_letter d⟩⟩

/-! ## The cases in force after pairs -/

/-- The case of the next character is given if and only if a directive for it waits. -/
theorem next_afterAll_eq_none_iff {ps : List (List Char)} (hne : ∀ p ∈ ps, p ≠ []) :
    (CaseState.afterAll {} (ps.map ofPair)).next = none ↔ ¬LeavesPending ps := by
  -- The last pair decides, or the ones before it do if it is another directive
  induction ps using List.reverseRecOn with
  | nil => simp [CaseState.afterAll, LeavesPending]
  | append_singleton ps p ih =>
    have ih' := ih fun q hq => hne q (List.mem_append_left _ hq)
    rw [List.map_append, afterAll_append, List.map_singleton]
    by_cases hp : IsDirectivePair p
    · obtain ⟨d, rfl⟩ := isDirectivePair_iff.1 hp
      have hwhile : (ps ++ [['\\', d.letter]]).rtakeWhile (IsDirectivePair ·) =
          ps.rtakeWhile (IsDirectivePair ·) ++ [['\\', d.letter]] :=
        List.rtakeWhile_concat_pos _ _ _ (by simpa using hp)
      rw [ofPair_letter]
      unfold LeavesPending at ih' ⊢
      rw [hwhile]
      cases d <;> simp [CaseState.afterAll, CaseState.after, CaseDirective.letter, ih']
    · have hwhile : (ps ++ [p]).rtakeWhile (IsDirectivePair ·) = [] :=
        List.rtakeWhile_concat_neg _ _ _ (by simpa using hp)
      have htext : (CaseState.afterText (CaseState.afterAll {} (ps.map ofPair)) p).next = none := by
        cases p with
        | nil => exact absurd rfl (hne [] (by simp))
        | cons c cs => rfl
      rw [ofPair_of_not_directive hp]
      simp [CaseState.afterAll, LeavesPending, hwhile, htext]

/-- A stop that no directive for the next character gets past puts everything back as it was at the
start. -/
theorem foldFrom_read_append_stop {cs : List Char} (hend : ¬EndsUnpaired (pairs cs))
    (hnext : ¬LeavesPending (pairs cs)) (ds : List Char) :
    foldFrom {} (read (cs ++ '\\' :: 'E' :: ds)) =
      foldFrom {} (read cs) ++ foldFrom {} (read ds) := by
  have hread : read (cs ++ '\\' :: 'E' :: ds) = read cs ++ directive .stop :: read ds := by
    simp only [read_eq_map_pairs]
    rw [pairs_append hend, List.map_append]
    rfl
  -- The stop leaves the case of the next character as it is, so none may be given by then
  have hnone : (CaseState.afterAll {} (read cs)).next = none := by
    rw [read_eq_map_pairs]
    exact (next_afterAll_eq_none_iff fun p => pairs_ne_nil).2 hnext
  have hstart : (CaseState.afterAll {} (read cs)).after .stop = {} := by
    simp [CaseState.after, hnone]
  rw [hread, foldFrom_append, foldFrom, hstart]
  rfl

end Segment

open Segment

/-- Case directives are local up to `\E`. Let a text be read in pairs. If it does not end in a
backslash without a partner and leaves no `\u` or `\l` pending, then what it shows before `\E` and
another text is what the two of them show one after the other. And it is just a text with no
directive among its pairs that is left as it is, whatever backslashes it holds. -/
theorem applyCaseDirectives_append_stop (a : String) :
    (¬EndsUnpaired (pairs a.toList) → ¬LeavesPending (pairs a.toList) → ∀ b : String,
      applyCaseDirectives (a ++ "\\E" ++ b) = applyCaseDirectives a ++ applyCaseDirectives b) ∧
    (applyCaseDirectives a = a ↔ ∀ p ∈ pairs a.toList, ¬IsDirectivePair p) := by
  constructor
  · intro hend hnext b
    have htoList : (a ++ "\\E" ++ b).toList = a.toList ++ '\\' :: 'E' :: b.toList := by
      simp [String.toList_append]
    unfold applyCaseDirectives fold
    rw [htoList, foldFrom_read_append_stop hend hnext, String.ofList_append]
  · -- A directive is not shown, so that a text with one comes out shorter
    have hself : applyCaseDirectives a = a ↔ foldFrom {} (read a.toList) = a.toList := by
      rw [← String.toList_inj, applyCaseDirectives, fold, String.toList_ofList]
    rw [hself, foldFrom_read_eq_self_iff, holdsDirective_iff]
    push Not
    rfl

/-- What is before `\E` may hold pairs of backslashes, and a backslash before a letter that starts
no directive. -/
theorem applyCaseDirectives_append_stop_of_runs :
    applyCaseDirectives ("\\Uab\\\\ue\\x" ++ "\\E" ++ "b\\ucd") = "AB\\\\UE\\XbCd" := by
  have happend := (applyCaseDirectives_append_stop "\\Uab\\\\ue\\x").1
    (by decide +kernel) (by decide +kernel) "b\\ucd"
  have hfirst : applyCaseDirectives "\\Uab\\\\ue\\x" = "AB\\\\UE\\X" := by
    simp [applyCaseDirectives, Segment.read, CaseDirective.ofLetter?, fold, foldFrom, applyCase,
      written, CaseState.after, CaseState.afterText, Case.apply, Unicode.upper_of_ascii]
  have hlast : applyCaseDirectives "b\\ucd" = "bCd" := by
    simp [applyCaseDirectives, Segment.read, CaseDirective.ofLetter?, fold, foldFrom, applyCase,
      written, CaseState.after, CaseState.afterText, Case.apply, Unicode.upper_of_ascii]
  rw [happend, hfirst, hlast]
  rfl

end TabStop
