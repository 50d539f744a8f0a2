import Mathlib
import TabStop.Transform

/-!
# Applying case directives

A case form of a character is made of letters and of characters beyond ASCII, so no backslash and no
backtick comes or goes when the case of a text is changed. That is seen from the entries of the case
tables, one by one.

Directives themselves are dropped. So a text is what it shows if and only if no directive is in it.
-/

namespace TabStop

/-! ## Entries of a table -/

namespace Table

/-- The entries in the characters of a table behind the characters that an entry has so far, last
first. -/
def entriesFrom (entry : List Char) : List Char → List (List Char)
  | [] => if entry.isEmpty then [] else [entry.reverse]
  | c :: cs =>
    if c = ' ' ∨ c = '\n' then
      if entry.isEmpty then entriesFrom [] cs else entry.reverse :: entriesFrom [] cs
    else entriesFrom (c :: entry) cs

/-- The loop over a table keeps the entries that are done, last first. -/
private theorem foldl_entries (cs entry : List Char) (done : List (List Char)) :
    let close (done : List (List Char)) (entry : List Char) : List (List Char) :=
      if entry.isEmpty then done else entry.reverse :: done
    let (done', entry') := cs.foldl
      (fun (done, entry) c =>
        if c = ' ' ∨ c = '\n' then (close done entry, []) else (done, c :: entry))
      (done, entry)
    (close done' entry').reverse = done.reverse ++ entriesFrom entry cs := by
  induction cs generalizing entry done with
  | nil => by_cases h : entry.isEmpty <;> simp [entriesFrom, h]
  | cons c cs ih =>
    simp only [List.foldl_cons, entriesFrom]
    split
    · rw [ih]
      by_cases h : entry.isEmpty <;> simp [h]
    · exact ih (c :: entry) done

theorem entries_eq (text : String) : entries text = entriesFrom [] text.toList :=
  foldl_entries text.toList [] []

end Table

namespace Unicode

open Table

/-- No image of a stretch stands between the upper-case and the lower-case letters of ASCII. -/
def CaseRun.PassesOver (r : CaseRun) : Prop :=
  ∀ t ∈ r.image, t + (r.hi - r.lo) < 0x5B ∨ 0x60 < t

/-- What that says of the entries of a table, in terms that can be computed. -/
theorem passesOver_readCaseRuns {text : String}
    (h : ∀ entry ∈ entriesFrom [] text.toList,
      ∀ n ∈ ((entry.dropWhile (· ≠ '=')).drop 1).splitOn ',',
        hex n + ((readCaseRun entry).hi - (readCaseRun entry).lo) < 0x5B ∨ 0x60 < hex n) :
    ∀ r ∈ readCaseRuns text, r.PassesOver := by
  intro r hr
  obtain ⟨entry, hentry, rfl⟩ : ∃ entry ∈ entries text, readCaseRun entry = r := by
    simpa [readCaseRuns] using hr
  rw [entries_eq] at hentry
  intro t ht
  obtain ⟨n, hn, rfl⟩ : ∃ n ∈ ((entry.dropWhile (· ≠ '=')).drop 1).splitOn ',', hex n = t := by
    simpa [readCaseRun, hexList, splitEntry] using ht
  exact h entry hentry n hn

set_option maxRecDepth 20000 in
theorem passesOver_runs :
    (∀ r ∈ upperRuns, r.PassesOver) ∧ ∀ r ∈ lowerRuns, r.PassesOver := by
  refine ⟨passesOver_readCaseRuns ?_, passesOver_readCaseRuns ?_⟩
  · unfold upperForms
    rw [String.toList_ofList]
    decide +kernel
  · unfold lowerForms
    rw [String.toList_ofList]
    decide +kernel

theorem mem_of_findRun {runs : Array CaseRun} {n lo hi : Nat} {r : CaseRun}
    (h : findRun runs n lo hi = some r) : r ∈ runs := by
  fun_induction findRun runs n lo hi with
  | case1 => simp at h
  | case2 _ _ _ _ _ _ _ ih => exact ih h
  | case3 _ _ _ _ _ _ _ ih => exact ih h
  | case4 => exact Array.mem_of_getElem? h

/-- What is found in a table is found on a stretch. The image is the same all along it, unless it is
a single code point: then it is the image of where the stretch begins, and moves on along it. -/
theorem exists_of_lookUp {runs : Array CaseRun} {n : Nat} {ns : List Nat}
    (h : lookUp runs n = some ns) : ∃ r ∈ runs, r.lo ≤ n ∧ n ≤ r.hi ∧
      (ns = r.image ∨ ∃ t, r.image = [t] ∧ ns = [t + (n - r.lo)]) := by
  obtain ⟨r, hr, himage⟩ := Option.bind_eq_some_iff.1 h
  unfold CaseRun.image? at himage
  split at himage
  next => simp at himage
  next hn =>
    obtain rfl := Option.some.inj himage
    refine ⟨r, mem_of_findRun hr, by omega, by omega, ?_⟩
    split
    next t ht => exact Or.inr ⟨t, ht, rfl⟩
    next => exact Or.inl rfl

/-- An image in a table is that of a stretch, at the place that the code point has there. -/
theorem image_passesOver {runs : Array CaseRun} (hruns : ∀ r ∈ runs, r.PassesOver) {n : Nat}
    {ns : List Nat} (h : lookUp runs n = some ns) : ∀ t ∈ ns, t < 0x5B ∨ 0x60 < t := by
  obtain ⟨r, hr, hlo, hhi, rfl | ⟨t, ht, rfl⟩⟩ := exists_of_lookUp h
  · intro t ht
    have := hruns r hr t ht
    omega
  · have := hruns r hr t (by simp [ht])
    simp only [List.mem_singleton, forall_eq]
    omega

/-! ## Case forms -/

/-- Characters between the upper-case and the lower-case letters of ASCII. The backslash and the
backtick are two of them. -/
def IsBetween (c : Char) : Prop := 0x5B ≤ c.toNat ∧ c.toNat ≤ 0x60

instance (c : Char) : Decidable (IsBetween c) := inferInstanceAs (Decidable (_ ∧ _))

/-- The forms of a character in a case: just the character, or none of them is between the letters,
nor is the character. -/
def IsForm (c : Char) (forms : List Char) : Prop :=
  forms = [c] ∨ ¬IsBetween c ∧ ∀ x ∈ forms, ¬IsBetween x

theorem isForm_map {c : Char} (hc : ¬c.toNat < 0x80) {ns : List Nat}
    (h : ∀ t ∈ ns, t < 0x5B ∨ 0x60 < t) : IsForm c (ns.map Char.ofNat) := by
  refine Or.inr ⟨fun hb => by unfold IsBetween at hb; omega, fun x hx => ?_⟩
  obtain ⟨t, ht, rfl⟩ := List.mem_map.1 hx
  have := h t ht
  -- A number that is no code point of a character stands for the character zero
  by_cases hvalid : t.isValidChar
  · have htoNat : (Char.ofNat t).toNat = t := by
      simp [Char.ofNat, hvalid, Char.ofNatAux, Char.toNat]
    unfold IsBetween
    omega
  · simp [Char.ofNat, hvalid, IsBetween, Char.toNat]

theorem isForm_toUpper (c : Char) : IsForm c [c.toUpper] := by
  unfold Char.toUpper
  split
  next h =>
    have hlo : 97 ≤ c.val.toNat := UInt32.le_iff_toNat_le.1 h.1
    have hhi : c.val.toNat ≤ 122 := UInt32.le_iff_toNat_le.1 h.2
    have hval : (c.val + ('A'.val - 'a'.val)).toNat = c.val.toNat - 32 := by
      have hA : 'A'.val.toNat = 65 := rfl
      have ha : 'a'.val.toNat = 97 := rfl
      simp only [UInt32.toNat_add, UInt32.toNat_sub]
      omega
    simp only [IsForm, IsBetween, Char.toNat, List.mem_singleton, forall_eq, hval]
    omega
  next => exact Or.inl rfl

theorem isForm_toLower (c : Char) : IsForm c [c.toLower] := by
  unfold Char.toLower
  split
  next h =>
    have hlo : 65 ≤ c.val.toNat := UInt32.le_iff_toNat_le.1 h.1
    have hhi : c.val.toNat ≤ 90 := UInt32.le_iff_toNat_le.1 h.2
    have hval : (c.val + ('a'.val - 'A'.val)).toNat = c.val.toNat + 32 := by
      have hA : 'A'.val.toNat = 65 := rfl
      have ha : 'a'.val.toNat = 97 := rfl
      simp only [UInt32.toNat_add, UInt32.toNat_sub]
      omega
    simp only [IsForm, IsBetween, Char.toNat, List.mem_singleton, forall_eq, hval]
    omega
  next => exact Or.inl rfl

theorem upper_of_ascii {c : Char} (h : c.toNat < 0x80) : upper c = [c.toUpper] := if_pos h

theorem lower_of_ascii {c : Char} (h : c.toNat < 0x80) : lower c = [c.toLower] := if_pos h

theorem isForm_upper (c : Char) : IsForm c (upper c) := by
  unfold upper
  split
  next => exact isForm_toUpper c
  next hc =>
    split
    next ns hns => exact isForm_map hc (image_passesOver passesOver_runs.1 hns)
    next => exact Or.inl rfl

theorem isForm_lower (c : Char) : IsForm c (lower c) := by
  unfold lower
  split
  next => exact isForm_toLower c
  next hc =>
    split
    next ns hns => exact isForm_map hc (image_passesOver passesOver_runs.2 hns)
    next => exact Or.inl rfl

theorem IsForm.count_eq {c a : Char} {forms : List Char} (h : IsForm c forms) (ha : IsBetween a) :
    forms.count a = [c].count a := by
  rcases h with rfl | ⟨hc, hforms⟩
  · rfl
  · have hne : a ≠ c := fun he => hc (he ▸ ha)
    rw [List.count_eq_zero.2 fun hmem => hforms a hmem ha,
      List.count_eq_zero.2 (by simpa using hne)]

end Unicode

theorem CaseDirective.letter_of_ofLetter? {c : Char} {d : CaseDirective}
    (h : ofLetter? c = some d) : d.letter = c := by
  unfold ofLetter? at h
  split at h <;> cases h <;> rfl

namespace Segment

open Unicode

/-! ## Folding -/

/-- The characters of the texts among segments. -/
def texts : List Segment → List Char
  | [] => []
  | .text s :: rest => s.toList ++ texts rest
  | .directive _ :: rest => texts rest

theorem isForm_apply (k : Option Case) (c : Char) : IsForm c (Case.apply k c) := by
  rcases k with _ | _ | _
  · exact Or.inl rfl
  · exact isForm_upper c
  · exact isForm_lower c

theorem count_applyCase {a : Char} (ha : IsBetween a) (s : CaseState) (cs : List Char) :
    (applyCase s cs).count a = cs.count a := by
  have hlasting (cs : List Char) : (cs.flatMap (Case.apply s.lasting)).count a = cs.count a := by
    induction cs with
    | nil => rfl
    | cons c cs ih =>
      rw [List.flatMap_cons, List.count_append, ih, (isForm_apply s.lasting c).count_eq ha,
        ← List.count_append, List.singleton_append]
  cases cs with
  | nil => rfl
  | cons c cs =>
    rw [applyCase, List.count_append, hlasting, (isForm_apply _ c).count_eq ha,
      ← List.count_append, List.singleton_append]

/-- No backslash and no backtick comes or goes with the case of texts. -/
theorem count_foldFrom {a : Char} (ha : IsBetween a) (s : CaseState) (segments : List Segment) :
    (foldFrom s segments).count a = (texts segments).count a := by
  induction segments generalizing s with
  | nil => rfl
  | cons segment rest ih =>
    cases segment with
    | text t => rw [foldFrom, texts, List.count_append, List.count_append, count_applyCase ha, ih]
    | directive d =>
      have hwritten : (written d).count a = 0 := by
        refine List.count_eq_zero.2 fun hmem => ?_
        cases d <;> simp [written] at hmem <;> simp [hmem, IsBetween] at ha
      rw [foldFrom, texts, List.count_append, hwritten, ih, Nat.zero_add]

@[simp] theorem afterText_default (cs : List Char) : CaseState.afterText {} cs = {} := by
  cases cs <;> rfl

@[simp] theorem applyCase_default (cs : List Char) : applyCase {} cs = cs := by
  have hplain (cs : List Char) : cs.flatMap (Case.apply none) = cs := List.flatMap_singleton' cs
  cases cs <;> simp [applyCase, hplain, Case.apply]

theorem afterText_append (s : CaseState) (cs ds : List Char) :
    s.afterText (cs ++ ds) = (s.afterText cs).afterText ds := by
  cases cs <;> cases ds <;> rfl

theorem applyCase_append (s : CaseState) (cs ds : List Char) :
    applyCase s (cs ++ ds) = applyCase s cs ++ applyCase (s.afterText cs) ds := by
  cases cs with
  | nil => rfl
  | cons c cs => cases ds <;> simp [applyCase, CaseState.afterText]

/-- The cases in force after segments. -/
def CaseState.afterAll (s : CaseState) : List Segment → CaseState
  | [] => s
  | .text t :: rest => (s.afterText t.toList).afterAll rest
  | .directive d :: rest => (s.after d).afterAll rest

theorem foldFrom_append (s : CaseState) (segments rest : List Segment) :
    foldFrom s (segments ++ rest) = foldFrom s segments ++ foldFrom (s.afterAll segments) rest := by
  induction segments generalizing s with
  | nil => rfl
  | cons segment segments ih =>
    cases segment with
    | text t => simp [foldFrom, CaseState.afterAll, ih]
    | directive d => simp [foldFrom, CaseState.afterAll, ih]

theorem afterAll_append (s : CaseState) (segments rest : List Segment) :
    s.afterAll (segments ++ rest) = (s.afterAll segments).afterAll rest := by
  induction segments generalizing s with
  | nil => rfl
  | cons segment segments ih =>
    cases segment with
    | text t => exact ih (s.afterText t.toList)
    | directive d => exact ih (s.after d)

/-- Where there is no directive, there is no case to apply. -/
theorem foldFrom_of_no_directive {segments : List Segment} (h : ∀ d, directive d ∉ segments) :
    foldFrom {} segments = texts segments := by
  induction segments with
  | nil => rfl
  | cons segment rest ih =>
    have hrest := ih fun d hd => h d (List.mem_cons_of_mem _ hd)
    cases segment with
    | text t => rw [foldFrom, texts, applyCase_default, afterText_default, hrest]
    | directive d => exact absurd (List.mem_cons_self ..) (h d)

/-! ## Reading -/

/-- How segments are written out in a text. -/
def spelled : List Segment → List Char
  | [] => []
  | .text s :: rest => s.toList ++ spelled rest
  | .directive d :: rest => '\\' :: d.letter :: spelled rest

/-- Reading takes a text apart and loses nothing. -/
theorem spelled_read (cs : List Char) : spelled (read cs) = cs := by
  fun_induction read cs with
  | case1 => rfl
  | case2 cs ih => simp [spelled, ih]
  | case3 c cs _ d hd ih =>
    have hletter : d.letter = c := CaseDirective.letter_of_ofLetter? hd
    simp [spelled, ih, hletter]
  | case4 c cs hc hd ih => simpa [spelled] using ih
  | case5 c cs _ _ ih => simp [spelled, ih]

/-- Where there is no directive, texts are all that is written. -/
theorem texts_of_no_directive {segments : List Segment} (h : ∀ d, directive d ∉ segments) :
    texts segments = spelled segments := by
  induction segments with
  | nil => rfl
  | cons segment rest ih =>
    have hrest := ih fun d hd => h d (List.mem_cons_of_mem _ hd)
    cases segment with
    | text t => rw [texts, spelled, hrest]
    | directive d => exact absurd (List.mem_cons_self ..) (h d)

theorem texts_sublist_spelled (segments : List Segment) :
    (texts segments).Sublist (spelled segments) := by
  induction segments with
  | nil => exact .slnil
  | cons segment rest ih =>
    cases segment with
    | text t => exact ih.append_left _
    | directive d => exact (ih.cons _).cons _

/-- A text holds a directive if one is read in it. -/
def HoldsDirective (cs : List Char) : Prop := ∃ d, directive d ∈ read cs

/-- The backslash of a directive is not in the texts. -/
theorem count_texts_lt {segments : List Segment} {d : CaseDirective}
    (h : directive d ∈ segments) : (texts segments).count '\\' < (spelled segments).count '\\' := by
  induction segments with
  | nil => simp at h
  | cons segment rest ih =>
    cases segment with
    | text t =>
      have := ih (by simpa using h)
      simpa [texts, spelled] using this
    | directive e =>
      have hle := (texts_sublist_spelled rest).count_le '\\'
      simp only [texts, spelled, List.count_cons_self]
      exact Nat.lt_succ_of_le (Nat.le_trans hle List.count_le_count_cons)

/-- The text that segments show holds no more backslashes and backticks than were written. -/
theorem count_fold_le {a : Char} (ha : IsBetween a) (cs : List Char) :
    (foldFrom {} (read cs)).count a ≤ cs.count a :=
  calc (foldFrom {} (read cs)).count a = (texts (read cs)).count a := count_foldFrom ha {} _
    _ ≤ (spelled (read cs)).count a := (texts_sublist_spelled _).count_le a
    _ = cs.count a := by rw [spelled_read]

/-- A text is what it shows if and only if there is no directive in it. -/
theorem foldFrom_read_eq_self_iff {cs : List Char} :
    foldFrom {} (read cs) = cs ↔ ¬HoldsDirective cs := by
  constructor
  · rintro h ⟨d, hd⟩
    have hlt := count_texts_lt hd
    rw [← count_foldFrom (by decide) {}, spelled_read, h] at hlt
    exact Nat.lt_irrefl _ hlt
  · intro h
    have hnone : ∀ d, directive d ∉ read cs := fun d hd => h ⟨d, hd⟩
    rw [foldFrom_of_no_directive hnone, texts_of_no_directive hnone, spelled_read]

end Segment

namespace Transform

/-! ## Output of a transform -/

variable {t : Transform} {input : String} {m : Pattern.Found} {ms : List Pattern.Found}

/-- Where there is no match nothing is given, -/
theorem resolve_of_not_found (h : t.replaced (t.subject input).toList = []) :
    t.resolve input = "" := by
  rw [resolve, h]

/-- and otherwise all segments are folded at once. -/
theorem resolve_of_found (h : t.replaced (t.subject input).toList = m :: ms) :
    t.resolve input =
      Segment.fold (outputFrom t.pieces (t.subject input).toList 0 (m :: ms)) := by
  rw [resolve, h]

end Transform

end TabStop
