import TabStop.Proofs.Template.CaseFolding

/-!
# Directives that reach beyond their replacement

The output of a transform is put together from the stretches between the matches and a rendering of
the template for each match, and directives are applied to all of it at once. So a case that is left
open at the end of a rendering is given to the text after the match, and to the next rendering.

The output is what it would be with each rendering folded by itself exactly if no stretch and no
rendering comes out differently under the cases that are left open before it. One difference cannot
make up for another one: two forms of a character that begin alike are the same.
-/

namespace TabStop

namespace Unicode

open Table

/-! ## Forms that begin alike -/

/-- Where the first code points of upper-case forms of several characters are. -/
def upperLeads : List (Nat × Nat) :=
  [(0x41, 0x59), (0x2BC, 0x2BC), (0x386, 0x3A9), (0x535, 0x54E), (0x1F08, 0x1F0F),
    (0x1F28, 0x1F2F), (0x1F68, 0x1F6F), (0x1FBA, 0x1FBA), (0x1FCA, 0x1FCA), (0x1FFA, 0x1FFA)]

/-- Where the first code points of lower-case forms of several characters are. -/
def lowerLeads : List (Nat × Nat) := [(0x69, 0x69)]

/-- Whether a code point is in one of some ranges. -/
def isAmong (leads : List (Nat × Nat)) (t : Nat) : Bool := leads.any fun l => l.1 ≤ t && t ≤ l.2

/-- Whether an image of several code points for those from `lo` to `hi` begins among `leads`, with
none of the code points themselves, and no image begins among `others`. -/
def beginsAmong (leads others : List (Nat × Nat)) (lo hi : Nat) : List Nat → Bool
  | [] => false
  | t :: ts =>
    (ts.isEmpty || (t < lo || hi < t) && isAmong leads t && t < 0xD800) &&
      others.all fun l => t + (hi - lo) < l.1 || l.2 < t

theorem beginsAmong_readCaseRuns {leads others : List (Nat × Nat)} {text : String}
    (h : ∀ entry ∈ entriesFrom [] text.toList,
      beginsAmong leads others (readCaseRun entry).lo (readCaseRun entry).hi
        ((((entry.dropWhile (· ≠ '=')).drop 1).splitOn ',').map hex)) :
    ∀ r ∈ readCaseRuns text, beginsAmong leads others r.lo r.hi r.image := by
  intro r hr
  obtain ⟨entry, hentry, rfl⟩ : ∃ entry ∈ entries text, readCaseRun entry = r := by
    simpa [readCaseRuns] using hr
  rw [entries_eq] at hentry
  have himage : (readCaseRun entry).image =
      (((entry.dropWhile (· ≠ '=')).drop 1).splitOn ',').map hex := by
    simp [readCaseRun, hexList, splitEntry]
  rw [himage]
  exact h entry hentry

set_option maxRecDepth 20000 in
theorem beginsAmong_upperRuns :
    ∀ r ∈ upperRuns, beginsAmong upperLeads lowerLeads r.lo r.hi r.image := by
  apply beginsAmong_readCaseRuns
  unfold upperForms
  rw [String.toList_ofList]
  decide +kernel

set_option maxRecDepth 20000 in
theorem beginsAmong_lowerRuns :
    ∀ r ∈ lowerRuns, beginsAmong lowerLeads upperLeads r.lo r.hi r.image := by
  apply beginsAmong_readCaseRuns
  unfold lowerForms
  rw [String.toList_ofList]
  decide +kernel

/-- An image in a table begins as the images of its stretch do. -/
theorem lookUp_begins {runs : Array CaseRun} {leads others : List (Nat × Nat)}
    (hruns : ∀ r ∈ runs, beginsAmong leads others r.lo r.hi r.image) {n : Nat} {ns : List Nat}
    (h : lookUp runs n = some ns) :
    ∃ t ts, ns = t :: ts ∧ (ts ≠ [] → t ≠ n ∧ isAmong leads t ∧ t < 0xD800) ∧
      isAmong others t = false := by
  obtain ⟨r, hr, hlo, hhi, rfl | ⟨t, ht, rfl⟩⟩ := exists_of_lookUp h
  · have hbegins := hruns r hr
    cases hr' : r.image with
    | nil => simp [hr', beginsAmong] at hbegins
    | cons t ts =>
      simp only [hr', beginsAmong, Bool.and_eq_true, Bool.or_eq_true, List.isEmpty_iff,
        decide_eq_true_eq, List.all_eq_true] at hbegins
      obtain ⟨hlead, hothers⟩ := hbegins
      refine ⟨t, ts, rfl, fun hts => ?_, ?_⟩
      · obtain ⟨⟨hne, hamong⟩, hlt⟩ := hlead.resolve_left hts
        exact ⟨by omega, hamong, hlt⟩
      · simp only [isAmong, List.any_eq_false, Bool.and_eq_true, decide_eq_true_eq]
        intro l hl
        have := hothers l hl
        omega
  · have hbegins := hruns r hr
    refine ⟨t + (n - r.lo), [], rfl, by simp, ?_⟩
    simp only [ht, beginsAmong, List.isEmpty_nil, Bool.true_or, Bool.true_and, List.all_eq_true,
      Bool.or_eq_true, decide_eq_true_eq] at hbegins
    simp only [isAmong, List.any_eq_false, Bool.and_eq_true, decide_eq_true_eq]
    intro l hl
    have := hbegins l hl
    omega

/-- The forms of a character begin with the character or not among `others`; if there are several
they begin among `leads`. -/
def IsLed (leads others : List (Nat × Nat)) (c : Char) (forms : List Char) : Prop :=
  ∃ x xs, forms = x :: xs ∧ (xs ≠ [] → x ≠ c ∧ isAmong leads x.toNat) ∧
    (x ≠ c → isAmong others x.toNat = false)

theorem isLed_self (leads others : List (Nat × Nat)) (c : Char) : IsLed leads others c [c] :=
  ⟨c, [], rfl, by simp, by simp⟩

theorem isLed_map {runs : Array CaseRun} {leads others : List (Nat × Nat)}
    (hruns : ∀ r ∈ runs, beginsAmong leads others r.lo r.hi r.image)
    (hzero : isAmong others 0 = false) {c : Char} {ns : List Nat}
    (h : lookUp runs c.toNat = some ns) : IsLed leads others c (ns.map Char.ofNat) := by
  obtain ⟨t, ts, rfl, hlead, hothers⟩ := lookUp_begins hruns h
  have htoNat (hvalid : t.isValidChar) : (Char.ofNat t).toNat = t := by
    simp [Char.ofNat, hvalid, Char.ofNatAux, Char.toNat]
  refine ⟨Char.ofNat t, ts.map Char.ofNat, rfl, fun hts => ?_, fun _ => ?_⟩
  · obtain ⟨hne, hamong, hlt⟩ := hlead (by simpa using hts)
    have ht := htoNat (Or.inl hlt)
    exact ⟨fun hc => hne (by rw [← ht, hc]), by rw [ht]; exact hamong⟩
  · -- A number that is no code point of a character stands for the character zero
    by_cases hvalid : t.isValidChar
    · rw [htoNat hvalid]
      exact hothers
    · simpa [Char.ofNat, hvalid] using hzero

theorem isLed_upper {c : Char} (hc : ¬c.toNat < 0x80) :
    IsLed upperLeads lowerLeads c (upper c) := by
  rw [upper, if_neg hc]
  split
  next ns hns => exact isLed_map beginsAmong_upperRuns (by decide) hns
  next => exact isLed_self _ _ c

theorem isLed_lower {c : Char} (hc : ¬c.toNat < 0x80) :
    IsLed lowerLeads upperLeads c (lower c) := by
  rw [lower, if_neg hc]
  split
  next ns hns => exact isLed_map beginsAmong_lowerRuns (by decide) hns
  next => exact isLed_self _ _ c

/-- Forms of a character that begin alike are the same. -/
theorem IsLed.eq_of_head? {leads others : List (Nat × Nat)} {c : Char} {forms forms' : List Char}
    (h : IsLed leads others c forms) (h' : IsLed others leads c forms')
    (hhead : forms.head? = forms'.head?) : forms = forms' := by
  obtain ⟨x, xs, rfl, hx, hx'⟩ := h
  obtain ⟨y, ys, rfl, hy, hy'⟩ := h'
  obtain rfl : x = y := by simpa using hhead
  have hxs : xs = [] := by
    by_contra hne
    obtain ⟨hc, hamong⟩ := hx hne
    simp [hy' hc] at hamong
  have hys : ys = [] := by
    by_contra hne
    obtain ⟨hc, hamong⟩ := hy hne
    simp [hx' hc] at hamong
  rw [hxs, hys]

end Unicode

namespace Segment

open Unicode

/-- The forms of an ASCII character are single characters. -/
theorem exists_apply_ascii (k : Option Case) {c : Char} (hc : c.toNat < 0x80) :
    ∃ x, Case.apply k c = [x] := by
  rcases k with _ | _ | _
  · exact ⟨c, rfl⟩
  · exact ⟨c.toUpper, if_pos hc⟩
  · exact ⟨c.toLower, if_pos hc⟩

/-- No character has an empty form. -/
theorem exists_apply_cons (k : Option Case) (c : Char) : ∃ x xs, Case.apply k c = x :: xs := by
  by_cases hc : c.toNat < 0x80
  · obtain ⟨x, hx⟩ := exists_apply_ascii k hc
    exact ⟨x, [], hx⟩
  · rcases k with _ | _ | _
    · exact ⟨c, [], rfl⟩
    · obtain ⟨x, xs, hforms, -⟩ := isLed_upper hc
      exact ⟨x, xs, hforms⟩
    · obtain ⟨x, xs, hforms, -⟩ := isLed_lower hc
      exact ⟨x, xs, hforms⟩

/-- A character in one case and in another one begins differently unless it is the same in both. -/
theorem apply_eq_of_head? {k k' : Option Case} {c : Char}
    (h : (Case.apply k c).head? = (Case.apply k' c).head?) : Case.apply k c = Case.apply k' c := by
  -- In ASCII the image is one character; else what comes first tells which image it is
  by_cases hc : c.toNat < 0x80
  · obtain ⟨x, hx⟩ := exists_apply_ascii k hc
    obtain ⟨y, hy⟩ := exists_apply_ascii k' hc
    simpa [hx, hy] using h
  · have hupper := isLed_upper hc
    have hlower := isLed_lower hc
    rcases k with _ | _ | _ <;> rcases k' with _ | _ | _
    · rfl
    · exact (isLed_self _ _ c).eq_of_head? hupper h
    · exact (isLed_self _ _ c).eq_of_head? hlower h
    · exact hupper.eq_of_head? (isLed_self _ _ c) h
    · rfl
    · exact hupper.eq_of_head? hlower h
    · exact hlower.eq_of_head? (isLed_self _ _ c) h
    · exact hlower.eq_of_head? hupper h
    · rfl

/-! ## Differences that stay -/

/-- Two texts that nothing behind them can make equal if they are not. -/
def Separable (cs ds : List Char) : Prop := ∀ ps qs, cs ++ ps = ds ++ qs → cs = ds

theorem Separable.append {cs cs' ds ds' : List Char} (h : Separable cs ds)
    (h' : Separable cs' ds') : Separable (cs ++ cs') (ds ++ ds') := by
  intro ps qs heq
  rw [List.append_assoc, List.append_assoc] at heq
  obtain rfl := h _ _ heq
  rw [h' _ _ (List.append_cancel_left heq)]

theorem separable_refl (cs : List Char) : Separable cs cs := fun _ _ _ => rfl

theorem separable_apply (k k' : Option Case) (c : Char) :
    Separable (Case.apply k c) (Case.apply k' c) := by
  intro ps qs heq
  obtain ⟨x, xs, hx⟩ := exists_apply_cons k c
  obtain ⟨y, ys, hy⟩ := exists_apply_cons k' c
  apply apply_eq_of_head?
  rw [hx, hy] at heq ⊢
  show some x = some y
  simpa using congrArg List.head? heq

theorem separable_flatMap (k k' : Option Case) (cs : List Char) :
    Separable (cs.flatMap (Case.apply k)) (cs.flatMap (Case.apply k')) := by
  -- Forms may differ in length, so the texts are compared character by character of `cs`
  induction cs with
  | nil => exact separable_refl []
  | cons c cs ih => exact (separable_apply k k' c).append ih

theorem separable_applyCase (s s' : CaseState) (cs : List Char) :
    Separable (applyCase s cs) (applyCase s' cs) := by
  cases cs with
  | nil => exact separable_refl []
  | cons c cs => exact (separable_apply _ _ c).append (separable_flatMap _ _ cs)

/-- What is folded under different cases comes out the same or is never part of the same text. -/
theorem separable_foldFrom (s s' : CaseState) (segments : List Segment) :
    Separable (foldFrom s segments) (foldFrom s' segments) := by
  -- Each segment changes the cases in force, and in its own way on either side
  induction segments generalizing s s' with
  | nil => exact separable_refl []
  | cons segment rest ih =>
    cases segment with
    | text t => exact (separable_applyCase s s' t.toList).append (ih _ _)
    | directive d => exact (separable_refl (written d)).append (ih _ _)

end Segment

namespace Transform

open Segment

/-! ## Renderings by themselves -/

/-- The output from place `start` of the subject on where each rendering is folded by itself. -/
def separateFrom (pieces : List Piece) (subject : List Char) (start : Nat) :
    List Pattern.Found → List Char
  | [] => subject.drop start
  | m :: ms =>
    Pattern.Span.slice ⟨start, m.whole.start⟩ subject ++
      (foldFrom {} (Piece.renderAll (groupTexts subject m) pieces) ++
        separateFrom pieces subject m.whole.stop ms)

/-- Applies a transform so that no directive reaches beyond its rendering. -/
def separate (t : Transform) (input : String) : String :=
  let subject := (t.subject input).toList
  match t.replaced subject with
  | [] => ""
  | found => String.ofList (separateFrom t.pieces subject 0 found)

theorem separate_of_not_found {t : Transform} {input : String}
    (h : t.replaced (t.subject input).toList = []) : t.separate input = "" := by
  rw [separate, h]

theorem separate_of_found {t : Transform} {input : String} {m : Pattern.Found}
    {ms : List Pattern.Found} (h : t.replaced (t.subject input).toList = m :: ms) :
    t.separate input =
      String.ofList (separateFrom t.pieces (t.subject input).toList 0 (m :: ms)) := by
  rw [separate, h]

/-- Under the cases in force at place `start` each stretch behind it stays as it is, and each
rendering comes out as it does by itself. -/
def Undisturbed (pieces : List Piece) (subject : List Char) (s : CaseState) (start : Nat) :
    List Pattern.Found → Prop
  | [] => applyCase s (subject.drop start) = subject.drop start
  | m :: ms =>
    let stretch := Pattern.Span.slice ⟨start, m.whole.start⟩ subject
    let rendering := Piece.renderAll (groupTexts subject m) pieces
    applyCase s stretch = stretch ∧
      foldFrom (s.afterText stretch) rendering = foldFrom {} rendering ∧
      Undisturbed pieces subject ((s.afterText stretch).afterAll rendering) m.whole.stop ms

/-- The output, rendering by rendering. -/
theorem foldFrom_outputFrom_cons (pieces : List Piece) (subject : List Char) (s : CaseState)
    (start : Nat) (m : Pattern.Found) (ms : List Pattern.Found) :
    let stretch := Pattern.Span.slice ⟨start, m.whole.start⟩ subject
    let rendering := Piece.renderAll (groupTexts subject m) pieces
    foldFrom s (outputFrom pieces subject start (m :: ms)) =
      applyCase s stretch ++ (foldFrom (s.afterText stretch) rendering ++
        foldFrom ((s.afterText stretch).afterAll rendering)
          (outputFrom pieces subject m.whole.stop ms)) := by
  simp [outputFrom, foldFrom, foldFrom_append, sliceText]

theorem foldFrom_outputFrom_eq_iff (pieces : List Piece) (subject : List Char) (s : CaseState)
    (start : Nat) (found : List Pattern.Found) :
    foldFrom s (outputFrom pieces subject start found) = separateFrom pieces subject start found ↔
      Undisturbed pieces subject s start found := by
  induction found generalizing s start with
  | nil => simp [outputFrom, foldFrom, separateFrom, Undisturbed]
  | cons m ms ih =>
    rw [foldFrom_outputFrom_cons, separateFrom, Undisturbed]
    constructor
    · intro heq
      have hstretch := separable_applyCase s {} (Pattern.Span.slice ⟨start, m.whole.start⟩ subject)
      rw [applyCase_default] at hstretch
      -- From the left on, what stands in front is the same and can be taken off
      have hfirst := hstretch _ _ heq
      rw [hfirst] at heq
      have heq := List.append_cancel_left heq
      have hsecond := separable_foldFrom _ _ _ _ _ heq
      rw [hsecond] at heq
      exact ⟨hfirst, hsecond, (ih _ _).1 (List.append_cancel_left heq)⟩
    · rintro ⟨hfirst, hsecond, hrest⟩
      rw [hfirst, hsecond, (ih _ _).2 hrest]

/-- Where no rendering leaves a case open there is nothing to disturb what comes after it. -/
theorem undisturbed_of_closed {pieces : List Piece} {subject : List Char}
    {found : List Pattern.Found}
    (h : ∀ m ∈ found,
      CaseState.afterAll {} (Piece.renderAll (groupTexts subject m) pieces) = {}) (start : Nat) :
    Undisturbed pieces subject {} start found := by
  induction found generalizing start with
  | nil => exact applyCase_default _
  | cons m ms ih =>
    refine ⟨applyCase_default _, by rw [afterText_default], ?_⟩
    rw [afterText_default, h m (List.mem_cons_self ..)]
    exact ih (fun n hn => h n (List.mem_cons_of_mem _ hn)) _

/-- A transform gives the stretches between the matches as they are, with each rendering folded by
itself, exactly if no case that a rendering leaves open changes what comes after it. So it does if
no rendering leaves a case open. -/
theorem resolve_eq_separate_iff (t : Transform) (input : String) :
    let subject := (t.subject input).toList
    (t.resolve input = t.separate input ↔
      Undisturbed t.pieces subject {} 0 (t.replaced subject)) ∧
    ((∀ m ∈ t.replaced subject,
        CaseState.afterAll {} (Piece.renderAll (groupTexts subject m) t.pieces) = {}) →
      t.resolve input = t.separate input) := by
  intro subject
  have hiff : t.resolve input = t.separate input ↔
      Undisturbed t.pieces subject {} 0 (t.replaced subject) := by
    cases hfound : t.replaced subject with
    | nil => simp [resolve_of_not_found hfound, separate_of_not_found hfound, Undisturbed]
    | cons m ms =>
      rw [resolve_of_found hfound, separate_of_found hfound, ← foldFrom_outputFrom_eq_iff]
      exact String.ofList_inj
  exact ⟨hiff, fun hclosed => hiff.2 (undisturbed_of_closed hclosed 0)⟩

/-- Puts a `b` in upper case. The case is left open by the time `rest` begins. -/
def shouting (rest : List Piece) : Transform :=
  ⟨"b", {}, .directive .upperAll :: .format { index := 0 } :: rest,
    (Regex.compile? ({} : TransformFlags).forPattern "b").get (by cbv), by simp⟩

/-- The `c` after the match is put in upper case too, unless the template ends the case. -/
theorem resolve_eq_separate_iff_shouting :
    (shouting []).resolve "abc" = "aBC" ∧ (shouting []).separate "abc" = "aBc" ∧
      ¬Undisturbed (shouting []).pieces "abc".toList {} 0 ((shouting []).replaced "abc".toList) ∧
      (shouting [.directive .stop]).resolve "abc" =
        (shouting [.directive .stop]).separate "abc" := by
  -- What is found does not depend on what is behind the letter
  have hfound (rest : List Piece) :
      (shouting rest).replaced ((shouting rest).subject "abc").toList =
        [⟨⟨1, 2⟩, [some ⟨1, 2⟩]⟩] := by cbv
  have hresolve : (shouting []).resolve "abc" = "aBC" := by
    simp only [resolve, hfound]
    decide
  have hseparate : (shouting []).separate "abc" = "aBc" := by
    simp only [separate, hfound]
    decide
  refine ⟨hresolve, hseparate, fun hundisturbed => ?_, ?_⟩
  · have heq := (resolve_eq_separate_iff (shouting []) "abc").1.2 hundisturbed
    rw [hresolve, hseparate] at heq
    exact absurd heq (by decide)
  · apply (resolve_eq_separate_iff (shouting [.directive .stop]) "abc").2
    rw [hfound]
    decide

end Transform

end TabStop
