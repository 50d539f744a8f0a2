import Mathlib
import TabStop.Proofs.Template.CaseFolding
import TabStop.Template.Shorthand

/-!
# Words that are joined

Two conversions take a text apart into its words and join them. What they give is a single word, so
that to convert it again can only change its first character. All but that character depends on
the words alone and is the same for both: in whatever order they are applied, the last one decides.
-/

namespace TabStop

namespace Shorthand

variable {cs w : List Char}

/-! ## Words -/

theorem inWord_eq_isAlphanum (c : Char) : inWord c = c.isAlphanum := by
  rw [Bool.eq_iff_iff]
  simp [inWord, Token.isLetter, Token.isDigit, Char.isAlphanum, Char.isAlpha, Char.isUpper,
    Char.isLower, Char.isDigit, Char.le_def]

/-- Characters of which no one is between words. -/
def AllInWord (cs : List Char) : Prop := ∀ c ∈ cs, c.isAlphanum

theorem AllInWord.append (h : AllInWord w) (h' : AllInWord cs) : AllInWord (w ++ cs) := by
  intro c hc
  rcases List.mem_append.1 hc with hc | hc
  · exact h c hc
  · exact h' c hc

/-- Taking a text apart loses just the characters between words. -/
theorem flatten_wordsFrom (w cs : List Char) :
    (wordsFrom w cs).flatten = w ++ cs.filter Char.isAlphanum := by
  -- The word that has been begun comes first, and it may have no characters yet
  fun_induction wordsFrom w cs with
  | case1 w h => simp_all
  | case2 w h => simp
  | case3 w c cs hc ih =>
    rw [inWord_eq_isAlphanum] at hc
    simp [ih, hc]
  | case4 w c cs hc h ih =>
    rw [inWord_eq_isAlphanum] at hc
    simp_all
  | case5 w c cs hc h ih =>
    rw [inWord_eq_isAlphanum] at hc
    simp [ih, hc]

theorem flatten_words (cs : List Char) : (words cs).flatten = cs.filter Char.isAlphanum :=
  flatten_wordsFrom [] cs

/-- No word is empty. -/
theorem ne_nil_of_mem_wordsFrom {w v cs : List Char} (h : v ∈ wordsFrom w cs) : v ≠ [] := by
  fun_induction wordsFrom w cs with
  | case1 => simp at h
  | case2 w hw => simp_all
  | case3 w c cs hc ih => exact ih h
  | case4 w c cs hc hw ih => exact ih h
  | case5 w c cs hc hw ih =>
    rcases List.mem_cons.1 h with rfl | h
    · simpa using hw
    · exact ih h

theorem wordsFrom_of_allInWord (h : AllInWord cs) (hne : w ++ cs ≠ []) :
    wordsFrom w cs = [w ++ cs] := by
  induction cs generalizing w with
  | nil => simp_all [wordsFrom]
  | cons c cs ih =>
    have hc : inWord c := by
      rw [inWord_eq_isAlphanum]
      exact h c (List.mem_cons_self ..)
    rw [wordsFrom, if_pos hc, ih (fun d hd => h d (List.mem_cons_of_mem _ hd)) (by simp)]
    simp

/-- Characters with nothing between words are a single word. -/
theorem words_of_allInWord (h : AllInWord cs) (hne : cs ≠ []) : words cs = [cs] :=
  wordsFrom_of_allInWord h hne

/-! ## The first character -/

theorem isAlphanum_toUpper {c : Char} (h : c.isAlphanum) : c.toUpper.isAlphanum := by
  by_cases hlower : c.isLower
  · simp [Char.isAlphanum, Char.isAlpha, hlower]
  · rwa [Char.toUpper_eq_of_not_isLower hlower]

theorem isAlphanum_toLower {c : Char} (h : c.isAlphanum) : c.toLower.isAlphanum := by
  by_cases hupper : c.isUpper
  · simp [Char.isAlphanum, Char.isAlpha, hupper]
  · rwa [Char.toLower_eq_of_not_isUpper hupper]

/-- What is in words is ASCII, where the mappings of Unicode are the usual ones. -/
theorem toNat_lt_of_isAlphanum {c : Char} (h : c.isAlphanum) : c.toNat < 0x80 := by
  simp only [Char.isAlphanum, Char.isAlpha, Char.isUpper, Char.isLower, Char.isDigit,
    Bool.or_eq_true, Bool.and_eq_true, decide_eq_true_eq, UInt32.le_iff_toNat_le, ge_iff_le] at h
  have hZ : 'Z'.val.toNat = 90 := rfl
  have hz : 'z'.val.toNat = 122 := rfl
  have h9 : '9'.val.toNat = 57 := rfl
  show c.val.toNat < 0x80
  omega

theorem capitalized_eq (h : AllInWord cs) : capitalized cs = cs.modifyHead Char.toUpper := by
  cases cs with
  | nil => rfl
  | cons c cs =>
    have hc := toNat_lt_of_isAlphanum (h c (List.mem_cons_self ..))
    rw [capitalized, Unicode.upper_of_ascii hc]
    rfl

theorem uncapitalized_eq (h : AllInWord cs) : uncapitalized cs = cs.modifyHead Char.toLower := by
  cases cs with
  | nil => rfl
  | cons c cs =>
    have hc := toNat_lt_of_isAlphanum (h c (List.mem_cons_self ..))
    rw [uncapitalized, Unicode.lower_of_ascii hc]
    rfl

/-! ## Conversions that join words -/

/-- The two conversions that join words, with what they make of the first character. -/
inductive Joins : Shorthand → (Char → Char) → Prop where
  | pascalCase : Joins pascalCase Char.toUpper
  | camelCase : Joins camelCase Char.toLower

variable {k k' : Shorthand} {f f' : Char → Char}

theorem Joins.isAlphanum (h : Joins k f) {c : Char} (hc : c.isAlphanum) : (f c).isAlphanum := by
  cases h with
  | pascalCase => exact isAlphanum_toUpper hc
  | camelCase => exact isAlphanum_toLower hc

theorem Joins.toLower (h : Joins k f) (c : Char) : (f c).toLower = c.toLower := by
  cases h with
  | pascalCase => exact Char.toLower_toUpper_eq_toLower c
  | camelCase => exact Char.toLower_toLower_eq_toLower c

/-- Of two changes of a character the last one decides. -/
theorem Joins.comp_eq (h : Joins k f) (h' : Joins k' f') : f ∘ f' = f := by
  funext c
  cases h <;> cases h' <;> simp

/-- Characters that differ in nothing but the case of letters. -/
def SameUpToCase (cs ds : List Char) : Prop := cs.map Char.toLower = ds.map Char.toLower

theorem SameUpToCase.append {cs cs' ds ds' : List Char} (h : SameUpToCase cs ds)
    (h' : SameUpToCase cs' ds') : SameUpToCase (cs ++ cs') (ds ++ ds') := by
  unfold SameUpToCase at h h' ⊢
  rw [List.map_append, List.map_append, h, h']

theorem Joins.allInWord_modifyHead (h : Joins k f) (hcs : AllInWord cs) :
    AllInWord (cs.modifyHead f) := by
  cases cs with
  | nil => exact hcs
  | cons c cs =>
    intro d hd
    rcases List.mem_cons.1 hd with rfl | hd
    · exact h.isAlphanum (hcs c (List.mem_cons_self ..))
    · exact hcs d (List.mem_cons_of_mem _ hd)

theorem Joins.sameUpToCase_modifyHead (h : Joins k f) (cs : List Char) :
    SameUpToCase (cs.modifyHead f) cs := by
  cases cs with
  | nil => rfl
  | cons c cs => exact congrArg (· :: cs.map Char.toLower) (h.toLower c)

theorem allInWord_of_mem_words {cs w : List Char} (h : w ∈ words cs) : AllInWord w := by
  intro c hc
  have hmem : c ∈ (words cs).flatten := List.mem_flatten.2 ⟨w, h, hc⟩
  rw [flatten_words] at hmem
  exact (List.mem_filter.1 hmem).2

/-- Words that are joined hold what was in them, up to case. -/
theorem joinPascal_spec {ws : List (List Char)} (h : ∀ w ∈ ws, AllInWord w) :
    AllInWord (joinPascal ws) ∧ SameUpToCase (joinPascal ws) ws.flatten := by
  induction ws with
  | nil => exact ⟨fun c hc => absurd hc List.not_mem_nil, rfl⟩
  | cons w ws ih =>
    obtain ⟨hall, hsame⟩ := ih fun v hv => h v (List.mem_cons_of_mem _ hv)
    have hw := h w (List.mem_cons_self ..)
    have heq : joinPascal (w :: ws) = w.modifyHead Char.toUpper ++ joinPascal ws := by
      rw [← capitalized_eq hw]
      rfl
    rw [heq]
    constructor
    · apply AllInWord.append _ hall
      exact Joins.pascalCase.allInWord_modifyHead hw
    · apply SameUpToCase.append _ hsame
      exact Joins.pascalCase.sameUpToCase_modifyHead w

/-- What the conversions give but for the first character is the same. -/
theorem Joins.apply_eq (h : Joins k f) {s : String} {w : List Char} {ws : List (List Char)}
    (hwords : words s.toList = w :: ws) :
    k.apply s = String.ofList ((w ++ joinPascal ws).modifyHead f) := by
  have hmem : w ∈ words s.toList := hwords ▸ List.mem_cons_self ..
  have hw := allInWord_of_mem_words hmem
  obtain ⟨c, cs, rfl⟩ := List.exists_cons_of_ne_nil (ne_nil_of_mem_wordsFrom hmem)
  cases h with
  | pascalCase =>
    simp only [apply, joinWords, hwords, joinPascal, List.flatMap_cons, capitalized_eq hw]
    rfl
  | camelCase =>
    simp only [apply, joinWords, hwords, joinCamel, uncapitalized_eq hw]
    rfl

theorem Joins.apply_eq_of_allInWord (h : Joins k f) (hcs : AllInWord cs) (hne : cs ≠ []) :
    k.apply (String.ofList cs) = String.ofList (cs.modifyHead f) := by
  have hwords : words (String.ofList cs).toList = [cs] := by
    rw [String.toList_ofList, words_of_allInWord hcs hne]
  rw [h.apply_eq hwords, joinPascal, List.flatMap_nil, List.append_nil]

/-- A text with words is made into a single one. -/
theorem exists_joined {s : String} (hs : ∃ c ∈ s.toList, c.isAlphanum) :
    ∃ joined, joined ≠ [] ∧ AllInWord joined ∧
      SameUpToCase joined (s.toList.filter Char.isAlphanum) ∧
      ∀ k f, Joins k f → k.apply s = String.ofList (joined.modifyHead f) := by
  cases hwords : words s.toList with
  | nil =>
    obtain ⟨c, hc, halnum⟩ := hs
    have hfilter : s.toList.filter Char.isAlphanum = [] := by
      rw [← flatten_words, hwords, List.flatten_nil]
    exact absurd halnum (List.filter_eq_nil_iff.1 hfilter c hc)
  | cons w ws =>
    have hmem : ∀ v ∈ w :: ws, v ∈ words s.toList := fun v hv => hwords ▸ hv
    have hfirst : w ≠ [] := ne_nil_of_mem_wordsFrom (hmem w (List.mem_cons_self ..))
    obtain ⟨hall, hsame⟩ := joinPascal_spec fun v hv =>
      allInWord_of_mem_words (hmem v (List.mem_cons_of_mem _ hv))
    -- The first word as it stands, and the others with capitals, as both conversions have them
    refine ⟨w ++ joinPascal ws, by simp [hfirst], ?_, ?_, fun k f h => h.apply_eq hwords⟩
    · exact (allInWord_of_mem_words (hmem w (List.mem_cons_self ..))).append hall
    · rw [← flatten_words, hwords, List.flatten_cons]
      exact SameUpToCase.append rfl hsame

/-- A text without words is left as it is. -/
theorem Joins.apply_of_no_words (h : Joins k f) {s : String}
    (hs : ∀ c ∈ s.toList, ¬c.isAlphanum) : k.apply s = s := by
  have hwords : words s.toList = [] := by
    rw [List.eq_nil_iff_forall_not_mem]
    intro w hw
    obtain ⟨c, hc⟩ := List.exists_mem_of_ne_nil w (ne_nil_of_mem_wordsFrom hw)
    have hmem : c ∈ (words s.toList).flatten := List.mem_flatten.2 ⟨w, hw, hc⟩
    rw [flatten_words] at hmem
    obtain ⟨hin, halnum⟩ := List.mem_filter.1 hmem
    exact hs c hin halnum
  cases h <;> simp only [apply, joinWords, hwords]

/-- Of two conversions that join words the last one decides. -/
theorem Joins.apply_apply (h : Joins k f) (h' : Joins k' f') {s : String}
    (hs : ∃ c ∈ s.toList, c.isAlphanum) : k.apply (k'.apply s) = k.apply s := by
  obtain ⟨joined, hne, hall, -, happly⟩ := exists_joined hs
  -- What is given is one word, so that only its first character is changed again
  have hagain : k.apply (String.ofList (joined.modifyHead f')) =
      String.ofList ((joined.modifyHead f').modifyHead f) := by
    apply h.apply_eq_of_allInWord (h'.allInWord_modifyHead hall)
    simpa using hne
  rw [happly k' f' h', hagain, List.modifyHead_modifyHead, h.comp_eq h', ← happly k f h]

/-- The conversions that join words keep exactly the ASCII letters and digits of a text, in order
and up to case. Each of them changes nothing that it has given, and it makes of what the other one
has given what it makes of the text. A text without ASCII letters and digits is left as it is. -/
theorem joined_words_kept (s : String) :
    ((∃ c ∈ s.toList, c.isAlphanum) →
      (∀ k ∈ [pascalCase, camelCase], (∀ c ∈ (k.apply s).toList, c.isAlphanum) ∧
        SameUpToCase (k.apply s).toList (s.toList.filter Char.isAlphanum)) ∧
      (∀ k ∈ [pascalCase, camelCase], k.apply (k.apply s) = k.apply s) ∧
      pascalCase.apply (camelCase.apply s) = pascalCase.apply s ∧
      camelCase.apply (pascalCase.apply s) = camelCase.apply s) ∧
    ((∀ c ∈ s.toList, ¬c.isAlphanum) → ∀ k ∈ [pascalCase, camelCase], k.apply s = s) := by
  -- Both conversions join the words of a text; they differ in how the first letters are written
  have hjoins : ∀ k ∈ [pascalCase, camelCase], ∃ f, Joins k f := by
    intro k hk
    rcases List.mem_pair.1 hk with rfl | rfl
    · exact ⟨_, .pascalCase⟩
    · exact ⟨_, .camelCase⟩
  constructor
  · intro hs
    refine ⟨fun k hk => ?_, fun k hk => ?_, ?_, ?_⟩
    · obtain ⟨f, h⟩ := hjoins k hk
      obtain ⟨joined, -, hall, hsame, happly⟩ := exists_joined hs
      rw [happly k f h, String.toList_ofList]
      exact ⟨h.allInWord_modifyHead hall, (h.sameUpToCase_modifyHead joined).trans hsame⟩
    · obtain ⟨f, h⟩ := hjoins k hk
      exact h.apply_apply h hs
    · exact Joins.pascalCase.apply_apply .camelCase hs
    · exact Joins.camelCase.apply_apply .pascalCase hs
  · intro hs k hk
    obtain ⟨f, h⟩ := hjoins k hk
    exact h.apply_of_no_words hs

/-- A letter beyond ASCII is between words, as signs and spaces are. -/
theorem joined_words_kept_of_mixed :
    pascalCase.apply (camelCase.apply "Snake_case-42é") = pascalCase.apply "Snake_case-42é" ∧
    pascalCase.apply "Snake_case-42é" = "SnakeCase42" ∧ camelCase.apply "é_" = "é_" := by
  have hkept := (joined_words_kept "Snake_case-42é").1 ⟨'S', by simp, by decide⟩
  refine ⟨hkept.2.2.1, ?_, ?_⟩
  · simp [apply, joinWords, words, wordsFrom, inWord, Token.isLetter, Token.isDigit, joinPascal,
      capitalized, Unicode.upper_of_ascii]
  · exact (joined_words_kept "é_").2 (by simp) camelCase (by simp)

end Shorthand

end TabStop
