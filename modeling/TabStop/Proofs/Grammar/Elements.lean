import TabStop.Proofs.Grammar.Constructs
import TabStop.Proofs.Grammar.Templates

/-!
# Sources read back

What any source is read as has a normal form: no text follows text, each tab stop has an index that
can be written, and what a node holds is one of the things that its construct may hold. And nodes in
the normal form are read from the way they are written, unless there is code among them.
-/

namespace TabStop

open Token Grammar

namespace Outline

/-! ## The normal form -/

/-- No text follows text. -/
def Separate : List Outline → Prop
  | [] => True
  | o :: os => (o.IsNode ∨ ∀ q ∈ os.head?, q.IsNode) ∧ Separate os

theorem separate_concat {os : List Outline} {o : Outline} :
    Separate (os ++ [o]) ↔ Separate os ∧ (o.IsNode ∨ ∀ q ∈ os.getLast?, q.IsNode) := by
  induction os with
  | nil => simp [Separate]
  | cons p os ih =>
    rw [List.cons_append, Separate, ih, Separate]
    cases os with
    | nil => simp [Separate, or_comm]
    | cons q os => simp [and_assoc]

/-- Nodes that are read from source, one case for each construct. -/
inductive Readable (d : Dialect) : Outline → Prop where
  | text {s : String} (hs : s ≠ "") : Readable d (node (.text s) [])
  | placeholder {n : Nat} {cs : List Outline} (hn : n < indexBound)
      (hcs : ∀ o ∈ cs, Readable d o) (hsep : Separate cs) :
      Readable d (node (.placeholder { index := .ofNat n }) cs)
  | choice {n : Nat} {os : List String} (hn : n < indexBound)
      (hfinal : (TabIndex.ofNat n).isFinal = false) (hne : os ≠ []) (hos : ∀ o ∈ os, o ≠ "") :
      Readable d (node (.placeholder { index := .ofNat n }) [node (.choice ⟨os⟩) []])
  | placeholderTransform {n : Nat} {t : Transform} (hn : n < indexBound)
      (ht : ReadableTransform d t) :
      Readable d (node (.placeholder { index := .ofNat n, transform := some t }) [])
  | var {name : String} {cs : List Outline} (hname : (word name).WellFormed)
      (haccepts : d.acceptsVariable name) (hcs : ∀ o ∈ cs, Readable d o) (hsep : Separate cs) :
      Readable d (node (.var { name }) cs)
  | varTransform {name : String} {t : Transform} (hname : (word name).WellFormed)
      (haccepts : d.acceptsVariable name) (ht : ReadableTransform d t) :
      Readable d (node (.var { name, transform := some t }) [])
  | code {b : CodeBlock} (hd : d.isUltiSnips) : Readable d (node (.code b) [])

/-- Rows of nodes that are read from source. -/
structure ReadableRow (d : Dialect) (row : List Outline) : Prop where
  readable : ∀ o ∈ row, Readable d o
  separate : Separate row

variable {d : Dialect} {row : List Outline}

theorem ReadableRow.nil : ReadableRow d [] := ⟨by simp, trivial⟩

theorem ReadableRow.concat (h : ReadableRow d row) {o : Outline} (ho : Readable d o)
    (hrow : o.IsNode ∨ ∀ q ∈ row.getLast?, q.IsNode) : ReadableRow d (row ++ [o]) := by
  refine ⟨fun q hq => ?_, separate_concat.2 ⟨h.separate, hrow⟩⟩
  rcases List.mem_append.1 hq with hq | hq
  · exact h.readable q hq
  · rw [List.mem_singleton.1 hq]
    exact ho

theorem ReadableRow.addText (h : ReadableRow d row) (s : String) :
    ReadableRow d (addText row s) := by
  by_cases hs : s = ""
  · rw [hs, addText_empty]
    exact h
  -- The text joins a text at the end of the row, or is a node of its own
  rcases addText_cases hs row with ⟨init, r, cs, rfl, hadd⟩ | ⟨hrow, hadd⟩
  · rw [hadd]
    -- Whatever stood before the text at the end may stand before the longer one
    obtain ⟨hinit, hlast⟩ := separate_concat.1 h.separate
    have hr := h.readable _ (List.mem_append_right _ (List.mem_singleton_self _))
    cases hr with
    | text hr =>
      refine ReadableRow.concat ⟨fun o ho => h.readable o (List.mem_append_left _ ho), hinit⟩
        (.text (by simp [hr])) (Or.inr ?_)
      rcases hlast with hlast | hlast
      · simp [IsNode, marker, Marker.text?] at hlast
      · exact hlast
  · rw [hadd]
    exact h.concat (.text hs) (Or.inr hrow)

end Outline

/-! ## What is read is readable -/

/-- Events that leave a readable row of nodes readable. -/
def Event.Keeps (d : Dialect) (es : List Event) : Prop :=
  ∀ row, Outline.ReadableRow d row → ∃ row', Outline.ReadableRow d row' ∧ Tells es row row'

namespace Event

variable {d : Dialect} {es fs : List Event}

theorem Keeps.nil : Keeps d [] := fun row h => ⟨row, h, .nil row⟩

theorem Keeps.append (h : Keeps d es) (h' : Keeps d fs) : Keeps d (es ++ fs) := by
  intro row hrow
  obtain ⟨row', hrow', ht⟩ := h row hrow
  obtain ⟨row'', hrow'', ht'⟩ := h' row' hrow'
  exact ⟨row'', hrow'', ht.append ht'⟩

theorem keeps_text (s : String) : Keeps d [.text s] :=
  fun row h => ⟨_, h.addText s, tells_text s row⟩

/-- A node keeps a row readable if it is readable with what stands in it. -/
theorem keeps_node {m : Marker} (hm : m.text? = none) (h : Keeps d es)
    (hnode : ∀ cs, Outline.ReadableRow d cs → Outline.Readable d (.node m cs)) :
    Keeps d (.start m :: es ++ [.finish]) := by
  intro row hrow
  obtain ⟨cs, hcs, ht⟩ := h [] .nil
  exact ⟨_, hrow.concat (hnode cs hcs) (Or.inl hm), tells_node m ht row⟩

theorem keeps_leaf {m : Marker} (hm : m.text? = none) (h : Outline.Readable d (.node m [])) :
    Keeps d (leaf m) :=
  fun row hrow => ⟨_, hrow.concat h (Or.inl hm), tells_leaf m row⟩

end Event

namespace Grammar

open Event

variable {d : Dialect} {ts rest : List Token} {es : List Event}

theorem placeholder?_eq_some {ds : String} {p : Placeholder} (h : placeholder? ds = some p) :
    ∃ n, n < indexBound ∧ p = { index := .ofNat n } := by
  obtain ⟨n, hn, rfl⟩ := Option.map_eq_some_iff.1 h
  exact ⟨n, indexBelow?_eq_some hn, rfl⟩

/-- The node that a token names may hold any readable row. -/
theorem Names.readable {t : Token} {m : Marker} (h : Names d t m) (ht : t.WellFormed)
    {cs : List Outline} (hcs : Outline.ReadableRow d cs) : Outline.Readable d (.node m cs) := by
  cases h with
  | placeholder hp =>
    obtain ⟨n, hn, rfl⟩ := placeholder?_eq_some hp
    exact .placeholder hn hcs.readable hcs.separate
  | var ha => exact .var ht ha hcs.readable hcs.separate

/-- There is at least one option, and none of them is empty. -/
theorem options_readable {ts rest : List Token} {os : List String}
    (h : Takes (options ts) os rest) : os ≠ [] ∧ ∀ o ∈ os, o ≠ "" := by
  rw [options.eq_def] at h
  split at h
  · simp at h
  next cs us hus =>
    split at h
    · simp at h
    next hcs =>
      have hne : String.ofList cs ≠ "" := by simpa using hcs
      split at h
      -- A comma has more options behind it, and the bar with the brace ends them
      next more hmore =>
        obtain ⟨os, hos, rfl⟩ := h.of_map (String.ofList cs :: ·) fun _ => ⟨rfl, rfl⟩
        exact ⟨by simp, List.forall_mem_cons.2 ⟨hne, (options_readable hos).2⟩⟩
      next more hmore =>
        obtain ⟨rfl, rfl⟩ := takes_some.1 h
        exact ⟨by simp, List.forall_mem_singleton.2 hne⟩
      · simp at h
termination_by ts.length

theorem keeps_withDefault {m : Marker} (hm : m.text? = none) (opening : String)
    (hnode : ∀ cs, Outline.ReadableRow d cs → Outline.Readable d (.node m cs)) {b : Default ts}
    (hb : Keeps d b.events) : Keeps d (withDefault m opening b) := by
  unfold withDefault
  split
  · exact keeps_node hm hb hnode
  · exact (keeps_text opening).append hb

/-- A construct keeps rows readable if the defaults inside it do. -/
theorem Construct.keeps (h : Construct d ts es rest) (hs : Sound ts)
    (hinside : ∀ us, us.length < ts.length → Sound us → Keeps d (defaultElements d us).events) :
    Keeps d es := by
  cases h with
  | escape | token => exact keeps_text _
  | short hnames => exact keeps_leaf hnames.text? (hnames.readable hs.tail.head .nil)
  | braced hnames => exact keeps_leaf hnames.text? (hnames.readable hs.tail.tail.head .nil)
  | default us hnames =>
    have hb := hinside us (by simp only [List.length_cons]; omega) hs.tail.tail.tail.tail
    exact keeps_withDefault hnames.text? _ (fun _ => hnames.readable hs.tail.tail.head) hb
  | @choice _ p _ _ os hp hfinal hos =>
    obtain ⟨n, hn, rfl⟩ := placeholder?_eq_some hp
    obtain ⟨hne, hos⟩ := options_readable hos
    -- The choice is the only node inside the tab stop
    intro row hrow
    have htells := tells_node (.placeholder { index := .ofNat n })
      (tells_leaf (.choice ⟨os⟩) []) row
    exact ⟨_, hrow.concat (.choice hn hfinal hne hos) (Or.inl rfl), htells⟩
  | placeholderTransform hp ht =>
    obtain ⟨n, hn, rfl⟩ := placeholder?_eq_some hp
    exact keeps_leaf rfl
      (.placeholderTransform hn (readable_transform hs.tail.tail.tail.tail ht))
  | varTransform ha ht =>
    exact keeps_leaf rfl
      (.varTransform hs.tail.tail.head ha (readable_transform hs.tail.tail.tail.tail ht))
  | code hd => exact keeps_leaf rfl (.code hd)

theorem keeps_defaultElements (ts : List Token) (hs : Sound ts) :
    Keeps d (defaultElements d ts).events := by
  rw [defaultElements.eq_def]
  split
  · exact .nil
  next us _ =>
    split
    · exact .nil
    next e he =>
      -- One element, then the rest of the default
      have htakes := takes_of_eq_some he
      have hfirst : Keeps d e.value :=
        (construct_of_element htakes).keeps hs fun us _ => keeps_defaultElements us
      have hrest := hs.of_suffix (walks_element htakes).suffix
      have := e.shorter
      exact hfirst.append (keeps_defaultElements e.rest hrest)
termination_by ts.length

theorem keeps_element (hs : Sound ts) (h : Takes (element d ts) es rest) : Keeps d es :=
  (construct_of_element h).keeps hs fun us _ => keeps_defaultElements us

theorem keeps_elements (ts : List Token) (hs : Sound ts) : Keeps d (elements d ts) := by
  rw [elements]
  split
  · exact .nil
  next e he =>
    have htakes := takes_of_eq_some he
    have hrest := hs.of_suffix (walks_element htakes).suffix
    have := e.shorter
    exact (keeps_element hs htakes).append (keeps_elements e.rest hrest)
termination_by ts.length

/-- What a source is read as is readable. -/
theorem readable_ofSource (d : Dialect) (source : String) :
    ∃ row, Outline.ReadableRow d row ∧ Tells (Event.ofSource d source) [] row :=
  keeps_elements _ (sound_lex source.toList) [] .nil

/-! ## What is written is read -/

theorem whole?_ofNat (n : Nat) (hn : n < indexBound) : (TabIndex.ofNat n).whole? = some n := by
  simp only [indexBound] at hn
  simp [TabIndex.whole?, TabIndex.ofNat, TabIndex.maxWhole]
  omega

theorem text_ofNat {n : Nat} (hn : n < indexBound) : (TabIndex.ofNat n).text = toString n := by
  rw [TabIndex.text, whole?_ofNat n hn]

theorem placeholder?_toString {n : Nat} (hn : n < indexBound) :
    placeholder? (toString n) = some { index := .ofNat n } := by
  rw [placeholder?, indexBelow?_toString hn]
  rfl

/-! ### Options -/

theorem escaping_choice : Escaping Choice.isSpecial where
  isMark c hc := by
    simp only [Choice.isSpecial, Bool.or_eq_true, beq_iff_eq] at hc
    rcases hc with (rfl | rfl) | rfl <;> rfl
  backslash := rfl

/-- An option is read as it is written, up to the comma or bar after it. -/
theorem optionText_of_escapes {cs : List Char} {stop : Mark} (h : Escapes Choice.isSpecial cs ts)
    (hstop : stop = .comma ∨ stop = .pipe) (rest : List Token) :
    optionText (ts ++ mark stop :: rest) = some (cs, mark stop :: rest) := by
  induction h with
  | nil => rcases hstop with rfl | rfl <;> rfl
  | @mark m cs ts hm _ ih =>
    cases m <;> simp_all [Choice.isSpecial, Mark.char, optionText]
  | @plain t cs ts ht hplain _ ih =>
    -- A token without the special marks is copied, which none of the other rules would do
    rw [List.cons_append, optionText, ih]
    · rfl
    all_goals
      first
      | (rintro rfl; simp [Choice.isSpecial, Mark.char] at hplain)
      | (rintro us rfl; simp [Choice.isSpecial, Mark.char] at hplain)

/-- The characters of options between the bars. -/
def optionChars : List String → List Char
  | [] => []
  | [o] => escapeChars Choice.isSpecial o.toList
  | o :: os => escapeChars Choice.isSpecial o.toList ++ ',' :: optionChars os

theorem toList_choiceSource (c : Choice) :
    c.source.toList = '|' :: (optionChars c.options ++ ['|']) := by
  -- The recursion of `optionChars` is the one of the joined options
  have : ∀ os : List String,
      (",".intercalate (os.map (escapeWhere Choice.isSpecial))).toList = optionChars os := by
    intro os
    induction os with
    | nil => simp [optionChars]
    | cons o os ih =>
      cases os with
      | nil => simp [optionChars]
      | cons p os =>
        rw [List.map_cons, List.map_cons, String.intercalate_cons_cons]
        simpa [optionChars] using ih
  simp [Choice.source, this]

theorem optionText_option (o : String) {stop : Mark} (hstop : stop = .comma ∨ stop = .pipe)
    (rest : List Char) :
    optionText (lex (escapeChars Choice.isSpecial o.toList ++ stop.char :: rest)) =
      some (o.toList, mark stop :: lex rest) := by
  obtain ⟨ts, hts, hlex⟩ := lex_escapeChars escaping_choice o.toList (breaks_mark stop rest)
  rw [hlex, lex_mark, optionText_of_escapes hts hstop]

theorem takes_options_last {o : List Char} (ho : o ≠ [])
    (h : optionText ts = some (o, mark .pipe :: mark .braceClose :: rest)) :
    Takes (options ts) [String.ofList o] rest := by
  rw [options.eq_def]
  split
  next hnone => simp [h] at hnone
  next cs us hus =>
    obtain ⟨rfl, rfl⟩ : o = cs ∧ _ = us := by simpa [h] using hus
    rw [if_neg (by simpa using ho)]
    exact takes_some.2 ⟨rfl, rfl⟩

theorem takes_options_cons {o : List Char} (ho : o ≠ []) {us : List Token} {os : List String}
    (h : optionText ts = some (o, mark .comma :: us)) (h' : Takes (options us) os rest) :
    Takes (options ts) (String.ofList o :: os) rest := by
  rw [options.eq_def]
  split
  next hnone => simp [h] at hnone
  next cs us hus =>
    obtain ⟨rfl, rfl⟩ : o = cs ∧ _ = us := by simpa [h] using hus
    rw [if_neg (by simpa using ho)]
    exact h'.map (String.ofList o :: ·) fun _ => ⟨rfl, rfl⟩

/-- The options of a choice are read as they are written. -/
theorem takes_options {os : List String} (hne : os ≠ []) (hos : ∀ o ∈ os, o ≠ "")
    (rest : List Char) :
    Takes (options (lex (optionChars os ++ '|' :: '}' :: rest))) os (lex rest) := by
  induction os with
  | nil => exact absurd rfl hne
  | cons o os ih =>
    have ho : o.toList ≠ [] := by simpa using hos o (List.mem_cons_self ..)
    cases os with
    | nil =>
      -- The last option ends at the bar, each other one at a comma
      have hlast := optionText_option o (Or.inr rfl) ('}' :: rest)
      rw [lex_braceClose] at hlast
      have := takes_options_last ho hlast
      rwa [String.ofList_toList] at this
    | cons p os =>
      have hmore := ih (by simp) fun q hq => hos q (List.mem_cons_of_mem _ hq)
      have hfirst := optionText_option o (Or.inl rfl) (optionChars (p :: os) ++ '|' :: '}' :: rest)
      have hchars : optionChars (o :: p :: os) ++ '|' :: '}' :: rest =
          escapeChars Choice.isSpecial o.toList ++
            Mark.comma.char :: (optionChars (p :: os) ++ '|' :: '}' :: rest) := by
        simp [optionChars, Mark.char]
      have := takes_options_cons ho hfirst hmore
      rwa [String.ofList_toList, ← hchars] at this

/-! ### Rows of elements -/

/-- Elements read one after the other, none of them from a brace that would close a default. -/
inductive ReadsElements (d : Dialect) : List Token → List Event → List Token → Prop where
  | nil (ts : List Token) : ReadsElements d ts [] ts
  | cons {ts us rest : List Token} {es fs : List Event} :
      ts.head? ≠ some (mark .braceClose) → Takes (element d ts) es us →
      ReadsElements d us fs rest → ReadsElements d ts (es ++ fs) rest

theorem ReadsElements.append {us : List Token} {fs : List Event} (h : ReadsElements d ts es us)
    (h' : ReadsElements d us fs rest) : ReadsElements d ts (es ++ fs) rest := by
  induction h with
  | nil => exact h'
  | cons hbrace he _ ih =>
    rw [List.append_assoc]
    exact .cons hbrace he (ih h')

theorem ReadsElements.one (hbrace : ts.head? ≠ some (mark .braceClose))
    (h : Takes (element d ts) es rest) : ReadsElements d ts es rest := by
  have := ReadsElements.cons hbrace h (.nil rest)
  rwa [List.append_nil] at this

/-- A source is a row of elements. -/
theorem ReadsElements.elements (h : ReadsElements d ts es []) : elements d ts = es := by
  -- Induction on the row, with the end of the tokens as an equation
  generalize hrest : ([] : List Token) = rest at h
  induction h with
  | nil ts =>
    subst hrest
    have : element d [] = none := by rw [element]; rfl
    rw [Grammar.elements, this]
  | @cons ts us _ es fs _ he _ ih =>
    obtain ⟨_, he⟩ := he
    rw [Grammar.elements, he]
    simp only [ih hrest]

/-- A default is a row of elements up to a brace. -/
theorem ReadsElements.default (h : ReadsElements d ts es (mark .braceClose :: rest)) :
    (defaultElements d ts).events = es ∧ (defaultElements d ts).closed = true ∧
      (defaultElements d ts).rest = rest := by
  -- The brace that ends the default is where the row ends
  generalize hus : mark .braceClose :: rest = us at h
  induction h with
  | nil ts =>
    subst hus
    rw [defaultElements]
    exact ⟨rfl, rfl, rfl⟩
  | @cons ts us _ es fs hbrace he _ ih =>
    obtain ⟨_, he⟩ := he
    obtain ⟨rfl, hclosed, hrest⟩ := ih hus
    rw [defaultElements]
    · rw [he]
      exact ⟨rfl, hclosed, hrest⟩
    -- No element begins at the brace, so the row goes on
    · rintro us rfl
      simp at hbrace

/-! ### Constructs -/

theorem Takes.orElse {α : Type} {r s : Option (Taken α ts)} {value : α} (hr : r = none)
    (h : Takes s value rest) : Takes (r <|> s) value rest := by
  rw [hr]
  exact h

theorem Takes.orElse_left {α : Type} {r s : Option (Taken α ts)} {value : α}
    (h : Takes r value rest) : Takes (r <|> s) value rest := by
  obtain ⟨_, rfl⟩ := h
  exact takes_some.2 ⟨rfl, rfl⟩

/-- The default of a node, read up to its closing brace. -/
theorem withDefault_eq {m : Marker} {opening : String} {b : Default ts} (hevents : b.events = es)
    (hclosed : b.closed = true) : withDefault m opening b = .start m :: es ++ [.finish] := by
  rw [withDefault, if_pos hclosed, hevents]

theorem takes_escape {m : Mark} (hm : isEscape d m) (ts : List Token) :
    Takes (element d (mark .backslash :: mark m :: ts)) [.text (String.singleton m.char)] ts := by
  rw [element]
  apply Takes.orElse_left
  rw [escaped, if_pos hm]
  exact takes_some.2 ⟨rfl, rfl⟩

/-- The rule for tab stops decides what a dollar sign, a brace and digits begin. -/
theorem takes_element_placeholder {ds : String}
    (h : Takes (placeholder d (mark .dollar :: mark .braceOpen :: digits ds :: ts)
      fun us _ => defaultElements d us) es rest) :
    Takes (element d (mark .dollar :: mark .braceOpen :: digits ds :: ts)) es rest := by
  rw [element]
  exact Takes.orElse rfl (Takes.orElse rfl (Takes.orElse_left h))

theorem takes_element_var {name : String}
    (h : Takes (variableInBraces d (mark .dollar :: mark .braceOpen :: word name :: ts)
      fun us _ => defaultElements d us) es rest) :
    Takes (element d (mark .dollar :: mark .braceOpen :: word name :: ts)) es rest := by
  rw [element]
  exact Takes.orElse rfl (Takes.orElse rfl (Takes.orElse rfl (Takes.orElse_left h)))

variable {t : Token} {m : Marker}

theorem takes_short (h : Names d t m) (ts : List Token) :
    Takes (element d (mark .dollar :: t :: ts)) (leaf m) ts := by
  cases h with
  | placeholder hp =>
    rw [element]
    refine Takes.orElse rfl (Takes.orElse_left ?_)
    rw [short, hp]
    exact takes_some.2 ⟨rfl, rfl⟩
  | var ha =>
    rw [element]
    refine Takes.orElse rfl (Takes.orElse_left ?_)
    rw [short, if_pos ha]
    exact takes_some.2 ⟨rfl, rfl⟩

theorem takes_braced (h : Names d t m) (ts : List Token) :
    Takes (element d (mark .dollar :: mark .braceOpen :: t :: mark .braceClose :: ts)) (leaf m)
      ts := by
  cases h with
  | placeholder hp =>
    apply takes_element_placeholder
    simp only [placeholder, hp]
    exact takes_some.2 ⟨rfl, rfl⟩
  | var ha =>
    apply takes_element_var
    simp only [variableInBraces, ha]
    exact takes_some.2 ⟨rfl, rfl⟩

theorem takes_default (h : Names d t m) (hread : ReadsElements d ts es (mark .braceClose :: rest)) :
    Takes (element d (mark .dollar :: mark .braceOpen :: t :: mark .colon :: ts))
      (.start m :: es ++ [.finish]) rest := by
  obtain ⟨hevents, hclosed, hrest⟩ := hread.default
  cases h with
  | placeholder hp =>
    apply takes_element_placeholder
    simp only [placeholder, hp]
    exact takes_some.2 ⟨withDefault_eq hevents hclosed, hrest⟩
  | var ha =>
    apply takes_element_var
    simp only [variableInBraces, ha]
    exact takes_some.2 ⟨withDefault_eq hevents hclosed, hrest⟩

/-- A tab stop is named by its index as it is written. -/
theorem names_toString {n : Nat} (hn : n < indexBound) :
    Names d (digits (toString n)) (.placeholder { index := .ofNat n }) :=
  .placeholder (placeholder?_toString hn)

variable {n : Nat}

theorem takes_placeholderChoice (hn : n < indexBound)
    (hfinal : (TabIndex.ofNat n).isFinal = false) {os : List String}
    (h : Takes (options ts) os rest) :
    Takes (element d (mark .dollar :: mark .braceOpen :: digits (toString n) :: mark .pipe :: ts))
      (.start (.placeholder { index := .ofNat n }) :: leaf (.choice ⟨os⟩) ++ [.finish]) rest := by
  apply takes_element_placeholder
  simp only [placeholder, placeholder?_toString hn, hfinal]
  exact h.map (fun os => .start (.placeholder { index := .ofNat n }) ::
    leaf (.choice ⟨os⟩) ++ [Event.finish]) fun _ => ⟨rfl, rfl⟩

theorem takes_placeholderTransform (hn : n < indexBound) {t : Transform}
    (h : Takes (transform d ts) t rest) :
    Takes (element d (mark .dollar :: mark .braceOpen :: digits (toString n) :: mark .slash :: ts))
      (leaf (.placeholder { index := .ofNat n, transform := some t })) rest := by
  apply takes_element_placeholder
  simp only [placeholder, placeholder?_toString hn]
  exact h.map (fun t => leaf (.placeholder { index := .ofNat n, transform := some t }))
    fun _ => ⟨rfl, rfl⟩

variable {name : String}

theorem takes_varTransform (hname : d.acceptsVariable name) {t : Transform}
    (h : Takes (transform d ts) t rest) :
    Takes (element d (mark .dollar :: mark .braceOpen :: word name :: mark .slash :: ts))
      (leaf (.var { name, transform := some t })) rest := by
  apply takes_element_var
  simp only [variableInBraces, hname]
  exact h.map (fun t => leaf (.var { name, transform := some t })) fun _ => ⟨rfl, rfl⟩

/-! ### Text -/

theorem escaping_text (d : Dialect) : Escaping d.isSpecial where
  isMark c hc := by
    simp only [Dialect.isSpecial, Bool.or_eq_true, Bool.and_eq_true, beq_iff_eq] at hc
    rcases hc with ((rfl | rfl) | rfl) | ⟨-, rfl⟩ <;> rfl
  backslash := rfl

theorem isEscape_of_isSpecial {m : Mark} (h : d.isSpecial m.char) : isEscape d m := by
  cases m <;> simp_all [Dialect.isSpecial, Mark.char, isEscape]

private theorem braces_eq_none {t : Token} (ht : t ≠ mark .dollar)
    (readDefault : ReadDefault (t :: ts)) :
    placeholder d (t :: ts) readDefault = none ∧
      variableInBraces d (t :: ts) readDefault = none := by
  cases t with
  | mark m => cases m <;> first | exact ⟨rfl, rfl⟩ | exact absurd rfl ht
  | digits | word | other => exact ⟨rfl, rfl⟩

private theorem codeBlock_eq_none {t : Token} (ht : t = mark .backtick → d.isUltiSnips = false) :
    codeBlock d (t :: ts) = none := by
  cases t with
  | mark m => cases m <;> first | rfl | simp [codeBlock, ht rfl]
  | digits | word | other => rfl

/-- No rule but the last one fits a token that begins nothing. -/
theorem takes_plain {t : Token} (ht : ∀ m, t = mark m → d.isSpecial m.char = false)
    (ts : List Token) : Takes (element d (t :: ts)) [.text t.text] ts := by
  -- A token that is not special is no dollar sign and no backslash, and a backtick only where
  -- it begins no code
  have hdollar : t ≠ mark .dollar := by
    rintro rfl
    simp [Dialect.isSpecial, Mark.char] at ht
  have hback : t ≠ mark .backslash := by
    rintro rfl
    simp [Dialect.isSpecial, Mark.char] at ht
  have hcode : t = mark .backtick → d.isUltiSnips = false := by
    rintro rfl
    simpa [Dialect.isSpecial, Mark.char] using ht .backtick rfl
  rw [element]
  refine Takes.orElse ?_ (Takes.orElse ?_ (Takes.orElse (braces_eq_none hdollar _).1
    (Takes.orElse (braces_eq_none hdollar _).2 (Takes.orElse (codeBlock_eq_none hcode) ?_))))
  · rw [escaped]
    · exact fun m rest h => absurd (List.cons.inj h).1 hback
    · exact fun rest h => absurd (List.cons.inj h).1 hback
  · rw [short]
    · exact fun ds rest h => absurd (List.cons.inj h).1 hdollar
    · exact fun name rest h => absurd (List.cons.inj h).1 hdollar
  · exact takes_some.2 ⟨rfl, rfl⟩

end Grammar

namespace Event

/-- Events that put a text behind a row of nodes. -/
def Spells (es : List Event) (s : String) : Prop := ∀ row, Tells es row (Outline.addText row s)

theorem Spells.nil : Spells [] "" := fun row => by
  rw [Outline.addText_empty]
  exact .nil row

theorem Spells.cons {es : List Event} {r s : String} (h : Spells es s) :
    Spells (.text r :: es) (r ++ s) := fun row => by
  rw [← Outline.addText_append]
  exact (tells_text r row).append (h _)

end Event

namespace Grammar

variable {d : Dialect} {ts : List Token}

theorem readsElements_of_escapes {cs : List Char} (h : Escapes d.isSpecial cs ts) :
    ∃ es, Event.Spells es (String.ofList cs) ∧ ∀ rest, ReadsElements d (ts ++ rest) es rest := by
  induction h with
  | nil => exact ⟨[], .nil, fun rest => .nil rest⟩
  | @mark m cs ts hm _ ih =>
    obtain ⟨es, hes, hread⟩ := ih
    -- A guarded mark is an element that puts the mark itself
    have hspells := hes.cons (r := String.singleton m.char)
    rw [← ofList_char_cons] at hspells
    refine ⟨.text (String.singleton m.char) :: es, hspells, fun rest => ?_⟩
    exact .cons (by simp) (takes_escape (isEscape_of_isSpecial hm) (ts ++ rest)) (hread rest)
  | @plain t cs ts ht hplain _ ih =>
    obtain ⟨es, hes, hread⟩ := ih
    -- Any other token is taken as it is, and no brace is among them
    have hspells := hes.cons (r := t.text)
    rw [← ofList_text_append] at hspells
    refine ⟨.text t.text :: es, hspells, fun rest => ?_⟩
    refine .cons ?_ (takes_plain hplain (ts ++ rest)) (hread rest)
    intro hbrace
    have := hplain .braceClose (by simpa using hbrace)
    simp [Dialect.isSpecial, Mark.char] at this

/-- Text is read as it is written, whatever breaks it off. -/
theorem readsElements_text (s : String) {rest : List Char} (hrest : Breaks rest) :
    ∃ es, Event.Spells es s ∧
      ReadsElements d (lex ((escapeText d s).toList ++ rest)) es (lex rest) := by
  obtain ⟨ts, hts, hlex⟩ := lex_escapeChars (escaping_text d) s.toList hrest
  obtain ⟨es, hes, hread⟩ := readsElements_of_escapes hts
  refine ⟨es, by simpa using hes, ?_⟩
  rw [escapeText, toList_escapeWhere, hlex]
  exact hread (lex rest)

end Grammar

/-! ## Nodes -/

namespace Outline

variable {d : Dialect}

/-- A node is read from the way it is written. Text ends where it is broken off; where no brace
keeps its index apart, no digit may follow. -/
def ReadsBack (d : Dialect) (o : Outline) : Prop :=
  ∀ digitFollows rest, (o.IsNode ∨ Breaks rest) →
    (digitFollows = false → ∀ c ∈ rest.head?, isDigit c = false) →
    ∃ es, (∀ row, (o.IsNode ∨ ∀ q ∈ row.getLast?, q.IsNode) → Event.Tells es row (row ++ [o])) ∧
      ReadsElements d (lex ((o.source d digitFollows).toList ++ rest)) es (lex rest)

/-- Nodes in a row are read from the way they are written, up to where they are broken off. -/
def RowReadsBack (d : Dialect) (os : List Outline) : Prop :=
  ∀ rest, Breaks rest →
    ∃ es, (∀ row, (∀ o ∈ os.head?, o.IsNode ∨ ∀ q ∈ row.getLast?, q.IsNode) →
        Event.Tells es row (row ++ os)) ∧
      ReadsElements d (lex ((sourceAll d os).toList ++ rest)) es (lex rest)

private theorem head?_contentSource (c : Content) (name : String) {short : String}
    (h : short.toList.head? = some '$') : (c.source d name short).toList.head? = some '$' := by
  cases c with
  | nothing => exact h
  | _ => simp [Content.source, braced]

private theorem head?_short (digitFollows : Bool) (index : String) :
    (if digitFollows then braced index else "$" ++ index).toList.head? = some '$' := by
  cases digitFollows <;> simp [braced]

/-- What is written for a node that is no text breaks off a text before it. -/
theorem Readable.breaks_source {o : Outline} (ho : Readable d o) (hnode : o.IsNode)
    (digitFollows : Bool) (rest : List Char) :
    Breaks ((o.source d digitFollows).toList ++ rest) := by
  -- All constructs but code begin with a dollar sign
  have dollar {s : String} (h : s.toList.head? = some '$') : Breaks (s.toList ++ rest) := by
    apply breaks_of_head? (m := .dollar)
    cases hs : s.toList with
    | nil => simp [hs] at h
    | cons c cs => simpa [hs, Mark.char] using h
  cases ho with
  | text => exact absurd hnode (by simp [IsNode, marker, Marker.text?])
  | placeholder | choice | placeholderTransform =>
    exact dollar (head?_contentSource _ _ (head?_short _ _))
  | var | varTransform => exact dollar (head?_contentSource _ _ (by simp [braced]))
  | code =>
    apply breaks_of_head? (m := .backtick)
    simp [source, CodeBlock.source, Mark.char]

/-- Only text that begins with a digit is written so. -/
theorem Readable.not_digit_source {o : Outline} (ho : Readable d o)
    (hdigit : o.startsWithDigit = false) (digitFollows : Bool) (rest : List Char) :
    ∀ c ∈ ((o.source d digitFollows).toList ++ rest).head?, isDigit c = false := by
  by_cases hnode : o.IsNode
  -- A break is no digit
  · exact (ho.breaks_source hnode digitFollows rest).endsBefore (digits "")
  · cases ho with
    | @text s hs =>
      -- The first character of the text, or the backslash in front of it
      obtain ⟨c, cs, hcs⟩ := List.exists_cons_of_ne_nil (show s.toList ≠ [] by simpa using hs)
      have hc : isDigit c = false := by
        simpa [startsWithDigit, marker, Marker.text?, hcs] using hdigit
      rw [source, escapeText, toList_escapeWhere, hcs, escapeChars_cons]
      split
      · simp [isDigit]
      · simpa using hc
    | _ => exact absurd rfl hnode

theorem Readable.choice?_eq_none {cs : List Outline} (h : ∀ o ∈ cs, Readable d o) :
    (cs.findSome? fun c => c.marker.choice?) = none := by
  rw [List.findSome?_eq_none_iff]
  intro o ho
  cases h o ho <;> rfl

/-- Nodes that are read from the way they are written make a row that is. -/
theorem rowReadsBack {os : List Outline} (h : ∀ o ∈ os, Readable d o)
    (hreads : ∀ o ∈ os, ReadsBack d o) (hsep : Separate os) : RowReadsBack d os := by
  induction os with
  | nil =>
    intro rest _
    refine ⟨[], fun row _ => ?_, by simpa [sourceAll] using .nil (lex rest)⟩
    rw [List.append_nil]
    exact .nil row
  | cons o os ih =>
    intro rest hrest
    obtain ⟨fs, hfs, hread⟩ := ih (fun q hq => h q (List.mem_cons_of_mem _ hq))
      (fun q hq => hreads q (List.mem_cons_of_mem _ hq)) hsep.2 rest hrest
    -- What comes next breaks off text, and is no digit unless the node was told so
    have hbreaks : o.IsNode ∨ Breaks ((sourceAll d os).toList ++ rest) := by
      cases os with
      | nil => exact Or.inr (by simpa [sourceAll] using hrest)
      | cons p ps =>
        apply hsep.1.imp_right
        intro hp
        rw [sourceAll, String.toList_append, List.append_assoc]
        exact (h p (by simp)).breaks_source (hp p rfl) _ _
    have hdigit : os.head?.any startsWithDigit = false →
        ∀ c ∈ ((sourceAll d os).toList ++ rest).head?, isDigit c = false := by
      intro hany
      cases os with
      | nil =>
        rw [sourceAll]
        exact hrest.endsBefore (digits "")
      | cons p ps =>
        rw [sourceAll, String.toList_append, List.append_assoc]
        exact (h p (by simp)).not_digit_source (by simpa using hany) _ _
    obtain ⟨es, hes, hread'⟩ := hreads o (List.mem_cons_self ..) _ _ hbreaks hdigit
    refine ⟨es ++ fs, fun row hrow => ?_, ?_⟩
    -- The node goes behind the row, and the others behind the node
    · have := (hes row (hrow o rfl)).append (hfs (row ++ [o]) ?_)
      · simpa using this
      · intro q hq
        rw [List.getLast?_concat]
        rcases hsep.1 with ho | hp
        · exact Or.inr (by simpa using ho)
        · exact Or.inl (hp q hq)
    · rw [sourceAll, String.toList_append, List.append_assoc]
      exact hread'.append hread

/-! ### Constructs -/

/-- The tokens of a construct in braces, from the dollar sign to what follows its name. -/
theorem lex_braced {t : Token} (ht : t.WellFormed) {cs : List Char} (hcs : Breaks cs) :
    lex ('$' :: '\x7b' :: (t.text.toList ++ cs)) =
      mark .dollar :: mark .braceOpen :: t :: lex cs := by
  rw [← lex_text_append ht (hcs.endsBefore t), ← lex_mark, ← lex_mark]
  rfl

/-- A node that is written in braces reads back if what follows the name there does. -/
theorem readsBack_braced {o : Outline} {t : Token} (ht : t.WellFormed) (body : String)
    (hsource : ∀ digitFollows, o.source d digitFollows = braced (t.text ++ body))
    (hbody : ∀ rest, Breaks (body.toList ++ '}' :: rest))
    (htakes : ∀ rest, ∃ es, (∀ row, Event.Tells es row (row ++ [o])) ∧
      Takes (element d (mark .dollar :: mark .braceOpen :: t ::
        lex (body.toList ++ '}' :: rest))) es (lex rest)) : ReadsBack d o := by
  intro digitFollows rest _ _
  obtain ⟨es, hes, htakes⟩ := htakes rest
  refine ⟨es, fun row _ => hes row, ?_⟩
  have hchars : (o.source d digitFollows).toList ++ rest =
      '$' :: '\x7b' :: (t.text.toList ++ (body.toList ++ '}' :: rest)) := by
    simp [hsource, braced]
  rw [hchars, lex_braced ht (hbody rest)]
  exact .one (by simp) htakes

/-- The default of a node reads back if the row in it does. -/
theorem readsBack_default {m : Marker} {t : Token} {cs : List Outline} (ht : t.WellFormed)
    (hrow : RowReadsBack d cs)
    (hsource : ∀ digitFollows, source d digitFollows (node m cs) =
      braced (t.text ++ (":" ++ sourceAll d cs)))
    (htakes : ∀ {ts rest : List Token} {es : List Event},
      ReadsElements d ts es (mark .braceClose :: rest) →
      Takes (element d (mark .dollar :: mark .braceOpen :: t :: mark .colon :: ts))
        (.start m :: es ++ [.finish]) rest) :
    ReadsBack d (node m cs) := by
  refine readsBack_braced ht _ hsource (fun rest => ?_) fun rest => ?_
  · exact breaks_of_head? (m := .colon) (by simp [Mark.char])
  · obtain ⟨es, hes, hread⟩ := hrow ('}' :: rest) (breaks_mark .braceClose rest)
    -- The row ends at the closing brace, which breaks off text
    have hcolon : lex ((":" ++ sourceAll d cs).toList ++ '}' :: rest) =
        mark .colon :: lex ((sourceAll d cs).toList ++ '}' :: rest) := by
      rw [← lex_mark]
      simp [Mark.char]
    rw [lex_braceClose] at hread
    rw [hcolon]
    exact ⟨_, fun row => Event.tells_node m (hes [] (by simp)) row, htakes hread⟩

/-- A transform reads back as it is written. -/
theorem readsBack_transform {m : Marker} {t : Token} {tr : Transform} (ht : t.WellFormed)
    (htr : ReadableTransform d tr)
    (hsource : ∀ digitFollows, source d digitFollows (node m []) =
      braced (t.text ++ ("/" ++ tr.source d)))
    (htakes : ∀ {ts rest : List Token}, Takes (transform d ts) tr rest →
      Takes (element d (mark .dollar :: mark .braceOpen :: t :: mark .slash :: ts))
        (Event.leaf m) rest) :
    ReadsBack d (node m []) := by
  refine readsBack_braced ht _ hsource (fun rest => ?_) fun rest => ?_
  · exact breaks_of_head? (m := .slash) (by simp [Mark.char])
  · have hslash : lex (("/" ++ tr.source d).toList ++ '}' :: rest) =
        mark .slash :: lex ((tr.source d).toList ++ '}' :: rest) := by
      rw [← lex_mark]
      simp [Mark.char]
    rw [hslash]
    exact ⟨_, fun row => Event.tells_leaf m row, htakes (takes_transform htr rest)⟩

theorem readsBack_text {s : String} (hs : s ≠ "") : ReadsBack d (node (.text s) []) := by
  intro digitFollows rest hbreaks _
  have hrest : Breaks rest := by simpa [IsNode, marker, Marker.text?] using hbreaks
  obtain ⟨es, hes, hread⟩ := readsElements_text (d := d) s hrest
  refine ⟨es, fun row hrow => ?_, by simpa [source] using hread⟩
  -- The elements give the text in pieces, and the row joins them
  have hlast : ∀ q ∈ row.getLast?, q.IsNode := by
    simpa [IsNode, marker, Marker.text?] using hrow
  rw [← addText_of_isNode hs hlast]
  exact hes row

theorem source_emptyPlaceholder {n : Nat} (hn : n < indexBound) (digitFollows : Bool) :
    source d digitFollows (node (.placeholder { index := .ofNat n }) []) =
      if digitFollows then braced (toString n) else "$" ++ toString n := by
  simp [source, placeholderContent, content, Content.source, text_ofNat hn]

theorem readsBack_emptyPlaceholder {n : Nat} (hn : n < indexBound) :
    ReadsBack d (node (.placeholder { index := .ofNat n }) []) := by
  intro digitFollows rest _ hdigit
  refine ⟨_, fun row _ => Event.tells_leaf _ row, ?_⟩
  -- Braces keep the index apart from a digit; without a digit it stands alone
  rw [source_emptyPlaceholder hn]
  cases digitFollows with
  | true =>
    have hchars : (braced (toString n)).toList ++ rest =
        '$' :: '\x7b' :: ((digits (toString n)).text.toList ++ '}' :: rest) := by
      simp [braced, Token.text]
    have hbreaks : Breaks ('}' :: rest) := breaks_mark .braceClose rest
    rw [if_pos rfl, hchars, lex_braced (wellFormed_digits n) hbreaks, lex_braceClose]
    exact .one (by simp) (takes_braced (names_toString hn) (lex rest))
  | false =>
    have hlex : lex (("$" ++ toString n).toList ++ rest) =
        mark .dollar :: digits (toString n) :: lex rest := by
      rw [← lex_number n (hdigit rfl), ← lex_mark]
      simp [Mark.char]
    rw [if_neg Bool.false_ne_true, hlex]
    exact .one (by simp) (takes_short (names_toString hn) (lex rest))

theorem readsBack_choice {n : Nat} (hn : n < indexBound)
    (hfinal : (TabIndex.ofNat n).isFinal = false) {os : List String} (hne : os ≠ [])
    (hos : ∀ o ∈ os, o ≠ "") :
    ReadsBack d (node (.placeholder { index := .ofNat n }) [node (.choice ⟨os⟩) []]) := by
  refine readsBack_braced (wellFormed_digits n) (Choice.source ⟨os⟩) (fun digitFollows => ?_)
    (fun rest => ?_) fun rest => ?_
  · simp [source, placeholderContent, Marker.choice?, marker, Content.source, text_ofNat hn,
      Token.text]
  · exact breaks_of_head? (m := .pipe) (by simp [toList_choiceSource, Mark.char])
  · have hpipe : lex ((Choice.source ⟨os⟩).toList ++ '}' :: rest) =
        mark .pipe :: lex (optionChars os ++ '|' :: '}' :: rest) := by
      rw [← lex_mark, toList_choiceSource]
      simp [Mark.char]
    rw [hpipe]
    have htells (row : List Outline) := Event.tells_node (.placeholder { index := .ofNat n })
      (Event.tells_leaf (.choice ⟨os⟩) []) row
    exact ⟨_, htells, takes_placeholderChoice hn hfinal (takes_options hne hos rest)⟩

/-- Nodes in the normal form are read from the way they are written, unless there is code among
them. -/
theorem Readable.readsBack {o : Outline} (ho : Readable d o)
    (hcode : ∀ m ∈ o.markers, m.code? = none) : ReadsBack d o := by
  -- No code in a node means none in the nodes inside it
  have inside {n : Marker} {cs : List Outline} (hcode : ∀ m ∈ (node n cs).markers, m.code? = none)
      {q : Outline} (hq : q ∈ cs) : ∀ m ∈ q.markers, m.code? = none :=
    fun m hm => hcode m (List.mem_cons_of_mem _ (mem_markersAll.2 ⟨_, hq, hm⟩))
  induction ho with
  | text hs => exact readsBack_text hs
  | @placeholder n cs hn hcs hsep ih =>
    have hrow := rowReadsBack hcs (fun o ho => ih o ho (inside hcode ho)) hsep
    by_cases hne : cs = []
    · subst hne
      exact readsBack_emptyPlaceholder hn
    · refine readsBack_default (wellFormed_digits n) hrow (fun digitFollows => ?_)
        (takes_default (names_toString hn))
      simp [source, placeholderContent, Readable.choice?_eq_none hcs, content, hne, Content.source,
        text_ofNat hn, Token.text, String.append_assoc]
  | choice hn hfinal hne hos => exact readsBack_choice hn hfinal hne hos
  | @placeholderTransform n t hn ht =>
    refine readsBack_transform (wellFormed_digits n) ht (fun digitFollows => ?_)
      (takes_placeholderTransform hn)
    simp [source, placeholderContent, content, Content.source, text_ofNat hn, Token.text,
      String.append_assoc]
  | @var name cs hname ha hcs hsep ih =>
    have hrow := rowReadsBack hcs (fun o ho => ih o ho (inside hcode ho)) hsep
    by_cases hne : cs = []
    · subst hne
      -- A variable without a default has its braces all the same
      refine readsBack_braced hname "" (fun digitFollows => ?_) (fun rest => ?_) fun rest => ?_
      · simp [source, content, Content.source, Token.text]
      · exact breaks_mark .braceClose rest
      · refine ⟨_, fun row => Event.tells_leaf (.var { name }) row, ?_⟩
        exact lex_braceClose rest ▸ takes_braced (.var ha) (lex rest)
    · refine readsBack_default hname hrow (fun digitFollows => ?_) (takes_default (.var ha))
      simp [source, content, hne, Content.source, Token.text, String.append_assoc]
  | @varTransform name t hname ha ht =>
    refine readsBack_transform hname ht (fun digitFollows => ?_) (takes_varTransform ha)
    simp [source, content, Content.source, Token.text, String.append_assoc]
  | code hd => simp [markers, Marker.code?] at hcode

end Outline

end TabStop
