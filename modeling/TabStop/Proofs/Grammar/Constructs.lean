import TabStop.Proofs.Grammar.Balance
import TabStop.Proofs.Grammar.Remainders

/-!
# Constructs

What the rules for elements can take, as one relation with a case for each way in which a rule goes
through. So what is said of every element is shown by cases on it, with the rules opened only here.
The first thing to be said: an element leaves the end of its tokens, each code block of a source has
been read from the tokens behind some backtick of that source, and the events are in balance, so the
nodes around an element are left as they are.
-/

namespace TabStop.Grammar

open Token

variable {d : Dialect} {ts rest : List Token} {es : List Event}

/-! ## One case for each way through the rules -/

/-- The node that a token behind a dollar sign names: a tab stop by its index, or a variable. -/
inductive Names (d : Dialect) : Token → Marker → Prop where
  | placeholder {ds : String} {p : Placeholder} (hp : placeholder? ds = some p) :
      Names d (digits ds) (.placeholder p)
  | var {name : String} (ha : d.acceptsVariable name) : Names d (word name) (.var { name })

theorem Names.text? {t : Token} {m : Marker} (h : Names d t m) : m.text? = none := by
  cases h <;> rfl

theorem Names.code? {t : Token} {m : Marker} (h : Names d t m) : m.code? = none := by
  cases h <;> rfl

theorem Names.ne_mark {t : Token} {m : Marker} (h : Names d t m) (n : Mark) : t ≠ mark n := by
  cases h <;> simp

/-- The tokens of an element with those behind it, the events of the element, and the tokens that it
leaves. A backslash is taken as text only where it guards nothing. -/
inductive Construct (d : Dialect) : List Token → List Event → List Token → Prop where
  | escape {m : Mark} {rest : List Token} (hm : isEscape d m) :
      Construct d (mark .backslash :: mark m :: rest) [.text (String.singleton m.char)] rest
  | token {t : Token} {rest : List Token}
      (hguard : t = mark .backslash → ∀ m, rest.head? = some (mark m) → isEscape d m = false) :
      Construct d (t :: rest) [.text t.text] rest
  | short {t : Token} {m : Marker} {rest : List Token} (hnames : Names d t m) :
      Construct d (mark .dollar :: t :: rest) (Event.leaf m) rest
  | braced {t : Token} {m : Marker} {rest : List Token} (hnames : Names d t m) :
      Construct d (mark .dollar :: mark .braceOpen :: t :: mark .braceClose :: rest)
        (Event.leaf m) rest
  | default {t : Token} {m : Marker} (us : List Token) (hnames : Names d t m) :
      Construct d (mark .dollar :: mark .braceOpen :: t :: mark .colon :: us)
        (withDefault m ("$\x7b" ++ t.text ++ ":") (defaultElements d us))
        (defaultElements d us).rest
  | choice {ds : String} {p : Placeholder} {us rest : List Token} {os : List String}
      (hp : placeholder? ds = some p) (hfinal : p.index.isFinal = false)
      (hos : Takes (options us) os rest) :
      Construct d (mark .dollar :: mark .braceOpen :: digits ds :: mark .pipe :: us)
        (.start (.placeholder p) :: Event.leaf (.choice ⟨os⟩) ++ [.finish]) rest
  | placeholderTransform {ds : String} {p : Placeholder} {us rest : List Token} {t : Transform}
      (hp : placeholder? ds = some p) (ht : Takes (transform d us) t rest) :
      Construct d (mark .dollar :: mark .braceOpen :: digits ds :: mark .slash :: us)
        (Event.leaf (.placeholder { p with transform := some t })) rest
  | varTransform {name : String} {us rest : List Token} {t : Transform}
      (ha : d.acceptsVariable name) (ht : Takes (transform d us) t rest) :
      Construct d (mark .dollar :: mark .braceOpen :: word name :: mark .slash :: us)
        (Event.leaf (.var { name, transform := some t })) rest
  | code {us rest : List Token} {b : CodeBlock} (hd : d.isUltiSnips)
      (hb : Takes (block us) b rest) :
      Construct d (mark .backtick :: us) (Event.leaf (.code b)) rest

/-! ## Each rule takes a construct -/

theorem construct_of_escaped (h : Takes (escaped d ts) es rest) : Construct d ts es rest := by
  unfold escaped at h
  split at h
  next m us =>
    split at h
    next hm =>
      obtain ⟨rfl, rfl⟩ := takes_some.1 h
      exact .escape hm
    next hm =>
      -- The mark stays behind the backslash, and the next element begins with it
      obtain ⟨rfl, rfl⟩ := takes_some.1 h
      refine .token (t := mark .backslash) fun _ n hn => ?_
      obtain rfl : m = n := by simpa [Taken.one] using hn
      simpa using hm
  next us hus =>
    obtain ⟨rfl, rfl⟩ := takes_some.1 h
    refine .token (t := mark .backslash) fun _ n hn => ?_
    obtain ⟨vs, rfl⟩ := List.head?_eq_some_iff.1 hn
    exact absurd rfl (hus n vs)
  next => simp at h

theorem construct_of_short (h : Takes (short d ts) es rest) : Construct d ts es rest := by
  unfold short at h
  split at h
  next ds us =>
    cases hp : placeholder? ds with
    | none => simp [hp] at h
    | some p =>
      rw [hp] at h
      obtain ⟨rfl, rfl⟩ := takes_some.1 h
      exact .short (.placeholder hp)
  next name us =>
    split at h
    next ha =>
      obtain ⟨rfl, rfl⟩ := takes_some.1 h
      exact .short (.var ha)
    next => simp at h
  next => simp at h

/-- The rule for tab stops in braces calls back for a default. -/
theorem construct_of_placeholder {readDefault : ReadDefault ts}
    (hread : ∀ us h, readDefault us h = defaultElements d us)
    (h : Takes (placeholder d ts readDefault) es rest) : Construct d ts es rest := by
  unfold placeholder at h
  split at h
  next ds us readDefault =>
    split at h
    next => simp at h
    next p hp =>
      -- What follows the index tells what the tab stop holds: a default, options, a transform, or
      -- nothing
      split at h
      next more readDefault =>
        obtain ⟨rfl, rfl⟩ := takes_some.1 h
        rw [hread]
        exact .default more (.placeholder hp)
      next more _ =>
        split at h
        next => simp at h
        next hfinal =>
          obtain ⟨os, hos, rfl⟩ := h.of_map (fun os => .start (.placeholder p) ::
            Event.leaf (.choice ⟨os⟩) ++ [.finish]) fun _ => ⟨rfl, rfl⟩
          exact .choice hp (by simpa using hfinal) hos
      next more _ =>
        obtain ⟨t, ht, rfl⟩ := h.of_map (fun t => Event.leaf
          (.placeholder { p with transform := some t })) fun _ => ⟨rfl, rfl⟩
        exact .placeholderTransform hp ht
      next more _ =>
        obtain ⟨rfl, rfl⟩ := takes_some.1 h
        exact .braced (.placeholder hp)
      next => simp at h
  next => simp at h

theorem construct_of_variableInBraces {readDefault : ReadDefault ts}
    (hread : ∀ us h, readDefault us h = defaultElements d us)
    (h : Takes (variableInBraces d ts readDefault) es rest) : Construct d ts es rest := by
  unfold variableInBraces at h
  split at h
  next name us readDefault =>
    split at h
    next => simp at h
    next ha =>
      have haccepts : d.acceptsVariable name := by simpa using ha
      -- A default, a transform, or nothing
      split at h
      next more readDefault =>
        obtain ⟨rfl, rfl⟩ := takes_some.1 h
        rw [hread]
        exact .default more (.var haccepts)
      next more _ =>
        obtain ⟨t, ht, rfl⟩ := h.of_map (fun t => Event.leaf (.var { name, transform := some t }))
          fun _ => ⟨rfl, rfl⟩
        exact .varTransform haccepts ht
      next more _ =>
        obtain ⟨rfl, rfl⟩ := takes_some.1 h
        exact .braced (.var haccepts)
      next => simp at h
  next => simp at h

theorem construct_of_codeBlock (h : Takes (codeBlock d ts) es rest) : Construct d ts es rest := by
  unfold codeBlock at h
  split at h
  next us =>
    split at h
    next hd =>
      obtain ⟨b, hb, rfl⟩ := h.of_map (fun b => Event.leaf (.code b)) fun _ => ⟨rfl, rfl⟩
      exact .code hd hb
    next => simp at h
  next => simp at h

theorem escaped_ne_none (d : Dialect) (ts : List Token) :
    escaped d (mark .backslash :: ts) ≠ none := by
  -- With a mark after it and without
  cases ts with
  | nil => simp [escaped]
  | cons t us =>
    cases t with
    | mark m => by_cases hm : isEscape d m <;> simp [escaped, hm]
    | digits | word | other => simp [escaped]

theorem exists_of_anyToken (h : Takes (anyToken ts) es rest) :
    ∃ t, ts = t :: rest ∧ es = [.text t.text] := by
  unfold anyToken at h
  split at h
  next => simp at h
  next t us =>
    obtain ⟨rfl, rfl⟩ := takes_some.1 h
    exact ⟨t, rfl, rfl⟩

/-- What the rules take is a construct. -/
theorem construct_of_element (h : Takes (element d ts) es rest) : Construct d ts es rest := by
  rw [element] at h
  cases hescaped : escaped d ts with
  | some e =>
    rw [hescaped] at h
    exact construct_of_escaped (hescaped ▸ h)
  | none =>
    -- The rules are tried one after the other
    rcases takes_orElse h with h | h
    · simp [hescaped] at h
    rcases takes_orElse h with h | h
    · exact construct_of_short h
    rcases takes_orElse h with h | h
    · exact construct_of_placeholder (fun _ _ => rfl) h
    rcases takes_orElse h with h | h
    · exact construct_of_variableInBraces (fun _ _ => rfl) h
    rcases takes_orElse h with h | h
    · exact construct_of_codeBlock h
    -- A backslash is always taken by the rule for it, so it is no token for the last rule
    obtain ⟨t, rfl, rfl⟩ := exists_of_anyToken h
    refine .token fun ht => ?_
    subst ht
    exact absurd hescaped (escaped_ne_none d rest)

/-! ## What an element leaves -/

/-- Code that is read behind a backtick of some tokens. -/
def HoldsCode (ts : List Token) (b : CodeBlock) : Prop :=
  ∃ us rest, mark .backtick :: us <:+ ts ∧ Takes (block us) b rest

theorem HoldsCode.of_suffix {b : CodeBlock} (h : HoldsCode rest b) (hrest : rest <:+ ts) :
    HoldsCode ts b := by
  obtain ⟨us, after, hus, hb⟩ := h
  exact ⟨us, after, hus.trans hrest, hb⟩

/-- Events whose code is read behind backticks of some tokens. -/
def CodeFrom (ts : List Token) (es : List Event) : Prop :=
  ∀ b, Event.start (.code b) ∈ es → HoldsCode ts b

theorem CodeFrom.append {es fs : List Event} (h : CodeFrom ts es) (h' : CodeFrom rest fs)
    (hrest : rest <:+ ts) : CodeFrom ts (es ++ fs) := fun b hb =>
  (List.mem_append.1 hb).elim (h b) fun hb => (h' b hb).of_suffix hrest

theorem codeFrom_text (ts : List Token) (s : String) : CodeFrom ts [.text s] := by
  simp [CodeFrom]

theorem codeFrom_leaf (ts : List Token) {m : Marker} (hm : m.code? = none) :
    CodeFrom ts (Event.leaf m) := by
  rintro b hb
  obtain rfl : Marker.code b = m := by simpa [Event.leaf] using hb
  simp [Marker.code?] at hm

/-- What a rule has taken: it leaves the end of its tokens, has read all code from them, and finishes
the nodes that it starts. -/
structure Walks (ts : List Token) (es : List Event) (rest : List Token) : Prop where
  suffix : rest <:+ ts
  code : CodeFrom ts es
  balanced : Event.Balanced es

/-- A default begins a node, or its opening is text. -/
theorem codeFrom_withDefault {m : Marker} (hm : m.code? = none) (opening : String)
    {us : List Token} {b : Default us} (hb : CodeFrom us b.events) (hus : us <:+ ts) :
    CodeFrom ts (withDefault m opening b) := by
  intro c hc
  refine (hb c ?_).of_suffix hus
  unfold withDefault at hc
  split at hc
  · have hne : Marker.code c ≠ m := fun he => by simp [← he, Marker.code?] at hm
    simpa [hne] using hc
  · simpa using hc

theorem balanced_withDefault (m : Marker) (opening : String) {b : Default ts}
    (hb : Event.Balanced b.events) : Event.Balanced (withDefault m opening b) := by
  unfold withDefault
  split
  · exact hb.node m
  · exact (Event.balanced_text opening).append hb

/-- What holds of the defaults inside a construct holds of the construct. -/
theorem Construct.walks (h : Construct d ts es rest)
    (hinside : ∀ us, us.length < ts.length →
      Walks us (defaultElements d us).events (defaultElements d us).rest) : Walks ts es rest := by
  cases h with
  | escape =>
    exact ⟨suffix_of_cons (List.suffix_cons ..), codeFrom_text _ _, Event.balanced_text _⟩
  | token => exact ⟨List.suffix_cons .., codeFrom_text _ _, Event.balanced_text _⟩
  | short hnames =>
    exact ⟨suffix_of_cons (List.suffix_cons ..), codeFrom_leaf _ hnames.code?,
      Event.balanced_leaf _⟩
  | braced hnames =>
    exact ⟨suffix_of_cons_cons (suffix_of_cons (List.suffix_cons ..)),
      codeFrom_leaf _ hnames.code?, Event.balanced_leaf _⟩
  | @default t _ us hnames =>
    have hb := hinside us (by simp only [List.length_cons]; omega)
    have hus : us <:+ mark .dollar :: mark .braceOpen :: t :: mark .colon :: us :=
      suffix_of_cons_cons (suffix_of_cons_cons List.suffix_rfl)
    exact ⟨hb.suffix.trans hus, codeFrom_withDefault hnames.code? _ hb.code hus,
      balanced_withDefault _ _ hb.balanced⟩
  | choice hp hfinal hos =>
    refine ⟨suffix_of_cons_cons (suffix_of_cons_cons (suffix_options hos)), ?_,
      (Event.balanced_leaf _).node _⟩
    simp [CodeFrom, Event.leaf]
  | placeholderTransform hp ht =>
    exact ⟨suffix_of_cons_cons (suffix_of_cons_cons (suffix_transform ht)), codeFrom_leaf _ rfl,
      Event.balanced_leaf _⟩
  | varTransform ha ht =>
    exact ⟨suffix_of_cons_cons (suffix_of_cons_cons (suffix_transform ht)), codeFrom_leaf _ rfl,
      Event.balanced_leaf _⟩
  | @code us _ b hd hb =>
    refine ⟨suffix_of_cons (suffix_block hb), fun c hc => ⟨us, rest, List.suffix_rfl, ?_⟩,
      Event.balanced_leaf _⟩
    obtain rfl : c = b := by simpa [Event.leaf] using hc
    exact hb

/-- Defaults inside a default have fewer tokens. -/
theorem walks_defaultElements (ts : List Token) :
    Walks ts (defaultElements d ts).events (defaultElements d ts).rest := by
  rw [defaultElements.eq_def]
  split
  · exact ⟨List.suffix_cons .., by simp [CodeFrom], .nil⟩
  next us _ =>
    split
    · exact ⟨List.suffix_rfl, by simp [CodeFrom], .nil⟩
    next e he =>
      have hfirst : Walks ts e.value e.rest :=
        (construct_of_element (takes_of_eq_some he)).walks fun us _ => walks_defaultElements us
      have := e.shorter
      have hmore := walks_defaultElements e.rest
      exact ⟨hmore.suffix.trans hfirst.suffix, hfirst.code.append hmore.code hfirst.suffix,
        hfirst.balanced.append hmore.balanced⟩
termination_by ts.length

theorem Construct.balanced (h : Construct d ts es rest) : Event.Balanced es :=
  (h.walks fun us _ => walks_defaultElements us).balanced

theorem walks_element (h : Takes (element d ts) es rest) : Walks ts es rest :=
  (construct_of_element h).walks fun us _ => walks_defaultElements us

/-- The elements of a source leave nothing of it. -/
theorem walks_elements (ts : List Token) : Walks ts (elements d ts) [] := by
  rw [elements]
  split
  · exact ⟨List.nil_suffix, by simp [CodeFrom], .nil⟩
  next e he =>
    have hfirst : Walks ts e.value e.rest := walks_element (takes_of_eq_some he)
    have := e.shorter
    have hmore := walks_elements e.rest
    exact ⟨List.nil_suffix, hfirst.code.append hmore.code hfirst.suffix,
      hfirst.balanced.append hmore.balanced⟩
termination_by ts.length

end TabStop.Grammar
