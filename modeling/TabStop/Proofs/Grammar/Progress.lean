import TabStop.Grammar.Machine
import TabStop.Proofs.Source.Reading

/-!
# Rules that go forward or back

What a machine does is what the rules of the grammar say: if a rule takes tokens, the machine has
gone behind them and has written their events down, and if it fails, the machine is where it was. No
place that it keeps on the way is left empty.

So the six rules for an element either go forward, by at least one token and with events in balance,
or leave no trace. Hence the machine comes to the end of any tokens, and the tree is built of all
the events that it has written down.
-/

namespace TabStop

open Grammar

namespace Machine

variable {s : Machine} {ts us ws : List Token} {t : Token} {m : Mark}

/-! ## Where a machine stands -/

/-- The machine at another place. -/
def goto (s : Machine) (n : Nat) : Machine := { s with pos := n }

/-- The machine with the tokens `us` left. -/
def leave (s : Machine) (us : List Token) : Machine := s.goto (s.tokens.length - us.length)

@[simp] theorem dialect_leave (s : Machine) (us : List Token) :
    (s.leave us).dialect = s.dialect := rfl

@[simp] theorem goto_leave (s : Machine) (us : List Token) (n : Nat) :
    (s.leave us).goto n = s.goto n := rfl

@[simp] theorem leave_leave (s : Machine) (us ws : List Token) :
    (s.leave us).leave ws = s.leave ws := rfl

@[simp] theorem dialect_tell (s : Machine) (es : List Event) :
    (s.tell es).dialect = s.dialect := rfl

@[simp] theorem leave_tell (s : Machine) (es : List Event) (us : List Token) :
    (s.tell es).leave us = (s.leave us).tell es := rfl

@[simp] theorem tell_tell (s : Machine) (es fs : List Event) :
    (s.tell es).tell fs = s.tell (es ++ fs) := by simp [tell]

theorem tell_nil (s : Machine) : s.tell [] = s := by simp [tell]

@[simp] theorem dialect_keep (s : Machine) : s.keep.dialect = s.dialect := rfl

theorem rest_leave (h : us <:+ s.rest) : (s.leave us).rest = us :=
  (List.suffix_iff_eq_drop.1 (h.trans (List.drop_suffix ..))).symm

theorem rest_leave_of_cons (h : s.rest = t :: us) : (s.leave us).rest = us :=
  rest_leave (h ▸ List.suffix_cons ..)

@[simp] theorem atEnd_eq (s : Machine) : s.atEnd = s.rest.isEmpty := by
  rw [atEnd, rest, Bool.eq_iff_iff]
  simp

/-- What a machine has done that has done what a rule says. -/
def after (s : Machine) {ts : List Token} : Option (Taken (List Event) ts) → Bool × Machine
  | none => (false, s)
  | some t => (true, (s.leave t.rest).tell t.value)

/-- The machine has done the same if the same tokens and events have been taken, whichever tokens
they have been taken from. -/
theorem after_map {α : Type} {r : Option (Taken α us)} {f : Taken α us → Taken (List Event) ts}
    {g : Taken α us → Taken (List Event) ws}
    (h : ∀ t, (f t).value = (g t).value ∧ (f t).rest = (g t).rest) :
    s.after (r.map f) = s.after (r.map g) := by
  cases r with
  | none => rfl
  | some t =>
    obtain ⟨hvalue, hrest⟩ := h t
    simp only [Option.map_some, after, hvalue, hrest]

/-! ## Single steps -/

theorem bump_eq (h : s.rest = t :: us) : s.bump = s.leave us := by
  have hlength := congrArg List.length h
  simp only [rest, List.length_drop, List.length_cons] at hlength
  have hpos : s.pos + 1 = s.tokens.length - us.length := by omega
  rw [bump, atEnd_eq, h, hpos]
  rfl

theorem bumpAsText_eq (h : s.rest = t :: us) : s.bumpAsText = (s.leave us).tell [.text t.text] := by
  have hbump : (s.tell [.text t.text]).bump = (s.leave us).tell [.text t.text] := bump_eq h
  simp [bumpAsText, h, hbump]

theorem eat_eq (h : s.rest = .mark m :: us) : s.eat m = (true, s.leave us) := by
  simp [eat, h, bump_eq h]

theorem eat_of_ne (h : s.rest = us) (hne : us.head? ≠ some (.mark m)) : s.eat m = (false, s) := by
  rw [eat, h, if_neg hne]

theorem eatUnless_of_ne (c : Bool) (h : s.rest = us) (hne : us.head? ≠ some (.mark m)) :
    s.eatUnless c m = (false, s) := by
  cases c with
  | true => rfl
  | false => exact eat_of_ne h hne

theorem head?_ne (h : ∀ us, ts = t :: us → False) : ts.head? ≠ some t := by
  intro hhead
  obtain ⟨us, rfl⟩ := List.head?_eq_some_iff.1 hhead
  exact h us rfl

/-- Going back to where the machine was, with nothing done since but tokens taken. -/
theorem rewind_goto (s : Machine) (n : Nat) : (s.goto n).rewind s.checkpoint = s := by
  simp [rewind, checkpoint, goto]

theorem fill_keep (s : Machine) (us : List Token) (es : List Event) (e : Event) :
    ((s.keep.leave us).tell es).fill s.events.length e = some ((s.leave us).tell (e :: es)) := by
  simp [fill, keep, tell, leave, goto]

theorem complete_keep (s : Machine) (us : List Token) (es : List Event) (m : Marker) :
    ((s.keep.leave us).tell es).complete s.events.length m =
      some ((s.leave us).tell (.start m :: es ++ [.finish])) := by
  simp [complete, fill_keep]

theorem complete_keep_nil (s : Machine) (us : List Token) (m : Marker) :
    (s.keep.leave us).complete s.events.length m = some ((s.leave us).tell (Event.leaf m)) := by
  have hcomplete := complete_keep s us [] m
  rwa [tell_nil] at hcomplete

/-- A rule that fails leaves no trace: the place goes with what stands behind it. -/
theorem fail_keep (s : Machine) (n : Nat) :
    (s.keep.goto n).fail s.events.length s.checkpoint = some (false, s) := by
  have habandon : (s.keep.goto n).abandon s.events.length = some (s.goto n) := by
    simp [abandon, keep, goto]
  simp [fail, habandon, rewind_goto]

/-! ## Values -/

/-- What a step gives that reads what `r` has taken: the machine has gone behind it, or stands
somewhere if there is nothing to take. -/
def Gives {α : Type} (a : Option α × Machine) (s : Machine) {ts : List Token} :
    Option (Taken α ts) → Prop
  | none => ∃ n, a = (none, s.goto n)
  | some t => a = (some t.value, s.leave t.rest)

theorem Gives.cases {α : Type} {a : Option α × Machine} {r : Option (Taken α ts)}
    (h : Gives a s r) : (r = none ∧ ∃ n, a = (none, s.goto n)) ∨
      ∃ t, r = some t ∧ a = (some t.value, s.leave t.rest) := by
  cases r with
  | none => exact Or.inl ⟨rfl, h⟩
  | some t => exact Or.inr ⟨t, rfl, h⟩

theorem gives_value {α : Type} (read : (ts : List Token) → Option (Taken α ts)) (h : s.rest = ts) :
    Gives (s.value read) s (read ts) := by
  subst h
  cases hr : read s.rest with
  | none => exact ⟨max s.pos s.tokens.length, by rw [value, hr]; rfl⟩
  | some t =>
    rw [Gives, value, hr]
    rfl

theorem gives_transform (h : s.rest = ts) :
    Gives s.transform s (Grammar.transform s.dialect ts) := by
  -- If a part does not end, nothing behind it is looked at
  subst h
  obtain ⟨hp, n, hn⟩ | ⟨pattern, hp, hpattern⟩ :=
    (gives_value (regexPart s.dialect) (Eq.refl s.rest)).cases
  · simp [Gives, transform, Grammar.transform, hp, hn]
  have hrest : pattern.rest <:+ s.rest := suffix_regexPart (takes_of_eq_some hp)
  obtain ⟨hq, n, hn⟩ | ⟨pieces, hq, hpieces⟩ :=
    (gives_value (templatePart s.dialect) (rest_leave hrest)).cases
  · simp [Gives, transform, Grammar.transform, hp, hpattern, hq, hn]
  rw [leave_leave] at hpieces
  have hrest : pieces.rest <:+ s.rest := (suffix_templatePart (takes_of_eq_some hq)).trans hrest
  obtain ⟨hr, n, hn⟩ | ⟨letters, hr, hletters⟩ := (gives_value flagsPart (rest_leave hrest)).cases
  · simp [Gives, transform, Grammar.transform, hp, hpattern, hq, hpieces, hr, hn]
  rw [leave_leave] at hletters
  -- All parts have been read; what is made of them does not move the machine
  simp only [transform, hpattern, hpieces, hletters, Grammar.transform, hp, hq, hr, dialect_leave,
    Option.bind_eq_bind, Option.bind_some]
  split
  next e he =>
    refine ⟨s.tokens.length - letters.rest.length, ?_⟩
    simp only [he]
    rfl
  next t ht =>
    simp only [ht]
    rfl

theorem choiceOption_of_none (h : s.rest = ts) (ho : optionText ts = none) :
    ∃ n, s.choiceOption = (none, s.goto n) := by
  subst h
  exact ⟨max s.pos s.tokens.length, by rw [choiceOption, ho]; rfl⟩

theorem choiceOption_eq {cs : List Char} (h : s.rest = ts) (ho : optionText ts = some (cs, us)) :
    s.choiceOption = (if cs.isEmpty then none else some (String.ofList cs), s.leave us) := by
  subst h
  rw [choiceOption, ho]
  rfl

/-- Options come to an end, since each of them takes the comma behind it. -/
theorem gives_options {s : Machine} {ts : List Token} (h : s.rest = ts) :
    ∃ a, s.options = some a ∧ Gives a s (Grammar.options ts) := by
  rw [Grammar.options.eq_def]
  split
  next ho =>
    obtain ⟨n, hn⟩ := choiceOption_of_none h ho
    exact ⟨_, by rw [options, hn]; rfl, n, rfl⟩
  next cs us ho =>
    have hoption := choiceOption_eq h ho
    have hus : us <:+ s.rest := h ▸ suffix_optionText ho
    have hrest := rest_leave hus
    split
    next hcs =>
      rw [if_pos hcs] at hoption
      exact ⟨_, by rw [options, hoption]; rfl, _, rfl⟩
    next hcs =>
      rw [if_neg hcs] at hoption
      split
      next more hr _ =>
        have hcomma := eat_eq hrest
        have hfewer : more.length < ts.length := hr
        obtain ⟨⟨os, s'⟩, hos, hgives⟩ := gives_options (rest_leave_of_cons hrest)
        rw [leave_leave] at hcomma hos
        refine ⟨(os.map (String.ofList cs :: ·), s'), ?_, ?_⟩
        · rw [options, hoption]
          simp [hcomma, hos]
        · obtain ⟨ho, n, hn⟩ | ⟨r, ho, hr⟩ := hgives.cases
          · cases hn
            rw [ho]
            exact ⟨n, rfl⟩
          · cases hr
            rw [ho]
            rfl
      next more hr _ =>
        have hcomma : (s.leave _).eat .comma = _ := eat_of_ne hrest (by simp)
        have hpipe := eat_eq hrest
        have hbrace := eat_eq (rest_leave_of_cons hrest)
        rw [leave_leave] at hpipe hbrace
        exact ⟨_, by rw [options, hoption]; simp [hcomma, hpipe, hbrace], rfl⟩
      next _ _ _ _ hcomma hpipe =>
        -- There is no comma, and no bar with a brace behind it
        have hcomma : (s.leave us).eat .comma = (false, s.leave us) :=
          eat_of_ne hrest (head?_ne fun more heq => by
            subst heq
            exact hcomma more _ _ rfl HEq.rfl HEq.rfl)
        by_cases hbar : us.head? = some (.mark .pipe)
        · obtain ⟨ws, rfl⟩ := List.head?_eq_some_iff.1 hbar
          have hbrace : (s.leave ws).eat .braceClose = (false, s.leave ws) :=
            eat_of_ne (rest_leave ((List.suffix_cons ..).trans hus)) (head?_ne fun more heq => by
              subst heq
              exact hpipe more _ _ rfl HEq.rfl HEq.rfl)
          have hpipe := eat_eq hrest
          rw [leave_leave] at hpipe
          exact ⟨_, by rw [options, hoption]; simp [hcomma, hpipe, hbrace]; rfl, _, rfl⟩
        · have hpipe := eat_of_ne hrest hbar
          exact ⟨_, by rw [options, hoption]; simp [hcomma, hpipe]; rfl, _, rfl⟩
termination_by ts.length

/-! ## Rules without elements inside -/

theorem escaped_eq (h : s.rest = ts) :
    s.escaped = some (s.after (Grammar.escaped s.dialect ts)) := by
  unfold Grammar.escaped
  split
  next m us =>
    have hnext := bumpAsText_eq (rest_leave_of_cons h)
    split
    next hm => simp [escaped, h, hm, bump_eq h, hnext, after, Token.text, Taken.cons, Taken.behind,
      Taken.one]
    next hm => simp [escaped, h, hm, bump_eq h, after, Taken.one]
  next us hus => simp [escaped, h, bump_eq h, after, Taken.one]
  next => simp [escaped, h, after]

theorem short_eq (h : s.rest = ts) : s.short = some (s.after (Grammar.short s.dialect ts)) := by
  unfold Grammar.short
  split
  next ds us =>
    have hdigits := bump_eq (rest_leave_of_cons h)
    cases hp : placeholder? ds with
    | none => simp [short, h, hp, after]
    | some p => simp [short, h, hp, bump_eq h, hdigits, after, Taken.one, Taken.cons, Taken.behind]
  next name us =>
    have hname := bump_eq (rest_leave_of_cons h)
    split
    next ha => simp [short, h, ha, bump_eq h, hname, after, Taken.one, Taken.cons, Taken.behind]
    next ha => simp [short, h, ha, after]
  next => simp [short, h, after]

theorem anyToken_eq (h : s.rest = ts) : s.anyToken = some (s.after (Grammar.anyToken ts)) := by
  cases ts with
  | nil => simp [anyToken, h, Grammar.anyToken, after]
  | cons t us => simp [anyToken, h, Grammar.anyToken, bumpAsText_eq h, after, Taken.one]

theorem passKind_eq (h : ts <:+ s.rest) : (s.leave ts).passKind (blockKind ts) =
    s.leave (if blockKind ts = .shell then ts else ts.drop 2) := by
  by_cases hk : blockKind ts = .shell
  · simp [passKind, hk]
  · obtain ⟨x, us, -, rfl⟩ := exists_of_blockKind hk
    have hmark := bump_eq (rest_leave h)
    have hletter := bump_eq (rest_leave_of_cons (rest_leave h))
    rw [leave_leave] at hmark hletter
    simp [passKind, hk, hmark, hletter]

theorem code_eq (kind : CodeKind) (h : ts <:+ s.rest) :
    (s.leave ts).code kind s.checkpoint = some (s.after
      ((blockBody ts).map (·.map fun body => Event.leaf (.code (blockOf kind body))))) := by
  obtain ⟨hb, n, hn⟩ | ⟨t, hb, hbody⟩ := (gives_value blockBody (rest_leave h)).cases
  · simp [code, hb, hn, rewind_goto, after]
  · simp [code, hb, hbody, after, Taken.map]

theorem codeBlock_eq (h : s.rest = ts) :
    s.codeBlock = some (s.after (Grammar.codeBlock s.dialect ts)) := by
  unfold Grammar.codeBlock
  split
  next us =>
    have hus : us <:+ s.rest := h ▸ List.suffix_cons ..
    split
    next hd =>
      -- The tokens that name the kind are taken before the code, if there are any
      have hcode : s.codeBlock = (s.leave (if blockKind us = .shell then us else us.drop 2)).code
          (blockKind us) s.checkpoint := by
        simp [codeBlock, h, hd, bump_eq h, passKind_eq hus]
      rw [hcode, block]
      split
      next =>
        rw [code_eq (blockKind us) hus, Option.map_map]
        exact congrArg some (after_map fun _ => ⟨rfl, rfl⟩)
      next =>
        rw [code_eq (blockKind us) ((List.drop_suffix 2 us).trans hus), Option.map_map]
        exact congrArg some (after_map fun _ => ⟨rfl, rfl⟩)
    next hd => simp [codeBlock, h, hd, after]
  next => simp [codeBlock, h, after]

/-! ## Rules with elements inside -/

/-- What a machine has done that has ended a node without a default, or has failed to. -/
def ended (s : Machine) (m : Option Transform → Marker) : List Token → Bool × Machine
  | .mark .slash :: us =>
    s.after ((Grammar.transform s.dialect us).map (·.map fun t => Event.leaf (m (some t))))
  | .mark .braceClose :: us => (true, (s.leave us).tell (Event.leaf (m none)))
  | _ => (false, s)

theorem ended_of_ne {m : Option Transform → Marker} (hslash : us.head? ≠ some (.mark .slash))
    (hbrace : us.head? ≠ some (.mark .braceClose)) : s.ended m us = (false, s) := by
  unfold ended
  split
  · simp at hslash
  · simp at hbrace
  · rfl

theorem ending_eq (m : Option Transform → Marker) (h : us <:+ s.rest) :
    (s.keep.leave us).ending s.events.length s.checkpoint m = some (s.ended m us) := by
  have hrest : (s.keep.leave us).rest = us := rest_leave h
  -- A slash begins a transform, and a brace ends the node
  by_cases hslash : us.head? = some (.mark .slash)
  · obtain ⟨more, rfl⟩ := List.head?_eq_some_iff.1 hslash
    have heat := eat_eq hrest
    have hgives := gives_transform (rest_leave_of_cons hrest)
    rw [leave_leave] at heat hgives
    rw [dialect_leave, dialect_keep] at hgives
    obtain ⟨ht, n, hn⟩ | ⟨t, ht, htransform⟩ := hgives.cases
    · simp [ending, heat, hn, fail_keep, ended, ht, after]
    · simp [ending, heat, htransform, complete_keep_nil, ended, ht, after, Taken.map]
  have hnoslash := eat_of_ne hrest hslash
  by_cases hbrace : us.head? = some (.mark .braceClose)
  · obtain ⟨more, rfl⟩ := List.head?_eq_some_iff.1 hbrace
    have heat := eat_eq hrest
    rw [leave_leave] at heat
    simp [ending, hnoslash, heat, complete_keep_nil, ended]
  · have hnobrace := eat_of_ne hrest hbrace
    have hfail : (s.keep.leave us).fail s.events.length s.checkpoint = some (false, s) :=
      fail_keep s _
    simp [ending, hnoslash, hnobrace, hfail, ended_of_ne hslash hbrace]

/-- Three tokens are taken before what is in the braces. -/
theorem keep_bump_eq {u v : Token} (h : s.rest = t :: u :: v :: us) :
    s.keep.bump.bump.bump = s.keep.leave us := by
  have hsuffix : u :: v :: us <:+ s.keep.rest := h ▸ List.suffix_cons ..
  have hfirst : s.keep.bump = s.keep.leave (u :: v :: us) := bump_eq h
  rw [hfirst, bump_eq (rest_leave hsuffix), leave_leave,
    bump_eq (rest_leave ((List.suffix_cons ..).trans hsuffix)), leave_leave]

theorem head?_ne_of_read {u v w : Token} {readDefault : ReadDefault (u :: v :: w :: us)}
    (h : ∀ more (r : ReadDefault (u :: v :: w :: t :: more)), us = t :: more →
      HEq readDefault r → False) : us.head? ≠ some t :=
  head?_ne fun more heq => by
    subst heq
    exact h more readDefault rfl HEq.rfl

/-- The machine reads a default that begins with the tokens `us` as `readDefault` does. -/
def ReadsDefault (s : Machine) {ts : List Token} (readDefault : ReadDefault ts) : Prop :=
  ∀ us hus m opening, us <:+ s.rest →
    (s.keep.leave us).inside s.events.length m opening =
      some (true, (s.leave (readDefault us hus).rest).tell
        (withDefault m opening (readDefault us hus)))

theorem placeholder_eq {readDefault : ReadDefault ts} (h : s.rest = ts)
    (hdefault : s.ReadsDefault readDefault) :
    s.placeholder = some (s.after (Grammar.placeholder s.dialect ts readDefault)) := by
  unfold Grammar.placeholder
  split
  next ds us readDefault =>
    have hopening := keep_bump_eq h
    split
    next hp => simp [placeholder, h, hp, after]
    next p hp =>
      have hus : us <:+ s.rest := h ▸ suffix_of_cons_cons (List.suffix_cons ..)
      have hrest : (s.keep.leave us).rest = us := rest_leave hus
      have hending := ending_eq (fun t => .placeholder { p with transform := t }) hus
      split
      -- A default
      next more readDefault =>
        have hcolon := eat_eq hrest
        rw [leave_leave] at hcolon
        have hinside := hdefault more (by simp only [List.length_cons]; omega) (.placeholder p)
          ("$\x7b" ++ ds ++ ":") ((List.suffix_cons ..).trans hus)
        simp [placeholder, h, hp, hopening, hcolon, hinside, after, Taken.cons, Taken.behind,
          Default.taken]
      -- Options, unless the tab stop is the final one
      next more _ =>
        have hcolon : (s.keep.leave _).eat .colon = _ := eat_of_ne hrest (by simp)
        cases hfinal : p.index.isFinal with
        | true =>
          rw [ended_of_ne (by simp) (by simp)] at hending
          simp [placeholder, h, hp, hopening, hcolon, hfinal, eatUnless, hending, after]
        | false =>
          have hpipe := eat_eq hrest
          obtain ⟨⟨os, s'⟩, hos, hgives⟩ := gives_options (rest_leave_of_cons hrest)
          rw [leave_leave] at hpipe hos
          obtain ⟨ho, n, hn⟩ | ⟨r, ho, hr⟩ := hgives.cases
          · cases hn
            simp [placeholder, h, hp, hopening, hcolon, hfinal, eatUnless, hpipe, hos, ho,
              fail_keep, after]
          · cases hr
            simp [placeholder, h, hp, hopening, hcolon, hfinal, eatUnless, hpipe, hos, ho,
              complete_keep, after, Taken.map, Taken.cons, Taken.behind]
      -- A transform
      next more _ =>
        have hcolon : (s.keep.leave _).eat .colon = _ := eat_of_ne hrest (by simp)
        have hpipe : (s.keep.leave _).eatUnless p.index.isFinal .pipe = _ :=
          eatUnless_of_ne _ hrest (by simp)
        simp only [placeholder, h, hp, hopening, hcolon, hpipe, hending, ended,
          Bool.false_eq_true, ↓reduceIte]
        exact congrArg some (after_map fun _ => ⟨rfl, rfl⟩)
      -- Nothing more
      next more _ =>
        obtain ⟨n, -, rfl⟩ := placeholder?_eq_some hp
        have hcolon : (s.keep.leave _).eat .colon = _ := eat_of_ne hrest (by simp)
        have hpipe : (s.keep.leave _).eatUnless (TabIndex.ofNat n).isFinal .pipe = _ :=
          eatUnless_of_ne _ hrest (by simp)
        simp [placeholder, h, hp, hopening, hcolon, hpipe, hending, ended, after, Taken.one,
          Taken.cons, Taken.behind]
      -- Nothing that fits, so the machine goes back to where it was
      next hcolon hpipe hslash hbrace =>
        have hcolon : (s.keep.leave us).eat .colon = _ :=
          eat_of_ne hrest (head?_ne_of_read hcolon)
        have hpipe : (s.keep.leave us).eatUnless p.index.isFinal .pipe = _ :=
          eatUnless_of_ne _ hrest (head?_ne_of_read hpipe)
        rw [ended_of_ne (head?_ne_of_read hslash) (head?_ne_of_read hbrace)] at hending
        simp [placeholder, h, hp, hopening, hcolon, hpipe, hending, after]
  next hts =>
    rw [placeholder, h]
    split
    next ds us => exact (hts ds us readDefault rfl HEq.rfl).elim
    next => rfl

theorem variableInBraces_eq {readDefault : ReadDefault ts} (h : s.rest = ts)
    (hdefault : s.ReadsDefault readDefault) :
    s.variableInBraces =
      some (s.after (Grammar.variableInBraces s.dialect ts readDefault)) := by
  unfold Grammar.variableInBraces
  split
  next name us readDefault =>
    have hopening := keep_bump_eq h
    cases ha : s.dialect.acceptsVariable name with
    | false => simp [variableInBraces, h, ha, after]
    | true =>
      have hus : us <:+ s.rest := h ▸ suffix_of_cons_cons (List.suffix_cons ..)
      have hrest : (s.keep.leave us).rest = us := rest_leave hus
      have hending := ending_eq (fun t => .var { name, transform := t }) hus
      simp only [Bool.not_true, Bool.false_eq_true, ↓reduceIte]
      split
      -- A default
      next more readDefault =>
        have hcolon := eat_eq hrest
        rw [leave_leave] at hcolon
        have hinside := hdefault more (by simp only [List.length_cons]; omega) (.var { name })
          ("$\x7b" ++ name ++ ":") ((List.suffix_cons ..).trans hus)
        simp [variableInBraces, h, ha, hopening, hcolon, hinside, after, Taken.cons, Taken.behind,
          Default.taken]
      -- A transform
      next more _ =>
        have hcolon : (s.keep.leave _).eat .colon = _ := eat_of_ne hrest (by simp)
        simp only [variableInBraces, h, ha, hopening, hcolon, hending, ended, Bool.false_eq_true,
          ↓reduceIte]
        exact congrArg some (after_map fun _ => ⟨rfl, rfl⟩)
      -- Nothing more
      next more _ =>
        have hcolon : (s.keep.leave _).eat .colon = _ := eat_of_ne hrest (by simp)
        simp [variableInBraces, h, ha, hopening, hcolon, hending, ended, after, Taken.one,
          Taken.cons, Taken.behind]
      -- Nothing that fits, so the machine goes back to where it was
      next hcolon hslash hbrace =>
        have hcolon : (s.keep.leave us).eat .colon = _ :=
          eat_of_ne hrest (head?_ne_of_read hcolon)
        rw [ended_of_ne (head?_ne_of_read hslash) (head?_ne_of_read hbrace)] at hending
        simp [variableInBraces, h, ha, hopening, hcolon, hending, after]
  next hts =>
    rw [variableInBraces, h]
    split
    next name us => exact (hts name us readDefault rfl HEq.rfl).elim
    next => rfl

/-- A rule that is tried before others. -/
theorem orElse_eq {a : Option (Bool × Machine)} {b : Bool × Machine → Option (Bool × Machine)}
    {r q : Option (Taken (List Event) ts)} (ha : a = some (s.after r))
    (hb : b (false, s) = some (s.after q)) :
    (a.bind fun p => if p.1 then some (true, p.2) else b p) = some (s.after (r <|> q)) := by
  subst ha
  cases r with
  | none => exact hb
  | some t => rfl

mutual

/-- The machine reads an element as it is given by the rules. -/
theorem element_eq {s : Machine} {ts : List Token} (h : s.rest = ts) :
    s.element = some (s.after (Grammar.element s.dialect ts)) := by
  have hdefault := s.readsDefault ts
  rw [element, Grammar.element]
  cases ts with
  | nil =>
    -- No rule takes anything at the end of the tokens
    simp [h, after, Grammar.escaped, Grammar.short, Grammar.placeholder, Grammar.variableInBraces,
      Grammar.codeBlock, Grammar.anyToken]
  | cons t us =>
    -- The rules are tried in the same order
    simp only [atEnd_eq, h, List.isEmpty_cons, Bool.false_eq_true, ↓reduceIte, Option.bind_eq_bind,
      Option.pure_def]
    refine orElse_eq (escaped_eq h) ?_
    refine orElse_eq (short_eq h) ?_
    refine orElse_eq (placeholder_eq h hdefault) ?_
    refine orElse_eq (variableInBraces_eq h hdefault) ?_
    exact orElse_eq (codeBlock_eq h) (anyToken_eq h)
termination_by (ts.length, 1)

/-- The rules for braces call back for a default, always on fewer tokens. -/
theorem readsDefault (s : Machine) (ts : List Token) :
    s.ReadsDefault fun us (_ : us.length < ts.length) => defaultElements s.dialect us := by
  intro us hfewer m opening hus
  have hinside := inside_eq [] m opening hus
  rw [tell_nil] at hinside
  exact hinside
termination_by (ts.length, 0)

/-- The machine reads the elements of a default as they are given by the rules; the events `es` are
those of the elements before. -/
theorem inside_eq {s : Machine} {us : List Token} (es : List Event) (m : Marker) (opening : String)
    (hus : us <:+ s.rest) :
    ((s.keep.leave us).tell es).inside s.events.length m opening =
      some (true, (s.leave (defaultElements s.dialect us).rest).tell
        (if (defaultElements s.dialect us).closed then
          .start m :: (es ++ (defaultElements s.dialect us).events) ++ [.finish]
        else .text opening :: (es ++ (defaultElements s.dialect us).events))) := by
  have hrest : ((s.keep.leave us).tell es).rest = us := rest_leave (s := s.keep) hus
  -- The brace ends the default. Otherwise one element is read, and then the rest, of fewer tokens
  rw [defaultElements.eq_def]
  split
  next more =>
    have hbrace := eat_eq hrest
    rw [leave_tell, leave_leave] at hbrace
    simp [inside, hbrace, complete_keep]
  next hbrace =>
    have hbrace := eat_of_ne hrest (head?_ne fun more heq => hbrace more heq)
    have helement := element_eq hrest
    rw [dialect_tell, dialect_leave, dialect_keep] at helement
    split
    next he =>
      rw [he, after] at helement
      rw [inside]
      simp [hbrace, helement, fill_keep]
    next e he =>
      rw [he, after, leave_tell, leave_leave, tell_tell] at helement
      have := e.shorter
      have hrest := (walks_element (takes_of_eq_some he)).suffix
      have ih := inside_eq (es ++ e.value) m opening (hrest.trans hus)
      rw [inside]
      simp [hbrace, helement, ih]
termination_by (us.length, 2)

end

/-! ## Forward or back -/

/-- A rule that goes forward, with events in balance, or leaves no trace. -/
def GoesForward (rule : Machine → Option (Bool × Machine)) : Prop :=
  ∀ s, rule s = some (false, s) ∨
    ∃ n es, s.pos < n ∧ n ≤ s.tokens.length ∧ Event.Balanced es ∧
      rule s = some (true, { s with pos := n, events := s.events ++ es.map some })

theorem goesForward_of_eq {rule : Machine → Option (Bool × Machine)}
    (taken : (s : Machine) → Option (Taken (List Event) s.rest))
    (heq : ∀ s, rule s = some (s.after (taken s)))
    (hbalanced : ∀ s t, taken s = some t → Event.Balanced t.value) : GoesForward rule := by
  intro s
  rw [heq]
  cases ht : taken s with
  | none => exact Or.inl rfl
  | some t =>
    have hforward : s.pos < s.tokens.length - t.rest.length := by
      have hshorter := t.shorter
      simp only [rest, List.length_drop] at hshorter
      omega
    exact Or.inr ⟨_, t.value, hforward, Nat.sub_le .., hbalanced s t ht, rfl⟩

/-- The rules for an element, in the order in which they are tried. -/
def elementRules : List (Machine → Option (Bool × Machine)) :=
  [escaped, short, placeholder, variableInBraces, codeBlock, anyToken]

theorem goesForward_of_mem : ∀ rule ∈ elementRules, GoesForward rule := by
  simp only [elementRules, List.forall_mem_cons, List.not_mem_nil, false_implies, implies_true,
    and_true]
  refine ⟨?escaped, ?short, ?placeholder, ?variableInBraces, ?codeBlock, ?anyToken⟩
  case escaped =>
    exact goesForward_of_eq (fun s => Grammar.escaped s.dialect s.rest) (fun _ => escaped_eq rfl)
      fun _ _ h => (construct_of_escaped (takes_of_eq_some h)).balanced
  case short =>
    exact goesForward_of_eq (fun s => Grammar.short s.dialect s.rest) (fun _ => short_eq rfl)
      fun _ _ h => (construct_of_short (takes_of_eq_some h)).balanced
  case placeholder =>
    exact goesForward_of_eq
      (fun s => Grammar.placeholder s.dialect s.rest fun us _ => defaultElements s.dialect us)
      (fun s => placeholder_eq rfl (s.readsDefault _)) fun _ _ h =>
        (construct_of_placeholder (fun _ _ => rfl) (takes_of_eq_some h)).balanced
  case variableInBraces =>
    exact goesForward_of_eq
      (fun s => Grammar.variableInBraces s.dialect s.rest fun us _ => defaultElements s.dialect us)
      (fun s => variableInBraces_eq rfl (s.readsDefault _)) fun _ _ h =>
        (construct_of_variableInBraces (fun _ _ => rfl) (takes_of_eq_some h)).balanced
  case codeBlock =>
    exact goesForward_of_eq (fun s => Grammar.codeBlock s.dialect s.rest)
      (fun _ => codeBlock_eq rfl) fun _ _ h =>
        (construct_of_codeBlock (takes_of_eq_some h)).balanced
  case anyToken =>
    refine goesForward_of_eq (fun s => Grammar.anyToken s.rest) (fun _ => anyToken_eq rfl)
      fun _ _ h => ?_
    obtain ⟨t, -, htext⟩ := exists_of_anyToken (takes_of_eq_some h)
    exact htext ▸ Event.balanced_text t.text

/-! ## To the end -/

/-- The machine reads a source as it is given by the rules, up to the end of the tokens. -/
theorem root_eq {s : Machine} {ts : List Token} (h : s.rest = ts) :
    s.root = some ((s.goto (max s.pos s.tokens.length)).tell (elements s.dialect ts)) := by
  have helement := element_eq h
  rw [root, elements]
  split
  next he =>
    -- The end has been reached already
    obtain rfl := element_eq_none he
    have hend : max s.pos s.tokens.length = s.pos :=
      Nat.max_eq_left (List.drop_eq_nil_iff.1 h)
    rw [he, after] at helement
    simp [helement, hend, tell_nil, goto]
  next e he =>
    rw [he, after] at helement
    have hrest : e.rest <:+ s.rest := h ▸ (walks_element (takes_of_eq_some he)).suffix
    have hshorter := e.shorter
    have ih : ((s.leave e.rest).tell e.value).root =
        some ((s.goto s.tokens.length).tell (e.value ++ elements s.dialect e.rest)) := by
      have hend : max (s.leave e.rest).pos s.tokens.length = s.tokens.length :=
        Nat.max_eq_right (Nat.sub_le ..)
      rw [root_eq (s := (s.leave e.rest).tell e.value) (rest_leave hrest), ← tell_tell, ← hend]
      rfl
    have hend : max s.pos s.tokens.length = s.tokens.length := by
      have hlength := congrArg List.length h
      rw [rest, List.length_drop] at hlength
      omega
    rw [hend, ← ih]
    simp [helement]
termination_by ts.length

/-- Whatever the tokens, each rule for an element goes forward or leaves no trace, so a machine
comes to the end of them, with events in balance and no place left empty. And a tree that is built
of the events of a source loses nothing. -/
theorem goesForward_root_acceptsAll :
    (∀ rule ∈ elementRules, GoesForward rule) ∧
      (∀ s : Machine, ∃ es, Event.Balanced es ∧ s.root = some
        { s with pos := max s.pos s.tokens.length, events := s.events ++ es.map some }) ∧
      ∀ identity d ts, ∃ s, (start d ts).root = some s ∧ s.pos = ts.length ∧
        s.events = (elements d ts).map some ∧
        Builder.AcceptsAll ⟨Tree.empty identity d, []⟩ (elements d ts) := by
  refine ⟨goesForward_of_mem, fun s => ?_, fun identity d ts => ?_⟩
  · exact ⟨_, (walks_elements s.rest).balanced, root_eq rfl⟩
  · have hroot : (start d ts).root =
        some (((start d ts).goto (max 0 ts.length)).tell (elements d ts)) := root_eq rfl
    exact ⟨_, hroot, Nat.max_eq_right (Nat.zero_le _), List.nil_append _,
      Builder.acceptsAll_of_balanced identity d (walks_elements ts).balanced⟩

end Machine

end TabStop
