import TabStop.Grammar.Element
import TabStop.Proofs.Token.Lexing

/-!
# What a rule leaves

A rule of the grammar takes tokens off the front, so what it leaves is the end of its tokens. If these
stand for their texts, so does what is left of them.
-/

namespace TabStop.Grammar

open Token

/-! ## What rules take -/

/-- A rule has taken the tokens before `rest` and given `value`. -/
def Takes {α : Type} {ts : List Token} (r : Option (Taken α ts)) (value : α)
    (rest : List Token) : Prop :=
  ∃ h, r = some ⟨value, rest, h⟩

/-- Tokens that stand for their texts, as those of a source do. -/
def Sound (ts : List Token) : Prop := ∀ t ∈ ts, t.WellFormed

theorem Sound.tail {t : Token} {ts : List Token} (h : Sound (t :: ts)) : Sound ts :=
  fun u hu => h u (List.mem_cons_of_mem _ hu)

theorem Sound.of_suffix {ts rest : List Token} (h : Sound ts) (hrest : rest <:+ ts) : Sound rest :=
  fun t ht => h t (hrest.subset ht)

theorem Sound.head {t : Token} {ts : List Token} (h : Sound (t :: ts)) : t.WellFormed :=
  h t (List.mem_cons_self ..)

theorem sound_lex (cs : List Char) : Sound (lex cs) := fun _ h => wellFormed_of_mem_lex h

@[simp] theorem not_takes_none {α : Type} {ts rest : List Token} {value : α} :
    ¬Takes (none : Option (Taken α ts)) value rest := by
  rintro ⟨h, hr⟩
  simp at hr

@[simp] theorem takes_some {α : Type} {ts rest : List Token} {t : Taken α ts} {value : α} :
    Takes (some t) value rest ↔ t.value = value ∧ t.rest = rest := by
  constructor
  · rintro ⟨h, hr⟩
    cases hr
    exact ⟨rfl, rfl⟩
  · rintro ⟨rfl, rfl⟩
    exact ⟨t.shorter, rfl⟩

theorem takes_of_eq_some {α : Type} {ts : List Token} {r : Option (Taken α ts)} {t : Taken α ts}
    (h : r = some t) : Takes r t.value t.rest := h ▸ takes_some.2 ⟨rfl, rfl⟩

section

variable {α β : Type} {ts us rest : List Token} {r : Option (Taken α ts)}
  {g : Taken α ts → Taken β us}

/-- What is made of what a rule has taken off the end of the tokens. -/
theorem Takes.of_map {value : β} (h : Takes (r.map g) value rest) (f : α → β)
    (hg : ∀ t, (g t).value = f t.value ∧ (g t).rest = t.rest) :
    ∃ a, Takes r a rest ∧ value = f a := by
  obtain ⟨h, hr⟩ := h
  obtain ⟨t, rfl, ht⟩ := Option.map_eq_some_iff.1 hr
  have hv : value = f t.value ∧ rest = t.rest := by simpa [ht] using hg t
  obtain ⟨rfl, rfl⟩ := hv
  exact ⟨t.value, ⟨t.shorter, rfl⟩, rfl⟩

theorem Takes.map {a : α} (h : Takes r a rest) (f : α → β)
    (hg : ∀ t, (g t).value = f t.value ∧ (g t).rest = t.rest) :
    Takes (r.map g) (f a) rest := by
  obtain ⟨h, rfl⟩ := h
  obtain ⟨hvalue, hrest⟩ := hg ⟨a, rest, h⟩
  cases ht : g ⟨a, rest, h⟩ with
  | mk value rest' shorter =>
    simp only [ht] at hvalue hrest
    subst hvalue hrest
    exact ⟨shorter, by simp [ht]⟩

end

variable {d : Dialect} {ts rest : List Token}

theorem takes_bind {α β : Type} {us : List Token} {r : Option (Taken α ts)}
    {g : Taken α ts → Option (Taken β us)} {value : β} :
    Takes (r >>= g) value rest ↔ ∃ t, r = some t ∧ Takes (g t) value rest := by
  cases r with
  | none => simp
  | some t => simp

theorem takes_orElse {α : Type} {r s : Option (Taken α ts)} {value : α}
    (h : Takes (r <|> s) value rest) : Takes r value rest ∨ Takes s value rest := by
  cases r with
  | none => exact Or.inr h
  | some t => exact Or.inl h

theorem suffix_of_cons_cons {t u : Token} (h : rest <:+ ts) : rest <:+ t :: u :: ts :=
  (h.trans (List.suffix_cons u ts)).trans (List.suffix_cons t _)

theorem suffix_of_cons {t : Token} (h : rest <:+ ts) : rest <:+ t :: ts :=
  h.trans (List.suffix_cons t ts)

/-! ## Parts of a transform -/

theorem suffix_regexPart {value : String} (h : Takes (regexPart d ts) value rest) : rest <:+ ts := by
  fun_induction regexPart d ts generalizing value with
  | case1 => simp at h
  | case2 ts =>
    obtain ⟨-, rfl⟩ := takes_some.1 h
    exact List.suffix_cons ..
  | case3 ts ih =>
    obtain ⟨a, ha, -⟩ := h.of_map ("/" ++ ·) fun _ => ⟨rfl, rfl⟩
    exact suffix_of_cons_cons (ih ha)
  | case4 w ts start =>
    rename_i ih
    obtain ⟨a, ha, -⟩ := h.of_map (start ++ ·) fun _ => ⟨rfl, rfl⟩
    exact suffix_of_cons_cons (ih ha)
  | case5 t ts _ _ _ ih =>
    obtain ⟨a, ha, -⟩ := h.of_map (t.text ++ ·) fun _ => ⟨rfl, rfl⟩
    exact suffix_of_cons (ih ha)

theorem suffix_branchText {stop : Mark} {value : String}
    (h : Takes (branchText stop ts) value rest) : rest <:+ ts := by
  fun_induction branchText stop ts generalizing value with
  | case1 | case3 | case4 => simp at h
  | case2 m ts hm ih =>
    obtain ⟨a, ha, -⟩ := h.of_map (String.singleton m.char ++ ·) fun _ => ⟨rfl, rfl⟩
    exact suffix_of_cons_cons (ih ha)
  | case5 ts _ =>
    obtain ⟨-, rfl⟩ := takes_some.1 h
    exact List.suffix_cons ..
  | case6 t ts _ hstop ih =>
    obtain ⟨a, ha, -⟩ := h.of_map (t.text ++ ·) fun _ => ⟨rfl, rfl⟩
    exact suffix_of_cons (ih ha)

theorem takes_until? {stop : Mark} {value : String} :
    Takes (until? stop ts) value rest ↔ Takes (branchText stop ts) value rest ∧ value ≠ "" := by
  unfold until?
  cases branchText stop ts with
  | none => simp
  | some t =>
    by_cases hv : t.value = ""
    · rw [Option.filter_some, if_neg (by simp [hv]), takes_some]
      refine ⟨fun h => absurd h not_takes_none, ?_⟩
      rintro ⟨⟨rfl, -⟩, hne⟩
      exact absurd hv hne
    · have : t.value.isEmpty = false := by simpa using hv
      simp only [Option.filter_some, this, Bool.not_false, ↓reduceIte, takes_some]
      exact ⟨fun h => ⟨h, h.1 ▸ hv⟩, fun h => h.1⟩

theorem suffix_until? {stop : Mark} {value : String} (h : Takes (until? stop ts) value rest) :
    rest <:+ ts :=
  suffix_branchText (takes_until?.1 h).1

theorem suffix_formatSuffix {i : Nat} {f : FormatString} (h : Takes (formatSuffix i ts) f rest) :
    rest <:+ ts := by
  -- There is a shorthand, one text or two of them
  fun_cases formatSuffix i ts with
  | case1 name us =>
    obtain ⟨-, rfl⟩ := takes_some.1 h
    exact suffix_of_cons (suffix_of_cons (List.suffix_cons ..))
  | case2 us hname =>
    rw [formatSuffix] at h
    · simp at h
    · exact hname
  | case3 us =>
    obtain ⟨a, ha, -⟩ := h.of_map (fun a => { index := i, ifText := some a }) fun _ => ⟨rfl, rfl⟩
    exact suffix_of_cons (suffix_until? ha)
  | case4 us =>
    obtain ⟨b, hb, -⟩ := h.of_map (fun b => { index := i, elseText := some b })
      fun _ => ⟨rfl, rfl⟩
    exact suffix_of_cons (suffix_until? hb)
  | case5 us =>
    obtain ⟨a, ha, h⟩ := takes_bind.1 h
    obtain ⟨b, hb, h⟩ := takes_bind.1 h
    obtain ⟨-, rfl⟩ := takes_some.1 h
    have hfirst : a.rest <:+ us := suffix_until? (takes_of_eq_some ha)
    have hsecond : b.rest <:+ a.rest := suffix_until? (takes_of_eq_some hb)
    exact suffix_of_cons (hsecond.trans hfirst)
  | case6 =>
    rw [formatSuffix] at h
    · obtain ⟨b, hb, -⟩ :=
        h.of_map (fun b => { index := i, elseText := some b }) fun _ => ⟨rfl, rfl⟩
      exact suffix_until? hb
    all_goals assumption

theorem suffix_formatRest {i : Nat} {f : FormatString} (h : Takes (formatRest d i ts) f rest) :
    rest <:+ ts := by
  fun_cases formatRest d i ts with
  | case1 us =>
    obtain ⟨-, rfl⟩ := takes_some.1 h
    exact List.suffix_cons ..
  | case2 us hd => simp [formatRest, hd] at h
  | case3 us hd =>
    rw [formatRest, if_neg hd] at h
    obtain ⟨f, hf, -⟩ := h.of_map id fun _ => ⟨rfl, rfl⟩
    exact suffix_of_cons (suffix_formatSuffix hf)
  | case4 =>
    rw [formatRest] at h
    · simp at h
    all_goals assumption

/-- A reference to a group is an index alone, or an index in braces and what follows it there. -/
theorem formatString_cases {f : FormatString} (h : Takes (formatString d ts) f rest) :
    ∃ ds i, indexBelow? groupBound ds = some i ∧
      ((ts = digits ds :: rest ∧ f = { index := i }) ∨
        ∃ us, ts = mark .braceOpen :: digits ds :: us ∧ Takes (formatRest d i us) f rest) := by
  fun_cases formatString d ts with
  | case1 ds us =>
    rw [formatString] at h
    cases hi : indexBelow? groupBound ds with
    | none => simp [hi] at h
    | some i =>
      rw [hi] at h
      obtain ⟨rfl, rfl⟩ := takes_some.1 h
      exact ⟨ds, i, hi, Or.inl ⟨rfl, rfl⟩⟩
  | case2 ds us =>
    rw [formatString] at h
    cases hi : indexBelow? groupBound ds with
    | none => simp [hi] at h
    | some i =>
      rw [hi] at h
      obtain ⟨t, ht, h⟩ := takes_bind.1 h
      obtain ⟨rfl, rfl⟩ := takes_some.1 h
      exact ⟨ds, i, hi, Or.inr ⟨us, rfl, takes_of_eq_some ht⟩⟩
  | case3 =>
    rw [formatString] at h
    · simp at h
    all_goals assumption

theorem suffix_formatString {f : FormatString} (h : Takes (formatString d ts) f rest) :
    rest <:+ ts := by
  obtain ⟨ds, i, -, ⟨rfl, -⟩ | ⟨us, rfl, hrest⟩⟩ := formatString_cases h
  · exact List.suffix_cons ..
  · exact suffix_of_cons_cons (suffix_formatRest hrest)

theorem suffix_templateEscape (d : Dialect) (ts : List Token) :
    (templateEscape d ts).rest <:+ ts := by
  -- At most the token behind the backslash is taken
  fun_cases templateEscape d ts with
  | case1 m us hm =>
    simp only [templateEscape, hm]
    exact List.suffix_cons ..
  | case2 m us hm =>
    simp only [templateEscape, hm]
    exact List.suffix_rfl
  | case3 w us c cs hw hd directive hc more =>
    simp only [templateEscape, hw, hd, hc]
    exact List.suffix_cons ..
  | case4 w us c cs hw hd hc =>
    simp only [templateEscape, hw, hd, hc]
    exact List.suffix_rfl
  | case5 w us hw =>
    rw [templateEscape]
    split
    next c cs hd hcs => exact (hw c cs hd hcs).elim
    next => exact List.suffix_rfl
  | case6 us hm hw =>
    rw [templateEscape]
    · exact List.suffix_rfl
    · exact hm
    · exact hw

mutual

theorem suffix_piece {ts rest : List Token} {ps : List Piece} (h : Takes (piece d ts) ps rest) :
    rest <:+ ts := by
  rw [piece.eq_def] at h
  split at h
  · simp at h
  next us =>
    obtain ⟨-, rfl⟩ := takes_some.1 h
    exact suffix_of_cons (suffix_templateEscape d us)
  next us =>
    split at h
    next f hf =>
      obtain ⟨-, rfl⟩ := takes_some.1 h
      exact suffix_of_cons (suffix_formatString (takes_of_eq_some hf))
    next =>
      obtain ⟨-, rfl⟩ := takes_some.1 h
      exact List.suffix_cons ..
  next us =>
    split at h
    next =>
      split at h
      next c hc =>
        obtain ⟨-, rfl⟩ := takes_some.1 h
        exact suffix_of_cons (suffix_condition (takes_of_eq_some hc))
      next =>
        obtain ⟨-, rfl⟩ := takes_some.1 h
        exact List.suffix_cons ..
    next =>
      obtain ⟨-, rfl⟩ := takes_some.1 h
      exact List.suffix_cons ..
  next t us _ _ _ =>
    obtain ⟨-, rfl⟩ := takes_some.1 h
    exact List.suffix_cons ..
termination_by (ts.length, 1)

theorem suffix_condition {ts rest : List Token} {p : Piece} (h : Takes (condition d ts) p rest) :
    rest <:+ ts := by
  rw [condition.eq_def] at h
  split at h
  next ds us =>
    obtain ⟨i, -, h⟩ := Option.bind_eq_some_iff.1 h.choose_spec
    obtain ⟨a, ha, h⟩ := Option.bind_eq_some_iff.1 h
    -- The branch for a match comes first, then there may be one for no match behind a colon
    have hif : a.rest <:+ us := suffix_branch ha
    refine suffix_of_cons (suffix_of_cons_cons (List.IsSuffix.trans ?_ hif))
    split at h
    next more hmore =>
      obtain ⟨b, hb, h⟩ := Option.bind_eq_some_iff.1 h
      have hlonger : more.length < us.length := by
        have := a.noLonger
        rw [hmore] at this
        exact this
      have helse : b.rest <:+ more := suffix_branch hb
      split at h
      next after hafter =>
        obtain rfl : after = rest := congrArg Taken.rest (Option.some.inj h)
        rw [hmore]
        exact suffix_of_cons ((List.suffix_cons _ after).trans (hafter ▸ helse))
      next => simp at h
    next after hafter =>
      obtain rfl : after = rest := congrArg Taken.rest (Option.some.inj h)
      rw [hafter]
      exact List.suffix_cons ..
    next => simp at h
  next => simp at h
termination_by (ts.length, 0)
decreasing_by
  · subst_vars
    exact Prod.Lex.left _ _ (by simp only [List.length_cons]; omega)
  · subst_vars
    exact Prod.Lex.left _ _ (by simp only [List.length_cons]; omega)

theorem suffix_branch {ts : List Token} {colon : Bool} {b : Branch ts}
    (h : branch d colon ts = some b) : b.rest <:+ ts := by
  rw [branch.eq_def] at h
  split at h
  · simp at h
  · simp at h
  · cases h
    exact List.suffix_rfl
  -- One piece is taken, and then the rest of the branch
  next t us _ _ =>
    split at h
    · cases h
      exact List.suffix_rfl
    · split at h
      · simp at h
      next p hp =>
        have hfirst : p.rest <:+ t :: us := suffix_piece (takes_of_eq_some hp)
        have := p.shorter
        simp only at h
        split at h
        · simp at h
        next c hc =>
          have hmore := suffix_branch hc
          cases h
          exact hmore.trans hfirst
termination_by (ts.length, 2)
decreasing_by
  · subst_vars
    exact Prod.Lex.right _ (by decide)
  · subst_vars
    exact Prod.Lex.left _ _ (by assumption)

end

theorem suffix_templatePart {ts rest : List Token} {ps : List Piece}
    (h : Takes (templatePart d ts) ps rest) : rest <:+ ts := by
  rw [templatePart.eq_def] at h
  split at h
  · obtain ⟨-, rfl⟩ := takes_some.1 h
    exact List.suffix_cons ..
  next us _ =>
    split at h
    · simp at h
    next p hp =>
      obtain ⟨qs, hqs, -⟩ := h.of_map (p.value ++ ·) fun _ => ⟨rfl, rfl⟩
      have := p.shorter
      have hfirst : p.rest <:+ ts := suffix_piece (takes_of_eq_some hp)
      exact (suffix_templatePart hqs).trans hfirst
termination_by ts.length

theorem suffix_flagsPart {value : String} (h : Takes (flagsPart ts) value rest) : rest <:+ ts := by
  fun_induction flagsPart ts generalizing value with
  | case1 => simp at h
  | case2 ts =>
    obtain ⟨-, rfl⟩ := takes_some.1 h
    exact List.suffix_cons ..
  | case3 t ts _ ih =>
    obtain ⟨a, ha, -⟩ := h.of_map (t.text ++ ·) fun _ => ⟨rfl, rfl⟩
    exact suffix_of_cons (ih ha)

theorem suffix_transform {t : Transform} (h : Takes (transform d ts) t rest) : rest <:+ ts := by
  obtain ⟨pattern, hpattern, h⟩ := takes_bind.1 h
  obtain ⟨pieces, hpieces, h⟩ := takes_bind.1 h
  obtain ⟨letters, hletters, h⟩ := takes_bind.1 h
  have hfirst : pattern.rest <:+ ts := suffix_regexPart (takes_of_eq_some hpattern)
  have hsecond : pieces.rest <:+ pattern.rest :=
    suffix_templatePart (takes_of_eq_some hpieces)
  have hthird : letters.rest <:+ pieces.rest :=
    suffix_flagsPart (takes_of_eq_some hletters)
  simp only at h
  split at h
  · simp at h
  · obtain ⟨-, rfl⟩ := takes_some.1 h
    exact (hthird.trans hsecond).trans hfirst

/-! ## Options and code -/

theorem suffix_optionText {cs : List Char} (h : optionText ts = some (cs, rest)) : rest <:+ ts := by
  fun_induction optionText ts generalizing cs with
  | case1 => simp at h
  | case2 | case3 =>
    cases h
    exact List.suffix_rfl
  | case4 ts ih | case5 ts ih | case6 ts ih =>
    obtain ⟨⟨cs, rest⟩, hcs, h⟩ := Option.bind_eq_some_iff.1 h
    cases h
    exact suffix_of_cons_cons (ih hcs)
  | case7 t ts _ _ _ _ _ ih =>
    obtain ⟨⟨cs, rest⟩, hcs, h⟩ := Option.bind_eq_some_iff.1 h
    cases h
    exact suffix_of_cons (ih hcs)

theorem suffix_options {ts rest : List Token} {os : List String} (h : Takes (options ts) os rest) :
    rest <:+ ts := by
  rw [options.eq_def] at h
  split at h
  · simp at h
  next cs us hus =>
    have hfirst := suffix_optionText hus
    split at h
    · simp at h
    · split at h
      -- Behind a comma there are more options
      next more hmore =>
        obtain ⟨os, hos, -⟩ := h.of_map (String.ofList cs :: ·) fun _ => ⟨rfl, rfl⟩
        exact (suffix_of_cons (suffix_options hos)).trans hfirst
      next more hmore =>
        obtain ⟨-, rfl⟩ := takes_some.1 h
        exact (suffix_of_cons (List.suffix_cons ..)).trans hfirst
      · simp at h
termination_by ts.length

theorem suffix_blockBody {body : List Char} (h : Takes (blockBody ts) body rest) : rest <:+ ts := by
  fun_induction blockBody ts generalizing body with
  | case1 => simp at h
  | case2 ts =>
    obtain ⟨-, rfl⟩ := takes_some.1 h
    exact List.suffix_cons ..
  | case3 ts ih =>
    obtain ⟨a, ha, -⟩ := h.of_map (fun body => '\\' :: '`' :: body) fun _ => ⟨rfl, rfl⟩
    exact suffix_of_cons_cons (ih ha)
  | case4 t ts _ _ ih =>
    obtain ⟨a, ha, -⟩ := h.of_map (fun body => t.text.toList ++ body) fun _ => ⟨rfl, rfl⟩
    exact suffix_of_cons (ih ha)

/-- Code of a kind but the usual one starts with two tokens that tell the kind, of one character
each. -/
theorem exists_of_blockKind (h : blockKind ts ≠ .shell) :
    ∃ x us, (x = 'p' ∨ x = 'v') ∧ ts = other "!" :: word (String.singleton x) :: us := by
  unfold blockKind at h
  split at h
  next us => exact ⟨'p', us, Or.inl rfl, rfl⟩
  next us => exact ⟨'v', us, Or.inr rfl, rfl⟩
  next => exact absurd rfl h

theorem suffix_block {b : CodeBlock} (h : Takes (block ts) b rest) : rest <:+ ts := by
  unfold block at h
  simp only at h
  split at h
  · obtain ⟨body, hbody, -⟩ := h.of_map (blockOf (blockKind ts)) fun _ => ⟨rfl, rfl⟩
    exact suffix_blockBody hbody
  · obtain ⟨body, hbody, -⟩ := h.of_map (blockOf (blockKind ts)) fun _ => ⟨rfl, rfl⟩
    exact (suffix_blockBody hbody).trans (List.drop_suffix 2 ts)

end TabStop.Grammar
