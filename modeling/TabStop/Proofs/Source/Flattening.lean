import TabStop.Proofs.Source.Escaping
import TabStop.Proofs.Template.CaseFolding

/-!
# What an escaped text is flattened to

In TextMate an escaped text is flattened to the text. In UltiSnips two things are not escaped: the
backticks around code, and the backslash and letter of a case directive, which is looked for in the
text that the snippet shows. So code is dropped and directives are followed, and the texts that come
back as they were are those with neither in them.
-/

namespace TabStop

open Token Grammar

theorem Mark.eq_of_char {m n : Mark} (h : m.char = n.char) : m = n :=
  Option.some.inj ((Mark.ofChar?_eq_some.2 h.symm).symm.trans (Mark.ofChar?_char n))

namespace Snippet

/-! ## Texts with code in them -/

/-- What stands behind the first backtick that no backslash stands right before. -/
def afterBlock : List Char → Option (List Char)
  | [] => none
  | '`' :: cs => some cs
  | '\\' :: '`' :: cs => afterBlock cs
  | _ :: cs => afterBlock cs

theorem afterBlock_cons {c : Char} {cs : List Char} (hc : c ≠ '`')
    (hback : c = '\\' → cs.head? ≠ some '`') : afterBlock (c :: cs) = afterBlock cs := by
  rw [afterBlock]
  · exact hc
  · rintro cs rfl rfl
    exact hback rfl rfl

theorem afterBlock_append {cs : List Char} (hcs : '`' ∉ cs) (hback : '\\' ∉ cs) (ds : List Char) :
    afterBlock (cs ++ ds) = afterBlock ds := by
  induction cs with
  | nil => rfl
  | cons c cs ih =>
    obtain ⟨hc, hcs⟩ := not_or.1 (List.mem_cons.not.1 hcs)
    obtain ⟨hb, hback⟩ := not_or.1 (List.mem_cons.not.1 hback)
    rw [List.cons_append, afterBlock_cons (Ne.symm hc) fun h => absurd h.symm hb, ih hcs hback]

/-- What is behind code is behind a backtick. -/
theorem suffix_afterBlock {cs rest : List Char} (h : afterBlock cs = some rest) :
    '`' :: rest <:+ cs := by
  fun_induction afterBlock cs with
  | case1 => simp at h
  | case2 cs =>
    obtain rfl := Option.some.inj h
    exact List.suffix_rfl
  | case3 cs ih => exact ((ih h).trans (List.suffix_cons ..)).trans (List.suffix_cons ..)
  | case4 c cs _ _ ih => exact (ih h).trans (List.suffix_cons ..)

theorem count_afterBlock {cs rest : List Char} (h : afterBlock cs = some rest) :
    rest.count '`' < cs.count '`' := by
  have hcount := (suffix_afterBlock h).sublist.count_le '`'
  rw [List.count_cons_self] at hcount
  omega

theorem afterBlock_shorter {cs rest : List Char} (h : afterBlock cs = some rest) :
    rest.length < cs.length := (suffix_afterBlock h).length_le

/-- Behind a first character, a text ends as before, unless nothing comes behind it. -/
theorem getLast?_cons_ne {c : Char} {body : List Char} (h : body = [] → c ≠ '\\') :
    (c :: body).getLast? ≠ some '\\' ↔ body.getLast? ≠ some '\\' := by
  cases body with
  | nil => simpa using h rfl
  | cons b body => rw [List.getLast?_cons_cons]

theorem isSome_afterBlock {cs : List Char} : (afterBlock cs).isSome ↔
    ∃ body after, cs = body ++ '`' :: after ∧ body.getLast? ≠ some '\\' := by
  fun_induction afterBlock cs with
  | case1 => simp
  | case2 cs => simpa using ⟨[], by simp⟩
  | case3 cs ih =>
    rw [ih]
    constructor
    · rintro ⟨body, after, rfl, hlast⟩
      refine ⟨'\\' :: '`' :: body, after, rfl, ?_⟩
      rwa [List.getLast?_cons_cons, getLast?_cons_ne (by simp)]
    · rintro ⟨body, after, hcs, hlast⟩
      -- The body begins with the guarded backtick, for it cannot end in its backslash
      match body with
      | [] => simp at hcs
      | [b] =>
        obtain ⟨rfl, -⟩ := List.cons.inj hcs
        exact absurd rfl hlast
      | b :: b' :: body =>
        obtain ⟨rfl, rfl, rfl⟩ : b = '\\' ∧ b' = '`' ∧ cs = body ++ '`' :: after := by
          simpa [eq_comm] using hcs
        rw [List.getLast?_cons_cons, getLast?_cons_ne (by simp)] at hlast
        exact ⟨body, after, rfl, hlast⟩
  | case4 c cs hc hback ih =>
    rw [ih]
    constructor
    · rintro ⟨body, after, rfl, hlast⟩
      refine ⟨c :: body, after, rfl, (getLast?_cons_ne ?_).2 hlast⟩
      rintro rfl rfl
      exact hback after rfl rfl
    · rintro ⟨body, after, hcs, hlast⟩
      cases body with
      | nil => exact absurd (List.cons.inj hcs).1 hc
      | cons b body =>
        obtain ⟨rfl, rfl⟩ := List.cons.inj hcs
        refine ⟨body, after, rfl, (getLast?_cons_ne ?_).1 hlast⟩
        rintro rfl rfl
        exact hback after rfl rfl

/-- A text without the code in it, which stands from a backtick through the one that ends it. -/
def withoutBlocks : List Char → List Char
  | [] => []
  | c :: cs =>
    if c = '`' then
      match h : afterBlock cs with
      | some rest =>
        have := afterBlock_shorter h
        withoutBlocks rest
      | none => c :: withoutBlocks cs
    else c :: withoutBlocks cs
termination_by cs => cs.length

theorem withoutBlocks_some {cs rest : List Char} (h : afterBlock cs = some rest) :
    withoutBlocks ('`' :: cs) = withoutBlocks rest := by
  rw [withoutBlocks, if_pos rfl]
  split <;> simp_all

theorem withoutBlocks_none {cs : List Char} (h : afterBlock cs = none) :
    withoutBlocks ('`' :: cs) = '`' :: withoutBlocks cs := by
  rw [withoutBlocks, if_pos rfl]
  split <;> simp_all

theorem withoutBlocks_append {cs : List Char} (h : '`' ∉ cs) (ds : List Char) :
    withoutBlocks (cs ++ ds) = cs ++ withoutBlocks ds := by
  induction cs with
  | nil => rfl
  | cons c cs ih =>
    obtain ⟨hc, hcs⟩ := not_or.1 (List.mem_cons.not.1 h)
    rw [List.cons_append, withoutBlocks, if_neg (Ne.symm hc), ih hcs]
    rfl

/-- A text holds code if two backticks are in it and no backslash stands right before the second. -/
def HoldsBlock (cs : List Char) : Prop :=
  ∃ before body after, cs = before ++ '`' :: body ++ '`' :: after ∧ body.getLast? ≠ some '\\'

theorem holdsBlock_cons {c : Char} {cs : List Char} :
    HoldsBlock (c :: cs) ↔ c = '`' ∧ (afterBlock cs).isSome ∨ HoldsBlock cs := by
  rw [isSome_afterBlock]
  constructor
  · rintro ⟨before, body, after, hcs, hlast⟩
    cases before with
    | nil =>
      obtain ⟨rfl, rfl⟩ := List.cons.inj hcs
      exact Or.inl ⟨rfl, body, after, rfl, hlast⟩
    | cons b before =>
      obtain ⟨rfl, rfl⟩ := List.cons.inj hcs
      exact Or.inr ⟨before, body, after, rfl, hlast⟩
  · rintro (⟨rfl, body, after, rfl, hlast⟩ | ⟨before, body, after, rfl, hlast⟩)
    · exact ⟨[], body, after, rfl, hlast⟩
    · exact ⟨c :: before, body, after, rfl, hlast⟩

/-- Without code a text is left as it is; else backticks go with the code that they are around. -/
theorem withoutBlocks_cases (cs : List Char) :
    ¬HoldsBlock cs ∧ withoutBlocks cs = cs ∨
      HoldsBlock cs ∧ (withoutBlocks cs).count '`' < cs.count '`' := by
  fun_induction withoutBlocks cs with
  | case1 => exact Or.inl ⟨fun ⟨_, _, _, h, _⟩ => by simp at h, rfl⟩
  | case2 cs rest h _ ih =>
    refine Or.inr ⟨holdsBlock_cons.2 (Or.inl ⟨rfl, by simp [h]⟩), ?_⟩
    have hle : (withoutBlocks rest).count '`' ≤ rest.count '`' := by
      rcases ih with ⟨-, he⟩ | ⟨-, hlt⟩
      · exact Nat.le_of_eq (congrArg _ he)
      · exact Nat.le_of_lt hlt
    calc (withoutBlocks rest).count '`' ≤ rest.count '`' := hle
      _ < cs.count '`' := count_afterBlock h
      _ ≤ ('`' :: cs).count '`' := List.count_le_count_cons
  | case3 cs h ih => simpa [holdsBlock_cons, h] using ih
  | case4 c cs hc ih => simpa [holdsBlock_cons, hc, List.count_cons] using ih

example : withoutBlocks "a`b\\`c`d`".toList = "ad`".toList := by cbv

theorem count_withoutBlocks_lt {cs : List Char} (h : HoldsBlock cs) :
    (withoutBlocks cs).count '`' < cs.count '`' :=
  (withoutBlocks_cases cs).elim (fun hno => absurd h hno.1) And.right

theorem withoutBlocks_of_not_holdsBlock {cs : List Char} (h : ¬HoldsBlock cs) :
    withoutBlocks cs = cs :=
  (withoutBlocks_cases cs).elim And.right fun hyes => absurd hyes.1 h

end Snippet

namespace Grammar

open Snippet (isSpecial afterBlock)

variable {cs : List Char} {ts : List Token}

/-! ## Code in escaped texts -/

theorem ne_backtick_of_isSpecial {c : Char} (h : isSpecial c) : c ≠ '`' := by
  rintro rfl
  simp [isSpecial] at h

/-- A backtick that comes first is a token of its own, and no other token begins with one. -/
theorem head?_backtick_iff (h : Escapes isSpecial cs ts) :
    ts.head? = some (mark .backtick) ↔ cs.head? = some '`' := by
  cases h with
  | nil => simp
  | mark m hm _ =>
    simpa using ne_backtick_of_isSpecial hm
  | @plain t cs ts ht _ _ =>
    by_cases he : t = mark .backtick
    · simp [he, Token.text, Mark.char]
    · have hmem : '`' ∉ t.text.toList := ht.not_mem (m := .backtick) he
      obtain ⟨c, cs', hcs, -⟩ := ht
      rw [hcs] at hmem ⊢
      have : c ≠ '`' := fun hc => hmem (hc ▸ List.mem_cons_self ..)
      simp [he, this]

theorem blockBody_cons {t : Token} (ht : t ≠ mark .backtick)
    (hguard : t = mark .backslash → ts.head? ≠ some (mark .backtick)) :
    blockBody (t :: ts) =
      (blockBody ts).map fun b => (b.map fun body => t.text.toList ++ body).cons := by
  rw [blockBody]
  · exact ht
  · rintro us rfl rfl
    exact hguard rfl rfl

/-- Code ends in the tokens of an escaped text where it ends in the text. -/
def EndsAlike {α : Type} {ts : List Token} (o : Option (List Char)) (r : Option (Taken α ts)) :
    Prop :=
  Option.Rel (fun rest t => Escapes isSpecial rest t.rest) o r

theorem EndsAlike.map {α β : Type} {us : List Token} {o : Option (List Char)}
    {r : Option (Taken α ts)} (h : EndsAlike o r) (f : Taken α ts → Taken β us)
    (hf : ∀ t, (f t).rest = t.rest) : EndsAlike o (r.map f) := by
  unfold EndsAlike at *
  cases h with
  | none => exact .none
  | some h => exact .some (by rwa [hf])

/-- The body of code ends in the tokens of an escaped text where it ends in the text. -/
theorem endsAlike_blockBody (ts : List Token) {cs : List Char} (h : Escapes isSpecial cs ts) :
    EndsAlike (afterBlock cs) (blockBody ts) := by
  cases h with
  | nil => exact .none
  | @mark m cs ts hm h =>
    have hfirst : ∀ us, blockBody (mark .backslash :: mark m :: us) =
        (blockBody (mark m :: us)).map fun b => (b.map fun body => '\\' :: body).cons := fun us =>
      blockBody_cons (by simp) fun _ he => by simp at he; simp [he, isSpecial, Mark.char] at hm
    by_cases hback : m = .backslash ∧ ts.head? = some (mark .backtick)
    -- A backslash that is escaped still keeps a backtick after it from ending the code
    · obtain ⟨rfl, hts⟩ := hback
      cases h with
      | nil | mark => simp at hts
      | @plain t cs us ht hplain h =>
        obtain rfl : t = mark .backtick := by simpa using hts
        have ih := endsAlike_blockBody us h
        rw [hfirst]
        exact .map (.map ih _ (by intro; rfl)) _ (by intro; rfl)
    · have ih := endsAlike_blockBody ts h
      have htick : m ≠ .backtick := fun he => ne_backtick_of_isSpecial hm (he ▸ rfl)
      have hguard : m = .backslash → ts.head? ≠ some (mark .backtick) := fun he hts =>
        hback ⟨he, hts⟩
      have hchars : m.char = '\\' → cs.head? ≠ some '`' := fun he hcs =>
        hguard (Mark.eq_of_char (n := .backslash) he) ((head?_backtick_iff h).2 hcs)
      rw [hfirst, blockBody_cons (by simpa using htick) (by simpa using hguard),
        Snippet.afterBlock_cons (ne_backtick_of_isSpecial hm) hchars]
      exact .map (.map ih _ (by intro; rfl)) _ (by intro; rfl)
  | @plain t cs ts ht hplain h =>
    have ih := endsAlike_blockBody ts h
    by_cases htick : t = mark .backtick
    · subst htick
      exact .some h
    · have hback : t ≠ mark .backslash := fun he => by
        simpa [isSpecial, Mark.char] using hplain _ he
      rw [Snippet.afterBlock_append (ht.not_mem htick) (ht.not_mem hback),
        blockBody_cons htick fun he => absurd he hback]
      exact .map ih _ (by intro; rfl)
termination_by ts.length

/-- The two tokens that tell the kind of code hold no backtick and no backslash. -/
theorem escapes_drop {cs : List Char} (h : Escapes isSpecial cs ts)
    (hkind : blockKind ts ≠ .shell) :
    ∃ cs', afterBlock cs = afterBlock cs' ∧ Escapes isSpecial cs' (ts.drop 2) := by
  obtain ⟨x, us, hx, rfl⟩ := exists_of_blockKind hkind
  cases h with
  | plain _ _ _ h =>
  cases h with
  | plain _ _ _ h => exact ⟨_, by rcases hx with rfl | rfl <;> rfl, h⟩

/-- Code ends in the tokens of an escaped text where it ends in the text. -/
theorem endsAlike_block {cs : List Char} (h : Escapes isSpecial cs ts) :
    EndsAlike (afterBlock cs) (block ts) := by
  rw [block.eq_def]
  dsimp only
  split
  next => exact .map (endsAlike_blockBody ts h) _ (by intro; rfl)
  next hkind =>
    obtain ⟨cs', hcs', h'⟩ := escapes_drop h hkind
    rw [hcs']
    exact .map (endsAlike_blockBody _ h') _ (by intro; rfl)

/-- A block has no output when it is read. -/
theorem value_block {t : Taken CodeBlock ts} (h : block ts = some t) : t.value.value = none := by
  have hkind (kind : CodeKind) (body : List Char) : (blockOf kind body).value = none := by
    cases kind <;> rfl
  rw [block.eq_def] at h
  dsimp only at h
  split at h
  all_goals
    obtain ⟨b, -, rfl⟩ := Option.map_eq_some_iff.1 h
    exact hkind _ b.value

/-- A backtick begins code that ends somewhere, or it is text. -/
theorem takes_backtick {cs : List Char} (h : Escapes isSpecial cs ts) :
    (∃ b : CodeBlock, ∃ rest us, b.value = none ∧ afterBlock cs = some rest ∧
        Escapes isSpecial rest us ∧
        Takes (element .ultiSnips (mark .backtick :: ts)) (Event.leaf (.code b)) us) ∨
      afterBlock cs = none ∧
        Takes (element .ultiSnips (mark .backtick :: ts)) [.text "`"] ts := by
  -- Only the last two rules fit a backtick
  have helement : element .ultiSnips (mark .backtick :: ts) =
      (((block ts).map fun t => (t.map fun b => Event.leaf (.code b)).cons) <|>
        anyToken (mark .backtick :: ts)) := by
    rw [element]
    rfl
  rw [helement]
  have hends : Option.Rel _ _ _ := endsAlike_block h
  have hvalue : ∀ t, block ts = some t → t.value.value = none := fun _ => value_block
  generalize afterBlock cs = o, block ts = r at hends hvalue ⊢
  cases hends with
  | none => exact Or.inr ⟨rfl, takes_some.2 ⟨rfl, rfl⟩⟩
  | @some rest t hrest =>
    exact Or.inl ⟨t.value, rest, t.rest, hvalue t rfl, rfl, hrest, takes_some.2 ⟨rfl, rfl⟩⟩

theorem isSpecial_ultiSnips (c : Char) :
    Dialect.isSpecial .ultiSnips c = (isSpecial c || c == '`') := by
  rw [Snippet.isSpecial_eq]
  simp [Dialect.isSpecial, Dialect.isUltiSnips]

/-- The elements of tokens show characters, and there is no tab stop among them. -/
def ShowsPlain (ts : List Token) (cs : List Char) : Prop :=
  ∃ os, Event.Gives (elements .ultiSnips ts) os ∧
    (∀ o ∈ os, ∀ m ∈ o.markers, m.placeholder? = none) ∧ (Outline.textAll os).toList = cs

theorem ShowsPlain.cons {rest : List Token} {es : List Event} {o : Outline} {cs : List Char}
    (htakes : Takes (element .ultiSnips ts) es rest) (hes : Event.Gives es [o])
    (ho : ∀ m ∈ o.markers, m.placeholder? = none) (h : ShowsPlain rest cs) :
    ShowsPlain ts (o.text.toList ++ cs) := by
  obtain ⟨os, hos, hmarkers, rfl⟩ := h
  refine ⟨o :: os, ?_, List.forall_mem_cons.2 ⟨ho, hmarkers⟩, by simp [Outline.textAll]⟩
  rw [elements_of_takes htakes]
  exact hes.append hos

theorem ShowsPlain.text {rest : List Token} {s : String} {cs : List Char}
    (htakes : Takes (element .ultiSnips ts) [.text s] rest) (h : ShowsPlain rest cs) :
    ShowsPlain ts (s.toList ++ cs) := by
  have := ShowsPlain.cons htakes (Event.gives_text s)
    (by simp [Outline.markers, Outline.markersAll, Marker.placeholder?]) h
  simpa [Outline.text, Marker.ownText?] using this

/-- An escaped text shows itself without the code in it. -/
theorem showsPlain_escaped (ts : List Token) {cs : List Char} (h : Escapes isSpecial cs ts) :
    ShowsPlain ts (Snippet.withoutBlocks cs) := by
  cases h with
  | nil =>
    exact ⟨[], by simpa [(ReadsElements.nil []).elements] using Event.Gives.nil, by simp, by
      simp [Snippet.withoutBlocks, Outline.textAll]⟩
  | @mark m cs ts hm h =>
    have hescape : isEscape .ultiSnips m :=
      isEscape_of_isSpecial (by simp [isSpecial_ultiSnips, hm])
    have htick : '`' ∉ [m.char] := by simpa using (ne_backtick_of_isSpecial hm).symm
    have := ShowsPlain.text (takes_escape hescape ts) (showsPlain_escaped ts h)
    rwa [String.toList_singleton, ← Snippet.withoutBlocks_append htick] at this
  | @plain t cs ts ht hplain h =>
    -- Only a backtick may begin something: code, which shows nothing before it is run
    by_cases htick : t = mark .backtick
    · subst htick
      change ShowsPlain _ (Snippet.withoutBlocks ('`' :: cs))
      rcases takes_backtick h with ⟨b, rest, us, hb, hafter, hrest, htakes⟩ | ⟨hafter, htakes⟩
      · have hshorter : us.length < ts.length + 1 := htakes.1
        have hgives : Event.Gives (Event.leaf (.code b)) [.node (.code b) []] :=
          Event.gives_node rfl (.nil [])
        have := ShowsPlain.cons htakes hgives
          (by simp [Outline.markers, Outline.markersAll, Marker.placeholder?])
          (showsPlain_escaped us hrest)
        rw [Snippet.withoutBlocks_some hafter]
        simpa [Outline.text, Marker.ownText?, hb] using this
      · have := ShowsPlain.text htakes (showsPlain_escaped ts h)
        rwa [Snippet.withoutBlocks_none hafter]
    · have hspecial : ∀ m, t = mark m → Dialect.isSpecial .ultiSnips m.char = false := by
        rintro m rfl
        have : m.char ≠ '`' := fun he => htick (by rw [Mark.eq_of_char (n := .backtick) he])
        simp [isSpecial_ultiSnips, hplain m rfl, this]
      have := ShowsPlain.text (takes_plain hspecial ts) (showsPlain_escaped ts h)
      rwa [← Snippet.withoutBlocks_append (ht.not_mem htick)] at this
termination_by ts.length

end Grammar

/-! ## Trees without tab stops -/

namespace Outline

theorem markersAll_append (os ps : List Outline) :
    markersAll (os ++ ps) = markersAll os ++ markersAll ps := by
  induction os with
  | nil => rfl
  | cons o os ih => rw [List.cons_append, markersAll, markersAll, ih, List.append_assoc]

/-- What holds of texts, and of the nodes of elements, holds of the nodes that they are put to. -/
theorem forall_markers_foldl_put {P : Marker → Prop} (htext : ∀ s, P (.text s))
    {os row : List Outline} (hrow : ∀ m ∈ markersAll row, P m)
    (hos : ∀ o ∈ os, ∀ m ∈ o.markers, P m) : ∀ m ∈ markersAll (os.foldl put row), P m := by
  induction os generalizing row with
  | nil => exact hrow
  | cons o os ih =>
    obtain ⟨ho, hos⟩ := List.forall_mem_cons.1 hos
    refine ih ?_ hos
    rw [put]
    split
    next s _ =>
      -- A text may join the one at the end of the row, and any text will do
      by_cases hs : s = ""
      · rwa [hs, addText_empty]
      rcases addText_cases hs row with ⟨init, r, cs, rfl, h⟩ | ⟨-, h⟩ <;> rw [h]
      · simp only [markersAll_append, markersAll, markers, List.append_nil, List.forall_mem_append,
          List.forall_mem_cons] at hrow ⊢
        exact ⟨hrow.1, htext _, hrow.2.2⟩
      · simpa [markersAll_append, markersAll, markers, or_imp, forall_and, htext] using hrow
    next => simpa [markersAll_append, markersAll, or_imp, forall_and] using ⟨hrow, ho⟩

end Outline

namespace Tree

variable {t : Tree}

theorem settle_of_no_placeholders (h : t.placeholders = []) : t.settle = t := by
  simp [settle, assignPrimaries, repeatAll, repeatPasses, repeatPass, primaries, h]

theorem placeholders_ofSource {d : Dialect} {source : String} {row : List Outline} (identity : Nat)
    (h : Event.Tells (Event.ofSource d source) [] row)
    (hrow : ∀ m ∈ Outline.markersAll row, m.placeholder? = none) :
    (ofSource identity d source).placeholders = [] := by
  obtain ⟨hshows, hsize⟩ := shows_ofSource identity h
  have hmarkers := hshows.descendants_markers hsize
  refine List.filter_eq_nil_iff.2 fun x hx => ?_
  have hmem : (ofSource identity d source).marker? x ∈
      ((Outline.node .root row).markers.drop 1).map some := hmarkers ▸ List.mem_map_of_mem hx
  obtain ⟨m, hm, hmx⟩ := List.mem_map.1 hmem
  simp [placeholder?, ← hmx, hrow m hm]

end Tree

namespace Snippet

open TabStop.Tree Outline

/-! ## Flattening -/

/-- A source without tab stops is flattened to the text of its elements. -/
theorem text_ofSnippet {d : Dialect} {source : String} {os : List Outline}
    (h : Event.Gives (Event.ofSource d source) os)
    (hos : ∀ o ∈ os, ∀ m ∈ o.markers, m.placeholder? = none) :
    (ofSnippet 0 d source false).text = textAll os := by
  have hnone := placeholders_ofSource 0 (h [])
    (forall_markers_foldl_put (fun _ => rfl) (by simp [markersAll]) hos)
  have hsettle := settle_of_no_placeholders hnone
  simp only [ofSnippet, hsettle, Bool.false_eq_true, ↓reduceIte]
  rw [text_ofSource 0 (h []), textAll_foldl_put, textAll, String.empty_append]

theorem escapes_ofSource (s : String) : Escapes isSpecial s.toList (Token.ofSource (escape s)) := by
  obtain ⟨ts, hts, hlex⟩ := lex_escapeChars (escaping_text .textMate) s.toList breaks_nil
  rw [← isSpecial_eq] at hts hlex
  have htokens : Token.ofSource (escape s) = ts := by
    simpa [Token.ofSource, escape] using hlex
  rwa [htokens]

/-- In TextMate an escaped text is flattened to the text. -/
theorem flatten_escape_textMate (v : String) : flatten .textMate (escape v) = v := by
  obtain ⟨es, hes, hread⟩ := readsElements_text (d := .textMate) v breaks_nil
  rw [List.append_nil, lex_nil, ← escape_eq] at hread
  have hgives : Event.Gives (Event.ofSource .textMate (escape v)) [.node (.text v) []] := by
    rw [Event.ofSource, Token.ofSource, hread.elements]
    exact hes
  have htext := text_ofSnippet hgives (by simp [markers, markersAll, Marker.placeholder?])
  simpa [flatten, textAll, Outline.text, Marker.ownText?] using htext

/-- In UltiSnips an escaped text is flattened to the text without the code in it, with the case
directives applied that are in the rest. -/
theorem flatten_escape_ultiSnips (v : String) : flatten .ultiSnips (escape v) =
    applyCaseDirectives (String.ofList (withoutBlocks v.toList)) := by
  obtain ⟨os, hgives, hos, htext⟩ := showsPlain_escaped _ (escapes_ofSource v)
  have hflatten : (ofSnippet 0 .ultiSnips (escape v) false).text = textAll os :=
    text_ofSnippet hgives hos
  rw [← htext, String.ofList_toList, ← hflatten]
  rfl

/-- In UltiSnips just the texts with neither code nor a case directive in them come back as they
were. -/
theorem flatten_escape_eq_self_iff (v : String) : flatten .ultiSnips (escape v) = v ↔
    ¬HoldsBlock v.toList ∧ ¬Segment.HoldsDirective v.toList := by
  rw [flatten_escape_ultiSnips, applyCaseDirectives, Segment.fold, String.toList_ofList]
  constructor
  · intro h
    have hchars : Segment.foldFrom {} (Segment.read (withoutBlocks v.toList)) = v.toList := by
      simpa using congrArg String.toList h
    have hblock : ¬HoldsBlock v.toList := fun hb => by
      have hlt := count_withoutBlocks_lt hb
      have hle := Segment.count_fold_le (a := '`') (by decide) (withoutBlocks v.toList)
      rw [hchars] at hle
      omega
    rw [withoutBlocks_of_not_holdsBlock hblock] at hchars
    exact ⟨hblock, Segment.foldFrom_read_eq_self_iff.1 hchars⟩
  · rintro ⟨hblock, hdirective⟩
    rw [withoutBlocks_of_not_holdsBlock hblock, Segment.foldFrom_read_eq_self_iff.2 hdirective,
      String.ofList_toList]

/-- For all texts: what an escaped text is flattened to in either dialect, and which texts come back
as they were in UltiSnips. -/
theorem flatten_escape (v : String) :
    flatten .textMate (escape v) = v ∧
      flatten .ultiSnips (escape v) =
        applyCaseDirectives (String.ofList (withoutBlocks v.toList)) ∧
      (flatten .ultiSnips (escape v) = v ↔
        ¬HoldsBlock v.toList ∧ ¬Segment.HoldsDirective v.toList) :=
  ⟨flatten_escape_textMate v, flatten_escape_ultiSnips v, flatten_escape_eq_self_iff v⟩

/-- Of a text in backticks nothing is left, and a backslash and an `n` become a line end. -/
theorem flatten_escape_backticks :
    flatten .ultiSnips (escape "`x`") = "" ∧ flatten .ultiSnips (escape "\\n") = "\n" := by
  constructor
  · rw [(flatten_escape "`x`").2.1]
    cbv
  · rw [(flatten_escape "\\n").2.1]
    cbv

end Snippet

end TabStop
