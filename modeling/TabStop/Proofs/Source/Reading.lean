import TabStop.Proofs.Source.RoundTrip
import TabStop.Proofs.Token.Cuts

/-!
# What a source is read as

Each element of a source is a text or a node, and the tree of the source has them in a row, with
texts that meet joined to one. An element that is text is a guarded mark without its backslash, a
token as it stands, or the opening of a default that does not end. So where nothing is recognized
the tree shows the source itself, without the backslashes that guard a mark.
-/

namespace TabStop

open Token Grammar

/-! ## The text of an outline -/

namespace Outline

mutual

/-- The text that a node and what is below it show. -/
def text : Outline → String
  | node m cs => m.ownText?.getD (textAll cs)

/-- The text that nodes in a row show. -/
def textAll : List Outline → String
  | [] => ""
  | o :: os => text o ++ textAll os

end

theorem text_of_text? {o : Outline} {s : String} (h : o.marker.text? = some s) : o.text = s := by
  obtain ⟨m, cs⟩ := o
  cases m <;> simp [marker, Marker.text?] at h
  rw [text, h]
  rfl

theorem textAll_append (os ps : List Outline) :
    textAll (os ++ ps) = textAll os ++ textAll ps := by
  induction os with
  | nil => simp [textAll]
  | cons o os ih => rw [List.cons_append, textAll, textAll, ih, String.append_assoc]

theorem textAll_addText (row : List Outline) (s : String) :
    textAll (addText row s) = textAll row ++ s := by
  by_cases hs : s = ""
  · rw [hs, addText_empty, String.append_empty]
  · rcases addText_cases hs row with ⟨init, r, cs, rfl, h⟩ | ⟨-, h⟩ <;>
      simp [h, textAll_append, textAll, text, Marker.ownText?, String.append_assoc]

/-! ## Elements put together -/

/-- A row with an element behind it. -/
def put (row : List Outline) (o : Outline) : List Outline :=
  match o.marker.text? with
  | some s => addText row s
  | none => row ++ [o]

theorem textAll_put (row : List Outline) (o : Outline) :
    textAll (put row o) = textAll row ++ o.text := by
  rw [put]
  split
  next s hs => rw [textAll_addText, text_of_text? hs]
  next => rw [textAll_append, textAll, textAll, String.append_empty]

/-- Texts may be joined, but a node stays what it is. -/
theorem IsNode.mem_put {o : Outline} (hnode : o.IsNode) {row : List Outline} {p : Outline}
    (h : o ∈ row ∨ o = p) : o ∈ put row p := by
  rw [put]
  split
  next s hs =>
    have hmem : o ∈ row := h.resolve_right fun he => by
      simp [← he, show o.marker.text? = none from hnode] at hs
    by_cases hempty : s = ""
    · rwa [hempty, addText_empty]
    rcases addText_cases hempty row with ⟨init, r, cs, rfl, hadd⟩ | ⟨-, hadd⟩
    · rcases List.mem_append.1 hmem with hmem | hmem
      · simp [hadd, hmem]
      · obtain rfl := List.mem_singleton.1 hmem
        simp [IsNode, marker, Marker.text?] at hnode
    · simp [hadd, hmem]
  next => simpa using h

theorem IsNode.mem_foldl_put {o : Outline} (hnode : o.IsNode) {os row : List Outline}
    (h : o ∈ row ∨ o ∈ os) : o ∈ os.foldl put row := by
  induction os generalizing row with
  | nil => simpa using h
  | cons p os ih =>
    refine ih ?_
    rcases h with h | h
    · exact Or.inl (hnode.mem_put (Or.inl h))
    · rcases List.mem_cons.1 h with rfl | h
      · exact Or.inl (hnode.mem_put (Or.inr rfl))
      · exact Or.inr h

theorem textAll_foldl_put (os row : List Outline) :
    textAll (os.foldl put row) = textAll row ++ textAll os := by
  induction os generalizing row with
  | nil => simp [textAll]
  | cons o os ih => rw [List.foldl_cons, ih, textAll_put, textAll, String.append_assoc]

end Outline

namespace Tree

variable {t : Tree} {h : Handle} {o : Outline}

mutual

theorem Shows.renderFrom_eq {fuel : Nat} :
    (o : Outline) → (h : Handle) → t.Shows h o → o.size ≤ fuel → t.renderFrom fuel h = o.text
  | .node m cs, h, ho, hfuel => by
    cases fuel with
    | zero => simp [Outline.size] at hfuel
    | succ fuel =>
      have hsize : Outline.sizeAll cs ≤ fuel := by simpa [Outline.size] using hfuel
      rw [renderFrom, ho.2.1, Outline.text, ShowsAll.renderFrom_eq cs _ ho.2.2 hsize]
      cases m.ownText? <;> rfl

theorem ShowsAll.renderFrom_eq {fuel : Nat} :
    (os : List Outline) → (hs : List Handle) → t.ShowsAll hs os → Outline.sizeAll os ≤ fuel →
      String.join (hs.map (t.renderFrom fuel)) = Outline.textAll os
  | [], [], _, _ => rfl
  | [], _ :: _, hs, _ => by simp [ShowsAll] at hs
  | _ :: _, [], hs, _ => by simp [ShowsAll] at hs
  | o :: os, h :: hs, hos, hfuel => by
    simp only [Outline.sizeAll] at hfuel
    rw [List.map_cons, String.join_cons, Outline.textAll, Shows.renderFrom_eq o h hos.1 (by omega),
      ShowsAll.renderFrom_eq os hs hos.2 (by omega)]

end

/-- A tree shows the text of the outline that its root shows. -/
theorem Shows.text_eq (ho : t.Shows t.root o) (hsize : o.size ≤ t.capacity) : t.text = o.text := by
  rw [text, render, if_pos ho.owned]
  exact Shows.renderFrom_eq o t.root ho hsize

theorem text_ofSource {d : Dialect} {source : String} {row : List Outline} (identity : Nat)
    (h : Event.Tells (Event.ofSource d source) [] row) :
    (ofSource identity d source).text = Outline.textAll row := by
  obtain ⟨hshows, hsize⟩ := shows_ofSource identity h
  rw [hshows.text_eq hsize]
  rfl

end Tree

namespace Event

/-- Events put elements behind a row. -/
def Gives (es : List Event) (os : List Outline) : Prop :=
  ∀ row, Tells es row (os.foldl Outline.put row)

variable {es fs : List Event} {os ps cs : List Outline}

theorem Gives.nil : Gives [] [] := fun row => .nil row

theorem Gives.append (h : Gives es os) (h' : Gives fs ps) : Gives (es ++ fs) (os ++ ps) := by
  intro row
  rw [List.foldl_append]
  exact (h row).append (h' _)

theorem gives_text (s : String) : Gives [.text s] [.node (.text s) []] := fun row =>
  tells_text s row

theorem gives_node {m : Marker} (hm : m.text? = none) (h : Tells es [] cs) :
    Gives (.start m :: es ++ [.finish]) [.node m cs] := by
  intro row
  have := tells_node m h row
  simpa [Outline.put, Outline.marker, hm] using this

end Event

/-! ## Elements -/

namespace Grammar

open Event

/-- What an element is that takes tokens off the front: a mark that a backslash guards, a token as
text, a node, or a default that does not end, with its opening as text. -/
inductive Element (d : Dialect) : List Token → List Event → List Token → Prop where
  | escape {m : Mark} {rest : List Token} (hm : isEscape d m) :
      Element d (mark .backslash :: mark m :: rest) [.text (String.singleton m.char)] rest
  | token {t : Token} {rest : List Token}
      (hguard : t = mark .backslash → ∀ m, rest.head? = some (mark m) → isEscape d m = false) :
      Element d (t :: rest) [.text t.text] rest
  | node {ts rest : List Token} {m : Marker} {es : List Event} {cs : List Outline}
      (hm : m.text? = none) (h : Tells es [] cs) :
      Element d ts (.start m :: es ++ [.finish]) rest
  | opening {t : Token} {ts : List Token} (ht : ∀ m, t ≠ mark m) :
      Element d (mark .dollar :: mark .braceOpen :: t :: mark .colon :: ts)
        (.text ("$\x7b" ++ t.text ++ ":") :: elements d ts) []

variable {d : Dialect} {ts rest : List Token} {es : List Event}

theorem Element.leaf {m : Marker} (hm : m.text? = none) : Element d ts (leaf m) rest :=
  .node hm (.nil [])

theorem element_eq_none (h : element d ts = none) : ts = [] := by
  cases ts with
  | nil => rfl
  | cons t ts =>
    -- The last rule takes any token
    rw [element] at h
    simp [anyToken] at h

/-- A default that does not end holds all elements that there are. -/
theorem defaultElements_of_not_closed (ts : List Token)
    (h : (defaultElements d ts).closed = false) :
    (defaultElements d ts).events = elements d ts ∧ (defaultElements d ts).rest = [] := by
  rw [defaultElements.eq_def] at h ⊢
  split at h
  next => simp at h
  next us _ =>
    rw [elements]
    split at h
    next he => exact ⟨rfl, element_eq_none he⟩
    next e he =>
      have := e.shorter
      obtain ⟨hevents, hrest⟩ := defaultElements_of_not_closed e.rest h
      exact ⟨congrArg (e.value ++ ·) hevents, hrest⟩
termination_by ts.length

/-- A default begins a node, or its opening is text. -/
theorem element_of_default {t : Token} {m : Marker} (hm : m.text? = none)
    (ht : ∀ n, t ≠ mark n) (hs : Sound ts) :
    Element d (mark .dollar :: mark .braceOpen :: t :: mark .colon :: ts)
      (withDefault m ("$\x7b" ++ t.text ++ ":") (defaultElements d ts))
      (defaultElements d ts).rest := by
  unfold withDefault
  split
  next =>
    obtain ⟨cs, -, hcs⟩ := keeps_defaultElements (d := d) ts hs [] .nil
    exact .node hm hcs
  next hclosed =>
    obtain ⟨hevents, hrest⟩ := defaultElements_of_not_closed ts (by simpa using hclosed)
    rw [hevents, hrest]
    exact .opening ht

/-- What the rules take is an element. -/
theorem element_of_takes (hs : Sound ts) (h : Takes (element d ts) es rest) :
    Element d ts es rest := by
  cases construct_of_element h with
  | escape hm => exact .escape hm
  | token hguard => exact .token hguard
  | short hnames | braced hnames => exact .leaf hnames.text?
  | default us hnames =>
    exact element_of_default hnames.text? hnames.ne_mark hs.tail.tail.tail.tail
  | @choice _ p _ _ os => exact .node rfl (tells_leaf (.choice ⟨os⟩) [])
  | placeholderTransform | varTransform | code => exact .leaf rfl

/-! ## Text without backslashes -/

/-- Characters that a backslash guards. -/
def isGuarded (d : Dialect) (c : Char) : Bool :=
  c == '$' || c == '}' || c == '\\' || (d.isUltiSnips && (c == '`' || c == '{'))

/-- A text without the backslashes that guard a character, read from left to right. -/
def unguard (d : Dialect) : List Char → List Char
  | [] => []
  | '\\' :: c :: cs => if isGuarded d c then c :: unguard d cs else '\\' :: unguard d (c :: cs)
  | c :: cs => c :: unguard d cs

theorem isGuarded_char (d : Dialect) (m : Mark) : isGuarded d m.char = isEscape d m := by
  cases m <;> cases d <;> rfl

theorem exists_mark_of_isGuarded {c : Char} (h : isGuarded d c) : ∃ m : Mark, c = m.char := by
  simp only [isGuarded, Bool.or_eq_true, Bool.and_eq_true, beq_iff_eq] at h
  rcases h with ((rfl | rfl) | rfl) | ⟨-, rfl | rfl⟩
  exacts [⟨.dollar, rfl⟩, ⟨.braceClose, rfl⟩, ⟨.backslash, rfl⟩, ⟨.backtick, rfl⟩,
    ⟨.braceOpen, rfl⟩]

theorem unguard_backslash {cs : List Char} (h : ∀ c ∈ cs.head?, isGuarded d c = false) :
    unguard d ('\\' :: cs) = '\\' :: unguard d cs := by
  cases cs with
  | nil => rfl
  | cons c cs => simp [unguard, h c rfl]

theorem unguard_append {cs : List Char} (h : '\\' ∉ cs) (ds : List Char) :
    unguard d (cs ++ ds) = cs ++ unguard d ds := by
  induction cs with
  | nil => rfl
  | cons c cs ih =>
    obtain ⟨hc, hcs⟩ := not_or.1 (List.mem_cons.not.1 h)
    rw [List.cons_append, unguard, ih hcs]
    · rfl
    · rintro x xs rfl
      exact absurd rfl hc

/-- A guarded character at the front of well-formed tokens is a mark, and a token of its own. -/
theorem head?_of_isGuarded {c : Char} (hs : Sound ts) (hc : (chars ts).head? = some c)
    (hguard : isGuarded d c) : ∃ m, ts.head? = some (mark m) ∧ isEscape d m := by
  obtain ⟨m, rfl⟩ := exists_mark_of_isGuarded hguard
  rw [isGuarded_char] at hguard
  cases ts with
  | nil => simp at hc
  | cons t ts =>
    refine ⟨m, ?_, hguard⟩
    by_contra hne
    have hmem : m.char ∉ t.text.toList := hs.head.not_mem (by simpa using hne)
    obtain ⟨x, xs, hxs, -⟩ := hs.head
    simp only [chars_cons, hxs, List.cons_append, List.head?_cons, Option.some.injEq] at hc hmem
    simp [hc] at hmem

/-- A token is text as it stands, if it is no backslash that guards a mark. -/
theorem unguard_token {t : Token} (hs : Sound (t :: ts))
    (hguard : t = mark .backslash → ∀ m, ts.head? = some (mark m) → isEscape d m = false) :
    unguard d (chars (t :: ts)) = t.text.toList ++ unguard d (chars ts) := by
  rw [chars_cons]
  by_cases ht : t = mark .backslash
  · subst ht
    refine unguard_backslash fun c hc => Bool.eq_false_iff.2 fun hg => ?_
    obtain ⟨m, hm, hescape⟩ := head?_of_isGuarded hs.tail hc hg
    simp [hguard rfl m hm] at hescape
  · exact unguard_append (hs.head.not_mem ht) _

theorem unguard_escape {m : Mark} (hm : isEscape d m) :
    unguard d (chars (mark .backslash :: mark m :: ts)) =
      (String.singleton m.char).toList ++ unguard d (chars ts) := by
  have hchars : chars (mark .backslash :: mark m :: ts) = '\\' :: m.char :: chars ts := by
    simp [Token.text, Mark.char]
  rw [hchars, unguard, if_pos ((isGuarded_char d m).trans hm), String.toList_singleton,
    List.singleton_append]

/-- The opening of a default has no backslash in it. -/
theorem unguard_opening {t : Token} (hwell : t.WellFormed) (ht : ∀ m, t ≠ mark m) :
    unguard d (chars (mark .dollar :: mark .braceOpen :: t :: mark .colon :: ts)) =
      ("$\x7b" ++ t.text ++ ":").toList ++ unguard d (chars ts) := by
  have hmem : '\\' ∉ ("$\x7b" ++ t.text ++ ":").toList := by
    have : Mark.backslash.char ∉ t.text.toList := hwell.not_mem (ht .backslash)
    simpa [Mark.char] using this
  have hchars : chars (mark .dollar :: mark .braceOpen :: t :: mark .colon :: ts) =
      ("$\x7b" ++ t.text ++ ":").toList ++ chars ts := by
    simp [Token.text, Mark.char]
  rw [hchars, unguard_append hmem]

/-! ## Elements that are all text -/

theorem elements_of_takes (h : Takes (element d ts) es rest) :
    elements d ts = es ++ elements d rest := by
  obtain ⟨_, he⟩ := h
  rw [elements, he]

/-- The elements of tokens, which show the tokens without the backslashes if they are all text. -/
def ShowsTokens (d : Dialect) (ts : List Token) : Prop :=
  ∃ os, Gives (elements d ts) os ∧
    ((∀ o ∈ os, ¬o.IsNode) → (Outline.textAll os).toList = unguard d (chars ts))

/-- An element that is text shows what comes first in the tokens. -/
theorem ShowsTokens.text {s : String} (helements : elements d ts = .text s :: elements d rest)
    (hchars : unguard d (chars ts) = s.toList ++ unguard d (chars rest))
    (h : ShowsTokens d rest) : ShowsTokens d ts := by
  obtain ⟨os, hos, htext⟩ := h
  refine ⟨.node (.text s) [] :: os, ?_, fun htexts => ?_⟩
  · rw [helements]
    exact (gives_text s).append hos
  · rw [hchars, ← htext fun o ho => htexts o (List.mem_cons_of_mem _ ho)]
    simp [Outline.textAll, Outline.text, Marker.ownText?]

theorem showsTokens (ts : List Token) (hs : Sound ts) : ShowsTokens d ts := by
  cases he : element d ts with
  | none =>
    obtain rfl := element_eq_none he
    exact ⟨[], by simpa [(ReadsElements.nil []).elements] using Gives.nil, fun _ => rfl⟩
  | some e =>
    obtain ⟨es, rest, hlt⟩ := e
    have htakes : Takes (element d ts) es rest := ⟨hlt, he⟩
    have helements := elements_of_takes htakes
    have hrest := showsTokens rest (hs.of_suffix (walks_element htakes).suffix)
    cases element_of_takes hs htakes with
    | escape hm => exact .text helements (unguard_escape hm) hrest
    | token hguard => exact .text helements (unguard_token hs hguard) hrest
    | @opening t us ht =>
      -- The default does not end, so its elements are all that there are
      have hopening : elements d (mark .dollar :: mark .braceOpen :: t :: mark .colon :: us) =
          .text ("$\x7b" ++ t.text ++ ":") :: elements d us := by
        simpa [(ReadsElements.nil []).elements] using helements
      exact .text hopening (unguard_opening hs.tail.tail.head ht)
        (showsTokens us hs.tail.tail.tail.tail)
    | @node _ _ m _ cs hm hcs =>
      obtain ⟨os, hos, -⟩ := hrest
      refine ⟨.node m cs :: os, ?_, fun htexts => absurd hm (htexts _ (List.mem_cons_self ..))⟩
      rw [helements]
      exact (gives_node hm hcs).append hos
termination_by ts.length

end Grammar

/-! ## Sources that are all text -/

namespace Tree

/-- The nodes of a row are nodes below the root of the tree that shows it. -/
theorem exists_marker?_of_mem {d : Dialect} {source : String} {row : List Outline} (identity : Nat)
    (h : Event.Tells (Event.ofSource d source) [] row) {o : Outline} (ho : o ∈ row) :
    ∃ x ∈ (ofSource identity d source).descendants (ofSource identity d source).root,
      (ofSource identity d source).marker? x = some o.marker := by
  obtain ⟨hshows, hsize⟩ := shows_ofSource identity h
  have hmarker : o.marker ∈ o.markers := by
    obtain ⟨m, cs⟩ := o
    simp [Outline.markers, Outline.marker]
  refine List.mem_map.1 ?_
  rw [hshows.descendants_markers hsize]
  exact List.mem_map_of_mem (Outline.mem_markersAll.2 ⟨_, ho, hmarker⟩)

/-- Where all nodes below the root are texts, the tree of a source shows the source without the
backslashes that guard a mark, and no other character is lost or added. -/
theorem text_ofSource_of_texts (identity : Nat) (d : Dialect) (source : String)
    (h : ∀ x ∈ (ofSource identity d source).descendants (ofSource identity d source).root,
      (((ofSource identity d source).marker? x).bind Marker.text?).isSome) :
    (ofSource identity d source).text = String.ofList (unguard d source.toList) := by
  obtain ⟨os, hgives, htext⟩ := showsTokens (d := d) _ (sound_lex source.toList)
  have htells : Event.Tells (Event.ofSource d source) [] (os.foldl Outline.put []) := hgives []
  -- A node among the elements would be a node of the tree, and no text
  have htexts : ∀ o ∈ os, ¬o.IsNode := by
    intro o ho hnode
    obtain ⟨x, hx, hmarker⟩ := exists_marker?_of_mem identity htells
      (hnode.mem_foldl_put (Or.inr ho))
    have htext? : o.marker.text?.isSome := by simpa [hmarker] using h x hx
    simp [show o.marker.text? = none from hnode] at htext?
  refine String.toList_injective ?_
  rw [text_ofSource identity htells, Outline.textAll_foldl_put, Outline.textAll,
    String.empty_append, htext htexts, chars_lex, String.toList_ofList]

/-- A choice with an empty option, a default that does not end, an unknown variable and a backtick
that nothing closes. -/
theorem text_ofSource_abandoned :
    let source := "$\x7b2|b,|\x7d$\x7b1:a\\\x7d$x`\\\x7b"
    let t := ofSource 0 .ultiSnips source
    (∀ x ∈ t.descendants t.root, ((t.marker? x).bind Marker.text?).isSome) ∧
      t.text = "$\x7b2|b,|\x7d$\x7b1:a\x7d$x`\x7b" := by
  have hall :
      let t := ofSource 0 .ultiSnips "$\x7b2|b,|\x7d$\x7b1:a\\\x7d$x`\\\x7b"
      ((t.descendants t.root).all fun x => ((t.marker? x).bind Marker.text?).isSome) = true := by
    cbv
  have htext := text_ofSource_of_texts 0 .ultiSnips _ (List.all_eq_true.1 hall)
  exact ⟨List.all_eq_true.1 hall, htext.trans (by cbv)⟩

end Tree

end TabStop
