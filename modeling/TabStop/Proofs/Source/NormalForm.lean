import TabStop.Proofs.Document.NormalTexts
import TabStop.Proofs.Canonical.Persisting
import TabStop.Proofs.Grammar.CodeBlocks

/-!
# The form of what is read

However badly formed a source is, the tree that is read from it has a normal form. Rules that fail
leave texts behind, and what stood in an unfinished node comes to stand in the node around it; but
texts are joined when the tree is built, so that normalizing finds nothing to do. What nodes may
have below them, and what their markers may hold, is seen from the outlines that are read, construct
by construct.
-/

namespace TabStop

open Grammar

/-! ## Templates -/

namespace Piece

mutual

/-- In the branches of a condition no text follows text. -/
def Apart : Piece → Prop
  | condition _ a b => ApartAll a ∧ ApartAll b
  | _ => True

/-- No text follows text among pieces, nor in the branches of any condition among them. -/
def ApartAll : List Piece → Prop
  | [] => True
  | p :: ps => Apart p ∧ (p.IsText → ∀ q ∈ ps.head?, ¬q.IsText) ∧ ApartAll ps

end

mutual

theorem Readable.apart {d : Dialect} : (p : Piece) → p.Readable d → p.Apart
  | condition _ a b, hp => by
    obtain ⟨-, -, ha, hb, -⟩ := hp
    exact ⟨ReadableAll.apart a ha, ReadableAll.apart b hb⟩
  | text _, _ | directive _, _ | format _, _ | textCondition .., _ => trivial

theorem ReadableAll.apart {d : Dialect} : (ps : List Piece) → ReadableAll d ps → ApartAll ps
  | [], _ => trivial
  | p :: ps, ⟨hp, hnext, hps⟩ => ⟨Readable.apart p hp, hnext, ReadableAll.apart ps hps⟩

end

end Piece

/-! ## Outlines -/

namespace Outline

/-- What is read from a source as a whole, or is a part of that. -/
inductive Parsed (d : Dialect) : Outline → Prop
  | root {row : List Outline} (hrow : ReadableRow d row) : Parsed d (.node .root row)
  | element {o : Outline} (ho : o.Element d) : Parsed d o

namespace Parsed

variable {d : Dialect} {o p : Outline}

theorem children (ho : o.Parsed d) : ∀ c ∈ o.children, c.Parsed d := by
  intro c hc
  cases ho with
  | root hrow => exact .element (.readable (hrow.readable c hc))
  | element ho => exact .element (ho.children c hc)

/-- No text is empty. -/
theorem marker_ne (ho : o.Parsed d) : o.marker.text? ≠ some "" := by
  cases ho with
  | root => simp [marker, Marker.text?]
  | element ho =>
    cases ho with
    | options => simp [marker, Marker.text?]
    | readable ho => cases ho <;> simp_all [marker, Marker.text?]

/-- No text follows text. -/
theorem separate (ho : o.Parsed d) : Separate o.children := by
  cases ho with
  | root hrow => exact hrow.separate
  | element ho =>
    cases ho with
    | options => trivial
    | readable ho =>
      cases ho with
      | placeholder _ _ hsep => exact hsep
      | var _ _ _ hsep => exact hsep
      | choice => exact ⟨Or.inl rfl, trivial⟩
      | _ => trivial

/-- There is nothing in text, options and code. -/
theorem leaf (ho : o.Parsed d)
    (hm : o.marker.text?.isSome ∨ o.marker.choice?.isSome ∨ o.marker.code?.isSome) :
    o.children = [] := by
  cases ho with
  | root => simp [marker, Marker.text?, Marker.choice?, Marker.code?] at hm
  | element ho =>
    cases ho with
    | options => rfl
    | readable ho =>
      cases ho <;>
        first
          | rfl
          | simp [marker, Marker.text?, Marker.choice?, Marker.code?] at hm

theorem children_of_transform (ho : o.Parsed d) (hm : o.marker.transform?.isSome) :
    o.children = [] := by
  cases ho with
  | root => simp [marker, Marker.transform?] at hm
  | element ho => exact ho.children_of_transform hm

/-- A choice has options, and none of them is empty. -/
theorem options (ho : o.Parsed d) {c : Choice} (hm : o.marker = .choice c) :
    c.options ≠ [] ∧ ∀ s ∈ c.options, s ≠ "" := by
  cases ho with
  | root => simp [marker] at hm
  | element ho =>
    cases ho with
    | options hne hos =>
      obtain rfl := Marker.choice.inj hm
      exact ⟨hne, hos⟩
    | readable ho => cases ho <;> simp [marker] at hm

/-- A choice is all that is in a tab stop, and not in the final one. -/
theorem choice_alone (ho : o.Parsed d) (hp : p ∈ o.children) (hm : p.marker.choice?.isSome) :
    o.children = [p] ∧ ∃ n, (TabIndex.ofNat n).isFinal = false ∧
      o.marker = .placeholder { index := .ofNat n } := by
  -- No choice is read for itself
  have hnot {q : Outline} (hq : q.Readable d) : q.marker.choice?.isSome = false := by
    cases hq <;> rfl
  have hmore {qs : List Outline} (hqs : ∀ q ∈ qs, q.Readable d) (hp : p ∈ qs) : False := by
    simp [hnot (hqs p hp)] at hm
  cases ho with
  | root hrow => exact (hmore hrow.readable hp).elim
  | element ho =>
    cases ho with
    | options => simp [Outline.children] at hp
    | readable ho =>
      cases ho with
      | placeholder _ hcs => exact (hmore hcs hp).elim
      | var _ _ hcs => exact (hmore hcs hp).elim
      | @choice n os _ hfinal =>
        obtain rfl := List.mem_singleton.1 hp
        exact ⟨rfl, n, hfinal, rfl⟩
      | _ => simp [Outline.children] at hp

/-- Each index is a whole number of 32 bits. -/
theorem index (ho : o.Parsed d) {q : Placeholder} (hm : o.marker.placeholder? = some q) :
    ∃ n < indexBound, q.index = .ofNat n := by
  cases ho with
  | root => simp [marker, Marker.placeholder?] at hm
  | element ho =>
    cases ho with
    | options => simp [marker, Marker.placeholder?] at hm
    | readable ho =>
      cases ho with
      | @placeholder n _ hn | @choice n _ hn | @placeholderTransform n _ hn =>
        obtain rfl := Option.some.inj hm
        exact ⟨n, hn, rfl⟩
      | _ => simp [marker, Marker.placeholder?] at hm

/-- A variable has a name that the dialect knows, and no value. -/
theorem var (ho : o.Parsed d) {v : Variable} (hm : o.marker.var? = some v) :
    d.acceptsVariable v.name ∧ v.value = none := by
  cases ho with
  | root => simp [marker, Marker.var?] at hm
  | element ho =>
    cases ho with
    | options => simp [marker, Marker.var?] at hm
    | readable ho =>
      cases ho with
      | var _ haccepts | varTransform _ haccepts =>
        obtain rfl := Option.some.inj hm
        exact ⟨haccepts, rfl⟩
      | _ => simp [marker, Marker.var?] at hm

theorem template (ho : o.Parsed d) {tr : Transform} (hm : o.marker.transform? = some tr) :
    Piece.ApartAll tr.pieces := by
  cases ho with
  | root => simp [marker, Marker.transform?] at hm
  | element ho =>
    cases ho with
    | options => simp [marker, Marker.transform?] at hm
    | readable ho =>
      cases ho with
      | placeholderTransform _ htr | varTransform _ _ htr =>
        obtain rfl := Option.some.inj hm
        exact Piece.ReadableAll.apart _ htr.pieces
      | _ => simp [marker, Marker.transform?] at hm

end Parsed

end Outline

namespace Tree

variable {t : Tree} {c h p x : Handle} {hs : List Handle} {o : Outline} {os : List Outline}

/-! ## Trees -/

/-- The form that a tree has when it has been read, as a property of its nodes. -/
structure NormalForm (t : Tree) : Prop where
  nonempty : ∀ x ∈ t.walk t.root, t.marker? x ≠ some (.text "")
  apart : ∀ x ∈ t.walk t.root, (t.children x).IsChain fun a b => ¬(t.isText a ∧ t.isText b)
  normalized : (normalize t.root 0).perform t = (.ok (), t)
  leaves : ∀ x ∈ t.walk t.root, ∀ m, t.marker? x = some m →
    (m.text?.isSome ∨ m.choice?.isSome ∨ m.code?.isSome) → t.children x = []
  choices : ∀ x ∈ t.walk t.root, ∀ c, t.marker? x = some (.choice c) →
    (c.options ≠ [] ∧ ∀ s ∈ c.options, s ≠ "") ∧
      ∃ p q, t.parent? x = some p ∧ t.children p = [x] ∧ t.placeholder? p = some q ∧
        0 < q.index.value
  transforms : ∀ x ∈ t.walk t.root, ∀ m tr, t.marker? x = some m → m.transform? = some tr →
    t.children x = [] ∧ Piece.ApartAll tr.pieces
  indexes : ∀ x ∈ t.walk t.root, ∀ q, t.placeholder? x = some q →
    ∃ n < 2 ^ 32, q.index = .ofNat n
  names : t.dialect = .ultiSnips → ∀ x ∈ t.walk t.root, ∀ v, t.var? x = some v →
    v.name = "VISUAL"
  unset : ∀ x ∈ t.walk t.root,
    (∀ v, t.var? x = some v → v.value = none) ∧ ∀ b, t.code? x = some b → b.value = none

theorem ShowsAll.apart (hos : t.ShowsAll hs os) (hsep : Outline.Separate os) :
    hs.IsChain fun a b => ¬(t.isText a ∧ t.isText b) := by
  replace hos := hos.forall₂
  induction hos with
  | nil => exact .nil
  | @cons h o hs os ho hos ih =>
    apply (ih hsep.2).cons
    intro k hk
    -- The next node shows the next outline, and one of the two is no text
    cases hos with
    | nil => simp at hk
    | @cons k' q _ _ hq _ =>
      obtain rfl : k' = k := by simpa using hk
      rintro ⟨hh, hk⟩
      rw [isText, ho.marker_eq] at hh
      rw [isText, hq.marker_eq] at hk
      rcases hsep.1 with hnode | hnode
      · unfold Outline.IsNode at hnode
        simp [hnode] at hh
      · have hnode' := hnode q rfl
        unfold Outline.IsNode at hnode'
        simp [hnode'] at hk

theorem Shows.marker_of (ho : t.Shows h o) {m : Marker} (hm : t.marker? h = some m) :
    o.marker = m :=
  Option.some.inj (ho.marker?_eq.symm.trans hm)

/-! ## Nodes that show what is read -/

/-- Each node of a document shows what is read from a source, or is a part of that. -/
def ShowsParsed (t : Tree) (d : Dialect) : Prop :=
  ∀ x ∈ t.walk t.root, ∃ o : Outline, o.Parsed d ∧ t.Shows x o

namespace ShowsParsed

variable {d : Dialect} {m : Marker} (hdoc : t.ShowsParsed d) (hx : x ∈ t.walk t.root)

include hdoc hx

theorem nonempty : t.marker? x ≠ some (.text "") := by
  intro hm
  obtain ⟨o, ho, hshows⟩ := hdoc x hx
  apply ho.marker_ne
  rw [hshows.marker_of hm]
  rfl

theorem apart : (t.children x).IsChain fun a b => ¬(t.isText a ∧ t.isText b) := by
  obtain ⟨⟨m, os⟩, ho, howned, -, hall⟩ := hdoc x hx
  rw [children, if_pos howned]
  exact hall.apart ho.separate

theorem children_eq_nil (hnil : ∀ o : Outline, o.Parsed d → o.marker = m → o.children = [])
    (hm : t.marker? x = some m) : t.children x = [] := by
  obtain ⟨o, ho, hshows⟩ := hdoc x hx
  rw [children, if_pos hshows.owned]
  exact hshows.children_eq_nil (hnil o ho (hshows.marker_of hm))

theorem leaf (hm : t.marker? x = some m)
    (hleaf : m.text?.isSome ∨ m.choice?.isSome ∨ m.code?.isSome) : t.children x = [] := by
  apply hdoc.children_eq_nil hx _ hm
  rintro o ho rfl
  exact ho.leaf hleaf

theorem transform {tr : Transform} (hm : t.marker? x = some m) (htr : m.transform? = some tr) :
    t.children x = [] ∧ Piece.ApartAll tr.pieces := by
  constructor
  · apply hdoc.children_eq_nil hx _ hm
    rintro o ho rfl
    exact ho.children_of_transform (by rw [htr]; rfl)
  · obtain ⟨o, ho, hshows⟩ := hdoc x hx
    apply ho.template
    rw [hshows.marker_of hm, htr]

theorem options {c : Choice} (hm : t.marker? x = some (.choice c)) :
    c.options ≠ [] ∧ ∀ s ∈ c.options, s ≠ "" := by
  obtain ⟨o, ho, hshows⟩ := hdoc x hx
  exact ho.options (hshows.marker_of hm)

theorem index {q : Placeholder} (hq : t.placeholder? x = some q) :
    ∃ n < indexBound, q.index = .ofNat n := by
  obtain ⟨o, ho, hshows⟩ := hdoc x hx
  rw [placeholder?, hshows.marker?_eq] at hq
  exact ho.index hq

theorem var {v : Variable} (hv : t.var? x = some v) :
    d.acceptsVariable v.name ∧ v.value = none := by
  obtain ⟨o, ho, hshows⟩ := hdoc x hx
  rw [var?, hshows.marker?_eq] at hv
  exact ho.var hv

/-- What has a choice below it is a tab stop with no other child, and not the final one. -/
theorem alone_of_child (hc : c ∈ (t.slotOf x).children)
    (hchoice : ((t.slotOf c).marker.choice?).isSome) :
    t.children x = [c] ∧ ∃ q, t.placeholder? x = some q ∧ 0 < q.index.value := by
  obtain ⟨⟨m, os⟩, ho, hshows⟩ := hdoc x hx
  have hmarker := hshows.marker?_eq
  obtain ⟨howned, -, hall⟩ := hshows
  obtain ⟨p, hp, hcp⟩ := hall.exists_of_mem hc
  rw [hcp.marker_eq] at hchoice
  obtain ⟨halone, n, hfinal, hm⟩ := ho.choice_alone hp hchoice
  obtain rfl : os = [p] := halone
  constructor
  · rw [children, if_pos howned]
    -- There are as many children as outlines
    obtain ⟨b, hone⟩ := List.length_eq_one_iff.1 hall.forall₂.length_eq
    rw [hone] at hc ⊢
    rw [List.mem_singleton.1 hc]
  · refine ⟨{ index := .ofNat n }, by rw [placeholder?, hmarker, hm]; rfl, ?_⟩
    apply lt_of_le_of_ne (TabIndex.ofNat n).nonneg
    intro hzero
    rw [TabIndex.isFinal, ← hzero] at hfinal
    simp at hfinal

/-- A choice is below a tab stop, alone. -/
theorem exists_alone (hl : t.WellLinked) (hroot : t.marker? t.root = some .root) {c : Choice}
    (hm : t.marker? x = some (.choice c)) :
    ∃ p q, t.parent? x = some p ∧ t.children p = [x] ∧ t.placeholder? p = some q ∧
      0 < q.index.value := by
  -- The root is no choice, so there is a parent
  have hne : x ≠ t.root := by
    rintro rfl
    simp [hroot] at hm
  obtain ⟨p, hp, hxp⟩ := hl.exists_parent hx hne
  have hchoice : ((t.slotOf x).marker.choice?).isSome := by
    obtain ⟨o, -, hshows⟩ := hdoc x hx
    rw [hshows.marker_eq, hshows.marker_of hm]
    rfl
  obtain ⟨halone, q, hq, hpos⟩ := hdoc.alone_of_child hp hxp hchoice
  refine ⟨p, q, ?_, halone, hq, hpos⟩
  rw [hl.parent?_eq_some_iff, halone]
  exact ⟨hl.mem_walk_root_inUse hp, List.mem_singleton_self x⟩

end ShowsParsed

/-- No text that is empty or next to another text is found by normalizing. -/
theorem WellLinked.normalize_eq (hl : t.WellLinked)
    (hnonempty : ∀ x ∈ t.walk t.root, t.marker? x ≠ some (.text ""))
    (hapart : ∀ x ∈ t.walk t.root,
      (t.children x).IsChain fun a b => ¬(t.isText a ∧ t.isText b)) :
    (Tree.normalize t.root 0).perform t = (.ok (), t) := by
  have hroot := Linked.root_inUse hl
  have htidy : ∀ x ∈ t.walk t.root, t.Tidy (t.children x) := by
    -- A child is in the document as well, so it is no empty text
    intro x hx
    refine ⟨fun c hc htext => ?_, hapart x hx⟩
    have hinUse := hl.mem_walk_root_inUse hx
    rw [children_eq hinUse] at hc
    have hcroot := hl.mem_walk_root_child hx hc
    apply hnonempty c hcroot
    have hmarker : (t.slotOf c).marker = .text "" := by
      cases hm : (t.slotOf c).marker <;> simp_all [Marker.text?]
    rw [marker?, if_pos (hl.mem_walk_root_inUse hcroot).owned, hmarker]
  have htidyFrom : t.TidyFrom t.root 0 := by
    refine ⟨htidy t.root (hl.mem_walk_self hroot), fun x hx _ => htidy x ?_⟩
    rw [hl.walk_eq hroot, ← children_eq hroot]
    exact List.mem_cons_of_mem _ hx
  simp only [Tree.normalize, Edit.perform_bind, Edit.perform_get]
  exact normalizeFrom_tidy hl t.capacity hroot.owned htidyFrom

theorem showsParsed_ofSource (identity : Nat) (d : Dialect) (source : String) :
    (ofSource identity d source).ShowsParsed d := by
  intro x hx
  obtain ⟨row, hrow, htells⟩ := readable_ofSource d source
  have hshows := (shows_ofSource identity htells).1
  rw [walk, if_pos hshows.owned] at hx
  exact hshows.exists_of_walk (fun _ ho => ho.children) (.root hrow) hx

theorem marker_root_ofSource (identity : Nat) (d : Dialect) (source : String) :
    (ofSource identity d source).marker? (ofSource identity d source).root = some .root := by
  obtain ⟨row, -, htells⟩ := readable_ofSource d source
  exact (shows_ofSource identity htells).1.marker?_eq

/-- No code has been run when it is read. -/
theorem code_value_ofSource (identity : Nat) (d : Dialect) (source : String)
    (hx : x ∈ (ofSource identity d source).walk (ofSource identity d source).root) {b : CodeBlock}
    (hb : (ofSource identity d source).code? x = some b) : b.value = none := by
  obtain ⟨row, -, htells⟩ := readable_ofSource d source
  have hl := (grown_ofSource identity d source).1
  have hroot := marker_root_ofSource identity d source
  -- The root is no code, so the block is below it
  have hmem : x ∈ (ofSource identity d source).codeBlocks := by
    refine List.mem_filter.2 ⟨?_, by rw [hb]; rfl⟩
    rw [hl.walk_eq (Linked.root_inUse hl)] at hx
    rw [hl.descendants_eq (Linked.root_inUse hl)]
    rcases List.mem_cons.1 hx with rfl | hx
    · simp [code?, hroot, Marker.code?] at hb
    · exact hx
  obtain ⟨us, rest, -, hshorter, hblock⟩ :=
    holdsCode_of_mem htells (code_mem_of_code? htells hmem hb)
  exact value_block hblock

/-- Whatever source is read, in either dialect, the tree has the normal form. -/
theorem normalForm_ofSource (identity : Nat) (d : Dialect) (source : String) :
    (ofSource identity d source).NormalForm := by
  have hl := (grown_ofSource identity d source).1
  have hshows := showsParsed_ofSource identity d source
  have hdialect := ofSource_dialect identity d source
  have hroot := marker_root_ofSource identity d source
  exact {
    nonempty := fun x hx => hshows.nonempty hx
    apart := fun x hx => hshows.apart hx
    normalized := hl.normalize_eq (fun x hx => hshows.nonempty hx) fun x hx => hshows.apart hx
    leaves := fun x hx m hm => hshows.leaf hx hm
    choices := fun x hx c hm => ⟨hshows.options hx hm, hshows.exists_alone hx hl hroot hm⟩
    transforms := fun x hx m tr hm htr => hshows.transform hx hm htr
    indexes := fun x hx q hq => hshows.index hx hq
    names := fun hd x hx v hv => by
      -- It is the only name that the dialect knows
      have haccepts := (hshows.var hx hv).1
      rw [← hdialect, hd] at haccepts
      simpa [Dialect.acceptsVariable] using haccepts
    unset := fun x hx => ⟨fun v hv => (hshows.var hx hv).2,
      fun b hb => code_value_ofSource identity d source hx hb⟩ }

/-- Texts are joined only if there is no node between them: two of the children may be texts. -/
theorem texts_apart_ofSource :
    ¬∀ x ∈ (ofSource 0 .textMate "a$1b").children ⟨0, 0, 0⟩,
      ∀ y ∈ (ofSource 0 .textMate "a$1b").children ⟨0, 0, 0⟩, x ≠ y →
        ¬((ofSource 0 .textMate "a$1b").isText x ∧ (ofSource 0 .textMate "a$1b").isText y) := by
  intro hnone
  have hchildren : (ofSource 0 .textMate "a$1b").children ⟨0, 0, 0⟩ =
      [⟨0, 1, 0⟩, ⟨0, 2, 0⟩, ⟨0, 3, 0⟩] := by cbv
  rw [hchildren] at hnone
  apply hnone ⟨0, 1, 0⟩ (by simp) ⟨0, 3, 0⟩ (by simp) (by decide)
  exact ⟨by cbv, by cbv⟩

end Tree

end TabStop
