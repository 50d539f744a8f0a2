import TabStop.Proofs.Source.RoundTrip

/-!
# What is read of what is written

Not all that a tree holds is written. Of a tab stop or a variable with a transform nothing is
written but the transform; which tab stops are primary ones is not written either; and text that
follows text is written as one text. So a tree that is no tree of a source may be read back as
another one. What is read then can be told from the outline: it is the outline without what is not
written.
-/

namespace TabStop

open Token Grammar

/-! ## Markers -/

namespace Marker

/-- What is written of a node: not whether it is a primary tab stop. -/
def unmarked : Marker → Marker
  | placeholder p => placeholder { p with primary := false }
  | root => root
  | text s => text s
  | var v => var v
  | choice c => choice c
  | code b => code b

/-- The transform of a tab stop or a variable. -/
def transform? : Marker → Option Transform
  | placeholder p => p.transform
  | var v => v.transform
  | root => none
  | text _ => none
  | choice _ => none
  | code _ => none

variable {m : Marker} {ms : List Marker}

@[simp] theorem unmarked_unmarked (m : Marker) : m.unmarked.unmarked = m.unmarked := by
  cases m <;> rfl

@[simp] theorem text?_unmarked (m : Marker) : m.unmarked.text? = m.text? := by cases m <;> rfl

@[simp] theorem choice?_unmarked (m : Marker) : m.unmarked.choice? = m.choice? := by cases m <;> rfl

@[simp] theorem ownText?_unmarked (m : Marker) : m.unmarked.ownText? = m.ownText? := by
  cases m <;> rfl

@[simp] theorem transform?_unmarked (m : Marker) : m.unmarked.transform? = m.transform? := by
  cases m <;> rfl

@[simp] theorem placeholder?_unmarked (m : Marker) :
    m.unmarked.placeholder? = m.placeholder?.map fun p => { p with primary := false } := by
  cases m <;> rfl

/-- What a node may hold to be written in a way that is read as what is written. Its children are
told by their markers. -/
inductive Admits : Marker → List Marker → Prop
  | text {s : String} (hs : s ≠ "") : Admits (.text s) []
  | options {os : List String} (hne : os ≠ []) (hos : ∀ o ∈ os, o ≠ "") : Admits (.choice ⟨os⟩) []
  | placeholder {n : Nat} {b : Bool} {ms : List Marker} (hn : n < indexBound)
      (hms : ∀ m ∈ ms, m.choice? = none) :
      Admits (.placeholder { index := .ofNat n, primary := b }) ms
  | choice {n : Nat} {b : Bool} {os : List String} (hn : n < indexBound)
      (hfinal : (TabIndex.ofNat n).isFinal = false) :
      Admits (.placeholder { index := .ofNat n, primary := b }) [.choice ⟨os⟩]
  | placeholderTransform {n : Nat} {b : Bool} {t : Transform} {ms : List Marker}
      (hn : n < indexBound) (ht : ReadableTransform .textMate t) (hms : ∀ m ∈ ms, m.text?.isSome) :
      Admits (.placeholder { index := .ofNat n, primary := b, transform := some t }) ms
  | var {name : String} {ms : List Marker} (hname : (word name).WellFormed)
      (haccepts : Dialect.textMate.acceptsVariable name) (hms : ∀ m ∈ ms, m.choice? = none) :
      Admits (.var { name }) ms
  | varTransform {name : String} {t : Transform} (hname : (word name).WellFormed)
      (haccepts : Dialect.textMate.acceptsVariable name) (ht : ReadableTransform .textMate t) :
      Admits (.var { name, transform := some t }) []

theorem choice?_of_text (hm : m.text?.isSome) : m.choice? = none := by
  cases m <;> simp [text?] at hm
  rfl

/-- A tab stop may hold text in place of what it holds. -/
theorem Admits.overwritten {p : Placeholder} (ha : Admits (.placeholder p) ms)
    {texts : List Marker} (htexts : ∀ m ∈ texts, m.text?.isSome) :
    Admits (.placeholder p) texts := by
  have hchoice : ∀ m ∈ texts, m.choice? = none := fun m hm => choice?_of_text (htexts m hm)
  cases ha with
  | placeholder hn => exact .placeholder hn hchoice
  | choice hn => exact .placeholder hn hchoice
  | placeholderTransform hn ht => exact .placeholderTransform hn ht htexts

theorem unmarked_eq_self (hm : m.placeholder? = none) : m.unmarked = m := by
  cases m with
  | placeholder p => simp [Marker.placeholder?] at hm
  | _ => rfl

theorem eq_of_unmarked {m' : Marker} (heq : m'.unmarked = m.unmarked)
    (hm : m.placeholder? = none) : m' = m := by
  have hm' : m'.placeholder? = none := by
    have hnone := congrArg Marker.placeholder? heq
    rw [unmarked_eq_self hm, hm, placeholder?_unmarked] at hnone
    simpa using hnone
  rwa [unmarked_eq_self hm, unmarked_eq_self hm'] at heq

/-- What differs from a tab stop only in being primary is that tab stop but for that. -/
theorem exists_of_unmarked {p : Placeholder} (heq : m.unmarked = (Marker.placeholder p).unmarked) :
    ∃ b, m = .placeholder { p with primary := b } := by
  cases m with
  | placeholder q =>
    obtain ⟨index, b, transform⟩ := q
    simp only [unmarked, Marker.placeholder.injEq, Placeholder.mk.injEq, true_and] at heq
    obtain ⟨rfl, rfl⟩ := heq
    exact ⟨b, rfl⟩
  | _ => simp [unmarked] at heq

/-- It makes no difference which tab stops are primary ones. -/
theorem Admits.congr {m m' : Marker} {ms ms' : List Marker} (ha : Admits m ms)
    (hm : m'.unmarked = m.unmarked) (hms : ms'.map unmarked = ms.map unmarked) : Admits m' ms' := by
  have hall {P : Marker → Prop} (hP : ∀ m : Marker, P m.unmarked ↔ P m) (h : ∀ m ∈ ms, P m) :
      ∀ m ∈ ms', P m := by
    intro m hm
    have hmem : m.unmarked ∈ ms.map unmarked := hms ▸ List.mem_map_of_mem hm
    obtain ⟨n, hn, heq⟩ := List.mem_map.1 hmem
    rw [← hP, ← heq, hP]
    exact h n hn
  have hchoice := hall (P := fun m => m.choice? = none) fun m => by rw [choice?_unmarked]
  have htext := hall (P := fun m => m.text?.isSome) fun m => by rw [text?_unmarked]
  have hnil (h : ms = []) : ms' = [] := by simpa [h] using hms
  -- Whether a tab stop is primary is never asked for, so each case is the same case again
  cases ha with
  | text hs =>
    rw [eq_of_unmarked hm rfl, hnil rfl]
    exact .text hs
  | options hne hos =>
    rw [eq_of_unmarked hm rfl, hnil rfl]
    exact .options hne hos
  | placeholder hn h =>
    obtain ⟨b, rfl⟩ := exists_of_unmarked hm
    exact .placeholder hn (hchoice h)
  | choice hn hfinal =>
    obtain ⟨b, rfl⟩ := exists_of_unmarked hm
    obtain ⟨c, rfl, hc⟩ : ∃ c, ms' = [c] ∧ c.unmarked = .choice _ := by simpa [unmarked] using hms
    rw [eq_of_unmarked (m := .choice _) hc rfl]
    exact .choice hn hfinal
  | placeholderTransform hn ht h =>
    obtain ⟨b, rfl⟩ := exists_of_unmarked hm
    exact .placeholderTransform hn ht (htext h)
  | var hname haccepts h =>
    rw [eq_of_unmarked hm rfl]
    exact .var hname haccepts (hchoice h)
  | varTransform hname haccepts ht =>
    rw [eq_of_unmarked hm rfl, hnil rfl]
    exact .varTransform hname haccepts ht

end Marker

/-! ## Outlines -/

namespace Outline

/-- Puts a node before the nodes of a row; text joins the text that it comes before. -/
def prepend (o : Outline) : List Outline → List Outline
  | [] => [o]
  | p :: os =>
    match o.marker.text?, p.marker.text? with
    | some r, some s => node (.text (r ++ s)) [] :: os
    | _, _ => o :: p :: os

mutual

/-- What is written of a node and what is below it. -/
def reread : Outline → Outline
  | node m cs => node m.unmarked (if m.transform?.isSome then [] else rereadAll cs)

/-- What is written of nodes in a row. -/
def rereadAll : List Outline → List Outline
  | [] => []
  | o :: os => prepend (reread o) (rereadAll os)

end

/-- Each node may hold what it holds. -/
inductive Writable : Outline → Prop
  | node {m : Marker} {cs : List Outline} (hm : m.Admits (cs.map marker))
      (hcs : ∀ o ∈ cs, Writable o) : Writable (node m cs)

variable {o : Outline} {os : List Outline}

@[simp] theorem marker_reread (o : Outline) : o.reread.marker = o.marker.unmarked := by
  obtain ⟨m, cs⟩ := o
  rfl

theorem prepend_cases (o : Outline) (os : List Outline) :
    (prepend o os = o :: os ∧ (o.IsNode ∨ ∀ q ∈ os.head?, q.IsNode)) ∨
      ∃ r s cs ps, o.marker = .text r ∧ os = node (.text s) cs :: ps ∧
        prepend o os = node (.text (r ++ s)) [] :: ps := by
  cases os with
  | nil => exact Or.inl ⟨rfl, by simp⟩
  | cons p os =>
    obtain ⟨m, cs⟩ := p
    obtain ⟨n, ds⟩ := o
    cases n <;> cases m <;> first
      | exact Or.inl ⟨rfl, Or.inl rfl⟩
      | exact Or.inl ⟨rfl, Or.inr (by simp [IsNode, marker, Marker.text?])⟩
      | exact Or.inr ⟨_, _, _, _, rfl, rfl, rfl⟩

@[simp] theorem prepend_ne_nil (o : Outline) (os : List Outline) : prepend o os ≠ [] := by
  rcases prepend_cases o os with ⟨h, -⟩ | ⟨_, _, _, _, -, -, h⟩ <;> simp [h]

@[simp] theorem isEmpty_rereadAll (os : List Outline) : (rereadAll os).isEmpty = os.isEmpty := by
  cases os <;> simp [rereadAll]

/-! ### What is written is the same -/

theorem escapeText_append (d : Dialect) (r s : String) :
    escapeText d (r ++ s) = escapeText d r ++ escapeText d s := by
  simp [escapeText, escapeWhere, String.toList_append, List.flatMap_append, String.ofList_append]

theorem Writable.admits (ho : o.Writable) : o.marker.Admits (o.children.map marker) := by
  cases ho with
  | node hm => exact hm

theorem Writable.children (ho : o.Writable) : ∀ c ∈ o.children, c.Writable := by
  cases ho with
  | node _ hcs => exact hcs

theorem Writable.text_ne (ho : o.Writable) {s : String} (hs : o.marker = .text s) : s ≠ "" := by
  have ha := ho.admits
  rw [hs] at ha
  generalize o.children.map marker = ms at ha
  cases ha with
  | text hs => exact hs

theorem startsWithDigit_reread (o : Outline) : o.reread.startsWithDigit = o.startsWithDigit := by
  rw [startsWithDigit, startsWithDigit, marker_reread, Marker.text?_unmarked]

/-- Whether a digit comes first is told by the first text, as it is not empty. -/
theorem startsWithDigit_rereadAll (hos : ∀ o ∈ os, o.Writable) :
    (rereadAll os).head?.any startsWithDigit = os.head?.any startsWithDigit := by
  cases os with
  | nil => rfl
  | cons o os =>
    rw [rereadAll]
    -- A text that is joined keeps its first character, since it is not empty
    rcases prepend_cases o.reread (rereadAll os) with ⟨h, -⟩ | ⟨r, s, cs, ps, hr, -, h⟩
    · rw [h]
      exact startsWithDigit_reread o
    · rw [h, List.head?_cons, List.head?_cons, Option.any_some, Option.any_some,
        ← startsWithDigit_reread o]
      have hne : r ≠ "" := by
        rw [marker_reread] at hr
        apply (hos o (List.mem_cons_self ..)).text_ne
        cases hm : o.marker <;> simp [hm, Marker.unmarked] at hr
        rw [hr]
      have hdigit : o.reread.startsWithDigit = r.toList.head?.any isDigit := by
        rw [startsWithDigit, hr]
        rfl
      have hlist : r.toList ≠ [] := by simpa using hne
      obtain ⟨c, rest, hrest⟩ := List.exists_cons_of_ne_nil hlist
      rw [hdigit]
      simp [startsWithDigit, marker, Marker.text?, hrest]

theorem findSome?_choice? (hcs : ∀ m ∈ os.map marker, m.choice? = none) :
    (os.findSome? fun c => c.marker.choice?) = none := by
  rw [List.findSome?_eq_none_iff]
  exact fun c hc => hcs _ (List.mem_map_of_mem hc)

theorem choice?_rereadAll (os : List Outline) (hos : ∀ m ∈ os.map marker, m.choice? = none) :
    ∀ m ∈ (rereadAll os).map marker, m.choice? = none := by
  induction os with
  | nil => simp [rereadAll]
  | cons o os ih =>
    rw [List.map_cons, List.forall_mem_cons] at hos
    have ih := ih hos.2
    rw [rereadAll]
    rcases prepend_cases o.reread (rereadAll os) with ⟨h, -⟩ | ⟨r, s, cs, ps, -, heq, h⟩
    · rw [h, List.map_cons, List.forall_mem_cons, marker_reread, Marker.choice?_unmarked]
      exact ⟨hos.1, ih⟩
    · rw [heq, List.map_cons, List.forall_mem_cons] at ih
      rw [h, List.map_cons, List.forall_mem_cons]
      exact ⟨rfl, ih.2⟩

/-- The row of a choice is read as it is. -/
theorem rereadAll_choice {c : Choice} (h : os.map marker = [.choice c])
    (hos : ∀ o ∈ os, o.Writable) : rereadAll os = os := by
  match os, h with
  | [node _ cs], h =>
    obtain rfl : _ = Marker.choice c := by simpa [marker] using h
    cases hos _ (List.mem_singleton_self _) with
    | node hm hcs =>
      generalize hms : cs.map marker = ms at hm
      cases hm with
      | options =>
        obtain rfl : cs = [] := by simpa using hms
        rfl

mutual

/-- A node is written as what is read of it. -/
theorem source_reread : (o : Outline) → o.Writable → (digitFollows : Bool) →
    o.reread.source .textMate digitFollows = o.source .textMate digitFollows
  | node m cs, ho, digitFollows => by
    obtain ⟨ha, hcs⟩ : m.Admits (cs.map marker) ∧ ∀ o ∈ cs, o.Writable := by
      cases ho with
      | node hm hcs => exact ⟨hm, hcs⟩
    have hinside := sourceAll_rereadAll cs hcs
    rw [reread]
    generalize hms : cs.map marker = ms at ha
    -- What a node holds decides how it is written, and is the same after it is read again
    cases ha with
    | text => rfl
    | options => rfl
    | @placeholder n b _ hn hchoice =>
      have h := findSome?_choice? (hms ▸ hchoice)
      have h' := findSome?_choice? (choice?_rereadAll cs (hms ▸ hchoice))
      simp [Marker.transform?, Marker.unmarked, source, placeholderContent, content, h, h', hinside]
    | @choice n b os hn hfinal =>
      rw [rereadAll_choice hms hcs]
      simp [Marker.transform?, Marker.unmarked, source, placeholderContent, content]
    | placeholderTransform =>
      simp [Marker.unmarked, source, placeholderContent, content]
    | var => simp [Marker.transform?, Marker.unmarked, source, content, hinside]
    | varTransform => simp [Marker.unmarked, source, content]

/-- Nodes in a row are written as what is read of them. -/
theorem sourceAll_rereadAll : (os : List Outline) → (∀ o ∈ os, o.Writable) →
    sourceAll .textMate (rereadAll os) = sourceAll .textMate os
  | [], _ => rfl
  | o :: os, hos => by
    obtain ⟨ho, hos⟩ := List.forall_mem_cons.1 hos
    have hsource := source_reread o ho
    have hrest := sourceAll_rereadAll os hos
    have hdigit := startsWithDigit_rereadAll hos
    rw [rereadAll, sourceAll, ← hrest, ← hdigit, ← hsource]
    rcases prepend_cases o.reread (rereadAll os) with ⟨h, -⟩ | ⟨r, s, cs, ps, hr, heq, h⟩
    · rw [h, sourceAll]
    · -- Two texts are written one after the other as one text
      obtain ⟨m, ds⟩ := o
      rw [marker_reread] at hr
      rw [h, heq, sourceAll, sourceAll, ← String.append_assoc]
      simp only [reread, hr, marker] at *
      simp [source, escapeText_append]

end

/-! ### What is written is readable -/

theorem ReadableRow.prepend (hos : ReadableRow .textMate os) (ho : Readable .textMate o) :
    ReadableRow .textMate (prepend o os) := by
  rcases prepend_cases o os with ⟨h, hsep⟩ | ⟨r, s, cs, ps, hr, rfl, h⟩
  · rw [h]
    exact ⟨List.forall_mem_cons.2 ⟨ho, hos.readable⟩, hsep, hos.separate⟩
  · rw [h]
    obtain ⟨hs, hps⟩ := List.forall_mem_cons.1 hos.readable
    refine ⟨List.forall_mem_cons.2 ⟨?_, hps⟩, ?_, hos.separate.2⟩
    · cases hs with
      | text hs => exact .text (by simp [hs])
    · -- What comes after the text is no text, as it came after one before
      exact Or.inr (hos.separate.1.resolve_left (by simp [IsNode, marker, Marker.text?]))

mutual

theorem readable_reread : (o : Outline) → o.Writable → o.marker.choice? = none →
    Readable .textMate o.reread
  | .node m cs, ho, hchoice => by
    obtain ⟨ha, hcs⟩ : m.Admits (cs.map marker) ∧ ∀ o ∈ cs, o.Writable := by
      cases ho with
      | node hm hcs => exact ⟨hm, hcs⟩
    have hrow := readableRow_rereadAll cs hcs
    rw [reread]
    generalize hms : cs.map marker = ms at ha hrow
    -- The nodes inside a transform are lost, which is why a node with one is readable
    cases ha with
    | text hs =>
      obtain rfl : cs = [] := by simpa using hms
      exact .text hs
    | options => simp [marker, Marker.choice?] at hchoice
    | placeholder hn hinside =>
      exact .placeholder hn (hrow hinside).readable (hrow hinside).separate
    | @choice n b os hn hfinal =>
      have hrow := rereadAll_choice hms hcs
      obtain ⟨o, rfl, hmarker⟩ : ∃ o, cs = [o] ∧ o.marker = .choice ⟨os⟩ := by simpa using hms
      simp only [Marker.transform?, Option.isSome_none, Bool.false_eq_true, ↓reduceIte, hrow]
      obtain ⟨k, ds⟩ := o
      obtain rfl : k = .choice ⟨os⟩ := hmarker
      -- The only node inside the tab stop is the choice, which has options
      cases hcs _ (List.mem_singleton_self _) with
      | node hk _ =>
        generalize hns : ds.map marker = ns at hk
        cases hk with
        | options hne hos =>
          obtain rfl : ds = [] := by simpa using hns
          exact .choice hn hfinal hne hos
    | placeholderTransform hn ht => exact .placeholderTransform hn ht
    | var hname haccepts hinside =>
      exact .var hname haccepts (hrow hinside).readable (hrow hinside).separate
    | varTransform hname haccepts ht => exact .varTransform hname haccepts ht

theorem readableRow_rereadAll : (os : List Outline) → (∀ o ∈ os, o.Writable) →
    (∀ m ∈ os.map marker, m.choice? = none) → ReadableRow .textMate (rereadAll os)
  | [], _, _ => .nil
  | o :: os, hos, hchoice => by
    obtain ⟨ho, hos⟩ := List.forall_mem_cons.1 hos
    rw [List.map_cons, List.forall_mem_cons] at hchoice
    exact (readableRow_rereadAll os hos hchoice.2).prepend (readable_reread o ho hchoice.1)

end

/-- What is written for nodes in a row tells what is read of them. -/
theorem tells_rereadAll (hos : ∀ o ∈ os, o.Writable)
    (hchoice : ∀ m ∈ os.map marker, m.choice? = none) :
    Event.Tells (Event.ofSource .textMate (sourceAll .textMate os)) [] (rereadAll os) := by
  have hrow := readableRow_rereadAll os hos hchoice
  rw [← sourceAll_rereadAll os hos]
  refine hrow.tells_sourceAll fun m hm => ?_
  obtain ⟨o, ho, hmo⟩ := mem_markersAll.1 hm
  exact (hrow.readable o ho).code?_eq_none m hmo

end Outline

end TabStop
