import Mathlib
import TabStop.Tree.Copy
import TabStop.Tree.Replace

/-!
# What edits do

Edits are written as steps that may fail. Here each of them is described by its outcome: either the
tree is left as it was and there is an error, or there is none and the tree is a given one. Nothing
else needs to look at the steps. The tree after an edit is described by what each slot holds.
-/

namespace TabStop

/-! ## Performing steps -/

namespace Edit

variable {α β : Type}

@[simp] theorem perform_pure (a : α) (t : Tree) : (pure a : Edit α).perform t = (.ok a, t) := rfl

@[simp] theorem perform_throw (err : EditError) (t : Tree) :
    (throw err : Edit α).perform t = (.error err, t) := rfl

@[simp] theorem perform_get (t : Tree) : (get : Edit Tree).perform t = (.ok t, t) := rfl

@[simp] theorem perform_set (t u : Tree) : (set u : Edit PUnit).perform t = (.ok ⟨⟩, u) := rfl

@[simp] theorem perform_modify (f : Tree → Tree) (t : Tree) :
    (modify f : Edit PUnit).perform t = (.ok ⟨⟩, f t) := rfl

@[simp] theorem perform_modifyGet (f : Tree → α × Tree) (t : Tree) :
    (modifyGet f : Edit α).perform t = (.ok (f t).1, (f t).2) := rfl

@[simp] theorem perform_bind (e : Edit α) (f : α → Edit β) (t : Tree) :
    (e >>= f).perform t = match e.perform t with
      | (.ok a, u) => (f a).perform u
      | (.error err, u) => (.error err, u) := by
  simp only [perform, EStateM.run, bind, EStateM.bind]
  cases e t <;> rfl

@[simp] theorem perform_map (f : α → β) (e : Edit α) (t : Tree) :
    (f <$> e).perform t = match e.perform t with
      | (.ok a, u) => (.ok (f a), u)
      | (.error err, u) => (.error err, u) := by
  simp only [perform, EStateM.run, Functor.map, EStateM.map]
  cases e t <;> rfl

theorem perform_attempt (e : Edit Unit) (t : Tree) :
    (attempt e).perform t = match e.perform t with
      | (.ok _, u) => (.ok true, u)
      | (.error _, u) => (.ok false, u) := by
  simp only [attempt, perform, EStateM.run, tryCatch, tryCatchThe, MonadExceptOf.tryCatch,
    EStateM.tryCatch, bind, EStateM.bind]
  cases e t <;> rfl

theorem perform_forM {f : α → Edit PUnit} {g : Tree → α → Tree}
    (h : ∀ a t, (f a).perform t = (.ok ⟨⟩, g t a)) (as : List α) (t : Tree) :
    (forM as f).perform t = (.ok ⟨⟩, as.foldl g t) := by
  induction as generalizing t with
  | nil => rfl
  | cons a as ih => simp [h, ih]

end Edit

namespace Tree

/-! ## Slots -/

theorem owns_iff {t : Tree} {h : Handle} :
    t.owns h ↔
      h.tree = t.identity ∧ h.slot < t.slots.size ∧ (t.slotOf h).generation = h.generation := by
  unfold owns slotOf
  -- Past the last slot there is nothing that a handle could name
  by_cases hs : h.slot < t.slots.size <;> simp [hs, Array.getD]

@[simp] theorem modifySlot_free (t : Tree) (h : Handle) (f : Slot → Slot) :
    (t.modifySlot h f).free = t.free := rfl

@[simp] theorem modifySlot_size (t : Tree) (h : Handle) (f : Slot → Slot) :
    (t.modifySlot h f).slots.size = t.slots.size := by simp [modifySlot]

/-- A change that leaves what is in the slot changes nothing. -/
theorem modifySlot_self {t : Tree} {h : Handle} {f : Slot → Slot} (hf : f (t.slotOf h) = t.slotOf h) :
    t.modifySlot h f = t := by
  have hslots : t.slots.modify h.slot f = t.slots := by
    apply Array.ext (by simp)
    intro i _ hi
    rw [Array.getElem_modify]
    split
    · next heq =>
      subst heq
      simpa [slotOf, hi] using hf
    · rfl
  rw [modifySlot, hslots]

theorem slotOf_modifySlot {t : Tree} {h : Handle} (hs : h.slot < t.slots.size) (f : Slot → Slot)
    (x : Handle) :
    (t.modifySlot h f).slotOf x = if x.slot = h.slot then f (t.slotOf x) else t.slotOf x := by
  unfold slotOf modifySlot
  simp only [Array.getD_eq_getD_getElem?, Array.getElem?_modify]
  by_cases hx : x.slot = h.slot
  · simp [hx, hs]
  · simp [hx, Ne.symm hx]

/-! ## Outcomes

An edit that is refused has changed nothing. The conditions say when an edit is not refused, and the
trees what it makes then. -/

/-- The edit fails and leaves the tree as it is. -/
def Refuses {α : Type} (t : Tree) (e : Edit α) : Prop := ∃ err, e.perform t = (.error err, t)

theorem Refuses.after_eq {α : Type} {t : Tree} {e : Edit α} (h : t.Refuses e) :
    e.after t = t := by
  obtain ⟨err, he⟩ := h
  simp [Edit.after, he]

theorem after_of_perform {α : Type} {t u : Tree} {e : Edit α} {a : α}
    (h : e.perform t = (.ok a, u)) : e.after t = u := by simp [Edit.after, h]

theorem check_perform (h : Handle) (t : Tree) :
    (check h).perform t = if t.owns h then (.ok (), t) else (.error (.foreign h), t) := by
  cases hh : t.owns h <;> simp [check, hh]

/-- A node may be put below another: both are of the tree, and neither is it the root nor would it
get below itself. -/
structure CanMove (t : Tree) (parent child : Handle) : Prop where
  parent_owned : t.owns parent
  child_owned : t.owns child
  not_root : child ≠ t.root
  not_above : t.isAncestorOrSelf child parent = false

theorem checkMove_cases (t : Tree) (parent child : Handle) :
    (t.CanMove parent child ∧ (checkMove parent child).perform t = (.ok (), t)) ∨
      (¬t.CanMove parent child ∧ t.Refuses (checkMove parent child)) := by
  simp only [Refuses, checkMove, Edit.perform_bind, check_perform]
  -- The checks in the order in which they are made, each with the condition that it tests
  by_cases hp : t.owns parent
  · by_cases hc : t.owns child
    · by_cases hr : child = t.root
      · subst hr
        exact Or.inr ⟨fun h => h.not_root rfl, by simp [hp, hc]⟩
      · by_cases ha : t.isAncestorOrSelf child parent
        · exact Or.inr ⟨fun h => by simp [h.not_above] at ha, by simp [hp, hc, hr, ha]⟩
        · exact Or.inl ⟨⟨hp, hc, hr, by simpa using ha⟩, by simp [hp, hc, hr, ha]⟩
    · exact Or.inr ⟨fun h => hc h.child_owned, by simp [hp, hc]⟩
  · exact Or.inr ⟨fun h => hp h.parent_owned, by simp [hp]⟩

theorem release_perform {t : Tree} {h : Handle} (ho : t.owns h) (hr : h ≠ t.root)
    (hp : (t.slotOf h).parent = none) :
    (release h).perform t = (.ok (), (t.walk h).foldl freeSlot t) := by
  simp [release, check_perform, ho, hr, hp]

theorem release_cases (t : Tree) (h : Handle) :
    (t.owns h ∧ h ≠ t.root ∧ (t.slotOf h).parent = none ∧
      (release h).perform t = (.ok (), (t.walk h).foldl freeSlot t)) ∨ t.Refuses (release h) := by
  by_cases ho : t.owns h
  · by_cases hr : h = t.root
    · subst hr
      exact Or.inr ⟨.root, by simp [release, check_perform, ho]⟩
    · cases hp : (t.slotOf h).parent with
      | none => exact Or.inl ⟨ho, hr, rfl, release_perform ho hr hp⟩
      | some p => exact Or.inr ⟨.attached h, by simp [release, check_perform, ho, hr, hp]⟩
  · exact Or.inr ⟨.foreign h, by simp [release, check_perform, ho]⟩

theorem detach_cases (t : Tree) (h : Handle) :
    (t.owns h ∧ h ≠ t.root ∧ (detach h).perform t = (.ok (), t.unlink h)) ∨
      t.Refuses (detach h) := by
  simp only [Refuses, detach, Edit.perform_bind, check_perform]
  by_cases ho : t.owns h
  · by_cases hr : h = t.root
    · subst hr
      exact Or.inr (by simp [ho])
    · exact Or.inl ⟨ho, hr, by simp [ho, hr]⟩
  · exact Or.inr (by simp [ho])

/-- The tree in which a node has been put among the children of another. -/
def placed (t : Tree) (parent : Handle) (i : Nat) (child : Handle) : Tree :=
  ((t.unlink child).modifySlot parent fun s =>
    { s with children := insertAt i child s.children }).setParent child (some parent)

theorem insertChild_cases (t : Tree) (parent : Handle) (i : Nat) (child : Handle) :
    (t.CanMove parent child ∧
      (insertChild parent i child).perform t = (.ok (), t.placed parent i child)) ∨
      (¬t.CanMove parent child ∧ t.Refuses (insertChild parent i child)) := by
  rcases checkMove_cases t parent child with ⟨hm, hp⟩ | ⟨hm, err, hp⟩
  · exact Or.inl ⟨hm, by simp [insertChild, hp, placed]⟩
  · exact Or.inr ⟨hm, err, by simp [insertChild, hp]⟩

theorem appendChild_cases (t : Tree) (parent child : Handle) :
    (t.CanMove parent child ∧ (appendChild parent child).perform t =
        (.ok (), t.placed parent (t.children parent).length child)) ∨
      (¬t.CanMove parent child ∧ t.Refuses (appendChild parent child)) := by
  simpa [appendChild, Refuses] using insertChild_cases t parent (t.children parent).length child

/-- The tree in which given nodes have become the children of a node. -/
def replaced (t : Tree) (parent : Handle) (children : List Handle) : Tree :=
  let old := (t.slotOf parent).children
  let t := old.foldl (fun t c => t.setParent c none) (t.setChildren parent [])
  let t := children.foldl (fun t c => (t.unlink c).setParent c (some parent)) t
  t.setChildren parent children

private theorem checkMoves_cases (t : Tree) (parent : Handle) (children : List Handle) :
    ((∀ c ∈ children, t.CanMove parent c) ∧
      (forM children (checkMove parent)).perform t = (.ok (), t)) ∨
      (¬(∀ c ∈ children, t.CanMove parent c) ∧ t.Refuses (forM children (checkMove parent))) := by
  induction children with
  | nil => exact Or.inl ⟨by simp, by simp⟩
  | cons c cs ih =>
    rw [List.forall_mem_cons]
    -- The first child that is refused ends the checks
    rcases checkMove_cases t parent c with ⟨hm, hc⟩ | ⟨hm, err, hc⟩
    · rcases ih with ⟨hms, hcs⟩ | ⟨hms, err, hcs⟩
      · exact Or.inl ⟨⟨hm, hms⟩, by simp [hc, hcs]⟩
      · exact Or.inr ⟨fun h => hms h.2, err, by simp [hc, hcs]⟩
    · exact Or.inr ⟨fun h => hm h.1, err, by simp [hc]⟩

theorem replaceChildren_cases (t : Tree) (parent : Handle) (children : List Handle) :
    (t.owns parent ∧ (∀ c ∈ children, t.CanMove parent c) ∧
      (replaceChildren parent children).perform t = (.ok (), t.replaced parent children)) ∨
      (¬(t.owns parent ∧ ∀ c ∈ children, t.CanMove parent c) ∧
        t.Refuses (replaceChildren parent children)) := by
  simp only [Refuses, replaceChildren, Edit.perform_bind, check_perform]
  -- Both checks come before any change
  by_cases ho : t.owns parent
  · rcases checkMoves_cases t parent children with ⟨hm, hc⟩ | ⟨hm, err, hc⟩
    · exact Or.inl ⟨ho, hm, by simp [ho, hc, replaced]⟩
    · exact Or.inr ⟨fun h => hm h.2, err, by simp [ho, hc]⟩
  · exact Or.inr ⟨fun h => ho h.1, by simp [ho]⟩

/-- The tree in which one node stands in the place of another, at place `i` below their parent. -/
def exchanged (t : Tree) (parent old replacement : Handle) (i : Nat) : Tree :=
  (((t.unlink replacement).modifySlot parent fun s =>
    { s with children := s.children.set i replacement }).setParent replacement
      (some parent)).setParent old none

theorem replaceWith_cases (t : Tree) (old replacement : Handle) :
    (∃ parent i, t.owns old ∧ t.parent? old = some parent ∧ t.CanMove parent replacement ∧
      t.isAncestorOrSelf replacement old = false ∧
      (t.unlink replacement).indexInParent? old = some i ∧
      (replaceWith old replacement).perform t = (.ok (), t.exchanged parent old replacement i)) ∨
      t.Refuses (replaceWith old replacement) ∨
      (∃ parent, t.owns old ∧ t.parent? old = some parent ∧ t.CanMove parent replacement ∧
        t.isAncestorOrSelf replacement old = false ∧
        (t.unlink replacement).indexInParent? old = none) := by
  simp only [Refuses, replaceWith, Edit.perform_bind, check_perform]
  by_cases ho : t.owns old
  · cases hp : t.parent? old with
    | none => exact Or.inr (Or.inl (by simp [ho, hp, parentOrFail]))
    | some parent =>
      rcases checkMove_cases t parent replacement with ⟨hm, hc⟩ | ⟨-, err, hc⟩
      · by_cases ha : t.isAncestorOrSelf replacement old
        · exact Or.inr (Or.inl (by simp [ho, hp, parentOrFail, hc, ha]))
        · cases hi : (t.unlink replacement).indexInParent? old with
          -- It fails after the replacement has been taken out of its place, which mutual links
          -- keep from coming about
          | none => exact Or.inr (Or.inr ⟨parent, ho, rfl, hm, by simpa using ha, rfl⟩)
          | some i =>
            exact Or.inl ⟨parent, i, ho, rfl, hm, by simpa using ha, rfl,
              by simp [ho, hp, parentOrFail, hc, ha, indexOrFail, hi, exchanged]⟩
      · exact Or.inr (Or.inl ⟨err, by simp [ho, hp, parentOrFail, hc]⟩)
  · exact Or.inr (Or.inl (by simp [ho]))

theorem insertBefore_cases (t : Tree) (h : Handle) (s : String) :
    t.Refuses (insertBefore h s) ∨
      (insertBefore h s).perform t = (.ok (), t) ∨
      (∃ p, (insertBefore h s).perform t = (.ok (), t.appendText p s)) ∨
      ∃ parent i, t.owns h ∧ t.parent? h = some parent ∧ t.indexInParent? h = some i ∧
        (insertBefore h s).perform t =
          (insertChild parent i (t.alloc (.text s)).1).perform (t.alloc (.text s)).2 := by
  simp only [Refuses, insertBefore, Edit.perform_bind, check_perform]
  by_cases ho : t.owns h
  · cases hp : t.parent? h with
    | none => exact Or.inl (by simp [ho, hp, parentOrFail])
    | some parent =>
      cases hi : t.indexInParent? h with
      | none => exact Or.inl (by simp [ho, hp, parentOrFail, hi, indexOrFail])
      | some i =>
        right
        -- Empty text is left out; other text joins the text before it or is a node of its own
        by_cases hs : s.isEmpty
        · exact Or.inl (by simp [ho, hp, parentOrFail, hi, indexOrFail, hs])
        · right
          cases hprev : (if i = 0 then none else (t.slotOf parent).children[i - 1]?).filter
              (fun p => (t.slotOf p).marker.text?.isSome) with
          | some p =>
            exact Or.inl ⟨p, by simp [ho, hp, parentOrFail, hi, indexOrFail, hs, hprev]⟩
          | none =>
            refine Or.inr ⟨parent, i, ho, rfl, rfl, ?_⟩
            simp [ho, hp, parentOrFail, hi, indexOrFail, hs, hprev, new]
  · exact Or.inl (by simp [ho])

/-- Gives back the nodes of a list that have no parent. -/
def releaseOrphans (t : Tree) (hs : List Handle) : Tree :=
  hs.foldl (fun t h => if (t.parent? h).isNone then (release h).after t else t) t

private theorem releaseOrphan_perform (h : Handle) (t : Tree) :
    (do if ((← get).parent? h).isNone then discard (Edit.attempt (release h)) : Edit Unit).perform t
      = (.ok (), if (t.parent? h).isNone then (release h).after t else t) := by
  by_cases hp : (t.parent? h).isNone
  · -- A release that fails is passed over, and has changed nothing
    have hd : (discard (Edit.attempt (release h)) : Edit Unit) =
        (do let _ ← Edit.attempt (release h); pure ()) := rfl
    simp only [Edit.perform_bind, Edit.perform_get, hp, ↓reduceIte, hd, Edit.perform_attempt,
      Edit.after]
    rcases (release h).perform t with ⟨_ | _, u⟩ <;> rfl
  · simp only [Edit.perform_bind, Edit.perform_get, hp]
    rfl

theorem overwrite_cases (t : Tree) (parent : Handle) (children : List Handle) :
    (t.owns parent ∧ (∀ c ∈ children, t.CanMove parent c) ∧
      (overwrite parent children).perform t =
        (.ok (), (t.replaced parent children).releaseOrphans (t.children parent))) ∨
      (¬(t.owns parent ∧ ∀ c ∈ children, t.CanMove parent c) ∧
        t.Refuses (overwrite parent children)) := by
  simp only [Refuses, overwrite, Edit.perform_bind, Edit.perform_get]
  rcases replaceChildren_cases t parent children with ⟨ho, hm, hr⟩ | ⟨hnot, err, hr⟩
  · refine Or.inl ⟨ho, hm, ?_⟩
    have := Edit.perform_forM releaseOrphan_perform (t.children parent) (t.replaced parent children)
    simp only [hr]
    exact this
  · exact Or.inr ⟨hnot, err, by simp [hr]⟩

end Tree

end TabStop
