import TabStop.Proofs.Repeat.Overwriting
import TabStop.Proofs.Links.Sessions
import TabStop.Tree.Replace

/-!
# Edits that fail change nothing

Some edits look something up, or copy another node, when they have begun to change the tree. In a
sound tree none of that fails, whatever handles the edit has been given: what can be refused is
refused before the first change.
-/

namespace TabStop

namespace Edit

variable {α β : Type} {e : Edit α} {f : α → Edit β} {t : Tree}

/-- An edit that only looks at the tree. -/
def ReadOnly (e : Edit α) : Prop := ∀ t, (e.perform t).2 = t

/-- An edit that leaves the tree as it is when it fails. -/
def Unchanging (e : Edit α) (t : Tree) : Prop :=
  ∀ err, (e.perform t).1 = .error err → (e.perform t).2 = t

theorem ReadOnly.bind (he : e.ReadOnly) (hf : ∀ a, (f a).ReadOnly) : (e >>= f).ReadOnly := by
  intro t
  have hread := he t
  rw [perform_bind]
  rcases hr : e.perform t with ⟨err | a, u⟩
  · rwa [hr] at hread
  · rw [hr] at hread
    subst hread
    exact hf a u

theorem ReadOnly.forM {g : α → Edit PUnit} (hg : ∀ a, (g a).ReadOnly) (as : List α) :
    (forM as g).ReadOnly := by
  induction as with
  | nil => exact fun _ => rfl
  | cons a as ih =>
    rw [List.forM_cons]
    exact (hg a).bind fun _ => ih

theorem Unchanging.of_refuses (hr : t.Refuses e) : e.Unchanging t := by
  obtain ⟨err, hperform⟩ := hr
  intro _ _
  rw [hperform]

theorem Unchanging.of_ok {a : α} (hok : (e.perform t).1 = .ok a) : e.Unchanging t := by
  intro err herr
  rw [hok] at herr
  simp at herr

theorem Unchanging.map {g : α → β} (he : e.Unchanging t) : (g <$> e).Unchanging t := by
  intro err herr
  rw [perform_map] at herr ⊢
  rcases hr : e.perform t with ⟨err' | a, u⟩
  · rw [Unchanging, hr] at he
    exact he err' rfl
  · simp [hr] at herr

/-- What comes first looks at the tree only, so a change is made by what follows. -/
theorem Unchanging.bind (he : e.ReadOnly) (hf : ∀ a, (f a).Unchanging t) :
    (e >>= f).Unchanging t := by
  have hread := he t
  intro err herr
  rw [perform_bind] at herr ⊢
  rcases hr : e.perform t with ⟨err' | a, u⟩
  · rwa [hr] at hread
  · rw [hr] at hread herr
    subst hread
    exact hf a err herr

/-- A last change that is bound to succeed. -/
theorem Unchanging.modify {e : Edit PUnit} (he : e.Unchanging t) (g : Tree → Tree) :
    (do e; modify g : Edit PUnit).Unchanging t := by
  intro err herr
  rw [perform_bind] at herr ⊢
  rcases hr : e.perform t with ⟨err' | a, u⟩
  · rw [Unchanging, hr] at he
    exact he err' rfl
  · simp [hr] at herr

end Edit

namespace Tree

open Edit

variable {t : Tree} {c h p : Handle} {cs : List Handle}

/-! ## Checks -/

theorem readOnly_check (h : Handle) : (check h).ReadOnly := by
  intro t
  rw [check_perform]
  split <;> rfl

theorem readOnly_checkReplace (h : Handle) (cs : List Handle) : (checkReplace h cs).ReadOnly := by
  unfold checkReplace
  refine (readOnly_check h).bind fun _ => ReadOnly.bind (fun _ => rfl) fun t => ?_
  dsimp only
  split
  · exact fun _ => rfl
  · refine (ReadOnly.forM readOnly_check cs).bind fun _ u => ?_
    split <;> rfl

theorem readOnly_placeholderOrFail (h : Handle) : (placeholderOrFail h).ReadOnly := by
  unfold placeholderOrFail
  refine (readOnly_check h).bind fun _ => ReadOnly.bind (fun _ => rfl) fun t => ?_
  dsimp only
  split
  · exact fun _ => rfl
  · split <;> exact fun _ => rfl

theorem readOnly_checkPrimary (h : Handle) : (checkPrimary h).ReadOnly := by
  unfold checkPrimary
  refine (readOnly_placeholderOrFail h).bind fun p u => ?_
  split <;> rfl

/-! ## Edits of nodes -/

theorem unchanging_release (t : Tree) (h : Handle) : (release h).Unchanging t := by
  rcases release_cases t h with ⟨-, -, -, hperform⟩ | hr
  · exact .of_ok (congrArg Prod.fst hperform)
  · exact .of_refuses hr

theorem unchanging_detach (t : Tree) (h : Handle) : (detach h).Unchanging t := by
  rcases detach_cases t h with ⟨-, -, hperform⟩ | hr
  · exact .of_ok (congrArg Prod.fst hperform)
  · exact .of_refuses hr

theorem unchanging_insertChild (t : Tree) (p : Handle) (i : Nat) (c : Handle) :
    (insertChild p i c).Unchanging t := by
  rcases insertChild_cases t p i c with ⟨-, hperform⟩ | ⟨-, hr⟩
  · exact .of_ok (congrArg Prod.fst hperform)
  · exact .of_refuses hr

theorem unchanging_appendChild (t : Tree) (p c : Handle) : (appendChild p c).Unchanging t := by
  rcases appendChild_cases t p c with ⟨-, hperform⟩ | ⟨-, hr⟩
  · exact .of_ok (congrArg Prod.fst hperform)
  · exact .of_refuses hr

theorem unchanging_replaceChildren (t : Tree) (p : Handle) (cs : List Handle) :
    (replaceChildren p cs).Unchanging t := by
  rcases replaceChildren_cases t p cs with ⟨-, -, hperform⟩ | ⟨-, hr⟩
  · exact .of_ok (congrArg Prod.fst hperform)
  · exact .of_refuses hr

theorem unchanging_overwrite (t : Tree) (p : Handle) (cs : List Handle) :
    (overwrite p cs).Unchanging t := by
  rcases overwrite_cases t p cs with ⟨-, -, hperform⟩ | ⟨-, hr⟩
  · exact .of_ok (congrArg Prod.fst hperform)
  · exact .of_refuses hr

namespace WellLinked

/-- The place of the old node is looked up when the new one has been taken out of its own. -/
theorem unchanging_replaceWith (hl : t.WellLinked) (old new : Handle) :
    (replaceWith old new).Unchanging t := by
  rcases replaceWith_cases t old new with ⟨p, i, -, -, -, -, -, hperform⟩ | hr |
    ⟨p, -, hp, hm, ha, hi⟩
  · exact .of_ok (congrArg Prod.fst hperform)
  · exact .of_refuses hr
  · have hne : new ≠ old := by
      rintro rfl
      rw [isAncestorOrSelf_self] at ha
      simp at ha
    exact absurd hi (hl.indexInParent?_unlink hp hm.child_owned hne)

/-- The new text has been made when it is put into its place. -/
theorem unchanging_insertBefore (hl : t.WellLinked) (h : Handle) (s : String) :
    (insertBefore h s).Unchanging t := by
  rcases insertBefore_cases t h s with hr | hperform | ⟨p, hperform⟩ | ⟨p, i, -, hp, -, hperform⟩
  · exact .of_refuses hr
  · exact .of_ok (congrArg Prod.fst hperform)
  · exact .of_ok (congrArg Prod.fst hperform)
  · have ha := Linked.allocated hl (.text s)
    have hfresh : FreshText t (t.alloc (.text s)).2 (t.alloc (.text s)).1 :=
      ⟨(ha.inUse_iff _).2 (Or.inl rfl), ha.fresh, ha.parent, by rw [ha.marker]; rfl, ha.children⟩
    have hmove := hfresh.canMove hl (ha.grown hl) (hl.parent?_eq_some_iff.1 hp).1
    rcases insertChild_cases (t.alloc (.text s)).2 p i (t.alloc (.text s)).1 with
      ⟨-, hplaced⟩ | ⟨hno, -⟩
    · exact .of_ok (congrArg Prod.fst (hperform.trans hplaced))
    · exact absurd hmove hno

/-- Texts have been released when further children are looked at. -/
theorem unchanging_normalize (hl : t.WellLinked) (h : Handle) (start : Nat) :
    (Tree.normalize h start).Unchanging t := by
  by_cases hh : t.InUse h
  · obtain ⟨u, gone, hperform, -, -⟩ := hl.normalize hh start
    exact .of_ok (congrArg Prod.fst hperform)
  · cases hcap : t.capacity with
    | zero =>
      refine Unchanging.of_ok (a := ()) ?_
      simp [Tree.normalize, hcap, normalizeFrom]
    | succ fuel =>
      by_cases ho : t.owns h
      · -- A free slot has nothing below it that could be released
        have hfree : h.slot ∈ t.free := Decidable.of_not_not fun hnot => hh ⟨ho, hnot⟩
        refine Unchanging.of_ok (a := ()) ?_
        simp [Tree.normalize, hcap, normalizeFrom, check_perform, ho, Linked.free_children hl hfree]
      · refine Unchanging.of_refuses ⟨.foreign h, ?_⟩
        simp [Tree.normalize, hcap, normalizeFrom, check_perform, ho]

/-- A part of the copy has been made when the next child is copied. -/
theorem unchanging_copyFrom {s : Tree} (source : Tree → Tree) (hs : s.WellLinked)
    (hl : t.WellLinked) (hsource : ∀ u, Grown t u → Grown s (source u)) (h : Handle)
    (hself : source t = s) : (copyFrom source s.capacity h).Unchanging t := by
  by_cases hh : s.InUse h
  · obtain ⟨c, hok⟩ := copyFrom_ok hs hsource hh (Nat.le_add_right _ _) (Grown.refl hl)
    exact .of_ok hok
  · cases hcap : s.capacity with
    | zero => exact .of_refuses ⟨.foreign h, by simp [copyFrom]⟩
    | succ fuel =>
      by_cases ho : s.owns h
      · -- There is nothing below the node that a free slot will hold
        have hfree : h.slot ∈ s.free := Decidable.of_not_not fun hnot => hh ⟨ho, hnot⟩
        refine Unchanging.of_ok (a := (t.alloc (s.slotOf h).marker).1) ?_
        simp [copyFrom, hself, ho, new, Linked.free_children hs hfree]
      · exact .of_refuses ⟨.foreign h, by simp [copyFrom, hself, ho]⟩

end WellLinked

end Tree

/-! ## All that may be refused -/

open TabStop.Tree Edit

/-- What can be asked of a snippet: an operation on nodes, or an edit of what is in a node. -/
inductive Request where
  | operation (op : Operation)
  | replaceChildren (parent : Handle) (children : List Handle)
  /-- New children for a node; the old ones are released. -/
  | overwrite (parent : Handle) (children : List Handle)
  | replaceSubtree (h : Handle) (children : List Handle)
  | update (primary : Handle)

namespace Request

def edit : Request → Edit (Option Handle)
  | operation op => op.edit
  | replaceChildren parent children => (fun _ => none) <$> Tree.replaceChildren parent children
  | overwrite parent children => (fun _ => none) <$> Tree.overwrite parent children
  | replaceSubtree h children => (fun _ => none) <$> Tree.replaceSubtree h children
  | update primary => (fun _ => none) <$> Tree.update primary

/-- What is copied is a node of a sound tree. -/
def SoundSource : Request → Prop
  | operation (.copyOf other _) => other.WellLinked
  | _ => True

end Request

theorem Operation.unchanging (op : Operation) {t : Tree} (hl : t.WellLinked)
    (hs : (Request.operation op).SoundSource) : op.edit.Unchanging t := by
  -- What only allocates or marks does not fail
  cases op with
  | alloc m => exact .of_ok rfl
  | release h => exact (unchanging_release t h).map
  | detach h => exact (unchanging_detach t h).map
  | insertChild p i c => exact (unchanging_insertChild t p i c).map
  | appendChild p c => exact (unchanging_appendChild t p c).map
  | setOnlyChild p c => exact (unchanging_replaceChildren t p [c]).map
  | replaceWith old new => exact (hl.unchanging_replaceWith old new).map
  | insertBefore h s => exact (hl.unchanging_insertBefore h s).map
  | normalize h start => exact (hl.unchanging_normalize h start).map
  | duplicate h =>
    have hcopy := WellLinked.unchanging_copyFrom id hl hl (fun _ hg => hg) h rfl
    apply Unchanging.map
    intro err
    simpa [Tree.duplicate] using hcopy err
  | copyOf other h =>
    exact (WellLinked.unchanging_copyFrom (fun _ => other) hs hl (fun _ _ => .refl hs) h rfl).map
  | setMarker h m => exact .of_ok rfl

/-- A request that fails leaves the tree as it was, down to the slots that are free. The handles that
it has been given may be any at all. -/
theorem Request.unchanged_of_error (r : Request) {t : Tree} (hl : t.WellLinked)
    (hs : r.SoundSource) {err : EditError} (herr : (r.edit.perform t).1 = .error err) :
    (r.edit.perform t).2 = t := by
  revert err
  show r.edit.Unchanging t
  cases r with
  | operation op => exact op.unchanging hl hs
  | replaceChildren p cs => exact (unchanging_replaceChildren t p cs).map
  | overwrite p cs => exact (unchanging_overwrite t p cs).map
  | replaceSubtree h cs =>
    exact (Unchanging.bind (readOnly_checkReplace h cs) fun _ =>
      (unchanging_overwrite t h cs).modify settle).map
  | update h => exact (Unchanging.bind (readOnly_checkPrimary h) fun _ => .of_ok rfl).map

/-- A tab stop is to be put into itself, which would be a tab stop of index 1 inside of another. -/
theorem unchanged_of_error_ancestorIndex :
    ((Request.replaceSubtree ⟨0, 2, 0⟩ [⟨0, 2, 0⟩]).edit.perform
        (ofSource 0 .textMate "a$\x7b1:b\x7d")).1 = .error (.ancestorIndex (.ofNat 1)) ∧
      ((Request.replaceSubtree ⟨0, 2, 0⟩ [⟨0, 2, 0⟩]).edit.perform
        (ofSource 0 .textMate "a$\x7b1:b\x7d")).2 = ofSource 0 .textMate "a$\x7b1:b\x7d" := by
  have herr : ((Request.replaceSubtree ⟨0, 2, 0⟩ [⟨0, 2, 0⟩]).edit.perform
      (ofSource 0 .textMate "a$\x7b1:b\x7d")).1 = .error (.ancestorIndex (.ofNat 1)) := by cbv
  exact ⟨herr, Request.unchanged_of_error _ (grown_ofSource 0 .textMate _).1 trivial herr⟩

end TabStop
