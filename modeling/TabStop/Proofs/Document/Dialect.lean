import TabStop.Proofs.Repeat.Passes
import TabStop.Snippet
import TabStop.Tree.Resolve

/-!
# The dialect is kept

A tree is of one dialect from the start. No edit changes it, whether it succeeds or fails, nor does
repeating tab stops or resolving variables.
-/

namespace TabStop

/-- An edit that leaves the dialect as it is. -/
def Edit.KeepsDialect {α : Type} (e : Edit α) : Prop := ∀ t, (e.perform t).2.dialect = t.dialect

namespace Edit

variable {α β : Type}

theorem keepsDialect_pure (a : α) : (pure a : Edit α).KeepsDialect := fun _ => rfl

theorem keepsDialect_get : (get : Edit Tree).KeepsDialect := fun _ => rfl

theorem keepsDialect_modify (f : Tree → Tree) (hf : ∀ t, (f t).dialect = t.dialect) :
    (modify f : Edit PUnit).KeepsDialect := hf

theorem KeepsDialect.bind {e : Edit α} {f : α → Edit β} (he : e.KeepsDialect)
    (hf : ∀ a, (f a).KeepsDialect) : (e >>= f).KeepsDialect := by
  intro t
  have hfirst := he t
  rw [perform_bind]
  generalize e.perform t = result at hfirst ⊢
  obtain ⟨_ | a, u⟩ := result
  · exact hfirst
  · exact (hf a u).trans hfirst

theorem KeepsDialect.get_bind {f : Tree → Edit β} (hf : ∀ t, (f t).KeepsDialect) :
    (get >>= f : Edit β).KeepsDialect := keepsDialect_get.bind hf

theorem KeepsDialect.map {e : Edit α} (he : e.KeepsDialect) (f : α → β) :
    (f <$> e).KeepsDialect := by
  intro t
  have hfirst := he t
  rw [perform_map]
  generalize e.perform t = result at hfirst ⊢
  obtain ⟨_ | a, u⟩ := result <;> exact hfirst

theorem KeepsDialect.attempt {e : Edit Unit} (he : e.KeepsDialect) :
    e.attempt.KeepsDialect := by
  intro t
  have hfirst := he t
  rw [perform_attempt]
  generalize e.perform t = result at hfirst ⊢
  obtain ⟨_ | a, u⟩ := result <;> exact hfirst

theorem keepsDialect_foldlM {f : β → α → Edit β} (hf : ∀ b a, (f b a).KeepsDialect)
    (as : List α) (b : β) : (as.foldlM f b).KeepsDialect := by
  induction as generalizing b with
  | nil => exact keepsDialect_pure _
  | cons a as ih => exact (hf b a).bind fun _ => ih _

theorem keepsDialect_forM {f : α → Edit PUnit} (hf : ∀ a, (f a).KeepsDialect) (as : List α) :
    (forM as f).KeepsDialect := by
  induction as with
  | nil => exact keepsDialect_pure _
  | cons a as ih => exact (hf a).bind fun _ => ih

theorem KeepsDialect.after {e : Edit α} (he : e.KeepsDialect) (t : Tree) :
    (e.after t).dialect = t.dialect := he t

end Edit

namespace Tree

open Edit

/-! ## Single changes -/

@[simp] theorem dialect_setChildren (t : Tree) (h : Handle) (cs : List Handle) :
    (t.setChildren h cs).dialect = t.dialect := rfl

@[simp] theorem dialect_setMarker (t : Tree) (h : Handle) (m : Marker) :
    (t.setMarker h m).dialect = t.dialect := by
  unfold setMarker
  split <;> rfl

@[simp] theorem dialect_alloc (t : Tree) (m : Marker) : (t.alloc m).2.dialect = t.dialect := by
  unfold alloc
  split <;> rfl

@[simp] theorem dialect_unlink (t : Tree) (h : Handle) : (t.unlink h).dialect = t.dialect := by
  unfold unlink
  split <;> rfl

theorem dialect_foldl {α : Type} {f : Tree → α → Tree} (hf : ∀ t a, (f t a).dialect = t.dialect)
    (as : List α) (t : Tree) : (as.foldl f t).dialect = t.dialect := by
  induction as generalizing t with
  | nil => rfl
  | cons a as ih => rw [List.foldl_cons, ih, hf]

/-! ## Edits -/

theorem keepsDialect_of_refuses {α : Type} {e : Edit α} {t : Tree} (hr : t.Refuses e) :
    (e.perform t).2.dialect = t.dialect := by
  obtain ⟨err, herr⟩ := hr
  rw [herr]

theorem keepsDialect_check (h : Handle) : (check h).KeepsDialect := by
  intro t
  rw [check_perform]
  split <;> rfl

theorem keepsDialect_new (m : Marker) : (new m).KeepsDialect := fun t => dialect_alloc t m

theorem keepsDialect_release (h : Handle) : (release h).KeepsDialect := by
  intro t
  rcases release_cases t h with ⟨-, -, -, hperform⟩ | hr
  · rw [hperform]
    exact dialect_foldl (f := freeSlot) (fun _ _ => rfl) (t.walk h) t
  · exact keepsDialect_of_refuses hr

theorem keepsDialect_detach (h : Handle) : (detach h).KeepsDialect := by
  intro t
  rcases detach_cases t h with ⟨-, -, hperform⟩ | hr
  · rw [hperform]
    exact dialect_unlink t h
  · exact keepsDialect_of_refuses hr

theorem keepsDialect_insertChild (p : Handle) (i : Nat) (c : Handle) :
    (insertChild p i c).KeepsDialect := by
  intro t
  rcases insertChild_cases t p i c with ⟨-, hperform⟩ | ⟨-, hr⟩
  · rw [hperform]
    exact dialect_unlink t c
  · exact keepsDialect_of_refuses hr

theorem keepsDialect_appendChild (p c : Handle) : (appendChild p c).KeepsDialect :=
  .get_bind fun _ => keepsDialect_insertChild p _ c

theorem dialect_replaced (t : Tree) (p : Handle) (cs : List Handle) :
    (t.replaced p cs).dialect = t.dialect := by
  rw [replaced, dialect_setChildren,
    dialect_foldl (f := fun t c => (t.unlink c).setParent c (some p)) fun t c => dialect_unlink t c,
    dialect_foldl (f := fun t c => t.setParent c none) fun _ _ => rfl, dialect_setChildren]

theorem dialect_releaseOrphans (t : Tree) (hs : List Handle) :
    (t.releaseOrphans hs).dialect = t.dialect := by
  refine dialect_foldl (fun t h => ?_) hs t
  split
  · exact (keepsDialect_release h).after t
  · rfl

theorem keepsDialect_overwrite (p : Handle) (cs : List Handle) : (overwrite p cs).KeepsDialect := by
  intro t
  rcases overwrite_cases t p cs with ⟨-, -, hperform⟩ | ⟨-, hr⟩
  · rw [hperform]
    exact (dialect_releaseOrphans _ _).trans (dialect_replaced t p cs)
  · exact keepsDialect_of_refuses hr

theorem keepsDialect_dropChild (h : Handle) : (dropChild h).KeepsDialect :=
  (keepsDialect_modify (·.setParent h none) fun _ => rfl).bind fun _ => keepsDialect_release h

theorem keepsDialect_normalizeChild {inside : Handle → Edit Unit}
    (hinside : ∀ h, (inside h).KeepsDialect) (start : Nat) (kept : List Handle) (c : Handle) :
    (normalizeChild inside start kept c).KeepsDialect := by
  refine .get_bind fun t => ?_
  split
  · exact (hinside c).bind fun _ => keepsDialect_pure _
  split
  · exact (keepsDialect_dropChild c).bind fun _ => keepsDialect_pure _
  dsimp only
  split
  · next l _ =>
    exact (keepsDialect_modify (·.appendText l _) fun _ => rfl).bind fun _ =>
      (keepsDialect_dropChild c).bind fun _ => keepsDialect_pure _
  · exact keepsDialect_pure _

theorem keepsDialect_normalizeFrom (fuel : Nat) (h : Handle) (start : Nat) :
    (normalizeFrom fuel h start).KeepsDialect := by
  induction fuel generalizing h start with
  | zero => exact keepsDialect_pure _
  | succ fuel ih =>
    refine (keepsDialect_check h).bind fun _ => .get_bind fun t => ?_
    refine KeepsDialect.bind ?_ fun kept => keepsDialect_modify (·.setChildren h kept) fun _ => rfl
    exact keepsDialect_foldlM (fun kept c => keepsDialect_normalizeChild (fun c => ih c 0) _ kept c)
      _ _

/-! ## Repeating -/

theorem keepsDialect_newText (s : String) : (newText s).KeepsDialect := by
  unfold newText
  split
  · exact keepsDialect_pure _
  · exact (keepsDialect_new _).bind fun _ => keepsDialect_pure _

theorem dialect_overwriteText (t : Tree) (h : Handle) (s : String) :
    (t.overwriteText h s).2.dialect = t.dialect := by
  have hkeeps := ((keepsDialect_newText s).bind fun cs => keepsDialect_overwrite h cs) t
  unfold overwriteText
  split
  · next heq => rwa [heq] at hkeeps
  · next heq => rwa [heq] at hkeeps

theorem dialect_showText (t : Tree) (h : Handle) (s : String) :
    (t.showText h s).2.dialect = t.dialect := by
  unfold showText
  split
  · split
    · rfl
    · exact dialect_overwriteText t h s
  · split
    · split
      · rfl
      · exact dialect_setMarker t _ _
    · exact dialect_overwriteText t h s
  · exact dialect_overwriteText t h s

theorem dialect_turn (t : Tree) (p : Handle) : (t.turn p).dialect = t.dialect := by
  unfold turn repeatPrimary
  split
  · split
    · rfl
    split
    · rw [foldl_repeatAt_snd]
      refine dialect_foldl (fun t m => ?_) _ _
      unfold followed
      split
      · rfl
      · exact dialect_showText _ _ _
    · rfl
  · rfl

theorem dialect_repeatPasses (n : Nat) (t : Tree) : (repeatPasses n t).dialect = t.dialect := by
  have hpass (t : Tree) : t.repeatPass.2.dialect = t.dialect := by
    rw [repeatPass_snd]
    exact dialect_foldl dialect_turn _ _
  induction n generalizing t with
  | zero => rfl
  | succ n ih =>
    rw [repeatPasses_succ]
    split
    · exact (ih _).trans (hpass t)
    · exact hpass t

@[simp] theorem dialect_repeatAll (t : Tree) : t.repeatAll.dialect = t.dialect :=
  dialect_repeatPasses _ t

@[simp] theorem dialect_assignPrimaries (t : Tree) : t.assignPrimaries.dialect = t.dialect := by
  refine dialect_foldl (fun u h => ?_) _ _
  split
  · unfold markPrimary
    split
    · exact dialect_setMarker _ _ _
    · rfl
  · rfl

@[simp] theorem dialect_insertFinal (t : Tree) : t.insertFinal.2.dialect = t.dialect := by
  have hkeeps := (KeepsDialect.bind (keepsDialect_new (.placeholder
    { index := .final, primary := true })) fun h => KeepsDialect.get_bind fun t =>
      keepsDialect_appendChild t.root h) t
  unfold insertFinal
  split
  · rfl
  split
  · next heq => rwa [heq] at hkeeps
  · next heq => rwa [heq] at hkeeps

/-! ## Resolving -/

theorem keepsDialect_insertAll (p : Handle) (i : Nat) (hs : List Handle) :
    (insertAll p i hs).KeepsDialect := by
  induction hs generalizing i with
  | nil => exact keepsDialect_pure _
  | cons h hs ih => exact (keepsDialect_insertChild p i h).bind fun _ => ih _

theorem keepsDialect_splice (h : Handle) : (splice h).KeepsDialect := by
  refine .get_bind fun t => ?_
  split
  · next p i _ _ =>
    exact (keepsDialect_insertAll p i _).bind fun _ => (keepsDialect_detach h).bind fun _ =>
      (keepsDialect_release h).bind fun _ => .get_bind fun _ => keepsDialect_normalizeFrom _ p 0
  · exact keepsDialect_pure _

end Tree

end TabStop
