import TabStop.Proofs.Document.Frame
import TabStop.Proofs.Document.Positions
import TabStop.Proofs.Canonical.Returning

/-!
# Taking a node out of the frame

When the children of a node are put in its place, all other nodes of the frame stay what they are and
where they are, but that the node is no more above them. The texts that meet are joined, so some of
them are lost; but text has nothing below it that could be lost with it.
-/

namespace TabStop

/-! ## What normalizing spares -/

namespace Slot

variable {S : Handle → Prop} {s r q : Slot}

/-- What is below a node is among the nodes `S`, and there is nothing below a text. -/
def Orderly (S : Handle → Prop) (s : Slot) : Prop :=
  (∀ c ∈ s.children, S c) ∧ (s.marker.text?.isSome → s.children = [])

/-- A slot that is left as it is but for the children, unless it holds a text. -/
structure Spares (S : Handle → Prop) (s r : Slot) : Prop where
  text : s.marker.text?.isSome → r.marker.text?.isSome
  node : s.marker.text? = none →
    r.marker = s.marker ∧ r.parent = s.parent ∧ r.generation = s.generation
  orderly : s.Orderly S → r.Orderly S

theorem Spares.refl : Spares S s s := ⟨id, fun _ => ⟨rfl, rfl, rfl⟩, id⟩

theorem Spares.trans (hr : Spares S s r) (hq : Spares S r q) : Spares S s q := by
  refine ⟨hq.text ∘ hr.text, fun hs => ?_, hq.orderly ∘ hr.orderly⟩
  obtain ⟨hmarker, hparent, hgeneration⟩ := hr.node hs
  obtain ⟨hmarker', hparent', hgeneration'⟩ := hq.node (by rw [hmarker, hs])
  exact ⟨hmarker'.trans hmarker, hparent'.trans hparent, hgeneration'.trans hgeneration⟩

end Slot

namespace Tree

variable {t u v : Tree} {c h p x : Handle} {as bs cs hs kept : List Handle} {S : Handle → Prop}

/-- What is below the nodes `S` is among them, and there is nothing below a text of them. -/
def Orderly (S : Handle → Prop) (t : Tree) : Prop := ∀ x, S x → (t.slotOf x).Orderly S

/-- What is true of a tree `t` in which nothing but texts and lists of children has been changed. -/
structure Spares (S : Handle → Prop) (t u : Tree) : Prop where
  identity : u.identity = t.identity
  slot (x : Handle) : (t.slotOf x).Spares S (u.slotOf x)
  free {x : Handle} : (t.slotOf x).marker.text? = none → x.slot ∈ u.free → x.slot ∈ t.free

namespace Spares

theorem refl : Spares S t t := ⟨rfl, fun _ => .refl, fun _ => id⟩

theorem trans (hu : Spares S t u) (hv : Spares S u v) : Spares S t v :=
  ⟨hv.identity.trans hu.identity, fun x => (hu.slot x).trans (hv.slot x), fun {x} hx hmem =>
    hu.free hx (hv.free (by rw [((hu.slot x).node hx).1, hx]) hmem)⟩

theorem orderly (hs : Spares S t u) (ht : Orderly S t) : Orderly S u :=
  fun x hx => (hs.slot x).orderly (ht x hx)

theorem text?_eq_none (hs : Spares S t u) (hx : (t.slotOf x).marker.text? = none) :
    (u.slotOf x).marker.text? = none := by rw [((hs.slot x).node hx).1, hx]

end Spares

theorem spares_modifySlot {f : Slot → Slot} (hf : (t.slotOf c).Spares S (f (t.slotOf c))) :
    Spares S t (t.modifySlot c f) := by
  refine ⟨rfl, fun x => ?_, fun _ => id⟩
  by_cases hlt : c.slot < t.slots.size
  · rw [slotOf_modifySlot hlt]
    split
    · next hslot => rwa [slotOf_congr hslot]
    · exact .refl
  · rw [modifySlot_of_not_lt hlt]
    exact .refl

theorem spares_appendText (t : Tree) (c : Handle) (s : String) : Spares S t (t.appendText c s) := by
  refine spares_modifySlot ?_
  generalize t.slotOf c = slot
  cases hm : slot.marker with
  | text old =>
    refine ⟨fun _ => rfl, fun hnot => ?_, fun ho => ⟨ho.1, fun _ => ho.2 (by rw [hm]; rfl)⟩⟩
    simp [hm, Marker.text?] at hnot
  | _ => exact .refl

theorem spares_setParent (hc : (t.slotOf c).marker.text?.isSome) (o : Option Handle) :
    Spares S t (t.setParent c o) :=
  spares_modifySlot ⟨id, fun hnot => by simp [hnot] at hc, id⟩

theorem spares_freeSlot (hc : (t.slotOf c).marker.text?.isSome) : Spares S t (t.freeSlot c) := by
  have hs : Spares S t (t.modifySlot c Slot.cleared) :=
    spares_modifySlot ⟨fun _ => rfl, fun hnot => by simp [hnot] at hc, fun _ => by simp [Slot.Orderly,
      Slot.cleared]⟩
  refine ⟨rfl, hs.slot, fun {x} hx hmem => ?_⟩
  -- The slot that has been given back is that of a text
  rcases List.mem_cons.1 hmem with hslot | hmem
  · rw [slotOf_congr hslot] at hx
    simp [hx] at hc
  · exact hmem

theorem spares_setChildren (hh : (t.slotOf h).marker.text? = none) (hcs : ∀ c ∈ cs, S c) :
    Spares S t (t.setChildren h cs) :=
  spares_modifySlot ⟨id, fun _ => ⟨rfl, rfl, rfl⟩, fun _ => ⟨hcs, fun htext => by
    simp [hh] at htext⟩⟩

/-- A text is released, with nothing below it. -/
theorem spares_dropChild (ht : Orderly S t) (hc : S c) (htext : (t.slotOf c).marker.text?.isSome) :
    Spares S t ((dropChild c).perform t).2 := by
  have hs := spares_setParent (S := S) htext none
  have htext' := (hs.slot c).text htext
  have hnil := ((hs.orderly ht) c hc).2 htext'
  have hrelease : Spares S (t.setParent c none) ((release c).after (t.setParent c none)) := by
    rcases release_cases (t.setParent c none) c with ⟨howns, -, -, hperform⟩ | hrefuses
    -- A text has no children, so nothing is released but itself
    · have hwalk : (t.setParent c none).walk c = [c] ∨ (t.setParent c none).walk c = [] := by
        rw [walk, if_pos howns]
        cases (t.setParent c none).capacity with
        | zero => exact Or.inr rfl
        | succ fuel => exact Or.inl (by rw [walkFrom, hnil]; rfl)
      rw [after_of_perform hperform]
      rcases hwalk with hwalk | hwalk
      · rw [hwalk]
        exact spares_freeSlot htext'
      · rw [hwalk]
        exact .refl
    · rw [hrefuses.after_eq]
      exact .refl
  exact hs.trans hrelease

/-! ### The children of a node one by one -/

/-- What it means that an edit changes nothing but text, and answers with nodes of `S`. -/
private structure SparesList (S : Handle → Prop) (t : Tree)
    (r : Except EditError (List Handle) × Tree) : Prop where
  spares : Spares S t r.2
  listed {ks : List Handle} : r.1 = .ok ks → ∀ k ∈ ks, S k

private theorem SparesList.of_then {e : Edit Unit} {ks : List Handle}
    (he : Spares S t (e.perform t).2) (hks : ∀ k ∈ ks, S k) :
    SparesList S t ((do e; return ks : Edit (List Handle)).perform t) := by
  rw [Edit.perform_bind]
  rcases hr : e.perform t with ⟨err | _, u⟩
  · rw [hr] at he
    exact ⟨he, nofun⟩
  · rw [hr] at he
    exact ⟨he, fun heq => Except.ok.inj heq ▸ hks⟩

/-- What it means that nothing but text is changed inside of the nodes `S`. -/
private def SparesInside (S : Handle → Prop) (inside : Handle → Edit Unit) : Prop :=
  ∀ t c, Orderly S t → S c → (t.slotOf c).marker.text? = none →
    Spares S t ((inside c).perform t).2

private theorem normalizeChild_spares {inside : Handle → Edit Unit}
    (hinside : SparesInside S inside) (start : Nat) (ht : Orderly S t) (hkept : ∀ k ∈ kept, S k)
    (hc : S c) : SparesList S t ((normalizeChild inside start kept c).perform t) := by
  have hall : ∀ k ∈ kept ++ [c], S k := by
    intro k hk
    rcases List.mem_append.1 hk with hk | hk
    · exact hkept k hk
    · exact List.mem_singleton.1 hk ▸ hc
  cases htext : (t.slotOf c).marker.text? with
  | none =>
    have heq : (normalizeChild inside start kept c).perform t =
        (do inside c; return kept ++ [c] : Edit (List Handle)).perform t := by
      simp [normalizeChild, htext]
    rw [heq]
    exact .of_then (hinside t c ht hc htext) hall
  | some s =>
    have hsome : (t.slotOf c).marker.text?.isSome := by rw [htext]; rfl
    by_cases hs : s = ""
    · -- Empty text goes
      have heq : (normalizeChild inside start kept c).perform t =
          (do dropChild c; return kept : Edit (List Handle)).perform t := by
        simp [normalizeChild, htext, hs]
      rw [heq]
      exact .of_then (spares_dropChild ht hc hsome) hkept
    · cases hlast : (if start < kept.length then kept.getLast? else none).filter
          (fun l => (t.slotOf l).marker.text?.isSome) with
      | none =>
        have heq : (normalizeChild inside start kept c).perform t = (.ok (kept ++ [c]), t) := by
          simp [normalizeChild, htext, hs, hlast]
        rw [heq]
        exact ⟨.refl, fun hks => Except.ok.inj hks ▸ hall⟩
      | some l =>
        -- The text before it takes it over
        have happend := spares_appendText (S := S) t l s
        have heq : (normalizeChild inside start kept c).perform t =
            (do dropChild c; return kept : Edit (List Handle)).perform (t.appendText l s) := by
          simp [normalizeChild, htext, hs, hlast]
        have hdropped : Spares S (t.appendText l s) ((dropChild c).perform (t.appendText l s)).2 :=
          spares_dropChild (happend.orderly ht) hc ((happend.slot c).text hsome)
        obtain ⟨hspares, hlisted⟩ := SparesList.of_then hdropped hkept
        rw [heq]
        exact ⟨happend.trans hspares, hlisted⟩

private theorem normalizeChildren_spares {inside : Handle → Edit Unit}
    (hinside : SparesInside S inside) (start : Nat) (ht : Orderly S t) (hkept : ∀ k ∈ kept, S k)
    (hhs : ∀ h ∈ hs, S h) :
    SparesList S t ((hs.foldlM (normalizeChild inside start) kept).perform t) := by
  induction hs generalizing t kept with
  | nil => exact ⟨.refl, fun hks => Except.ok.inj hks ▸ hkept⟩
  | cons c hs ih =>
    obtain ⟨hc, hhs⟩ := List.forall_mem_cons.1 hhs
    obtain ⟨hspares, hlisted⟩ := normalizeChild_spares hinside start ht hkept hc
    rw [List.foldlM_cons, Edit.perform_bind]
    rcases hr : (normalizeChild inside start kept c).perform t with ⟨err | ks, u⟩
    · rw [hr] at hspares
      exact ⟨hspares, nofun⟩
    · rw [hr] at hspares hlisted
      obtain ⟨hrest, hlast⟩ := ih (hspares.orderly ht) (hlisted rfl) hhs
      exact ⟨hspares.trans hrest, hlast⟩

/-- Normalizing changes nothing but text, and the lists in which it was. -/
theorem spares_normalizeFrom (fuel : Nat) (start : Nat) (ht : Orderly S t) (hh : S h)
    (hnode : (t.slotOf h).marker.text? = none) :
    Spares S t ((normalizeFrom fuel h start).perform t).2 := by
  induction fuel generalizing t h start with
  | zero => exact .refl
  | succ fuel ih =>
    -- The depth of the recursion is that of the nodes inside the node
    have hinside : SparesInside S fun c => normalizeFrom fuel c 0 :=
      fun t c ht hc hnode => ih 0 ht hc hnode
    have hchildren := (ht h hh).1
    obtain ⟨hspares, hlisted⟩ := normalizeChildren_spares hinside
      (min start (t.slotOf h).children.length) ht
      (fun k hk => hchildren k (List.mem_of_mem_take hk))
      (fun k hk => hchildren k (List.mem_of_mem_drop hk))
    simp only [normalizeFrom, Edit.perform_bind, check_perform]
    split
    · next heq =>
      split at heq
      · obtain rfl := (Prod.mk.inj heq).2
        simp only [Edit.perform_get]
        split
        · next hr =>
          rw [hr] at hspares hlisted
          exact hspares.trans (spares_setChildren (hspares.text?_eq_none hnode) (hlisted rfl))
        · next hr =>
          rw [hr] at hspares
          exact hspares
      · simp at heq
    · next heq =>
      split at heq
      · simp at heq
      · obtain rfl := (Prod.mk.inj heq).2
        exact .refl

/-! ## Nodes of the document -/

theorem mem_walk_of_mem_frame (hx : x ∈ t.frame) : x ∈ t.walk t.root :=
  List.mem_of_mem_drop (List.mem_filter.1 hx).1

/-- What is above a node of the document is no text. -/
theorem TextLeaves.above (hleaves : t.TextLeaves) (hl : t.WellLinked) (hx : x ∈ t.walk t.root)
    (hp : p ∈ t.ancestors x) : (t.slotOf p).marker.text? = none := by
  have hxu := hl.mem_walk_root_inUse hx
  have habove := isAncestorOrSelf_iff.2 (List.mem_cons_of_mem x hp)
  have hpu := Linked.above_inUse hl hxu habove
  have hne : x ≠ p := by
    rintro rfl
    exact Linked.not_mem_ancestors hl hxu hp
  -- It has a child
  obtain ⟨c, hc, -⟩ := ((hl.mem_walk_cons hpu).1
    ((hl.mem_walk_of_ne hpu hxu hne).2 hp)).resolve_left hne
  rw [← Option.not_isSome_iff_eq_none]
  intro htext
  simp [hleaves p (hl.mem_walk_root_of_above hx habove) htext] at hc

/-! ## The children of a node take its place -/

/-- A node is put below another one. -/
theorem placed_slots (hc : t.InUse c) (p : Handle) (i : Nat) (x : Handle) :
    ((t.placed p i c).slotOf x).marker = (t.slotOf x).marker ∧
      ((t.placed p i c).slotOf x).parent =
        if x.slot = c.slot then some p else (t.slotOf x).parent := by
  have hs := (sameSlots_unlink t c).trans (sameSlots_modifySlot
    (f := fun s : Slot => { s with children := insertAt i c s.children }) (by intro; rfl) _ p)
  constructor
  · rw [placed, setParent, slotOf_modifySlot_eq Slot.marker (by intro; rfl),
      slotOf_modifySlot_eq Slot.marker (by intro; rfl), marker_unlink]
  · rw [placed, parent_setParent (hs.inUse_iff.2 hc),
      slotOf_modifySlot_eq Slot.parent (by intro; rfl), parent_unlink hc]
    split <;> rfl

/-- The children of a node lose the one that is placed, wherever it was, and one of them gets it. -/
theorem WellLinked.children_placed (hl : t.WellLinked) (hp : t.InUse p) (hc : t.InUse c) (i : Nat)
    (hx : t.InUse x) : ((t.placed p i c).slotOf x).children =
      if x = p then insertAt i c ((t.slotOf x).children.filter (· ≠ c))
      else (t.slotOf x).children.filter (· ≠ c) := by
  have hpu := (sameSlots_unlink t c).inUse_iff.2 hp
  rw [Tree.placed, children_setParent, children_modifySlot (f := insertAt i c) hpu,
    Linked.children_unlink hl hc hx rfl]
  by_cases hxp : x = p
  · rw [if_pos (by rw [hxp]), if_pos hxp]
  · rw [if_neg (hx.slot_ne hp hxp), if_neg hxp]

/-- A tree in which the children `cs` of the node `h` have been put before it, among those of `p`. -/
private structure Lifted (t : Tree) (p h : Handle) (as cs bs : List Handle) (u : Tree) : Prop where
  wellLinked : u.WellLinked
  slots : SameSlots t u
  marker (x : Handle) : (u.slotOf x).marker = (t.slotOf x).marker
  parent {x : Handle} : t.InUse x →
    (u.slotOf x).parent = if x ∈ cs then some p else (t.slotOf x).parent
  children {x : Handle} : t.InUse x → (u.slotOf x).children =
    if x = h then [] else if x = p then as ++ cs ++ h :: bs else (t.slotOf x).children

/-- The node `h`, with the children `cs`, is between `as` and `bs` among the children of `p`. -/
private structure Liftable (t : Tree) (p h : Handle) (as cs bs : List Handle) : Prop where
  wellLinked : t.WellLinked
  above : t.InUse p
  split : (t.slotOf p).children = as ++ h :: bs
  below : (t.slotOf h).children = cs

namespace Liftable

theorem child (hlift : Liftable t p h as cs bs) :
    t.InUse h ∧ (t.slotOf h).parent = some p ∧ h ≠ p := by
  have hmem : h ∈ (t.slotOf p).children := by simp [hlift.split]
  obtain ⟨hh, hup⟩ := Linked.child hlift.wellLinked hlift.above hmem
  exact ⟨hh, hup, fun heq => Linked.not_above_of_child hlift.wellLinked hlift.above hmem
    (heq ▸ isAncestorOrSelf_self t p)⟩

/-- The first of the children can be put below `p`, for it is neither above it nor the root. -/
theorem movable (hlift : Liftable t p h as (c :: cs) bs) :
    t.InUse c ∧ (t.slotOf c).parent = some h ∧ c ≠ t.root ∧ c ∉ p :: t.ancestors p ∧ h ≠ c := by
  obtain ⟨hh, hup, -⟩ := hlift.child
  obtain ⟨hc, hch⟩ := Linked.child hlift.wellLinked hh (by rw [hlift.below]; exact List.mem_cons_self ..)
  have hlineage : t.Lineage c (h :: p :: t.ancestors p) :=
    ⟨hch, hup, Linked.lineage_ancestors hlift.wellLinked hlift.above⟩
  have hnot := (List.nodup_cons.1 hlineage.nodup).1
  refine ⟨hc, hch, ?_, fun hmem => hnot (List.mem_cons_of_mem _ hmem),
    fun heq => hnot (heq ▸ List.mem_cons_self ..)⟩
  rintro rfl
  simp [Linked.root_parent hlift.wellLinked] at hch

/-- No list but that of the node has one of its children. -/
theorem filter_children (hlift : Liftable t p h as (c :: cs) bs) (hx : t.InUse x) (hxh : x ≠ h) :
    (t.slotOf x).children.filter (· ≠ c) = (t.slotOf x).children := by
  obtain ⟨-, hch, -⟩ := hlift.movable
  exact filter_ne_of_not_mem fun hcx =>
    hxh (Option.some.inj ((Linked.child hlift.wellLinked hx hcx).2.symm.trans hch))

theorem nodup (hlift : Liftable t p h as cs bs) : cs.Nodup :=
  hlift.below ▸ Linked.nodup hlift.wellLinked hlift.child.1

/-- One step: the first of the children is put before the node. -/
theorem placed (hlift : Liftable t p h as (c :: cs) bs) :
    Liftable (t.placed p as.length c) p h (as ++ [c]) cs bs := by
  have hl := hlift.wellLinked
  obtain ⟨hh, -, hhp⟩ := hlift.child
  obtain ⟨hc, -, hroot, hnot, -⟩ := hlift.movable
  refine ⟨hl.placed hlift.above hc hroot hnot as.length, (sameSlots_placed t p as.length c).inUse_iff.2 hlift.above, ?_, ?_⟩
  · rw [hl.children_placed hlift.above hc _ hlift.above, if_pos rfl,
      hlift.filter_children hlift.above hhp.symm, hlift.split, insertAt]
    simp
  · rw [hl.children_placed hlift.above hc _ hh, if_neg hhp, hlift.below,
      List.filter_cons_of_neg (by simp), filter_ne_of_not_mem (List.nodup_cons.1 hlift.nodup).1]

end Liftable

/-- The children are put before the node one by one. -/
private theorem insertAll_lifted (hlift : Liftable t p h as cs bs) :
    ∃ u, (insertAll p as.length cs).perform t = (.ok (), u) ∧ Lifted t p h as cs bs u := by
  -- Induction on the children that are still below the node, for any tree in which the others stand
  -- before it
  induction cs generalizing t as with
  | nil =>
    refine ⟨t, rfl, hlift.wellLinked, .refl t, fun _ => rfl, fun _ => by simp, fun {x} hx => ?_⟩
    split
    · next heq => rw [heq, hlift.below]
    · split
      · next heq => rw [heq, hlift.split, List.append_nil]
      · rfl
  | cons c cs ih =>
    obtain ⟨hc, hch, hroot, hnot, hne⟩ := hlift.movable
    have hs := sameSlots_placed t p as.length c
    have hslots := placed_slots hc p as.length
    obtain ⟨u, hperform, hu⟩ := ih hlift.placed
    refine ⟨u, ?_, hu.wellLinked, hs.trans hu.slots, fun x => (hu.marker x).trans (hslots x).1,
      fun {x} hx => ?_, fun {x} hx => ?_⟩
    · rcases insertChild_cases t p as.length c with ⟨-, hinsert⟩ | ⟨hno, -⟩
      · rw [List.length_append, List.length_singleton] at hperform
        simp only [insertAll, Edit.perform_bind, hinsert, hperform]
      · exact absurd (canMove_iff.2 ⟨hlift.above.owned, hc.owned, hroot, hnot⟩) hno
    · rw [hu.parent (hs.inUse_iff.2 hx), (hslots x).2]
      by_cases hxc : x = c
      · rw [hxc, if_neg (List.nodup_cons.1 hlift.nodup).1, if_pos rfl, if_pos (List.mem_cons_self ..)]
      · simp [hxc, hx.slot_ne hc hxc]
    · rw [hu.children (hs.inUse_iff.2 hx),
        hlift.wellLinked.children_placed hlift.above hc _ hx]
      split
      · rfl
      · next hxh =>
        split
        · simp
        · rw [hlift.filter_children hx hxh]

/-- The children of a node, with those of the node `h` in the place of `h`. -/
def childrenPast (t : Tree) (h x : Handle) : List Handle :=
  (t.slotOf x).children.flatMap fun c => if c = h then (t.slotOf h).children else [c]

theorem childrenPast_of_split (hnodup : (as ++ h :: bs).Nodup)
    (hsplit : (t.slotOf p).children = as ++ h :: bs) :
    t.childrenPast h p = as ++ (t.slotOf h).children ++ bs := by
  obtain ⟨hnot, -⟩ := List.nodup_cons.1 (List.perm_middle.nodup_iff.1 hnodup)
  rw [List.mem_append, not_or] at hnot
  have hkept {cs : List Handle} (hcs : h ∉ cs) :
      cs.flatMap (fun c => if c = h then (t.slotOf h).children else [c]) = cs := by
    have hone : ∀ c ∈ cs, (if c = h then (t.slotOf h).children else [c]) = [c] :=
      fun c hc => if_neg fun (heq : c = h) => hcs (heq ▸ hc)
    rw [List.flatMap_congr hone, List.flatMap_singleton']
  rw [childrenPast, hsplit, List.flatMap_append, List.flatMap_cons, if_pos rfl, hkept hnot.1,
    hkept hnot.2, List.append_assoc]

theorem childrenPast_of_not_mem (hnot : h ∉ (t.slotOf x).children) :
    t.childrenPast h x = (t.slotOf x).children := by
  have hone : ∀ c ∈ (t.slotOf x).children, (if c = h then (t.slotOf h).children else [c]) = [c] :=
    fun c hc => if_neg fun (heq : c = h) => hnot (heq ▸ hc)
  rw [childrenPast, List.flatMap_congr hone, List.flatMap_singleton']

/-- A tree from which the node `h` below `p` has been taken, with its children left in its place. -/
structure Pulled (t : Tree) (p h : Handle) (u : Tree) : Prop where
  wellLinked : u.WellLinked
  trims : Trims t [h.slot] u
  inUse_iff (x : Handle) : u.InUse x ↔ t.InUse x ∧ x ≠ h
  marker {x : Handle} : u.InUse x → (u.slotOf x).marker = (t.slotOf x).marker
  parent {x : Handle} : u.InUse x →
    (u.slotOf x).parent = if (t.slotOf x).parent = some h then some p else (t.slotOf x).parent
  children {x : Handle} : u.InUse x → (u.slotOf x).children = t.childrenPast h x

/-- A tree from which the node `h` has been taken, which had nothing below it. -/
private structure Plucked (u : Tree) (h : Handle) (w : Tree) : Prop where
  wellLinked : w.WellLinked
  trims : Trims u [h.slot] w
  inUse_iff (x : Handle) : w.InUse x ↔ u.InUse x ∧ x ≠ h
  marker {x : Handle} : w.InUse x → (w.slotOf x).marker = (u.slotOf x).marker
  parent {x : Handle} : w.InUse x → (w.slotOf x).parent = (u.slotOf x).parent
  children {x : Handle} : w.InUse x →
    (w.slotOf x).children = (u.slotOf x).children.filter (· ≠ h)

private theorem pluck (hl : u.WellLinked) (hh : u.InUse h) (hroot : h ≠ u.root)
    (hnil : (u.slotOf h).children = []) :
    ∃ w, (do detach h; release h : Edit Unit).perform u = (.ok (), w) ∧ Plucked u h w := by
  have hs := sameSlots_unlink u h
  have hv := hl.unlink hh
  have hhv := hs.inUse_iff.2 hh
  have hnone : ((u.unlink h).slotOf h).parent = none := by rw [parent_unlink hh, if_pos rfl]
  have hchildren {x : Handle} (hx : u.InUse x) : ((u.unlink h).slotOf x).children =
      (u.slotOf x).children.filter (· ≠ h) := Linked.children_unlink hl hh hx rfl
  -- Nothing but the node goes
  have hwalk : (u.unlink h).walk h = [h] := by
    rw [hv.walk_eq hhv, hchildren hh, hnil]
    rfl
  obtain ⟨hreleased, hlinked⟩ := Linked.released hv hhv (WellLinked.agreesBelow _ h)
    (by rwa [hs.root_eq]) hnone
  have hrelease := release_perform hhv.owned (by rwa [hs.root_eq]) hnone
  have htrims := hreleased.trims
  have hinUse := hreleased.inUse_iff
  have hother := hreleased.other
  simp only [hwalk, List.mem_singleton, hs.inUse_iff] at hrelease htrims hinUse hother hlinked
  have hne {x : Handle} (hx : ([h].foldl freeSlot (u.unlink h)).InUse x) :
      u.InUse x ∧ x ≠ h := (hinUse x).1 hx
  refine ⟨[h].foldl freeSlot (u.unlink h), ?_, ?_, ?_, hinUse, fun {x} hx => ?_,
    fun {x} hx => ?_, fun {x} hx => ?_⟩
  · have hdetach : (detach h).perform u = (.ok (), u.unlink h) := by
      rcases detach_cases u h with ⟨-, -, hperform⟩ | ⟨err, hperform⟩
      · exact hperform
      · simp [detach, check_perform, hh.owned, hroot] at hperform
    simp only [Edit.perform_bind, hdetach, hrelease]
  · exact hlinked.wellLinked fun x hx => by rw [hother x hx]
  · exact hs.trims.trans htrims (Linked.free_nodup hlinked)
  · rw [hother x hx, marker_unlink]
  · rw [hother x hx, parent_unlink hh, if_neg ((hne hx).1.slot_ne hh (hne hx).2)]
  · rw [hother x hx, hchildren (hne hx).1]

/-- The children are put before the node, and then it is taken out with nothing below it. -/
private theorem pull (hlift : Liftable t p h as (t.slotOf h).children bs) :
    ∃ w, (do insertAll p as.length (t.slotOf h).children; detach h; release h : Edit Unit).perform
      t = (.ok (), w) ∧ Pulled t p h w := by
  have hl := hlift.wellLinked
  obtain ⟨hh, hup, hhp⟩ := hlift.child
  -- All children are put in front of the node, which is then taken out and released
  obtain ⟨u, hinsert, hu⟩ := insertAll_lifted hlift
  have hnodup := Linked.nodup hu.wellLinked (hu.slots.inUse_iff.2 hlift.above)
  rw [hu.children hlift.above, if_neg hhp.symm, if_pos rfl] at hnodup
  have hroot : h ≠ u.root := by
    rw [hu.slots.root_eq]
    rintro rfl
    simp [Linked.root_parent hl] at hup
  obtain ⟨w, hpluck, hw⟩ := pluck hu.wellLinked (hu.slots.inUse_iff.2 hh) hroot
    (by rw [hu.children hh, if_pos rfl])
  have hinUse (x : Handle) : w.InUse x ↔ t.InUse x ∧ x ≠ h := by
    rw [hw.inUse_iff, hu.slots.inUse_iff]
  refine ⟨w, ?_, hw.wellLinked, hu.slots.trims.trans hw.trims (Linked.free_nodup hw.wellLinked),
    hinUse, fun {x} hx => by rw [hw.marker hx, hu.marker], fun {x} hx => ?_, fun {x} hx => ?_⟩
  · rw [Edit.perform_bind, hinsert]
    exact hpluck
  · have hxt := ((hinUse x).1 hx).1
    have hchild : x ∈ (t.slotOf h).children ↔ (t.slotOf x).parent = some h :=
      ⟨fun hmem => (Linked.child hl hh hmem).2, fun hxh => (Linked.parent hl hxt hxh).2⟩
    simp only [hw.parent hx, hu.parent hxt, hchild]
  · obtain ⟨hxt, hne⟩ := (hinUse x).1 hx
    rw [hw.children hx, hu.children hxt, if_neg hne]
    split
    · next hxp =>
      rw [hxp, childrenPast_of_split (hlift.split ▸ Linked.nodup hl hlift.above) hlift.split,
        filter_ne_append_cons hnodup]
    · next hxp =>
      -- The node has been a child of nothing but its parent
      have hnot : h ∉ (t.slotOf x).children := fun hhx =>
        hxp (Option.some.inj ((Linked.child hl hxt hhx).2.symm.trans hup))
      rw [childrenPast_of_not_mem hnot, filter_ne_of_not_mem hnot]

namespace Pulled

/-- The way up is the same but for the node that has been taken out. -/
theorem lineage {as : List Handle} (hu : Pulled t p h u) (hl : t.WellLinked)
    (hup : (t.slotOf h).parent = some p) (hpne : p ≠ h) (hx : t.InUse x) (ha : t.Lineage x as) :
    (x ≠ h → u.Lineage x (as.filter (· ≠ h))) ∧ (x = h → u.Lineage p (as.tail.filter (· ≠ h))) := by
  have hparent {x : Handle} (hx : t.InUse x) (hne : x ≠ h) := hu.parent ((hu.inUse_iff x).2 ⟨hx, hne⟩)
  -- On the way up the node is left out, wherever it is met
  induction as generalizing x with
  | nil =>
    have hnone : (t.slotOf x).parent = none := ha
    refine ⟨fun hne => ?_, ?_⟩
    · rw [List.filter_nil, Lineage, hparent hx hne]
      simp [hnone]
    · rintro rfl
      simp [hnone] at hup
  | cons a as ih =>
    obtain ⟨hxa, ha⟩ := ha
    obtain ⟨hau, -⟩ := Linked.parent hl hx hxa
    obtain ⟨hother, hself⟩ := ih hau ha
    refine ⟨fun hne => ?_, ?_⟩
    · by_cases hah : a = h
      · subst hah
        cases as with
        | nil =>
          rw [Lineage, hup] at ha
          simp at ha
        | cons b as =>
          obtain rfl : p = b := Option.some.inj (hup.symm.trans ha.1)
          rw [List.filter_cons_of_neg (by simp), List.filter_cons_of_pos (by simpa using hpne)]
          refine ⟨?_, hself rfl⟩
          rw [hparent hx hne, if_pos hxa]
      · rw [List.filter_cons_of_pos (by simpa using hah)]
        refine ⟨?_, hother hah⟩
        rw [hparent hx hne, hxa, if_neg fun heq => hah (Option.some.inj heq)]
    · rintro rfl
      obtain rfl : p = a := Option.some.inj (hup.symm.trans hxa)
      exact hother hpne

theorem ancestors_eq (hu : Pulled t p h u) (hl : t.WellLinked)
    (hup : (t.slotOf h).parent = some p) (hpne : p ≠ h) (hx : u.InUse x) :
    u.ancestors x = (t.ancestors x).filter (· ≠ h) := by
  obtain ⟨hxt, hne⟩ := (hu.inUse_iff x).1 hx
  exact Linked.ancestors_eq hu.wellLinked hx
    ((hu.lineage hl hup hpne hxt (Linked.lineage_ancestors hl hxt)).1 hne)

/-- What was in the document has only such nodes below it, and there is nothing below a text. -/
theorem orderly (hu : Pulled t p h u) (hl : t.WellLinked) (hleaves : t.TextLeaves)
    (hh : h ∈ t.walk t.root) (hup : (t.slotOf h).parent = some p) :
    Orderly (fun x => x ∈ t.walk t.root ∧ x ≠ h) u := by
  rintro x ⟨hx, hne⟩
  have hxt := hl.mem_walk_root_inUse hx
  have hxu := (hu.inUse_iff x).2 ⟨hxt, hne⟩
  -- A child was a child before, or it has come from below the node
  have hchild {c : Handle} (hc : c ∈ (u.slotOf x).children) : c ≠ h ∧
      (x = p ∧ c ∈ (t.slotOf h).children ∨ c ∈ (t.slotOf x).children) := by
    obtain ⟨hcu, hcx⟩ := Linked.child hu.wellLinked hxu hc
    obtain ⟨hct, hch⟩ := (hu.inUse_iff c).1 hcu
    refine ⟨hch, ?_⟩
    rw [hu.parent hcu] at hcx
    split at hcx
    · next hup => exact Or.inl ⟨(Option.some.inj hcx).symm, (Linked.parent hl hct hup).2⟩
    · exact Or.inr (Linked.parent hl hct hcx).2
  refine ⟨fun c hc => ?_, fun htext => List.eq_nil_iff_forall_not_mem.2 fun c hc => ?_⟩
  · obtain ⟨hch, ⟨-, hc⟩ | hc⟩ := hchild hc
    · exact ⟨hl.mem_walk_root_child hh hc, hch⟩
    · exact ⟨hl.mem_walk_root_child hx hc, hch⟩
  · rw [hu.marker hxu] at htext
    have hnil := hleaves x hx htext
    obtain ⟨-, ⟨rfl, -⟩ | hc⟩ := hchild hc
    · have hmem := (hl.mem_walk_root_parent hh hup).2
      simp [hnil] at hmem
    · simp [hnil] at hc

end Pulled

/-- What is true of a tree from which a node of the frame has been taken, with its children left in
its place. -/
structure Spliced (t : Tree) (h : Handle) (u : Tree) : Prop where
  wellLinked : u.WellLinked
  identity : u.identity = t.identity
  capacity : u.capacity = t.capacity
  leaves : u.TextLeaves
  root_marker : (u.slotOf t.root).marker = (t.slotOf t.root).marker
  mem_frame_iff (x : Handle) : x ∈ u.frame ↔ x ∈ t.frame ∧ x ≠ h
  marker {x : Handle} : x ∈ u.frame → (u.slotOf x).marker = (t.slotOf x).marker
  ancestors_eq {x : Handle} : x ∈ u.frame → u.ancestors x = (t.ancestors x).filter (· ≠ h)

/-- A tree `v` that is left by the text being joined in `u`, from which the node `h` of the frame of
`t` has been taken. -/
private structure Mended (t : Tree) (p h : Handle) (u v : Tree) : Prop where
  wellLinked : t.WellLinked
  leaves : t.TextLeaves
  mem_frame : h ∈ t.frame
  parent : (t.slotOf h).parent = some p
  ne : p ≠ h
  pulled : Pulled t p h u
  linked : v.WellLinked
  trims : ∃ gone, Trims u gone v
  spares : Spares (fun x => x ∈ t.walk t.root ∧ x ≠ h) u v

namespace Mended

theorem orderly (hm : Mended t p h u v) : Orderly (fun x => x ∈ t.walk t.root ∧ x ≠ h) v :=
  hm.spares.orderly
    (hm.pulled.orderly hm.wellLinked hm.leaves (mem_walk_of_mem_frame hm.mem_frame) hm.parent)

theorem root_eq (hm : Mended t p h u v) : v.root = t.root := by
  simp [root, hm.spares.identity, hm.pulled.trims.identity]

theorem root_ne (hm : Mended t p h u v) : t.root ≠ h := by
  obtain ⟨-, habove, -⟩ := hm.wellLinked.mem_frame_iff.1 hm.mem_frame
  rintro rfl
  simp [hm.wellLinked.ancestors_root] at habove

/-- Nothing comes into the document. -/
theorem document (hm : Mended t p h u v) (hx : x ∈ v.walk v.root) :
    x ∈ t.walk t.root ∧ x ≠ h := by
  refine hm.linked.walk_induction (P := fun x => x ∈ t.walk t.root ∧ x ≠ h)
    (Linked.root_inUse hm.linked) ?_ (fun p _ c hc hp => (hm.orderly p hp).1 c hc) hx
  rw [hm.root_eq]
  exact ⟨hm.wellLinked.mem_walk_self (Linked.root_inUse hm.wellLinked), hm.root_ne⟩

/-- What is no text is kept by the first step. -/
theorem keeps (hm : Mended t p h u v) (hx : t.InUse x) (hxh : x ≠ h)
    (htext : (t.slotOf x).marker.text? = none) :
    u.InUse x ∧ (u.slotOf x).marker.text? = none := by
  have hxu := (hm.pulled.inUse_iff x).2 ⟨hx, hxh⟩
  exact ⟨hxu, by rw [hm.pulled.marker hxu, htext]⟩

/-- What is no text is left by the second one too, and so is all above it. -/
theorem left (hm : Mended t p h u v) (hx : x ∈ t.walk t.root)
    (htext : (t.slotOf x).marker.text? = none) (hxh : x ≠ h) :
    v.InUse x ∧ (v.slotOf x).marker = (t.slotOf x).marker ∧
      v.ancestors x = (t.ancestors x).filter (· ≠ h) := by
  have hl := hm.wellLinked
  have hxt := hl.mem_walk_root_inUse hx
  obtain ⟨gone, htrims⟩ := hm.trims
  obtain ⟨hxu, htextu⟩ := hm.keeps hxt hxh htext
  have hxv : v.InUse x := by
    refine htrims.inUse_iff.2 ⟨hxu, fun hmem => hxu.kept (hm.spares.free htextu ?_)⟩
    rw [htrims.free]
    exact List.mem_append_left _ hmem
  have hancestors := hm.pulled.ancestors_eq hl hm.parent hm.ne hxu
  refine ⟨hxv, ((hm.spares.slot x).node htextu).1.trans (hm.pulled.marker hxu), ?_⟩
  rw [← hancestors]
  refine Linked.ancestors_eq hm.linked hxv
    ((Linked.lineage_ancestors hm.pulled.wellLinked hxu).congr fun y hy => ?_)
  rcases List.mem_cons.1 hy with rfl | hy
  · exact ((hm.spares.slot y).node htextu).2.1
  · -- What is above a node is no text
    rw [hancestors, List.mem_filter] at hy
    obtain ⟨-, htexty⟩ := hm.keeps (Linked.ancestors_inUse hl hxt y hy.1) (by simpa using hy.2)
      (hm.leaves.above hl hx hy.1)
    exact ((hm.spares.slot y).node htexty).2.1

theorem left_frame (hm : Mended t p h u v) (hx : x ∈ t.frame) (hxh : x ≠ h) :
    v.InUse x ∧ (v.slotOf x).marker = (t.slotOf x).marker ∧
      v.ancestors x = (t.ancestors x).filter (· ≠ h) :=
  hm.left (mem_walk_of_mem_frame hx) (hm.wellLinked.mem_frame_iff.1 hx).2.2 hxh

theorem mem_frame_iff (hm : Mended t p h u v) : x ∈ v.frame ↔ x ∈ t.frame ∧ x ≠ h := by
  have hl := hm.wellLinked
  constructor
  · intro hx
    obtain ⟨hxv, hxabove, htext⟩ := hm.linked.mem_frame_iff.1 hx
    obtain ⟨hxwalk, hxh⟩ := hm.document (mem_walk_of_mem_frame hx)
    obtain ⟨gone, htrims⟩ := hm.trims
    have hxu := (htrims.inUse_iff.1 hxv).1
    have htextt : (t.slotOf x).marker.text? = none := by
      rw [← hm.pulled.marker hxu, ← Option.not_isSome_iff_eq_none]
      intro hsome
      simpa [htext] using (hm.spares.slot x).text hsome
    -- It is not the root, for that has nothing above it
    have hxroot : x ≠ t.root := by
      rintro rfl
      rw [← hm.root_eq, hm.linked.ancestors_root] at hxabove
      simp at hxabove
    have hwalk := ((hl.mem_walk_iff (Linked.root_inUse hl)).1 hxwalk).2
    rw [isAncestorOrSelf_iff, List.mem_cons] at hwalk
    exact ⟨hl.mem_frame_iff.2
      ⟨hl.mem_walk_root_inUse hxwalk, hwalk.resolve_left hxroot.symm, htextt⟩, hxh⟩
  · rintro ⟨hx, hxh⟩
    obtain ⟨hxv, hmarker, hancestors⟩ := hm.left_frame hx hxh
    obtain ⟨-, hxabove, htext⟩ := hl.mem_frame_iff.1 hx
    refine hm.linked.mem_frame_iff.2 ⟨hxv, ?_, by rw [hmarker, htext]⟩
    rw [hancestors, hm.root_eq]
    exact List.mem_filter.2 ⟨hxabove, by simpa using hm.root_ne⟩

theorem spliced (hm : Mended t p h u v) : Spliced t h v where
  wellLinked := hm.linked
  identity := hm.spares.identity.trans hm.pulled.trims.identity
  capacity := by
    obtain ⟨gone, htrims⟩ := hm.trims
    exact htrims.size.trans hm.pulled.trims.size
  leaves := fun x hx => (hm.orderly x (hm.document hx)).2
  root_marker := by
    have hl := hm.wellLinked
    obtain ⟨-, habove, -⟩ := hl.mem_frame_iff.1 hm.mem_frame
    exact (hm.left (hl.mem_walk_self (Linked.root_inUse hl))
      (hm.leaves.above hl (mem_walk_of_mem_frame hm.mem_frame) habove) hm.root_ne).2.1
  mem_frame_iff := fun _ => hm.mem_frame_iff
  marker := fun hx =>
    (hm.left_frame (hm.mem_frame_iff.1 hx).1 (hm.mem_frame_iff.1 hx).2).2.1
  ancestors_eq := fun hx =>
    (hm.left_frame (hm.mem_frame_iff.1 hx).1 (hm.mem_frame_iff.1 hx).2).2.2

end Mended

/-- The node is taken out, and then its parent is normalized. -/
theorem WellLinked.exists_pulled (hl : t.WellLinked) (hp : t.InUse p)
    (hh : h ∈ (t.slotOf p).children) :
    ∃ u, Pulled t p h u ∧ (Tree.splice h).perform t = (Tree.normalize p 0).perform u := by
  obtain ⟨hhu, hup⟩ := Linked.child hl hp hh
  obtain ⟨as, bs, hsplit⟩ := List.append_of_mem hh
  obtain ⟨u, hpull, hu⟩ := pull ⟨hl, hp, hsplit, rfl⟩
  refine ⟨u, hu, ?_⟩
  -- Joining the texts comes last, so it is performed on what the first steps leave
  have hsteps : (Tree.splice h).perform t =
      ((do insertAll p as.length (t.slotOf h).children; detach h; release h : Edit Unit) >>= fun _ =>
        Tree.normalize p 0).perform t := by
    simp only [Tree.splice, Edit.perform_bind, Edit.perform_get, WellLinked.parent?_eq hhu, hup,
      hl.indexInParent?_of_split hp hsplit, WellLinked.children_eq hhu]
    rcases (insertAll p as.length (t.slotOf h).children).perform t with ⟨_ | _, w⟩
    · rfl
    rcases hdetach : (detach h).perform w with ⟨_ | _, w'⟩
    · simp [hdetach]
    rcases hrelease : (release h).perform w' with ⟨_ | _, w''⟩
    · simp [hdetach, hrelease]
    · simp [hdetach, hrelease]
  rw [hsteps, Edit.perform_bind, hpull]

/-- The children of a node of the frame are put in its place. -/
theorem WellLinked.splice (hl : t.WellLinked) (hleaves : t.TextLeaves) (hh : h ∈ t.frame) :
    ∃ u, (splice h).perform t = (.ok (), u) ∧ Spliced t h u := by
  obtain ⟨hhu, habove, -⟩ := hl.mem_frame_iff.1 hh
  have hlineage := Linked.lineage_ancestors hl hhu
  cases has : t.ancestors h with
  | nil => simp [has] at habove
  | cons p as =>
    rw [has] at hlineage habove
    obtain ⟨hup, -⟩ := hlineage
    obtain ⟨hpu, hmem⟩ := Linked.parent hl hhu hup
    have hpne : p ≠ h := by
      rintro rfl
      exact Linked.not_above_of_child hl hpu hmem (isAncestorOrSelf_self t p)
    have hpabove : p ∈ t.ancestors h := by simp [has]
    obtain ⟨u, hu, hsplice⟩ := hl.exists_pulled hpu hmem
    have hpu' := (hu.inUse_iff p).2 ⟨hpu, hpne⟩
    have hwalk := mem_walk_of_mem_frame hh
    obtain ⟨v, gone, hnormalize, hv, htrims⟩ := hu.wellLinked.normalize hpu' 0
    -- What the node was in is of the document, and no text
    have hpS : p ∈ t.walk t.root ∧ p ≠ h := ⟨(hl.mem_walk_root_parent hwalk hup).1, hpne⟩
    have hs := spares_normalizeFrom u.capacity 0 (hu.orderly hl hleaves hwalk hup) hpS
      (by rw [hu.marker hpu', hleaves.above hl hwalk hpabove])
    have hnormal : (normalizeFrom u.capacity p 0).perform u = (.ok (), v) := by
      simpa [Tree.normalize] using hnormalize
    rw [hnormal] at hs
    exact ⟨v, hsplice.trans hnormalize,
      Mended.spliced ⟨hl, hleaves, hh, hup, hpne, hu, hv, ⟨gone, htrims⟩, hs⟩⟩

end Tree

end TabStop
