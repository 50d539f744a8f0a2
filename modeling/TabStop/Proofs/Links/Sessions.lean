import TabStop.Proofs.Links.Evolution

/-!
# Sessions

A session begins with the tree of a source and goes on with operations in any order, which succeed
or fail. The handles that an operation is given are such as have been got before; their nodes may
have been released since. A session remembers which handles have been got, and which of them have
lost their nodes.

As long as no slot can have gone through all its generations, the links of the tree stay sound, and
no handle gets another node than its own.
-/

namespace TabStop

open TabStop.Tree

/-! ## Operations -/

/-- What can be done to the nodes of a tree. -/
inductive Operation where
  | alloc (m : Marker)
  | release (h : Handle)
  | detach (h : Handle)
  | insertChild (parent : Handle) (i : Nat) (child : Handle)
  | appendChild (parent child : Handle)
  | setOnlyChild (parent child : Handle)
  | replaceWith (old new : Handle)
  | insertBefore (h : Handle) (s : String)
  | normalize (h : Handle) (start : Nat)
  | duplicate (h : Handle)
  /-- A copy of a node of another tree. -/
  | copyOf (other : Tree) (h : Handle)
  | setMarker (h : Handle) (m : Marker)

namespace Operation

/-- The edit that an operation is, with the handle that it gives back. -/
def edit : Operation → Edit (Option Handle)
  | alloc m => some <$> Tree.new m
  | release h => (fun _ => none) <$> Tree.release h
  | detach h => (fun _ => none) <$> Tree.detach h
  | insertChild parent i child => (fun _ => none) <$> Tree.insertChild parent i child
  | appendChild parent child => (fun _ => none) <$> Tree.appendChild parent child
  | setOnlyChild parent child => (fun _ => none) <$> Tree.setOnlyChild parent child
  | replaceWith old new => (fun _ => none) <$> Tree.replaceWith old new
  | insertBefore h s => (fun _ => none) <$> Tree.insertBefore h s
  | normalize h start => (fun _ => none) <$> Tree.normalize h start
  | duplicate h => some <$> Tree.duplicate h
  | copyOf other h => some <$> Tree.copyOf other h
  | setMarker h m => (fun _ => none) <$> (modify (·.setMarker h m) : Edit Unit)

/-- The handles of the tree that an operation is given. -/
def arguments : Operation → List Handle
  | alloc _ => []
  | release h => [h]
  | detach h => [h]
  | insertChild parent _ child => [parent, child]
  | appendChild parent child => [parent, child]
  | setOnlyChild parent child => [parent, child]
  | replaceWith old new => [old, new]
  | insertBefore h _ => [h]
  | normalize h _ => [h]
  | duplicate h => [h]
  | copyOf _ _ => []
  | setMarker h _ => [h]

private theorem after_map {α β : Type} (f : α → β) (e : Edit α) (t : Tree) :
    (f <$> e).after t = e.after t := by
  simp only [Edit.after, Edit.perform_map]
  rcases e.perform t with ⟨_ | _, u⟩ <;> rfl

/-- One operation keeps the links sound. -/
theorem evolves (op : Operation) {t : Tree} (hl : t.WellLinked)
    (hargs : ∀ h ∈ op.arguments, t.Reliable h) : Evolves t (op.edit.after t) := by
  -- Each operation by the lemma for its edit, for the arguments that it names
  cases op with
  | alloc m =>
    have ha := Linked.allocated hl m
    rw [edit, after_map]
    exact ⟨ha.wellLinked hl, Or.inl ha.extended⟩
  | release h =>
    rw [edit, after_map]
    exact hl.evolves_release (hargs h (by simp [arguments]))
  | detach h =>
    rw [edit, after_map]
    exact hl.evolves_detach (hargs h (by simp [arguments]))
  | insertChild p i c =>
    rw [edit, after_map]
    exact hl.evolves_insertChild (hargs p (by simp [arguments])) (hargs c (by simp [arguments])) i
  | appendChild p c =>
    rw [edit, after_map]
    exact hl.evolves_appendChild (hargs p (by simp [arguments])) (hargs c (by simp [arguments]))
  | setOnlyChild p c =>
    rw [edit, after_map]
    exact hl.evolves_replaceChildren (hargs p (by simp [arguments]))
      (fun x hx => hargs x (by simp [arguments, List.mem_singleton.1 hx])) (by simp)
  | replaceWith old new =>
    rw [edit, after_map]
    exact hl.evolves_replaceWith (hargs old (by simp [arguments]))
      (hargs new (by simp [arguments]))
  | insertBefore h s =>
    rw [edit, after_map]
    exact hl.evolves_insertBefore (hargs h (by simp [arguments])) s
  | normalize h start =>
    rw [edit, after_map]
    exact hl.evolves_normalize (hargs h (by simp [arguments])) start
  | duplicate h =>
    have hafter : (Tree.duplicate h).after t = (copyFrom id t.capacity h).after t := by
      simp [Edit.after, Tree.duplicate]
    rw [edit, after_map, hafter]
    exact hl.evolves_copyFrom id t.capacity h
  | copyOf other h =>
    rw [edit, after_map]
    exact hl.evolves_copyFrom (fun _ => other) other.capacity h
  | setMarker h m =>
    rw [edit, after_map]
    exact (sameLinks_setMarker t h m).evolves hl

/-- A handle that an operation gives back is the handle of a node in use. -/
theorem inUse_of_perform (op : Operation) {t : Tree} (hl : t.WellLinked) {h : Handle}
    (hperform : (op.edit.perform t).1 = .ok (some h)) : (op.edit.after t).InUse h := by
  -- Most operations give nothing back
  have hnone {α : Type} (e : Edit α) (heq : op.edit = (fun _ => none) <$> e) :
      (op.edit.after t).InUse h := by
    rw [heq, Edit.perform_map] at hperform
    rcases hr : e.perform t with ⟨_ | _, u⟩ <;> simp [hr] at hperform
  -- A copy that has been made is in use
  have hcopy (source : Tree → Tree) (fuel : Nat) (g : Handle)
      (heq : op.edit.perform t = (some <$> copyFrom source fuel g : Edit _).perform t) :
      (op.edit.after t).InUse h := by
    have hcopied := (copyFrom_copied source fuel g hl).copy
    rw [heq, Edit.perform_map] at hperform
    rw [Edit.after, heq, Edit.perform_map]
    rcases hr : (copyFrom source fuel g).perform t with ⟨_ | c, u⟩
    · simp [hr] at hperform
    · rw [hr] at hcopied
      obtain rfl : c = h := by simpa [hr] using hperform
      exact (hcopied c rfl).1
  cases op with
  | alloc m =>
    have ha := Linked.allocated hl m
    obtain rfl : (t.alloc m).1 = h := by simpa [edit, Tree.new] using hperform
    exact (ha.inUse_iff _).2 (Or.inl rfl)
  | duplicate g => exact hcopy id t.capacity g (by simp [edit, Tree.duplicate])
  | copyOf other g => exact hcopy (fun _ => other) other.capacity g rfl
  | release | detach | insertChild | appendChild | setOnlyChild | replaceWith | insertBefore
  | normalize | setMarker => exact hnone _ rfl

end Operation

/-! ## Sessions -/

/-- A tree that is worked on: the handles that have been got so far, by an operation or as the
handle of a node that was there, those of them whose nodes have been released, and how many of the
operations have released nodes. -/
structure Session where
  tree : Tree
  known : Handle → Prop
  released : Handle → Prop
  releases : Nat

namespace Session

/-- A session that has just begun. -/
def start (identity : Nat) (d : Dialect) (source : String) : Session where
  tree := ofSource identity d source
  known := (ofSource identity d source).InUse
  released := fun _ => False
  releases := 0

/-- Goes on with an operation, whether it fails or not. -/
def step (s : Session) (op : Operation) : Session :=
  let u := op.edit.after s.tree
  { tree := u
    known := fun h => s.known h ∨ u.InUse h ∨ (op.edit.perform s.tree).1 = .ok (some h)
    released := fun h => s.released h ∨ (s.tree.InUse h ∧ ¬ u.InUse h)
    releases := if s.tree.free.length < u.free.length then s.releases + 1 else s.releases }

/-- Releases are only counted up. -/
theorem releases_le_step (s : Session) (op : Operation) : s.releases ≤ (s.step op).releases := by
  show s.releases ≤ if s.tree.free.length < (op.edit.after s.tree).free.length
    then s.releases + 1 else s.releases
  split <;> omega

theorem known_step {s : Session} {h : Handle} (hk : s.known h) (op : Operation) :
    (s.step op).known h := Or.inl hk

/-- The sessions that there are: all operations have been given handles that were known. -/
inductive Reached : Session → Prop
  | start (identity : Nat) (d : Dialect) (source : String) : Reached (start identity d source)
  | step {s : Session} (op : Operation) :
    Reached s → (∀ h ∈ op.arguments, s.known h) → Reached (s.step op)

/-! ## What an operation preserves -/

/-- The generation of the slot that a handle points to. -/
def generation (s : Session) (h : Handle) : Nat := (s.tree.slotOf h).generation.toNat

/-- The invariant: besides sound links, no slot has had more generations than there were releases,
and a known handle is of the generation that its slot is in, or of an earlier one; of an earlier one
if its node has been released. -/
structure Sound (s : Session) : Prop where
  wellLinked : s.tree.WellLinked
  generation_le : ∀ h, s.generation h ≤ s.releases
  known : ∀ h, s.tree.InUse h → s.known h
  known_tree : ∀ h, s.known h → h.tree = s.tree.identity ∧ h.slot < s.tree.slots.size
  known_le : ∀ h, s.known h → h.generation.toNat ≤ s.generation h
  inUse : ∀ h, s.known h → ¬ s.released h → s.tree.InUse h
  released : ∀ h, s.released h → s.known h ∧ h.generation.toNat < s.generation h

namespace Sound

variable {s : Session} {h : Handle}

theorem of_inUse {t : Tree} (hh : t.InUse h) :
    h.tree = t.identity ∧ h.slot < t.slots.size ∧
      h.generation.toNat = (t.slotOf h).generation.toNat := by
  obtain ⟨htree, hlt, hgen⟩ := owns_iff.1 hh.owned
  exact ⟨htree, hlt, by rw [hgen]⟩

/-- A handle whose node has been released is foreign to the tree. -/
theorem not_owns (hs : s.Sound) (hr : s.released h) : s.tree.owns h = false := by
  have hlt := (hs.released h hr).2
  cases ho : s.tree.owns h with
  | false => rfl
  | true =>
    rw [generation, (owns_iff.1 ho).2.2] at hlt
    omega

theorem reliable (hs : s.Sound) (hk : s.known h) : s.tree.Reliable h := by
  intro ho
  apply hs.inUse h hk
  intro hr
  rw [hs.not_owns hr] at ho
  simp at ho

theorem start (identity : Nat) (d : Dialect) (source : String) :
    (Session.start identity d source).Sound := by
  obtain ⟨hwell, hgen⟩ := grown_ofSource identity d source
  exact {
    wellLinked := hwell
    generation_le := fun h => by
      show ((ofSource identity d source).slotOf h).generation.toNat ≤ 0
      rw [hgen h]
      exact Nat.le_refl 0
    known := fun h hk => hk
    known_tree := fun h hk => ⟨(of_inUse hk).1, (of_inUse hk).2.1⟩
    known_le := fun h hk => Nat.le_of_eq (of_inUse hk).2.2
    inUse := fun h hk _ => hk
    released := fun h hr => hr.elim }

/-- How an operation changes a slot: it keeps its generation and its node, or it is given back. Then
its generation goes up by one, and the operation counts as a release. -/
theorem step_slot (hs : s.Sound) (op : Operation) (hargs : ∀ h ∈ op.arguments, s.known h)
    (hn : (s.step op).releases < 2 ^ 32) (h : Handle) :
    ((s.step op).generation h = s.generation h ∧
        (s.tree.InUse h → (s.step op).tree.InUse h)) ∨
      ((s.step op).generation h = s.generation h + 1 ∧
        (s.step op).releases = s.releases + 1) := by
  obtain ⟨-, hslots⟩ := op.evolves hs.wellLinked fun h hh => hs.reliable (hargs h hh)
  rcases hslots with he | ⟨gone, ht⟩
  · exact Or.inl ⟨congrArg UInt32.toNat (he.generation h), he.inUse⟩
  · have hstep := ht.generation h
    by_cases hgone : h.slot ∈ gone
    · right
      -- There are more free slots than before, which counts as a release
      have hreleases : (s.step op).releases = s.releases + 1 := by
        apply if_pos
        rw [ht.free, List.length_append]
        have := List.length_pos_of_mem hgone
        omega
      refine ⟨?_, hreleases⟩
      -- The slot has not had all generations yet, so there is a next one
      have hle := hs.generation_le h
      rw [if_pos hgone] at hstep
      show ((op.edit.after s.tree).slotOf h).generation.toNat = _
      rw [hstep, UInt32.toNat_add, UInt32.toNat_one]
      rw [generation] at hle ⊢
      omega
    · left
      rw [if_neg hgone] at hstep
      exact ⟨congrArg UInt32.toNat hstep, fun hh => ht.inUse_iff.2 ⟨hh, hgone⟩⟩

theorem step (hs : s.Sound) (op : Operation) (hargs : ∀ h ∈ op.arguments, s.known h)
    (hn : (s.step op).releases < 2 ^ 32) : (s.step op).Sound := by
  have hslot := hs.step_slot op hargs hn
  have hevolves := op.evolves hs.wellLinked fun h hh => hs.reliable (hargs h hh)
  have hle (h : Handle) : s.generation h ≤ (s.step op).generation h := by
    rcases hslot h with ⟨heq, -⟩ | ⟨heq, -⟩ <;> omega
  have hmono := s.releases_le_step op
  have hgrown : (s.step op).tree.identity = s.tree.identity ∧
      s.tree.slots.size ≤ (s.step op).tree.slots.size := by
    rcases hevolves.slots with he | ⟨gone, ht⟩
    · exact ⟨he.identity, he.size_le⟩
    · exact ⟨ht.identity, Nat.le_of_eq ht.size.symm⟩
  -- A handle has been known before, or its node is in use now
  have hknown {h : Handle} (hk : (s.step op).known h) :
      s.known h ∨ (s.step op).tree.InUse h := by
    rcases hk with hk | hk | hk
    · exact Or.inl hk
    · exact Or.inr hk
    · exact Or.inr (op.inUse_of_perform hs.wellLinked hk)
  refine ⟨hevolves.wellLinked, fun h => ?_, fun h hin => Or.inr (Or.inl hin), fun h hk => ?_,
    fun h hk => ?_, fun h hk hnot => ?_, fun h hr => ?_⟩
  · have := hs.generation_le h
    rcases hslot h with ⟨heq, -⟩ | ⟨heq, hreleases⟩ <;> omega
  · rcases hknown hk with hk | hin
    · obtain ⟨htree, hlt⟩ := hs.known_tree h hk
      exact ⟨htree.trans hgrown.1.symm, Nat.lt_of_lt_of_le hlt hgrown.2⟩
    · exact ⟨(of_inUse hin).1, (of_inUse hin).2.1⟩
  · rcases hknown hk with hk | hin
    · exact Nat.le_trans (hs.known_le h hk) (hle h)
    · exact Nat.le_of_eq (of_inUse hin).2.2
  · rcases hknown hk with hk | hin
    · have hin := hs.inUse h hk fun hr => hnot (Or.inl hr)
      exact Classical.byContradiction fun hout => hnot (Or.inr ⟨hin, hout⟩)
    · exact hin
  · rcases hr with hr | ⟨hin, hout⟩
    · obtain ⟨hk, hlt⟩ := hs.released h hr
      exact ⟨known_step hk op, Nat.lt_of_lt_of_le hlt (hle h)⟩
    · refine ⟨known_step (hs.known h hin) op, ?_⟩
      -- A node goes only as its slot is given back, which sets the handle back by one
      have heq : h.generation.toNat = s.generation h := (of_inUse hin).2.2
      rcases hslot h with ⟨-, hstays⟩ | ⟨hgen, -⟩
      · exact absurd (hstays hin) hout
      · omega

end Sound

/-- A session is sound as long as no slot can have gone through all its generations. -/
theorem Reached.sound {s : Session} (hs : s.Reached) (hn : s.releases < 2 ^ 32) : s.Sound := by
  induction hs with
  | start identity d source => exact .start identity d source
  | @step s op _ hargs ih =>
    -- The bound held all along
    have hbefore := ih (Nat.lt_of_le_of_lt (s.releases_le_step op) hn)
    exact hbefore.step op hargs hn

/-! ## Who owns whom in a session -/

/-- What can be seen of a tree whose links are sound: a node is a child once, of the parent that it
names, and of no other; going up comes to an end; what is free is not linked, and not named by a
handle whose node has not been released; and a handle whose node has been released names nothing any
more. So the searches in the tree are what they would be without a bound, and a walk lists each node
below its start once. -/
structure Owned (s : Session) : Prop where
  child_once : ∀ c p, s.tree.InUse c → s.tree.parent? c = some p →
    s.tree.InUse p ∧ (s.tree.children p).count c = 1
  parent_of_child : ∀ c p, c ∈ s.tree.children p → s.tree.InUse c ∧ s.tree.parent? c = some p
  acyclic : ∀ h, ¬ Relation.TransGen (fun c p => s.tree.parent? c = some p) h h
  root_inUse : s.tree.InUse s.tree.root
  root_parent : s.tree.parent? s.tree.root = none
  free_nodup : s.tree.free.Nodup
  free_unlinked : ∀ slot ∈ s.tree.slots,
    (∀ p ∈ slot.parent, p.slot ∉ s.tree.free) ∧ ∀ c ∈ slot.children, c.slot ∉ s.tree.free
  free_unnamed : ∀ h, s.known h → ¬ s.released h → s.tree.owns h ∧ h.slot ∉ s.tree.free
  released_foreign : ∀ h, s.released h → s.tree.owns h = false
  ancestors_eq : ∀ h, s.tree.ancestors h =
    match s.tree.parent? h with
    | some p => p :: s.tree.ancestors p
    | none => []
  walk_eq : ∀ h, s.tree.InUse h → s.tree.walk h = h :: (s.tree.children h).flatMap s.tree.walk
  walk_nodup : ∀ h, (s.tree.walk h).Nodup
  mem_walk : ∀ h x, s.tree.InUse h →
    (x ∈ s.tree.walk h ↔ s.tree.InUse x ∧ s.tree.isAncestorOrSelf h x)

/-- In every session, whatever has been done in it, nodes have one owner at most. -/
theorem Reached.ownership {s : Session} (hs : s.Reached) (hn : s.releases < 2 ^ 32) : s.Owned := by
  have hsound := hs.sound hn
  have hl := hsound.wellLinked
  exact {
    child_once := fun c p hc hp => by
      obtain ⟨hinUse, hmem⟩ := hl.parent?_eq_some_iff.1 hp
      -- A list of children has no node twice
      have hnodup := hl.nodup hinUse
      rw [WellLinked.children_eq hinUse] at hmem ⊢
      exact ⟨hinUse, by rw [hnodup.count, if_pos hmem]⟩
    parent_of_child := fun c p hc => by
      have hp := hl.parent?_eq_some_iff.2 ⟨hl.inUse_of_child hc, hc⟩
      exact ⟨hl.inUse_of_parent hp, hp⟩
    acyclic := hl.acyclic
    root_inUse := hl.root_inUse
    root_parent := by
      rw [WellLinked.parent?_eq hl.root_inUse]
      exact hl.root_parent
    free_nodup := hl.free_nodup
    free_unlinked := fun _ hslot => hl.free_unlinked hslot
    free_unnamed := fun h hk hr => by
      have hinUse := hsound.inUse h hk hr
      exact ⟨hinUse.owned, hinUse.kept⟩
    released_foreign := fun h hr => hsound.not_owns hr
    ancestors_eq := hl.ancestors_cons
    walk_eq := fun h hh => by
      rw [WellLinked.children_eq hh]
      exact hl.walk_eq hh
    walk_nodup := hl.walk_nodup
    mem_walk := fun h x hh => hl.mem_walk_iff hh }

/-- A tab stop is detached and released, its slot is taken again, and then its handle is used. -/
def afterReuse : Session :=
  ((((start 0 .textMate "a$\x7b1:b\x7d").step (.detach ⟨0, 2, 0⟩)).step
    (.release ⟨0, 2, 0⟩)).step (.alloc (.text "c"))).step (.insertChild ⟨0, 0, 0⟩ 0 ⟨0, 2, 0⟩)

theorem ownership_afterReuse :
    afterReuse.Reached ∧ afterReuse.releases < 2 ^ 32 ∧ afterReuse.Owned := by
  -- No slot is free at the beginning, so what is owned is in use
  have hstart {h : Handle} (ho : (ofSource 0 .textMate "a$\x7b1:b\x7d").owns h)
      (hfree : (ofSource 0 .textMate "a$\x7b1:b\x7d").free = []) :
      (start 0 .textMate "a$\x7b1:b\x7d").known h := ⟨ho, by simp [hfree]⟩
  have hfree : (ofSource 0 .textMate "a$\x7b1:b\x7d").free = [] := by cbv
  have hroot := hstart (h := ⟨0, 0, 0⟩) (by cbv) hfree
  have hnode := hstart (h := ⟨0, 2, 0⟩) (by cbv) hfree
  have hs : afterReuse.Reached := by
    refine .step _ (.step _ (.step _ (.step _ (.start ..) ?_) ?_) ?_) ?_
    · simpa [Operation.arguments] using hnode
    · simpa [Operation.arguments] using known_step hnode _
    · simp [Operation.arguments]
    · simpa [Operation.arguments] using
        ⟨known_step (known_step (known_step hroot _) _) _,
          known_step (known_step (known_step hnode _) _) _⟩
  have hn : afterReuse.releases < 2 ^ 32 := by
    have : afterReuse.releases = 1 := by cbv
    rw [this]
    decide
  exact ⟨hs, hn, hs.ownership hn⟩

end Session

end TabStop
