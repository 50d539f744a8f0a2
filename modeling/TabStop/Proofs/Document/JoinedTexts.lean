import TabStop.Proofs.Links.Normalizing

/-!
# How texts are joined

What normalizing makes of each node below a node is said here slot by slot, in terms of the tree as it
was before: a text that goes is cleared, a text that stays takes over the texts up to the next node of
another kind, and a node of another kind gets a new list of children and is otherwise left alone. All
that is read while the work goes on is still as it was when it is read, but for the text that stays,
which has been added to.
-/

namespace TabStop

namespace Slot

/-- A slot with more text, if it holds text. -/
def withText (r : Slot) (s : String) : Slot :=
  match r.marker with
  | .text old => { r with marker := .text (old ++ s) }
  | _ => r

@[simp] theorem withText_empty (r : Slot) : r.withText "" = r := by
  unfold withText
  split
  next old hold => rw [String.append_empty, ← hold]
  next => rfl

theorem withText_withText (r : Slot) (s s' : String) :
    (r.withText s).withText s' = r.withText (s ++ s') := by
  unfold withText
  cases hm : r.marker <;> simp [hm, String.append_assoc]

theorem withText_of_text {r : Slot} {old : String} (h : r.marker.text? = some old) (s : String) :
    r.withText s = { r with marker := .text (old ++ s) } := by
  unfold withText
  cases hm : r.marker <;> simp_all [Marker.text?]

theorem isSome_text?_withText (r : Slot) (s : String) :
    (r.withText s).marker.text?.isSome = r.marker.text?.isSome := by
  unfold withText
  cases hm : r.marker <;> simp [hm, Marker.text?]

end Slot

namespace Tree

variable {t u v w : Tree} {a b c h l x y : Handle} {as cs ds hs ks kept : List Handle} {o : Bool}
variable {s : String}

/-! ## What is touched -/

/-- Nothing is changed but the slots of given nodes. -/
structure ChangesOnly (t : Tree) (hs : List Handle) (u : Tree) : Prop where
  identity : u.identity = t.identity
  size : u.slots.size = t.slots.size
  slot : ∀ x, x.slot ∉ hs.map Handle.slot → u.slotOf x = t.slotOf x

namespace ChangesOnly

theorem refl (t : Tree) (hs : List Handle) : ChangesOnly t hs t := ⟨rfl, rfl, fun _ _ => rfl⟩

theorem mono (h : ChangesOnly t hs u) (hsub : hs ⊆ ks) : ChangesOnly t ks u :=
  ⟨h.identity, h.size, fun x hx => h.slot x fun hmem => hx (List.map_subset _ hsub hmem)⟩

theorem trans (h : ChangesOnly t hs u) (h' : ChangesOnly u ks v) :
    ChangesOnly t (hs ++ ks) v := by
  refine ⟨h'.identity.trans h.identity, h'.size.trans h.size, fun x hx => ?_⟩
  rw [List.map_append, List.mem_append, not_or] at hx
  rw [h'.slot x hx.2, h.slot x hx.1]

/-- A node in another slot is left alone. -/
theorem slot_of_ne (h : ChangesOnly t hs u) (hne : ∀ y ∈ hs, x.slot ≠ y.slot) :
    u.slotOf x = t.slotOf x := by
  apply h.slot
  intro hmem
  obtain ⟨y, hy, heq⟩ := List.mem_map.1 hmem
  exact hne y hy heq.symm

end ChangesOnly

theorem changesOnly_modifySlot (t : Tree) (c : Handle) (f : Slot → Slot) :
    ChangesOnly t [c] (t.modifySlot c f) := by
  refine ⟨rfl, modifySlot_size t c f, fun x hx => ?_⟩
  by_cases hlt : c.slot < t.slots.size
  · rw [slotOf_modifySlot hlt, if_neg (by simpa using hx)]
  · rw [modifySlot_of_not_lt hlt]

/-- Given nodes are as they were in another tree. -/
structure Untouched (t : Tree) (hs : List Handle) (w : Tree) : Prop where
  identity : w.identity = t.identity
  size : w.slots.size = t.slots.size
  slot : ∀ x ∈ hs, w.slotOf x = t.slotOf x

namespace Untouched

theorem mono (h : Untouched t hs w) (hsub : ks ⊆ hs) : Untouched t ks w :=
  ⟨h.identity, h.size, fun x hx => h.slot x (hsub hx)⟩

theorem owned (h : Untouched t hs w) (hx : x ∈ hs) (ho : t.owns x) : w.owns x := by
  rw [owns_iff, h.identity, h.size, h.slot x hx]
  exact owns_iff.1 ho

/-- A change elsewhere leaves them alone. -/
theorem after (h : Untouched t hs w) (hc : ChangesOnly w ks u)
    (hne : ∀ x ∈ hs, ∀ y ∈ ks, x.slot ≠ y.slot) : Untouched t hs u := by
  refine ⟨hc.identity.trans h.identity, hc.size.trans h.size, fun x hx => ?_⟩
  rw [hc.slot_of_ne (hne x hx), h.slot x hx]

end Untouched

/-! ## Single steps -/

theorem slotOf_appendText (hl : l.slot < t.slots.size) (s : String) :
    (t.appendText l s).slotOf l = (t.slotOf l).withText s := by
  rw [appendText, slotOf_modifySlot hl, if_pos rfl]
  rfl

/-- A child without children is dropped: its slot is cleared, and nothing else is changed. -/
theorem dropChild_perform (ho : w.owns c) (hroot : c ≠ w.root)
    (hnil : (w.slotOf c).children = []) :
    ∃ u, (dropChild c).perform w = (.ok (), u) ∧ ChangesOnly w [c] u ∧
      u.slotOf c = Slot.cleared (w.slotOf c) := by
  have hlt : c.slot < w.slots.size := (owns_iff.1 ho).2.1
  have hs := sameSlots_setParent w c none
  have ho' : (w.setParent c none).owns c := by
    rw [owns_iff, hs.identity, hs.size, hs.generation]
    exact owns_iff.1 ho
  have hnone : ((w.setParent c none).slotOf c).parent = none := by
    rw [setParent, slotOf_modifySlot hlt, if_pos rfl]
  -- Without children only the node itself is released
  have hwalk : (w.setParent c none).walk c = [c] := by
    have hpos : (w.setParent c none).capacity ≠ 0 := by
      have hlt' := (owns_iff.1 ho').2.1
      exact Nat.ne_of_gt (Nat.lt_of_le_of_lt (Nat.zero_le _) hlt')
    obtain ⟨fuel, hfuel⟩ := Nat.exists_eq_succ_of_ne_zero hpos
    rw [walk, if_pos ho', hfuel, Nat.succ_eq_add_one, walkFrom, children_setParent, hnil]
    rfl
  refine ⟨(w.setParent c none).freeSlot c, ?_, ?_, ?_⟩
  · simp [dropChild, release_perform ho' (hs.root_eq ▸ hroot) hnone, hwalk]
  · have hfirst : ChangesOnly w [c] (w.setParent c none) := changesOnly_modifySlot w c _
    have hsecond := changesOnly_modifySlot (w.setParent c none) c Slot.cleared
    have hboth := hfirst.trans hsecond
    exact ChangesOnly.mono ⟨hboth.identity, hboth.size, hboth.slot⟩ (by simp)
  · rw [slotOf_freeSlot (by simpa [setParent] using hlt), if_pos rfl, setParent,
      slotOf_modifySlot hlt, if_pos rfl]
    rfl

/-! ## What is to be done -/

/-- The text that a list of nodes begins with, up to the first node of another kind. -/
def leadText (t : Tree) : List Handle → String
  | [] => ""
  | c :: cs =>
    match (t.slotOf c).marker.text? with
    | some s => s ++ leadText t cs
    | none => ""

/-- The nodes `cs` of `t`, which follow each other, have become `ks` in `u`, and all below them has been
brought into order. If `o` then a text is before them that has taken over the text they begin with. -/
inductive Joined (t u : Tree) : Bool → List Handle → List Handle → Prop
  | nil (o : Bool) : Joined t u o [] []
  | node {o : Bool} {c : Handle} {cs ds ks : List Handle}
      (htext : (t.slotOf c).marker.text? = none)
      (hslot : u.slotOf c = { t.slotOf c with children := ds })
      (hbelow : Joined t u false (t.slotOf c).children ds) (hrest : Joined t u false cs ks) :
      Joined t u o (c :: cs) (c :: ks)
  | dropped {o : Bool} {c : Handle} {s : String} {cs ks : List Handle}
      (htext : (t.slotOf c).marker.text? = some s) (hs : s = "" ∨ o)
      (hslot : u.slotOf c = Slot.cleared (t.slotOf c)) (hrest : Joined t u o cs ks) :
      Joined t u o (c :: cs) ks
  | kept {c : Handle} {s : String} {cs ks : List Handle}
      (htext : (t.slotOf c).marker.text? = some s) (hs : s ≠ "")
      (hslot : u.slotOf c = { t.slotOf c with marker := .text (s ++ t.leadText cs) })
      (hrest : Joined t u true cs ks) : Joined t u false (c :: cs) (c :: ks)

/-- Where nothing is changed in the nodes and below them they stay joined. -/
theorem Joined.congr (hl : t.WellLinked) (hj : Joined t u o cs ks) (hcs : ∀ c ∈ cs, t.InUse c)
    (hsame : ∀ x ∈ cs.flatMap t.walk, v.slotOf x = u.slotOf x) : Joined t v o cs ks := by
  -- By the rules of joining, with the nodes below and behind each child told apart
  induction hj with
  | nil o => exact .nil o
  | @node o c cs ds ks htext hslot hbelow hrest ihbelow ihrest =>
    obtain ⟨hc, hcs⟩ := List.forall_mem_cons.1 hcs
    rw [List.flatMap_cons, hl.walk_eq hc] at hsame
    simp only [List.mem_append, List.mem_cons] at hsame
    refine .node htext ?_ (ihbelow (fun d hd => (Linked.child hl hc hd).1) fun x hx => ?_)
      (ihrest hcs fun x hx => hsame x (Or.inr hx))
    · rw [hsame c (Or.inl (Or.inl rfl)), hslot]
    · exact hsame x (Or.inl (Or.inr hx))
  | @dropped o c s cs ks htext hs hslot hrest ih =>
    obtain ⟨hc, hcs⟩ := List.forall_mem_cons.1 hcs
    rw [List.flatMap_cons] at hsame
    refine .dropped htext hs ?_ (ih hcs fun x hx => hsame x (List.mem_append_right _ hx))
    rw [hsame c (List.mem_append_left _ (hl.mem_walk_self hc)), hslot]
  | @kept c s cs ks htext hs hslot hrest ih =>
    obtain ⟨hc, hcs⟩ := List.forall_mem_cons.1 hcs
    rw [List.flatMap_cons] at hsame
    refine .kept htext hs ?_ (ih hcs fun x hx => hsame x (List.mem_append_right _ hx))
    rw [hsame c (List.mem_append_left _ (hl.mem_walk_self hc)), hslot]

/-! ## Children of one node -/

/-- Different children of a node, in whatever order. -/
structure Siblings (t : Tree) (h : Handle) (hs : List Handle) : Prop where
  nodup : hs.Nodup
  subset : hs ⊆ (t.slotOf h).children

theorem WellLinked.siblings (hl : t.WellLinked) (hh : t.InUse h) :
    Siblings t h (t.slotOf h).children := ⟨Linked.nodup hl hh, fun _ => id⟩

namespace Siblings

theorem sublist (hk : Siblings t h hs) (hsub : ks.Sublist hs) : Siblings t h ks :=
  ⟨hk.nodup.sublist hsub, fun _ hx => hk.subset (hsub.subset hx)⟩

theorem move (hk : Siblings t h (kept ++ c :: cs)) : Siblings t h (kept ++ [c] ++ cs) := by
  rwa [List.append_assoc]

theorem skip (hk : Siblings t h (kept ++ c :: cs)) : Siblings t h (kept ++ cs) :=
  hk.sublist ((List.sublist_cons_self c cs).append_left kept)

section

variable (hl : t.WellLinked) (hh : t.InUse h)

include hl hh

theorem inUse (hk : Siblings t h hs) (hx : x ∈ hs) : t.InUse x :=
  (Linked.child hl hh (hk.subset hx)).1

/-- What is below some of them is in other slots than what is below others. -/
theorem slot_ne (hk : Siblings t h (as ++ cs)) (hx : x ∈ as.flatMap t.walk)
    (hy : y ∈ cs.flatMap t.walk) : x.slot ≠ y.slot := by
  obtain ⟨a, ha, hxa⟩ := List.mem_flatMap.1 hx
  obtain ⟨c, hc, hyc⟩ := List.mem_flatMap.1 hy
  have ha' := List.mem_append_left cs ha
  have hc' := List.mem_append_right as hc
  obtain ⟨hxu, hax⟩ := (hl.mem_walk_iff (hk.inUse hl hh ha')).1 hxa
  obtain ⟨hyu, hcy⟩ := (hl.mem_walk_iff (hk.inUse hl hh hc')).1 hyc
  intro heq
  -- One node would be below two children
  obtain rfl := hxu.eq_of_slot hyu heq
  apply (List.nodup_append.1 hk.nodup).2.2 a ha c hc
  exact Linked.child_unique hl hh (hk.subset ha') (hk.subset hc') hxu hax hcy

theorem ne_before (hk : Siblings t h (kept ++ c :: cs)) (ha : a ∈ kept)
    (hx : x ∈ t.walk c ++ cs.flatMap t.walk) : a.slot ≠ x.slot := by
  have hau := hk.inUse hl hh (List.mem_append_left _ ha)
  apply hk.slot_ne hl hh (List.mem_flatMap.2 ⟨a, ha, hl.mem_walk_self hau⟩)
  rwa [List.flatMap_cons]

theorem ne_behind (hk : Siblings t h (kept ++ c :: cs)) (hx : x ∈ t.walk c)
    (hy : y ∈ cs.flatMap t.walk) : x.slot ≠ y.slot :=
  hk.move.slot_ne hl hh (List.mem_flatMap.2 ⟨c, by simp, hx⟩) hy

end

end Siblings

/-! ## One child -/

/-- The text at the end of the children that stay which more text is added to. -/
def openText (t : Tree) (start : Nat) (kept : List Handle) : Option Handle :=
  (if start < kept.length then kept.getLast? else none).filter fun l =>
    (t.slotOf l).marker.text?.isSome

theorem mem_of_openText {start : Nat} (hopen : l ∈ openText t start kept) :
    l ∈ kept ∧ (t.slotOf l).marker.text?.isSome := by
  obtain ⟨hlast, htext⟩ := Option.filter_eq_some_iff.1 hopen
  split at hlast
  · exact ⟨List.mem_of_getLast? hlast, htext⟩
  · simp at hlast

theorem openText_concat {start : Nat} (hstart : start ≤ kept.length) (c : Handle) :
    openText t start (kept ++ [c]) =
      if (t.slotOf c).marker.text?.isSome then some c else none := by
  have hlt : start < (kept ++ [c]).length := by simp; omega
  rw [openText, if_pos hlt, List.getLast?_concat]
  rfl

theorem openText_congr {start : Nat}
    (hsame : ∀ k ∈ kept, (u.slotOf k).marker.text?.isSome = (t.slotOf k).marker.text?.isSome) :
    openText u start kept = openText t start kept := by
  unfold openText
  split
  · cases hlast : kept.getLast? with
    | none => rfl
    | some l => simp only [Option.filter, hsame l (List.mem_of_getLast? hlast)]
  · rfl

/-- Nothing is open before the first child that is looked at. -/
theorem openText_take (t : Tree) (start : Nat) (hs : List Handle) :
    openText t (min start hs.length) (hs.take start) = none := by
  rw [openText, if_neg (by rw [List.length_take]; omega)]
  rfl

/-- What it means that `inside` brings what is below the children of `h` into order. -/
def JoinsInside (t : Tree) (h : Handle) (inside : Handle → Edit Unit) : Prop :=
  ∀ c ∈ (t.slotOf h).children, (t.slotOf c).marker.text? = none →
    ∀ w, Untouched t (t.walk c) w → ∃ u ds, (inside c).perform w = (.ok (), u) ∧
      ChangesOnly w (t.walk c) u ∧ u.slotOf c = { t.slotOf c with children := ds } ∧
      Joined t u false (t.slotOf c).children ds

/-- What is done with a child `c` that comes after the children `kept`. -/
inductive Taken (t w : Tree) (start : Nat) (kept : List Handle) (c : Handle)
    (r : Except EditError (List Handle) × Tree) : Prop
  | node (u : Tree) (ds : List Handle) (htext : (t.slotOf c).marker.text? = none)
      (hr : r = (.ok (kept ++ [c]), u)) (hchanges : ChangesOnly w (t.walk c) u)
      (hslot : u.slotOf c = { t.slotOf c with children := ds })
      (hbelow : Joined t u false (t.slotOf c).children ds)
  | dropped (u : Tree) (s : String) (htext : (t.slotOf c).marker.text? = some s)
      (hs : s = "" ∨ (openText w start kept).isSome) (hr : r = (.ok kept, u))
      (hchanges : ChangesOnly w ((openText w start kept).toList ++ [c]) u)
      (hslot : u.slotOf c = Slot.cleared (t.slotOf c))
      (hopen : ∀ l ∈ openText w start kept, u.slotOf l = (w.slotOf l).withText s)
  | kept (s : String) (htext : (t.slotOf c).marker.text? = some s) (hs : s ≠ "")
      (hopen : openText w start kept = none) (hr : r = (.ok (kept ++ [c]), w))

/-- A child without children is dropped, whatever has been done elsewhere. -/
theorem Untouched.dropChild (hl : t.WellLinked) (hh : t.InUse h)
    (hc : c ∈ (t.slotOf h).children) (hnil : (t.slotOf c).children = [])
    (hw : Untouched t (t.walk c) w) :
    ∃ u, (dropChild c).perform w = (.ok (), u) ∧ ChangesOnly w [c] u ∧
      u.slotOf c = Slot.cleared (t.slotOf c) := by
  obtain ⟨hcu, hup⟩ := Linked.child hl hh hc
  have hself := hl.mem_walk_self hcu
  have hat := hw.slot c hself
  have hroot : c ≠ w.root := by
    have hwroot : w.root = t.root := by simp [root, hw.identity]
    rintro rfl
    rw [hwroot, Linked.root_parent hl] at hup
    simp at hup
  rw [← hat] at hnil ⊢
  exact dropChild_perform (hw.owned hself hcu.owned) hroot hnil

theorem normalizeChild_taken (hl : t.WellLinked) (hh : t.InUse h) {inside : Handle → Edit Unit}
    (hinside : JoinsInside t h inside)
    (hleaves : ∀ c ∈ (t.slotOf h).children, (t.slotOf c).marker.text?.isSome →
      (t.slotOf c).children = [])
    (start : Nat) (hk : Siblings t h (kept ++ c :: cs)) (hw : Untouched t (t.walk c) w) :
    Taken t w start kept c ((normalizeChild inside start kept c).perform w) := by
  have hc : c ∈ (t.slotOf h).children := hk.subset (by simp)
  have hself := hl.mem_walk_self (Linked.child hl hh hc).1
  have hat := hw.slot c hself
  cases htext : (t.slotOf c).marker.text? with
  | none =>
    obtain ⟨u, ds, hperform, hchanges, hslot, hbelow⟩ := hinside c hc htext w hw
    refine .node u ds htext ?_ hchanges hslot hbelow
    simp [normalizeChild, hat, htext, hperform]
  | some s =>
    have hnil := hleaves c hc (by rw [htext]; rfl)
    have hne {l x : Handle} (hlast : l ∈ openText w start kept) (hx : x ∈ t.walk c) :
        l.slot ≠ x.slot :=
      hk.ne_before hl hh (mem_of_openText hlast).1 (List.mem_append_left _ hx)
    by_cases hs : s = ""
    · obtain ⟨u, hperform, hchanges, hslot⟩ := hw.dropChild hl hh hc hnil
      refine .dropped u s htext (Or.inl hs) ?_ (hchanges.mono (by simp)) hslot fun l hlast => ?_
      · simp [normalizeChild, hat, htext, hs, hperform]
      · rw [hs, Slot.withText_empty, hchanges.slot l (by simpa using hne hlast hself)]
    · cases hopen : openText w start kept with
      | none =>
        refine .kept s htext hs hopen ?_
        unfold openText at hopen
        simp [normalizeChild, hat, htext, hs, hopen]
      | some l =>
        -- The text before it takes the text over, and then the child goes
        have happend : ChangesOnly w [l] (w.appendText l s) := changesOnly_modifySlot w l _
        have hw' : Untouched t (t.walk c) (w.appendText l s) := by
          refine hw.after happend fun x hx y hy => ?_
          obtain rfl := List.mem_singleton.1 hy
          exact Ne.symm (hne hopen hx)
        obtain ⟨u, hperform, hchanges, hslot⟩ := hw'.dropChild hl hh hc hnil
        refine .dropped u s htext (Or.inr (by rw [hopen]; rfl)) ?_ ?_ hslot fun l' hlast => ?_
        · unfold openText at hopen
          simp [normalizeChild, hat, htext, hs, hopen, hperform]
        · rw [hopen]
          exact happend.trans hchanges
        · obtain rfl : l = l' := by simpa [hopen] using hlast
          rw [hchanges.slot l (by simpa using hne hopen hself)]
          have hlu := hk.inUse hl hh (List.mem_append_left _ (mem_of_openText hopen).1)
          exact slotOf_appendText (by rw [hw.size]; exact hlu.slot_lt) s

/-! ## All children -/

/-- What is done with the children `cs` that come after the children `kept`: they become `ks`, and the
text that is open before them takes over the text that they begin with. -/
structure Gathered (t w : Tree) (start : Nat) (kept cs : List Handle) (u : Tree)
    (ks : List Handle) : Prop where
  changes : ChangesOnly w ((openText w start kept).toList ++ cs.flatMap t.walk) u
  joined : Joined t u (openText w start kept).isSome cs ks
  opened : ∀ l ∈ openText w start kept, u.slotOf l = (w.slotOf l).withText (t.leadText cs)

namespace Gathered

variable {start : Nat}

theorem nil (t w : Tree) (start : Nat) (kept : List Handle) : Gathered t w start kept [] w [] := by
  refine ⟨.refl w _, .nil _, fun l _ => ?_⟩
  rw [leadText, Slot.withText_empty]

section

variable (hl : t.WellLinked) (hh : t.InUse h) (hk : Siblings t h (kept ++ c :: cs))

include hl hh hk

/-- A node of another kind is kept, and no text is open behind it. -/
theorem node (hstart : start ≤ kept.length) (htext : (t.slotOf c).marker.text? = none)
    (hchanges : ChangesOnly w (t.walk c) u) (hslot : u.slotOf c = { t.slotOf c with children := ds })
    (hbelow : Joined t u false (t.slotOf c).children ds)
    (hg : Gathered t u start (kept ++ [c]) cs v ks) :
    Gathered t w start kept (c :: cs) v (c :: ks) := by
  have hcu := hk.inUse hl hh (List.mem_append_right _ (List.mem_cons_self ..))
  obtain ⟨hrest, hjoined, -⟩ := hg
  -- A node that is no text ends the run, so the next text is not joined to any before it
  have hnone : openText u start (kept ++ [c]) = none := by
    rw [openText_concat hstart, hslot]
    simp [htext]
  rw [hnone] at hrest hjoined
  have hboth : ChangesOnly w (t.walk c ++ cs.flatMap t.walk) v := hchanges.trans hrest
  have hstays {x : Handle} (hx : x ∈ t.walk c) : v.slotOf x = u.slotOf x :=
    hrest.slot_of_ne fun y hy => hk.ne_behind hl hh hx hy
  constructor
  case changes => exact hboth.mono (List.subset_append_right _ _)
  case joined =>
    refine .node htext (by rw [hstays (hl.mem_walk_self hcu), hslot]) (hbelow.congr hl ?_ ?_) hjoined
    · exact fun d hd => (Linked.child hl hcu hd).1
    · intro x hx
      apply hstays
      rw [hl.walk_eq hcu]
      exact List.mem_cons_of_mem _ hx
  case opened =>
    intro l hlast
    rw [leadText, htext, Slot.withText_empty]
    exact hboth.slot_of_ne fun y hy => hk.ne_before hl hh (mem_of_openText hlast).1 hy

/-- A text that goes leaves the open text where it is. -/
theorem openText_dropped (hchanges : ChangesOnly w ((openText w start kept).toList ++ [c]) u)
    (hopen : ∀ l ∈ openText w start kept, u.slotOf l = (w.slotOf l).withText s) :
    openText u start kept = openText w start kept := by
  have hcu := hk.inUse hl hh (List.mem_append_right _ (List.mem_cons_self ..))
  have hinUse {a : Handle} (ha : a ∈ kept) := hk.inUse hl hh (List.mem_append_left _ ha)
  refine openText_congr fun a ha => ?_
  by_cases hlast : a ∈ openText w start kept
  · rw [hopen a hlast, Slot.isSome_text?_withText]
  · rw [hchanges.slot_of_ne fun y hy => ?_]
    rcases List.mem_append.1 hy with hy | hy
    · have hy := Option.mem_toList.1 hy
      have hne : a ≠ y := fun heq => hlast (heq ▸ hy)
      exact (hinUse ha).slot_ne (hinUse (mem_of_openText hy).1) hne
    · obtain rfl := List.mem_singleton.1 hy
      exact hk.ne_before hl hh ha (List.mem_append_left _ (hl.mem_walk_self hcu))

/-- A text that goes is empty, or the open text has taken it over. -/
theorem dropped (htext : (t.slotOf c).marker.text? = some s)
    (hs : s = "" ∨ (openText w start kept).isSome)
    (hchanges : ChangesOnly w ((openText w start kept).toList ++ [c]) u)
    (hslot : u.slotOf c = Slot.cleared (t.slotOf c))
    (hopen : ∀ l ∈ openText w start kept, u.slotOf l = (w.slotOf l).withText s)
    (hg : Gathered t u start kept cs v ks) : Gathered t w start kept (c :: cs) v ks := by
  have hself := hl.mem_walk_self (hk.inUse hl hh (List.mem_append_right _ (List.mem_cons_self ..)))
  obtain ⟨hrest, hjoined, hopen'⟩ := hg
  -- The text is gone, but the one before it stays open for the next
  rw [openText_dropped hl hh hk hchanges hopen] at hrest hjoined hopen'
  constructor
  case changes =>
    refine (hchanges.trans hrest).mono fun x hx => ?_
    rw [List.flatMap_cons]
    simp only [List.mem_append, List.mem_singleton] at hx ⊢
    rcases hx with (hx | rfl) | hx | hx
    · exact Or.inl hx
    · exact Or.inr (Or.inl hself)
    · exact Or.inl hx
    · exact Or.inr (Or.inr hx)
  case joined =>
    refine .dropped htext hs ?_ hjoined
    rw [hrest.slot_of_ne fun y hy => ?_, hslot]
    rcases List.mem_append.1 hy with hy | hy
    · have hmem := (mem_of_openText (Option.mem_toList.1 hy)).1
      exact Ne.symm (hk.ne_before hl hh hmem (List.mem_append_left _ hself))
    · exact hk.ne_behind hl hh hself hy
  case opened =>
    intro l hlast
    rw [hopen' l hlast, hopen l hlast, Slot.withText_withText, leadText, htext]

/-- A text that stays is the one that those behind it are added to. -/
theorem stays (hstart : start ≤ kept.length) (hat : w.slotOf c = t.slotOf c)
    (htext : (t.slotOf c).marker.text? = some s) (hs : s ≠ "")
    (hopen : openText w start kept = none) (hg : Gathered t w start (kept ++ [c]) cs v ks) :
    Gathered t w start kept (c :: cs) v (c :: ks) := by
  have hself := hl.mem_walk_self (hk.inUse hl hh (List.mem_append_right _ (List.mem_cons_self ..)))
  obtain ⟨hrest, hjoined, hopen'⟩ := hg
  -- A text that is kept is the one that the next may join
  have hsome : openText w start (kept ++ [c]) = some c := by
    rw [openText_concat hstart, hat, htext]
    rfl
  rw [hsome] at hrest hjoined hopen'
  constructor
  case changes =>
    refine hrest.mono fun x hx => ?_
    rw [List.flatMap_cons]
    simp only [Option.toList_some, List.mem_append, List.mem_singleton] at hx ⊢
    rcases hx with rfl | hx
    · exact Or.inr (Or.inl hself)
    · exact Or.inr (Or.inr hx)
  case joined =>
    rw [hopen]
    refine .kept htext hs ?_ hjoined
    rw [hopen' c rfl, hat]
    exact Slot.withText_of_text htext _
  case opened => simp [hopen]

end

end Gathered

theorem normalizeChildren_joined (hl : t.WellLinked) (hh : t.InUse h)
    {inside : Handle → Edit Unit} (hinside : JoinsInside t h inside)
    (hleaves : ∀ c ∈ (t.slotOf h).children, (t.slotOf c).marker.text?.isSome →
      (t.slotOf c).children = [])
    {start : Nat} (hstart : start ≤ kept.length) (hk : Siblings t h (kept ++ cs))
    (hw : Untouched t (cs.flatMap t.walk) w) :
    ∃ u ks, (cs.foldlM (normalizeChild inside start) kept).perform w = (.ok (kept ++ ks), u) ∧
      Gathered t w start kept cs u ks := by
  -- Child by child: the children that stay and the tree are what the next one finds
  induction cs generalizing w kept with
  | nil => exact ⟨w, [], by simp, .nil t w start kept⟩
  | cons c cs ih =>
    have hcu := hk.inUse hl hh (List.mem_append_right _ (List.mem_cons_self ..))
    have hself := hl.mem_walk_self hcu
    have hstart' : start ≤ (kept ++ [c]).length :=
      Nat.le_trans hstart (List.sublist_append_left kept [c]).length_le
    rw [List.flatMap_cons] at hw
    have hat := hw.slot c (List.mem_append_left _ hself)
    -- What is behind the child is still as it was when its turn comes
    have hrest : Untouched t (cs.flatMap t.walk) w := hw.mono (List.subset_append_right _ _)
    rw [List.foldlM_cons, Edit.perform_bind]
    rcases normalizeChild_taken hl hh hinside hleaves start hk
      (hw.mono (List.subset_append_left _ _)) with
      ⟨u, ds, htext, hr, hchanges, hslot, hbelow⟩ |
      ⟨u, s, htext, hs, hr, hchanges, hslot, hopen⟩ | ⟨s, htext, hs, hopen, hr⟩
    · have hrest' := hrest.after hchanges fun x hx y hy => Ne.symm (hk.ne_behind hl hh hy hx)
      obtain ⟨v, ks, hperform, hg⟩ := ih hstart' hk.move hrest'
      exact ⟨v, c :: ks, by simp [hr, hperform],
        .node hl hh hk hstart htext hchanges hslot hbelow hg⟩
    · have hrest' : Untouched t (cs.flatMap t.walk) u := by
        refine hrest.after hchanges fun x hx y hy => Ne.symm ?_
        rcases List.mem_append.1 hy with hy | hy
        · have hmem := (mem_of_openText (Option.mem_toList.1 hy)).1
          exact hk.ne_before hl hh hmem (List.mem_append_right _ hx)
        · obtain rfl := List.mem_singleton.1 hy
          exact hk.ne_behind hl hh hself hx
      obtain ⟨v, ks, hperform, hg⟩ := ih hstart hk.skip hrest'
      exact ⟨v, ks, by simp [hr, hperform], .dropped hl hh hk htext hs hchanges hslot hopen hg⟩
    · obtain ⟨v, ks, hperform, hg⟩ := ih hstart' hk.move hrest
      exact ⟨v, c :: ks, by simp [hr, hperform], .stays hl hh hk hstart hat htext hs hopen hg⟩

/-! ## All nodes below a node -/

/-- The children are gone through, and those that stay are listed at last. -/
theorem normalizeFrom_perform {fuel start : Nat} (ho : w.owns h)
    (hperform : (((w.slotOf h).children.drop start).foldlM
      (normalizeChild (fun c => normalizeFrom fuel c 0) (min start (w.slotOf h).children.length))
      ((w.slotOf h).children.take start)).perform w = (.ok kept, u)) :
    (normalizeFrom (fuel + 1) h start).perform w = (.ok (), u.setChildren h kept) := by
  have htake : (w.slotOf h).children.take (min start (w.slotOf h).children.length) =
      (w.slotOf h).children.take start := by simp [List.take_eq_take_iff]
  have hdrop : (w.slotOf h).children.drop (min start (w.slotOf h).children.length) =
      (w.slotOf h).children.drop start := by simp [List.drop_eq_drop_iff]
  simp only [normalizeFrom, Edit.perform_bind, check_perform, ho, ↓reduceIte, Edit.perform_get, htake,
    hdrop, hperform, Edit.perform_modify]

/-- What is below a child is in other slots than its parent. -/
theorem WellLinked.slot_ne_below (hl : t.WellLinked) (hh : t.InUse h)
    (hc : c ∈ (t.slotOf h).children) (hx : x ∈ t.walk c) : h.slot ≠ x.slot := by
  have hxu := ((hl.mem_walk_iff (Linked.child hl hh hc).1).1 hx).1
  refine hh.slot_ne hxu ?_
  rintro rfl
  exact hl.not_mem_walk_child hh hc hx

/-- When the children that stay are listed, only the list of their parent is new. -/
theorem Gathered.listed (hl : t.WellLinked) (hh : t.InUse h) {start : Nat}
    (hw : Untouched t (t.walk h) w)
    (hg : Gathered t w (min start (t.slotOf h).children.length) ((t.slotOf h).children.take start)
      ((t.slotOf h).children.drop start) u ks) :
    let v := u.setChildren h ((t.slotOf h).children.take start ++ ks)
    ChangesOnly w (h :: ((t.slotOf h).children.drop start).flatMap t.walk) v ∧
      v.slotOf h = { t.slotOf h with children := (t.slotOf h).children.take start ++ ks } ∧
      Joined t v false ((t.slotOf h).children.drop start) ks := by
  intro v
  obtain ⟨hchanges, hjoined, -⟩ := hg
  rw [openText_take] at hchanges hjoined
  have hne {y : Handle} (hy : y ∈ ((t.slotOf h).children.drop start).flatMap t.walk) :
      h.slot ≠ y.slot := by
    obtain ⟨c, hc, hyc⟩ := List.mem_flatMap.1 hy
    exact hl.slot_ne_below hh (List.mem_of_mem_drop hc) hyc
  have hset : ChangesOnly u [h] v := changesOnly_modifySlot u h _
  -- The node itself is not touched until its children are set
  have hat : u.slotOf h = t.slotOf h := by
    rw [hchanges.slot_of_ne fun y hy => hne hy, hw.slot h (hl.mem_walk_self hh)]
  refine ⟨(hchanges.trans hset).mono (by simp), ?_, hjoined.congr hl (fun c hc => ?_) fun x hx => ?_⟩
  · have hlt : h.slot < u.slots.size := by
      rw [hchanges.size, hw.size]
      exact hh.slot_lt
    show (u.setChildren h _).slotOf h = _
    rw [setChildren, slotOf_modifySlot hlt, if_pos rfl, hat]
  · exact (Linked.child hl hh (List.mem_of_mem_drop hc)).1
  · apply hset.slot_of_ne
    intro y hy
    obtain rfl := List.mem_singleton.1 hy
    exact Ne.symm (hne hx)

/-- Among the children from place `start` on and below them texts are joined, and nothing else is
changed. The bound on the levels is enough. -/
theorem normalizeFrom_joined (hl : t.WellLinked) {fuel : Nat} (hh : t.InUse h)
    (hfuel : t.capacity ≤ fuel + (t.ancestors h).length)
    (hleaves : ∀ x ∈ t.walk h, (t.slotOf x).marker.text?.isSome → (t.slotOf x).children = [])
    (start : Nat) (hw : Untouched t (t.walk h) w) :
    ∃ u ks, (normalizeFrom fuel h start).perform w = (.ok (), u) ∧
      ChangesOnly w (h :: ((t.slotOf h).children.drop start).flatMap t.walk) u ∧
      u.slotOf h = { t.slotOf h with children := (t.slotOf h).children.take start ++ ks } ∧
      Joined t u false ((t.slotOf h).children.drop start) ks := by
  -- Level by level: a child has one more node above it, so one level less is enough for it
  induction fuel generalizing h start w with
  | zero =>
    -- No node is as deep as there are slots
    have := Linked.length_lineage_lt hl hh (Linked.lineage_ancestors hl hh)
    omega
  | succ fuel ih =>
    have hself := hl.mem_walk_self hh
    have hat := hw.slot h hself
    have hbelow {c x : Handle} (hc : c ∈ (t.slotOf h).children) (hx : x ∈ t.walk c) :
        x ∈ t.walk h := (hl.mem_walk_cons hh).2 (Or.inr ⟨c, hc, hx⟩)
    have hinside : JoinsInside t h fun c => normalizeFrom fuel c 0 := by
      intro c hc _ w hw
      have hcu := (Linked.child hl hh hc).1
      rw [hl.walk_eq hcu]
      apply ih hcu
      · rw [Linked.ancestors_child hl hh hc, List.length_cons]
        omega
      · exact fun x hx => hleaves x (hbelow hc hx)
      · exact hw
    have hlength : ((t.slotOf h).children.take start).length =
        min start (t.slotOf h).children.length := List.length_take
    have hrest : Untouched t (((t.slotOf h).children.drop start).flatMap t.walk) w := by
      refine hw.mono fun x hx => ?_
      obtain ⟨c, hc, hxc⟩ := List.mem_flatMap.1 hx
      exact hbelow (List.mem_of_mem_drop hc) hxc
    have hk := hl.siblings hh
    rw [← List.take_append_drop start (t.slotOf h).children] at hk
    obtain ⟨u, ks, hperform, hg⟩ := normalizeChildren_joined hl hh hinside
      (fun c hc => hleaves c (hbelow hc (hl.mem_walk_self (Linked.child hl hh hc).1)))
      (Nat.le_of_eq hlength.symm) hk hrest
    rw [← hat] at hperform
    refine ⟨u.setChildren h ((t.slotOf h).children.take start ++ ks), ks, ?_, hg.listed hl hh hw⟩
    rw [normalizeFrom_perform (hw.owned hself hh.owned) hperform, hat]

end Tree

end TabStop
