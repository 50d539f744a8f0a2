import TabStop.Proofs.Document.NewNodes
import TabStop.Proofs.Document.HiddenNodes
import TabStop.Proofs.Document.JoinedTexts

/-!
# Text put before a node

Text that is put before a node goes to the end of the text before it, or into a node of its own.
Either way the parent shows the same as before with the text in between, and so does the whole
snippet: all that is shown before the node stays where it is, and the node is moved on by the length
of the text.
-/

namespace TabStop.Tree

variable {t u : Tree} {a b c d n p q x : Handle} {as bs : List Handle} {s : String}

/-! ## Among the children of a node -/

namespace WellLinked

/-- The text before a child goes on behind that before its parent, with the siblings before it. -/
theorem textBefore?_of_split {before : String} (hl : t.WellLinked) (hp : p ∈ t.walk t.root)
    (hsplit : (t.slotOf p).children = as ++ c :: bs) (hs : t.textBefore? t.root p = some before) :
    t.textBefore? t.root c = some (before ++ String.join (as.map t.render)) := by
  have hc : c ∈ (t.slotOf p).children := by simp [hsplit]
  rw [hl.textBefore?_child (hl.mem_walk_self (Linked.root_inUse hl)) hp hc, hs, levelBefore,
    hl.siblingsBefore_of_split (hl.mem_walk_root_inUse hp) hsplit]
  rfl

/-- A node without a text of its own shows its children, part by part. -/
theorem render_of_split (hl : t.WellLinked) (hp : t.InUse p)
    (hown : (t.slotOf p).marker.ownText? = none) (hsplit : (t.slotOf p).children = as ++ bs) :
    t.render p = String.join (as.map t.render) ++ String.join (bs.map t.render) := by
  rw [hl.render_eq hp, hown, Option.getD_none, hsplit, List.map_append, String.join_append]

end WellLinked

/-- A child goes on to show its text if nothing is changed but its parent and siblings of it. -/
theorem render_child_congr (ks : List Handle) (hl : t.WellLinked) (hu : u.WellLinked)
    (hp : t.InUse p) (hd : d ∈ (t.slotOf p).children) (hks : ks ⊆ (t.slotOf p).children)
    (hnot : d ∉ ks) (hsame : ∀ x, t.InUse x → x ≠ p → x ∉ ks → u.InUse x ∧
      (u.slotOf x).marker = (t.slotOf x).marker ∧
      (u.slotOf x).children = (t.slotOf x).children) : u.render d = t.render d := by
  have hdu := (Linked.child hl hp hd).1
  apply hl.render_congr hu hdu
  intro x hx
  obtain ⟨hxu, habove⟩ := (hl.mem_walk_iff hdu).1 hx
  apply hsame x hxu
  · rintro rfl
    exact hl.not_mem_walk_child hp hd hx
  · intro hmem
    obtain rfl := Linked.child_unique hl hp hd (hks hmem) hxu habove (isAncestorOrSelf_self t x)
    exact hnot hmem

/-- What is true of a tree in which the text `s` has been put before the child `n` of `p`, where `as`
are the siblings before it and `bs` those behind it. -/
structure TextBefore (t : Tree) (p n : Handle) (as bs : List Handle) (s : String) (u : Tree) :
    Prop where
  wellLinked : u.WellLinked
  identity : u.identity = t.identity
  inUse {x : Handle} : t.InUse x → u.InUse x
  parent {x : Handle} : t.InUse x → (u.slotOf x).parent = (t.slotOf x).parent
  children {x : Handle} : t.InUse x → x ≠ p → (u.slotOf x).children = (t.slotOf x).children
  marker {x : Handle} : t.InUse x → x ∉ as → (u.slotOf x).marker = (t.slotOf x).marker
  marker_before {x : Handle} : x ∈ as → (u.slotOf x).marker = (t.slotOf x).marker ∨
    ∃ r, (t.slotOf x).marker = .text r ∧ (u.slotOf x).marker = .text (r ++ s)
  level : ∃ as', (u.slotOf p).children = as' ++ n :: bs ∧ as.Sublist as' ∧
    String.join (as'.map u.render) = String.join (as.map t.render) ++ s

theorem TextBefore.refl (hl : t.WellLinked) (hsplit : (t.slotOf p).children = as ++ n :: bs) :
    TextBefore t p n as bs "" t where
  wellLinked := hl
  identity := rfl
  inUse hx := hx
  parent _ := rfl
  children _ _ := rfl
  marker _ _ := rfl
  marker_before _ := Or.inl rfl
  level := ⟨as, hsplit, List.Sublist.refl as, (String.append_empty).symm⟩

/-- The text is added to the last one of the siblings before the node. -/
theorem textBefore_appendText {r : String} (hl : t.WellLinked) (hp : t.InUse p)
    (hsplit : (t.slotOf p).children = (as ++ [q]) ++ n :: bs) (hq : (t.slotOf q).marker = .text r)
    (s : String) : TextBefore t p n (as ++ [q]) bs s (t.appendText q s) := by
  have hs := sameLinks_appendText t q s
  have hu := hs.wellLinked hl
  have hqc : q ∈ (t.slotOf p).children := by simp [hsplit]
  have hqu := (Linked.child hl hp hqc).1
  have hmarker {x : Handle} (hx : t.InUse x) (hxq : x ≠ q) :
      ((t.appendText q s).slotOf x).marker = (t.slotOf x).marker := by
    rw [appendText, slotOf_modifySlot hqu.slot_lt, if_neg (hx.slot_ne hqu hxq)]
  have hlonger : ((t.appendText q s).slotOf q).marker = .text (r ++ s) := by
    rw [slotOf_appendText hqu.slot_lt, Slot.withText, hq]
  refine ⟨hu, hs.identity, hs.inUse_iff.2, fun _ => hs.parent _, fun _ _ => hs.children _,
    fun hx hnot => hmarker hx fun heq => hnot (by simp [heq]), fun {x} hx => ?_,
    as ++ [q], (hs.children p).trans hsplit, List.Sublist.refl _, ?_⟩
  · by_cases hxq : x = q
    · subst hxq
      exact Or.inr ⟨r, hq, hlonger⟩
    · have hxc : x ∈ (t.slotOf p).children := by
        rw [hsplit]
        exact List.mem_append_left _ hx
      exact Or.inl (hmarker (Linked.child hl hp hxc).1 hxq)
  -- Texts before the one that grows stay, for they are no children of it
  · have hold : ∀ a ∈ as, (t.appendText q s).render a = t.render a := by
      intro a ha
      have haq : a ≠ q :=
        hl.ne_of_split hp (hsplit.trans (List.append_assoc ..)) ha (by simp)
      apply render_child_congr [q] hl hu hp (by simp [hsplit, ha]) (by simpa using hqc)
        (by simpa using haq)
      intro x hx hxp hxq
      exact ⟨hs.inUse_iff.2 hx, hmarker hx (by simpa using hxq), hs.children x⟩
    have htext : (t.appendText q s).render q = t.render q ++ s := by
      rw [hu.render_eq (hs.inUse_iff.2 hqu), hl.render_eq hqu, hlonger, hq]
      rfl
    rw [List.map_append, List.map_append, List.map_congr_left hold, String.join_append,
      String.join_append]
    simp [htext, String.append_assoc]

/-- The text is a node of its own. -/
theorem Planted.textBefore (hu : Planted t (.text s) p as.length c u) (hl : t.WellLinked)
    (hp : t.InUse p) (hsplit : (t.slotOf p).children = as ++ n :: bs) :
    TextBefore t p n as bs s u := by
  have hinUse {x : Handle} (hx : t.InUse x) : u.InUse x := (hu.inUse_iff x).2 (Or.inr hx)
  refine ⟨hu.wellLinked, hu.identity, hinUse, hu.parent, fun hx hxp => ?_, fun hx _ => hu.marker hx,
    fun hx => Or.inl (hu.marker (Linked.child hl hp (by rw [hsplit]; simp [hx])).1),
    as ++ [c], ?_, List.sublist_append_left as [c], ?_⟩
  · rw [hu.children hx, if_neg hxp]
  · rw [hu.children hp, if_pos rfl, hsplit]
    simp [insertAt]
  · have hold : ∀ a ∈ as, u.render a = t.render a := by
      intro a ha
      apply render_child_congr [] hl hu.wellLinked hp (by simp [hsplit, ha]) (by simp) (by simp)
      intro x hx hxp _
      exact ⟨hinUse hx, hu.marker hx, by rw [hu.children hx, if_neg hxp]⟩
    -- The new text is the only child that is not shown as before
    have hnew : u.render c = s := by
      rw [hu.wellLinked.render_eq ((hu.inUse_iff c).2 (Or.inl rfl)), hu.marker_new]
      rfl
    rw [List.map_append, List.map_congr_left hold, String.join_append]
    simp [hnew]

/-! ## Putting in the text -/

/-- What is done goes by the sibling right before the node. -/
theorem insertBefore_perform (hl : t.WellLinked) (hp : t.InUse p)
    (hsplit : (t.slotOf p).children = as ++ n :: bs) (s : String) :
    (insertBefore n s).perform t = if s.isEmpty then (.ok (), t) else
      match as.getLast?.filter fun q => (t.slotOf q).marker.text?.isSome with
      | some q => (.ok (), t.appendText q s)
      | none => (insertChild p as.length (t.alloc (.text s)).1).perform (t.alloc (.text s)).2 := by
  obtain ⟨hn, hparent⟩ := Linked.child hl hp (c := n) (by simp [hsplit])
  have hup : t.parent? n = some p := by rw [WellLinked.parent?_eq hn, hparent]
  have hindex := hl.indexInParent?_of_split hp hsplit
  -- The node before, if there is one, is the last of those in front of the node
  have hprevious : (if as = [] then none else (as ++ n :: bs)[as.length - 1]?) = as.getLast? := by
    split
    · next hnil => simp [hnil]
    · next hsome =>
      have hpos := List.length_pos_of_ne_nil hsome
      rw [List.getElem?_append_left (by omega), List.getLast?_eq_getElem?]
  by_cases hs : s.isEmpty
  · simp [insertBefore, check_perform, hn.owned, parentOrFail, hup, indexOrFail, hindex, hs]
  · cases hlast : as.getLast?.filter fun q => (t.slotOf q).marker.text?.isSome <;>
      simp [insertBefore, check_perform, hn.owned, parentOrFail, hup, indexOrFail, hindex, hs,
        hsplit, hprevious, hlast, new]

/-- The text gets between the node and its siblings before it, whatever these are. -/
theorem exists_textBefore (hl : t.WellLinked) (hp : t.InUse p)
    (hsplit : (t.slotOf p).children = as ++ n :: bs) (s : String) :
    ∃ u, (insertBefore n s).perform t = (.ok (), u) ∧ TextBefore t p n as bs s u := by
  have hperform := insertBefore_perform hl hp hsplit s
  by_cases hs : s.isEmpty
  · obtain rfl : s = "" := by simpa using hs
    exact ⟨t, hperform, .refl hl hsplit⟩
  · rw [if_neg hs] at hperform
    cases hlast : as.getLast?.filter fun q => (t.slotOf q).marker.text?.isSome with
    | some q =>
      obtain ⟨hq, htext⟩ := Option.filter_eq_some_iff.1 hlast
      obtain ⟨r, hr⟩ := Option.isSome_iff_exists.1 htext
      have hmarker : (t.slotOf q).marker = .text r := by
        cases hm : (t.slotOf q).marker <;> simp_all [Marker.text?]
      -- The sibling that takes the text is the last one before the node
      obtain ⟨before, rfl⟩ := List.getLast?_eq_some_iff.1 hq
      rw [hlast] at hperform
      exact ⟨_, hperform, textBefore_appendText hl hp hsplit hmarker s⟩
    | none =>
      rw [hlast] at hperform
      obtain ⟨hmove, hplanted⟩ := hl.planted (.text s) hp as.length
      rcases insertChild_cases (t.alloc (.text s)).2 p as.length (t.alloc (.text s)).1 with
        ⟨-, hchild⟩ | ⟨hno, -⟩
      · exact ⟨_, hperform.trans hchild, hplanted.textBefore hl hp hsplit⟩
      · exact absurd hmove hno

/-! ## Around the parent -/

/-- What is true of a tree in which nothing has been changed but a node and what is below it. -/
structure SameOutside (t : Tree) (p : Handle) (u : Tree) : Prop where
  wellLinked : u.WellLinked
  identity : u.identity = t.identity
  inUse {x : Handle} : t.InUse x → u.InUse x
  children {x : Handle} : t.InUse x → x ∉ t.walk p → (u.slotOf x).children = (t.slotOf x).children
  marker {x : Handle} : t.InUse x → x ∉ t.walk p → (u.slotOf x).marker = (t.slotOf x).marker

namespace SameOutside

variable {y : Handle}

theorem root_eq (ho : SameOutside t p u) : u.root = t.root := by simp [root, ho.identity]

/-- A node shows what it showed if another child of its parent is above the node `p`. -/
theorem render_sibling (ho : SameOutside t p u) (hl : t.WellLinked) (hy : t.InUse y)
    (hp : t.InUse p) (hc : c ∈ (t.slotOf y).children) (hcp : t.isAncestorOrSelf c p)
    (hd : d ∈ (t.slotOf y).children) (hne : d ≠ c) : u.render d = t.render d := by
  have hdu := (Linked.child hl hy hd).1
  apply hl.render_congr ho.wellLinked hdu
  intro x hx
  obtain ⟨hxu, hdx⟩ := (hl.mem_walk_iff hdu).1 hx
  have hxp : x ∉ t.walk p := by
    intro hmem
    have hpx := ((hl.mem_walk_iff hp).1 hmem).2
    exact hne (Linked.child_unique hl hy hd hc hxu hdx (Linked.above_trans hl hxu hpx hcp))
  exact ⟨ho.inUse hxu, ho.marker hxu hxp, ho.children hxu hxp⟩

/-- The text around a node is the text `before` it and the text `after` it, in both trees. -/
def Around (t u : Tree) (x : Handle) (before after : String) : Prop :=
  (t.textBefore? t.root x = some before ∧ t.text = before ++ t.render x ++ after) ∧
    u.textBefore? u.root x = some before ∧ u.text = before ++ u.render x ++ after

/-- From a node above `p` to its child that `p` is below. -/
theorem around_child (ho : SameOutside t p u) (hl : t.WellLinked) (hleaves : t.LeavesBare)
    (hp : t.InUse p) (hy : y ∈ t.walk t.root) (hyu : y ∈ u.walk u.root)
    (hc : c ∈ (t.slotOf y).children) (hcp : t.isAncestorOrSelf c p) (hshown : t.isHidden c = false)
    {before after : String} (ha : Around t u y before after) :
    c ∈ u.walk u.root ∧ ∃ before after, Around t u c before after := by
  have hu := ho.wellLinked
  have hinUse := hl.mem_walk_root_inUse hy
  obtain ⟨⟨htb, httext⟩, hub, hutext⟩ := ha
  -- A node above the change is not below it, so it is as it was, but for what it shows
  have hout : y ∉ t.walk p := by
    intro hmem
    have hpy := ((hl.mem_walk_iff hp).1 hmem).2
    exact Linked.not_above_of_child hl hinUse hc (Linked.above_trans hl hinUse hpy hcp)
  have hown := hl.ownText?_of_shown hleaves hy hc hshown
  have hown' : (u.slotOf y).marker.ownText? = none := by rw [ho.marker hinUse hout, hown]
  obtain ⟨as, bs, hsplit⟩ := List.append_of_mem hc
  have hsplit' : (u.slotOf y).children = as ++ c :: bs := (ho.children hinUse hout).trans hsplit
  -- The other children have nothing to do with the change
  have hsibling : ∀ d ∈ as ++ bs, u.render d = t.render d := by
    intro d hd
    have hnodup := Linked.nodup hl hinUse
    rw [hsplit] at hnodup
    have hne : d ≠ c := by
      rintro rfl
      exact (List.nodup_cons.1 (List.perm_middle.nodup_iff.1 hnodup)).1 hd
    refine ho.render_sibling hl hinUse hp hc hcp ?_ hne
    rw [hsplit]
    exact List.perm_middle.mem_iff.2 (List.mem_cons_of_mem c hd)
  have hbefore : as.map u.render = as.map t.render :=
    List.map_congr_left fun d hd => hsibling d (List.mem_append_left bs hd)
  have hafter : bs.map u.render = bs.map t.render :=
    List.map_congr_left fun d hd => hsibling d (List.mem_append_right as hd)
  have hcu : c ∈ (u.slotOf y).children := by simp [hsplit']
  have hbehind := hl.textBefore?_of_split hy hsplit htb
  have hbehind' := hu.textBefore?_of_split hyu hsplit' hub
  rw [hbefore] at hbehind'
  refine ⟨hu.mem_walk_root_child hyu hcu, before ++ String.join (as.map t.render),
    String.join (bs.map t.render) ++ after, ⟨hbehind, ?_⟩, hbehind', ?_⟩
  · rw [httext, hl.render_of_split hinUse hown hsplit]
    simp [String.join_cons, String.append_assoc]
  · rw [hutext, hu.render_of_split (ho.inUse hinUse) hown' hsplit']
    simp [String.join_cons, String.append_assoc, hbefore, hafter]

/-- The text around a node that is shown is the same if nothing else is changed. -/
theorem exists_around (ho : SameOutside t p u) (hl : t.WellLinked) (hleaves : t.LeavesBare)
    (hp : p ∈ t.walk t.root) (hshown : t.isHidden p = false) :
    p ∈ u.walk u.root ∧ ∃ before after, Around t u p before after := by
  have hroot := Linked.root_inUse hl
  have hpu := hl.mem_walk_root_inUse hp
  -- The nodes on the way down from the root are those that `p` is below
  have hdown : t.isAncestorOrSelf p p → t.isHidden p = false →
      p ∈ u.walk u.root ∧ ∃ before after, Around t u p before after := by
    refine hl.walk_induction hroot (P := fun x => t.isAncestorOrSelf x p → t.isHidden x = false →
      x ∈ u.walk u.root ∧ ∃ before after, Around t u x before after)
      (fun _ _ => ?_) (fun y hy c hc ih hcp hcshown => ?_) hp
    · have hmem := ho.wellLinked.mem_walk_self (Linked.root_inUse ho.wellLinked)
      refine ⟨ho.root_eq ▸ hmem, "", "", ⟨?_, by simp [text]⟩, ?_, by simp [text, ho.root_eq]⟩
      · exact hl.textBefore?_self (hl.mem_walk_self hroot)
      · rw [← ho.root_eq]
        exact ho.wellLinked.textBefore?_self hmem
    · have hyu := hl.mem_walk_root_inUse hy
      have hyshown := hcshown
      rw [hl.isHidden_child hyu hc, Bool.or_eq_false_iff] at hyshown
      have hyp : t.isAncestorOrSelf y p := by
        apply Linked.above_trans hl hpu hcp
        rw [isAncestorOrSelf_iff, Linked.ancestors_child hl hyu hc]
        simp
      obtain ⟨hmem, before, after, ha⟩ := ih hyp hyshown.2
      exact ho.around_child hl hleaves hpu hy hmem hc hcp hcshown ha
  exact hdown (isAncestorOrSelf_self t p) hshown

end SameOutside

/-! ## The whole snippet -/

namespace TextBefore

theorem sameOutside (hu : TextBefore t p n as bs s u) (hl : t.WellLinked) (hp : t.InUse p)
    (hsplit : (t.slotOf p).children = as ++ n :: bs) : SameOutside t p u where
  wellLinked := hu.wellLinked
  identity := hu.identity
  inUse := hu.inUse
  children hx hnot := hu.children hx fun heq => hnot (heq.symm ▸ hl.mem_walk_self hp)
  marker {x} hx hnot := by
    apply hu.marker hx
    intro hmem
    have hc : x ∈ (t.slotOf p).children := by simp [hsplit, hmem]
    exact hnot ((hl.mem_walk_cons hp).2 (Or.inr ⟨x, hc, hl.mem_walk_self hx⟩))

/-- A node is of the kind that it was: a text may have become longer. -/
theorem marker_cases (hu : TextBefore t p n as bs s u) (hx : t.InUse x) :
    (u.slotOf x).marker = (t.slotOf x).marker ∨
      ∃ r, (t.slotOf x).marker = .text r ∧ (u.slotOf x).marker = .text (r ++ s) := by
  by_cases hmem : x ∈ as
  · exact hu.marker_before hmem
  · exact Or.inl (hu.marker hx hmem)

theorem hasValue_iff (hu : TextBefore t p n as bs s u) (hx : t.InUse x) :
    u.HasValue x ↔ t.HasValue x := by
  rcases hu.marker_cases hx with heq | ⟨r, hr, hr'⟩
  · exact hx.hasValue_congr (hu.inUse hx) heq
  · rw [HasValue, HasValue, (hu.inUse hx).var?_eq, hx.var?_eq, hr, hr']
    rfl

theorem ancestors_eq (hu : TextBefore t p n as bs s u) (hl : t.WellLinked) (hx : t.InUse x) :
    u.ancestors x = t.ancestors x :=
  Linked.ancestors_congr hl hu.wellLinked hx (hu.inUse hx) fun _ hy _ => hu.parent hy

theorem isHidden_eq (hu : TextBefore t p n as bs s u) (hl : t.WellLinked) (hx : t.InUse x) :
    u.isHidden x = t.isHidden x := by
  apply Bool.eq_iff_iff.2
  rw [isHidden_iff, isHidden_iff, hu.ancestors_eq hl hx]
  exact exists_congr fun a => and_congr_right fun ha =>
    hu.hasValue_iff (Linked.ancestors_inUse hl hx a ha)

/-- All that was below a node is still there, in the same order. -/
theorem walk_sublist (hu : TextBefore t p n as bs s u) (hl : t.WellLinked)
    (hsplit : (t.slotOf p).children = as ++ n :: bs) (hx : t.InUse x) :
    (t.walk x).Sublist (u.walk x) := by
  refine hl.induction_below (P := fun x => (t.walk x).Sublist (u.walk x)) (fun x hx ih => ?_) hx
  have hchildren : (t.slotOf x).children.Sublist (u.slotOf x).children := by
    by_cases hxp : x = p
    · subst hxp
      obtain ⟨as', hsplit', hsub, -⟩ := hu.level
      rw [hsplit, hsplit']
      exact hsub.append_right _
    · rw [hu.children hx hxp]
  rw [hl.walk_eq hx, hu.wellLinked.walk_eq (hu.inUse hx)]
  apply List.Sublist.cons_cons
  exact (List.Sublist.flatMap_right _ fun c hc => ih c hc).trans (hchildren.flatMap _)

/-- The parent shows the same, with the text in between. -/
theorem render_eq (hu : TextBefore t p n as bs s u) (hl : t.WellLinked) (hp : t.InUse p)
    (hsplit : (t.slotOf p).children = as ++ n :: bs) (hown : (t.slotOf p).marker.ownText? = none) :
    ∃ rest, t.render p = String.join (as.map t.render) ++ rest ∧
      u.render p = String.join (as.map t.render) ++ s ++ rest := by
  obtain ⟨as', hsplit', -, hjoin⟩ := hu.level
  have hpas : p ∉ as := by
    intro hmem
    have hc : p ∈ (t.slotOf p).children := by simp [hsplit, hmem]
    exact Linked.not_above_of_child hl hp hc (isAncestorOrSelf_self t p)
  -- The node and what is behind it are not among those in front of it
  have hlater : (n :: bs).map u.render = (n :: bs).map t.render := by
    apply List.map_congr_left
    intro d hd
    have hdas : d ∉ as := fun hmem => hl.ne_of_split hp hsplit hmem hd rfl
    apply render_child_congr as hl hu.wellLinked hp
      (by rw [hsplit]; exact List.mem_append_right as hd)
      (by rw [hsplit]; exact List.subset_append_left ..) hdas
    exact fun x hx hxp hxas => ⟨hu.inUse hx, hu.marker hx hxas, hu.children hx hxp⟩
  have hown' : (u.slotOf p).marker.ownText? = none := by rw [hu.marker hp hpas, hown]
  refine ⟨String.join ((n :: bs).map t.render), hl.render_of_split hp hown hsplit, ?_⟩
  rw [hu.wellLinked.render_of_split (hu.inUse hp) hown' hsplit', hjoin, hlater]

end TextBefore

/-- Text is put before an attached node, not hidden, at the offset of the node, in the whole snippet;
the node is moved on by that, and all nodes stay what and where they were. -/
theorem insertBefore_shifts (hl : t.WellLinked) (hleaves : t.LeavesBare) (ha : t.isAttached n)
    (hroot : n ≠ t.root) (hshown : t.isHidden n = false) (s : String) :
    ∃ u, (insertBefore n s).perform t = (.ok (), u) ∧ u.WellLinked ∧ u.root = t.root ∧
      (∃ before after, t.text = before ++ after ∧ u.text = before ++ s ++ after ∧
        t.textBefore? t.root n = some before ∧ u.textBefore? u.root n = some (before ++ s) ∧
        t.offset? n = some before.length ∧ u.offset? n = some (before.length + s.length)) ∧
      ∀ x, t.InUse x → u.InUse x ∧ u.parent? x = t.parent? x ∧
        (u.marker? x = t.marker? x ∨
          ∃ r, t.marker? x = some (.text r) ∧ u.marker? x = some (.text (r ++ s))) ∧
        (t.walk x).Sublist (u.walk x) := by
  have hmem := hl.isAttached_iff.1 ha
  have hnu := hl.mem_walk_root_inUse hmem
  obtain ⟨p, hp, hc⟩ := hl.exists_parent hmem hroot
  have hpu := hl.mem_walk_root_inUse hp
  have hpshown := hshown
  rw [hl.isHidden_child hpu hc, Bool.or_eq_false_iff] at hpshown
  obtain ⟨as, bs, hsplit⟩ := List.append_of_mem hc
  obtain ⟨u, hperform, hu⟩ := exists_textBefore hl hpu hsplit s
  have ho := hu.sameOutside hl hpu hsplit
  refine ⟨u, hperform, hu.wellLinked, ho.root_eq, ?_, fun x hx => ⟨hu.inUse hx, ?_, ?_, ?_⟩⟩
  · -- The text in the parent, and the same text around the parent
    obtain ⟨rest, hrender, hrender'⟩ :=
      hu.render_eq hl hpu hsplit (hl.ownText?_of_shown hleaves hp hc hshown)
    obtain ⟨hpmem, before, after, ⟨htb, httext⟩, hub, hutext⟩ :=
      ho.exists_around hl hleaves hp hpshown.2
    obtain ⟨as', hsplit', -, hjoin⟩ := hu.level
    have htn := hl.textBefore?_of_split hp hsplit htb
    have hun := hu.wellLinked.textBefore?_of_split hpmem hsplit' hub
    rw [hjoin, ← String.append_assoc] at hun
    refine ⟨before ++ String.join (as.map t.render), rest ++ after, ?_, ?_, htn, hun, ?_, ?_⟩
    · rw [httext, hrender]
      simp only [String.append_assoc]
    · rw [hutext, hrender']
      simp only [String.append_assoc]
    · rw [hl.offset?_eq, hshown, htn]
      rfl
    · rw [hu.wellLinked.offset?_eq, hu.isHidden_eq hl hnu, hshown, hun, ← String.length_append]
      rfl
  · rw [WellLinked.parent?_eq (hu.inUse hx), WellLinked.parent?_eq hx, hu.parent hx]
  · rw [marker?, marker?, if_pos (hu.inUse hx).owned, if_pos hx.owned]
    rcases hu.marker_cases hx with heq | ⟨r, hr, hr'⟩
    · exact Or.inl (congrArg some heq)
    · exact Or.inr ⟨r, congrArg some hr, congrArg some hr'⟩
  · exact hu.walk_sublist hl hsplit hx

/-- Two letters before the last tab stop come behind the value of the variable. -/
theorem insertBefore_shifts_valued :
    valued.isAttached ⟨0, 6, 0⟩ ∧ (⟨0, 6, 0⟩ : Handle) ≠ valued.root ∧
      valued.isHidden ⟨0, 6, 0⟩ = false ∧ valued.text = "éÿÿü" ∧ valued.offset? ⟨0, 6, 0⟩ = some 3 ∧
      ∃ u, (insertBefore ⟨0, 6, 0⟩ "ab").perform valued = (.ok (), u) ∧ u.text = "éÿÿabü" ∧
        u.offset? ⟨0, 6, 0⟩ = some 5 := by
  have hvalued : (valued.isAttached ⟨0, 6, 0⟩, valued.isHidden ⟨0, 6, 0⟩, valued.text,
      valued.textBefore? valued.root ⟨0, 6, 0⟩) =
      (true, false, "éÿÿü", some "éÿÿ") := by cbv
  simp only [Prod.mk.injEq] at hvalued
  obtain ⟨hattached, hshown, htext, hbefore⟩ := hvalued
  have hroot : (⟨0, 6, 0⟩ : Handle) ≠ valued.root := fun heq =>
    absurd (congrArg Handle.slot heq) (by simp [root])
  obtain ⟨u, hperform, -, -, ⟨before, after, htext', hutext, htb, -, hoffset, huoffset⟩, -⟩ :=
    insertBefore_shifts wellLinked_valued leavesBare_valued hattached hroot hshown "ab"
  obtain rfl := Option.some.inj (hbefore.symm.trans htb)
  obtain rfl : "ü" = after := (String.append_right_inj "éÿÿ").1 (htext.symm.trans htext')
  exact ⟨hattached, hroot, hshown, htext, hoffset, u, hperform, hutext, huoffset⟩

end TabStop.Tree
