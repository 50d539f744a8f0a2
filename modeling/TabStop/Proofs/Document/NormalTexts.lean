import TabStop.Proofs.Document.JoinedTexts
import TabStop.Proofs.Document.Rendering
import TabStop.Proofs.Repeat.Writing

/-!
# What normalizing achieves

Among the children of a node from some place on, and among those of every node below them, no text is
left empty or next to another one. Each row of texts has gone into the first text of it that is not
empty, under its own handle, and the others have been released. Nodes of other kinds stay what and
where they are and show what they have shown, and there is nothing left to do for a second time.
-/

namespace TabStop.Tree

variable {t u : Tree} {c h k x : Handle} {as bs cs ds es hs ks kept rs run : List Handle} {o : Bool}

/-! ## Rows of texts -/

/-- Whether a node is a text. -/
def isText (t : Tree) (x : Handle) : Bool := (t.slotOf x).marker.text?.isSome

/-- No text of a list is empty, and no two of them follow each other. -/
structure Tidy (t : Tree) (hs : List Handle) : Prop where
  nonempty : ∀ x ∈ hs, (t.slotOf x).marker.text? ≠ some ""
  apart : hs.IsChain fun a b => ¬(t.isText a ∧ t.isText b)

/-- A row of texts in a list of nodes that no other text is next to. -/
structure IsRun (t : Tree) (as run bs : List Handle) : Prop where
  texts : ∀ c ∈ run, t.isText c
  before : ∀ a ∈ as.getLast?, t.isText a = false
  behind : ∀ b ∈ bs.head?, t.isText b = false

/-- Text nodes have no children. -/
def Childless (t : Tree) (hs : List Handle) : Prop :=
  ∀ x ∈ hs, t.isText x → (t.slotOf x).children = []

theorem isText_iff : t.isText x ↔ ∃ s, (t.slotOf x).marker.text? = some s := Option.isSome_iff_exists

theorem isText_eq_false : t.isText x = false ↔ (t.slotOf x).marker.text? = none := by
  simp [isText]

theorem WellLinked.walk_leaf (hl : t.WellLinked) (hc : t.InUse c)
    (hnil : (t.slotOf c).children = []) : t.walk c = [c] := by
  rw [hl.walk_eq hc, hnil]
  rfl

theorem WellLinked.render_text (hl : t.WellLinked) (hc : t.InUse c) {s : String}
    (htext : (t.slotOf c).marker.text? = some s) : t.render c = s := by
  have hmarker : (t.slotOf c).marker = .text s := by
    cases hm : (t.slotOf c).marker <;> simp_all [Marker.text?]
  rw [hl.render_eq hc, hmarker]
  rfl

/-! ## What is below the children -/

/-- In sound trees nodes have been joined, with the texts below them as leaves. -/
structure Joins (t u : Tree) (o : Bool) (cs ks : List Handle) : Prop where
  wellLinked : t.WellLinked
  stays_wellLinked : u.WellLinked
  joined : Joined t u o cs ks
  inUse : ∀ c ∈ cs, t.InUse c
  stays : ∀ k ∈ ks, u.InUse k
  childless : t.Childless (cs.flatMap t.walk)

namespace Joins

/-- Induction along nodes that have been joined, with what is below them: there is nothing below a
text. -/
theorem induction {motive : Bool → List Handle → List Handle → Prop}
    (nil : ∀ o, motive o [] [])
    (node : ∀ o c cs ds ks, t.isText c = false → t.InUse c → u.InUse c →
      u.slotOf c = { t.slotOf c with children := ds } →
      t.walk c = c :: (t.slotOf c).children.flatMap t.walk → u.walk c = c :: ds.flatMap u.walk →
      Joined t u false (t.slotOf c).children ds → motive false (t.slotOf c).children ds →
      motive false cs ks → motive o (c :: cs) (c :: ks))
    (dropped : ∀ (o : Bool) c s cs ks, t.InUse c → (t.slotOf c).marker.text? = some s → s = "" ∨ o →
      u.slotOf c = Slot.cleared (t.slotOf c) → t.walk c = [c] → motive o cs ks →
      motive o (c :: cs) ks)
    (kept : ∀ c s cs ks, t.InUse c → u.InUse c → (t.slotOf c).marker.text? = some s → s ≠ "" →
      u.slotOf c = { t.slotOf c with marker := .text (s ++ t.leadText cs) } → t.walk c = [c] →
      u.walk c = [c] → motive true cs ks → motive false (c :: cs) (c :: ks))
    (hj : Joins t u o cs ks) : motive o cs ks := by
  obtain ⟨hl, hu, hj, hcs, hks, hleaves⟩ := hj
  induction hj with
  | nil o => exact nil o
  | @node o c cs ds ks htext hslot hbelow hrest ihbelow ihrest =>
    obtain ⟨hc, hcs⟩ := List.forall_mem_cons.1 hcs
    obtain ⟨hc', hks⟩ := List.forall_mem_cons.1 hks
    have hwalk := hl.walk_eq hc
    have hwalk' := hu.walk_eq hc'
    have hds : (u.slotOf c).children = ds := by rw [hslot]
    rw [List.flatMap_cons, hwalk] at hleaves
    rw [hds] at hwalk'
    -- What is below the node is joined by itself, since no text is open there at first
    apply node o c cs ds ks (isText_eq_false.2 htext) hc hc' hslot hwalk hwalk' hbelow
    · apply ihbelow
      · exact fun d hd => (Linked.child hl hc hd).1
      · exact fun d hd => (Linked.child hu hc' (hds ▸ hd)).1
      · exact fun x hx => hleaves x (List.mem_append_left _ (List.mem_cons_of_mem _ hx))
    · exact ihrest hcs hks fun x hx => hleaves x (List.mem_append_right _ hx)
  | @dropped o c s cs ks htext hs hslot hrest ih =>
    obtain ⟨hc, hcs⟩ := List.forall_mem_cons.1 hcs
    have hnil := hleaves c (List.mem_flatMap.2 ⟨c, List.mem_cons_self .., hl.mem_walk_self hc⟩)
      (isText_iff.2 ⟨s, htext⟩)
    apply dropped o c s cs ks hc htext hs hslot (hl.walk_leaf hc hnil)
    rw [List.flatMap_cons] at hleaves
    exact ih hcs hks fun x hx => hleaves x (List.mem_append_right _ hx)
  | @kept c s cs ks htext hs hslot hrest ih =>
    obtain ⟨hc, hcs⟩ := List.forall_mem_cons.1 hcs
    obtain ⟨hc', hks⟩ := List.forall_mem_cons.1 hks
    have hnil := hleaves c (List.mem_flatMap.2 ⟨c, List.mem_cons_self .., hl.mem_walk_self hc⟩)
      (isText_iff.2 ⟨s, htext⟩)
    apply kept c s cs ks hc hc' htext hs hslot (hl.walk_leaf hc hnil)
    · exact hu.walk_leaf hc' (by rw [hslot]; exact hnil)
    · rw [List.flatMap_cons] at hleaves
      exact ih hcs hks fun x hx => hleaves x (List.mem_append_right _ hx)

variable (hj : Joins t u o cs ks)

include hj

/-- Nodes of other kinds stay in the order in which they are, -/
theorem nodes : (ks.flatMap u.walk).filter (! u.isText ·) =
    (cs.flatMap t.walk).filter (! t.isText ·) := by
  -- A text is met on neither side, and any other node on both
  refine hj.induction (motive := fun _ cs ks => (ks.flatMap u.walk).filter
    (! u.isText ·) = (cs.flatMap t.walk).filter (! t.isText ·)) (fun _ => rfl)
    ?node ?dropped ?kept
  case node =>
    intro o c cs ds ks hnode _ _ hslot hwalk hwalk' _ ihbelow ihrest
    have hnode' : u.isText c = false := by
      rw [isText, hslot]
      exact hnode
    simp only [List.flatMap_cons, List.filter_append, hwalk, hwalk', List.filter_cons, hnode, hnode',
      ihbelow, ihrest]
  case dropped =>
    intro o c s cs ks _ htext _ _ hwalk ih
    have htext : t.isText c := isText_iff.2 ⟨s, htext⟩
    simp [List.flatMap_cons, hwalk, htext, ih]
  case kept =>
    intro c s cs ks _ _ htext _ hslot hwalk hwalk' ih
    have htext : t.isText c := isText_iff.2 ⟨s, htext⟩
    have htext' : u.isText c := by
      rw [isText, hslot]
      rfl
    simp [List.flatMap_cons, hwalk, hwalk', htext, htext', ih]

/-- and no node at all is moved. -/
theorem sublist : (ks.flatMap u.walk).Sublist (cs.flatMap t.walk) := by
  refine hj.induction
    (motive := fun _ cs ks => (ks.flatMap u.walk).Sublist (cs.flatMap t.walk)) (fun _ => .slnil)
    ?node ?dropped ?kept
  case node =>
    intro o c cs ds ks _ _ _ _ hwalk hwalk' _ ihbelow ihrest
    rw [List.flatMap_cons, List.flatMap_cons, hwalk, hwalk']
    exact (ihbelow.cons_cons c).append ihrest
  case dropped =>
    intro o c s cs ks _ _ _ _ hwalk ih
    rw [List.flatMap_cons, hwalk]
    exact ih.cons c
  case kept =>
    intro c s cs ks _ _ _ _ _ hwalk hwalk' ih
    rw [List.flatMap_cons, List.flatMap_cons, hwalk, hwalk']
    exact ih.cons_cons c

/-- A node that does not stay is a text, and its slot has been cleared. -/
theorem stays_or_cleared (hx : x ∈ cs.flatMap t.walk) :
    x ∈ ks.flatMap u.walk ∨ t.isText x ∧ u.slotOf x = Slot.cleared (t.slotOf x) := by
  revert hx
  -- By the rules of joining: only a text that is dropped is met no more
  refine hj.induction (motive := fun _ cs ks => x ∈ cs.flatMap t.walk →
    x ∈ ks.flatMap u.walk ∨ t.isText x ∧ u.slotOf x = Slot.cleared (t.slotOf x))
    ?nil ?node ?dropped ?kept
  case nil => simp
  case node =>
    intro o c cs ds ks _ _ _ _ hwalk hwalk' _ ihbelow ihrest hx
    rw [List.flatMap_cons, hwalk, List.mem_append, List.mem_cons] at hx
    rw [List.flatMap_cons, hwalk', List.mem_append, List.mem_cons]
    rcases hx with (rfl | hx) | hx
    · exact Or.inl (Or.inl (Or.inl rfl))
    · exact (ihbelow hx).imp_left fun h => Or.inl (Or.inr h)
    · exact (ihrest hx).imp_left Or.inr
  case dropped =>
    intro o c s cs ks _ htext _ hslot hwalk ih hx
    rw [List.flatMap_cons, hwalk] at hx
    rcases List.mem_cons.1 hx with rfl | hx
    · exact Or.inr ⟨isText_iff.2 ⟨s, htext⟩, hslot⟩
    · exact ih hx
  case kept =>
    intro c s cs ks _ _ _ _ _ hwalk hwalk' ih hx
    rw [List.flatMap_cons, hwalk] at hx
    rw [List.flatMap_cons, hwalk']
    rcases List.mem_cons.1 hx with rfl | hx
    · exact Or.inl (List.mem_cons_self ..)
    · exact (ih hx).imp_left (List.mem_cons_of_mem _)

/-- A node of another kind has only got a new list of children, which have been joined too. -/
theorem at_node (hx : x ∈ cs.flatMap t.walk) (hnode : t.isText x = false) :
    u.InUse x ∧ u.slotOf x = { t.slotOf x with children := (u.slotOf x).children } ∧
      Joined t u false (t.slotOf x).children (u.slotOf x).children := by
  have hlater {c : Handle} {s : String} {xs : List Handle}
      (htext : (t.slotOf c).marker.text? = some s) (hmem : x ∈ c :: xs) : x ∈ xs := by
    refine (List.mem_cons.1 hmem).resolve_left ?_
    rintro rfl
    simp [isText_iff.2 ⟨s, htext⟩] at hnode
  revert hx
  -- By the rules of joining: a node that is no text has only its children joined
  refine hj.induction (motive := fun _ cs _ => x ∈ cs.flatMap t.walk →
    u.InUse x ∧ u.slotOf x = { t.slotOf x with children := (u.slotOf x).children } ∧
      Joined t u false (t.slotOf x).children (u.slotOf x).children)
    ?nil ?node ?dropped ?kept
  case nil => simp
  case node =>
    intro o c cs ds ks _ _ hc' hslot hwalk _ hbelow ihbelow ihrest hx
    rw [List.flatMap_cons, hwalk, List.mem_append, List.mem_cons] at hx
    rcases hx with (rfl | hx) | hx
    · have hds : (u.slotOf x).children = ds := by rw [hslot]
      rw [hds]
      exact ⟨hc', hslot, hbelow⟩
    · exact ihbelow hx
    · exact ihrest hx
  case dropped =>
    intro o c s cs ks _ htext _ _ hwalk ih hx
    rw [List.flatMap_cons, hwalk] at hx
    exact ih (hlater htext hx)
  case kept =>
    intro c s cs ks _ _ htext _ _ hwalk _ ih hx
    rw [List.flatMap_cons, hwalk] at hx
    exact ih (hlater htext hx)

/-- What the nodes show is shown by those that stay, behind the text that they begin with if that has
been taken over. -/
theorem shown : String.join (cs.map t.render) =
    (if o then t.leadText cs else "") ++ String.join (ks.map u.render) := by
  have hl := hj.wellLinked
  have hu := hj.stays_wellLinked
  -- By the rules of joining: what an open text takes up is shown in front of the rest
  refine hj.induction (motive := fun o cs ks => String.join (cs.map t.render) =
    (if o then t.leadText cs else "") ++ String.join (ks.map u.render))
    ?nil ?node ?dropped ?kept
  case nil =>
    intro o
    simp [leadText]
  case node =>
    intro o c cs ds ks hnode hc hc' hslot _ _ _ ihbelow ihrest
    have hbelow : String.join ((t.slotOf c).children.map t.render) =
        String.join (ds.map u.render) := by simpa using ihbelow
    have hrest : String.join (cs.map t.render) = String.join (ks.map u.render) := by
      simpa using ihrest
    have hc : t.render c = u.render c := by
      rw [hl.render_eq hc, hu.render_eq hc', hslot, hbelow]
    rw [List.map_cons, String.join_cons, List.map_cons, String.join_cons, hc, hrest, leadText,
      isText_eq_false.1 hnode]
    simp
  case dropped =>
    intro o c s cs ks hc htext hs _ _ ih
    rw [List.map_cons, String.join_cons, ih, hl.render_text hc htext, leadText, htext]
    rcases hs with rfl | ho
    · cases o <;> simp
    · simp [ho, String.append_assoc]
  case kept =>
    intro c s cs ks hc hc' htext _ hslot _ _ ih
    have htext' : (u.slotOf c).marker.text? = some (s ++ t.leadText cs) := by rw [hslot]; rfl
    rw [List.map_cons, String.join_cons, ih, hl.render_text hc htext, List.map_cons,
      String.join_cons, hu.render_text hc' htext']
    simp [String.append_assoc]

/-- No text that stays is empty or next to another one. -/
theorem tidy : u.Tidy ks ∧ (o → ∀ k ∈ ks.head?, u.isText k = false) := by
  -- Behind an open text the next one that stays is no text, or it would have been taken over
  refine hj.induction (motive := fun o _ ks =>
    u.Tidy ks ∧ (o → ∀ k ∈ ks.head?, u.isText k = false))
    ?nil ?node ?dropped ?kept
  case nil => exact fun o => ⟨⟨by simp, .nil⟩, by simp⟩
  case node =>
    intro o c cs ds ks hnode _ _ hslot _ _ _ _ ihrest
    have hnode' : u.isText c = false := by
      rw [isText, hslot]
      exact hnode
    refine ⟨⟨fun x hx => ?_, ?_⟩, fun _ k hk => ?_⟩
    · rcases List.mem_cons.1 hx with rfl | hx
      · rw [isText_eq_false.1 hnode']
        simp
      · exact ihrest.1.nonempty x hx
    · exact ihrest.1.apart.cons fun k _ => by simp [hnode']
    · obtain rfl : c = k := by simpa using hk
      exact hnode'
  case dropped => exact fun o c s cs ks _ _ _ _ _ ih => ih
  case kept =>
    intro c s cs ks _ _ _ hs hslot _ _ ih
    refine ⟨⟨fun x hx => ?_, ?_⟩, by simp⟩
    · rcases List.mem_cons.1 hx with rfl | hx
      · rw [hslot]
        simpa [Marker.text?] using fun h => absurd h hs
      · exact ih.1.nonempty x hx
    · exact ih.1.apart.cons fun k hk => by simp [ih.2 rfl k hk]

end Joins

namespace Joined

/-! ## A row of texts -/

/-- Texts that are empty, or that a text before them takes over, are all dropped. -/
theorem dropAll (hj : Joined t u o (rs ++ bs) ks)
    (hrs : ∀ r ∈ rs, ∃ s, (t.slotOf r).marker.text? = some s ∧ (s = "" ∨ o)) :
    Joined t u o bs ks ∧ ∀ r ∈ rs, u.slotOf r = Slot.cleared (t.slotOf r) := by
  induction rs with
  | nil => exact ⟨hj, by simp⟩
  | cons r rs ih =>
    obtain ⟨⟨s, htext, hs⟩, hrs⟩ := List.forall_mem_cons.1 hrs
    cases hj with
    | node hnode => simp [hnode] at htext
    | dropped _ _ hslot hrest =>
      obtain ⟨hj, hcleared⟩ := ih hrest hrs
      exact ⟨hj, List.forall_mem_cons.2 ⟨hslot, hcleared⟩⟩
    | kept htext' hs' =>
      obtain rfl : s = _ := Option.some.inj (htext.symm.trans htext')
      simp [hs'] at hs

/-- No text is open behind a node of another kind. -/
theorem skip (hj : Joined t u o (as ++ cs) ks) (hlast : ∀ a ∈ as.getLast?, t.isText a = false)
    (ho : as = [] → o = false) : ∃ before rest, ks = before ++ rest ∧ Joined t u false cs rest := by
  induction as generalizing o ks with
  | nil =>
    obtain rfl := ho rfl
    exact ⟨[], ks, rfl, hj⟩
  | cons a as ih =>
    have hlast' : ∀ b ∈ as.getLast?, t.isText b = false := by
      intro b hb
      apply hlast b
      rw [List.getLast?_cons, Option.mem_def.1 hb]
      rfl
    -- A text is not the last one of them
    have hmore {s : String} (htext : (t.slotOf a).marker.text? = some s) : as ≠ [] := by
      rintro rfl
      have hnode := hlast a rfl
      rw [isText_iff.2 ⟨s, htext⟩] at hnode
      simp at hnode
    cases hj with
    | node _ _ _ hrest =>
      obtain ⟨before, rest, rfl, hj⟩ := ih hrest hlast' fun _ => rfl
      exact ⟨a :: before, rest, rfl, hj⟩
    | dropped htext _ _ hrest => exact ih hrest hlast' fun hnil => absurd hnil (hmore htext)
    | kept htext _ _ hrest =>
      obtain ⟨before, rest, rfl, hj⟩ := ih hrest hlast' fun hnil => absurd hnil (hmore htext)
      exact ⟨a :: before, rest, rfl, hj⟩

end Joined

/-- What texts show that stand before a node of another kind. -/
theorem WellLinked.leadText_append (hl : t.WellLinked) (hrs : ∀ r ∈ rs, t.InUse r ∧ t.isText r)
    (hbs : ∀ b ∈ bs.head?, t.isText b = false) :
    t.leadText (rs ++ bs) = String.join (rs.map t.render) := by
  induction rs with
  | nil =>
    cases bs with
    | nil => rfl
    | cons b bs =>
      have hnode := isText_eq_false.1 (hbs b rfl)
      simp [leadText, hnode]
  | cons r rs ih =>
    obtain ⟨⟨hr, htext⟩, hrs⟩ := List.forall_mem_cons.1 hrs
    obtain ⟨s, hs⟩ := isText_iff.1 htext
    rw [List.cons_append, leadText, hs, List.map_cons, String.join_cons, hl.render_text hr hs]
    exact congrArg (s ++ ·) (ih hrs)

theorem join_eq_empty {ss : List String} (h : ∀ s ∈ ss, s = "") : String.join ss = "" := by
  induction ss with
  | nil => rfl
  | cons s ss ih =>
    obtain ⟨rfl, hss⟩ := List.forall_mem_cons.1 h
    rw [String.join_cons, ih hss]
    rfl

/-- What has become of the texts of a row: all that they show is in the first one that is not empty,
and the others have been cleared. -/
theorem Joined.row (hl : t.WellLinked) (hj : Joined t u false (as ++ run ++ bs) ks)
    (hr : t.IsRun as run bs) (hrun : ∀ c ∈ run, t.InUse c) (heq : run = es ++ k :: rs)
    (hes : ∀ e ∈ es, t.render e = "") (hk : t.render k ≠ "") :
    k ∈ ks ∧ u.slotOf k = { t.slotOf k with marker := .text (String.join (run.map t.render)) } ∧
      ∀ x ∈ es ++ rs, u.slotOf x = Slot.cleared (t.slotOf x) := by
  rw [List.append_assoc] at hj
  obtain ⟨before, rest, hks, hrest⟩ := hj.skip hr.before fun _ => rfl
  subst heq hks
  have htexts {x : Handle} (hx : x ∈ es ++ k :: rs) :
      ∃ s, (t.slotOf x).marker.text? = some s ∧ t.render x = s := by
    obtain ⟨s, hs⟩ := isText_iff.1 (hr.texts x hx)
    exact ⟨s, hs, hl.render_text (hrun x hx) hs⟩
  rw [List.append_assoc] at hrest
  obtain ⟨hstart, hclearedBefore⟩ := hrest.dropAll fun e he => by
    obtain ⟨s, hs, hrender⟩ := htexts (List.mem_append_left _ he)
    exact ⟨s, hs, Or.inl (hrender.symm.trans (hes e he))⟩
  obtain ⟨s, htext, hrender⟩ := htexts (List.mem_append_right es (List.mem_cons_self ..))
  -- No text is open before the row, so its first text that is not empty is kept
  cases hstart with
  | node hnode => simp [hnode] at htext
  | dropped htext' hs' =>
    obtain rfl := Option.some.inj (htext.symm.trans htext')
    simp [← hrender, hk] at hs'
  | @kept _ s' _ ks htext' _ hslot hafter =>
    obtain rfl : s = s' := Option.some.inj (htext.symm.trans htext')
    have hbehind {x : Handle} (hx : x ∈ rs) : x ∈ es ++ k :: rs := by simp [hx]
    have hafter : Joined t u true (rs ++ bs) ks := hafter
    obtain ⟨-, hclearedBehind⟩ := hafter.dropAll fun r hr' => by
      obtain ⟨s, hs, -⟩ := htexts (hbehind hr')
      exact ⟨s, hs, Or.inr rfl⟩
    have hlead : t.leadText (rs ++ bs) = String.join (rs.map t.render) :=
      hl.leadText_append (fun r hr' => ⟨hrun r (hbehind hr'), hr.texts r (hbehind hr')⟩) hr.behind
    have hjoin : String.join ((es ++ k :: rs).map t.render) = s ++ t.leadText (rs ++ bs) := by
      have hempty : String.join (es.map t.render) = "" := join_eq_empty (by simpa using hes)
      rw [List.map_append, String.join_append, hempty, List.map_cons, String.join_cons, hrender, hlead]
      simp
    refine ⟨List.mem_append_right _ (List.mem_cons_self ..), by rw [hjoin]; exact hslot, fun x hx => ?_⟩
    exact (List.mem_append.1 hx).elim (hclearedBefore x) (hclearedBehind x)

theorem Joined.row_empty (hl : t.WellLinked) (hj : Joined t u false (as ++ run ++ bs) ks)
    (hr : t.IsRun as run bs) (hrun : ∀ c ∈ run, t.InUse c) (hempty : ∀ c ∈ run, t.render c = "") :
    ∀ c ∈ run, u.slotOf c = Slot.cleared (t.slotOf c) := by
  rw [List.append_assoc] at hj
  obtain ⟨_, _, -, hrest⟩ := hj.skip hr.before fun _ => rfl
  refine (hrest.dropAll fun c hc => ?_).2
  obtain ⟨s, hs⟩ := isText_iff.1 (hr.texts c hc)
  exact ⟨s, hs, Or.inl ((hl.render_text (hrun c hc) hs).symm.trans (hempty c hc))⟩

/-! ## A node that has been brought into order -/

/-- The node is no longer there, and its slot may be taken again. -/
def IsReleased (t : Tree) (x : Handle) : Prop := ¬t.owns x ∧ x.slot ∈ t.free

/-- What has become of a row of texts below `p`: the first one that is not empty shows all that they
have shown, and the others have been released. -/
structure Merged (t : Tree) (p : Handle) (run : List Handle) (u : Tree) : Prop where
  kept : ∀ es k rs, run = es ++ k :: rs → (∀ e ∈ es, t.render e = "") → t.render k ≠ "" →
    k ∈ u.children p ∧ u.marker? k = some (.text (String.join (run.map t.render))) ∧
      ∀ x ∈ es ++ rs, u.IsReleased x
  empty : (∀ c ∈ run, t.render c = "") → ∀ c ∈ run, u.IsReleased c

/-- Among the children of a node from place `start` on, and below them, all is tidy. -/
structure TidyFrom (t : Tree) (h : Handle) (start : Nat) : Prop where
  children : t.Tidy ((t.children h).drop start)
  below : ∀ x ∈ ((t.children h).drop start).flatMap t.walk, t.isText x = false →
    t.Tidy (t.children x)

/-- The children of `p` from place `start` on have become `ks`, and all below them has been brought
into order. -/
structure JoinedAt (t u : Tree) (p : Handle) (start : Nat) (ks : List Handle) : Prop where
  inUse : t.InUse p
  stays : u.InUse p
  slot : u.slotOf p = { t.slotOf p with children := (t.slotOf p).children.take start ++ ks }
  joined : Joined t u false ((t.slotOf p).children.drop start) ks
  childless : t.Childless (t.walk p)

theorem Trims.inUse_of_generation {gone : List Nat} (hg : Trims t gone u) (hx : t.InUse x)
    (hsame : (u.slotOf x).generation = (t.slotOf x).generation) : u.InUse x := by
  refine hg.inUse_iff.2 ⟨hx, fun hgone => ?_⟩
  have hnext := hg.generation x
  rw [if_pos hgone, hsame] at hnext
  exact succ_ne_self _ hnext.symm

theorem Trims.isReleased_of_not_inUse {gone : List Nat} (hg : Trims t gone u) (hx : t.InUse x)
    (hnot : ¬u.InUse x) : u.IsReleased x := by
  have hgone : x.slot ∈ gone := Decidable.of_not_not fun h => hnot (hg.inUse_iff.2 ⟨hx, h⟩)
  refine ⟨fun ho => ?_, by rw [hg.free]; exact List.mem_append_left _ hgone⟩
  have hnext := hg.generation x
  rw [if_pos hgone, (owns_iff.1 ho).2.2, (owns_iff.1 hx.owned).2.2] at hnext
  exact succ_ne_self _ hnext.symm

theorem Trims.isReleased {gone : List Nat} (hg : Trims t gone u) (hx : t.InUse x)
    (hslot : u.slotOf x = Slot.cleared (t.slotOf x)) : u.IsReleased x := by
  refine hg.isReleased_of_not_inUse hx fun hxu => ?_
  have hnext : (u.slotOf x).generation = (t.slotOf x).generation + 1 := by
    rw [hslot]
    rfl
  rw [(owns_iff.1 hxu.owned).2.2, (owns_iff.1 hx.owned).2.2] at hnext
  exact succ_ne_self _ hnext.symm

namespace JoinedAt

variable {p : Handle} {start : Nat}

theorem children_eq (hp : JoinedAt t u p start ks) :
    u.children p = (t.children p).take start ++ ks := by
  rw [WellLinked.children_eq hp.stays, WellLinked.children_eq hp.inUse, hp.slot]

theorem inUse_child (hp : JoinedAt t u p start ks) (hl : t.WellLinked)
    (hc : c ∈ (t.slotOf p).children.drop start) : t.InUse c :=
  (Linked.child hl hp.inUse (List.mem_of_mem_drop hc)).1

theorem inUse_kept (hp : JoinedAt t u p start ks) (hu : u.WellLinked) (hk : k ∈ ks) : u.InUse k := by
  refine (Linked.child hu hp.stays ?_).1
  rw [hp.slot]
  exact List.mem_append_right _ hk

theorem childless_below (hp : JoinedAt t u p start ks) (hl : t.WellLinked) :
    t.Childless (((t.slotOf p).children.drop start).flatMap t.walk) := by
  intro x hx
  obtain ⟨c, hc, hxc⟩ := List.mem_flatMap.1 hx
  exact hp.childless x ((hl.mem_walk_cons hp.inUse).2 (Or.inr ⟨c, List.mem_of_mem_drop hc, hxc⟩))

theorem joins (hp : JoinedAt t u p start ks) (hl : t.WellLinked) (hu : u.WellLinked) :
    Joins t u false ((t.slotOf p).children.drop start) ks :=
  ⟨hl, hu, hp.joined, fun _ hc => hp.inUse_child hl hc, fun _ hk => hp.inUse_kept hu hk,
    hp.childless_below hl⟩

/-- A node of another kind below the children that are looked at has been brought into order too. -/
theorem below (hp : JoinedAt t u p start ks) (hl : t.WellLinked) (hu : u.WellLinked)
    (hx : x ∈ ((t.slotOf p).children.drop start).flatMap t.walk) (hnode : t.isText x = false) :
    ∃ ds, JoinedAt t u x 0 ds := by
  obtain ⟨hstays, hslot, hjoined⟩ := (hp.joins hl hu).at_node hx hnode
  obtain ⟨c, hc, hxc⟩ := List.mem_flatMap.1 hx
  have hcu := hp.inUse_child hl hc
  obtain ⟨hxu, habove⟩ := (hl.mem_walk_iff hcu).1 hxc
  refine ⟨_, hxu, hstays, hslot, hjoined, fun y hy => ?_⟩
  obtain ⟨hyu, hbelow⟩ := (hl.mem_walk_iff hxu).1 hy
  apply hp.childless_below hl
  exact List.mem_flatMap.2 ⟨c, hc, (hl.mem_walk_iff hcu).2
    ⟨hyu, Linked.above_trans hl hyu hbelow habove⟩⟩

theorem tidy (hp : JoinedAt t u p start ks) (hl : t.WellLinked) (hu : u.WellLinked) : u.Tidy ks :=
  (hp.joins hl hu).tidy.1

/-- The node shows what it has shown if the children before place `start` do. -/
theorem render_eq (hp : JoinedAt t u p start ks) (hl : t.WellLinked) (hu : u.WellLinked)
    (hbefore : ∀ a ∈ (t.slotOf p).children.take start, u.render a = t.render a) :
    u.render p = t.render p := by
  have hshown := (hp.joins hl hu).shown
  have hjoin : String.join (((t.slotOf p).children.take start ++ ks).map u.render) =
      String.join ((t.slotOf p).children.map t.render) := by
    calc String.join (((t.slotOf p).children.take start ++ ks).map u.render)
        = String.join (((t.slotOf p).children.take start).map t.render) ++
            String.join (ks.map u.render) := by
          rw [List.map_append, String.join_append, List.map_congr_left hbefore]
      _ = String.join (((t.slotOf p).children.take start).map t.render) ++
            String.join (((t.slotOf p).children.drop start).map t.render) := by
          rw [hshown]
          simp
      _ = String.join ((t.slotOf p).children.map t.render) := by
          rw [← String.join_append, ← List.map_append, List.take_append_drop]
  rw [hu.render_eq hp.stays, hl.render_eq hp.inUse, hp.slot, hjoin]

/-- Each row of texts among the children that are looked at has been merged. -/
theorem merged {gone : List Nat} (hp : JoinedAt t u p start ks) (hl : t.WellLinked)
    (hu : u.WellLinked) (hg : Trims t gone u)
    (hrow : (t.children p).drop start = as ++ run ++ bs) (hr : t.IsRun as run bs) :
    Merged t p run u := by
  rw [WellLinked.children_eq hp.inUse] at hrow
  have hrun : ∀ c ∈ run, t.InUse c := fun c hc => hp.inUse_child hl (by rw [hrow]; simp [hc])
  -- In a run the first text that is not empty takes up all the others
  have hj := hp.joined
  rw [hrow] at hj
  constructor
  case kept =>
    intro es k rs heq hes hk
    obtain ⟨hmem, hslot, hcleared⟩ := hj.row hl hr hrun heq hes hk
    refine ⟨?_, ?_, fun x hx => hg.isReleased (hrun x ?_) (hcleared x hx)⟩
    · rw [hp.children_eq]
      exact List.mem_append_right _ hmem
    · rw [marker?, if_pos (hp.inUse_kept hu hmem).owned, hslot]
    · rw [heq]
      rcases List.mem_append.1 hx with hx | hx <;> simp [hx]
  case empty =>
    intro hempty c hc
    exact hg.isReleased (hrun c hc) (hj.row_empty hl hr hrun hempty c hc)

/-- The children before place `start` are those that there were, and the others come behind them. -/
theorem take_drop_children (hp : JoinedAt t u p start ks) :
    (u.children p).take start = (t.children p).take start ∧ (u.children p).drop start = ks := by
  rw [hp.children_eq, WellLinked.children_eq hp.inUse]
  rcases Nat.le_total start (t.slotOf p).children.length with hle | hge
  · have hlength : ((t.slotOf p).children.take start).length = start := by
      rw [List.length_take]
      omega
    exact ⟨List.take_left' hlength, List.drop_left' hlength⟩
  · -- There is nothing from there on
    have hj := hp.joined
    rw [List.drop_eq_nil_of_le hge] at hj
    cases hj
    simp [hge]

/-- All is tidy below. -/
theorem tidyFrom (hp : JoinedAt t u p start ks) (hl : t.WellLinked) (hu : u.WellLinked) :
    u.TidyFrom p start := by
  have hdrop := hp.take_drop_children.2
  constructor
  case children =>
    rw [hdrop]
    exact hp.tidy hl hu
  case below =>
    intro x hx hnode
    rw [hdrop] at hx
    -- A node of another kind has been one before
    have hmem : x ∈ (ks.flatMap u.walk).filter (! u.isText ·) :=
      List.mem_filter.2 ⟨hx, by simp [hnode]⟩
    rw [(hp.joins hl hu).nodes] at hmem
    obtain ⟨hx, hnode⟩ := List.mem_filter.1 hmem
    obtain ⟨ds, hd⟩ := hp.below hl hu hx (by simpa using hnode)
    rw [hd.children_eq, List.take_zero, List.nil_append]
    exact hd.tidy hl hu

end JoinedAt

/-! ## Nothing left to do -/

theorem setChildren_self (t : Tree) (h : Handle) : t.setChildren h (t.slotOf h).children = t :=
  modifySlot_self rfl

/-- Behind no open text a child that is not an empty text is kept as it is. -/
theorem normalizeChild_tidy {inside : Handle → Edit Unit} {start : Nat}
    (hinside : t.isText c = false → (inside c).perform t = (.ok (), t))
    (hne : (t.slotOf c).marker.text? ≠ some "")
    (hopen : (openText t start kept).isSome → t.isText c = false) :
    (normalizeChild inside start kept c).perform t = (.ok (kept ++ [c]), t) := by
  cases htext : (t.slotOf c).marker.text? with
  | none => simp [normalizeChild, htext, hinside (isText_eq_false.2 htext)]
  | some s =>
    have hs : s ≠ "" := fun heq => hne (heq ▸ htext)
    have hnone : openText t start kept = none := by
      by_contra hsome
      have hnode := hopen (Option.isSome_iff_ne_none.2 hsome)
      rw [isText_iff.2 ⟨s, htext⟩] at hnode
      simp at hnode
    unfold openText at hnone
    simp [normalizeChild, htext, hs, hnone]

/-- In what is tidy nothing is changed, child by child. -/
theorem normalizeChildren_tidy {inside : Handle → Edit Unit}
    (hinside : ∀ c ∈ cs, t.isText c = false → (inside c).perform t = (.ok (), t)) {start : Nat}
    (hstart : start ≤ kept.length) (htidy : t.Tidy cs)
    (hopen : (openText t start kept).isSome → ∀ c ∈ cs.head?, t.isText c = false) :
    (cs.foldlM (normalizeChild inside start) kept).perform t = (.ok (kept ++ cs), t) := by
  induction cs generalizing kept with
  | nil => simp
  | cons c cs ih =>
    obtain ⟨hc, hinside⟩ := List.forall_mem_cons.1 hinside
    obtain ⟨hne, hnonempty⟩ := List.forall_mem_cons.1 htidy.nonempty
    have hchain := List.isChain_cons.1 htidy.apart
    have hstart' : start ≤ (kept ++ [c]).length :=
      Nat.le_trans hstart (List.sublist_append_left kept [c]).length_le
    -- Behind a text there stands no text, so nothing is joined to it
    have hopen' : (openText t start (kept ++ [c])).isSome →
        ∀ d ∈ cs.head?, t.isText d = false := by
      rw [openText_concat hstart]
      intro hsome d hd
      have hc : t.isText c := by
        by_contra hnot
        have hnone : (t.slotOf c).marker.text?.isSome = false := by simpa [isText] using hnot
        simp [hnone] at hsome
      simpa [hc] using hchain.1 d hd
    rw [List.foldlM_cons, Edit.perform_bind,
      normalizeChild_tidy hc hne fun hsome => hopen hsome c rfl]
    simpa using ih hinside hstart' ⟨hnonempty, hchain.2⟩ hopen'

/-- What is tidy stays as it is. -/
theorem normalizeFrom_tidy (hl : t.WellLinked) (fuel : Nat) {start : Nat} (ho : t.owns h)
    (htidy : t.TidyFrom h start) : (normalizeFrom fuel h start).perform t = (.ok (), t) := by
  induction fuel generalizing h start with
  | zero => rfl
  | succ fuel ih =>
    obtain ⟨hchildren, hbelow⟩ := htidy
    rw [children, if_pos ho] at hchildren hbelow
    -- What is below a child is tidy, so the child is left as it is
    have hinside : ∀ c ∈ (t.slotOf h).children.drop start, t.isText c = false →
        (normalizeFrom fuel c 0).perform t = (.ok (), t) := by
      intro c hc hnode
      have hc' : c ∈ t.children h := by
        rw [children, if_pos ho]
        exact List.mem_of_mem_drop hc
      have hh := hl.inUse_of_child hc'
      rw [WellLinked.children_eq hh] at hc'
      have hcu := (Linked.child hl hh hc').1
      have hself : c ∈ ((t.slotOf h).children.drop start).flatMap t.walk :=
        List.mem_flatMap.2 ⟨c, hc, hl.mem_walk_self hcu⟩
      apply ih hcu.owned
      refine ⟨hbelow c hself hnode, fun x hx => hbelow x ?_⟩
      rw [List.drop_zero, WellLinked.children_eq hcu] at hx
      refine List.mem_flatMap.2 ⟨c, hc, ?_⟩
      rw [hl.walk_eq hcu]
      exact List.mem_cons_of_mem _ hx
    have hstart : min start (t.slotOf h).children.length ≤
        ((t.slotOf h).children.take start).length := Nat.le_of_eq List.length_take.symm
    have hperform := normalizeChildren_tidy hinside hstart hchildren (by simp [openText_take])
    rw [normalizeFrom_perform ho hperform, List.take_append_drop, setChildren_self]

/-! ## Normalizing a node -/

/-- What `normalize h start` makes of `t`. -/
structure Normalized (t : Tree) (h : Handle) (start : Nat) (u : Tree) : Prop where
  wellLinked : u.WellLinked
  /-- No node is moved. -/
  order : (u.walk h).Sublist (t.walk h)
  nodes : (u.walk h).filter (! u.isText ·) = (t.walk h).filter (! t.isText ·)
  same : ∀ x ∈ t.walk h, t.isText x = false →
    u.marker? x = t.marker? x ∧ u.render x = t.render x
  fixed : (u.children h).take start = (t.children h).take start
  tidy : u.TidyFrom h start
  merged : ∀ as run bs, (t.children h).drop start = as ++ run ++ bs → t.IsRun as run bs →
    Merged t h run u
  merged_below : ∀ x ∈ ((t.children h).drop start).flatMap t.walk, t.isText x = false →
    ∀ as run bs, t.children x = as ++ run ++ bs → t.IsRun as run bs → Merged t x run u
  released : ∀ x ∈ t.walk h, x ∉ u.walk h → u.IsReleased x
  outside : ∀ x, t.InUse x → x ∉ h :: ((t.children h).drop start).flatMap t.walk →
    u.InUse x ∧ u.slotOf x = t.slotOf x

theorem exists_joinedAt (hl : t.WellLinked) (hh : t.InUse h) (hleaves : t.Childless (t.walk h))
    (start : Nat) :
    ∃ u gone ks, (normalize h start).perform t = (.ok (), u) ∧ u.WellLinked ∧ Trims t gone u ∧
      JoinedAt t u h start ks ∧
      ∀ x, t.InUse x → x ∉ h :: ((t.slotOf h).children.drop start).flatMap t.walk →
        u.InUse x ∧ u.slotOf x = t.slotOf x := by
  obtain ⟨u, gone, hperform, hu, hg⟩ := hl.normalize hh start
  obtain ⟨u', ks, hperform', hchanges, hslot, hjoined⟩ := normalizeFrom_joined hl hh
    (Nat.le_add_right t.capacity _) hleaves start ⟨rfl, rfl, fun _ _ => rfl⟩
  -- Two accounts of one run: one tells of the links, the other of the texts
  obtain rfl : u = u' := by
    have heq : (normalize h start).perform t = (normalizeFrom t.capacity h start).perform t := by
      simp [normalize]
    rw [hperform, hperform'] at heq
    exact (Prod.mk.inj heq).2
  refine ⟨u, gone, ks, hperform, hu, hg,
    ⟨hh, hg.inUse_of_generation hh (by rw [hslot]), hslot, hjoined, hleaves⟩, fun x hx hnot => ?_⟩
  -- Only slots at the node and below it have changed
  have hsame : u.slotOf x = t.slotOf x := by
    refine hchanges.slot_of_ne fun y hy => hx.slot_ne ?_ fun heq => hnot (heq ▸ hy)
    rcases List.mem_cons.1 hy with rfl | hy
    · exact hh
    · obtain ⟨c, hc, hyc⟩ := List.mem_flatMap.1 hy
      exact ((hl.mem_walk_iff (Linked.child hl hh (List.mem_of_mem_drop hc)).1).1 hyc).1
  exact ⟨hg.inUse_of_generation hx (by rw [hsame]), hsame⟩

/-- What is below the children before place `start` is not below those that are looked at. -/
theorem WellLinked.not_mem_drop (hl : t.WellLinked) (hh : t.InUse h) {start : Nat}
    (ha : c ∈ (t.slotOf h).children.take start) (hx : x ∈ t.walk c) :
    x ∉ h :: ((t.slotOf h).children.drop start).flatMap t.walk := by
  have hc := List.mem_of_mem_take ha
  intro hmem
  rcases List.mem_cons.1 hmem with rfl | hmem
  · exact hl.not_mem_walk_child hh hc hx
  · have hk := hl.siblings hh
    rw [← List.take_append_drop start (t.slotOf h).children] at hk
    exact hk.slot_ne hl hh (List.mem_flatMap.2 ⟨c, ha, hx⟩) hmem rfl

/-- Where no slot in a walk is changed the walk is the same, and so is all that its nodes show. -/
theorem WellLinked.same_below (hl : t.WellLinked) (hu : u.WellLinked) (hc : t.InUse c)
    (hsame : ∀ x ∈ t.walk c, u.InUse x ∧ u.slotOf x = t.slotOf x) :
    u.walk c = t.walk c ∧
      ∀ x ∈ t.walk c, u.marker? x = t.marker? x ∧ u.render x = t.render x := by
  refine ⟨hl.walk_congr hu hc fun x hx => ?_, fun x hx => ⟨?_, ?_⟩⟩
  · obtain ⟨hstays, heq⟩ := hsame x hx
    exact ⟨hstays, by rw [heq]⟩
  · obtain ⟨hstays, heq⟩ := hsame x hx
    rw [marker?, marker?, if_pos hstays.owned, if_pos ((hl.mem_walk_iff hc).1 hx).1.owned, heq]
  · obtain ⟨hxu, habove⟩ := (hl.mem_walk_iff hc).1 hx
    refine hl.render_congr hu hxu fun y hy => ?_
    obtain ⟨hyu, hbelow⟩ := (hl.mem_walk_iff hxu).1 hy
    obtain ⟨hstays, heq⟩ := hsame y
      ((hl.mem_walk_iff hc).2 ⟨hyu, Linked.above_trans hl hyu hbelow habove⟩)
    exact ⟨hstays, by rw [heq], by rw [heq]⟩

namespace JoinedAt

section

variable {start : Nat} (hp : JoinedAt t u h start ks) (hl : t.WellLinked) (hu : u.WellLinked)
  (houtside : ∀ x, t.InUse x → x ∉ h :: ((t.slotOf h).children.drop start).flatMap t.walk →
    u.InUse x ∧ u.slotOf x = t.slotOf x)

include hp hl hu houtside

/-- The children before place `start` and all that is below them are as they were. -/
theorem before (ha : c ∈ (t.slotOf h).children.take start) :
    (∀ x ∈ t.walk c, u.slotOf x = t.slotOf x) ∧ u.walk c = t.walk c ∧
      ∀ x ∈ t.walk c, u.marker? x = t.marker? x ∧ u.render x = t.render x := by
  have hc := (Linked.child hl hp.inUse (List.mem_of_mem_take ha)).1
  have hsame : ∀ x ∈ t.walk c, u.InUse x ∧ u.slotOf x = t.slotOf x := fun x hx =>
    houtside x ((hl.mem_walk_iff hc).1 hx).1 (hl.not_mem_drop hp.inUse ha hx)
  exact ⟨fun x hx => (hsame x hx).2, hl.same_below hu hc hsame⟩

/-- The walk below the node, with what is below the children before place `start` first. -/
theorem walk_parts :
    t.walk h = h :: (((t.slotOf h).children.take start).flatMap t.walk ++
      ((t.slotOf h).children.drop start).flatMap t.walk) ∧
    u.walk h = h :: (((t.slotOf h).children.take start).flatMap t.walk ++ ks.flatMap u.walk) := by
  constructor
  · rw [← List.flatMap_append, List.take_append_drop]
    exact hl.walk_eq hp.inUse
  · have hbefore : ((t.slotOf h).children.take start).flatMap u.walk =
        ((t.slotOf h).children.take start).flatMap t.walk := by
      rw [List.flatMap_def, List.flatMap_def]
      exact congrArg List.flatten
        (List.map_congr_left fun a ha => (hp.before hl hu houtside ha).2.1)
    rw [hu.walk_eq hp.stays, hp.slot, List.flatMap_append, hbefore]

theorem order : (u.walk h).Sublist (t.walk h) := by
  obtain ⟨hwalk, hwalk'⟩ := hp.walk_parts hl hu houtside
  have hbelow := (hp.joins hl hu).sublist
  rw [hwalk, hwalk']
  exact ((List.Sublist.refl _).append hbelow).cons_cons h

theorem nodes : (u.walk h).filter (! u.isText ·) = (t.walk h).filter (! t.isText ·) := by
  obtain ⟨hwalk, hwalk'⟩ := hp.walk_parts hl hu houtside
  have hself : u.isText h = t.isText h := by rw [isText, isText, hp.slot]
  have hfirst : (((t.slotOf h).children.take start).flatMap t.walk).filter (! u.isText ·) =
      (((t.slotOf h).children.take start).flatMap t.walk).filter (! t.isText ·) := by
    refine List.filter_congr fun x hx => ?_
    obtain ⟨a, ha, hxa⟩ := List.mem_flatMap.1 hx
    rw [isText, isText, (hp.before hl hu houtside ha).1 x hxa]
  have hbelow := (hp.joins hl hu).nodes
  rw [hwalk, hwalk', List.filter_cons, List.filter_cons, hself, List.filter_append,
    List.filter_append, hfirst, hbelow]

/-- A node of another kind stays what it is and shows what it has shown. -/
theorem same (hx : x ∈ t.walk h) (hnode : t.isText x = false) :
    u.marker? x = t.marker? x ∧ u.render x = t.render x := by
  rw [(hp.walk_parts hl hu houtside).1, List.mem_cons, List.mem_append] at hx
  have hmarker {ds : List Handle} {start : Nat} (hd : JoinedAt t u x start ds) :
      u.marker? x = t.marker? x := by
    rw [marker?, marker?, if_pos hd.stays.owned, if_pos hd.inUse.owned, hd.slot]
  rcases hx with rfl | hx | hx
  · refine ⟨hmarker hp, hp.render_eq hl hu fun a ha => ?_⟩
    have hau := (Linked.child hl hp.inUse (List.mem_of_mem_take ha)).1
    exact ((hp.before hl hu houtside ha).2.2 a (hl.mem_walk_self hau)).2
  · obtain ⟨a, ha, hxa⟩ := List.mem_flatMap.1 hx
    exact (hp.before hl hu houtside ha).2.2 x hxa
  · obtain ⟨ds, hd⟩ := hp.below hl hu hx hnode
    exact ⟨hmarker hd, hd.render_eq hl hu (by simp)⟩

/-- A node that does not stay has been released. -/
theorem released {gone : List Nat} (hg : Trims t gone u) (hx : x ∈ t.walk h)
    (hnot : x ∉ u.walk h) : u.IsReleased x := by
  obtain ⟨hwalk, hwalk'⟩ := hp.walk_parts hl hu houtside
  rw [hwalk, List.mem_cons, List.mem_append] at hx
  rw [hwalk', List.mem_cons, List.mem_append, not_or, not_or] at hnot
  have hx := (hx.resolve_left hnot.1).resolve_left hnot.2.1
  obtain ⟨c, hc, hxc⟩ := List.mem_flatMap.1 hx
  have hxu := ((hl.mem_walk_iff (hp.inUse_child hl hc)).1 hxc).1
  have hcleared := (hp.joins hl hu).stays_or_cleared hx
  exact hg.isReleased hxu (hcleared.resolve_left hnot.2.2).2

end

end JoinedAt

theorem exists_normalized (hl : t.WellLinked) (hh : t.InUse h) (hleaves : t.Childless (t.walk h))
    (start : Nat) :
    ∃ u, (normalize h start).perform t = (.ok (), u) ∧ u.owns h ∧ Normalized t h start u := by
  obtain ⟨u, gone, ks, hperform, hu, hg, hp, houtside⟩ := exists_joinedAt hl hh hleaves start
  have hchildren := WellLinked.children_eq hh
  refine ⟨u, hperform, hp.stays.owned, ?_⟩
  -- Each part is told for the joined row, and those below by the same lemmas
  constructor
  case wellLinked => exact hu
  case order => exact hp.order hl hu houtside
  case nodes => exact hp.nodes hl hu houtside
  case same => exact fun x hx hnode => hp.same hl hu houtside hx hnode
  case fixed => exact hp.take_drop_children.1
  case tidy => exact hp.tidyFrom hl hu
  case merged => exact fun as run bs hrow hr => hp.merged hl hu hg hrow hr
  case merged_below =>
    intro x hx hnode as run bs hrow hr
    rw [hchildren] at hx
    obtain ⟨ds, hd⟩ := hp.below hl hu hx hnode
    exact hd.merged hl hu hg hrow hr
  case released => exact fun x hx hnot => hp.released hl hu houtside hg hx hnot
  case outside =>
    intro x hx hnot
    rw [hchildren] at hnot
    exact houtside x hx hnot

/-- Where a node has no children nothing is to be done. -/
theorem normalized_of_no_children (hl : t.WellLinked) (hnil : t.children h = []) (start : Nat) :
    Normalized t h start t := by
  constructor
  case wellLinked => exact hl
  case order => exact .refl _
  case nodes => rfl
  case same => exact fun _ _ _ => ⟨rfl, rfl⟩
  case fixed => rfl
  case tidy =>
    constructor
    · simpa [hnil] using (⟨by simp, .nil⟩ : t.Tidy [])
    · simp [hnil]
  case merged =>
    intro as run bs hrow _
    have hrun : run = [] := by simp_all
    subst hrun
    exact ⟨by simp, by simp⟩
  case merged_below => simp [hnil]
  case released => exact fun x hx hnot => absurd hx hnot
  case outside => exact fun x hx _ => ⟨hx, rfl⟩

/-- In a sound tree where texts have no children, normalizing a node succeeds from any place on, and
after it there is nothing left to do. -/
theorem normalize_normalized (hl : t.WellLinked) (ho : t.owns h)
    (hleaves : ∀ x ∈ t.walk h, t.isText x → t.children x = []) (start : Nat) :
    ∃ u, (normalize h start).perform t = (.ok (), u) ∧ Normalized t h start u ∧
      (normalize h start).perform u = (.ok (), u) := by
  have hagain {u : Tree} (ho : u.owns h) (hn : Normalized t h start u) :
      (normalize h start).perform u = (.ok (), u) := by
    have hperform := normalizeFrom_tidy hn.wellLinked u.capacity ho hn.tidy
    simpa [normalize] using hperform
  by_cases hh : t.InUse h
  · have hchildless : t.Childless (t.walk h) := by
      intro x hx htext
      rw [← WellLinked.children_eq ((hl.mem_walk_iff hh).1 hx).1]
      exact hleaves x hx htext
    obtain ⟨u, hperform, hou, hn⟩ := exists_normalized hl hh hchildless start
    exact ⟨u, hperform, hn, hagain hou hn⟩
  · -- The handle names the node that a free slot will hold next
    have hfree : h.slot ∈ t.free := Decidable.of_not_not fun hnot => hh ⟨ho, hnot⟩
    have hn := normalized_of_no_children hl
      (by rw [children, if_pos ho]; exact Linked.free_children hl hfree) start
    exact ⟨t, hagain ho hn, hn, hagain ho hn⟩

/-- Three texts in a row, the first of them empty, and a tab stop that holds an empty text. -/
def crowded : Tree :=
  ((((ofSource 0 .textMate "$1$2$3$\x7b4:$5\x7d").setMarker ⟨0, 1, 0⟩ (.text "")).setMarker
    ⟨0, 2, 0⟩ (.text "a")).setMarker ⟨0, 3, 0⟩ (.text "b")).setMarker ⟨0, 5, 0⟩ (.text "")

/-- The second one of the three shows what they have shown, and the other texts have gone. -/
theorem normalize_normalized_crowded :
    ∃ u, (normalize ⟨0, 0, 0⟩ 0).perform crowded = (.ok (), u) ∧
      Normalized crowded ⟨0, 0, 0⟩ 0 u ∧ (normalize ⟨0, 0, 0⟩ 0).perform u = (.ok (), u) ∧
      u.marker? ⟨0, 2, 0⟩ = some (.text "ab") ∧
      ∀ x ∈ ([⟨0, 1, 0⟩, ⟨0, 3, 0⟩, ⟨0, 5, 0⟩] : List Handle), u.IsReleased x := by
  have hl : crowded.WellLinked :=
    ((((sameLinks_setMarker _ _ _).trans (sameLinks_setMarker _ _ _)).trans
      (sameLinks_setMarker _ _ _)).trans (sameLinks_setMarker _ _ _)).wellLinked
      (grown_ofSource ..).1
  have hleaves : (crowded.walk ⟨0, 0, 0⟩).all fun x =>
      !crowded.isText x || (crowded.children x).isEmpty := by cbv
  have hlists : (crowded.owns ⟨0, 0, 0⟩, crowded.children ⟨0, 0, 0⟩, crowded.children ⟨0, 4, 0⟩,
      crowded.walk ⟨0, 4, 0⟩) = (true, [⟨0, 1, 0⟩, ⟨0, 2, 0⟩, ⟨0, 3, 0⟩, ⟨0, 4, 0⟩], [⟨0, 5, 0⟩],
        [⟨0, 4, 0⟩, ⟨0, 5, 0⟩]) := by cbv
  have htexts : (crowded.isText ⟨0, 1, 0⟩, crowded.isText ⟨0, 2, 0⟩, crowded.isText ⟨0, 3, 0⟩,
      crowded.isText ⟨0, 4, 0⟩, crowded.isText ⟨0, 5, 0⟩) = (true, true, true, false, true) := by
    cbv
  have hshown : (crowded.render ⟨0, 1, 0⟩, crowded.render ⟨0, 2, 0⟩, crowded.render ⟨0, 3, 0⟩,
      crowded.render ⟨0, 5, 0⟩) = ("", "a", "b", "") := by cbv
  simp only [Prod.mk.injEq] at hlists htexts hshown
  obtain ⟨howned, hroot, hstop, hwalk⟩ := hlists
  obtain ⟨h1, h2, h3, h4, h5⟩ := htexts
  obtain ⟨r1, r2, r3, r5⟩ := hshown
  obtain ⟨u, hperform, hn, hagain⟩ := normalize_normalized hl howned (fun x hx htext => by
    have hx := List.all_eq_true.1 hleaves x hx
    simpa [htext] using hx) 0
  -- The first text is empty, so the second one stays and takes up the third
  obtain ⟨-, hmarker, hgone⟩ := (hn.merged [] [⟨0, 1, 0⟩, ⟨0, 2, 0⟩, ⟨0, 3, 0⟩] [⟨0, 4, 0⟩]
    (by rw [hroot]; rfl) ⟨by simp [h1, h2, h3], by simp, by simp [h4]⟩).kept [⟨0, 1, 0⟩] ⟨0, 2, 0⟩
    [⟨0, 3, 0⟩] rfl (by simp [r1]) (by simp [r2])
  -- Inside the tab stop the only text is empty and goes away
  have hinner := (hn.merged_below ⟨0, 4, 0⟩ (by simp [hroot, hwalk]) h4 [] [⟨0, 5, 0⟩] []
    (by rw [hstop]; rfl) ⟨by simp [h5], by simp, by simp⟩).empty (by simp [r5])
  refine ⟨u, hperform, hn, hagain, ?_, ?_⟩
  · rw [hmarker]
    simp [r1, r2, r3]
  · intro x hx
    simp only [List.mem_cons, List.not_mem_nil, or_false] at hx
    rcases hx with rfl | rfl | rfl
    · exact hgone _ (by simp)
    · exact hgone _ (by simp)
    · exact hinner _ (by simp)

end TabStop.Tree
