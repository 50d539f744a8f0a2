import TabStop.Proofs.Document.Dialect
import TabStop.Proofs.Repeat.FinalStop

/-!
# Whether there are indexes for all new tab stops

In TextMate a variable without value becomes a tab stop if it has a default. Its index is counted on
from the highest index of the snippet, once for each name. How many indexes that takes is told by
the questions that the resolver is asked and its answers, without any change of the tree: a tab stop
that has come to stand for a variable is in the place of the variable, and what is asked later is
asked of variables that are as they were.

So it is known which snippets can be resolved: the indexes run out if they would go past the
greatest whole index. One index is counted even when no variable needs it.
-/

namespace TabStop

/-- What has been asked of a resolver: the names, the last one first, the variables that have got a
value, and the names whose variables become tab stops. -/
structure Inquiry where
  asked : List String := []
  resolved : List Handle := []
  promoted : List String := []

namespace Tree

variable {t u : Tree} {r : Resolver} {q : Inquiry} {st : Resolution} {h p x : Handle}
  {hs : List Handle} {v : Variable} {m : Marker} {n : Nat}

/-! ## Questions -/

/-- The greatest whole number that is no greater than some index. -/
def highestIndex (t : Tree) : Nat :=
  ((t.placeholders.filterMap t.index?).map TabIndex.floor).foldl max 0

/-- Asks for one variable, unless it is in the default of one that has a value. -/
def inquire (r : Resolver) (t : Tree) (q : Inquiry) (h : Handle) : Inquiry :=
  if q.resolved.any (t.isAncestorOrSelf · h) then q
  else
    match t.var? h with
    | none => q
    | some v =>
      let asked := v.name :: q.asked
      match r q.asked v.name with
      | some _ => { q with asked, resolved := q.resolved ++ [h] }
      | none =>
        if (t.children h).isEmpty ∨ v.name ∈ q.promoted then { q with asked }
        else { q with asked, promoted := v.name :: q.promoted }

/-- The names whose variables become tab stops with an index of their own, the last one first. -/
def promotedNames (t : Tree) (r : Resolver) : List String :=
  match t.dialect with
  | .ultiSnips => []
  | .textMate => (t.variableNodes.foldl (t.inquire r) {}).promoted

theorem length_promoted_inquire (r : Resolver) (t : Tree) (q : Inquiry) (h : Handle) :
    q.promoted.length ≤ (t.inquire r q h).promoted.length := by
  unfold inquire
  split
  · exact Nat.le_refl _
  split
  · exact Nat.le_refl _
  split
  · exact Nat.le_refl _
  split
  · exact Nat.le_refl _
  · exact Nat.le_succ _

theorem length_promoted_foldl (r : Resolver) (t : Tree) (hs : List Handle) (q : Inquiry) :
    q.promoted.length ≤ (hs.foldl (t.inquire r) q).promoted.length := by
  induction hs generalizing q with
  | nil => exact Nat.le_refl _
  | cons h hs ih => exact (length_promoted_inquire r t q h).trans (ih _)

/-! ## What variables become -/

theorem var?_eq_some (hv : t.var? h = some v) : t.owns h ∧ (t.slotOf h).marker = .var v := by
  unfold var? marker? at hv
  split at hv
  · next howns =>
    refine ⟨howns, ?_⟩
    cases hm : (t.slotOf h).marker <;> simp [hm, Marker.var?] at hv
    rw [hv]
  · simp at hv

theorem WellLinked.inUse_of_mem_variableNodes (hl : t.WellLinked) (hx : x ∈ t.variableNodes) :
    t.InUse x := (hl.mem_descendants_iff.1 (List.mem_filter.1 hx).1).1

theorem WellLinked.nodup_variableNodes (hl : t.WellLinked) : t.variableNodes.Nodup :=
  ((hl.walk_nodup t.root).sublist (List.drop_sublist 1 _)).filter _

/-- What a variable has become once it has been asked for. -/
inductive Outcome (r : Resolver) (t : Tree) (h : Handle) (v : Variable) : Marker → Prop
  | valued (asked : List String) (s value : String) (hs : r asked v.name = some s) :
    Outcome r t h v (.var { v with value := some value })
  | named (hnil : (t.slotOf h).children = []) :
    Outcome r t h v (.text (Transform.resolveBy v.transform v.name))
  | promoted (n : Nat) (hlt : t.highestIndex < n) (hmax : n < TabIndex.maxWhole) :
    Outcome r t h v (.placeholder { index := .ofNat n, transform := v.transform })

/-- New indexes have been counted on from the highest one of the snippet, one for each of the names. -/
structure Counted (t : Tree) (names : List String) (p : Promotions) : Prop where
  given : p.given.map Prod.fst = names
  next : p.next = t.highestIndex + 1 + names.length
  bound : t.highestIndex + names.length < TabIndex.maxWhole
  indexes : ∀ i ∈ p.given, ∃ n, t.highestIndex < n ∧ n < TabIndex.maxWhole ∧ i.2 = .ofNat n

namespace Counted

variable {names : List String} {promotions : Promotions}

theorem lookup_isSome_iff (hc : Counted t names promotions) (name : String) :
    (promotions.given.lookup name).isSome ↔ name ∈ names := by
  rw [List.lookup_isSome_iff, ← hc.given, List.mem_map]
  exact exists_congr fun _ => and_congr_right' (beq_iff_eq.trans eq_comm)

theorem mem_of_lookup {α β : Type} [BEq α] [LawfulBEq α] {a : α} {b : β} {xs : List (α × β)}
    (hab : xs.lookup a = some b) : (a, b) ∈ xs := by
  obtain ⟨before, after, rfl, -⟩ := List.lookup_eq_some_iff.1 hab
  simp

/-- A name has the index that it has been given, or else it gets the next one, unless there is none
left. -/
theorem indexFor? (hc : Counted t names promotions) (name : String) :
    (∃ n promotions', promotions.indexFor? name = some (.ofNat n, promotions') ∧
        t.highestIndex < n ∧ n < TabIndex.maxWhole ∧
        Counted t (if name ∈ names then names else name :: names) promotions') ∨
      (promotions.indexFor? name = none ∧ name ∉ names ∧
        TabIndex.maxWhole ≤ t.highestIndex + (name :: names).length) := by
  have hnext := hc.next
  unfold Promotions.indexFor?
  -- A name that is known has its index; a new one gets the next, as long as there is one
  cases hlookup : promotions.given.lookup name with
  | some i =>
    have hmem : name ∈ names := (hc.lookup_isSome_iff name).1 (by simp [hlookup])
    obtain ⟨n, hlt, hmax, rfl⟩ : ∃ n, t.highestIndex < n ∧ n < TabIndex.maxWhole ∧ i = .ofNat n :=
      hc.indexes _ (mem_of_lookup hlookup)
    exact Or.inl ⟨n, promotions, rfl, hlt, hmax, by rwa [if_pos hmem]⟩
  | none =>
    have hnot : name ∉ names := fun hmem => by
      simpa [hlookup] using (hc.lookup_isSome_iff name).2 hmem
    by_cases hlt : promotions.next < TabIndex.maxWhole
    · refine Or.inl ⟨promotions.next, _, if_pos hlt, by omega, hlt, ?_⟩
      rw [if_neg hnot]
      refine ⟨by simp [hc.given], congrArg (· + 1) hnext, ?_, fun i hi => ?_⟩
      · rw [List.length_cons]
        omega
      · rcases List.mem_cons.1 hi with rfl | hi
        · exact ⟨promotions.next, by omega, hlt, rfl⟩
        · exact hc.indexes i hi
    · refine Or.inr ⟨if_neg hlt, hnot, ?_⟩
      rw [List.length_cons]
      omega

end Counted

/-- A tree `t` of which the variables `hs` are still to be resolved, and what has been asked before.
New indexes have been counted on from the highest one, one for each promoted name. -/
structure Tracks (r : Resolver) (t : Tree) (hs : List Handle) (q : Inquiry) (st : Resolution) :
    Prop where
  links : SameLinks t st.tree
  dialect : st.tree.dialect = t.dialect
  marker {x : Handle} : t.InUse x → x ∉ t.variableNodes ∨ x ∈ hs →
    (st.tree.slotOf x).marker = (t.slotOf x).marker
  became {x : Handle} : x ∈ t.variableNodes → x ∉ hs → q.resolved.any (t.isAncestorOrSelf · x) ∨
    ∃ v, t.var? x = some v ∧ Outcome r t x v (st.tree.slotOf x).marker
  asked : st.asked = q.asked
  resolved : st.resolved = q.resolved
  given : st.promotions.given.map Prod.fst = q.promoted
  next : st.promotions.next = t.highestIndex + 1 + q.promoted.length
  bound : t.highestIndex + q.promoted.length < TabIndex.maxWhole
  indexes : ∀ i ∈ st.promotions.given, ∃ n, t.highestIndex < n ∧ n < TabIndex.maxWhole ∧
    i.2 = .ofNat n

namespace Tracks

theorem start (hstart : t.highestIndex < TabIndex.maxWhole) :
    Tracks r t t.variableNodes {} ⟨t, [], [], ⟨[], t.highestIndex + 1⟩⟩ where
  links := .refl t
  dialect := rfl
  marker _ _ := rfl
  became hx hnot := absurd hx hnot
  asked := rfl
  resolved := rfl
  given := rfl
  next := rfl
  bound := hstart
  indexes := by simp

/-- The next variable is hidden in the default of one that has a value. -/
theorem skip (ht : Tracks r t (h :: hs) q st) (hhidden : q.resolved.any (t.isAncestorOrSelf · h)) :
    Tracks r t hs q st :=
  { ht with
    marker := fun hx hmem => ht.marker hx (hmem.imp_right (List.mem_cons_of_mem _))
    became := fun {x} hx hnot => by
      by_cases hxh : x = h
      · exact Or.inl (hxh ▸ hhidden)
      · exact ht.became hx (by simp [hxh, hnot]) }

theorem counted (ht : Tracks r t hs q st) : Counted t q.promoted st.promotions :=
  ⟨ht.given, ht.next, ht.bound, ht.indexes⟩

/-- The next variable becomes something else. -/
theorem become (ht : Tracks r t (h :: hs) q st) (hl : t.WellLinked) (hnodup : (h :: hs).Nodup)
    (hv : t.var? h = some v) (hh : h ∈ t.variableNodes) (ho : Outcome r t h v m)
    {w : Inquiry} {promotions : Promotions} (hresolved : ∃ more, w.resolved = q.resolved ++ more)
    (hcounted : Counted t w.promoted promotions) :
    Tracks r t hs w ⟨st.tree.setMarker h m, w.asked, w.resolved, promotions⟩ := by
  have hhu := hl.inUse_of_mem_variableNodes hh
  have hnot := (List.nodup_cons.1 hnodup).1
  -- Only the marker of the variable changes
  have hmarker {x : Handle} (hx : t.InUse x) : ((st.tree.setMarker h m).slotOf x).marker =
      if x = h then m else (st.tree.slotOf x).marker :=
    marker_setMarker (ht.links.inUse_iff.2 hhu) (ht.links.inUse_iff.2 hx) m
  constructor
  case links =>
    exact ht.links.trans (sameLinks_setMarker st.tree h m)
  case dialect =>
    rw [dialect_setMarker, ht.dialect]
  case marker =>
    intro x hx hmem
    have hne : x ≠ h := by
      rintro rfl
      exact hmem.elim (fun hout => hout hh) hnot
    rw [hmarker hx, if_neg hne, ht.marker hx (hmem.imp_right (List.mem_cons_of_mem _))]
  case became =>
    intro x hx hxhs
    rw [hmarker (hl.inUse_of_mem_variableNodes hx)]
    by_cases hxh : x = h
    · subst hxh
      rw [if_pos rfl]
      exact Or.inr ⟨v, hv, ho⟩
    · obtain ⟨more, hmore⟩ := hresolved
      rw [if_neg hxh, hmore, List.any_append, Bool.or_eq_true]
      exact (ht.became hx (by simp [hxh, hxhs])).imp_left Or.inl
  case asked => rfl
  case resolved => rfl
  case given => exact hcounted.given
  case next => exact hcounted.next
  case bound => exact hcounted.bound
  case indexes => exact hcounted.indexes

/-- The next variable is what it was, and in its old place. -/
theorem next_variable (ht : Tracks r t (h :: hs) q st) (hl : t.WellLinked)
    (hh : h ∈ t.variableNodes) (hv : t.var? h = some v) :
    st.tree.isAttached h ∧ st.tree.var? h = some v ∧ st.tree.children h = t.children h ∧
      ∀ a, st.tree.isAncestorOrSelf a h = t.isAncestorOrSelf a h := by
  have hhu := hl.inUse_of_mem_variableNodes hh
  have hhu' := ht.links.inUse_iff.2 hhu
  refine ⟨?_, ?_, ?_, fun a => ?_⟩
  · apply (ht.links.wellLinked hl).isAttached_of_mem
    rw [ht.links.walk_eq, ht.links.root_eq]
    exact List.mem_of_mem_drop (List.mem_filter.1 hh).1
  · rw [hhu'.var?_eq, ht.marker hhu (Or.inr (List.mem_cons_self ..)), ← hhu.var?_eq, hv]
  · rw [WellLinked.children_eq hhu', WellLinked.children_eq hhu, ht.links.children]
  · rw [isAncestorOrSelf, isAncestorOrSelf, ht.links.ancestors_eq hl hhu]

/-- What is asked for in vain becomes its name, or else a tab stop if there is an index for it. -/
theorem unresolved (ht : Tracks r t (h :: hs) q st) (hl : t.WellLinked)
    (hd : t.dialect = .textMate) (hnodup : (h :: hs).Nodup) (hh : h ∈ t.variableNodes)
    (hv : t.var? h = some v) {w : Inquiry} (hw : w = if (t.children h).isEmpty ∨ v.name ∈ q.promoted
      then { q with asked := v.name :: q.asked }
      else { q with asked := v.name :: q.asked, promoted := v.name :: q.promoted }) :
    (∃ promotions u, leaveUnresolved st.promotions h v st.tree = some (promotions, u) ∧
        Tracks r t hs w ⟨u, v.name :: q.asked, q.resolved, promotions⟩) ∨
      (leaveUnresolved st.promotions h v st.tree = none ∧
        TabIndex.maxWhole ≤ t.highestIndex + w.promoted.length) := by
  obtain ⟨-, -, hchildren, -⟩ := ht.next_variable hl hh hv
  have hcounted := ht.counted
  have hasked : w.asked = v.name :: q.asked := by rw [hw]; split <;> rfl
  have hresolved : w.resolved = q.resolved := by rw [hw]; split <;> rfl
  have hbecome {m : Marker} {promotions : Promotions} (ho : Outcome r t h v m)
      (hc : Counted t w.promoted promotions) :
      Tracks r t hs w ⟨st.tree.setMarker h m, v.name :: q.asked, q.resolved, promotions⟩ := by
    rw [← hasked, ← hresolved]
    exact ht.become hl hnodup hv hh ho ⟨[], by simp [hresolved]⟩ hc
  simp only [leaveUnresolved, ht.dialect, hd, hchildren, Bool.or_eq_true,
    hcounted.lookup_isSome_iff, Bool.not_eq_eq_eq_not, Bool.not_true]
  by_cases hname : (t.children h).isEmpty ∧ v.name ∉ q.promoted
  · -- There is nothing to be shown at a tab stop
    have hnil : (t.slotOf h).children = [] := by
      rw [← WellLinked.children_eq (hl.inUse_of_mem_variableNodes hh)]
      exact List.isEmpty_iff.1 hname.1
    have hpromoted : w.promoted = q.promoted := by rw [hw, if_pos (Or.inl hname.1)]
    rw [if_neg (by simp [hname])]
    exact Or.inl ⟨_, _, rfl, hbecome (.named hnil) (hpromoted ▸ hcounted)⟩
  · have hpromoted : w.promoted =
        if v.name ∈ q.promoted then q.promoted else v.name :: q.promoted := by
      rw [hw]
      by_cases hmem : v.name ∈ q.promoted
      · simp [hmem]
      · have hsome : ¬ (t.children h).isEmpty := fun hempty => hname ⟨hempty, hmem⟩
        simp [hmem, hsome]
    rw [if_pos (by
      by_cases hmem : v.name ∈ q.promoted
      · exact Or.inr hmem
      · exact Or.inl (Bool.eq_false_iff.2 fun hempty => hname ⟨hempty, hmem⟩))]
    rcases hcounted.indexFor? v.name with ⟨n, promotions, hindex, hlt, hmax, hcounted'⟩ |
      ⟨hindex, hnot, hfull⟩
    · rw [hindex]
      exact Or.inl ⟨_, _, rfl, hbecome (.promoted n hlt hmax) (hpromoted ▸ hcounted')⟩
    · rw [hindex]
      refine Or.inr ⟨rfl, ?_⟩
      rwa [hpromoted, if_neg hnot]

/-- What one step does in TextMate, told by what is asked in it. There is no result if a name needs
an index and there is none left. -/
theorem step (ht : Tracks r t (h :: hs) q st) (hl : t.WellLinked) (hd : t.dialect = .textMate)
    (hnodup : (h :: hs).Nodup) (hh : h ∈ t.variableNodes) :
    (∃ st', st.step r h = some st' ∧ Tracks r t hs (t.inquire r q h) st') ∨
      (st.step r h = none ∧
        TabIndex.maxWhole ≤ t.highestIndex + (t.inquire r q h).promoted.length) := by
  obtain ⟨v, hv⟩ := Option.isSome_iff_exists.1 (List.mem_filter.1 hh).2
  obtain ⟨hattached, hvar, -, habove⟩ := ht.next_variable hl hh hv
  unfold Resolution.step inquire
  simp only [hattached, Bool.not_true, Bool.false_or, habove, ht.resolved, hv, hvar, ht.asked]
  split
  · next hhidden => exact Or.inl ⟨st, rfl, ht.skip hhidden⟩
  -- An answer needs no index, and without one there may be no room for it
  cases hr : r q.asked v.name with
  | some s =>
    refine Or.inl ⟨_, rfl, ?_⟩
    exact ht.become (w := ⟨v.name :: q.asked, q.resolved ++ [h], q.promoted⟩) hl hnodup hv hh
      (.valued q.asked s _ hr) ⟨[h], rfl⟩ ht.counted
  | none =>
    rcases ht.unresolved hl hd hnodup hh hv rfl with ⟨promotions, u, hleave, hnext⟩ | ⟨hleave, hfull⟩
    · exact Or.inl ⟨_, by rw [hleave]; rfl, hnext⟩
    · exact Or.inr ⟨by rw [hleave]; rfl, hfull⟩

/-- What all steps do. -/
theorem run (ht : Tracks r t hs q st) (hl : t.WellLinked) (hd : t.dialect = .textMate)
    (hnodup : hs.Nodup) (hsub : hs ⊆ t.variableNodes) :
    (∃ st', hs.foldlM (Resolution.step r) st = some st' ∧
        Tracks r t [] (hs.foldl (t.inquire r) q) st') ∨
      (hs.foldlM (Resolution.step r) st = none ∧
        TabIndex.maxWhole ≤ t.highestIndex + (hs.foldl (t.inquire r) q).promoted.length) := by
  induction hs generalizing q st with
  | nil => exact Or.inl ⟨st, rfl, ht⟩
  | cons h hs ih =>
    obtain ⟨hh, hsub⟩ := List.cons_subset.1 hsub
    simp only [List.foldlM_cons, List.foldl_cons]
    rcases ht.step hl hd hnodup hh with ⟨st', hstep, hnext⟩ | ⟨hstep, hfull⟩
    · rw [hstep, Option.bind_eq_bind, Option.bind_some]
      exact ih hnext (List.nodup_cons.1 hnodup).2 hsub
    · -- What is promoted later only adds to the indexes that are needed
      refine Or.inr ⟨by rw [hstep]; rfl, ?_⟩
      have := length_promoted_foldl r t hs (t.inquire r q h)
      omega

end Tracks

/-! ## Whole snippets -/

/-- In UltiSnips no index is ever needed for a variable. -/
theorem foldlM_ultiSnips (r : Resolver) (hs : List Handle) (st : Resolution)
    (hd : st.tree.dialect = .ultiSnips) : (hs.foldlM (Resolution.step r) st).isSome := by
  induction hs generalizing st with
  | nil => rfl
  | cons h hs ih =>
    -- No variable becomes a tab stop in UltiSnips, so no step asks for an index
    have hstep : ∃ st', st.step r h = some st' ∧ st'.tree.dialect = .ultiSnips := by
      unfold Resolution.step
      dsimp only
      split
      · exact ⟨st, rfl, hd⟩
      split
      · exact ⟨st, rfl, hd⟩
      split
      · exact ⟨_, rfl, by rw [dialect_setMarker, hd]⟩
      · simp only [leaveUnresolved, hd]
        split
        · exact ⟨_, rfl, by rw [(keepsDialect_splice h).after, hd]⟩
        · exact ⟨_, rfl, by rw [dialect_setMarker, hd]⟩
    obtain ⟨st', hst', hd'⟩ := hstep
    rw [List.foldlM_cons, hst']
    exact ih st' hd'

theorem start?_eq (t : Tree) : Promotions.start? t =
    if t.highestIndex < TabIndex.maxWhole then some ⟨[], t.highestIndex + 1⟩ else none := rfl

/-- Resolving the variables of a snippet has no result just when the indexes of the snippet, and the
new ones counted on from the highest, get to the greatest whole index. -/
theorem WellLinked.resolveVariables?_eq_none_iff (hl : t.WellLinked) (r : Resolver) :
    t.resolveVariables? r = none ↔
      TabIndex.maxWhole ≤ t.highestIndex + (t.promotedNames r).length := by
  unfold resolveVariables?
  rw [start?_eq]
  split
  · next hstart =>
    have hmap {o : Option Resolution} :
        (o.bind fun st => some (st.asked.reverse, st.tree.settle)) = none ↔ o = none := by
      cases o <;> simp
    simp only [Option.bind_eq_bind, Option.bind_some, Option.pure_def, hmap]
    -- Only in TextMate are there indexes to give
    cases hd : t.dialect with
    | ultiSnips =>
      have hsome := foldlM_ultiSnips r t.variableNodes ⟨t, [], [], ⟨[], t.highestIndex + 1⟩⟩ hd
      rw [promotedNames, hd]
      simp only [List.length_nil, Nat.add_zero, Nat.not_le.2 hstart, iff_false]
      exact Option.isSome_iff_ne_none.1 hsome
    | textMate =>
      rw [promotedNames, hd]
      rcases (Tracks.start (r := r) hstart).run hl hd hl.nodup_variableNodes (fun _ hx => hx) with
        ⟨st, hrun, htracks⟩ | ⟨hrun, hfull⟩
      · have := htracks.bound
        simp only [hrun, reduceCtorEq, false_iff]
        omega
      · simp only [hrun, true_iff]
        exact hfull
  · next hstart => simp only [Option.bind_eq_bind, Option.bind_none, true_iff]; omega

theorem WellLinked.resolveVariables?_isSome_iff (hl : t.WellLinked) (r : Resolver) :
    (t.resolveVariables? r).isSome ↔
      t.highestIndex + (t.promotedNames r).length < TabIndex.maxWhole := by
  rw [Option.isSome_iff_ne_none, ne_eq, hl.resolveVariables?_eq_none_iff, Nat.not_le]

/-- When the variables of a snippet have been resolved, all of them have had their turns, and then the
snippet has been brought up to date. -/
theorem resolveVariables?_cases {names : List String}
    (hresolve : t.resolveVariables? r = some (names, u)) :
    t.highestIndex < TabIndex.maxWhole ∧ ∃ st,
      t.variableNodes.foldlM (Resolution.step r) ⟨t, [], [], ⟨[], t.highestIndex + 1⟩⟩ = some st ∧
        names = st.asked.reverse ∧ u = st.tree.settle := by
  unfold resolveVariables? at hresolve
  rw [start?_eq] at hresolve
  split at hresolve
  · next hstart =>
    simp only [Option.bind_eq_bind, Option.bind_some] at hresolve
    obtain ⟨st, hrun, heq⟩ := Option.bind_eq_some_iff.1 hresolve
    obtain ⟨rfl, rfl⟩ := Prod.mk.inj (Option.some.inj heq)
    exact ⟨hstart, st, hrun, rfl, rfl⟩
  · simp at hresolve

/-- What the questions tell about a TextMate snippet whose variables have had their turns. -/
theorem WellLinked.tracks_of_run (hl : t.WellLinked) (hd : t.dialect = .textMate)
    (hstart : t.highestIndex < TabIndex.maxWhole)
    (hrun : t.variableNodes.foldlM (Resolution.step r) ⟨t, [], [], ⟨[], t.highestIndex + 1⟩⟩ =
      some st) :
    Tracks r t [] (t.variableNodes.foldl (t.inquire r) {}) st := by
  rcases (Tracks.start (r := r) hstart).run hl hd hl.nodup_variableNodes (fun _ hx => hx) with
    ⟨st', hrun', htracks⟩ | ⟨hfull, -⟩
  · obtain rfl := Option.some.inj (hrun'.symm.trans hrun)
    exact htracks
  · simp [hfull] at hrun

/-- Whether the variables of a snippet that comes from a source can be resolved. -/
theorem ofSnippet_resolves_iff (identity : Nat) (d : Dialect) (source : String) (final : Bool)
    (hcapacity : (ofSource identity d source).capacity < 2 ^ 32) (r : Resolver) :
    let t := ofSnippet identity d source final
    (t.resolveVariables? r).isSome ↔
      t.highestIndex + (t.promotedNames r).length < TabIndex.maxWhole := by
  intro t
  have hl : t.WellLinked := (steady_ofSnippet identity d source final hcapacity).1.wellLinked
  rw [Option.isSome_iff_ne_none, ne_eq, hl.resolveVariables?_eq_none_iff, Nat.not_le]

/-- The greatest index leaves no room, although there is no variable that needs any. -/
theorem ofSnippet_resolves_greatest :
    (ofSource 0 .textMate "$4294967295").capacity < 2 ^ 32 ∧
      (ofSnippet 0 .textMate "$4294967295" false).variableNodes = [] ∧
      ∀ r, (ofSnippet 0 .textMate "$4294967295" false).resolveVariables? r = none := by
  have hcapacity : (ofSource 0 .textMate "$4294967295").capacity = 2 := by cbv
  have htree :
      let t := ofSnippet 0 .textMate "$4294967295" false
      (t.variableNodes, t.highestIndex) = ([], TabIndex.maxWhole) := by cbv
  simp only [Prod.mk.injEq] at htree
  obtain ⟨hnone, hhighest⟩ := htree
  have hlt : (ofSource 0 .textMate "$4294967295").capacity < 2 ^ 32 := by
    rw [hcapacity]
    decide
  refine ⟨hlt, hnone, fun r => ?_⟩
  have hiff := ofSnippet_resolves_iff 0 .textMate "$4294967295" false hlt r
  simp only [hhighest] at hiff
  rw [← Option.not_isSome_iff_eq_none, hiff]
  omega

end Tree

end TabStop
