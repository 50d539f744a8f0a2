import TabStop.Proofs.Repeat.Passes

/-!
# The turns of the first pass

In the first pass the primary tab stops have their turns one after the other, but for those that the
turns before have lost. What follows a primary tab stop in a later pass has followed it in its first
turn. So what is not rewritten in the first pass stays as it is.
-/

namespace TabStop.Tree

variable {t u v : Tree} {c m p x : Handle} {ps qs : List Handle} {P : Handle → String → Prop}

/-! ## Turns -/

/-- The turns of a first pass that come before that of `p` have led to the tree `v`, in which `p` is
left. -/
def HasTurn (t : Tree) (p : Handle) (v : Tree) : Prop :=
  ∃ before after, t.primaries = before ++ p :: after ∧ v = before.foldl turn t ∧ p ∈ v.leaders

/-- A tab stop repeats a primary one in the first pass. -/
def Rewritten (t : Tree) (m : Handle) : Prop := ∃ p v, t.HasTurn p v ∧ v.Follows m p

namespace Repeatable

/-- What each turn preserves is preserved by several. -/
theorem foldl_turn_induction (ht : t.Repeatable) (hu : Remains t u) (hps : ps ⊆ t.primaries)
    {P : Tree → Prop} (hstart : P u)
    (hturn : ∀ {p v}, v.Repeatable → p ∈ v.leaders → P v → P (v.turn p)) : P (ps.foldl turn u) := by
  induction ps generalizing u with
  | nil => exact hstart
  | cons p ps ih =>
    obtain ⟨hp, hps⟩ := List.cons_subset.1 hps
    rw [List.foldl_cons]
    rcases ht.turn_cases hu hp with hleader | ⟨-, hsame⟩
    · have hur := hu.repeatable ht
      exact ih (hu.trans (hur.remains_turn hleader)) hps (hturn hur hleader hstart)
    · rw [hsame]
      exact ih hu hps hstart

theorem remains_foldl_turn (ht : t.Repeatable) (hu : Remains t u) (hps : ps ⊆ t.primaries) :
    Remains u (ps.foldl turn u) :=
  ht.foldl_turn_induction hu hps (.refl hu.wellLinked) fun hv hp hr => hr.trans (hv.remains_turn hp)

/-- Tab stops are only lost, up to each point of the pass and from there on. -/
theorem remains_of_split (ht : t.Repeatable) (hsplit : t.primaries = ps ++ qs) :
    Remains t (ps.foldl turn t) ∧ Remains (ps.foldl turn t) t.repeatPass.2 := by
  have hfirst : Remains t (ps.foldl turn t) :=
    ht.remains_foldl_turn (.refl ht.wellLinked) (by simp [hsplit])
  refine ⟨hfirst, ?_⟩
  rw [repeatPass_snd, hsplit, List.foldl_append]
  exact ht.remains_foldl_turn hfirst (by simp [hsplit])

/-- What each of the turns preserves that are left of a pass is preserved by the rest of the pass. -/
theorem rest_induction (ht : t.Repeatable) {P : Tree → Prop} (hsplit : t.primaries = ps ++ qs)
    (hstart : P (ps.foldl turn t))
    (hturn : ∀ {p v}, t.HasTurn p v → P v → P (v.turn p)) : P t.repeatPass.2 := by
  rw [repeatPass_snd, hsplit, List.foldl_append]
  induction qs generalizing ps with
  | nil => exact hstart
  | cons p qs ih =>
    have hnext : P ((ps ++ [p]).foldl turn t) := by
      rw [List.foldl_append]
      rcases ht.turn_cases (ht.remains_of_split hsplit).1 (p := p) (by simp [hsplit]) with
        hleader | ⟨-, hsame⟩
      · exact hturn ⟨ps, qs, hsplit, rfl, hleader⟩ hstart
      · rwa [List.foldl_cons, List.foldl_nil, hsame]
    have hsplit : t.primaries = (ps ++ [p]) ++ qs := by simp [hsplit]
    have hrest := ih hsplit hnext
    rwa [List.foldl_append] at hrest

end Repeatable

namespace HasTurn

theorem remains (hturn : t.HasTurn p v) (ht : t.Repeatable) : Remains t v := by
  obtain ⟨before, after, hsplit, rfl, -⟩ := hturn
  exact (ht.remains_of_split hsplit).1

theorem repeatable (hturn : t.HasTurn p v) (ht : t.Repeatable) : v.Repeatable :=
  (hturn.remains ht).repeatable ht

/-- What the turns before have preserved. -/
theorem induction (hturn : t.HasTurn p v) (ht : t.Repeatable) {P : Tree → Prop} (hstart : P t)
    (hturns : ∀ {q u}, u.Repeatable → q ∈ u.leaders → P u → P (u.turn q)) : P v := by
  obtain ⟨before, after, hsplit, rfl, -⟩ := hturn
  exact ht.foldl_turn_induction (.refl ht.wellLinked) (by simp [hsplit]) hstart hturns

theorem leader (hturn : t.HasTurn p v) : p ∈ v.leaders := by
  obtain ⟨_, _, -, -, hleader⟩ := hturn
  exact hleader

end HasTurn

/-- What a turn of the first pass leads to is left if all turns that come later preserve it. -/
theorem HasTurn.induction_later (hturn : t.HasTurn p v) (ht : t.Repeatable) {P : Tree → Prop}
    (hstart : P (v.turn p))
    (hturns : ∀ {q u}, u.Repeatable → q ∈ u.leaders → P u → P (u.turn q)) : P t.repeatAll := by
  have hremains := (hturn.remains ht).trans ((hturn.repeatable ht).remains_turn hturn.leader)
  obtain ⟨before, after, hsplit, rfl, -⟩ := hturn
  have hafter : after ⊆ t.primaries := by simp [hsplit]
  rw [repeatAll, Repeatable.repeatPasses_eq ht.wellLinked]
  refine (ht.remains_repeatPass.repeatable ht).repeatPasses_induction ?_
    (fun _ hu hq hP => hturns hu hq hP) _
  rw [repeatPass_snd, hsplit, List.foldl_append, List.foldl_cons]
  exact ht.foldl_turn_induction hremains hafter hstart hturns

/-- What follows a primary tab stop when the first pass is over is rewritten in it. -/
theorem Repeatable.rewritten_of_follows (ht : t.Repeatable) (hu : Remains t.repeatPass.2 u)
    (hp : p ∈ u.leaders) (hf : u.Follows m p) : t.Rewritten m := by
  have hpt := (ht.remains_repeatPass.trans hu).mem_leaders ht.wellLinked hp
  obtain ⟨before, after, hsplit⟩ := List.append_of_mem (List.mem_filter.1 hpt).1
  obtain ⟨hfirst, hrest⟩ := ht.remains_of_split hsplit
  have hr := hrest.trans hu
  exact ⟨p, _, ⟨before, after, hsplit, rfl, hr.mem_leaders hfirst.wellLinked hp⟩,
    hr.follows hfirst.wellLinked (mem_leaders_iff.1 hp).1 hf⟩

/-- What is rewritten is a tab stop of the document, and no primary one. -/
theorem Rewritten.of_remains (hm : t.Rewritten m) (ht : t.Repeatable) :
    m ∈ t.placeholders ∧ t.isPrimary m = false := by
  obtain ⟨p, v, hturn, hf⟩ := hm
  have hr := hturn.remains ht
  refine ⟨hr.mem_placeholders ht.wellLinked hf.mem, ?_⟩
  rw [← (hr.kept_of_mem hf.mem).isPrimary_eq]
  exact (hturn.repeatable ht).not_primary hturn.leader hf

/-- What the turns of the first pass preserve, and all later ones, is preserved when all tab stops have
been repeated. -/
theorem Repeatable.turns_induction (ht : t.Repeatable) {P : Tree → Prop} (hstart : P t)
    (hfirst : ∀ {p v}, t.HasTurn p v → P v → P (v.turn p))
    (hlater : ∀ {p v}, Remains t.repeatPass.2 v → v.Repeatable → p ∈ v.leaders → P v → P (v.turn p)) :
    P t.repeatAll := by
  rw [repeatAll, repeatPasses_eq ht.wellLinked]
  exact (ht.remains_repeatPass.repeatable ht).repeatPasses_induction
    (ht.rest_induction (List.nil_append t.primaries).symm hstart hfirst) hlater _

/-! ## Nodes that are not rewritten -/

/-- A node is left with all its children, and they are what they were. -/
structure Intact (t u : Tree) (x : Handle) : Prop extends Kept t u x where
  children : (u.slotOf x).children = (t.slotOf x).children
  marker : ∀ c ∈ (t.slotOf x).children, (u.slotOf c).marker = (t.slotOf c).marker

namespace Intact

theorem refl (hx : t.InUse x) : Intact t t x := ⟨.refl hx, rfl, fun _ _ => rfl⟩

theorem trans (hu : Intact t u x) (hv : Intact u v x) : Intact t v x :=
  ⟨hu.toKept.trans hv.toKept, hv.children.trans hu.children, fun c hc => by
    rw [hv.marker c (hu.children ▸ hc), hu.marker c hc]⟩

end Intact

theorem Touched.intact {ms : List Handle} (ht : Touched t ms u) (hl : t.WellLinked)
    (hx : t.InUse x) (hxu : u.InUse x) (hnot : x ∉ ms) : Intact t u x := by
  have hchildren := ht.children hx hxu hnot
  refine ⟨ht.kept hx hxu, hchildren, fun c hc => ?_⟩
  obtain ⟨hct, hup⟩ := Linked.child hl hx hc
  refine ht.marker hct (Linked.child ht.wellLinked hxu (hchildren ▸ hc)).1 fun m hm heq => ?_
  rw [hup] at heq
  exact hnot (Option.some.inj heq ▸ hm)

/-- A node stays intact if neither it nor any node above it comes to show a text. -/
theorem Writes.intact (hw : Writes P t u) (hl : t.WellLinked) (hx : t.InUse x)
    (hP : ∀ m s, P m s → m ∉ x :: t.ancestors x) : Intact t u x := by
  refine hw.touched_induction (Q := fun u => Intact t u x) hl (.refl hx)
    fun hw hw' ht hms ih => ?_
  have hk := hw'.kept hl hx fun m s hm hmem => hP m s hm (List.mem_cons_of_mem _ hmem)
  refine ih.trans (ht.intact (hw.remains hl).wellLinked ih.inUse hk.inUse fun hmem => ?_)
  obtain ⟨-, s, hm, -⟩ := hms x hmem
  exact hP x s hm (List.mem_cons_self ..)

namespace Repeatable

theorem intact_turn (ht : t.Repeatable) (hp : p ∈ t.leaders) (hx : t.InUse x)
    (hfree : ∀ m ∈ x :: t.ancestors x, ¬ t.Follows m p) : Intact t (t.turn p) x := by
  obtain ⟨done, hturning, -⟩ := ht.turning hp
  apply hturning.writes.intact ht.wellLinked hx
  rintro m _ ⟨hf, -⟩ hm
  exact hfree m hm hf

/-- A node stays intact if neither it nor any node above it is rewritten. -/
theorem intact_repeatAll (ht : t.Repeatable) (hx : t.InUse x)
    (hfree : ∀ m ∈ x :: t.ancestors x, ¬ t.Rewritten m) : Intact t t.repeatAll x := by
  refine ht.turns_induction (P := fun u => Intact t u x) (.refl hx) ?_ ?_
  · intro p v hturn hv
    refine hv.trans ((hturn.repeatable ht).intact_turn hturn.leader hv.inUse fun m hm hf => ?_)
    rw [hv.ancestors_eq] at hm
    exact hfree m hm ⟨p, v, hturn, hf⟩
  · intro p v hr hu hp hv
    refine hv.trans (hu.intact_turn hp hv.inUse fun m hm hf => ?_)
    rw [hv.ancestors_eq] at hm
    exact hfree m hm (ht.rewritten_of_follows hr hp hf)

end Repeatable

end TabStop.Tree
