import TabStop.Proofs.Source.Building

/-!
# Events in balance

Events are in balance if each node that starts in them is finished in them, and no other node is. A
builder has as many open nodes as have started and are not finished, so while it takes events in
balance, none of them finishes the root, and at the end only the root is open. And whatever node
comes, it always has a place below the current one: it is new, so nothing is below it yet.
-/

namespace TabStop

namespace Event

/-- How many nodes are open after events, if `n` are open before them; none if one is finished where
no node is open. -/
def depth : Nat → List Event → Option Nat
  | n, [] => some n
  | n, .start _ :: es => depth (n + 1) es
  | n, .text _ :: es => depth n es
  | 0, .finish :: _ => none
  | n + 1, .finish :: es => depth n es

/-- Events that finish the nodes that start in them, and no others. -/
def Balanced (es : List Event) : Prop := depth 0 es = some 0

instance : DecidablePred Balanced := fun es => decEq (depth 0 es) (some 0)

variable {es fs : List Event} {n m : Nat}

theorem depth_append (n : Nat) (es fs : List Event) :
    depth n (es ++ fs) = (depth n es).bind fun m => depth m fs := by
  fun_induction depth n es with
  | case1 => rfl
  | case2 n marker es ih => exact ih
  | case3 n s es ih => exact ih
  | case4 => rfl
  | case5 n es ih => exact ih

/-- More open nodes around them do not matter to events. -/
theorem depth_add (h : depth n es = some m) (k : Nat) : depth (n + k) es = some (m + k) := by
  fun_induction depth n es with
  | case1 n => simpa [depth] using h
  | case2 n marker es ih =>
    rw [depth, Nat.add_right_comm]
    exact ih h
  | case3 n s es ih => exact ih h
  | case4 => simp at h
  | case5 n es ih =>
    rw [Nat.succ_add]
    exact ih h

theorem Balanced.depth_eq (h : Balanced es) (n : Nat) : depth n es = some n := by
  simpa using depth_add h n

theorem Balanced.nil : Balanced [] := rfl

theorem balanced_text (s : String) : Balanced [.text s] := rfl

theorem Balanced.append (h : Balanced es) (h' : Balanced fs) : Balanced (es ++ fs) := by
  rw [Balanced, depth_append, h.depth_eq]
  exact h'

theorem Balanced.node (m : Marker) (h : Balanced es) : Balanced (.start m :: es ++ [.finish]) := by
  rw [Balanced, List.cons_append, depth, depth_append, h.depth_eq]
  rfl

theorem balanced_leaf (m : Marker) : Balanced (leaf m) := Balanced.nil.node m

/-- As many finished as started is not enough. -/
example (m : Marker) : ¬Balanced [.finish, .start m] := by simp [Balanced, depth]

end Event

/-! ## The nodes that a builder has open -/

namespace Builder

variable {b : Builder} {es before after : List Event} {n m : Nat}

theorem openNodes_addText (b : Builder) (s : String) : (b.addText s).openNodes = b.openNodes := by
  unfold addText
  split
  · rfl
  · simp only
    split <;> rfl

theorem length_openNodes (h : Event.depth n es = some m) (hb : b.openNodes.length = n) :
    (es.foldl step b).openNodes.length = m := by
  induction es generalizing b n with
  | nil =>
    obtain rfl : n = m := by simpa [Event.depth] using h
    exact hb
  | cons e es ih =>
    cases e with
    | start marker => exact ih h (congrArg (· + 1) hb)
    | text s => exact ih h (by rw [step, openNodes_addText, hb])
    | finish =>
      cases n with
      | zero => simp [Event.depth] at h
      | succ n => exact ih h (by simp [step, hb])

/-- A node is open where one is finished. -/
theorem openNodes_ne_nil (h : Event.depth n (before ++ .finish :: after) = some m)
    (hb : b.openNodes.length = n) : (before.foldl step b).openNodes ≠ [] := by
  intro hnil
  rw [Event.depth_append] at h
  obtain ⟨k, hk, h⟩ := Option.bind_eq_some_iff.1 h
  have hlength := length_openNodes hk hb
  rw [hnil, List.length_nil] at hlength
  subst hlength
  simp [Event.depth] at h

/-! ## What a builder loses -/

/-- Whether the node that is made for a marker gets below the current one. -/
def Attaches (b : Builder) (m : Marker) : Prop :=
  ((Tree.appendChild b.current (b.tree.alloc m).1).perform (b.tree.alloc m).2).1.isOk

/-- Whether nothing is lost when an event comes: there is a place for the node that it may bring,
and it does not finish the root. -/
def Accepts (b : Builder) : Event → Prop
  | .start m => b.Attaches m
  | .text s => b.Attaches (.text s)
  | .finish => b.openNodes ≠ []

/-- Whether nothing is lost when events come one by one, and no node but the root is open then. -/
def AcceptsAll (b : Builder) (es : List Event) : Prop :=
  (∀ before e after, es = before ++ e :: after → (before.foldl step b).Accepts e) ∧
    (es.foldl step b).openNodes = []

end Builder

namespace Draft

variable {identity : Nat} {d : Dialect}

/-- The current node takes any new one: nothing is below that, so it does not get below itself. -/
theorem attaches_builder (dr : Draft) (m : Marker) : (dr.builder identity d).Attaches m := by
  obtain ⟨f, outer⟩ := dr
  have hslot : (handleIn identity outer).slot =
      (slots identity [handleIn identity outer] outer).length := handleIn_slot ..
  have htree : (handleIn identity outer).tree = identity := rfl
  have hmove : ((builder identity d ⟨f, outer⟩).tree.alloc m).2.CanMove (handleIn identity outer)
      (handleIn identity (f :: outer)) := by
    rw [alloc_builder, ← lastHandle_current]
    exact Tree.canMove_last hslot htree rfl rfl rfl (parent_lt_of_mem_current f outer)
  rw [Builder.Attaches, current_builder, alloc_builder]
  rw [alloc_builder] at hmove
  rcases Tree.appendChild_cases _ _ _ with ⟨-, hdone⟩ | ⟨hnot, -⟩
  · rw [hdone]
    rfl
  · exact absurd hmove hnot

end Draft

theorem Builder.acceptsAll_of_balanced (identity : Nat) (d : Dialect) {es : List Event}
    (h : Event.Balanced es) : AcceptsAll ⟨Tree.empty identity d, []⟩ es := by
  have hend : (es.foldl step ⟨Tree.empty identity d, []⟩).openNodes = [] :=
    List.eq_nil_of_length_eq_zero (length_openNodes h rfl)
  refine ⟨fun before e after hes => ?_, hend⟩
  have hcome : before.foldl step ⟨Tree.empty identity d, []⟩ =
      (Draft.start.run before).builder identity d := Draft.foldl_builder before .start
  cases e with
  | start m =>
    rw [Accepts, hcome]
    exact Draft.attaches_builder _ m
  | text s =>
    rw [Accepts, hcome]
    exact Draft.attaches_builder _ (.text s)
  | finish => exact openNodes_ne_nil (hes ▸ h) rfl

end TabStop
