import TabStop.Proofs.Template.CaseFolding

/-!
# Templates that say the same

Literal texts that follow each other in a template may be joined, and a condition whose branches are
at most literal text may be kept as one that holds texts, in any branch at any depth. The output stays
the same, whatever cases are in force, though a branch without pieces gives no segment and an empty
text gives an empty one.
-/

namespace TabStop

namespace Segment

/-! ## Segments that fold alike -/

/-- Under all cases the segments give the same text and leave the same cases in force. -/
def FoldsAs (segments segments' : List Segment) : Prop :=
  ∀ s, foldFrom s segments = foldFrom s segments' ∧ s.afterAll segments = s.afterAll segments'

variable {as as' bs bs' cs : List Segment}

theorem FoldsAs.refl (as : List Segment) : FoldsAs as as := fun _ => ⟨rfl, rfl⟩

theorem FoldsAs.symm (h : FoldsAs as bs) : FoldsAs bs as := fun s => ⟨(h s).1.symm, (h s).2.symm⟩

theorem FoldsAs.trans (h : FoldsAs as bs) (h' : FoldsAs bs cs) : FoldsAs as cs :=
  fun s => ⟨(h s).1.trans (h' s).1, (h s).2.trans (h' s).2⟩

theorem FoldsAs.append (h : FoldsAs as as') (h' : FoldsAs bs bs') :
    FoldsAs (as ++ bs) (as' ++ bs') := by
  intro s
  -- What comes second is folded under the cases that the first part leaves in force
  obtain ⟨hfold, hafter⟩ := h s
  obtain ⟨hfold', hafter'⟩ := h' (s.afterAll as)
  constructor
  · rw [foldFrom_append, foldFrom_append, hfold, hfold', hafter]
  · rw [afterAll_append, afterAll_append, hafter', hafter]

/-- Two texts are folded like the one that they make together. -/
theorem foldsAs_join (a b : String) : FoldsAs [.text a, .text b] [.text (a ++ b)] := by
  intro s
  constructor
  · simp [foldFrom, applyCase_append]
  · simp [CaseState.afterAll, afterText_append]

/-- An empty text is folded like no text. -/
theorem foldsAs_empty : FoldsAs [] [.text ""] := by
  intro s
  constructor
  · simp [foldFrom, applyCase]
  · simp [CaseState.afterAll, CaseState.afterText]

end Segment

namespace Piece

open Segment

/-! ## Restating a template -/

/-- Templates that are made into each other by joining or parting literal texts and by keeping plain
branches of conditions as texts or as templates, at any depth. -/
inductive Restates : List Piece → List Piece → Prop
  | refl (ps : List Piece) : Restates ps ps
  | symm {ps qs : List Piece} (h : Restates ps qs) : Restates qs ps
  | trans {ps qs rs : List Piece} (h : Restates ps qs) (h' : Restates qs rs) : Restates ps rs
  | cons (p : Piece) {ps qs : List Piece} (h : Restates ps qs) : Restates (p :: ps) (p :: qs)
  | join (a b : String) (ps : List Piece) :
      Restates (text a :: text b :: ps) (text (a ++ b) :: ps)
  | plain (i : Nat) {as bs : List Piece} {a b : String} (ha : plainText? as = some a)
      (hb : plainText? bs = some b) (ps : List Piece) :
      Restates (condition i as bs :: ps) (textCondition i a b :: ps)
  | branches (i : Nat) {as as' bs bs' : List Piece} (ha : Restates as as')
      (hb : Restates bs bs') (ps : List Piece) :
      Restates (condition i as bs :: ps) (condition i as' bs' :: ps)

/-- Joining the literal texts of a template restates it. -/
theorem restates_mergeText (ps : List Piece) : Restates ps (mergeText ps) := by
  induction ps with
  | nil => exact .refl []
  | cons p ps ih =>
    have hcons : Restates (p :: ps) (p :: mergeText ps) := ih.cons p
    unfold mergeText
    split
    next a b rest hrest =>
      rw [hrest] at hcons
      exact hcons.trans (.join a b rest)
    next => exact hcons

/-- So does keeping the branches of a condition as texts where they are plain. -/
theorem restates_mkCondition (i : Nat) (as bs ps : List Piece) :
    Restates (condition i as bs :: ps) (mkCondition i as bs :: ps) := by
  unfold mkCondition
  split
  next a b ha hb => exact .plain i ha hb ps
  next => exact .refl _

/-! ## Output of restated templates -/

variable {groups : Groups} {ps qs : List Piece}

/-- A plain branch gives what its text gives. -/
theorem foldsAs_plainText {a : String} (h : plainText? ps = some a) :
    FoldsAs (renderAll groups ps) [.text a] := by
  unfold plainText? at h
  split at h
  · obtain rfl := Option.some.inj h
    exact foldsAs_empty
  · obtain rfl := Option.some.inj h
    exact .refl _
  · simp at h

/-- The rendering of a restated template folds as that of the template does. -/
theorem Restates.foldsAs (h : Restates ps qs) (groups : Groups) :
    FoldsAs (renderAll groups ps) (renderAll groups qs) := by
  -- By rule; on either side of a restated condition the groups choose the same branch
  induction h with
  | refl ps => exact .refl _
  | symm _ ih => exact ih.symm
  | trans _ _ ih ih' => exact ih.trans ih'
  | cons p _ ih => exact (FoldsAs.refl (render groups p)).append ih
  | join a b ps => exact (foldsAs_join a b).append (.refl (renderAll groups ps))
  | plain i ha hb ps =>
    refine FoldsAs.append ?_ (.refl (renderAll groups ps))
    simp only [render]
    split
    · exact foldsAs_plainText ha
    · exact foldsAs_plainText hb
  | branches i _ _ ps iha ihb =>
    refine FoldsAs.append ?_ (.refl (renderAll groups ps))
    simp only [render]
    split
    · exact iha
    · exact ihb

end Piece

namespace Transform

open Segment

theorem foldsAs_outputFrom {ps qs : List Piece} (h : Piece.Restates ps qs) (subject : List Char)
    (start : Nat) (found : List Pattern.Found) :
    FoldsAs (outputFrom ps subject start found) (outputFrom qs subject start found) := by
  induction found generalizing start with
  | nil => exact .refl _
  | cons m ms ih =>
    have hrendering := h.foldsAs (groupTexts subject m)
    exact (FoldsAs.refl [.text _]).append (hrendering.append (ih m.whole.stop))

/-- Joining literal texts and keeping plain branches as texts restates a template, and a template may
be restated at any depth: what is folded stays the same for all groups, under all cases and between
any segments, and a transform gives the same for every input. -/
theorem resolve_restated :
    (∀ ps, Piece.Restates ps (Piece.mergeText ps)) ∧
    (∀ i as bs ps, Piece.Restates (.condition i as bs :: ps) (Piece.mkCondition i as bs :: ps)) ∧
    ∀ ps qs, Piece.Restates ps qs →
      (∀ groups s before after, foldFrom s (before ++ Piece.renderAll groups ps ++ after) =
        foldFrom s (before ++ Piece.renderAll groups qs ++ after)) ∧
      ∀ t : Transform, t.pieces = ps → ∀ input,
        ({ t with pieces := qs } : Transform).resolve input = t.resolve input := by
  refine ⟨Piece.restates_mergeText, Piece.restates_mkCondition, fun ps qs h => ⟨?_, ?_⟩⟩
  · intro groups s before after
    have hfolds := ((FoldsAs.refl before).append (h.foldsAs groups)).append (.refl after)
    exact (hfolds s).1
  · rintro t rfl input
    -- The matches are those of the same pattern in the same text
    cases hfound : t.replaced (t.subject input).toList with
    | nil =>
      rw [resolve_of_not_found hfound, resolve_of_not_found (t := { t with pieces := qs }) hfound]
    | cons m ms =>
      have hfolds := foldsAs_outputFrom h.symm (t.subject input).toList 0 (m :: ms)
      rw [resolve_of_found hfound, resolve_of_found (t := { t with pieces := qs }) hfound]
      exact congrArg String.ofList (hfolds {}).1

/-- A condition in a branch of another one, with its texts apart. -/
def parted : List Piece :=
  [.directive .upperNext, .condition 0 [.condition 0 [.text "b", .text "c"] [], .text "d"] [],
    .text "e", .text "f"]

/-- The same with the texts joined and the inner condition kept as texts. -/
def joined : List Piece :=
  [.directive .upperNext, .condition 0 [.textCondition 0 "bc" "", .text "d"] [], .text "ef"]

theorem restates_joined : Piece.Restates parted joined := by
  have hinner : Piece.Restates [.condition 0 [.text "b", .text "c"] [], .text "d"]
      [.textCondition 0 "bc" "", .text "d"] :=
    (Piece.Restates.branches 0 (.join "b" "c" []) (.refl []) [.text "d"]).trans
      (.plain 0 rfl rfl [.text "d"])
  apply Piece.Restates.cons
  exact (Piece.Restates.branches 0 hinner (.refl []) _).trans (.cons _ (.join "e" "f" []))

/-- A transform with the one template gives what it gives with the other one. -/
theorem resolve_restated_nested :
    let t : Transform :=
      ⟨"a", {}, parted, (Regex.compile? ({} : TransformFlags).forPattern "a").get (by cbv), by simp⟩
    (∀ input, ({ t with pieces := joined } : Transform).resolve input = t.resolve input) ∧
      foldFrom {} ([.text "x"] ++ Piece.renderAll [some "a"] parted ++ [.text "x"]) =
        foldFrom {} ([.text "x"] ++ Piece.renderAll [some "a"] joined ++ [.text "x"]) := by
  intro t
  obtain ⟨hfold, hresolve⟩ := resolve_restated.2.2 parted joined restates_joined
  exact ⟨hresolve t rfl, hfold [some "a"] {} [.text "x"] [.text "x"]⟩

end Transform

end TabStop
