import NvmrDisplay.Lib.History
import NvmrDisplay.Qml.Layout

/-!
Which tile makes room for a clicked one. The page keeps no times: a counter
walks over the quads, so the quad whose turn it is holds the tile that was
placed first. The counter does not know of cameras that went away, so it may
come to an occupied quad while another one is free.
-/

namespace NvmrDisplay.Qml

open Lib

namespace VideoForm

/-- The tile is shown in one of the quads. -/
def InQuads (form : VideoForm) (video : NVMRVideo) : Prop :=
  ∃ quad ∈ quads, video ∈ form.children quad

instance (form : VideoForm) (video : NVMRVideo) : Decidable (form.InQuads video) :=
  List.decidableBEx (fun quad => video ∈ form.children quad) quads

/-- How many quads hold a tile. -/
def occupied (form : VideoForm) : Nat :=
  (quads.filter fun quad => !(form.children quad).isEmpty).length

/-- The argument of the call of `addToQuadVideo` in `videoClicked`, if any. -/
def addedToQuad (form : VideoForm) (video : Option NVMRVideo) : Option NVMRVideo :=
  match video with
  | none => none
  | some video =>
      if form.mainVideoVisible && form.parent video != some .mainVideo then none
      else if form.quadVideoVisible &&
          form.parent video != some .quad1 &&
          form.parent video != some .quad2 &&
          form.parent video != some .quad3 &&
          form.parent video != some .quad4 then
        some video
      else none

/-- The tile that handling an event places in a quad, if any. -/
def placed (form : VideoForm) : FormEvent → Option NVMRVideo
  | .rtspFound _ _ _ | .rtspWentAway _ => none
  | .click id => form.addedToQuad (form.tiles.find? fun video => video.id = id)
  | .multi =>
      if form.quadVideoVisible then none
      else
        let shown := { form with quadVideoVisible := true, mainVideoVisible := false }
        let (moved, newSingleVideo) := shown.reparentChildren .mainVideo
        moved.addedToQuad newSingleVideo
  | .single =>
      if form.mainVideoVisible then none
      else
        let shown := { form with
          quadVideoVisible := false
          mainVideoVisible := true
          quadVideoNumber := 0 }
        let (moved1, newSingleVideo) := shown.reparentChildren .quad1
        let (moved2, _) := moved1.reparentChildren .quad2
        let (moved3, _) := moved2.reparentChildren .quad3
        let (moved4, _) := moved3.reparentChildren .quad4
        moved4.addedToQuad newSingleVideo

/-- The tiles placed in the quads from a page on, in order. -/
def placementsFrom (form : VideoForm) : List FormEvent → List NVMRVideo
  | [] => []
  | event :: events => (form.placed event).toList ++ (form.handle event).placementsFrom events

def placements (events : List FormEvent) : List NVMRVideo :=
  initial.placementsFrom events

theorem placementsFrom_append (form : VideoForm) (events more : List FormEvent) :
    form.placementsFrom (events ++ more) =
      form.placementsFrom events ++ (form.runFrom events).placementsFrom more := by
  induction events generalizing form with
  | nil => rfl
  | cons event events ih =>
      rw [List.cons_append, placementsFrom, placementsFrom, ih, List.append_assoc]
      rfl

theorem placements_snoc (events : List FormEvent) (event : FormEvent) :
    placements (events ++ [event]) = placements events ++ ((run events).placed event).toList := by
  rw [placements, placementsFrom_append, placementsFrom, placementsFrom, List.append_nil]
  rfl

end VideoForm

namespace Screen

open VideoForm

/-- The tile that an event places in a quad. -/
def placed (screen : Screen) : FormEvent → Option NVMRVideo
  | .rtspFound _ _ _ | .rtspWentAway _ | .single => none
  | .click id =>
      match screen.view with
      | .single _ => none
      | .multi _ _ => screen.others.find? fun video => video.id = id
  | .multi =>
      match screen.view with
      | .single main => main
      | .multi _ _ => none

theorem mem_quads_iff (quad : Container) : quad ∈ quads ↔ ∃ i, quad = quadSlot i := by
  cases quad <;> decide

theorem children_quadSlot (screen : Screen) (i : Fin 4) :
    screen.toForm.children (quadSlot i) = (screen.view.quad i).toList := by
  obtain ⟨view, others, created⟩ := screen
  cases view <;> fin_cases i <;> rfl

theorem inQuads_iff (screen : Screen) (video : NVMRVideo) :
    screen.toForm.InQuads video ↔ ∃ i, screen.view.quad i = some video := by
  constructor
  · rintro ⟨quad, hquad, hvideo⟩
    obtain ⟨i, rfl⟩ := (mem_quads_iff quad).mp hquad
    rw [children_quadSlot, Option.mem_toList] at hvideo
    exact ⟨i, hvideo⟩
  · rintro ⟨i, hvideo⟩
    refine ⟨quadSlot i, (mem_quads_iff _).mpr ⟨i, rfl⟩, ?_⟩
    rw [children_quadSlot, Option.mem_toList]
    exact hvideo

/-- A tile in a slot of the view is not added to the quads. -/
theorem addedToQuad_slot (screen : Screen) (h : screen.Distinct) (video : NVMRVideo)
    (hvideo : video ∈ screen.view.tiles) : screen.toForm.addedToQuad (some video) = none := by
  obtain ⟨container, _, hslot, hparent⟩ := exists_parent_of_slot screen h hvideo
  simp only [addedToQuad, hparent]
  cases hview : screen.view <;> cases container <;>
    simp_all [toForm, View.isSingle, View.slot]

/-- A tile at the side is added to the quads while they are visible. -/
theorem addedToQuad_side (screen : Screen) (h : screen.Distinct) (video : NVMRVideo)
    (hvideo : video ∈ screen.others) :
    screen.toForm.addedToQuad (some video) =
      if screen.view.isSingle then none else some video := by
  have hparent : screen.toForm.parent video = some .otherVideos :=
    parent_eq _ h.form_nodup video .otherVideos hvideo
  simp only [addedToQuad, hparent]
  cases hview : screen.view <;> simp [toForm, hview, View.isSingle]

theorem placed_click (screen : Screen) (h : screen.Distinct) (id : Nat) :
    screen.toForm.placed (.click id) = screen.placed (.click id) := by
  simp only [VideoForm.placed, toForm_tiles, tiles, List.find?_append]
  cases hslot : screen.view.tiles.find? fun video => video.id = id with
  | some video =>
      have hnone := find?_side_eq_none h hslot
      rw [Option.some_or, addedToQuad_slot screen h video (List.mem_of_find?_eq_some hslot)]
      cases hview : screen.view <;> simp [placed, hview, hnone]
  | none =>
      rw [Option.none_or]
      cases hside : screen.others.find? fun video => video.id = id with
      | none => cases hview : screen.view <;> simp [placed, hview, hside, addedToQuad]
      | some video =>
          rw [addedToQuad_side screen h video (List.mem_of_find?_eq_some hside)]
          cases hview : screen.view <;> simp [placed, hview, hside, View.isSingle]

theorem placed_multi (screen : Screen) (h : screen.Distinct) :
    screen.toForm.placed .multi = screen.placed .multi := by
  obtain ⟨view, others, created⟩ := screen
  cases view with
  | multi quads next => rfl
  | single main =>
      have hhandler : (toForm ⟨.single main, others, created⟩).placed .multi =
          ((turnedMulti main others created).reparentChildren .mainVideo).1.addedToQuad
            ((turnedMulti main others created).reparentChildren .mainVideo).2 := rfl
      rw [hhandler, multiLoop_eq h]
      cases main with
      | none => rfl
      | some video => exact addedToQuad_side _ h.side_main video (by simp)

/-- The page that "Single" shows has no quads to place a tile in. -/
theorem placed_single (screen : Screen) (h : screen.Distinct) :
    screen.toForm.placed .single = none := by
  obtain ⟨view, others, created⟩ := screen
  cases view with
  | single main => rfl
  | multi quads next =>
      have hhandler : (toForm ⟨.multi quads next, others, created⟩).placed .single =
          (((((turnedSingle quads next others created).reparentChildren
            .quad1).1.reparentChildren .quad2).1.reparentChildren .quad3).1.reparentChildren
              .quad4).1.addedToQuad
            ((turnedSingle quads next others created).reparentChildren .quad1).2 := rfl
      obtain ⟨hfirst, hloops⟩ := singleLoops_eq h
      rw [hhandler, hfirst, hloops]
      cases hquad : quads 0 with
      | none => rfl
      | some video =>
          have hside := addedToQuad_side _ h.side_quads video (by simp [hquad])
          rw [hquad] at hside
          exact hside

theorem placed_toForm (screen : Screen) (h : screen.Distinct) (event : FormEvent) :
    screen.toForm.placed event = screen.placed event := by
  cases event with
  | rtspFound _ _ _ | rtspWentAway _ => rfl
  | click id => exact placed_click screen h id
  | multi => exact placed_multi screen h
  | single => exact placed_single screen h

end Screen

/-- The last placement of `newer` is later than every placement of `older`. -/
def PlacedBefore (history : List NVMRVideo) (older newer : NVMRVideo) : Prop :=
  Since (fun video => video = newer) (fun video => video = older) history

/-- Read cyclically from the quad whose turn it is, the quads are in the order
in which their tiles were placed. -/
structure Queued (history : List NVMRVideo) (quads : Fin 4 → Option NVMRVideo)
    (next : Fin 4) : Prop where
  placed : ∀ i video, quads i = some video → video ∈ history
  ordered : ∀ i j, i < j → ∀ older newer, quads (next + i) = some older →
    quads (next + j) = some newer → PlacedBefore history older newer

namespace Queued

variable {history : List NVMRVideo} {quads : Fin 4 → Option NVMRVideo} {next : Fin 4}

theorem empty (history : List NVMRVideo) (next : Fin 4) :
    Queued history (fun _ => none) next where
  placed _ _ h := by cases h
  ordered _ _ _ _ _ h := by cases h

/-- Holes do not change the order of what remains. -/
theorem remove (h : Queued history quads next) {fewer : Fin 4 → Option NVMRVideo}
    (hfewer : ∀ i video, fewer i = some video → quads i = some video) :
    Queued history fewer next where
  placed i video hvideo := h.placed i video (hfewer i video hvideo)
  ordered i j hij older newer holder hnewer :=
    h.ordered i j hij older newer (hfewer _ _ holder) (hfewer _ _ hnewer)

/-- The quad whose turn it is becomes the last one in the order. -/
theorem place (h : Queued history quads next) (video : NVMRVideo)
    (hnew : ∀ i, quads i ≠ some video) :
    Queued (history ++ [video]) (Function.update quads next (some video)) (next + 1) := by
  have hshift : ∀ next i : Fin 4, next + 1 + i = next + (i + 1) := by decide
  have hturn : ∀ next i : Fin 4, next + (i + 1) = next ↔ i = 3 := by decide
  have hsucc : ∀ i j : Fin 4, i < j → j ≠ 3 → i ≠ 3 ∧ i + 1 < j + 1 := by decide
  refine ⟨?_, ?_⟩
  · intro i other hother
    rw [Function.update_apply] at hother
    split at hother
    · obtain rfl := Option.some.inj hother
      simp
    · exact List.mem_append_left _ (h.placed i other hother)
  · intro i j hij older newer holder hnewer
    rw [hshift, Function.update_apply] at holder hnewer
    refine (Since.snoc history video).mpr ?_
    by_cases hj : j = 3
    · rw [if_pos ((hturn next j).mpr hj)] at hnewer
      exact Or.inl (Option.some.inj hnewer)
    · obtain ⟨hi, hlt⟩ := hsucc i j hij hj
      rw [if_neg (mt (hturn next j).mp hj)] at hnewer
      rw [if_neg (mt (hturn next i).mp hi)] at holder
      refine Or.inr ⟨h.ordered _ _ hlt older newer holder hnewer, ?_⟩
      rintro rfl
      exact hnew _ holder

end Queued

namespace Screen

/-- A tile at the side is in no quad. -/
theorem quad_ne_of_side {screen : Screen} (h : screen.Distinct) {video : NVMRVideo}
    (hvideo : video ∈ screen.others) (i : Fin 4) : screen.view.quad i ≠ some video := by
  intro hquad
  obtain ⟨quad, hquad, hshown⟩ := (inQuads_iff screen video).mpr ⟨i, hquad⟩
  have hside : video ∈ screen.toForm.children .otherVideos := hvideo
  refine VideoForm.not_mem_of_ne _ h.form_nodup video hside ?_ hshown
  rintro rfl
  simp [VideoForm.quads] at hquad

theorem click_queued {screen : Screen} (h : screen.Distinct) {history : List NVMRVideo}
    (hqueued : Queued history screen.view.quad screen.view.next) (id : Nat) :
    Queued (history ++ (screen.placed (.click id)).toList) (screen.click id).view.quad
      (screen.click id).view.next := by
  obtain ⟨view, others, created⟩ := screen
  cases hside : others.find? fun video => video.id = id with
  | none => cases view <;> simpa [click, placed, hside] using hqueued
  | some video =>
      cases view with
      | single main =>
          simp only [click, placed, hside, choose]
          exact Queued.empty _ _
      | multi quads next =>
          simp only [click, placed, hside, choose]
          exact hqueued.place video (quad_ne_of_side h (List.mem_of_find?_eq_some hside))

/-- One event keeps the quads queued. -/
theorem handle_queued {screen : Screen} (h : screen.Distinct) {history : List NVMRVideo}
    (hqueued : Queued history screen.view.quad screen.view.next) (event : FormEvent) :
    Queued (history ++ (screen.placed event).toList) (screen.handle event).view.quad
      (screen.handle event).view.next := by
  cases event with
  | rtspFound url uniqueName videoName =>
    simpa [placed, handle, addCamera, showQuads, showMain] using hqueued
  | rtspWentAway uniqueName =>
      obtain ⟨view, others, created⟩ := screen
      cases view with
      | single main =>
          simp only [placed, handle, removeCamera, View.removeCamera]
          exact Queued.empty _ _
      | multi quads next =>
          simp only [placed, Option.toList_none, List.append_nil]
          refine hqueued.remove ?_
          intro i video hvideo
          exact (Option.filter_eq_some_iff.mp hvideo).1
  | click id => exact click_queued h hqueued id
  | multi =>
      obtain ⟨view, others, created⟩ := screen
      cases view with
      | multi quads next => simpa [placed, handle, addCamera, showQuads, showMain] using hqueued
      | single main =>
          cases main with
          | none =>
              simp only [placed, handle, showQuads]
              exact Queued.empty _ _
          | some video =>
              simp only [placed, handle, showQuads]
              exact (Queued.empty history 0).place video (by simp)
  | single =>
      obtain ⟨view, others, created⟩ := screen
      cases view with
      | single main => simpa [placed, handle, addCamera, showQuads, showMain] using hqueued
      | multi quads next =>
          simp only [placed, handle, showMain]
          exact Queued.empty _ _

end Screen

namespace VideoForm

/-- Every reached page shows a screen whose quads are queued by the placements
of the run. -/
theorem run_queued (events : List FormEvent) :
    ∃ screen : Screen, run events = screen.toForm ∧ screen.Distinct ∧
      Queued (placements events) screen.view.quad screen.view.next := by
  have hstep (prior : List FormEvent) (screen : Screen) (event : FormEvent)
      (hrun : run prior = screen.toForm) (hdistinct : screen.Distinct)
      (hqueued : Queued (placements prior) screen.view.quad screen.view.next) :
      Queued (placements (prior ++ [event])) (screen.handle event).view.quad
        (screen.handle event).view.next := by
    rw [placements_snoc, hrun, screen.placed_toForm hdistinct]
    exact screen.handle_queued hdistinct hqueued event
  obtain ⟨screen, hrun, hholds, hqueued⟩ := run_screen
    (P := fun events screen => Queued (placements events) screen.view.quad screen.view.next)
    (Queued.empty _ _) hstep events
  exact ⟨screen, hrun, hholds.distinct, hqueued⟩

/-- The click takes the tile out of the quads. -/
def LeavesQuads (form : VideoForm) (id : Nat) (video : NVMRVideo) : Prop :=
  form.InQuads video ∧ ¬ (form.clicked id).InQuads video

/-- Only the quad whose turn it is loses its tile to a clicked one. -/
theorem leaves_next (screen : Screen) (h : screen.Distinct) (id : Nat) (video : NVMRVideo)
    (hleaves : screen.toForm.LeavesQuads id video) :
    screen.view.quad screen.view.next = some video := by
  obtain ⟨hbefore, hafter⟩ := hleaves
  rw [screen.clicked_toForm h, Screen.inQuads_iff] at hafter
  obtain ⟨i, hi⟩ := (Screen.inQuads_iff screen video).mp hbefore
  obtain ⟨view, others, created⟩ := screen
  cases view with
  | single main => cases hi
  | multi quads next =>
      by_contra hnext
      have hne : i ≠ next := by
        rintro rfl
        exact hnext hi
      apply hafter
      refine ⟨i, ?_⟩
      simp only [Screen.click]
      split
      · simpa [Screen.choose, View.quad, hne] using hi
      · exact hi

/-- Replacement is first in, first out. At most one tile leaves the quads at a
click, and every other tile in them was placed later than it. -/
theorem replacement_first_in_first_out (events : List FormEvent) (id : Nat) :
    (∀ left other, (run events).LeavesQuads id left → (run events).LeavesQuads id other →
        left = other) ∧
      ∀ left, (run events).LeavesQuads id left →
        left ∈ placements events ∧
          ∀ other, (run events).InQuads other → other ≠ left →
            other ∈ placements events ∧ PlacedBefore (placements events) left other := by
  obtain ⟨screen, hrun, hdistinct, hqueued⟩ := run_queued events
  rw [hrun]
  refine ⟨?_, ?_⟩
  · intro left other hleft hother
    have hnext := leaves_next screen hdistinct id left hleft
    rw [leaves_next screen hdistinct id other hother] at hnext
    exact (Option.some.inj hnext).symm
  · intro left hleft
    have hnext := leaves_next screen hdistinct id left hleft
    refine ⟨hqueued.placed _ left hnext, ?_⟩
    intro other hother hne
    obtain ⟨k, hk⟩ := (Screen.inQuads_iff screen other).mp hother
    refine ⟨hqueued.placed k other hk, ?_⟩
    have hturn :
        ∀ next k : Fin 4, k ≠ next → 0 < k - next ∧ next + (k - next) = k := by decide
    have hkne : k ≠ screen.view.next := by
      rintro rfl
      rw [hnext] at hk
      exact hne (Option.some.inj hk).symm
    obtain ⟨hpos, hcycle⟩ := hturn screen.view.next k hkne
    apply hqueued.ordered 0 (k - screen.view.next) hpos left other
    · have hzero : ∀ next : Fin 4, next + 0 = next := by decide
      rw [hzero]
      exact hnext
    · rw [hcycle]
      exact hk

theorem occupied_le (form : VideoForm) : form.occupied ≤ 4 :=
  List.length_filter_le _ quads

/-- What a click on a tile outside the quads promises: it is shown in one of
them, and while there is room no other tile has to move. -/
def FreeQuadFirst (form : VideoForm) : FormEvent → Prop
  | .click id =>
      form.quadVideoVisible → ∀ video ∈ form.tiles, video.id = id →
        ¬ form.InQuads video →
        (form.clicked id).InQuads video ∧
          (form.occupied < 4 → ∀ quad ∈ quads, ∀ shown ∈ form.children quad,
            shown ∈ (form.clicked id).children quad)
  | _ => True

/-- Clicks on tiles outside the quads find the selected quad empty, or all four
occupied. -/
def HasRoom (form : VideoForm) : FormEvent → Prop
  | .click id =>
      form.quadVideoVisible → ∀ video ∈ form.tiles, video.id = id →
        ¬ form.InQuads video →
        (∃ quad, correctQuad form.quadVideoNumber = some quad ∧ form.children quad = []) ∨
          form.occupied = 4
  | _ => True

end VideoForm

namespace Screen

open VideoForm (quadSlot)

theorem mem_quadTiles_iff (quads : Fin 4 → Option NVMRVideo) (video : NVMRVideo) :
    video ∈ View.quadTiles quads ↔ ∃ i, quads i = some video := by
  simp [View.quadTiles, Fin.exists_fin_succ]

/-- While the quads are visible, a tile that is in none of them is at the side. -/
theorem mem_others_of_out {quads : Fin 4 → Option NVMRVideo} {next : Fin 4}
    {others : List NVMRVideo} {created : Nat} {video : NVMRVideo}
    (htile : video ∈ (toForm ⟨.multi quads next, others, created⟩).tiles)
    (hout : ¬ (toForm ⟨.multi quads next, others, created⟩).InQuads video) :
    video ∈ others := by
  rw [toForm_tiles] at htile
  rcases List.mem_append.mp htile with hslot | hside
  · exfalso
    apply hout
    rw [inQuads_iff]
    exact (mem_quadTiles_iff quads video).mp hslot
  · exact hside

theorem find?_side {screen : Screen} (h : screen.Distinct) {video : NVMRVideo}
    (hvideo : video ∈ screen.others) :
    screen.others.find? (fun other => other.id = video.id) = some video := by
  cases hfound : screen.others.find? fun other => other.id = video.id with
  | none => simpa using List.find?_eq_none.mp hfound video hvideo
  | some found =>
      have hsame : found.id = video.id := by simpa using List.find?_some hfound
      have hother : found ∈ screen.others := List.mem_of_find?_eq_some hfound
      rw [List.inj_on_of_nodup_map h.nodup (List.mem_append_right _ hother)
        (List.mem_append_right _ hvideo) hsame]

/-- Seating a tile in a quad disturbs no other quad. -/
theorem update_keeps_iff {quads : Fin 4 → Option NVMRVideo} {next : Fin 4} {video : NVMRVideo}
    (hside : ∀ i, quads i ≠ some video) :
    (∀ i shown, quads i = some shown →
        Function.update quads next (some video) i = some shown) ↔
      quads next = none := by
  constructor
  · intro hkept
    cases hnext : quads next with
    | none => rfl
    | some shown =>
        have hshown := hkept next shown hnext
        rw [Function.update_self] at hshown
        rw [← hshown] at hnext
        exact absurd hnext (hside next)
  · intro hnext i shown hshown
    have hne : i ≠ next := by
      rintro rfl
      rw [hnext] at hshown
      cases hshown
    rw [Function.update_of_ne hne]
    exact hshown

/-- Every quad of one page still shows its tile in another. -/
theorem keeps_quads_iff (screen other : Screen) :
    (∀ quad ∈ VideoForm.quads, ∀ shown ∈ screen.toForm.children quad,
        shown ∈ other.toForm.children quad) ↔
      ∀ i shown, screen.view.quad i = some shown → other.view.quad i = some shown := by
  constructor
  · intro hkept i shown hshown
    have hquad := hkept (quadSlot i) ((mem_quads_iff _).mpr ⟨i, rfl⟩) shown
    simp only [children_quadSlot, Option.mem_toList] at hquad
    exact hquad hshown
  · intro hkept quad hquad shown hshown
    obtain ⟨i, rfl⟩ := (mem_quads_iff quad).mp hquad
    rw [children_quadSlot, Option.mem_toList] at hshown ⊢
    exact hkept i shown hshown

/-- The quad that the counter selects is empty. -/
theorem selected_empty_iff (quads : Fin 4 → Option NVMRVideo) (next : Fin 4)
    (others : List NVMRVideo) (created : Nat) :
    (∃ quad, VideoForm.correctQuad
        (toForm ⟨.multi quads next, others, created⟩).quadVideoNumber = some quad ∧
        (toForm ⟨.multi quads next, others, created⟩).children quad = []) ↔
      quads next = none := by
  have hquad : VideoForm.correctQuad
      (toForm ⟨.multi quads next, others, created⟩).quadVideoNumber = some (quadSlot next) :=
    VideoForm.correctQuad_eq next
  rw [hquad, ← Option.toList_eq_nil_iff]
  simp only [Option.some.injEq, exists_eq_left', children_quadSlot]
  rfl

/-- The promise and its condition agree on every page of a screen: the clicked
tile takes the quad whose turn it is, so that one has to be empty. -/
theorem freeQuadFirst_iff (screen : Screen) (h : screen.Distinct) (event : FormEvent) :
    screen.toForm.FreeQuadFirst event ↔ screen.toForm.HasRoom event := by
  cases event with
  | rtspFound _ _ _ | rtspWentAway _ | multi | single => exact Iff.rfl
  | click id =>
      simp only [VideoForm.FreeQuadFirst, VideoForm.HasRoom]
      refine forall_congr' fun hvisible => forall_congr' fun video => forall_congr' fun htile =>
        forall_congr' fun hid => forall_congr' fun hout => ?_
      subst hid
      obtain ⟨view, others, created⟩ := screen
      cases view with
      | single main => simp [toForm, View.isSingle] at hvisible
      | multi quads next =>
          have hvideo : video ∈ others := mem_others_of_out htile hout
          have hclick : (toForm ⟨.multi quads next, others, created⟩).clicked video.id =
              (choose ⟨.multi quads next, others, created⟩ video).toForm := by
            rw [clicked_toForm _ h, click, find?_side h hvideo]
          have hseated : (choose ⟨.multi quads next, others, created⟩ video).toForm.InQuads
              video := by
            rw [inQuads_iff]
            exact ⟨next, Function.update_self _ _ _⟩
          have hkept : (∀ i shown, quads i = some shown →
              Function.update quads next (some video) i = some shown) ↔ quads next = none :=
            update_keeps_iff (quad_ne_of_side h hvideo)
          have hle := (toForm ⟨.multi quads next, others, created⟩).occupied_le
          rw [hclick, keeps_quads_iff, selected_empty_iff, ← hkept]
          constructor
          · rintro ⟨_, hkeeps⟩
            by_cases hfull : (toForm ⟨.multi quads next, others, created⟩).occupied = 4
            · exact Or.inr hfull
            · exact Or.inl (hkeeps (by omega))
          · rintro (hkeeps | hfull)
            · exact ⟨hseated, fun _ => hkeeps⟩
            · refine ⟨hseated, ?_⟩
              intro hless
              omega

end Screen

namespace VideoForm

/-- In a run, a free quad is used before a shown camera is replaced exactly if
the counter never selects an occupied quad while another one is empty. -/
theorem free_quad_first_iff (events : List FormEvent) :
    Throughout (fun before event => (run before).FreeQuadFirst event) events ↔
      Throughout (fun before event => (run before).HasRoom event) events := by
  have hstep (before : List FormEvent) (event : FormEvent) :
      (run before).FreeQuadFirst event ↔ (run before).HasRoom event := by
    obtain ⟨screen, hrun, hholds⟩ := run_shows before
    rw [hrun]
    exact screen.freeQuadFirst_iff hholds.distinct event
  simp only [Throughout, hstep]

/-- Four of five cameras are shown, and the second of them goes away. -/
def secondQuadFree : List FormEvent :=
  [.rtspFound "rtsp://a" "a" "A", .rtspFound "rtsp://b" "b" "B", .rtspFound "rtsp://c" "c" "C",
    .rtspFound "rtsp://d" "d" "D", .rtspFound "rtsp://e" "e" "E",
    .click 0, .click 1, .click 2, .click 3, .rtspWentAway "b"]

/-- The fifth camera takes the first quad, though the second one is free. -/
theorem free_quad_not_first :
    (run secondQuadFree).occupied = 3 ∧
      (run (secondQuadFree ++ [.click 4])).children .quad2 = [] ∧
      ¬ Throughout (fun before event => (run before).FreeQuadFirst event)
        (secondQuadFree ++ [.click 4]) := by
  refine ⟨by decide, by decide, ?_⟩
  intro h
  obtain ⟨_, hkeeps⟩ := h secondQuadFree (.click 4) [] rfl (by decide)
    ⟨4, "E", "rtsp://e", "e"⟩ (by decide) rfl (by decide)
  have hfirst := hkeeps (by decide) .quad1 (by decide) ⟨0, "A", "rtsp://a", "a"⟩ (by decide)
  exact absurd hfirst (by decide)

end VideoForm

end NvmrDisplay.Qml
