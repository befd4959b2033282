import NvmrDisplay.Qml.Screen

/-!
Every handler of the page acts on the page of a screen as the corresponding
operation acts on the screen. The index loops never skip a tile, because a
slot holds at most one; the parent read back from the page is the container
the tile is in, because no tile is in two.
-/

namespace NvmrDisplay.Qml

open Lib

theorem Container.mem_all (container : Container) : container ∈ Container.all := by
  cases container <;> decide

namespace VideoForm

/-- The children of `source` appended to `otherVideos`. -/
def moveAside (form : VideoForm) (source : Container) : VideoForm :=
  { form with
    children := Function.update (Function.update form.children source [])
      .otherVideos (form.children .otherVideos ++ form.children source) }

theorem mem_tiles_iff (form : VideoForm) (video : NVMRVideo) :
    video ∈ form.tiles ↔ ∃ container, video ∈ form.children container := by
  simp [tiles, Container.mem_all]

theorem parent_eq (form : VideoForm) (hform : form.tiles.Nodup)
    (video : NVMRVideo) (container : Container)
    (hvideo : video ∈ form.children container) :
    form.parent video = some container := by
  have happart := (List.nodup_flatMap.mp hform).2
  cases hfound : form.parent video with
  | none =>
      have := List.find?_eq_none.mp hfound container container.mem_all
      simp [hvideo] at this
  | some found =>
      have hmember : video ∈ form.children found := by
        simpa using List.find?_some hfound
      by_contra hne
      have : Std.Symm (Function.onFun List.Disjoint form.children) :=
        ⟨fun _ _ h _ hleft hright => h hright hleft⟩
      have hdisjoint := happart.forall found.mem_all container.mem_all
        (fun h => hne (congrArg some h))
      exact hdisjoint hmember hvideo

theorem not_mem_of_ne (form : VideoForm) (hform : form.tiles.Nodup)
    (video : NVMRVideo) {container other : Container}
    (hvideo : video ∈ form.children container) (hne : other ≠ container) :
    video ∉ form.children other := by
  intro hother
  have h := parent_eq form hform video container hvideo
  rw [parent_eq form hform video other hother] at h
  exact hne (Option.some.inj h)

theorem setParent_eq (form : VideoForm) (hform : form.tiles.Nodup)
    (video : NVMRVideo) (source target : Container)
    (hvideo : video ∈ form.children source) (hne : source ≠ target) :
    form.setParent video target =
      { form with
        children := Function.update
          (Function.update form.children source ((form.children source).erase video))
          target (form.children target ++ [video]) } := by
  have hparent := parent_eq form hform video source hvideo
  simp only [setParent, hparent, Option.some.injEq, hne, if_false]
  congr 1
  funext other
  by_cases htarget : other = target
  · subst other
    simp
  · by_cases hsource : other = source
    · subst other
      simp [htarget]
    · have hother := not_mem_of_ne form hform video hvideo hsource
      simp [htarget, hsource, List.erase_of_not_mem hother]

theorem reparentStep_length (source : Container) (hsource : source ≠ .otherVideos) (i : Nat)
    (state : VideoForm × Option NVMRVideo) :
    ((reparentStep source i state).1.children source).length ≤
      (state.1.children source).length := by
  unfold reparentStep
  split
  · simp only [setParent]
    split
    · exact Nat.le_refl _
    · simp only [hsource, if_false]
      exact List.length_erase_le
  · exact Nat.le_refl _

/-- The loops that move tiles aside end through their own guard. -/
theorem reparentChildren_stops (form : VideoForm) (source : Container)
    (hsource : source ≠ .otherVideos) (extra : Nat) :
    IndexLoop.runFrom (fun state => (state.1.children source).length) (reparentStep source)
        ((form.children source).length + extra) 0 (form, none) =
      form.reparentChildren source :=
  IndexLoop.run_stops _ _ (reparentStep_length source hsource) extra (form, none)

/-- A loop over a container that holds at most one tile moves it aside. -/
theorem reparentChildren_eq (form : VideoForm) (hform : form.tiles.Nodup)
    (source : Container) (hsource : source ≠ .otherVideos)
    (hslot : (form.children source).length ≤ 1) :
    form.reparentChildren source =
      (form.moveAside source, (form.children source).head?) := by
  match hchildren : form.children source with
  | [] =>
      rw [reparentChildren, IndexLoop.run_of_empty _ _ _ (by simp [hchildren])]
      have hsame : Function.update form.children source [] = form.children := by
        rw [← hchildren]
        exact Function.update_eq_self _ _
      simp [moveAside, hchildren, hsame]
  | [video] =>
      rw [reparentChildren, IndexLoop.run_of_single _ _ _ (by simp [hchildren])]
      simp only [reparentStep, hchildren, List.getElem?_cons_zero, List.head?_cons]
      rw [setParent_eq form hform video source .otherVideos (by simp [hchildren]) hsource]
      simp [moveAside, hchildren]
  | _ :: _ :: _ =>
      simp [hchildren] at hslot

theorem moveAside_tiles (form : VideoForm) (source : Container)
    (hsource : source ≠ .otherVideos) :
    (form.moveAside source).tiles.Perm form.tiles := by
  rw [List.perm_iff_count]
  intro video
  cases source with
  | otherVideos => exact absurd rfl hsource
  | _ => simp [tiles, moveAside, Container.all, List.count_append]; omega

theorem moveAside_nodup (form : VideoForm) (source : Container)
    (hsource : source ≠ .otherVideos) (hform : form.tiles.Nodup) :
    (form.moveAside source).tiles.Nodup :=
  (moveAside_tiles form source hsource).nodup_iff.mpr hform

/-- Empty the slot, then seat a tile from the side in it. -/
theorem seat_eq (form : VideoForm) (hform : form.tiles.Nodup) (video : NVMRVideo)
    (slot : Container) (hslot : slot ≠ .otherVideos)
    (hlength : (form.children slot).length ≤ 1)
    (hvideo : video ∈ form.children .otherVideos) :
    (form.reparentChildren slot).1.setParent video slot =
      { form with
        children := Function.update (Function.update form.children slot [video])
          .otherVideos ((form.children .otherVideos ++ form.children slot).erase video) } := by
  rw [reparentChildren_eq form hform slot hslot hlength]
  have haside := moveAside_nodup form slot hslot hform
  rw [setParent_eq _ haside video .otherVideos slot (by simp [moveAside, hvideo]) hslot.symm]
  simp only [moveAside, Function.update_self, Function.update_of_ne hslot]
  congr 1
  funext container
  by_cases hothers : container = .otherVideos
  · subst container
    simp [hslot.symm]
  · by_cases hcontainer : container = slot
    · subst container
      simp [hslot]
    · simp [hothers, hcontainer]

/-- The container of the quad whose turn it is. -/
def quadSlot : Fin 4 → Container
  | 0 => .quad1
  | 1 => .quad2
  | 2 => .quad3
  | 3 => .quad4

theorem correctQuad_eq (next : Fin 4) :
    correctQuad (next.val : Int) = some (quadSlot next) := by
  fin_cases next <;> rfl

theorem quadSlot_ne (next : Fin 4) : quadSlot next ≠ .otherVideos := by
  fin_cases next <;> decide

theorem counter_succ (next : Fin 4) :
    (if (next.val : Int) + 1 = 4 then 0 else (next.val : Int) + 1) =
      ((next + 1 : Fin 4).val : Int) := by
  fin_cases next <;> rfl

/-- With the counter in range, adding a video empties and takes the quad whose
turn it is and counts modulo four. -/
theorem addToQuadVideo_eq (form : VideoForm) (next : Fin 4) (video : NVMRVideo)
    (hnumber : form.quadVideoNumber = next.val) :
    form.addToQuadVideo video =
      (({ form with quadVideoNumber := (next + 1).val }).reparentChildren
        (quadSlot next)).1.setParent video (quadSlot next) := by
  simp only [addToQuadVideo, hnumber, correctQuad_eq, counter_succ]

theorem destroyed_eq (form : VideoForm) (uniqueName : String) (containers : List Container)
    (destroyed : List NVMRVideo) :
    containers.foldl (form.destroyLoop uniqueName) destroyed =
      destroyed ++ containers.flatMap fun container =>
        (form.children container).filter fun video => video.uniqueName == uniqueName := by
  induction containers generalizing destroyed with
  | nil => simp
  | cons container rest ih =>
      rw [List.foldl_cons, ih, destroyLoop, IndexLoop.run_collect]
      simp

/-- Scanning every container that holds a tile is enough to remove a camera
from all of them. -/
theorem filter_destroyed (form : VideoForm) (uniqueName : String)
    (scanned : List Container) (container : Container)
    (hscanned : container ∈ scanned ∨ form.children container = []) :
    ((form.children container).filter fun video =>
        video ∉ scanned.foldl (form.destroyLoop uniqueName) []) =
      (form.children container).filter fun video => video.uniqueName != uniqueName := by
  rcases hscanned with hscanned | hempty
  · apply List.filter_congr
    intro video hvideo
    have hiff : video ∈ scanned.foldl (form.destroyLoop uniqueName) [] ↔
        video.uniqueName = uniqueName := by
      rw [destroyed_eq]
      simp only [List.nil_append, List.mem_flatMap, List.mem_filter, beq_iff_eq]
      constructor
      · rintro ⟨_, _, _, hname⟩
        exact hname
      · intro hname
        exact ⟨container, hscanned, hvideo, hname⟩
    simp [hiff, bne, beq_eq_decide]
  · simp [hempty]

end VideoForm

theorem View.mem_tiles_iff (view : View) (video : NVMRVideo) :
    video ∈ view.tiles ↔ ∃ container, view.slot container = some video := by
  constructor
  · cases view with
    | single main =>
        intro h
        exact ⟨.mainVideo, by simpa [tiles, slot] using h⟩
    | multi quads next =>
        simp only [tiles, quadTiles, List.mem_append, Option.mem_toList]
        rintro (((h | h) | h) | h)
        · exact ⟨.quad1, h⟩
        · exact ⟨.quad2, h⟩
        · exact ⟨.quad3, h⟩
        · exact ⟨.quad4, h⟩
  · rintro ⟨container, hslot⟩
    cases view <;> cases container <;> simp_all [slot, tiles, quadTiles]

namespace Screen

open VideoForm

theorem toForm_tiles (screen : Screen) : screen.toForm.tiles = screen.tiles := by
  obtain ⟨view, others, created⟩ := screen
  cases view <;>
    simp [VideoForm.tiles, Container.all, toForm, tiles, View.slot, View.tiles, View.quadTiles]

theorem Distinct.tiles_nodup {screen : Screen} (h : screen.Distinct) : screen.tiles.Nodup :=
  h.nodup.of_map

theorem Distinct.form_nodup {screen : Screen} (h : screen.Distinct) :
    screen.toForm.tiles.Nodup := by
  rw [toForm_tiles]
  exact h.tiles_nodup

theorem toForm_children (screen : Screen) {container : Container}
    (hne : container ≠ .otherVideos) :
    screen.toForm.children container = (screen.view.slot container).toList := by
  cases container with
  | otherVideos => exact absurd rfl hne
  | _ => rfl

theorem toForm_slot_length (screen : Screen) (container : Container)
    (hne : container ≠ .otherVideos) :
    (screen.toForm.children container).length ≤ 1 := by
  rw [toForm_children screen hne]
  exact Option.length_toList_le

theorem found_toForm (screen : Screen) (url uniqueName videoName : String) :
    screen.toForm.onRpiVideoSenderRtspFound url uniqueName videoName =
      (screen.addCamera url uniqueName videoName).toForm := by
  simp only [onRpiVideoSenderRtspFound, toForm, addCamera, VideoForm.mk.injEq, and_self,
    and_true]
  funext container
  cases container <;> rfl

theorem slot_removeCamera (view : View) (uniqueName : String) (container : Container) :
    (view.removeCamera uniqueName).slot container =
      (view.slot container).filter fun video => video.uniqueName != uniqueName := by
  cases view <;> cases container <;> rfl

theorem children_removeCamera (screen : Screen) (uniqueName : String) (container : Container) :
    (screen.removeCamera uniqueName).toForm.children container =
      (screen.toForm.children container).filter fun video => video.uniqueName != uniqueName := by
  cases container with
  | otherVideos => rfl
  | _ => simp [toForm, removeCamera, slot_removeCamera, Option.toList_filter]

theorem wentAway_toForm (screen : Screen) (uniqueName : String) :
    screen.toForm.onRpiVideoSenderRtspWentAway uniqueName =
      (screen.removeCamera uniqueName).toForm := by
  apply VideoForm.ext
  · funext container
    rw [children_removeCamera]
    simp only [onRpiVideoSenderRtspWentAway]
    apply filter_destroyed
    obtain ⟨view, others, created⟩ := screen
    cases view <;> cases container <;> simp [toForm, View.isSingle, View.slot]
  all_goals
    obtain ⟨view, others, created⟩ := screen
    cases view <;> rfl

theorem Distinct.of_perm {screen other : Screen} (h : screen.Distinct)
    (htiles : other.tiles.Perm screen.tiles) (hcreated : screen.created ≤ other.created) :
    other.Distinct where
  nodup := ((htiles.map _).nodup_iff).mpr h.nodup
  fresh video hvideo := (h.fresh video (htiles.subset hvideo)).trans_le hcreated

theorem choose_single_toForm (screen : Screen) (main : Option NVMRVideo)
    (hview : screen.view = .single main) (h : screen.Distinct) (video : NVMRVideo)
    (hvideo : video ∈ screen.others) :
    (screen.toForm.reparentChildren .mainVideo).1.setParent video .mainVideo =
      (screen.choose video).toForm := by
  rw [seat_eq screen.toForm h.form_nodup video .mainVideo (by decide)
    (toForm_slot_length _ _ (by decide)) hvideo]
  obtain ⟨view, others, created⟩ := screen
  subst hview
  apply VideoForm.ext
  · funext container
    cases container <;> simp [toForm, choose, View.slot]
  all_goals rfl

theorem choose_multi_toForm (screen : Screen) (quads : Fin 4 → Option NVMRVideo)
    (next : Fin 4) (hview : screen.view = .multi quads next) (h : screen.Distinct)
    (video : NVMRVideo) (hvideo : video ∈ screen.others) :
    screen.toForm.addToQuadVideo video = (screen.choose video).toForm := by
  rw [addToQuadVideo_eq screen.toForm next video (by simp [toForm, hview, View.counter])]
  rw [seat_eq { screen.toForm with quadVideoNumber := (next + 1).val } h.form_nodup video
    (quadSlot next) (quadSlot_ne next) (toForm_slot_length screen _ (quadSlot_ne next)) hvideo]
  obtain ⟨view, others, created⟩ := screen
  subst hview
  apply VideoForm.ext
  · funext container
    fin_cases next <;> cases container <;>
      simp [toForm, choose, View.slot, quadSlot]
  all_goals rfl

/-- A click on a tile at the side. -/
theorem videoClicked_toForm (screen : Screen) (h : screen.Distinct) (video : NVMRVideo)
    (hvideo : video ∈ screen.others) :
    screen.toForm.videoClicked (some video) = (screen.choose video).toForm := by
  have hparent : screen.toForm.parent video = some .otherVideos :=
    parent_eq _ h.form_nodup video .otherVideos hvideo
  cases hview : screen.view with
  | single main =>
      rw [← choose_single_toForm screen main hview h video hvideo]
      simp only [videoClicked, hparent]
      simp [toForm, hview, View.isSingle]
  | multi quads next =>
      rw [← choose_multi_toForm screen quads next hview h video hvideo]
      simp only [videoClicked, hparent]
      simp [toForm, hview, View.isSingle]

/-- The parent of a tile in a slot of the view is that slot. -/
theorem exists_parent_of_slot (screen : Screen) (h : screen.Distinct) {video : NVMRVideo}
    (hvideo : video ∈ screen.view.tiles) :
    ∃ container, container ≠ .otherVideos ∧ screen.view.slot container = some video ∧
      screen.toForm.parent video = some container := by
  obtain ⟨container, hslot⟩ := (View.mem_tiles_iff _ _).mp hvideo
  have hne : container ≠ .otherVideos := by
    rintro rfl
    cases hview : screen.view <;> simp [hview, View.slot] at hslot
  exact ⟨container, hne, hslot,
    parent_eq _ h.form_nodup video container (by simp [toForm_children _ hne, hslot])⟩

/-- A click on a tile that is already in a slot of the view does nothing. -/
theorem videoClicked_slot (screen : Screen) (h : screen.Distinct) (video : NVMRVideo)
    (hvideo : video ∈ screen.view.tiles) :
    screen.toForm.videoClicked (some video) = screen.toForm := by
  obtain ⟨container, _, hslot, hparent⟩ := exists_parent_of_slot screen h hvideo
  simp only [videoClicked, hparent]
  cases hview : screen.view <;> cases container <;>
    simp_all [toForm, View.isSingle, View.slot]

/-- Identities are distinct, so what is found in a slot is not at the side. -/
theorem find?_side_eq_none {screen : Screen} (h : screen.Distinct) {id : Nat} {video : NVMRVideo}
    (hslot : screen.view.tiles.find? (fun video => video.id = id) = some video) :
    screen.others.find? (fun video => video.id = id) = none := by
  have hid : video.id = id := by simpa using List.find?_some hslot
  have hdisjoint := List.disjoint_of_nodup_append
    (by simpa [tiles] using h.nodup :
      (screen.view.tiles.map NVMRVideo.id ++ screen.others.map NVMRVideo.id).Nodup)
  rw [List.find?_eq_none]
  intro other hother hsame
  have hsame : other.id = id := by simpa using hsame
  exact hdisjoint (List.mem_map_of_mem (List.mem_of_find?_eq_some hslot))
    (List.mem_map.mpr ⟨other, hother, hsame.trans hid.symm⟩)

theorem clicked_toForm (screen : Screen) (h : screen.Distinct) (id : Nat) :
    screen.toForm.clicked id = (screen.click id).toForm := by
  simp only [clicked, toForm_tiles, tiles, List.find?_append]
  cases hslot : screen.view.tiles.find? fun video => video.id = id with
  | some video =>
      simp only [Option.some_or, click, find?_side_eq_none h hslot]
      exact videoClicked_slot screen h video (List.mem_of_find?_eq_some hslot)
  | none =>
      simp only [Option.none_or, click]
      cases hside : screen.others.find? fun video => video.id = id with
      | none => rfl
      | some video =>
          exact videoClicked_toForm screen h video (List.mem_of_find?_eq_some hside)

/-- Choosing the tile that was just put at the end of the side list takes it
out again and leaves the rest of that list as it was. -/
theorem erase_append_self {screen : Screen} (h : screen.Distinct) (video : NVMRVideo)
    (hvideo : video ∈ screen.view.tiles) (rest : List NVMRVideo) :
    (screen.others ++ (video :: rest)).erase video = screen.others ++ rest := by
  have hside : video ∉ screen.others := fun hother =>
    List.disjoint_of_nodup_append h.tiles_nodup hvideo hother
  rw [List.erase_append_right _ hside, List.erase_cons_head]

/-- The page of one video at the moment "Multi" has made the quads visible. -/
def turnedMulti (main : Option NVMRVideo) (others : List NVMRVideo) (created : Nat) : VideoForm :=
  { toForm ⟨.single main, others, created⟩ with
    quadVideoVisible := true
    mainVideoVisible := false }

/-- The page of four quads at the moment "Single" has made the main video
visible and reset the counter. -/
def turnedSingle (quads : Fin 4 → Option NVMRVideo) (next : Fin 4) (others : List NVMRVideo)
    (created : Nat) : VideoForm :=
  { toForm ⟨.multi quads next, others, created⟩ with
    quadVideoVisible := false
    mainVideoVisible := true
    quadVideoNumber := 0 }

/-- The loop of "Multi" empties the main video into the list at the side. -/
theorem multiLoop_eq {main : Option NVMRVideo} {others : List NVMRVideo} {created : Nat}
    (h : Distinct ⟨.single main, others, created⟩) :
    (turnedMulti main others created).reparentChildren .mainVideo =
      (toForm ⟨.multi (fun _ => none) 0, others ++ main.toList, created⟩, main) := by
  rw [reparentChildren_eq (turnedMulti main others created) h.form_nodup .mainVideo (by decide)
    (toForm_slot_length ⟨.single main, others, created⟩ .mainVideo (by decide))]
  refine Prod.ext ?_ (by simp [turnedMulti, toForm, View.slot])
  apply VideoForm.ext
  · funext container
    cases container <;> simp [turnedMulti, moveAside, toForm, View.slot]
  all_goals rfl

/-- The loops of "Single" empty the four quads into the list at the side; the
video they remember is the one of the first quad. -/
theorem singleLoops_eq {quads : Fin 4 → Option NVMRVideo} {next : Fin 4}
    {others : List NVMRVideo} {created : Nat}
    (h : Distinct ⟨.multi quads next, others, created⟩) :
    ((turnedSingle quads next others created).reparentChildren .quad1).2 = quads 0 ∧
      (((((turnedSingle quads next others created).reparentChildren .quad1).1.reparentChildren
        .quad2).1.reparentChildren .quad3).1.reparentChildren .quad4).1 =
        toForm ⟨.single none, others ++ (quads 0).toList ++ (quads 1).toList ++
          (quads 2).toList ++ (quads 3).toList, created⟩ := by
  have hslot (container : Container) (hne : container ≠ .otherVideos) :
      ((turnedSingle quads next others created).children container).length ≤ 1 :=
    toForm_slot_length ⟨.multi quads next, others, created⟩ container hne
  have hnodup : (turnedSingle quads next others created).tiles.Nodup := h.form_nodup
  have hside1 := moveAside_nodup _ .quad1 (by decide) hnodup
  have hside2 := moveAside_nodup _ .quad2 (by decide) hside1
  have hside3 := moveAside_nodup _ .quad3 (by decide) hside2
  rw [reparentChildren_eq _ hnodup .quad1 (by decide) (hslot .quad1 (by decide)),
    reparentChildren_eq _ hside1 .quad2 (by decide)
      (by simpa [moveAside] using hslot .quad2 (by decide)),
    reparentChildren_eq _ hside2 .quad3 (by decide)
      (by simpa [moveAside] using hslot .quad3 (by decide)),
    reparentChildren_eq _ hside3 .quad4 (by decide)
      (by simpa [moveAside] using hslot .quad4 (by decide))]
  constructor
  · simp [turnedSingle, toForm, View.slot]
  · apply VideoForm.ext
    · funext container
      cases container <;> simp [turnedSingle, moveAside, toForm, View.slot]
    all_goals rfl

theorem Distinct.side_main {main : Option NVMRVideo} {others : List NVMRVideo} {created : Nat}
    (h : Distinct ⟨.single main, others, created⟩) :
    Distinct ⟨.multi (fun _ => none) 0, others ++ main.toList, created⟩ := by
  refine h.of_perm ?_ (Nat.le_refl _)
  simpa [tiles, View.tiles, View.quadTiles] using List.perm_append_comm

theorem Distinct.side_quads {quads : Fin 4 → Option NVMRVideo} {next : Fin 4}
    {others : List NVMRVideo} {created : Nat}
    (h : Distinct ⟨.multi quads next, others, created⟩) :
    Distinct ⟨.single none, others ++ (quads 0).toList ++ (quads 1).toList ++
      (quads 2).toList ++ (quads 3).toList, created⟩ := by
  refine h.of_perm ?_ (Nat.le_refl _)
  have hcomm : (others ++ View.quadTiles quads).Perm (View.quadTiles quads ++ others) :=
    List.perm_append_comm
  simpa [tiles, View.tiles, View.quadTiles] using hcomm

theorem multiClicked_toForm (screen : Screen) (h : screen.Distinct) :
    screen.toForm.multiClicked = screen.showQuads.toForm := by
  obtain ⟨view, others, created⟩ := screen
  cases view with
  | multi quads next => rfl
  | single main =>
      let moved : Screen := ⟨.multi (fun _ => none) 0, others ++ main.toList, created⟩
      have hmoved : moved.Distinct := h.side_main
      have hhandler : (toForm ⟨.single main, others, created⟩).multiClicked =
          ((turnedMulti main others created).reparentChildren .mainVideo).1.videoClicked
            ((turnedMulti main others created).reparentChildren .mainVideo).2 := rfl
      rw [hhandler, multiLoop_eq h]
      cases main with
      | none => simp [videoClicked, showQuads]
      | some video =>
          rw [videoClicked_toForm moved hmoved video (by simp [moved])]
          have herase := erase_append_self h video (by simp [View.tiles]) []
          simp only [List.append_nil] at herase
          simp [moved, choose, showQuads, herase]

theorem singleClicked_toForm (screen : Screen) (h : screen.Distinct) :
    screen.toForm.singleClicked = screen.showMain.toForm := by
  obtain ⟨view, others, created⟩ := screen
  cases view with
  | single main => rfl
  | multi quads next =>
      let moved : Screen := ⟨.single none, others ++ (quads 0).toList ++ (quads 1).toList ++
        (quads 2).toList ++ (quads 3).toList, created⟩
      have hmoved : moved.Distinct := h.side_quads
      have hhandler : (toForm ⟨.multi quads next, others, created⟩).singleClicked =
          (((((turnedSingle quads next others created).reparentChildren
            .quad1).1.reparentChildren .quad2).1.reparentChildren .quad3).1.reparentChildren
              .quad4).1.videoClicked
            ((turnedSingle quads next others created).reparentChildren .quad1).2 := rfl
      obtain ⟨hfirst, hloops⟩ := singleLoops_eq h
      rw [hhandler, hfirst, hloops]
      change moved.toForm.videoClicked (quads 0) = _
      cases hquad : quads 0 with
      | none => simp [videoClicked, moved, showMain, hquad]
      | some video =>
          rw [videoClicked_toForm moved hmoved video (by simp [moved, hquad])]
          have herase := erase_append_self h video (by simp [View.tiles, View.quadTiles, hquad])
            ((quads 1).toList ++ (quads 2).toList ++ (quads 3).toList)
          simp only [List.append_assoc] at herase
          simp [moved, choose, showMain, hquad, herase]

/-- One event: the page of a screen becomes the page of the next screen. -/
theorem handle_toForm (screen : Screen) (h : screen.Distinct) (event : FormEvent) :
    screen.toForm.handle event = (screen.handle event).toForm := by
  cases event with
  | rtspFound url uniqueName videoName => exact found_toForm screen url uniqueName videoName
  | rtspWentAway uniqueName => exact wentAway_toForm screen uniqueName
  | click id => exact clicked_toForm screen h id
  | multi => exact multiClicked_toForm screen h
  | single => exact singleClicked_toForm screen h

end Screen

end NvmrDisplay.Qml
