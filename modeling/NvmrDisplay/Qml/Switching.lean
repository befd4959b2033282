import NvmrDisplay.Qml.Replacement

/-!
What the buttons "Multi" and "Single" leave on the screen. "Multi" keeps the
main video. "Single" moves the tiles of all four quads aside and then takes the
one it saw in the first quad, so it shows nothing when that one is empty, even
if the other three are not.
-/

namespace NvmrDisplay.Qml

open Lib

namespace VideoForm

/-- What the two buttons promise: one of the shown tiles stays on the screen. -/
def KeepsPicture (form : VideoForm) : FormEvent → Prop
  | .single =>
      form.quadVideoVisible → (∃ video, form.InQuads video) →
        ∃ shown, form.InQuads shown ∧ form.singleClicked.children .mainVideo = [shown] ∧
          ∀ video ∈ form.tiles, video ≠ shown →
            video ∈ form.singleClicked.children .otherVideos
  | .multi =>
      form.mainVideoVisible → ∀ shown ∈ form.children .mainVideo,
        quads.flatMap form.multiClicked.children = [shown]
  | _ => True

/-- "Single" is pressed with a tile in the first quad, or with none at all. -/
def FirstQuadHeld (form : VideoForm) : FormEvent → Prop
  | .single =>
      form.quadVideoVisible → (∃ video, form.InQuads video) → form.children .quad1 ≠ []
  | _ => True

end VideoForm

namespace Screen

/-- "Multi" shows the main video in the first quad and nothing in the others. -/
theorem showQuads_flatMap (shown : NVMRVideo) (others : List NVMRVideo) (created : Nat) :
    VideoForm.quads.flatMap
      (showQuads ⟨.single (some shown), others, created⟩).toForm.children =
      [shown] := rfl

/-- "Single" keeps a picture exactly if the first quad holds one. -/
theorem showMain_keeps_iff {quads : Fin 4 → Option NVMRVideo} {next : Fin 4}
    {others : List NVMRVideo} {created : Nat} :
    (∃ shown, (toForm ⟨.multi quads next, others, created⟩).InQuads shown ∧
        (showMain ⟨.multi quads next, others, created⟩).toForm.children .mainVideo = [shown] ∧
        ∀ video ∈ (toForm ⟨.multi quads next, others, created⟩).tiles, video ≠ shown →
          video ∈ (showMain ⟨.multi quads next, others, created⟩).toForm.children
            .otherVideos) ↔
      quads 0 ≠ none := by
  have hmain : (showMain ⟨.multi quads next, others, created⟩).toForm.children .mainVideo =
      (quads 0).toList := rfl
  constructor
  · rintro ⟨shown, _, hshown, _⟩ hempty
    rw [hmain, hempty] at hshown
    cases hshown
  · intro hheld
    obtain ⟨shown, hshown⟩ := Option.ne_none_iff_exists'.mp hheld
    refine ⟨shown, (inQuads_iff _ shown).mpr ⟨0, hshown⟩, by rw [hmain, hshown]; rfl, ?_⟩
    intro video hvideo hne
    have htiles := (showMain_tiles ⟨.multi quads next, others, created⟩).mem_iff (a := video)
    rw [toForm_tiles, ← htiles] at hvideo
    rcases List.mem_append.mp hvideo with hslot | hside
    · obtain rfl : shown = video := by simpa [showMain, View.tiles, hshown, eq_comm] using hslot
      exact absurd rfl hne
    · exact hside

theorem keepsPicture_iff (screen : Screen) (h : screen.Distinct) (event : FormEvent) :
    screen.toForm.KeepsPicture event ↔ screen.toForm.FirstQuadHeld event := by
  cases event with
  | rtspFound _ _ _ | rtspWentAway _ | click _ => exact Iff.rfl
  | multi =>
      refine iff_of_true ?_ trivial
      intro hvisible shown hshown
      obtain ⟨view, others, created⟩ := screen
      cases view with
      | multi quads next => simp [toForm, View.isSingle] at hvisible
      | single main =>
          obtain rfl : main = some shown := by simpa [toForm, View.slot] using hshown
          rw [multiClicked_toForm _ h]
          exact showQuads_flatMap shown others created
  | single =>
      simp only [VideoForm.KeepsPicture, VideoForm.FirstQuadHeld]
      refine forall_congr' fun hvisible => forall_congr' fun hsome => ?_
      obtain ⟨view, others, created⟩ := screen
      cases view with
      | single main => simp [toForm, View.isSingle] at hvisible
      | multi quads next =>
          rw [singleClicked_toForm _ h, showMain_keeps_iff, Ne, Ne, ← Option.toList_eq_nil_iff]
          exact Iff.rfl

end Screen

namespace VideoForm

/-- In a run, switching the view keeps a picture on the screen exactly if
"Single" is never pressed while the first quad is the empty one. -/
theorem keeps_picture_iff (events : List FormEvent) :
    Throughout (fun before event => (run before).KeepsPicture event) events ↔
      Throughout (fun before event => (run before).FirstQuadHeld event) events := by
  have hstep (before : List FormEvent) (event : FormEvent) :
      (run before).KeepsPicture event ↔ (run before).FirstQuadHeld event := by
    obtain ⟨screen, hrun, hholds⟩ := run_shows before
    rw [hrun]
    exact screen.keepsPicture_iff hholds.distinct event
  simp only [Throughout, hstep]

/-- Two cameras are shown, and the one in the first quad goes away. -/
def firstQuadFree : List FormEvent :=
  [.rtspFound "rtsp://a" "a" "A", .rtspFound "rtsp://b" "b" "B", .click 0, .click 1,
    .rtspWentAway "a"]

/-- "Single" puts the other camera aside and shows nothing. -/
theorem single_shows_nothing :
    (run firstQuadFree).children .quad2 = [⟨1, "B", "rtsp://b", "b"⟩] ∧
      (run (firstQuadFree ++ [.single])).children .mainVideo = [] ∧
      ¬ Throughout (fun before event => (run before).KeepsPicture event)
        (firstQuadFree ++ [.single]) := by
  refine ⟨by decide, by decide, ?_⟩
  intro h
  obtain ⟨shown, _, hshown, _⟩ := h firstQuadFree .single [] rfl (by decide)
    ⟨⟨1, "B", "rtsp://b", "b"⟩, by decide⟩
  have hempty : (run firstQuadFree).singleClicked.children .mainVideo = [] := by decide
  rw [hempty] at hshown
  cases hshown

end VideoForm

end NvmrDisplay.Qml
