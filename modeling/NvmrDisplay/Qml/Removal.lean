import NvmrDisplay.Qml.Layout

/-!
What the loss of a camera does to the page. The handler scans the containers of
the visible view and the list at the side only; in every reached page the
containers of the hidden view are empty, so nothing of the camera escapes it.
-/

namespace NvmrDisplay.Qml.VideoForm

/-- From every reached page the loss of a camera removes the tiles that carry
its name from all six containers, and changes nothing else: what remains of a
container keeps its order, the view and the counter stay. -/
theorem went_away_exact (events : List FormEvent) (uniqueName : String) :
    (∀ container, ∀ video ∈ ((run events).onRpiVideoSenderRtspWentAway uniqueName).children
        container, video.uniqueName ≠ uniqueName) ∧
      (∀ container, ((run events).onRpiVideoSenderRtspWentAway uniqueName).children container =
        ((run events).children container).filter fun video => video.uniqueName ≠ uniqueName) ∧
      ((run events).onRpiVideoSenderRtspWentAway uniqueName).mainVideoVisible =
        (run events).mainVideoVisible ∧
      ((run events).onRpiVideoSenderRtspWentAway uniqueName).quadVideoVisible =
        (run events).quadVideoVisible ∧
      ((run events).onRpiVideoSenderRtspWentAway uniqueName).quadVideoNumber =
        (run events).quadVideoNumber := by
  obtain ⟨screen, hrun, _⟩ := run_shows events
  have hchildren (container : Container) :
      ((run events).onRpiVideoSenderRtspWentAway uniqueName).children container =
        ((run events).children container).filter fun video => video.uniqueName ≠ uniqueName := by
    rw [hrun, screen.wentAway_toForm, screen.children_removeCamera]
    apply List.filter_congr
    intro video _
    simp [bne, beq_eq_decide]
  refine ⟨?_, hchildren, rfl, rfl, rfl⟩
  intro container video hvideo
  rw [hchildren, List.mem_filter] at hvideo
  exact of_decide_eq_true hvideo.2

end NvmrDisplay.Qml.VideoForm
