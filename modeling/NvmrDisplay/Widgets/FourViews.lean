import NvmrDisplay.Lib.Safety
import NvmrDisplay.Widgets.Screen
import Mathlib.Data.List.Nodup
import Mathlib.Data.List.Perm.Subperm

/-!
The keypad promises a view of up to four cameras in which new cameras replace
the old. The list of the videos on the screen is only kept in step with the
screen while no camera has to make room: the display that is hidden for a fifth
camera stays listed, and so does a camera that is added twice.
-/

namespace NvmrDisplay.Widgets

open Lib

/-- For how many events a display has been visible. -/
def visibleFor (before : List Event) (display : Nat) : Nat :=
  mainWindow.heldFor (fun window => window.isVisible display) before

namespace NVMRDisplay

/-- At most four displays are visible and playing, and the list says which. -/
structure ViewSound (window : NVMRDisplay) : Prop where
  at_most_four : window.shown.length ≤ 4
  listed_visible : ∀ display ∈ window.currentlyShowingVideos, window.isVisible display
  listed_once : ∀ display, window.isVisible display →
    window.currentlyShowingVideos.count display = 1

/-- If the event adds a hidden camera to four that are shown, it hides exactly
the one that has been shown longest. -/
def ReplacesLongest (before : List Event) (window : NVMRDisplay) (event : Event) : Prop :=
  ∀ added, window.executes .addCamera event = some added → ¬ window.isVisible added →
    window.shown.length = 4 → ∀ display,
      (window.isVisible display ∧ ¬ (window.handle event).isVisible display) ↔
        (window.isVisible display ∧
          ∀ other, window.isVisible other →
            visibleFor before other ≤ visibleFor before display)

/-- The event adds no camera, or one that is not listed to a list with room. -/
def Fits (window : NVMRDisplay) (event : Event) : Prop :=
  ∀ added, window.executes .addCamera event = some added →
    window.currentlyShowingVideos.length < 4 ∧ added ∉ window.currentlyShowingVideos

/-- What holds of the window as long as every camera added fits: besides the
soundness of the view, the list is in the order of display. -/
structure Orderly (before : List Event) (window : NVMRDisplay) : Prop where
  wellFormed : window.WellFormed
  length_le : window.currentlyShowingVideos.length ≤ 4
  listed_visible : ∀ display ∈ window.currentlyShowingVideos, window.isVisible display
  listed_once : ∀ display, window.isVisible display →
    window.currentlyShowingVideos.count display = 1
  longest_first : window.currentlyShowingVideos.Pairwise fun older newer =>
    visibleFor before newer < visibleFor before older

theorem shown_visible {window : NVMRDisplay} {display : Nat} (h : display ∈ window.shown) :
    window.isVisible display := by
  simp only [shown, List.mem_filter, Bool.and_eq_true] at h
  exact h.2.1

namespace Orderly

variable {before : List Event} {window : NVMRDisplay}

theorem listed_iff (h : window.Orderly before) (display : Nat) :
    display ∈ window.currentlyShowingVideos ↔ window.isVisible display := by
  constructor
  · exact h.listed_visible display
  · intro hvisible
    apply List.count_pos_iff.mp
    rw [h.listed_once display hvisible]
    exact Nat.one_pos

/-- Everything shown is listed, so no more is shown than is listed. -/
theorem shown_length_le (h : window.Orderly before) :
    window.shown.length ≤ window.currentlyShowingVideos.length := by
  have hnodup : window.shown.Nodup := List.nodup_range.filter _
  have hsubset : window.shown ⊆ window.currentlyShowingVideos := by
    intro display hdisplay
    exact (h.listed_iff display).mpr (shown_visible hdisplay)
  exact (List.subperm_of_subset hnodup hsubset).length_le

theorem viewSound (h : window.Orderly before) : window.ViewSound where
  at_most_four := h.shown_length_le.trans h.length_le
  listed_visible := h.listed_visible
  listed_once := h.listed_once

/-- Where four are shown, the one that makes room has been shown longest. -/
theorem makesRoom_iff (h : window.Orderly before) (hfull : window.shown.length = 4)
    {display : Nat} (hvisible : window.isVisible display) :
    window.makesRoom display ↔
      ∀ other, window.isVisible other →
        visibleFor before other ≤ visibleFor before display := by
  have hlength := h.shown_length_le
  have hsorted := h.longest_first
  have hlisted := h.listed_iff
  unfold makesRoom
  cases hlist : window.currentlyShowingVideos with
  | nil =>
      simp only [hlist, List.length_nil] at hlength
      omega
  | cons first rest =>
      simp only [hlist, List.mem_cons] at hlisted
      rw [hlist, List.length_cons] at hlength
      obtain ⟨hfirst, _⟩ := List.pairwise_cons.mp (hlist ▸ hsorted)
      constructor
      · rintro ⟨_, hhead⟩ other hother
        obtain rfl : first = display := by simpa using hhead
        rcases (hlisted other).mpr hother with rfl | hrest
        · exact Nat.le_refl _
        · exact Nat.le_of_lt (hfirst other hrest)
      · intro hlongest
        refine ⟨by rw [List.length_cons]; omega, ?_⟩
        rcases (hlisted display).mpr hvisible with rfl | hrest
        · rfl
        · have hlt := hfirst display hrest
          have hle := hlongest first ((hlisted first).mp (Or.inl rfl))
          omega

theorem replacesLongest (h : window.Orderly before) (event : Event) :
    window.ReplacesLongest before event := by
  intro added hadded hhidden hfull display
  obtain ⟨_, hstep⟩ := handle_of_added h.wellFormed hadded
  refine and_congr_right fun hvisible => ?_
  have hne : display ≠ added := by
    rintro rfl
    exact hhidden hvisible
  rw [hstep, ← h.makesRoom_iff hfull hvisible]
  simp [hne, hvisible]

theorem initial : NVMRDisplay.initial.Orderly [] where
  wellFormed := by simp [WellFormed, NVMRDisplay.initial]
  length_le := Nat.zero_le _
  listed_visible := by simp [NVMRDisplay.initial]
  listed_once := by simp [NVMRDisplay.initial, isVisible]
  longest_first := List.Pairwise.nil

theorem visibleFor_snoc (hrun : mainWindow.run before = some window) (event : Event)
    (display : Nat) :
    visibleFor (before ++ [event]) display =
      if (window.handle event).isVisible display then visibleFor before display + 1 else 0 :=
  mainWindow.heldFor_snoc _ before event (window.handle event)
    ((mainWindow.run_snoc before event _).mpr ⟨window, hrun, rfl⟩)

theorem visibleFor_pos_iff (hrun : mainWindow.run before = some window) (display : Nat) :
    0 < visibleFor before display ↔ window.isVisible display :=
  mainWindow.heldFor_pos_iff (fun window => window.isVisible display) before window hrun

/-- A single camera is always in order. -/
theorem of_single {display : Nat} (hwell : window.WellFormed)
    (hlist : window.currentlyShowingVideos = [display])
    (hvisible : ∀ other, window.isVisible other ↔ other = display) :
    window.Orderly before := by
  refine ⟨hwell, ?_, ?_, ?_, ?_⟩
  · rw [hlist, List.length_singleton]
    omega
  · intro other hother
    rw [hlist, List.mem_singleton] at hother
    exact (hvisible other).mpr hother
  · intro other hother
    rw [hlist, (hvisible other).mp hother]
    exact List.count_singleton_self
  · rw [hlist]
    exact List.pairwise_singleton _ _

/-- What stays visible keeps its order. -/
theorem longest_first_of_visible (h : window.Orderly before)
    (hrun : mainWindow.run before = some window) (event : Event)
    (hvisible : ∀ display ∈ window.currentlyShowingVideos,
      (window.handle event).isVisible display) :
    window.currentlyShowingVideos.Pairwise fun older newer =>
      visibleFor (before ++ [event]) newer < visibleFor (before ++ [event]) older := by
  refine h.longest_first.imp_of_mem ?_
  intro older newer holder hnewer hlt
  rw [visibleFor_snoc hrun, visibleFor_snoc hrun, if_pos (hvisible newer hnewer),
    if_pos (hvisible older holder)]
  exact Nat.succ_lt_succ hlt

/-- What comes into view has been visible for less than what was there. -/
theorem visibleFor_lt (hrun : mainWindow.run before = some window) (event : Event)
    {older newer : Nat} (holder : window.isVisible older) (hnewer : ¬ window.isVisible newer)
    (holder' : (window.handle event).isVisible older)
    (hnewer' : (window.handle event).isVisible newer) :
    visibleFor (before ++ [event]) newer < visibleFor (before ++ [event]) older := by
  have hpos := (visibleFor_pos_iff hrun older).mpr holder
  have hnone := mt (visibleFor_pos_iff hrun newer).mp hnewer
  rw [visibleFor_snoc hrun, visibleFor_snoc hrun, if_pos hnewer', if_pos holder']
  exact Nat.succ_lt_succ (Nat.lt_of_le_of_lt (Nat.le_of_not_lt hnone) hpos)

/-- The list keeps its order where the screen does not change. -/
theorem unchanged (h : window.Orderly before) (hrun : mainWindow.run before = some window)
    {event : Event} (hwell : (window.handle event).WellFormed)
    (hlist : (window.handle event).currentlyShowingVideos = window.currentlyShowingVideos)
    (hvisible : ∀ other, (window.handle event).isVisible other ↔ window.isVisible other) :
    (window.handle event).Orderly (before ++ [event]) := by
  refine ⟨hwell, ?_, ?_, ?_, ?_⟩
  · rw [hlist]
    exact h.length_le
  · intro other hother
    rw [hlist] at hother
    exact (hvisible other).mpr (h.listed_visible other hother)
  · intro other hother
    rw [hlist]
    exact h.listed_once other ((hvisible other).mp hother)
  · rw [hlist]
    apply h.longest_first_of_visible hrun event
    intro other hother
    exact (hvisible other).mpr (h.listed_visible other hother)

/-- A camera that fits goes to the end of the list. -/
theorem added (h : window.Orderly before) (hrun : mainWindow.run before = some window)
    {event : Event} {display : Nat} (hwell : (window.handle event).WellFormed)
    (hroom : window.currentlyShowingVideos.length < 4)
    (hnew : display ∉ window.currentlyShowingVideos)
    (hlist : (window.handle event).currentlyShowingVideos =
      window.currentlyShowingVideos ++ [display])
    (hvisible : ∀ other, (window.handle event).isVisible other ↔
      other = display ∨ window.isVisible other) :
    (window.handle event).Orderly (before ++ [event]) := by
  refine ⟨hwell, ?_, ?_, ?_, ?_⟩
  · rw [hlist, List.length_append]
    exact hroom
  · intro other hother
    rw [hlist, List.mem_append, List.mem_singleton, h.listed_iff] at hother
    exact (hvisible other).mpr hother.symm
  · intro other hother
    rw [hlist, List.count_append]
    rcases (hvisible other).mp hother with rfl | hbefore
    · rw [List.count_eq_zero_of_not_mem hnew, List.count_singleton_self]
    · have hne : display ≠ other := by
        rintro rfl
        exact hnew ((h.listed_iff display).mpr hbefore)
      rw [h.listed_once other hbefore, List.count_eq_zero_of_not_mem (by simpa using hne.symm)]
  · rw [hlist, List.pairwise_append]
    refine ⟨?_, List.pairwise_singleton _ _, ?_⟩
    · apply h.longest_first_of_visible hrun event
      intro other hother
      exact (hvisible other).mpr (Or.inr (h.listed_visible other hother))
    · intro older holder newer hnewer
      obtain rfl := List.mem_singleton.mp hnewer
      have hshown := h.listed_visible older holder
      apply visibleFor_lt hrun event hshown (mt (h.listed_iff newer).mpr hnew)
      · exact (hvisible older).mpr (Or.inr hshown)
      · exact (hvisible newer).mpr (Or.inl rfl)

/-- Every event whose camera fits keeps the window orderly. -/
theorem step (h : window.Orderly before) (hrun : mainWindow.run before = some window)
    {event : Event} (hfits : window.Fits event) :
    (window.handle event).Orderly (before ++ [event]) := by
  have hwell := handle_wellFormed h.wellFormed event
  rcases handle_cases h.wellFormed event with
    ⟨display, _, _, hlist, hvisible⟩ | ⟨display, hadded, hlist, hvisible⟩ |
    ⟨_, hlist, hvisible⟩
  · apply of_single hwell hlist
    intro other
    rw [hvisible, h.listed_iff]
    simp
  · obtain ⟨hroom, hnew⟩ := hfits display hadded
    apply h.added hrun hwell hroom hnew hlist
    intro other
    have hstays : ¬ window.makesRoom other := by
      rintro ⟨hfull, _⟩
      omega
    rw [hvisible, and_iff_left hstays]
  · exact h.unchanged hrun hwell hlist hvisible

/-- The first camera added that does not fit leaves the list out of step. -/
theorem not_viewSound (h : window.Orderly before) {event : Event} (hfits : ¬ window.Fits event) :
    ¬ (window.handle event).ViewSound := by
  intro hsound
  apply hfits
  intro added hadded
  obtain ⟨hlist, hvisible⟩ := handle_of_added h.wellFormed hadded
  have hnew : added ∉ window.currentlyShowingVideos := by
    intro hlisted
    have honce := hsound.listed_once added ((hvisible added).mpr (Or.inl rfl))
    have hpos := List.count_pos_iff.mpr hlisted
    rw [hlist, List.count_append, List.count_singleton_self] at honce
    omega
  refine ⟨?_, hnew⟩
  by_contra hfull
  cases hfirst : window.currentlyShowingVideos with
  | nil => simp [hfirst] at hfull
  | cons first rest =>
      have hlisted : first ∈ window.currentlyShowingVideos := by simp [hfirst]
      have hstill := hsound.listed_visible first (by simp [hlist, hfirst])
      rcases (hvisible first).mp hstill with rfl | ⟨_, hstays⟩
      · exact hnew hlisted
      · exact hstays ⟨by omega, by simp [hfirst]⟩

end Orderly

/-- What the keypad promises after every event. -/
def KeepsFour (events : List Event) (window : NVMRDisplay) : Prop :=
  window.ViewSound ∧
    ∀ before event prior, events = before ++ [event] → mainWindow.run before = some prior →
      prior.ReplacesLongest before event

/-- The view keeps its promise in exactly the runs in which no camera is added
to four that are listed, and none that is listed already. -/
theorem keeps_four_iff (events : List Event) :
    mainWindow.Always KeepsFour events ↔
      Throughout (fun before event =>
        ∀ window, mainWindow.run before = some window → window.Fits event) events := by
  refine mainWindow.always_iff_of_invariant (I := fun before window => window.Orderly before)
    ?_ Orderly.initial ?_ ?_ events _ (Machine.run_total _ _ events)
  · refine ⟨Orderly.initial.viewSound, ?_⟩
    intro before event prior h
    simp at h
  · rintro before window event _ hrun horderly ⟨⟩ hfits
    have hnext := horderly.step hrun (hfits window hrun)
    refine ⟨hnext, hnext.viewSound, ?_⟩
    intro before' event' prior h hprior
    obtain ⟨rfl, hlast⟩ := List.append_inj' h rfl
    obtain rfl : window = prior := Option.some.inj (hrun.symm.trans hprior)
    exact horderly.replacesLongest event'
  · rintro before window event _ hrun horderly ⟨⟩ hfits hkeeps
    apply hfits
    intro window' hwindow'
    obtain rfl : window = window' := Option.some.inj (hrun.symm.trans hwindow')
    by_contra hnot
    exact horderly.not_viewSound hnot hkeeps.1

/-- Six cameras with the ids 1 to 6 are found, and added one after another. -/
def sixCamerasAdded : List Event :=
  (List.range 6).flatMap (fun n => [.newRPIVideoSender n, .binaryMessageRx n (n + 1)]) ++
    [1, 2, 3, 4, 5, 6].flatMap fun n =>
      [.keyPress .plus, .keyPress (.digit n), .keyPress .enter]

/-- The first camera is hidden for the fifth and again for the sixth, so that
five are on the screen. -/
theorem five_views :
    (sixCamerasAdded.foldl handle initial).shown = [1, 2, 3, 4, 5] ∧
      ¬ mainWindow.Always KeepsFour sixCamerasAdded := by
  have hshown : (sixCamerasAdded.foldl handle initial).shown = [1, 2, 3, 4, 5] := by decide
  refine ⟨hshown, ?_⟩
  intro h
  have hfour := (h sixCamerasAdded _ (List.prefix_refl _) (Machine.run_total _ _ _)).1.at_most_four
  rw [hshown] at hfour
  exact absurd hfour (by decide)

end NVMRDisplay

end NvmrDisplay.Widgets
