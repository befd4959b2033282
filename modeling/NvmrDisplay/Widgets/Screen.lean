import NvmrDisplay.Widgets.NVMRDisplay

/-!
What one event does to the screen of the widgets front end: which displays it
lists, and which it leaves visible. Nothing but an executed command changes
either.
-/

namespace NvmrDisplay.Widgets

namespace NVMRDisplay

/-- The sender of each display. -/
def senders (window : NVMRDisplay) : List Nat := window.displays.map RPIVideoDisplay.videoSender

theorem isVisible_modifyDisplay (window : NVMRDisplay) (display other : Nat)
    (change : RPIVideoDisplay → RPIVideoDisplay) :
    (window.modifyDisplay display change).isVisible other =
      (window.displays[other]?).any fun object =>
        if display = other then (change object).visible else object.visible := by
  unfold isVisible modifyDisplay
  rw [List.getElem?_modify]
  cases window.displays[other]? with
  | none => rfl
  | some object =>
      by_cases h : display = other
      · simp [h]
      · simp [h]

theorem isVisible_hideDisplay (window : NVMRDisplay) (display other : Nat) :
    (window.hideDisplay display).isVisible other ↔
      window.isVisible other ∧ other ≠ display := by
  unfold hideDisplay
  rw [isVisible_modifyDisplay]
  by_cases h : display = other
  · simp [h, RPIVideoDisplay.setVisible]
  · simp [h, isVisible, Ne.symm h]

theorem isVisible_showDisplay (window : NVMRDisplay) {display : Nat} (other : Nat)
    (hdisplay : display < window.displays.length) :
    (window.showDisplay display).isVisible other ↔
      other = display ∨ window.isVisible other := by
  unfold showDisplay
  rw [isVisible_modifyDisplay]
  by_cases h : display = other
  · subst other
    simp [RPIVideoDisplay.setVisible, RPIVideoDisplay.play, hdisplay]
  · simp [h, isVisible, Ne.symm h]

/-- Hiding one display after another leaves the rest as they are. -/
theorem isVisible_foldl_hideDisplay (hidden : List Nat) (window : NVMRDisplay) (other : Nat) :
    (hidden.foldl hideDisplay window).isVisible other ↔
      window.isVisible other ∧ other ∉ hidden := by
  induction hidden generalizing window with
  | nil => simp
  | cons display hidden ih =>
      rw [List.foldl_cons, ih, isVisible_hideDisplay, List.mem_cons, not_or, and_assoc]

/-- Showing and hiding a display leaves its sender as it is. -/
theorem senders_modifyDisplay (window : NVMRDisplay) (display : Nat)
    {change : RPIVideoDisplay → RPIVideoDisplay}
    (hchange : ∀ object, (change object).videoSender = object.videoSender) :
    (window.modifyDisplay display change).senders = window.senders := by
  apply List.ext_getElem?
  intro other
  unfold senders modifyDisplay
  rw [List.getElem?_map, List.getElem?_map, List.getElem?_modify]
  cases window.displays[other]? with
  | none => rfl
  | some object =>
      by_cases h : display = other
      · simp [h, hchange]
      · simp [h]

theorem length_eq_of_senders {window other : NVMRDisplay} (h : other.senders = window.senders) :
    other.displays.length = window.displays.length := by
  simpa [senders] using congrArg List.length h

theorem foldl_hideDisplay_eq (hidden : List Nat) (window : NVMRDisplay) :
    ∃ displays, hidden.foldl hideDisplay window = { window with displays } ∧
      (hidden.foldl hideDisplay window).senders = window.senders := by
  induction hidden generalizing window with
  | nil => exact ⟨window.displays, rfl, rfl⟩
  | cons display hidden ih =>
      obtain ⟨displays, hfold, hsenders⟩ := ih (window.hideDisplay display)
      refine ⟨displays, hfold, hsenders.trans ?_⟩
      exact senders_modifyDisplay window display fun _ => rfl

theorem hideFirst_eq (window : NVMRDisplay) :
    ∃ displays, window.hideFirst = { window with displays } ∧
      window.hideFirst.senders = window.senders := by
  unfold hideFirst
  split
  · exact ⟨_, rfl, senders_modifyDisplay window _ fun _ => rfl⟩
  · exact ⟨window.displays, rfl, rfl⟩

theorem showDisplay_senders (window : NVMRDisplay) (display : Nat) :
    (window.showDisplay display).senders = window.senders :=
  senders_modifyDisplay { window with
    currentlyShowingVideos := window.currentlyShowingVideos ++ [display] } display fun _ => rfl

/-- A command redraws the screen and does nothing else. -/
theorem doCommand_eq (window : NVMRDisplay) :
    ∃ displays currentlyShowingVideos,
      window.doCommand = { window with displays, currentlyShowingVideos } ∧
        window.doCommand.senders = window.senders := by
  have hnothing : ∃ displays currentlyShowingVideos,
      window = { window with displays, currentlyShowingVideos } ∧
        window.senders = window.senders :=
    ⟨window.displays, window.currentlyShowingVideos, rfl, rfl⟩
  unfold doCommand
  split
  · unfold viewCamera
    split
    · exact hnothing
    · obtain ⟨displays, hfold, hsenders⟩ :=
        foldl_hideDisplay_eq window.currentlyShowingVideos window
      rw [hfold] at hsenders
      simp only [hideAll, hfold]
      exact ⟨_, _, rfl, (showDisplay_senders _ _).trans hsenders⟩
  · unfold addCamera
    split
    · exact hnothing
    · obtain ⟨displays, hfirst, hsenders⟩ := window.hideFirst_eq
      rw [hfirst] at hsenders
      simp only [hfirst]
      exact ⟨_, _, rfl, (showDisplay_senders _ _).trans hsenders⟩
  · exact hnothing
  · exact hnothing

theorem functionKeyHandled_eq (window : NVMRDisplay) {key : Key} {handled : NVMRDisplay}
    (h : window.functionKeyHandled key = some handled) :
    ∃ tabIndex, handled = { window with tabIndex } := by
  unfold functionKeyHandled at h
  split at h
  · exact ⟨0, (Option.some.inj h).symm⟩
  · exact ⟨1, (Option.some.inj h).symm⟩
  · exact ⟨2, (Option.some.inj h).symm⟩
  · cases h

theorem startCommand_eq (window : NVMRDisplay) (key : Key) :
    ∃ currentCommand, window.startCommand key = { window with currentCommand } := by
  unfold startCommand
  split
  · split
    · exact ⟨.viewCamera, rfl⟩
    · exact ⟨.addCamera, rfl⟩
    · exact ⟨.viewWebpage, rfl⟩
    · exact ⟨window.currentCommand, rfl⟩
  · exact ⟨window.currentCommand, rfl⟩

theorem enterDigit_eq (window : NVMRDisplay) (key : Key) :
    ∃ numberEntered, window.enterDigit key = { window with numberEntered } := by
  unfold enterDigit
  split
  · split
    · exact ⟨_, rfl⟩
    · exact ⟨window.numberEntered, rfl⟩
  · exact ⟨window.numberEntered, rfl⟩

/-- Any key but Enter leaves the screen and the cameras alone. -/
theorem keyPressEvent_of_ne (window : NVMRDisplay) {key : Key} (hkey : key ≠ .enter) :
    ∃ tabIndex numberEntered currentCommand, window.keyPressEvent key =
      { window with tabIndex, numberEntered, currentCommand } := by
  unfold keyPressEvent
  cases hhandled : window.functionKeyHandled key with
  | some handled =>
      obtain ⟨tabIndex, rfl⟩ := window.functionKeyHandled_eq hhandled
      exact ⟨tabIndex, window.numberEntered, window.currentCommand, rfl⟩
  | none =>
      obtain ⟨currentCommand, hcommand⟩ := window.startCommand_eq key
      obtain ⟨numberEntered, hnumber⟩ := (window.startCommand key).enterDigit_eq key
      rw [hcommand] at hnumber
      simp only [enter, if_neg hkey, hcommand, hnumber]
      split
      · exact ⟨window.tabIndex, 0, window.currentCommand, rfl⟩
      · exact ⟨window.tabIndex, numberEntered, currentCommand, rfl⟩

theorem keyPressEvent_enter (window : NVMRDisplay) :
    window.keyPressEvent .enter =
      { window.doCommand with currentCommand := .noCommand, numberEntered := 0 } := by
  simp [keyPressEvent, functionKeyHandled, enter, startCommand, enterDigit, isKeySpecial]

/-- Every display that can be selected has been constructed. -/
def WellFormed (window : NVMRDisplay) : Prop :=
  ∀ display ∈ window.availableRPI, display < window.displays.length

theorem WellFormed.displayToUse {window : NVMRDisplay} (h : window.WellFormed) {display : Nat}
    (hfound : window.displayToUse = some display) : display < window.displays.length :=
  h display (List.mem_of_find?_eq_some hfound)

/-- The display that makes room for a new one. -/
def makesRoom (window : NVMRDisplay) (display : Nat) : Prop :=
  3 < window.currentlyShowingVideos.length ∧ window.currentlyShowingVideos.head? = some display

theorem isVisible_hideFirst (window : NVMRDisplay) (other : Nat) :
    window.hideFirst.isVisible other ↔ window.isVisible other ∧ ¬ window.makesRoom other := by
  unfold hideFirst makesRoom
  split
  · rename_i h
    rw [isVisible_hideDisplay, List.head?_eq_getElem?, List.getElem?_eq_getElem (by omega),
      Option.some_inj, and_iff_right h, ne_comm]
  · rename_i h
    simp [h]

theorem viewCamera_spec {window : NVMRDisplay} (h : window.WellFormed) {display : Nat}
    (hfound : window.displayToUse = some display) :
    window.viewCamera.currentlyShowingVideos = [display] ∧
      ∀ other, window.viewCamera.isVisible other ↔ other = display ∨
        (window.isVisible other ∧ other ∉ window.currentlyShowingVideos) := by
  have hview : window.viewCamera = window.hideAll.showDisplay display := by
    unfold viewCamera
    rw [hfound]
  have hlt : display < window.hideAll.displays.length := by
    obtain ⟨displays, hfold, hsenders⟩ :=
      foldl_hideDisplay_eq window.currentlyShowingVideos window
    have hlength := length_eq_of_senders hsenders
    simp only [hideAll, hlength]
    exact h.displayToUse hfound
  rw [hview]
  refine ⟨rfl, fun other => ?_⟩
  rw [isVisible_showDisplay _ _ hlt]
  exact or_congr_right (isVisible_foldl_hideDisplay _ window other)

theorem addCamera_spec {window : NVMRDisplay} (h : window.WellFormed) {display : Nat}
    (hfound : window.displayToUse = some display) :
    window.addCamera.currentlyShowingVideos = window.currentlyShowingVideos ++ [display] ∧
      ∀ other, window.addCamera.isVisible other ↔ other = display ∨
        (window.isVisible other ∧ ¬ window.makesRoom other) := by
  have hadd : window.addCamera = window.hideFirst.showDisplay display := by
    unfold addCamera
    rw [hfound]
  have hlt : display < window.hideFirst.displays.length := by
    obtain ⟨displays, _, hsenders⟩ := window.hideFirst_eq
    rw [length_eq_of_senders hsenders]
    exact h.displayToUse hfound
  rw [hadd]
  constructor
  · obtain ⟨displays, hfirst, _⟩ := window.hideFirst_eq
    rw [hfirst]
    rfl
  · intro other
    rw [isVisible_showDisplay _ _ hlt, isVisible_hideFirst]

theorem isVisible_newRPIVideoSender (window : NVMRDisplay) (vidsend other : Nat) :
    (window.newRPIVideoSender vidsend).isVisible other ↔ window.isVisible other := by
  unfold newRPIVideoSender isVisible
  rcases Nat.lt_trichotomy other window.displays.length with hlt | rfl | hgt
  · rw [List.getElem?_append_left hlt]
  · simp [RPIVideoDisplay.new]
  · rw [List.getElem?_eq_none (by simp; omega), List.getElem?_eq_none (by omega)]

/-- What one event can do to the screen. -/
theorem handle_cases {window : NVMRDisplay} (h : window.WellFormed) (event : Event) :
    (∃ display, window.executes .viewCamera event = some display ∧
        window.executes .addCamera event = none ∧
        (window.handle event).currentlyShowingVideos = [display] ∧
        ∀ other, (window.handle event).isVisible other ↔ other = display ∨
          (window.isVisible other ∧ other ∉ window.currentlyShowingVideos)) ∨
      (∃ display, window.executes .addCamera event = some display ∧
        (window.handle event).currentlyShowingVideos =
          window.currentlyShowingVideos ++ [display] ∧
        ∀ other, (window.handle event).isVisible other ↔ other = display ∨
          (window.isVisible other ∧ ¬ window.makesRoom other)) ∨
      (window.executes .addCamera event = none ∧
        (window.handle event).currentlyShowingVideos = window.currentlyShowingVideos ∧
        ∀ other, (window.handle event).isVisible other ↔ window.isVisible other) := by
  cases event with
  | newRPIVideoSender vidsend =>
      exact Or.inr (Or.inr ⟨rfl, rfl, window.isVisible_newRPIVideoSender vidsend⟩)
  | rpiVideoSenderWentAway vidsend => exact Or.inr (Or.inr ⟨rfl, rfl, fun _ => Iff.rfl⟩)
  | binaryMessageRx vidsend id => exact Or.inr (Or.inr ⟨rfl, rfl, fun _ => Iff.rfl⟩)
  | keyPress key =>
      by_cases hkey : key = .enter
      · subst hkey
        simp only [handle, keyPressEvent_enter, executes]
        cases hcommand : window.currentCommand with
        | viewCamera =>
            simp only [doCommand, hcommand]
            cases hfound : window.displayToUse with
            | none =>
                simp only [viewCamera, hfound]
                exact Or.inr (Or.inr ⟨rfl, trivial, fun _ => Iff.rfl⟩)
            | some display =>
                obtain ⟨hlist, hvisible⟩ := viewCamera_spec h hfound
                exact Or.inl ⟨display, rfl, rfl, hlist, hvisible⟩
        | addCamera =>
            simp only [doCommand, hcommand]
            cases hfound : window.displayToUse with
            | none =>
                simp only [addCamera, hfound]
                exact Or.inr (Or.inr ⟨rfl, trivial, fun _ => Iff.rfl⟩)
            | some display =>
                obtain ⟨hlist, hvisible⟩ := addCamera_spec h hfound
                exact Or.inr (Or.inl ⟨display, rfl, hlist, hvisible⟩)
        | noCommand =>
            simp only [doCommand, hcommand]
            exact Or.inr (Or.inr ⟨rfl, trivial, fun _ => Iff.rfl⟩)
        | viewWebpage =>
            simp only [doCommand, hcommand]
            exact Or.inr (Or.inr ⟨rfl, trivial, fun _ => Iff.rfl⟩)
      · have hnone : window.executes .addCamera (.keyPress key) = none := by
          cases key <;> first | rfl | exact absurd rfl hkey
        obtain ⟨tabIndex, numberEntered, currentCommand, heq⟩ :=
          window.keyPressEvent_of_ne hkey
        have hhandle : window.handle (.keyPress key) = _ := heq
        rw [hhandle]
        exact Or.inr (Or.inr ⟨hnone, rfl, fun _ => Iff.rfl⟩)

/-- What adding a camera does to the screen. -/
theorem handle_of_added {window : NVMRDisplay} (h : window.WellFormed) {event : Event}
    {added : Nat} (hadded : window.executes .addCamera event = some added) :
    (window.handle event).currentlyShowingVideos = window.currentlyShowingVideos ++ [added] ∧
      ∀ other, (window.handle event).isVisible other ↔ other = added ∨
        (window.isVisible other ∧ ¬ window.makesRoom other) := by
  rcases handle_cases h event with
    ⟨_, _, hnone, _⟩ | ⟨display, hdisplay, hspec⟩ | ⟨hnone, _⟩
  · rw [hadded] at hnone
    cases hnone
  · rw [hadded] at hdisplay
    obtain rfl := Option.some.inj hdisplay
    exact hspec
  · rw [hadded] at hnone
    cases hnone

theorem handle_wellFormed {window : NVMRDisplay} (h : window.WellFormed) (event : Event) :
    (window.handle event).WellFormed := by
  cases event with
  | newRPIVideoSender vidsend =>
      intro display hdisplay
      simp only [handle, newRPIVideoSender, List.length_append, List.length_singleton]
        at hdisplay ⊢
      rcases List.mem_append.mp hdisplay with hdisplay | hdisplay
      · exact Nat.lt_succ_of_lt (h display hdisplay)
      · rw [List.mem_singleton.mp hdisplay]
        exact Nat.lt_succ_self _
  | rpiVideoSenderWentAway vidsend =>
      intro display hdisplay
      exact h display (QVector.mem_of_mem_removeIf hdisplay)
  | binaryMessageRx vidsend id => exact h
  | keyPress key =>
      by_cases hkey : key = .enter
      · subst hkey
        obtain ⟨displays, currentlyShowingVideos, heq, hsenders⟩ := window.doCommand_eq
        have hlength := length_eq_of_senders hsenders
        rw [heq] at hlength
        simp only [handle, keyPressEvent_enter, heq]
        intro display hdisplay
        exact hlength ▸ h display hdisplay
      · obtain ⟨tabIndex, numberEntered, currentCommand, heq⟩ :=
          window.keyPressEvent_of_ne hkey
        simp only [handle, heq]
        exact h

end NVMRDisplay

end NvmrDisplay.Widgets
