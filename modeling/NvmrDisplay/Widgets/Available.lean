import NvmrDisplay.Lib.Safety
import NvmrDisplay.Widgets.Screen
import Mathlib.Data.List.Nodup
import Mathlib.Data.Option.Basic

/-!
The displays that a key sequence can select. A sender that is found gets a
display at the end of the list. A sender that goes away has no display removed:
what `std::remove_if` keeps moves to the front, and the list stays as long as it
was. Displays are told apart by video id, so displays of other senders may move
too.
-/

namespace NvmrDisplay.Widgets

open Lib

/-- The senders found and not gone away, in order of arrival, after an event. -/
def arrive (senders : List Nat) : Event → List Nat
  | .newRPIVideoSender vidsend =>
      if vidsend ∈ senders then senders else senders ++ [vidsend]
  | .rpiVideoSenderWentAway vidsend => senders.filter fun sender => sender ≠ vidsend
  | .keyPress _ | .binaryMessageRx _ _ => senders

def present (events : List Event) : List Nat := events.foldl arrive []

theorem present_snoc (events : List Event) (event : Event) :
    present (events ++ [event]) = arrive (present events) event := by
  rw [present, List.foldl_append]
  rfl

theorem present_nodup (events : List Event) : (present events).Nodup := by
  induction events using List.reverseRecOn with
  | nil => exact List.nodup_nil
  | append_singleton events event ih =>
      rw [present_snoc]
      cases event with
      | keyPress _ | binaryMessageRx _ _ => exact ih
      | rpiVideoSenderWentAway vidsend => exact ih.filter _
      | newRPIVideoSender vidsend =>
          simp only [arrive]
          split
          · exact ih
          · rename_i hnew
            rw [← List.concat_eq_append]
            exact List.Nodup.concat hnew ih

namespace NVMRDisplay

/-- The sender of one display. -/
def senderOf (window : NVMRDisplay) (display : Nat) : Option Nat := window.senders[display]?

theorem videoId_eq (window : NVMRDisplay) (display : Nat) :
    window.videoId display = (window.senderOf display).elim (-1) window.senderVideoId := by
  rw [videoId, senderOf, senders, List.getElem?_map]
  cases window.displays[display]? <;> rfl

/-- One display for every sender that is present, and none for another; so the
number entered selects the first present sender with that id. -/
structure Selectable (events : List Event) (window : NVMRDisplay) : Prop where
  listed : window.availableRPI.map window.senderOf = (present events).map some
  once : (window.availableRPI.map window.senderOf).Nodup
  selected : window.displayToUse.bind window.senderOf =
    (present events).find? fun vidsend => window.senderVideoId vidsend = window.numberEntered

theorem selectable_iff (events : List Event) (window : NVMRDisplay) :
    window.Selectable events ↔
      window.availableRPI.map window.senderOf = (present events).map some := by
  refine ⟨Selectable.listed, fun hlisted => ⟨hlisted, ?_, ?_⟩⟩
  · rw [hlisted]
    exact (present_nodup events).map (Option.some_injective Nat)
  · have hfind := congrArg (List.find? fun sender =>
      sender.elim (-1) window.senderVideoId = window.numberEntered) hlisted
    have hdisplay : window.displayToUse = window.availableRPI.find? ((fun sender =>
        decide (sender.elim (-1) window.senderVideoId = window.numberEntered)) ∘
          window.senderOf) := by
      simp only [displayToUse, videoId_eq, Function.comp_def]
    rw [List.find?_map, List.find?_map, ← hdisplay] at hfind
    have hsome : ((fun sender : Option Nat =>
        decide (sender.elim (-1) window.senderVideoId = window.numberEntered)) ∘ some) =
        fun vidsend => decide (window.senderVideoId vidsend = window.numberEntered) := rfl
    rw [hsome] at hfind
    cases hdisplayed : window.displayToUse with
    | none =>
        rw [hdisplayed, Option.map_none, eq_comm, Option.map_eq_none_iff] at hfind
        rw [hfind]
        rfl
    | some display =>
        rw [hdisplayed, Option.map_some, eq_comm, Option.map_eq_some_iff] at hfind
        obtain ⟨vidsend, hfound, hsender⟩ := hfind
        rw [hfound, Option.bind_some, hsender]

theorem keyPressEvent_keeps (window : NVMRDisplay) (key : Key) :
    (window.keyPressEvent key).availableRPI = window.availableRPI ∧
      (window.keyPressEvent key).senders = window.senders := by
  by_cases hkey : key = .enter
  · subst hkey
    obtain ⟨displays, currentlyShowingVideos, heq, hsenders⟩ := window.doCommand_eq
    rw [keyPressEvent_enter]
    rw [heq] at hsenders ⊢
    exact ⟨rfl, hsenders⟩
  · obtain ⟨tabIndex, numberEntered, currentCommand, heq⟩ := window.keyPressEvent_of_ne hkey
    rw [heq]
    exact ⟨rfl, rfl⟩

/-- A display that is listed for a sender has been constructed. -/
theorem senderOf_newRPIVideoSender (window : NVMRDisplay) (vidsend : Nat) {display sender : Nat}
    (hsender : window.senderOf display = some sender) :
    (window.newRPIVideoSender vidsend).senderOf display = some sender := by
  have hlt := (List.getElem?_eq_some_iff.mp hsender).1
  rw [senderOf, newRPIVideoSender, senders, List.map_append]
  exact (List.getElem?_append_left hlt).trans hsender

theorem newRPIVideoSender_listed {window : NVMRDisplay} {known : List Nat}
    (hlisted : window.availableRPI.map window.senderOf = known.map some) (vidsend : Nat) :
    (window.newRPIVideoSender vidsend).availableRPI.map
        (window.newRPIVideoSender vidsend).senderOf = (known ++ [vidsend]).map some := by
  have hold : window.availableRPI.map (window.newRPIVideoSender vidsend).senderOf =
      window.availableRPI.map window.senderOf := by
    apply List.map_congr_left
    intro display hdisplay
    have hmem : window.senderOf display ∈ known.map some :=
      hlisted ▸ List.mem_map_of_mem hdisplay
    obtain ⟨sender, _, hsender⟩ := List.mem_map.mp hmem
    rw [← hsender]
    exact window.senderOf_newRPIVideoSender vidsend hsender.symm
  have hnew : (window.newRPIVideoSender vidsend).senderOf window.displays.length =
      some vidsend := by
    simp [senderOf, newRPIVideoSender, senders, RPIVideoDisplay.new]
  have hlist : (window.newRPIVideoSender vidsend).availableRPI =
      window.availableRPI ++ [window.displays.length] := rfl
  rw [hlist, List.map_append, List.map_append, hold, hlisted, List.map_singleton, hnew]
  rfl

/-- Removal by video id acts on the list of senders. -/
theorem rpiVideoSenderWentAway_listed {window : NVMRDisplay} {known : List Nat}
    (hlisted : window.availableRPI.map window.senderOf = known.map some) (vidsend : Nat) :
    (window.rpiVideoSenderWentAway vidsend).availableRPI.map
        (window.rpiVideoSenderWentAway vidsend).senderOf =
      (QVector.removeIf known fun sender =>
        window.senderVideoId sender = window.senderVideoId vidsend).map some := by
  have hsame : (fun display => decide (window.videoId display = window.senderVideoId vidsend)) =
      fun display => decide ((window.senderOf display).elim (-1) window.senderVideoId =
        window.senderVideoId vidsend) := by
    funext display
    rw [videoId_eq]
  have hsenderOf : (window.rpiVideoSenderWentAway vidsend).senderOf = window.senderOf := rfl
  rw [hsenderOf, rpiVideoSenderWentAway, hsame]
  rw [← QVector.removeIf_map window.availableRPI window.senderOf fun sender =>
    decide (sender.elim (-1) window.senderVideoId = window.senderVideoId vidsend)]
  rw [hlisted, QVector.removeIf_map]
  rfl

/-- The events that leave every present sender one display: a sender is found
once, and goes away only if it is not present and the present senders with its
video id are the last ones. -/
def KeepsListed (before : List Event) (window : NVMRDisplay) : Event → Prop
  | .newRPIVideoSender vidsend => vidsend ∉ present before
  | .rpiVideoSenderWentAway vidsend =>
      vidsend ∉ present before ∧ (present before).Pairwise fun sender later =>
        window.senderVideoId sender = window.senderVideoId vidsend →
          window.senderVideoId later = window.senderVideoId vidsend
  | .keyPress _ | .binaryMessageRx _ _ => True

/-- One event keeps the displays selectable just when it is one of these. -/
theorem Selectable.handle_iff {before : List Event} {window : NVMRDisplay}
    (h : window.Selectable before) (event : Event) :
    (window.handle event).Selectable (before ++ [event]) ↔ window.KeepsListed before event := by
  rw [selectable_iff, present_snoc]
  cases event with
  | keyPress key =>
      obtain ⟨hlist, hsenders⟩ := window.keyPressEvent_keeps key
      refine iff_of_true ?_ trivial
      simp only [handle, arrive, hlist]
      have hsenderOf : (window.keyPressEvent key).senderOf = window.senderOf := by
        funext display
        rw [senderOf, hsenders, senderOf]
      rw [hsenderOf]
      exact h.listed
  | binaryMessageRx vidsend id => exact iff_of_true h.listed trivial
  | newRPIVideoSender vidsend =>
      simp only [handle, arrive, KeepsListed]
      rw [newRPIVideoSender_listed h.listed]
      split
      · rename_i hpresent
        refine iff_of_false ?_ (not_not_intro hpresent)
        intro hsame
        have hlength := congrArg List.length hsame
        simp at hlength
      · rename_i hnew
        exact iff_of_true rfl hnew
  | rpiVideoSenderWentAway vidsend =>
      simp only [handle, arrive, KeepsListed]
      rw [rpiVideoSenderWentAway_listed h.listed]
      by_cases hpresent : vidsend ∈ present before
      · refine iff_of_false ?_ (fun hkeeps => hkeeps.1 hpresent)
        intro hsame
        have hlength := congrArg List.length hsame
        rw [List.length_map, List.length_map, QVector.length_removeIf] at hlength
        have hless : ((present before).filter fun sender => sender ≠ vidsend).length <
            (present before).length :=
          List.length_filter_lt_length_iff_exists.mpr ⟨vidsend, hpresent, by simp⟩
        omega
      · have hrest : (present before).filter (fun sender => sender ≠ vidsend) =
            present before := by
          rw [List.filter_eq_self]
          intro sender hsender
          refine decide_eq_true ?_
          rintro rfl
          exact hpresent hsender
        rw [hrest, (List.map_injective_iff.mpr (Option.some_injective Nat)).eq_iff,
          QVector.removeIf_eq_self_iff, and_iff_right hpresent]
        simp only [decide_eq_true_eq]

/-- In a run, the displays stay selectable exactly if no sender that is present
goes away, none is found twice, and no other disturbs the order. -/
theorem selectable_displays_iff (events : List Event) :
    mainWindow.Always (fun before window => window.Selectable before) events ↔
      Throughout (fun before event =>
        ∀ window, mainWindow.run before = some window → window.KeepsListed before event)
        events := by
  refine mainWindow.always_iff_throughout ?_ ?_ events _ (Machine.run_total _ _ events)
  · exact (selectable_iff [] initial).mpr rfl
  · rintro before window event _ hrun hselectable ⟨⟩
    rw [hselectable.handle_iff event]
    constructor
    · intro hkeeps window' hrun'
      obtain rfl : window = window' := Option.some.inj (hrun.symm.trans hrun')
      exact hkeeps
    · intro hkeeps
      exact hkeeps window hrun

/-- Two senders are found, and the first one goes away again. -/
def firstSenderLost : List Event :=
  [.newRPIVideoSender 0, .binaryMessageRx 0 1, .newRPIVideoSender 1, .binaryMessageRx 1 2,
    .rpiVideoSenderWentAway 0]

/-- The display of the second sender is listed twice. -/
theorem departed_sender_listed :
    (firstSenderLost.foldl handle initial).availableRPI = [1, 1] ∧
      present firstSenderLost = [1] ∧
      ¬ mainWindow.Always (fun before window => window.Selectable before) firstSenderLost := by
  have hlist : (firstSenderLost.foldl handle initial).availableRPI = [1, 1] := by decide
  refine ⟨hlist, by decide, ?_⟩
  intro h
  have hlisted := (h firstSenderLost _ (List.prefix_refl _) (Machine.run_total _ _ _)).listed
  have hlength := congrArg List.length hlisted
  rw [List.length_map, List.length_map, hlist] at hlength
  exact absurd hlength (by decide)

end NVMRDisplay

end NvmrDisplay.Widgets
