import NvmrDisplay.Lib.Safety
import NvmrDisplay.Widgets.Screen
import Mathlib.Data.List.DropRight
import Mathlib.Data.Nat.Digits.Defs

/-!
What a sequence of keys says, read as a whole: the first command key since the
last Enter names the command, and the digits after the last special key are its
number. The window reads one key at a time and keeps the number in an `int`, so
it executes the command that was typed for as long as that number fits.
-/

namespace NvmrDisplay.Widgets

open Lib

def commandOf : Key → Option CurrentCommand
  | .asterisk => some .viewCamera
  | .plus => some .addCamera
  | .period => some .viewWebpage
  | _ => none

def digit? : Key → Option Nat
  | .digit value => some value.val
  | _ => none

/-- The keys since the last Enter. -/
def sinceEnter (keys : List Key) : List Key := keys.rtakeWhile fun key => key ≠ .enter

/-- The first command key since the last Enter. -/
def typedCommand (keys : List Key) : CurrentCommand :=
  ((sinceEnter keys).findSome? commandOf).getD .noCommand

/-- The digits after the last special key, in the order they were typed. -/
def typedDigits (keys : List Key) : List Nat :=
  ((sinceEnter keys).rtakeWhile fun key => !isKeySpecial key).filterMap digit?

/-- The decimal value of these digits, if a command key came before them. -/
def typedNumber (keys : List Key) : Nat :=
  if typedCommand keys = .noCommand then 0 else Nat.ofDigits 10 (typedDigits keys).reverse

def Event.key? : Event → Option Key
  | .keyPress key => some key
  | _ => none

def keysOf (events : List Event) : List Key := events.filterMap Event.key?

theorem sinceEnter_snoc (keys : List Key) {key : Key} (hkey : key ≠ .enter) :
    sinceEnter (keys ++ [key]) = sinceEnter keys ++ [key] :=
  List.rtakeWhile_concat_pos _ _ _ (decide_eq_true hkey)

theorem sinceEnter_enter (keys : List Key) : sinceEnter (keys ++ [.enter]) = [] :=
  List.rtakeWhile_concat_neg _ _ _ (by decide)

theorem commandOf_ne {key : Key} {command : CurrentCommand} (h : commandOf key = some command) :
    command ≠ .noCommand := by
  cases key <;> cases h <;> decide

theorem typedCommand_eq_none_iff (keys : List Key) :
    typedCommand keys = .noCommand ↔ (sinceEnter keys).findSome? commandOf = none := by
  unfold typedCommand
  cases hfound : (sinceEnter keys).findSome? commandOf with
  | none => exact iff_of_true rfl rfl
  | some command =>
      obtain ⟨key, _, hcommand⟩ := List.exists_of_findSome?_eq_some hfound
      refine iff_of_false (commandOf_ne hcommand) ?_
      intro h
      cases h

theorem typedCommand_snoc (keys : List Key) (key : Key) :
    typedCommand (keys ++ [key]) =
      if key = .enter then .noCommand
      else if typedCommand keys = .noCommand then (commandOf key).getD .noCommand
      else typedCommand keys := by
  by_cases hkey : key = .enter
  · rw [if_pos hkey, hkey, typedCommand, sinceEnter_enter]
    rfl
  · rw [if_neg hkey, typedCommand, sinceEnter_snoc keys hkey, List.findSome?_append]
    cases hfound : (sinceEnter keys).findSome? commandOf with
    | none =>
        rw [if_pos ((typedCommand_eq_none_iff keys).mpr hfound)]
        simp
    | some command =>
        have hpending : typedCommand keys ≠ .noCommand := by
          rw [Ne, typedCommand_eq_none_iff, hfound]
          exact Option.some_ne_none command
        rw [if_neg hpending, typedCommand, hfound]
        rfl

theorem typedDigits_snoc (keys : List Key) {key : Key} (hkey : key ≠ .enter) :
    typedDigits (keys ++ [key]) =
      if isKeySpecial key then [] else typedDigits keys ++ (digit? key).toList := by
  rw [typedDigits, sinceEnter_snoc keys hkey, List.rtakeWhile_concat]
  cases hspecial : isKeySpecial key with
  | true => rfl
  | false =>
      simp only [Bool.not_false, if_true, Bool.false_eq_true, if_false, List.filterMap_append]
      cases hdigit : digit? key <;> simp [typedDigits, hdigit]

/-- Every command key is special. -/
theorem commandOf_eq_none {key : Key} (hspecial : ¬ isKeySpecial key) : commandOf key = none := by
  cases key <;> first | rfl | exact absurd rfl hspecial

theorem typedNumber_snoc (keys : List Key) (key : Key) :
    typedNumber (keys ++ [key]) =
      if key = .enter ∨ typedCommand keys = .noCommand ∨ isKeySpecial key then 0
      else match digit? key with
        | some value => typedNumber keys * 10 + value
        | none => typedNumber keys := by
  have hcommand := typedCommand_snoc keys key
  by_cases hkey : key = .enter
  · rw [if_pos hkey] at hcommand
    rw [typedNumber, if_pos hcommand, if_pos (Or.inl hkey)]
  · have hdigits := typedDigits_snoc keys hkey
    rw [if_neg hkey] at hcommand
    by_cases hspecial : isKeySpecial key
    · rw [if_pos hspecial] at hdigits
      rw [typedNumber, hdigits, if_pos (Or.inr (Or.inr hspecial))]
      exact ite_self 0
    · rw [if_neg hspecial] at hdigits
      by_cases hnone : typedCommand keys = .noCommand
      · rw [if_pos hnone, commandOf_eq_none hspecial, Option.getD_none] at hcommand
        rw [typedNumber, if_pos hcommand, if_pos (Or.inr (Or.inl hnone))]
      · rw [if_neg hnone] at hcommand
        rw [typedNumber, hcommand, if_neg hnone, hdigits, if_neg (by tauto), typedNumber,
          if_neg hnone]
        cases digit? key with
        | none => simp
        | some value =>
            simp only [Option.toList_some, List.reverse_append, List.reverse_singleton,
              List.singleton_append, Nat.ofDigits_cons]
            omega

namespace NVMRDisplay

theorem keyPressEvent_currentCommand (window : NVMRDisplay) (key : Key) :
    (window.keyPressEvent key).currentCommand =
      if key = .enter then .noCommand
      else if window.currentCommand = .noCommand then (commandOf key).getD .noCommand
      else window.currentCommand := by
  by_cases hkey : key = .enter
  · rw [if_pos hkey, hkey, keyPressEvent_enter]
  · rw [if_neg hkey]
    cases hcommand : window.currentCommand <;> cases key <;>
      simp_all [keyPressEvent, functionKeyHandled, startCommand, enterDigit, enter, isKeySpecial,
        commandOf]

theorem keyPressEvent_numberEntered (window : NVMRDisplay) (key : Key)
    (hidle : window.currentCommand = .noCommand → window.numberEntered = 0) :
    (window.keyPressEvent key).numberEntered =
      if key = .enter ∨ window.currentCommand = .noCommand ∨ isKeySpecial key then 0
      else match digit? key with
        | some value => int32 (int32 (window.numberEntered * 10) + value)
        | none => window.numberEntered := by
  by_cases hkey : key = .enter
  · rw [if_pos (Or.inl hkey), hkey, keyPressEvent_enter]
  · cases hcommand : window.currentCommand <;> cases key <;>
      simp_all [keyPressEvent, functionKeyHandled, startCommand, enterDigit, enter, isKeySpecial,
        digit?]

/-- The first available camera with this number. -/
def cameraNumbered (window : NVMRDisplay) (number : Nat) : Option Nat :=
  window.availableRPI.find? fun display => window.videoId display = (number : Int)

/-- What a command with a number is to do; it does nothing without a camera. -/
def execute (window : NVMRDisplay) (command : CurrentCommand) (number : Nat) : NVMRDisplay :=
  match command, window.cameraNumbered number with
  | .viewCamera, some display => window.hideAll.showDisplay display
  | .addCamera, some display => window.hideFirst.showDisplay display
  | _, _ => window

/-- The window has read what was typed, and the last Enter executed it. -/
structure ReadsKeypad (events : List Event) (window : NVMRDisplay) : Prop where
  command : window.currentCommand = typedCommand (keysOf events)
  number : window.numberEntered = (typedNumber (keysOf events) : Int)
  idle : window.currentCommand = .noCommand → window.numberEntered = 0
  entered : ∀ before prior, events = before ++ [.keyPress .enter] →
    mainWindow.run before = some prior →
      window = { prior.execute (typedCommand (keysOf before)) (typedNumber (keysOf before)) with
        currentCommand := .noCommand
        numberEntered := 0 }

/-- With the typed command and the typed number, Enter does what was typed. -/
theorem doCommand_eq_execute {window : NVMRDisplay} {command : CurrentCommand} {number : Nat}
    (hcommand : window.currentCommand = command) (hnumber : window.numberEntered = number) :
    window.doCommand = window.execute command number := by
  have hcamera : window.displayToUse = window.cameraNumbered number := by
    rw [displayToUse, cameraNumbered, hnumber]
  unfold doCommand execute
  rw [hcommand, ← hcamera]
  cases command with
  | noCommand | viewWebpage => rfl
  | viewCamera => cases hfound : window.displayToUse <;> simp [viewCamera, hfound]
  | addCamera => cases hfound : window.displayToUse <;> simp [addCamera, hfound]

theorem int32_lt (n : Int) : int32 n < 2147483648 := Int.bmod_lt (m := 4294967296) (by decide)

theorem int32_of_fits {n : Int} (hpos : 0 ≤ n) (hfits : n < 2147483648) : int32 n = n :=
  Int.bmod_eq_of_le (by omega) (by omega)

/-- What holds of the number whatever is typed: it is 0 while no command is
pending, and an `int`. -/
structure NumberSound (window : NVMRDisplay) : Prop where
  idle : window.currentCommand = .noCommand → window.numberEntered = 0
  fits : window.numberEntered < 2147483648

theorem NumberSound.keyPressEvent {window : NVMRDisplay} (h : window.NumberSound) (key : Key) :
    (window.keyPressEvent key).NumberSound := by
  have hcommand := window.keyPressEvent_currentCommand key
  have hnumber := window.keyPressEvent_numberEntered key h.idle
  refine ⟨?_, ?_⟩
  · intro hnone
    rw [hnumber]
    refine if_pos ?_
    by_contra hother
    obtain ⟨hkey, hpending, _⟩ := by simpa only [not_or] using hother
    rw [if_neg hkey, if_neg hpending] at hcommand
    exact hpending (hcommand ▸ hnone)
  · rw [hnumber]
    split
    · decide
    · split
      · exact int32_lt _
      · exact h.fits

theorem run_numberSound :
    ∀ events window, mainWindow.run events = some window → window.NumberSound := by
  refine mainWindow.run_induction (P := fun _ window => window.NumberSound) ?_ ?_
  · exact ⟨fun _ => rfl, by decide⟩
  · rintro events window event _ _ hsound ⟨⟩
    cases event with
    | keyPress key => exact hsound.keyPressEvent key
    | newRPIVideoSender _ | rpiVideoSenderWentAway _ | binaryMessageRx _ _ =>
        exact ⟨hsound.idle, hsound.fits⟩

theorem keysOf_snoc (events : List Event) (event : Event) :
    keysOf (events ++ [event]) = keysOf events ++ event.key?.toList := by
  rw [keysOf, List.filterMap_append]
  cases hkey : event.key? <;> simp [keysOf, hkey]

/-- One key is read as typed if the number still fits. -/
theorem ReadsKeypad.keyPress {events : List Event} {window : NVMRDisplay}
    (h : window.ReadsKeypad events) (key : Key)
    (hfits : typedNumber (keysOf events ++ [key]) < 2147483648) :
    (window.keyPressEvent key).currentCommand = typedCommand (keysOf events ++ [key]) ∧
      (window.keyPressEvent key).numberEntered = (typedNumber (keysOf events ++ [key]) : Int) := by
  refine ⟨?_, ?_⟩
  · rw [keyPressEvent_currentCommand, typedCommand_snoc, h.command]
  · rw [typedNumber_snoc] at hfits ⊢
    rw [keyPressEvent_numberEntered window key h.idle, h.command]
    split
    · rfl
    · rename_i hcounts
      rw [if_neg hcounts] at hfits
      cases hdigit : digit? key with
      | none => exact h.number
      | some value =>
          have hsum : typedNumber (keysOf events) * 10 + value < 2147483648 := by
            simpa only [hdigit] using hfits
          have htens : int32 ((typedNumber (keysOf events) : Int) * 10) =
              (typedNumber (keysOf events) : Int) * 10 := int32_of_fits (by omega) (by omega)
          simp only
          rw [h.number, htens, int32_of_fits (by omega) (by omega)]
          omega

/-- One event leaves the keypad read just when the typed number fits. -/
theorem ReadsKeypad.handle_iff {events : List Event} {window : NVMRDisplay}
    (hrun : mainWindow.run events = some window) (h : window.ReadsKeypad events) (event : Event) :
    (window.handle event).ReadsKeypad (events ++ [event]) ↔
      typedNumber (keysOf (events ++ [event])) < 2147483648 := by
  have hnext : mainWindow.run (events ++ [event]) = some (window.handle event) :=
    (mainWindow.run_snoc events event _).mpr ⟨window, hrun, rfl⟩
  have hsound := run_numberSound _ _ hnext
  constructor
  · intro hreads
    have hfits := hsound.fits
    rw [hreads.number] at hfits
    omega
  · intro hfits
    have hread :
        (window.handle event).currentCommand = typedCommand (keysOf (events ++ [event])) ∧
        (window.handle event).numberEntered =
          (typedNumber (keysOf (events ++ [event])) : Int) := by
      rw [keysOf_snoc] at hfits ⊢
      cases event with
      | keyPress key => exact h.keyPress key hfits
      | newRPIVideoSender _ | rpiVideoSenderWentAway _ | binaryMessageRx _ _ =>
          simp only [Event.key?, Option.toList_none, List.append_nil]
          exact ⟨h.command, h.number⟩
    refine ⟨hread.1, hread.2, hsound.idle, ?_⟩
    intro before prior hevents hprior
    obtain ⟨rfl, hlast⟩ := List.append_inj' hevents rfl
    obtain rfl : event = .keyPress .enter := by simpa using hlast
    obtain rfl : window = prior := Option.some.inj (hrun.symm.trans hprior)
    simp only [handle, keyPressEvent_enter]
    rw [doCommand_eq_execute h.command h.number]

/-- In a run, the keypad does what was typed exactly if the number typed is
less than 2147483648 at every point. -/
theorem reads_keypad_iff (events : List Event) :
    mainWindow.Always (fun before window => window.ReadsKeypad before) events ↔
      Throughout (fun before event =>
        typedNumber (keysOf (before ++ [event])) < 2147483648) events := by
  refine mainWindow.always_iff_throughout ?_ ?_ events _ (Machine.run_total _ _ events)
  · refine ⟨rfl, rfl, fun _ => rfl, ?_⟩
    intro before prior h
    simp at h
  · rintro before window event _ hrun hreads ⟨⟩
    exact hreads.handle_iff hrun event

def digitKeys (values : List Nat) : List Key :=
  values.filterMap fun value => if h : value < 10 then some (.digit ⟨value, h⟩) else none

/-- One camera is found, with the video id 2, and 4294967298 is typed. -/
def cameraTwo : List Event :=
  [.newRPIVideoSender 0, .binaryMessageRx 0 2, .keyPress .asterisk] ++
    List.map .keyPress (digitKeys [4, 2, 9, 4, 9, 6, 7, 2, 9, 8])

def cameraTwoEntered : List Event := cameraTwo ++ [.keyPress .enter]

/-- The number wraps to 2 and Enter shows that camera. -/
theorem wrapped_number_selects :
    typedNumber (keysOf cameraTwo) = 4294967298 ∧
      (cameraTwo.foldl handle initial).cameraNumbered 4294967298 = none ∧
      (cameraTwoEntered.foldl handle initial).shown = [0] ∧
      ¬ mainWindow.Always (fun before window => window.ReadsKeypad before) cameraTwoEntered := by
  have htyped : typedNumber (keysOf cameraTwo) = 4294967298 := by rfl
  refine ⟨htyped, by decide +kernel, by decide +kernel, ?_⟩
  intro h
  have hnumber := (h cameraTwo _ (List.prefix_append _ _) (Machine.run_total _ _ _)).number
  have hwrapped : (cameraTwo.foldl handle initial).numberEntered = 2 := by decide +kernel
  rw [hwrapped, htyped] at hnumber
  exact absurd hnumber (by decide)

end NVMRDisplay

end NvmrDisplay.Widgets
