import NvmrDisplay.Lib.Machine
import NvmrDisplay.Qt

/-!
The window of the widgets front end, `widgets-support/nvmrdisplay.cpp`: the
keypad, the displays of the cameras found, and which of them are on the screen.
The window frees no display, so a pointer to one is its place in the order of
construction; a pointer to a sender is any number. Rendering jobs take effect
when they are scheduled.
-/

namespace NvmrDisplay.Widgets

open Lib

/-- The keys the window tells apart; `other` is any further key code. -/
inductive Key where
  | digit (value : Fin 10)
  | asterisk
  | backslash
  | plus
  | period
  | enter
  | f1
  | f2
  | f3
  | other (code : Nat)
  deriving DecidableEq, Repr

inductive CurrentCommand where
  | noCommand
  | viewCamera
  | addCamera
  | viewWebpage
  deriving DecidableEq, Repr

structure RPIVideoDisplay where
  videoSender : Nat
  visible : Bool
  playing : Bool
  deriving DecidableEq, Repr

namespace RPIVideoDisplay

/-- The constructor, and the hiding that follows it at once. -/
def new (vidsend : Nat) : RPIVideoDisplay := ⟨vidsend, false, false⟩

def setVisible (display : RPIVideoDisplay) (visible : Bool) : RPIVideoDisplay :=
  { display with visible }

def play (display : RPIVideoDisplay) : RPIVideoDisplay := { display with playing := true }

def stop (display : RPIVideoDisplay) : RPIVideoDisplay := { display with playing := false }

end RPIVideoDisplay

structure NVMRDisplay where
  /-- The current index of the tab widget. -/
  tabIndex : Nat
  numberEntered : Int
  currentCommand : CurrentCommand
  availableRPI : List Nat
  currentlyShowingVideos : List Nat
  /-- Every display constructed. -/
  displays : List RPIVideoDisplay
  /-- The id in the last message each sender received, if any. -/
  lastValidInfo : Nat → Option Int

inductive Event where
  | keyPress (key : Key)
  | newRPIVideoSender (vidsend : Nat)
  | rpiVideoSenderWentAway (vidsend : Nat)
  /-- A sender received a message that carries this video id. -/
  | binaryMessageRx (vidsend : Nat) (id : Int)
  deriving DecidableEq, Repr

def isKeySpecial : Key → Bool
  | .asterisk | .backslash | .plus | .period => true
  | _ => false

namespace NVMRDisplay

def initial : NVMRDisplay := ⟨0, 0, .noCommand, [], [], [], fun _ => none⟩

/-- `RPIVideoSender::videoId`. -/
def senderVideoId (window : NVMRDisplay) (vidsend : Nat) : Int :=
  (window.lastValidInfo vidsend).getD (-1)

/-- `RPIVideoDisplay::videoId`. -/
def videoId (window : NVMRDisplay) (display : Nat) : Int :=
  (window.displays[display]?).elim (-1) fun object => window.senderVideoId object.videoSender

def isVisible (window : NVMRDisplay) (display : Nat) : Bool :=
  (window.displays[display]?).any fun object => object.visible

def isPlaying (window : NVMRDisplay) (display : Nat) : Bool :=
  (window.displays[display]?).any fun object => object.playing

def modifyDisplay (window : NVMRDisplay) (display : Nat)
    (change : RPIVideoDisplay → RPIVideoDisplay) : NVMRDisplay :=
  { window with displays := window.displays.modify display change }

def hideDisplay (window : NVMRDisplay) (display : Nat) : NVMRDisplay :=
  window.modifyDisplay display fun object => object.stop.setVisible false

def showDisplay (window : NVMRDisplay) (display : Nat) : NVMRDisplay :=
  { window with currentlyShowingVideos := window.currentlyShowingVideos ++ [display] }
    |>.modifyDisplay display fun object => (object.setVisible true).play

/-- The first available display with the number entered. -/
def displayToUse (window : NVMRDisplay) : Option Nat :=
  window.availableRPI.find? fun display => window.videoId display = window.numberEntered

/-- Remove anything that is currently playing. -/
def hideAll (window : NVMRDisplay) : NVMRDisplay :=
  { window.currentlyShowingVideos.foldl hideDisplay window with currentlyShowingVideos := [] }

/-- Hide the first video if there are too many; it stays in the list. -/
def hideFirst (window : NVMRDisplay) : NVMRDisplay :=
  if h : window.currentlyShowingVideos.length > 3 then
    window.hideDisplay window.currentlyShowingVideos[0]
  else window

def viewCamera (window : NVMRDisplay) : NVMRDisplay :=
  match window.displayToUse with
  | none => window
  | some display => window.hideAll.showDisplay display

def addCamera (window : NVMRDisplay) : NVMRDisplay :=
  match window.displayToUse with
  | none => window
  | some display => window.hideFirst.showDisplay display

/-- The switch on `m_currentCommand`, which has no case for web pages. -/
def doCommand (window : NVMRDisplay) : NVMRDisplay :=
  match window.currentCommand with
  | .viewCamera => window.viewCamera
  | .addCamera => window.addCamera
  | .noCommand | .viewWebpage => window

def functionKeyHandled (window : NVMRDisplay) : Key → Option NVMRDisplay
  | .f1 => some { window with tabIndex := 0 }
  | .f2 => some { window with tabIndex := 1 }
  | .f3 => some { window with tabIndex := 2 }
  | _ => none

def startCommand (window : NVMRDisplay) (key : Key) : NVMRDisplay :=
  if window.currentCommand = .noCommand ∧ isKeySpecial key then
    match key with
    | .asterisk => { window with currentCommand := .viewCamera }
    | .plus => { window with currentCommand := .addCamera }
    | .period => { window with currentCommand := .viewWebpage }
    | _ => window
  else window

def enterDigit (window : NVMRDisplay) (key : Key) : NVMRDisplay :=
  match key with
  | .digit value =>
      if window.currentCommand ≠ .noCommand then
        { window with numberEntered := int32 (int32 (window.numberEntered * 10) + value.val) }
      else window
  | _ => window

def enter (window : NVMRDisplay) (key : Key) : NVMRDisplay :=
  if key = .enter then
    { window.doCommand with currentCommand := .noCommand, numberEntered := 0 }
  else window

def keyPressEvent (window : NVMRDisplay) (key : Key) : NVMRDisplay :=
  match window.functionKeyHandled key with
  | some handled => handled
  | none =>
      if window.currentCommand ≠ .noCommand ∧ isKeySpecial key then
        { window with numberEntered := 0 }
      else ((window.startCommand key).enterDigit key).enter key

def newRPIVideoSender (window : NVMRDisplay) (vidsend : Nat) : NVMRDisplay :=
  { window with
    displays := window.displays ++ [.new vidsend]
    availableRPI := window.availableRPI ++ [window.displays.length] }

def rpiVideoSenderWentAway (window : NVMRDisplay) (vidsend : Nat) : NVMRDisplay :=
  { window with
    availableRPI := QVector.removeIf window.availableRPI fun display =>
      window.videoId display = window.senderVideoId vidsend }

def binaryMessageRx (window : NVMRDisplay) (vidsend : Nat) (id : Int) : NVMRDisplay :=
  { window with lastValidInfo := Function.update window.lastValidInfo vidsend (some id) }

def handle (window : NVMRDisplay) : Event → NVMRDisplay
  | .keyPress key => window.keyPressEvent key
  | .newRPIVideoSender vidsend => window.newRPIVideoSender vidsend
  | .rpiVideoSenderWentAway vidsend => window.rpiVideoSenderWentAway vidsend
  | .binaryMessageRx vidsend id => window.binaryMessageRx vidsend id

end NVMRDisplay

/-- The window from its construction on: every event is handled at any time. -/
def mainWindow : Machine NVMRDisplay Event := .total .initial NVMRDisplay.handle

namespace NVMRDisplay

/-- The displays that are visible and playing. -/
def shown (window : NVMRDisplay) : List Nat :=
  (List.range window.displays.length).filter fun display =>
    window.isVisible display && window.isPlaying display

/-- The display on which an event executes a command. -/
def executes (window : NVMRDisplay) (command : CurrentCommand) : Event → Option Nat
  | .keyPress .enter => if window.currentCommand = command then window.displayToUse else none
  | _ => none

end NVMRDisplay

end NvmrDisplay.Widgets
