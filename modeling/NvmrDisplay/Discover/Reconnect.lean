import NvmrDisplay.Discover.ServiceDiscover
import NvmrDisplay.Lib.Safety

/-!
The websocket of an `RPIVideoSender`, `rpivideosender.cpp`. Which slots a signal
runs is decided by the constructor alone. It connects neither the loss of the
websocket nor the timeout of the timer that `websocketError` starts, so
`connectToRPI` runs once, in the constructor. Of a message from the camera only
the video id is kept.
-/

namespace NvmrDisplay.Discover

open Lib

inductive SocketState where
  | unconnected
  | connecting
  | connected
  deriving DecidableEq, Repr

/-- The signals of the websocket and of the timer. -/
inductive SocketSignal where
  | binaryMessageReceived (doc : Option Int)
  | connected
  | error
  | disconnected
  | timeout
  deriving DecidableEq, Repr

/-- An `RPIVideoSender` with its websocket and its timer. -/
structure VideoSender extends RPIVideoSender where
  videoSender : SocketState
  /-- The addresses the websocket was opened with. -/
  opened : List String
  /-- The commands of the messages sent. -/
  sent : List String
  /-- The interval of the timer while it is active. -/
  reconnectTimer : Option Nat
  lastValidInfo : Option Int

namespace VideoSender

def binaryMessageRx (doc : Option Int) (sender : VideoSender) : VideoSender :=
  match doc with
  | none => sender
  | some id => { sender with lastValidInfo := some id }

def queryData (sender : VideoSender) : VideoSender :=
  { sender with
    reconnectTimer := none
    sent := sender.sent ++ ["query"] }

def websocketError (sender : VideoSender) : VideoSender :=
  { sender with
    videoSender := .unconnected
    reconnectTimer := some 10000 }

def connectToRPI (sender : VideoSender) : VideoSender :=
  { sender with
    videoSender := .connecting
    opened := sender.opened ++ [sender.websocketAddr] }

/-- The slots that the constructor connects to a signal. -/
def connections : SocketSignal → List (VideoSender → VideoSender)
  | .binaryMessageReceived doc => [binaryMessageRx doc]
  | .connected => [queryData]
  | .error => [websocketError]
  | .disconnected | .timeout => []

def new (name address : String) (port : Nat) : VideoSender :=
  connectToRPI {
    toRPIVideoSender := RPIVideoSender.new name address port
    videoSender := .unconnected
    opened := []
    sent := []
    reconnectTimer := none
    lastValidInfo := none }

/-- What has become of the websocket when it emits a signal. -/
def emitting (sender : VideoSender) : SocketSignal → VideoSender
  | .connected => { sender with videoSender := .connected }
  | .disconnected => { sender with videoSender := .unconnected }
  | .binaryMessageReceived _ | .error | .timeout => sender

def handle (sender : VideoSender) (signal : SocketSignal) : VideoSender :=
  (connections signal).foldl (fun sender slot => slot sender) (sender.emitting signal)

/-- The timer is active, and its timeout opens the websocket again. -/
def ReconnectScheduled (sender : VideoSender) : Prop :=
  sender.reconnectTimer.isSome ∧ sender.handle .timeout = sender.connectToRPI

/-- What the display relies on for as long as it runs. -/
structure KeepsTrying (history : List SocketSignal) (sender : VideoSender) : Prop where
  reachable : sender.videoSender = .connecting ∨ sender.videoSender = .connected ∨
    sender.ReconnectScheduled
  timerStopped : sender.videoSender = .connected → sender.reconnectTimer = none
  queried : sender.sent.count "query" = history.count .connected

/-- What every history leaves true: each connection is queried once and stops
the timer, and only the constructor has opened the websocket. -/
structure Wired (history : List SocketSignal) (sender : VideoSender) : Prop where
  timerStopped : sender.videoSender = .connected → sender.reconnectTimer = none
  queried : sender.sent.count "query" = history.count .connected
  openedOnce : sender.opened = [sender.websocketAddr]

theorem new_wired (name address : String) (port : Nat) : Wired [] (new name address port) where
  timerStopped _ := rfl
  queried := rfl
  openedOnce := rfl

/-- One signal leaves the sender wired. -/
theorem Wired.handle {history : List SocketSignal} {sender : VideoSender}
    (h : Wired history sender) (signal : SocketSignal) :
    Wired (history ++ [signal]) (sender.handle signal) := by
  have hcount : (history ++ [signal]).count .connected =
      history.count .connected + [signal].count .connected := List.count_append
  cases signal with
  | binaryMessageReceived doc =>
      refine ⟨?_, ?_, ?_⟩
      · cases doc <;> exact h.timerStopped
      · rw [hcount]
        cases doc <;> exact h.queried
      · cases doc <;> exact h.openedOnce
  | connected =>
      refine ⟨fun _ => rfl, ?_, h.openedOnce⟩
      have hsent : (sender.handle .connected).sent = sender.sent ++ ["query"] := rfl
      rw [hsent, List.count_append, hcount, h.queried]
      rfl
  | error =>
      refine ⟨?_, ?_, h.openedOnce⟩
      · intro hconnected
        cases hconnected
      · rw [hcount]
        exact h.queried
  | disconnected =>
      refine ⟨?_, ?_, h.openedOnce⟩
      · intro hconnected
        cases hconnected
      · rw [hcount]
        exact h.queried
  | timeout =>
      refine ⟨h.timerStopped, ?_, h.openedOnce⟩
      rw [hcount]
      exact h.queried

/-- No reconnect is ever scheduled: the timeout runs no slot. -/
theorem not_reconnectScheduled (sender : VideoSender) : ¬ sender.ReconnectScheduled := by
  rintro ⟨_, hopens⟩
  have hopened : sender.opened = sender.opened ++ [sender.websocketAddr] :=
    congrArg VideoSender.opened hopens
  simp at hopened

theorem Wired.keepsTrying_iff {history : List SocketSignal} {sender : VideoSender}
    (h : Wired history sender) :
    KeepsTrying history sender ↔ sender.videoSender ≠ .unconnected := by
  constructor
  · intro hkeeps hlost
    rcases hkeeps.reachable with hconnecting | hconnected | hscheduled
    · rw [hlost] at hconnecting
      cases hconnecting
    · rw [hlost] at hconnected
      cases hconnected
    · exact sender.not_reconnectScheduled hscheduled
  · intro hopen
    refine ⟨?_, h.timerStopped, h.queried⟩
    cases hsocket : sender.videoSender with
    | unconnected => exact absurd hsocket hopen
    | connecting => exact Or.inl rfl
    | connected => exact Or.inr (Or.inl rfl)

end VideoSender

open VideoSender

/-- A sender with the signals it receives, in any order. -/
def videoSender (name address : String) (port : Nat) : Machine VideoSender SocketSignal :=
  Machine.total (VideoSender.new name address port) VideoSender.handle

/-- In every reached state the websocket has been opened once. -/
theorem run_wired (name address : String) (port : Nat) :
    ∀ events sender, (videoSender name address port).run events = some sender →
      Wired events sender := by
  refine (videoSender name address port).run_induction (P := Wired) (new_wired name address port) ?_
  rintro events sender signal _ _ hwired ⟨⟩
  exact hwired.handle signal

/-- A sender keeps trying for as long as its websocket neither fails nor closes. -/
theorem never_gives_up_iff (name address : String) (port : Nat) (events : List SocketSignal) :
    (videoSender name address port).Always KeepsTrying events ↔
      Throughout (fun _ signal => signal ≠ .error ∧ signal ≠ .disconnected) events := by
  refine (videoSender name address port).always_iff_throughout (P := KeepsTrying) ?_ ?_ events _
    (Machine.run_total _ _ events)
  · refine (new_wired name address port).keepsTrying_iff.mpr ?_
    intro hlost
    cases hlost
  · rintro before sender signal _ hrun hkeeps ⟨⟩
    have hwired := run_wired name address port before sender hrun
    have hopen := hwired.keepsTrying_iff.mp hkeeps
    rw [(hwired.handle signal).keepsTrying_iff]
    cases signal with
    | binaryMessageReceived doc =>
        refine iff_of_true ?_ (by simp)
        cases doc <;> exact hopen
    | connected =>
        refine iff_of_true ?_ (by simp)
        intro hlost
        cases hlost
    | error | disconnected =>
        refine iff_of_false ?_ (by simp)
        intro hkept
        exact hkept rfl
    | timeout => exact iff_of_true hopen (by simp)

/-- The first attempt is refused: the timer runs, and nothing will open the
websocket again. -/
theorem refused_connection_final :
    ∃ sender, (videoSender "camera" "10.0.0.9" 9002).run [.error] = some sender ∧
      sender.videoSender = .unconnected ∧ sender.reconnectTimer = some 10000 ∧
      sender.handle .timeout = sender ∧
      ¬ (videoSender "camera" "10.0.0.9" 9002).Always KeepsTrying [.error] := by
  refine ⟨_, rfl, rfl, rfl, rfl, ?_⟩
  intro h
  rcases (h [.error] _ (List.prefix_refl _) rfl).reachable with hsocket | hsocket | hscheduled
  · cases hsocket
  · cases hsocket
  · have hopened := congrArg VideoSender.opened hscheduled.2
    exact absurd (congrArg List.length hopened) (by decide)

end NvmrDisplay.Discover
