import NvmrDisplay.Discover.EmbeddedAvahiBrowse

/-!
The two backends behind `createServiceDiscover`, and what they have in common.
An event of either backend is observed as an announcement, a withdrawal, an
answer that reaches `foundRPIVideoSender`, or something else. The senders and
the camera signals of a backend depend on these observations alone, and the
backends differ only in what a withdrawal does.
-/

namespace NvmrDisplay.Discover

open ServiceDiscover

inductive Observation where
  | announced (item : ServiceItem)
  | withdrawn (item : ServiceItem)
  | answered (name address : String) (port : Nat) (txtData : List (List UInt8))
  | other
  deriving DecidableEq, Repr

namespace Observation

/-- The camera an observation is about. -/
def camera? : Observation → Option String
  | .announced item => some item.name
  | .withdrawn item => some item.name
  | .answered name _ _ _ => some name
  | .other => none

/-- The answers for one camera. -/
def isAnswer (name : String) : Observation → Bool
  | .answered camera _ _ _ => camera = name
  | _ => false

/-- The withdrawals of one camera, on whatever interface and protocol. -/
def isWithdrawal (name : String) : Observation → Bool
  | .withdrawn item => item.name = name
  | _ => false

end Observation

/-- A discovery backend: its state, its events, the senders it owns and the
service name an event carries. -/
structure Backend where
  State : Type
  Event : Type
  initial : State
  step : State → Event → Option (State × List Signal)
  senders : State → List RPIVideoSender
  observe : Event → Observation
  about : Event → Option String

namespace AvahiBrowse

def observe : DBusEvent → Observation
  | .videoSenderNew item => .announced item
  | .videoSenderRemoved item => .withdrawn item
  | .videoSenderFound name address port txt => .answered name address port txt
  | _ => .other

def about : DBusEvent → Option String
  | .videoSenderNew item | .videoSenderRemoved item | .httpNew item | .httpRemoved item =>
      some item.name
  | .videoSenderFound name _ _ _ | .httpFound name _ _ _ => some name
  | _ => none

end AvahiBrowse

namespace EmbeddedAvahiBrowse

def observe : EmbeddedEvent → Observation
  | .videoSenderBrowse .new item => .announced item
  | .videoSenderBrowse .remove item => .withdrawn item
  | .videoSenderResolve item answer =>
      match foundCall item.name answer with
      | some call => .answered call.name call.address call.port call.txtData
      | none => .other
  | _ => .other

def about : EmbeddedEvent → Option String
  | .jmriBrowse _ item | .jmriResolve item _ | .videoSenderBrowse _ item
    | .videoSenderResolve item _ => some item.name

end EmbeddedAvahiBrowse

/-- Android builds embed avahi-core, all others talk to the daemon. -/
inductive Platform where
  | desktop
  | android
  deriving DecidableEq, Repr

section

variable [LocalCodec]

def avahiBrowse : Backend where
  State := AvahiBrowse
  Event := DBusEvent
  initial := AvahiBrowse.initial
  step := AvahiBrowse.step
  senders browse := browse.resolvedVideoSenders
  observe := AvahiBrowse.observe
  about := AvahiBrowse.about

def embeddedAvahiBrowse : Backend where
  State := EmbeddedAvahiBrowse
  Event := EmbeddedEvent
  initial := EmbeddedAvahiBrowse.initial
  step := EmbeddedAvahiBrowse.step
  senders browse := browse.resolvedVideoSenders
  observe := EmbeddedAvahiBrowse.observe
  about := EmbeddedAvahiBrowse.about

def createServiceDiscover : Platform → Backend
  | .desktop => avahiBrowse
  | .android => embeddedAvahiBrowse

end

/-- The senders a backend owns and the camera signals it has emitted. -/
structure Discovered where
  senders : List RPIVideoSender
  signals : List Signal
  deriving DecidableEq, Repr

namespace Discovered

def initial : Discovered := ⟨[], []⟩

/-- What a withdrawal does: over D-Bus it loses the senders of the name, with
one signal for each; the embedded backend emits one signal and keeps them. -/
def withdraw (platform : Platform) (found : Discovered) (name : String) : Discovered :=
  match platform with
  | .desktop =>
      { senders := found.senders.filter fun sender => sender.name ≠ name
        signals := found.signals ++ (sendersNamed name found.senders).map fun _ =>
          .rpiVideoSenderRtspWentAway name }
  | .android =>
      { found with signals := found.signals ++ [.rpiVideoSenderRtspWentAway name] }

variable [LocalCodec]

def record (platform : Platform) (found : Discovered) : Observation → Discovered
  | .answered name address port txtData =>
      { senders := found.senders ++ [RPIVideoSender.new name address port]
        signals := found.signals ++ rtspSignal name txtData }
  | .withdrawn item => found.withdraw platform item.name
  | .announced _ | .other => found

def ofObservations (platform : Platform) (observations : List Observation) : Discovered :=
  observations.foldl (record platform) initial

theorem ofObservations_snoc (platform : Platform) (observations : List Observation)
    (observation : Observation) :
    ofObservations platform (observations ++ [observation]) =
      record platform (ofObservations platform observations) observation := by
  simp [ofObservations]

end Discovered

/-- The camera signals among all signals. -/
def cameraSignals (signals : List Signal) : List Signal :=
  signals.filter fun signal => signal.camera?.isSome

section

variable [LocalCodec]

theorem rtspSignal_camera (name : String) (txtData : List (List UInt8)) (signal : Signal)
    (h : signal ∈ rtspSignal name txtData) : signal.camera? = some name := by
  unfold rtspSignal at h
  split at h
  · rw [List.mem_singleton] at h
    subst h
    rfl
  · simp at h

theorem cameraSignals_rtspSignal (name : String) (txtData : List (List UInt8)) :
    cameraSignals (rtspSignal name txtData) = rtspSignal name txtData := by
  apply List.filter_eq_self.mpr
  intro signal h
  simp [rtspSignal_camera name txtData signal h]

omit [LocalCodec] in
theorem foundCall_name {name : String} {answer : ResolverAnswer} {call : FoundCall}
    (h : foundCall name answer = some call) : call.name = name := by
  unfold foundCall at h
  split at h
  · cases h
  · cases h
  · obtain rfl := Option.some.inj h
    rfl

/-- What is observed of an event is about the name the event carries. -/
theorem observe_about (platform : Platform) (event : (createServiceDiscover platform).Event)
    (name : String)
    (h : ((createServiceDiscover platform).observe event).camera? = some name) :
    (createServiceDiscover platform).about event = some name := by
  cases platform with
  | desktop =>
      change (AvahiBrowse.observe event).camera? = some name at h
      change AvahiBrowse.about event = some name
      cases event <;> first | exact h | cases h
  | android =>
      change (EmbeddedAvahiBrowse.observe event).camera? = some name at h
      change EmbeddedAvahiBrowse.about event = some name
      cases event with
      | jmriBrowse _ _ | jmriResolve _ _ => cases h
      | videoSenderBrowse event item => cases event <;> first | exact h | cases h
      | videoSenderResolve item answer =>
          simp only [EmbeddedAvahiBrowse.observe] at h
          split at h
          · rename_i call hcall
            exact (congrArg some (foundCall_name hcall)).symm.trans h
          · cases h

theorem foundHTTPServer_frame (discover : ServiceDiscover) (name address : String)
    (port : Nat) (txtData : List (List UInt8)) :
    (discover.foundHTTPServer name address port txtData).1 = discover ∧
      cameraSignals (discover.foundHTTPServer name address port txtData).2 = [] := by
  unfold foundHTTPServer
  split
  · exact ⟨rfl, rfl⟩
  · exact ⟨rfl, rfl⟩

theorem avahiBrowse_step (browse browse' : AvahiBrowse) (event : DBusEvent)
    (signals log : List Signal) (h : browse.step event = some (browse', signals)) :
    Discovered.record .desktop ⟨browse.resolvedVideoSenders, log⟩
        (AvahiBrowse.observe event) =
      ⟨browse'.resolvedVideoSenders, log ++ cameraSignals signals⟩ := by
  cases event with
  | videoSenderNew item =>
      simp only [AvahiBrowse.step, Option.some.injEq, Prod.mk.injEq] at h
      obtain ⟨rfl, rfl⟩ := h
      simp only [AvahiBrowse.signalVideoSenderNew]
      split <;> simp [AvahiBrowse.observe, Discovered.record, cameraSignals]
  | videoSenderRemoved item =>
      simp only [AvahiBrowse.step, AvahiBrowse.signalVideoSenderRemoved,
        lostRPIVideoSender_eq, Option.some.injEq, Prod.mk.injEq] at h
      obtain ⟨rfl, rfl⟩ := h
      simp [AvahiBrowse.observe, Discovered.record, Discovered.withdraw, cameraSignals,
        Signal.camera?]
  | videoSenderFound name address port txt =>
      simp only [AvahiBrowse.step] at h
      split at h
      · simp only [AvahiBrowse.resolvedVideoSenderFound, foundRPIVideoSender,
          Option.some.injEq, Prod.mk.injEq] at h
        obtain ⟨rfl, rfl⟩ := h
        simp [AvahiBrowse.observe, Discovered.record, cameraSignals_rtspSignal]
      · simp at h
  | httpNew item =>
      simp only [AvahiBrowse.step, Option.some.injEq, Prod.mk.injEq] at h
      obtain ⟨rfl, rfl⟩ := h
      simp [AvahiBrowse.observe, Discovered.record, AvahiBrowse.signalHTTPNew, cameraSignals]
  | httpFound name address port txt =>
      simp only [AvahiBrowse.step, AvahiBrowse.resolvedHTTPFound, Option.some.injEq,
        Prod.mk.injEq] at h
      obtain ⟨rfl, rfl⟩ := h
      have hframe := foundHTTPServer_frame browse.toServiceDiscover name address port txt
      simp [AvahiBrowse.observe, Discovered.record, hframe]
  | videoSenderError _ | httpRemoved _ | httpError _ | failure _ | allForNow
    | cacheExhausted =>
      simp only [AvahiBrowse.step, Option.some.injEq, Prod.mk.injEq] at h
      obtain ⟨rfl, rfl⟩ := h
      simp [AvahiBrowse.observe, Discovered.record, cameraSignals]

theorem embeddedAvahiBrowse_step (browse browse' : EmbeddedAvahiBrowse)
    (event : EmbeddedEvent) (signals log : List Signal)
    (h : browse.step event = some (browse', signals)) :
    Discovered.record .android ⟨browse.resolvedVideoSenders, log⟩
        (EmbeddedAvahiBrowse.observe event) =
      ⟨browse'.resolvedVideoSenders, log ++ cameraSignals signals⟩ := by
  cases event with
  | jmriBrowse event item =>
      cases event <;>
        simp only [EmbeddedAvahiBrowse.step, EmbeddedAvahiBrowse.jmriBrowseCb,
          Option.some.injEq, Prod.mk.injEq] at h <;>
        obtain ⟨rfl, rfl⟩ := h <;>
        simp [EmbeddedAvahiBrowse.observe, Discovered.record, cameraSignals]
  | jmriResolve item answer =>
      simp only [EmbeddedAvahiBrowse.step] at h
      split at h
      · simp only [EmbeddedAvahiBrowse.jmriResolveCb] at h
        cases hcall : foundCall item.name answer with
        | none =>
            simp only [hcall, Option.some.injEq, Prod.mk.injEq] at h
            obtain ⟨rfl, rfl⟩ := h
            simp [EmbeddedAvahiBrowse.observe, Discovered.record, cameraSignals]
        | some call =>
            simp only [hcall, Option.some.injEq, Prod.mk.injEq] at h
            obtain ⟨rfl, rfl⟩ := h
            have hframe := foundHTTPServer_frame browse.toServiceDiscover call.name
              call.address call.port call.txtData
            simp [EmbeddedAvahiBrowse.observe, Discovered.record, hframe]
      · simp at h
  | videoSenderBrowse event item =>
      cases event <;>
        simp only [EmbeddedAvahiBrowse.step, EmbeddedAvahiBrowse.videosenderBrowseCb,
          Option.some.injEq, Prod.mk.injEq] at h <;>
        obtain ⟨rfl, rfl⟩ := h <;>
        simp [EmbeddedAvahiBrowse.observe, Discovered.record, Discovered.withdraw,
          cameraSignals, Signal.camera?]
  | videoSenderResolve item answer =>
      simp only [EmbeddedAvahiBrowse.step] at h
      split at h
      · simp only [EmbeddedAvahiBrowse.videosenderResolveCb] at h
        cases hcall : foundCall item.name answer with
        | none =>
            simp only [hcall, Option.some.injEq, Prod.mk.injEq] at h
            obtain ⟨rfl, rfl⟩ := h
            simp [EmbeddedAvahiBrowse.observe, hcall, Discovered.record, cameraSignals]
        | some call =>
            simp only [hcall, foundRPIVideoSender, Option.some.injEq, Prod.mk.injEq] at h
            obtain ⟨rfl, rfl⟩ := h
            simp [EmbeddedAvahiBrowse.observe, hcall, Discovered.record,
              cameraSignals_rtspSignal]
      · simp at h

/-- One step of either backend acts on the senders and the camera signals as
the observation of its event does. -/
theorem step_refines (platform : Platform) (state state' : (createServiceDiscover platform).State)
    (event : (createServiceDiscover platform).Event) (signals log : List Signal)
    (h : (createServiceDiscover platform).step state event = some (state', signals)) :
    Discovered.record platform ⟨(createServiceDiscover platform).senders state, log⟩
        ((createServiceDiscover platform).observe event) =
      ⟨(createServiceDiscover platform).senders state', log ++ cameraSignals signals⟩ := by
  cases platform with
  | desktop => exact avahiBrowse_step state state' event signals log h
  | android => exact embeddedAvahiBrowse_step state state' event signals log h

end

end NvmrDisplay.Discover
