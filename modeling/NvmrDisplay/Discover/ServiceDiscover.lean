import NvmrDisplay.Qt
import Mathlib.Data.List.Basic

/-!
`ServiceDiscover`, the base of both discovery backends: it turns an answered
resolver into an `RPIVideoSender` and a signal, and a lost name back into the
opposite signal. A `QUrl` is kept as the string it is made from.
-/

namespace NvmrDisplay.Discover

/-- What identifies an `RPIVideoSender`: the members its constructor sets. -/
structure RPIVideoSender where
  name : String
  ipAddr : String
  websocketAddr : String
  deriving DecidableEq, Repr

def RPIVideoSender.new (name address : String) (port : Nat) : RPIVideoSender where
  name
  ipAddr := address
  websocketAddr := "ws://" ++ address ++ ":" ++ QString.number port

/-- The signals of `ServiceDiscover`. -/
inductive Signal where
  | jmriWebserverFound (url : String)
  | rpiVideoSenderRtspFound (url uniqueName videoName : String)
  | rpiVideoSenderRtspWentAway (uniqueName : String)
  deriving DecidableEq, Repr

/-- The camera a signal carries. -/
def Signal.camera? : Signal → Option String
  | .jmriWebserverFound _ => none
  | .rpiVideoSenderRtspFound _ uniqueName _ => some uniqueName
  | .rpiVideoSenderRtspWentAway uniqueName => some uniqueName

structure ServiceDiscover where
  resolvedVideoSenders : List RPIVideoSender

namespace ServiceDiscover

variable [LocalCodec]

/-- One string of a TXT record: kept only when it splits into exactly two. -/
def insertTxt (txtMap : QMap String String) (vec : List UInt8) : QMap String String :=
  match QString.split (LocalCodec.fromLocal8Bit vec) '=' with
  | [key, value] => txtMap.insert key value
  | _ => txtMap

def txtMap (txtData : List (List UInt8)) : QMap String String :=
  txtData.foldl insertTxt .empty

/-- The signal for a resolved camera, if its TXT record names a stream. -/
def rtspSignal (name : String) (txtData : List (List UInt8)) : List Signal :=
  if (txtMap txtData).contains "rtsp" then
    [.rpiVideoSenderRtspFound ((txtMap txtData).value "rtsp" "") name
      ((txtMap txtData).value "videoname" "")]
  else []

def foundRPIVideoSender (discover : ServiceDiscover) (name address : String) (port : Nat)
    (txtData : List (List UInt8)) : ServiceDiscover × List Signal :=
  ({ discover with
      resolvedVideoSenders :=
        discover.resolvedVideoSenders ++ [RPIVideoSender.new name address port] },
    rtspSignal name txtData)

def foundHTTPServer (discover : ServiceDiscover) (_name address : String) (port : Nat)
    (txtData : List (List UInt8)) : ServiceDiscover × List Signal :=
  if (txtMap txtData).contains "jmri" then
    (discover, [.jmriWebserverFound ("http://" ++ address ++ ":" ++ QString.number port)])
  else (discover, [])

omit [LocalCodec]

/-- The `QMutableVectorIterator` loop of `lostRPIVideoSender`: `passed` is what
the iterator has stepped over and kept. -/
def lostLoop (name : String) :
    List RPIVideoSender → List RPIVideoSender → List RPIVideoSender × List Signal
  | passed, [] => (passed, [])
  | passed, vid :: rest =>
      if vid.name = name then
        let (kept, signals) := lostLoop name passed rest
        (kept, .rpiVideoSenderRtspWentAway vid.name :: signals)
      else lostLoop name (passed ++ [vid]) rest

def lostRPIVideoSender (discover : ServiceDiscover) (name : String) :
    ServiceDiscover × List Signal :=
  let (kept, signals) := lostLoop name [] discover.resolvedVideoSenders
  ({ discover with resolvedVideoSenders := kept }, signals)

/-- The senders of one camera. -/
def sendersNamed (name : String) (senders : List RPIVideoSender) : List RPIVideoSender :=
  senders.filter fun sender => sender.name = name

theorem lostLoop_eq (name : String) (passed rest : List RPIVideoSender) :
    lostLoop name passed rest =
      (passed ++ rest.filter (fun sender => sender.name ≠ name),
        (sendersNamed name rest).map fun _ => .rpiVideoSenderRtspWentAway name) := by
  induction rest generalizing passed with
  | nil => simp [lostLoop, sendersNamed]
  | cons vid rest ih =>
      by_cases hname : vid.name = name
      · simp [lostLoop, hname, ih, sendersNamed]
      · simp [lostLoop, hname, ih, sendersNamed]

/-- Losing a name removes its senders, keeps the others in order and emits one
signal for each sender removed. -/
theorem lostRPIVideoSender_eq (discover : ServiceDiscover) (name : String) :
    discover.lostRPIVideoSender name =
      (⟨discover.resolvedVideoSenders.filter fun sender => sender.name ≠ name⟩,
        (sendersNamed name discover.resolvedVideoSenders).map fun _ =>
          .rpiVideoSenderRtspWentAway name) := by
  simp [lostRPIVideoSender, lostLoop_eq]

end ServiceDiscover

end NvmrDisplay.Discover
