import NvmrDisplay.Discover.AvahiBrowse

/-!
`EmbeddedAvahiBrowse`, the backend that runs avahi-core in the process. The
resolvers that were created and have not called back yet are part of the state,
since every resolve callback frees the resolver that called it.
-/

namespace NvmrDisplay.Discover

/-- An IPv4 address, its four bytes in network order. -/
structure AvahiIPv4Address where
  byte0 : UInt8
  byte1 : UInt8
  byte2 : UInt8
  byte3 : UInt8
  deriving DecidableEq, Repr

/-- `QHostAddress(qFromBigEndian(address)).toString()`. -/
def AvahiIPv4Address.toString (address : AvahiIPv4Address) : String :=
  QString.number address.byte0.toNat ++ "." ++ QString.number address.byte1.toNat ++ "." ++
    QString.number address.byte2.toNat ++ "." ++ QString.number address.byte3.toNat

inductive AvahiAddress where
  | inet (address : AvahiIPv4Address)
  | inet6 (bytes : List UInt8)
  deriving DecidableEq, Repr

inductive AvahiBrowserEvent where
  | new
  | remove
  | cacheExhausted
  | allForNow
  | failure
  deriving DecidableEq, Repr

/-- The arguments of a resolve callback that depend on its event. A
`AvahiStringList` is the list of its strings. -/
inductive ResolverAnswer where
  | failure
  | found (hostName : String) (address : AvahiAddress) (port : Nat) (txt : List (List UInt8))
  deriving DecidableEq, Repr

/-- The arguments of `foundRPIVideoSender` and of `foundHTTPServer`. -/
structure FoundCall where
  name : String
  address : String
  port : Nat
  txtData : List (List UInt8)
  deriving DecidableEq, Repr

/-- What both resolve callbacks make of an answer: a failure and an IPv6
address lead to no call. -/
def foundCall (name : String) : ResolverAnswer → Option FoundCall
  | .failure => none
  | .found _ (.inet6 _) _ _ => none
  | .found _ (.inet address) port txt => some ⟨name, address.toString, port, txt⟩

structure EmbeddedAvahiBrowse extends ServiceDiscover where
  videoSenderResolvers : List ServiceItem
  jmriResolvers : List ServiceItem

inductive EmbeddedEvent where
  | jmriBrowse (event : AvahiBrowserEvent) (item : ServiceItem)
  | jmriResolve (item : ServiceItem) (answer : ResolverAnswer)
  | videoSenderBrowse (event : AvahiBrowserEvent) (item : ServiceItem)
  | videoSenderResolve (item : ServiceItem) (answer : ResolverAnswer)

namespace EmbeddedAvahiBrowse

variable [LocalCodec]

def initial : EmbeddedAvahiBrowse where
  resolvedVideoSenders := []
  videoSenderResolvers := []
  jmriResolvers := []

def jmriBrowseCb (browse : EmbeddedAvahiBrowse) (event : AvahiBrowserEvent)
    (item : ServiceItem) : EmbeddedAvahiBrowse × List Signal :=
  match event with
  | .new => ({ browse with jmriResolvers := browse.jmriResolvers ++ [item] }, [])
  | .remove | .allForNow | .cacheExhausted | .failure => (browse, [])

def jmriResolveCb (browse : EmbeddedAvahiBrowse) (item : ServiceItem)
    (answer : ResolverAnswer) : EmbeddedAvahiBrowse × List Signal :=
  let freed := { browse with jmriResolvers := browse.jmriResolvers.erase item }
  match foundCall item.name answer with
  | some call =>
      let (discover, signals) :=
        browse.foundHTTPServer call.name call.address call.port call.txtData
      ({ freed with toServiceDiscover := discover }, signals)
  | none => (freed, [])

def videosenderBrowseCb (browse : EmbeddedAvahiBrowse) (event : AvahiBrowserEvent)
    (item : ServiceItem) : EmbeddedAvahiBrowse × List Signal :=
  match event with
  | .new =>
      ({ browse with videoSenderResolvers := browse.videoSenderResolvers ++ [item] }, [])
  | .remove => (browse, [.rpiVideoSenderRtspWentAway item.name])
  | .allForNow | .cacheExhausted | .failure => (browse, [])

def videosenderResolveCb (browse : EmbeddedAvahiBrowse) (item : ServiceItem)
    (answer : ResolverAnswer) : EmbeddedAvahiBrowse × List Signal :=
  let freed := { browse with videoSenderResolvers := browse.videoSenderResolvers.erase item }
  match foundCall item.name answer with
  | some call =>
      let (discover, signals) :=
        browse.foundRPIVideoSender call.name call.address call.port call.txtData
      ({ freed with toServiceDiscover := discover }, signals)
  | none => (freed, [])

/-- A resolver calls back at any time after its creation, but only once. -/
def step (browse : EmbeddedAvahiBrowse) :
    EmbeddedEvent → Option (EmbeddedAvahiBrowse × List Signal)
  | .jmriBrowse event item => some (browse.jmriBrowseCb event item)
  | .jmriResolve item answer =>
      if item ∈ browse.jmriResolvers then some (browse.jmriResolveCb item answer) else none
  | .videoSenderBrowse event item => some (browse.videosenderBrowseCb event item)
  | .videoSenderResolve item answer =>
      if item ∈ browse.videoSenderResolvers then
        some (browse.videosenderResolveCb item answer)
      else none

/-- The camera resolvers that exist after an event. -/
def videoSenderResolversAfter (resolvers : List ServiceItem) :
    EmbeddedEvent → List ServiceItem
  | .videoSenderBrowse .new item => resolvers ++ [item]
  | .videoSenderResolve item _ => resolvers.erase item
  | _ => resolvers

def jmriResolversAfter (resolvers : List ServiceItem) : EmbeddedEvent → List ServiceItem
  | .jmriBrowse .new item => resolvers ++ [item]
  | .jmriResolve item _ => resolvers.erase item
  | _ => resolvers

/-- The callbacks create and free resolvers whatever the answers say. -/
theorem step_resolvers {browse browse' : EmbeddedAvahiBrowse} {event : EmbeddedEvent}
    {signals : List Signal} (h : browse.step event = some (browse', signals)) :
    browse'.videoSenderResolvers =
        videoSenderResolversAfter browse.videoSenderResolvers event ∧
      browse'.jmriResolvers = jmriResolversAfter browse.jmriResolvers event := by
  cases event with
  | jmriBrowse event item | videoSenderBrowse event item =>
      cases event <;>
        obtain ⟨rfl, rfl⟩ := Prod.mk.inj (Option.some.inj h) <;>
        exact ⟨rfl, rfl⟩
  | jmriResolve item answer =>
      obtain ⟨_, h⟩ := Option.ite_none_right_eq_some.mp h
      have h := Option.some.inj h
      unfold jmriResolveCb at h
      split at h <;>
        obtain ⟨rfl, rfl⟩ := Prod.mk.inj h <;>
        exact ⟨rfl, rfl⟩
  | videoSenderResolve item answer =>
      obtain ⟨_, h⟩ := Option.ite_none_right_eq_some.mp h
      have h := Option.some.inj h
      unfold videosenderResolveCb at h
      split at h <;>
        obtain ⟨rfl, rfl⟩ := Prod.mk.inj h <;>
        exact ⟨rfl, rfl⟩

end EmbeddedAvahiBrowse

end NvmrDisplay.Discover
