import NvmrDisplay.Discover.ServiceDiscover

/-!
`AvahiBrowse`, the backend that asks the Avahi daemon over D-Bus. Type and
domain of an item are those of the browser that reports it, the same for every
item, and are left out. Handlers that only write to the log change nothing.
-/

namespace NvmrDisplay.Discover

/-- What a browser reports a service on. -/
structure ServiceItem where
  interface : Int
  protocol : Int
  name : String
  deriving DecidableEq, Repr

/-- The daemon numbers the objects it creates. -/
abbrev ObjectPath := Nat

structure AvahiBrowse extends ServiceDiscover where
  nameToResolver : QMap String ObjectPath
  /-- How many resolvers the daemon has been asked for. -/
  resolversRequested : Nat

/-- The signals of the daemon's browser and resolver objects. -/
inductive DBusEvent where
  | videoSenderNew (item : ServiceItem)
  | videoSenderRemoved (item : ServiceItem)
  | videoSenderFound (name address : String) (port : Nat) (txt : List (List UInt8))
  | videoSenderError (err : String)
  | httpNew (item : ServiceItem)
  | httpRemoved (item : ServiceItem)
  | httpFound (name address : String) (port : Nat) (txt : List (List UInt8))
  | httpError (err : String)
  | failure (str : String)
  | allForNow
  | cacheExhausted

namespace AvahiBrowse

variable [LocalCodec]

def initial : AvahiBrowse where
  resolvedVideoSenders := []
  nameToResolver := .empty
  resolversRequested := 0

/-- A name that has a resolver is not resolved again. -/
def signalVideoSenderNew (browse : AvahiBrowse) (item : ServiceItem) : AvahiBrowse :=
  if browse.nameToResolver.contains item.name then browse
  else
    { browse with
      nameToResolver := browse.nameToResolver.insert item.name browse.resolversRequested
      resolversRequested := browse.resolversRequested + 1 }

def signalVideoSenderRemoved (browse : AvahiBrowse) (item : ServiceItem) :
    AvahiBrowse × List Signal :=
  let (discover, signals) := browse.lostRPIVideoSender item.name
  ({ browse with toServiceDiscover := discover }, signals)

def resolvedVideoSenderFound (browse : AvahiBrowse) (name address : String) (port : Nat)
    (txt : List (List UInt8)) : AvahiBrowse × List Signal :=
  let (discover, signals) := browse.foundRPIVideoSender name address port txt
  ({ browse with toServiceDiscover := discover }, signals)

/-- The resolver of an HTTP service is requested for every report; no map
remembers it. -/
def signalHTTPNew (browse : AvahiBrowse) (_item : ServiceItem) : AvahiBrowse :=
  { browse with resolversRequested := browse.resolversRequested + 1 }

def resolvedHTTPFound (browse : AvahiBrowse) (name address : String) (port : Nat)
    (txt : List (List UInt8)) : AvahiBrowse × List Signal :=
  let (discover, signals) := browse.foundHTTPServer name address port txt
  ({ browse with toServiceDiscover := discover }, signals)

/-- An answer for a camera comes from a resolver that was requested for its
name. Resolvers are never freed, so it may come again and at any later time. -/
def step (browse : AvahiBrowse) : DBusEvent → Option (AvahiBrowse × List Signal)
  | .videoSenderNew item => some (browse.signalVideoSenderNew item, [])
  | .videoSenderRemoved item => some (browse.signalVideoSenderRemoved item)
  | .videoSenderFound name address port txt =>
      if browse.nameToResolver.contains name then
        some (browse.resolvedVideoSenderFound name address port txt)
      else none
  | .videoSenderError _ => some (browse, [])
  | .httpNew item => some (browse.signalHTTPNew item, [])
  | .httpRemoved _ => some (browse, [])
  | .httpFound name address port txt => some (browse.resolvedHTTPFound name address port txt)
  | .httpError _ | .failure _ | .allForNow | .cacheExhausted => some (browse, [])

omit [LocalCodec] in
theorem signalVideoSenderNew_contains (browse : AvahiBrowse) (item : ServiceItem)
    (name : String) :
    (browse.signalVideoSenderNew item).nameToResolver.contains name =
      (decide (name = item.name) || browse.nameToResolver.contains name) := by
  unfold signalVideoSenderNew
  by_cases hname : name = item.name
  · subst hname
    split
    · simp_all
    · simp [QMap.contains]
  · split
    · simp [hname]
    · simp [QMap.contains, hname]

/-- Whether the event is the first report of a camera by this name. -/
def requests (name : String) : DBusEvent → Bool
  | .videoSenderNew item => name = item.name
  | _ => false

/-- A name has a resolver from its first report on. -/
theorem step_contains {browse browse' : AvahiBrowse} {event : DBusEvent}
    {signals : List Signal} (h : browse.step event = some (browse', signals)) (name : String) :
    browse'.nameToResolver.contains name =
      (requests name event || browse.nameToResolver.contains name) := by
  cases event with
  | videoSenderNew item =>
      obtain ⟨rfl, rfl⟩ := Prod.mk.inj (Option.some.inj h)
      exact signalVideoSenderNew_contains browse item name
  | videoSenderFound _ _ _ _ =>
      obtain ⟨_, h⟩ := Option.ite_none_right_eq_some.mp h
      obtain ⟨rfl, rfl⟩ := Prod.mk.inj (Option.some.inj h)
      rfl
  | videoSenderRemoved _ | httpNew _ | httpFound _ _ _ _ | videoSenderError _ | httpRemoved _
    | httpError _ | failure _ | allForNow | cacheExhausted =>
      obtain ⟨rfl, rfl⟩ := Prod.mk.inj (Option.some.inj h)
      rfl

end AvahiBrowse

end NvmrDisplay.Discover
