import NvmrDisplay.Discover.Backend
import NvmrDisplay.Lib.Machine

/-!
What of a backend a name touches. Which answers for a name can arrive depends
on the resolvers of that name: over D-Bus on whether one was ever requested, in
the embedded backend on those that have not called back. The events about a
name act on this part alone and the other events leave it as it is.
-/

namespace NvmrDisplay.Discover

open Lib

/-- The part of a backend that decides which events about `name` can happen,
and how these events change it. -/
structure Footprint (backend : Backend) (name : String) where
  View : Type
  view : backend.State → View
  admits : View → backend.Event → Bool
  next : View → backend.Event → View
  enabled_iff : ∀ state event, backend.about event = some name →
    ((backend.step state event).isSome ↔ admits (view state) event)
  view_step : ∀ state event state' signals,
    backend.step state event = some (state', signals) →
      view state' = if backend.about event = some name then next (view state) event
        else view state

/-- The machine of one name. -/
def Footprint.machine {backend : Backend} {name : String} (footprint : Footprint backend name) :
    Machine footprint.View backend.Event where
  init := footprint.view backend.initial
  step view event :=
    if footprint.admits view event then some (footprint.next view event) else none

theorem Footprint.machine_step_isSome {backend : Backend} {name : String}
    (footprint : Footprint backend name) (view : footprint.View) (event : backend.Event) :
    (footprint.machine.step view event).isSome ↔ footprint.admits view event := by
  simp [machine]

namespace AvahiBrowse

/-- An answer needs a resolver. -/
def admits (hasResolver : Bool) : DBusEvent → Bool
  | .videoSenderFound _ _ _ _ => hasResolver
  | _ => true

theorem step_isSome [LocalCodec] (browse : AvahiBrowse) (event : DBusEvent) (name : String)
    (habout : about event = some name) :
    (browse.step event).isSome ↔ admits (browse.nameToResolver.contains name) event := by
  cases event with
  | videoSenderFound found address port txt =>
      obtain rfl : found = name := Option.some.inj habout
      simp only [step, admits]
      split <;> simp_all
  | videoSenderNew _ | videoSenderRemoved _ | httpNew _ | httpFound _ _ _ _
    | videoSenderError _ | httpRemoved _ | httpError _ | failure _ | allForNow
    | cacheExhausted => exact iff_of_true rfl rfl

theorem requests_eq_false {event : DBusEvent} {name : String}
    (h : about event ≠ some name) : requests name event = false := by
  cases event with
  | videoSenderNew item =>
      exact decide_eq_false fun hname => h (congrArg some hname.symm)
  | videoSenderRemoved _ | videoSenderFound _ _ _ _ | httpNew _ | httpFound _ _ _ _
    | videoSenderError _ | httpRemoved _ | httpError _ | failure _ | allForNow
    | cacheExhausted => rfl

/-- Over D-Bus: whether the name has a resolver. -/
def footprint [LocalCodec] (name : String) : Footprint avahiBrowse name where
  View := Bool
  view browse := QMap.contains (AvahiBrowse.nameToResolver browse) name
  admits := admits
  next hasResolver event := requests name event || hasResolver
  enabled_iff browse event habout := step_isSome browse event name habout
  view_step browse event browse' signals h := by
    rw [step_contains h]
    split
    · rfl
    · rename_i habout
      rw [requests_eq_false habout, Bool.false_or]

end AvahiBrowse

namespace EmbeddedAvahiBrowse

/-- An answer needs the resolver it comes from. -/
def admits (resolvers : List ServiceItem × List ServiceItem) : EmbeddedEvent → Bool
  | .videoSenderResolve item _ => item ∈ resolvers.1
  | .jmriResolve item _ => item ∈ resolvers.2
  | _ => true

theorem step_isSome [LocalCodec] (browse : EmbeddedAvahiBrowse) (event : EmbeddedEvent) :
    (browse.step event).isSome ↔
      admits (browse.videoSenderResolvers, browse.jmriResolvers) event := by
  cases event with
  | jmriBrowse _ _ | videoSenderBrowse _ _ => exact iff_of_true rfl rfl
  | jmriResolve _ _ | videoSenderResolve _ _ =>
      simp only [step, admits]
      split <;> simp_all

/-- The resolvers of one name. -/
def itemsNamed (name : String) (items : List ServiceItem) : List ServiceItem :=
  items.filter fun item => item.name = name

theorem itemsNamed_erase (name : String) (items : List ServiceItem) (item : ServiceItem) :
    itemsNamed name (items.erase item) =
      if item.name = name then (itemsNamed name items).erase item else itemsNamed name items := by
  unfold itemsNamed
  rw [← List.erase_filter]
  split
  · rfl
  · rename_i hname
    exact List.erase_of_not_mem fun hmem =>
      hname (of_decide_eq_true (List.mem_filter.mp hmem).2)

theorem itemsNamed_append (name : String) (items : List ServiceItem) (item : ServiceItem) :
    itemsNamed name (items ++ [item]) =
      if item.name = name then itemsNamed name items ++ [item] else itemsNamed name items := by
  unfold itemsNamed
  rw [List.filter_append]
  split <;> simp_all

theorem itemsNamed_videoSenderResolversAfter (name : String) (resolvers : List ServiceItem)
    (event : EmbeddedEvent) :
    itemsNamed name (videoSenderResolversAfter resolvers event) =
      if about event = some name then
        videoSenderResolversAfter (itemsNamed name resolvers) event
      else itemsNamed name resolvers := by
  cases event with
  | jmriBrowse _ _ | jmriResolve _ _ => simp [videoSenderResolversAfter]
  | videoSenderResolve item answer =>
      simp [videoSenderResolversAfter, about, itemsNamed_erase]
  | videoSenderBrowse event item =>
      cases event <;> simp [videoSenderResolversAfter, about, itemsNamed_append]

theorem itemsNamed_jmriResolversAfter (name : String) (resolvers : List ServiceItem)
    (event : EmbeddedEvent) :
    itemsNamed name (jmriResolversAfter resolvers event) =
      if about event = some name then jmriResolversAfter (itemsNamed name resolvers) event
      else itemsNamed name resolvers := by
  cases event with
  | videoSenderBrowse _ _ | videoSenderResolve _ _ => simp [jmriResolversAfter]
  | jmriResolve item answer => simp [jmriResolversAfter, about, itemsNamed_erase]
  | jmriBrowse event item =>
      cases event <;> simp [jmriResolversAfter, about, itemsNamed_append]

/-- The resolvers of a name that have not called back. -/
def resolversNamed (name : String) (browse : EmbeddedAvahiBrowse) :
    List ServiceItem × List ServiceItem :=
  (itemsNamed name browse.videoSenderResolvers, itemsNamed name browse.jmriResolvers)

def resolversAfter (resolvers : List ServiceItem × List ServiceItem) (event : EmbeddedEvent) :
    List ServiceItem × List ServiceItem :=
  (videoSenderResolversAfter resolvers.1 event, jmriResolversAfter resolvers.2 event)

theorem admits_resolversNamed (browse : EmbeddedAvahiBrowse) (event : EmbeddedEvent)
    (name : String) (habout : about event = some name) :
    admits (browse.videoSenderResolvers, browse.jmriResolvers) event =
      admits (resolversNamed name browse) event := by
  cases event with
  | jmriBrowse _ _ | videoSenderBrowse _ _ => rfl
  | jmriResolve item _ | videoSenderResolve item _ =>
      obtain rfl : item.name = name := Option.some.inj habout
      simp [admits, resolversNamed, itemsNamed]

variable [LocalCodec]

theorem resolversNamed_step {browse browse' : EmbeddedAvahiBrowse} {event : EmbeddedEvent}
    {signals : List Signal} (h : browse.step event = some (browse', signals)) (name : String) :
    resolversNamed name browse' =
      if about event = some name then resolversAfter (resolversNamed name browse) event
      else resolversNamed name browse := by
  obtain ⟨hvideo, hjmri⟩ := step_resolvers h
  rw [resolversNamed, hvideo, hjmri, itemsNamed_videoSenderResolversAfter,
    itemsNamed_jmriResolversAfter]
  split <;> rfl

def footprint (name : String) : Footprint embeddedAvahiBrowse name where
  View := List ServiceItem × List ServiceItem
  view := resolversNamed name
  admits := admits
  next := resolversAfter
  enabled_iff browse event habout :=
    (step_isSome browse event).trans (by rw [admits_resolversNamed browse event name habout])
  view_step _ _ _ _ h := resolversNamed_step h name

end EmbeddedAvahiBrowse

def footprint [LocalCodec] : (platform : Platform) → (name : String) →
    Footprint (createServiceDiscover platform) name
  | .desktop => AvahiBrowse.footprint
  | .android => EmbeddedAvahiBrowse.footprint

end NvmrDisplay.Discover
