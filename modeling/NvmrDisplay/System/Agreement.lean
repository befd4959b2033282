import NvmrDisplay.System.Display

/-!
The two backends side by side. Both are fed the same announcements, answers and
removals, each camera on one interface and protocol, and the same page watches
either. What is on the page is the same after every event. The senders are the
same until the first removal: `AvahiBrowse` drops the senders of a removed
camera, `EmbeddedAvahiBrowse` only tells the page.
-/

namespace NvmrDisplay.System

open Discover Discover.ServiceDiscover Qml Lib

/-- What happens to cameras on the network, whoever watches. -/
inductive CameraEvent where
  | new (name : String)
  | resolved (name hostName : String) (address : AvahiIPv4Address) (port : Nat)
      (txtData : List (List UInt8))
  | removed (name : String)
  deriving DecidableEq, Repr

inductive Phase where
  | absent
  | announced
  | resolved
  deriving DecidableEq, Repr

/-- Every camera is announced, resolved once and removed, in this order and any
number of times. -/
def announcements : Machine (String → Phase) CameraEvent where
  init _ := .absent
  step phases event :=
    match event with
    | .new name =>
        if phases name = .absent then some (Function.update phases name .announced) else none
    | .resolved name _ _ _ _ =>
        if phases name = .announced then some (Function.update phases name .resolved) else none
    | .removed name =>
        if phases name = .resolved then some (Function.update phases name .absent) else none

/-- A camera waits for its answer because it was just announced, or because it
was waiting and this was not the answer. -/
theorem announced_of_step {phases phases' : String → Phase} {event : CameraEvent}
    (h : announcements.step phases event = some phases') {name : String}
    (hname : phases' name = .announced) :
    event = .new name ∨
      phases name = .announced ∧
        ∀ hostName address port txtData,
          event ≠ .resolved name hostName address port txtData := by
  cases event with
  | new other =>
      obtain ⟨_, h⟩ := Option.ite_none_right_eq_some.mp h
      obtain rfl := Option.some.inj h
      by_cases hother : name = other
      · exact Or.inl (congrArg CameraEvent.new hother.symm)
      · exact Or.inr ⟨by simpa [hother] using hname, by simp⟩
  | resolved other _ _ _ _ =>
      obtain ⟨_, h⟩ := Option.ite_none_right_eq_some.mp h
      obtain rfl := Option.some.inj h
      by_cases hother : name = other
      · simp [hother] at hname
      · exact Or.inr ⟨by simpa [hother] using hname, by simp [Ne.symm hother]⟩
  | removed other =>
      obtain ⟨_, h⟩ := Option.ite_none_right_eq_some.mp h
      obtain rfl := Option.some.inj h
      by_cases hother : name = other
      · simp [hother] at hname
      · exact Or.inr ⟨by simpa [hother] using hname, by simp⟩

/-- A camera that is resolved has been answered. -/
theorem answered_of_resolved (events : List CameraEvent) (phases : String → Phase)
    (h : announcements.run events = some phases) (name : String)
    (hname : phases name = .resolved) :
    ∃ hostName address port txtData,
      .resolved name hostName address port txtData ∈ events := by
  refine Machine.run_induction announcements (P := fun events phases => ∀ name,
    phases name = .resolved → ∃ hostName address port txtData,
      .resolved name hostName address port txtData ∈ events) ?_ ?_ events phases h name hname
  · intro name hname
    cases hname
  · intro events phases event phases' _ ih hstep name hname
    have hold (hphase : phases name = .resolved) :
        ∃ hostName address port txtData,
          .resolved name hostName address port txtData ∈ events ++ [event] := by
      obtain ⟨hostName, address, port, txtData, hmem⟩ := ih name hphase
      exact ⟨hostName, address, port, txtData, List.mem_append_left _ hmem⟩
    cases event with
    | resolved other hostName address port txtData =>
        obtain ⟨_, hstep⟩ := Option.ite_none_right_eq_some.mp hstep
        obtain rfl := Option.some.inj hstep
        by_cases hother : name = other
        · subst hother
          exact ⟨hostName, address, port, txtData, by simp⟩
        · exact hold (by simpa [hother] using hname)
    | new other | removed other =>
        obtain ⟨_, hstep⟩ := Option.ite_none_right_eq_some.mp hstep
        obtain rfl := Option.some.inj hstep
        by_cases hother : name = other
        · simp [hother] at hname
        · exact hold (by simpa [hother] using hname)

/-- The interface and protocol each camera is announced on. -/
abbrev Pairs := String → Int × Int

namespace CameraEvent

variable (pairs : Pairs)

def item (name : String) : ServiceItem :=
  ⟨(pairs name).1, (pairs name).2, name⟩

/-- The daemon prints the address, the resolver of the library hands it over. -/
def toDBus : CameraEvent → DBusEvent
  | .new name => .videoSenderNew (item pairs name)
  | .resolved name _ address port txtData =>
      .videoSenderFound name address.toString port txtData
  | .removed name => .videoSenderRemoved (item pairs name)

def toEmbedded : CameraEvent → EmbeddedEvent
  | .new name => .videoSenderBrowse .new (item pairs name)
  | .resolved name hostName address port txtData =>
      .videoSenderResolve (item pairs name) (.found hostName (.inet address) port txtData)
  | .removed name => .videoSenderBrowse .remove (item pairs name)

def observed : CameraEvent → Observation
  | .new name => .announced (item pairs name)
  | .resolved name _ address port txtData => .answered name address.toString port txtData
  | .removed name => .withdrawn (item pairs name)

end CameraEvent

variable [LocalCodec]

def translate (pairs : Pairs) :
    (platform : Platform) → CameraEvent → (createServiceDiscover platform).Event
  | .desktop => CameraEvent.toDBus pairs
  | .android => CameraEvent.toEmbedded pairs

def feed (pairs : Pairs) (platform : Platform) (events : List CameraEvent) :
    List (DisplayEvent (createServiceDiscover platform)) :=
  events.map fun event => .discovery (translate pairs platform event)

theorem observations_feed (pairs : Pairs) (platform : Platform) (events : List CameraEvent) :
    observations (feed pairs platform events) = events.map (CameraEvent.observed pairs) := by
  rw [observations, feed, List.filterMap_map, ← List.filterMap_eq_map]
  congr 1
  funext event
  cases platform <;> cases event <;> rfl

/-- A camera that waits for its answer has a resolver that can give it. -/
def Ready (pairs : Pairs) (phases : String → Phase) :
    (platform : Platform) → (createServiceDiscover platform).State → Prop
  | .desktop, browse => ∀ name, phases name = Phase.announced →
      (AvahiBrowse.nameToResolver browse).contains name
  | .android, browse => ∀ name, phases name = Phase.announced →
      CameraEvent.item pairs name ∈ EmbeddedAvahiBrowse.videoSenderResolvers browse

theorem enabled (pairs : Pairs) (platform : Platform) (phases phases' : String → Phase)
    (state : (createServiceDiscover platform).State) (event : CameraEvent)
    (hphase : announcements.step phases event = some phases')
    (hready : Ready pairs phases platform state) :
    ∃ state' signals, (createServiceDiscover platform).step state
        (translate pairs platform event) = some (state', signals) := by
  cases event with
  | new name | removed name => cases platform <;> exact ⟨_, _, rfl⟩
  | resolved name hostName address port txtData =>
      obtain ⟨hname, _⟩ := Option.ite_none_right_eq_some.mp hphase
      cases platform <;> exact ⟨_, _, if_pos (hready name hname)⟩

/-- Both backends are ready for every event of a disciplined run. -/
theorem ready_step (pairs : Pairs) (platform : Platform) (phases phases' : String → Phase)
    (state state' : (createServiceDiscover platform).State) (event : CameraEvent)
    (signals : List Signal) (hphase : announcements.step phases event = some phases')
    (hready : Ready pairs phases platform state)
    (hstep : (createServiceDiscover platform).step state (translate pairs platform event) =
      some (state', signals)) :
    Ready pairs phases' platform state' := by
  cases platform with
  | desktop =>
      intro name hname
      rw [AvahiBrowse.step_contains hstep]
      rcases announced_of_step hphase hname with rfl | ⟨hbefore, _⟩
      · simp [AvahiBrowse.requests, translate, CameraEvent.toDBus, CameraEvent.item]
      · rw [hready name hbefore, Bool.or_true]
  | android =>
      intro name hname
      rw [(EmbeddedAvahiBrowse.step_resolvers hstep).1]
      rcases announced_of_step hphase hname with rfl | ⟨hbefore, hother⟩
      · exact List.mem_append_right _ (List.mem_singleton_self _)
      · have hmem := hready name hbefore
        cases event with
        | new _ => exact List.mem_append_left _ hmem
        | removed _ => exact hmem
        | resolved other hostName address port txtData =>
            refine (List.mem_erase_of_ne ?_).mpr hmem
            rintro hitem
            obtain rfl : name = other := congrArg ServiceItem.name hitem
            exact hother _ _ _ _ rfl

theorem runs (pairs : Pairs) (platform : Platform) (events : List CameraEvent)
    (phases : String → Phase) (h : announcements.run events = some phases) :
    ∃ display, (machine (createServiceDiscover platform)).run (feed pairs platform events) =
        some display ∧ Ready pairs phases platform display.backendState := by
  refine Machine.run_induction _ (P := fun events phases => ∃ display,
    (machine (createServiceDiscover platform)).run (feed pairs platform events) = some display ∧
      Ready pairs phases platform display.backendState) ?_ ?_ events phases h
  · refine ⟨_, rfl, ?_⟩
    cases platform <;> intro name hname <;> cases hname
  · rintro events phases event phases' _ ⟨display, hrun, hready⟩ hphase
    obtain ⟨state', signals, hstep⟩ :=
      enabled pairs platform phases phases' display.backendState event hphase hready
    have hready' := ready_step pairs platform phases phases' display.backendState state' event
      signals hphase hready hstep
    refine ⟨{ (display.feed (signals.filterMap formEvent?)) with
      backendState := state', emitted := display.emitted ++ signals }, ?_, hready'⟩
    rw [feed, List.map_append]
    refine (Machine.run_snoc _ _ _ _).mpr ⟨display, hrun, ?_⟩
    change Option.map _ _ = _
    rw [hstep]
    rfl

/-- A run over D-Bus and a run of the embedded backend that follow the same
events. -/
structure SideBySide (pairs : Pairs) (events : List CameraEvent)
    (dbus : Display (createServiceDiscover .desktop))
    (embedded : Display (createServiceDiscover .android)) : Prop where
  dbus : (machine (createServiceDiscover .desktop)).run (feed pairs .desktop events) = some dbus
  embedded : (machine (createServiceDiscover .android)).run (feed pairs .android events) =
    some embedded

namespace SideBySide

variable {pairs : Pairs} {events : List CameraEvent}
  {dbus : Display (createServiceDiscover .desktop)}
  {embedded : Display (createServiceDiscover .android)}

theorem dbus_shows (h : SideBySide pairs events dbus embedded) :
    Shows .desktop (events.map (CameraEvent.observed pairs)) dbus := by
  have hshows := run_shows .desktop _ dbus h.dbus
  rwa [observations_feed] at hshows

theorem embedded_shows (h : SideBySide pairs events dbus embedded) :
    Shows .android (events.map (CameraEvent.observed pairs)) embedded := by
  have hshows := run_shows .android _ embedded h.embedded
  rwa [observations_feed] at hshows

/-- The page shows the same cameras, whichever backend feeds it. -/
theorem tiles (h : SideBySide pairs events dbus embedded) :
    (dbus.page.tiles.map cameraOf).Perm (embedded.page.tiles.map cameraOf) := by
  refine h.dbus_shows.cameras.trans ?_
  rw [Discovered.shownBy_platform .desktop .android]
  exact h.embedded_shows.cameras.symm

/-- Before the first removal the backends own the same senders. -/
theorem senders (h : SideBySide pairs events dbus embedded)
    (hkept : ∀ name, .removed name ∉ events) : dbus.senders = embedded.senders := by
  rw [h.dbus_shows.senders, h.embedded_shows.senders]
  refine congrArg Discovered.senders (Discovered.ofObservations_platform .desktop .android _ ?_)
  intro item hitem
  obtain ⟨event, hevent, hobserved⟩ := List.mem_map.mp hitem
  cases event with
  | new _ | resolved _ _ _ _ _ => cases hobserved
  | removed name => exact hkept name hevent

/-- After a removal only `AvahiBrowse` has dropped the senders of the camera. -/
theorem senders_removed {name : String}
    (h : SideBySide pairs (events ++ [.removed name]) dbus embedded)
    (hanswered : ∃ hostName address port txtData,
      .resolved name hostName address port txtData ∈ events) :
    sendersNamed name dbus.senders = [] ∧ sendersNamed name embedded.senders ≠ [] := by
  constructor
  · rw [h.dbus_shows.senders, List.map_append, List.map_singleton,
      Discovered.ofObservations_snoc]
    exact Discovered.sendersNamed_withdraw_self .desktop _ name
  · rw [h.embedded_shows.senders, Discovered.sendersNamed_android_iff]
    obtain ⟨hostName, address, port, txtData, hmem⟩ := hanswered
    refine ⟨.answered name address.toString port txtData, List.mem_map.mpr
      ⟨.resolved name hostName address port txtData, List.mem_append_left _ hmem, rfl⟩, ?_⟩
    exact decide_eq_true rfl

end SideBySide

/-- The backends own the same cameras and the page shows the same ones. -/
def Agree (pairs : Pairs) (events : List CameraEvent) : Prop :=
  ∃ dbus embedded, SideBySide pairs events dbus embedded ∧
    (dbus.senders.map fun sender => (sender.name, sender.ipAddr)).Perm
      (embedded.senders.map fun sender => (sender.name, sender.ipAddr)) ∧
    (dbus.page.tiles.map cameraOf).Perm (embedded.page.tiles.map cameraOf)

/-- The two backends agree after every event of a disciplined run exactly when
no camera is ever removed. -/
theorem agree_iff (pairs : Pairs) (events : List CameraEvent) (phases : String → Phase)
    (h : announcements.run events = some phases) :
    (∀ before, before <+: events → Agree pairs before) ↔
      ∀ name, .removed name ∉ events := by
  have hside (before : List CameraEvent) (hbefore : before <+: events) :
      ∃ dbus embedded, SideBySide pairs before dbus embedded := by
    obtain ⟨phases, hphases⟩ := announcements.run_of_prefix h hbefore
    obtain ⟨dbus, hdbus, _⟩ := runs pairs .desktop before phases hphases
    obtain ⟨embedded, hembedded, _⟩ := runs pairs .android before phases hphases
    exact ⟨dbus, embedded, hdbus, hembedded⟩
  constructor
  · intro hagree name hremoved
    obtain ⟨before, after, rfl⟩ := List.append_of_mem hremoved
    have hprefix : before ++ [.removed name] <+: before ++ .removed name :: after :=
      ⟨after, by simp⟩
    obtain ⟨phases', hrun⟩ := announcements.run_of_prefix h hprefix
    obtain ⟨phases, hbefore, hstep⟩ := (announcements.run_snoc before _ phases').mp hrun
    obtain ⟨hname, _⟩ := Option.ite_none_right_eq_some.mp hstep
    obtain ⟨dbus, embedded, hrunning, hsenders, _⟩ := hagree _ hprefix
    obtain ⟨hnone, hsome⟩ :=
      hrunning.senders_removed (answered_of_resolved before phases hbefore name hname)
    obtain ⟨sender, hsender⟩ := List.exists_mem_of_ne_nil _ hsome
    obtain ⟨hlisted, hsendername⟩ := List.mem_filter.mp hsender
    have hmem := hsenders.mem_iff.mpr (List.mem_map_of_mem hlisted)
    obtain ⟨other, hother, hpair⟩ := List.mem_map.mp hmem
    refine List.filter_eq_nil_iff.mp hnone other hother ?_
    rw [(Prod.mk.inj hpair).1]
    exact hsendername
  · intro hkept before hbefore
    obtain ⟨dbus, embedded, hrunning⟩ := hside before hbefore
    have hsenders := hrunning.senders fun name hname => hkept name (hbefore.subset hname)
    exact ⟨dbus, embedded, hrunning, hsenders ▸ List.Perm.refl _, hrunning.tiles⟩

/-- Two cameras that come and stay. -/
def camerasStay : List CameraEvent :=
  [.new "yard", .new "gate", .resolved "gate" "pi.local" ⟨10, 0, 0, 8⟩ 8889 rtspTxt,
    .resolved "yard" "pi2.local" ⟨10, 0, 0, 7⟩ 8889 rtspTxt]

/-- They are seen on different interfaces. -/
def twoPairs : Pairs := fun name => if name = "yard" then (2, 0) else (3, 1)

omit [LocalCodec] in
theorem agree_while_cameras_stay :
    (∃ dbus embedded, @SideBySide .latin1 twoPairs camerasStay dbus embedded ∧
      dbus.page.tiles.map NVMRVideo.uniqueName = ["gate", "yard"] ∧
      embedded.page.tiles.map NVMRVideo.uniqueName = ["gate", "yard"]) ∧
    ∀ before, before <+: camerasStay → @Agree .latin1 twoPairs before :=
  ⟨⟨_, _, @SideBySide.mk .latin1 _ _ _ _ rfl rfl, by decide, by decide⟩,
    (@agree_iff .latin1 twoPairs camerasStay _ rfl).mpr (by simp [camerasStay])⟩

omit [LocalCodec] in
/-- A camera that leaves is dropped over D-Bus and kept in the embedded backend. -/
theorem kept_by_embedded_only :
    ∃ dbus embedded, @SideBySide .latin1 (fun _ => (2, 0))
        [.new "yard", .resolved "yard" "pi.local" ⟨10, 0, 0, 7⟩ 8889
          [[114, 116, 115, 112, 61, 97]], .removed "yard"] dbus embedded ∧
      dbus.senders.map (fun sender => (sender.name, sender.ipAddr)) = [] ∧
      embedded.senders.map (fun sender => (sender.name, sender.ipAddr)) =
        [("yard", "10.0.0.7")] ∧
      dbus.page.tiles = [] ∧ embedded.page.tiles = [] :=
  ⟨_, _, @SideBySide.mk .latin1 _ _ _ _ rfl rfl, rfl, by decide, rfl, rfl⟩

end NvmrDisplay.System
