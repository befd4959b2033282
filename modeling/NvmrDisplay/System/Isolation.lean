import NvmrDisplay.Discover.Footprint
import NvmrDisplay.System.Display

/-!
Cameras do not interfere. A run restricted to the events about one camera is
again a run, and it leaves the same senders, the same signals and the same
tiles of that camera, whatever else was discovered and wherever the user
clicked. Runs that agree name by name end with the same senders and tiles.
-/

namespace NvmrDisplay.System

open Discover Discover.ServiceDiscover Discover.Discovered Qml Lib

/-- The backend events of a run that carry the name. -/
def eventsAbout {backend : Backend} (name : String) (events : List (DisplayEvent backend)) :
    List backend.Event :=
  (discoveryEvents events).filter fun event => backend.about event = some name

/-- The tiles of one camera, as the page was told about them. -/
def Display.tilesNamed {backend : Backend} (name : String) (display : Display backend) :
    List Camera :=
  (display.page.tiles.filter fun tile => tile.uniqueName = name).map cameraOf

/-- The part of a discovery event the resolvers of a name see. -/
def aboutName? {backend : Backend} (name : String) :
    DisplayEvent backend → Option backend.Event
  | .discovery event => if backend.about event = some name then some event else none
  | _ => none

theorem filterMap_aboutName {backend : Backend} (name : String)
    (events : List (DisplayEvent backend)) :
    events.filterMap (aboutName? name) = eventsAbout name events := by
  rw [eventsAbout, discoveryEvents, List.filter_filterMap]
  apply List.filterMap_congr
  intro event _
  cases event with
  | discovery event => simp [aboutName?, Option.filter]
  | click _ | multi | single => rfl

variable [LocalCodec]

/-- A run acts on the resolvers of a name through the events about it. -/
theorem projects (platform : Platform) (name : String) :
    (machine (createServiceDiscover platform)).Projects
      (footprint platform name).machine
      (fun display => (footprint platform name).view display.backendState)
      (aboutName? name) where
  init := rfl
  silent display event display' hstep himage := by
    cases event with
    | discovery event =>
        obtain ⟨⟨next, signals⟩, hbackend, rfl⟩ := Option.map_eq_some_iff.mp hstep
        have hview := (footprint platform name).view_step _ event next signals hbackend
        rwa [if_neg fun habout => by simp [aboutName?, habout] at himage] at hview
    | click _ | multi | single =>
        obtain rfl := Option.some.inj hstep
        rfl
  visible display event display' about hstep himage := by
    cases event with
    | discovery event =>
        obtain ⟨habout, himage⟩ := Option.ite_none_right_eq_some.mp himage
        obtain rfl := Option.some.inj himage
        obtain ⟨⟨next, signals⟩, hbackend, rfl⟩ := Option.map_eq_some_iff.mp hstep
        have hview := (footprint platform name).view_step _ event next signals hbackend
        have hadmits := ((footprint platform name).enabled_iff _ event habout).mp
          (by rw [hbackend]; rfl)
        rw [if_pos habout] at hview
        exact (if_pos hadmits).trans (congrArg some hview.symm)
    | click _ | multi | single => cases himage

/-- Dropping everything but the events about a name leaves a run. -/
theorem run_restricted (platform : Platform) (name : String)
    (events restricted : List (DisplayEvent (createServiceDiscover platform)))
    (display : Display (createServiceDiscover platform))
    (h : (machine (createServiceDiscover platform)).run events = some display)
    (hrestricted : discoveryEvents restricted = eventsAbout name events) :
    ∃ display', (machine (createServiceDiscover platform)).run restricted = some display' := by
  have habout : eventsAbout name restricted = eventsAbout name events := by
    rw [eventsAbout, hrestricted, eventsAbout, List.filter_filter]
    simp
  have hsmall := (projects platform name).run events display h
  rw [filterMap_aboutName, ← habout, ← filterMap_aboutName] at hsmall
  refine (projects platform name).lift restricted _ ?_ ?_ hsmall
  · intro event hevent himage display
    cases event with
    | discovery event =>
        have hmem : event ∈ discoveryEvents restricted :=
          List.mem_filterMap.mpr ⟨_, hevent, rfl⟩
        rw [hrestricted] at hmem
        have hname := (List.mem_filter.mp hmem).2
        simp [aboutName?, of_decide_eq_true hname] at himage
    | click _ | multi | single => exact ⟨_, rfl⟩
  · intro display event about himage henabled
    cases event with
    | discovery event =>
        obtain ⟨hname, himage⟩ := Option.ite_none_right_eq_some.mp himage
        obtain rfl := Option.some.inj himage
        have hadmits := ((footprint platform name).machine_step_isSome _ event).mp henabled
        obtain ⟨⟨next, signals⟩, hbackend⟩ := Option.isSome_iff_exists.mp
          (((footprint platform name).enabled_iff _ event hname).mpr hadmits)
        exact ⟨_, Option.map_eq_some_iff.mpr ⟨_, hbackend, rfl⟩⟩
    | click _ | multi | single => cases himage

/-- The observations about a name come from the events about it. -/
theorem about_observations (platform : Platform) (name : String)
    (events : List (DisplayEvent (createServiceDiscover platform))) :
    about name (observations events) =
      about name ((eventsAbout name events).map (createServiceDiscover platform).observe) := by
  have hobserved : observations events =
      (discoveryEvents events).map (createServiceDiscover platform).observe := by
    rw [observations, discoveryEvents, List.map_filterMap]
    apply List.filterMap_congr
    intro event _
    cases event <;> rfl
  rw [hobserved, about, about, eventsAbout, List.filter_map, List.filter_map, List.filter_filter]
  congr 1
  apply List.filter_congr
  intro event _
  rw [Bool.eq_iff_iff, Bool.and_eq_true]
  refine ⟨fun hcamera => ⟨hcamera, decide_eq_true ?_⟩, fun h => h.1⟩
  exact observe_about platform event name (of_decide_eq_true hcamera)

omit [LocalCodec] in
theorem signalsNamed_cameraSignals (name : String) (signals : List Signal) :
    signalsNamed name (cameraSignals signals) = signalsNamed name signals := by
  rw [signalsNamed, cameraSignals, List.filter_filter]
  apply List.filter_congr
  intro signal _
  cases signal.camera? <;> simp

/-- Two displays agree on a camera: its senders in order, its signals in order
and its tiles as a multiset. -/
structure SameCamera {platform : Platform} (name : String)
    (display display' : Display (createServiceDiscover platform)) : Prop where
  senders : sendersNamed name display.senders = sendersNamed name display'.senders
  signals : signalsNamed name display.emitted = signalsNamed name display'.emitted
  tiles : (display.tilesNamed name).Perm (display'.tilesNamed name)

/-- What a run leaves of a camera follows from the events about it. -/
theorem sameCamera_of_events (platform : Platform) (name : String)
    (events events' : List (DisplayEvent (createServiceDiscover platform)))
    (display display' : Display (createServiceDiscover platform))
    (h : (machine (createServiceDiscover platform)).run events = some display)
    (h' : (machine (createServiceDiscover platform)).run events' = some display')
    (hevents : eventsAbout name events = eventsAbout name events') :
    SameCamera name display display' := by
  have hshows := run_shows platform events display h
  have hshows' := run_shows platform events' display' h'
  have hrestrict : (ofObservations platform (observations events)).restrict name =
      (ofObservations platform (observations events')).restrict name := by
    rw [restrict_ofObservations, restrict_ofObservations, about_observations, hevents,
      ← about_observations]
  have hsignals := congrArg Discovered.signals hrestrict
  have htiles (events : List (DisplayEvent (createServiceDiscover platform)))
      (display : Display (createServiceDiscover platform))
      (hshows : Shows platform (observations events) display) :
      (display.tilesNamed name).Perm
        (camerasNamed name (shownBy (ofObservations platform (observations events)).signals)) := by
    have hperm := hshows.cameras.filter fun camera => camera.uniqueName = name
    rw [List.filter_map] at hperm
    exact hperm
  refine ⟨?_, ?_, ?_⟩
  · rw [hshows.senders, hshows'.senders]
    exact congrArg Discovered.senders hrestrict
  · rw [← signalsNamed_cameraSignals, hshows.signals, ← signalsNamed_cameraSignals name
      display'.emitted, hshows'.signals]
    exact hsignals
  · refine (htiles events display hshows).trans ?_
    rw [camerasNamed_shownBy]
    refine List.Perm.trans (List.Perm.of_eq (congrArg shownBy hsignals)) ?_
    rw [restrict, ← camerasNamed_shownBy]
    exact (htiles events' display' hshows').symm

omit [LocalCodec] in
/-- Lists that agree name by name agree up to order. -/
theorem perm_of_filter_name {α : Type} [DecidableEq α] (key : α → String) (xs ys : List α)
    (h : ∀ name, (xs.filter fun x => key x = name).Perm (ys.filter fun y => key y = name)) :
    xs.Perm ys := by
  rw [List.perm_iff_count]
  intro x
  have hcount := (h (key x)).count_eq x
  have hfilter (zs : List α) : (zs.filter fun z => key z = key x).count x = zs.count x :=
    List.count_filter (p := fun z => key z = key x) (decide_eq_true rfl)
  rwa [hfilter, hfilter] at hcount

/-- For each backend: restricting a run to the events about a camera leaves
that camera as it was, and runs that agree name by name end with the same
senders and tiles up to order. -/
theorem cameras_independent (platform : Platform) :
    (∀ name events restricted display,
      (machine (createServiceDiscover platform)).run events = some display →
        discoveryEvents restricted = eventsAbout name events →
          ∃ display', (machine (createServiceDiscover platform)).run restricted =
              some display' ∧ SameCamera name display display') ∧
    ∀ events events' display display',
      (machine (createServiceDiscover platform)).run events = some display →
        (machine (createServiceDiscover platform)).run events' = some display' →
          (∀ name, eventsAbout name events = eventsAbout name events') →
            display.senders.Perm display'.senders ∧
              (display.page.tiles.map cameraOf).Perm (display'.page.tiles.map cameraOf) := by
  constructor
  · intro name events restricted display h hrestricted
    obtain ⟨display', h'⟩ :=
      run_restricted platform name events restricted display h hrestricted
    refine ⟨display', h', sameCamera_of_events platform name _ _ _ _ h h' ?_⟩
    rw [eventsAbout.eq_def name restricted, hrestricted, eventsAbout, List.filter_filter]
    simp
  · intro events events' display display' h h' hevents
    have hsame (name : String) :=
      sameCamera_of_events platform name events events' display display' h h' (hevents name)
    constructor
    · apply perm_of_filter_name RPIVideoSender.name
      intro name
      exact List.Perm.of_eq (hsame name).senders
    · apply perm_of_filter_name Camera.uniqueName
      intro name
      have htiles := (hsame name).tiles
      rw [List.filter_map, List.filter_map]
      exact htiles

/-- Two cameras, one of them on two interfaces, with a click in between. -/
def yardAndGate : List (DisplayEvent (@createServiceDiscover .latin1 .desktop)) :=
  [.discovery (DBusEvent.videoSenderNew ⟨2, 0, "yard"⟩),
    .discovery (DBusEvent.videoSenderNew ⟨2, 0, "gate"⟩),
    .discovery (DBusEvent.videoSenderNew ⟨3, 0, "yard"⟩), .single,
    .discovery (DBusEvent.videoSenderFound "gate" "10.0.0.8" 8889 rtspTxt),
    .discovery (DBusEvent.videoSenderFound "yard" "10.0.0.7" 8889 rtspTxt)]

/-- The same of one camera alone, with another click. -/
def yardAlone : List (DisplayEvent (@createServiceDiscover .latin1 .desktop)) :=
  [.discovery (DBusEvent.videoSenderNew ⟨2, 0, "yard"⟩),
    .discovery (DBusEvent.videoSenderNew ⟨3, 0, "yard"⟩),
    .discovery (DBusEvent.videoSenderFound "yard" "10.0.0.7" 8889 rtspTxt), .click 0]

/-- The same in another order. -/
def gateAndYard : List (DisplayEvent (@createServiceDiscover .latin1 .desktop)) :=
  [.discovery (DBusEvent.videoSenderNew ⟨2, 0, "gate"⟩),
    .discovery (DBusEvent.videoSenderFound "gate" "10.0.0.8" 8889 rtspTxt),
    .discovery (DBusEvent.videoSenderNew ⟨2, 0, "yard"⟩),
    .discovery (DBusEvent.videoSenderNew ⟨3, 0, "yard"⟩),
    .discovery (DBusEvent.videoSenderFound "yard" "10.0.0.7" 8889 rtspTxt)]

omit [LocalCodec] in
theorem yard_independent_of_gate :
    (∃ display display',
      (machine (@createServiceDiscover .latin1 .desktop)).run yardAndGate = some display ∧
      (machine (@createServiceDiscover .latin1 .desktop)).run yardAlone = some display' ∧
      display.page.tiles.map NVMRVideo.uniqueName = ["gate", "yard"] ∧
      display'.page.tiles.map NVMRVideo.uniqueName = ["yard"] ∧
      @SameCamera .latin1 .desktop "yard" display display') ∧
    ∃ display display',
      (machine (@createServiceDiscover .latin1 .desktop)).run yardAndGate = some display ∧
      (machine (@createServiceDiscover .latin1 .desktop)).run gateAndYard = some display' ∧
      display.senders.Perm display'.senders := by
  constructor
  · obtain ⟨display', h', hsame⟩ :=
      (@cameras_independent .latin1 .desktop).1 "yard" yardAndGate yardAlone _ rfl rfl
    obtain rfl := Option.some.inj h'
    exact ⟨_, _, rfl, rfl, rfl, rfl, hsame⟩
  · refine ⟨_, _, rfl, rfl, ((@cameras_independent .latin1 .desktop).2 yardAndGate gateAndYard
      _ _ rfl rfl ?_).1⟩
    intro name
    by_cases hyard : "yard" = name
    · subst hyard
      rfl
    · by_cases hgate : "gate" = name
      · subst hgate
        rfl
      · simp [yardAndGate, gateAndYard, eventsAbout, discoveryEvents, createServiceDiscover,
          avahiBrowse, AvahiBrowse.about, hyard, hgate]

end NvmrDisplay.System
