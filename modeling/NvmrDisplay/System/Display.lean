import NvmrDisplay.Discover.Cameras
import NvmrDisplay.Lib.Safety
import NvmrDisplay.Qml.Layout

/-!
A discovery backend and the video page it feeds. The page is connected to the
signals of `serviceDiscover`, so its handlers run while a backend event is
being processed; the user clicks in between. The display also remembers the
signals emitted and the events the page handled, for the statements about runs.
-/

namespace NvmrDisplay.System

open Discover Qml Lib

structure Display (backend : Backend) where
  backendState : backend.State
  page : VideoForm
  emitted : List Signal
  handled : List FormEvent

inductive DisplayEvent (backend : Backend) where
  | discovery (event : backend.Event)
  | click (id : Nat)
  | multi
  | single

/-- The page event a signal causes; the page ignores web servers. -/
def formEvent? : Signal → Option FormEvent
  | .jmriWebserverFound _ => none
  | .rpiVideoSenderRtspFound url uniqueName videoName =>
      some (.rtspFound url uniqueName videoName)
  | .rpiVideoSenderRtspWentAway uniqueName => some (.rtspWentAway uniqueName)

/-- The signal behind a page event, none for what the user does. -/
def signal? : FormEvent → Option Signal
  | .rtspFound url uniqueName videoName =>
      some (.rpiVideoSenderRtspFound url uniqueName videoName)
  | .rtspWentAway uniqueName => some (.rpiVideoSenderRtspWentAway uniqueName)
  | .click _ | .multi | .single => none

namespace Display

variable {backend : Backend}

def initial (backend : Backend) : Display backend where
  backendState := backend.initial
  page := VideoForm.initial
  emitted := []
  handled := []

def senders (display : Display backend) : List RPIVideoSender :=
  backend.senders display.backendState

/-- The page handles a list of events in order. -/
def feed (display : Display backend) (events : List FormEvent) : Display backend :=
  { display with
    page := display.page.runFrom events
    handled := display.handled ++ events }

def step (display : Display backend) : DisplayEvent backend → Option (Display backend)
  | .discovery event =>
      (backend.step display.backendState event).map fun (next, signals) =>
        { (display.feed (signals.filterMap formEvent?)) with
          backendState := next
          emitted := display.emitted ++ signals }
  | .click id => some (display.feed [.click id])
  | .multi => some (display.feed [.multi])
  | .single => some (display.feed [.single])

end Display

def machine (backend : Backend) : Machine (Display backend) (DisplayEvent backend) where
  init := Display.initial backend
  step := Display.step

/-- The backend events of a run. -/
def discoveryEvents {backend : Backend} (events : List (DisplayEvent backend)) :
    List backend.Event :=
  events.filterMap fun
    | .discovery event => some event
    | _ => none

/-- What an event shows of the backend; clicks show nothing. -/
def observation? {backend : Backend} : DisplayEvent backend → Option Observation
  | .discovery event => some (backend.observe event)
  | _ => none

def observations {backend : Backend} (events : List (DisplayEvent backend)) :
    List Observation :=
  events.filterMap observation?

/-- A tile as the page was told about it. -/
def cameraOf (video : NVMRVideo) : Camera :=
  ⟨video.videoSource, video.uniqueName, video.videoName⟩

/-- The TXT record of a stream: `rtsp=a`. -/
abbrev rtspTxt : List (List UInt8) := [[114, 116, 115, 112, 61, 97]]

theorem filterMap_signal_formEvent (signals : List Signal) :
    (signals.filterMap formEvent?).filterMap signal? = cameraSignals signals := by
  induction signals with
  | nil => rfl
  | cons signal rest ih =>
      simp only [cameraSignals] at ih
      cases signal <;>
        simp [List.filterMap_cons, formEvent?, signal?, cameraSignals, Signal.camera?, ih]

/-- The ledger of a page lists the cameras its signals leave shown. -/
theorem ledger_cameras (events : List FormEvent) :
    (Ledger.ofEvents events).live.map cameraOf = shownBy (events.filterMap signal?) := by
  induction events using List.reverseRecOn with
  | nil => rfl
  | append_singleton events event ih =>
      rw [Ledger.ofEvents_append_singleton, List.filterMap_append, shownBy_append, ← ih]
      cases event with
      | rtspWentAway uniqueName =>
          simp [Ledger.record, signal?, showSignal, List.filter_map, Function.comp_def,
            cameraOf]
      | rtspFound _ _ _ | click _ | multi | single =>
          simp [Ledger.record, List.filterMap_cons, signal?, showSignal, cameraOf]

variable [LocalCodec]

/-- What a run leaves in the display, in terms of the observations alone. -/
structure Shows (platform : Platform) (history : List Observation)
    (display : Display (createServiceDiscover platform)) : Prop where
  senders : display.senders = (Discovered.ofObservations platform history).senders
  signals : cameraSignals display.emitted =
    (Discovered.ofObservations platform history).signals
  page : display.page = VideoForm.run display.handled
  handled : display.handled.filterMap signal? = cameraSignals display.emitted

/-- Both backends, with the page and any clicks in between: the senders and
the camera signals of a run follow from its observations. -/
theorem run_shows (platform : Platform)
    (events : List (DisplayEvent (createServiceDiscover platform)))
    (display : Display (createServiceDiscover platform))
    (h : (machine (createServiceDiscover platform)).run events = some display) :
    Shows platform (observations events) display := by
  refine Machine.run_induction _
    (P := fun events display => Shows platform (observations events) display)
    ?_ ?_ events display h
  · cases platform <;> exact ⟨rfl, rfl, rfl, rfl⟩
  · intro events display event display' _ ih hstep
    have hfeed (user : FormEvent) (hsignal : signal? user = none)
        (hnext : display' = display.feed [user])
        (hobserved : observations (events ++ [event]) = observations events) :
        Shows platform (observations (events ++ [event])) display' := by
      subst hnext
      rw [hobserved]
      refine ⟨ih.senders, ih.signals, ?_, ?_⟩
      · simp [Display.feed, VideoForm.run, VideoForm.runFrom, ih.page]
      · simp [Display.feed, hsignal, ih.handled]
    cases event with
    | discovery event =>
        obtain ⟨⟨next, signals⟩, hbackend, rfl⟩ := Option.map_eq_some_iff.mp hstep
        have hobserved : observations (events ++ [DisplayEvent.discovery event]) =
            observations events ++ [(createServiceDiscover platform).observe event] := by
          simp [observations, observation?]
        have hrecord := step_refines platform display.backendState next event signals
          (cameraSignals display.emitted) hbackend
        have hbefore : (⟨(createServiceDiscover platform).senders display.backendState,
            cameraSignals display.emitted⟩ : Discovered) =
            Discovered.ofObservations platform (observations events) := by
          rw [show (createServiceDiscover platform).senders display.backendState = _ from
            ih.senders, ih.signals]
        rw [hbefore, ← Discovered.ofObservations_snoc, ← hobserved] at hrecord
        have hlog : cameraSignals (display.emitted ++ signals) =
            cameraSignals display.emitted ++ cameraSignals signals :=
          List.filter_append _ _
        refine ⟨?_, ?_, ?_, ?_⟩
        · rw [hrecord]
          rfl
        · rw [hrecord]
          exact hlog
        · simp [Display.feed, VideoForm.run, VideoForm.runFrom, ih.page]
        · simp only [Display.feed, List.filterMap_append, ih.handled,
            filterMap_signal_formEvent]
          exact hlog.symm
    | click id =>
        exact hfeed (.click id) rfl (Option.some.inj hstep).symm
          (by simp [observations, observation?])
    | multi =>
        exact hfeed .multi rfl (Option.some.inj hstep).symm
          (by simp [observations, observation?])
    | single =>
        exact hfeed .single rfl (Option.some.inj hstep).symm
          (by simp [observations, observation?])

namespace Shows

variable {platform : Platform} {history : List Observation}
  {display : Display (createServiceDiscover platform)}

/-- The tiles of the page, wherever they are, are the live tiles of a ledger. -/
theorem tiles_live (h : Shows platform history display) :
    display.page.tiles.Perm (Ledger.ofEvents display.handled).live := by
  obtain ⟨screen, hscreen, hholds⟩ := VideoForm.run_shows display.handled
  rw [h.page, hscreen, Screen.toForm_tiles]
  exact hholds.tiles

theorem cameras (h : Shows platform history display) :
    (display.page.tiles.map cameraOf).Perm
      (shownBy (Discovered.ofObservations platform history).signals) := by
  rw [← h.signals, ← h.handled, ← ledger_cameras]
  exact h.tiles_live.map cameraOf

theorem mem_tiles_iff (h : Shows platform history display) (tile : NVMRVideo) :
    tile ∈ display.page.tiles ↔ Ledger.Survives display.handled tile := by
  rw [h.tiles_live.mem_iff, Ledger.mem_live_iff]

/-- A camera has a tile exactly when it is among the shown ones. -/
theorem exists_tile_iff (h : Shows platform history display) (name : String) :
    (∃ tile ∈ display.page.tiles, tile.uniqueName = name) ↔
      camerasNamed name (shownBy (Discovered.ofObservations platform history).signals) ≠ [] := by
  constructor
  · rintro ⟨tile, htile, hname⟩
    refine List.ne_nil_of_mem (a := cameraOf tile) (List.mem_filter.mpr ⟨?_, ?_⟩)
    · exact h.cameras.mem_iff.mp (List.mem_map_of_mem htile)
    · exact decide_eq_true hname
  · intro hsome
    obtain ⟨camera, hcamera⟩ := List.exists_mem_of_ne_nil _ hsome
    obtain ⟨hshown, hname⟩ := List.mem_filter.mp hcamera
    obtain ⟨tile, htile, rfl⟩ := List.mem_map.mp (h.cameras.mem_iff.mpr hshown)
    exact ⟨tile, htile, of_decide_eq_true hname⟩

end Shows

/-- What a step feeds the page: the loss of a camera only when its name is
withdrawn. -/
theorem step_handled (platform : Platform)
    (display display' : Display (createServiceDiscover platform))
    (event : DisplayEvent (createServiceDiscover platform))
    (h : display.step event = some display') :
    ∃ more, display'.handled = display.handled ++ more ∧
      ∀ name, .rtspWentAway name ∈ more →
        ∃ observation, observation? event = some observation ∧
          observation.isWithdrawal name := by
  cases event with
  | discovery event =>
      obtain ⟨⟨next, signals⟩, hbackend, rfl⟩ := Option.map_eq_some_iff.mp h
      refine ⟨signals.filterMap formEvent?, rfl, ?_⟩
      intro name hname
      refine ⟨_, rfl, ?_⟩
      have hrecord := step_refines platform display.backendState next event signals [] hbackend
      refine Discovered.wentAway_of_record platform _ _ (cameraSignals signals) name
        (congrArg Discovered.signals hrecord) ?_
      obtain ⟨signal, hsignal, hform⟩ := List.mem_filterMap.mp hname
      refine List.mem_filter.mpr ⟨?_, rfl⟩
      cases signal <;> simp_all [formEvent?]
  | click id =>
      obtain rfl := Option.some.inj h
      exact ⟨[.click id], rfl, by simp⟩
  | multi =>
      obtain rfl := Option.some.inj h
      exact ⟨[.multi], rfl, by simp⟩
  | single =>
      obtain rfl := Option.some.inj h
      exact ⟨[.single], rfl, by simp⟩

/-- The exact condition for a safety property of the display that depends on
the observations alone. -/
theorem always_iff_observed (platform : Platform)
    {P : List Observation → Display (createServiceDiscover platform) → Prop}
    {Q : List Observation → Prop} {C : List Observation → Observation → Prop}
    (hshows : ∀ history display,
      Shows platform history display → (P history display ↔ Q history))
    (hnil : Q [])
    (hsnoc : ∀ history observation, Q history → (Q (history ++ [observation]) ↔
      C history observation))
    (events : List (DisplayEvent (createServiceDiscover platform)))
    (display : Display (createServiceDiscover platform))
    (h : (machine (createServiceDiscover platform)).run events = some display) :
    (machine (createServiceDiscover platform)).Always
        (fun events display => P (observations events) display) events ↔
      Throughout C (observations events) := by
  rw [observations, Throughout.filterMap_iff]
  refine Machine.always_iff_throughout _ ?_ ?_ events display h
  · exact (hshows [] _ (run_shows platform [] _ rfl)).mpr hnil
  · intro before display event display' hrun hbefore hstep
    have hbefore := (hshows _ _ (run_shows platform before display hrun)).mp hbefore
    rw [hshows _ _ (run_shows platform (before ++ [event]) display'
      ((Machine.run_snoc _ _ _ _).mpr ⟨display, hrun, hstep⟩))]
    cases hobserved : observation? event with
    | none => simpa [observations, hobserved] using hbefore
    | some observation =>
        simpa [observations, hobserved] using hsnoc (observations before) observation hbefore

end NvmrDisplay.System
