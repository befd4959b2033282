import NvmrDisplay.System.Display

/-!
How often a camera is listed and shown. Nothing on the way from an answer to
the list of senders looks at the name, so a camera is listed once for every
answer that was not dropped again: a run lists every camera at most once
exactly when no camera is answered while an earlier answer still counts.
-/

namespace NvmrDisplay.Discover.Discovered

open ServiceDiscover Lib

theorem count_name (name : String) (senders : List RPIVideoSender) :
    (senders.map RPIVideoSender.name).count name =
      (sendersNamed name senders).length := by
  rw [List.count, List.countP_map, List.countP_eq_length_filter]
  rfl

theorem count_uniqueName (name : String) (cameras : List Camera) :
    (cameras.map Camera.uniqueName).count name =
      (camerasNamed name cameras).length := by
  rw [List.count, List.countP_map, List.countP_eq_length_filter]
  rfl

/-- Every name has at most one sender. -/
def Single (found : Discovered) : Prop :=
  ∀ name, (sendersNamed name found.senders).length ≤ 1

/-- A camera is answered again although it has not been dropped since. -/
def Repeated (platform : Platform) (before : List Observation) : Observation → Prop
  | .answered name _ _ _ =>
      Since (fun o => o.isAnswer name) (fun o => o.dropsSenders platform name) before
  | _ => False

instance (platform : Platform) (before : List Observation) :
    (observation : Observation) → Decidable (Repeated platform before observation)
  | .answered .. => inferInstanceAs (Decidable (Since _ _ before))
  | .announced _ | .withdrawn _ | .other => inferInstanceAs (Decidable False)

variable [LocalCodec]

theorem single_record_iff (platform : Platform) (history : List Observation)
    (observation : Observation)
    (h : (ofObservations platform history).Single) :
    (ofObservations platform (history ++ [observation])).Single ↔
      ¬ Repeated platform history observation := by
  rw [ofObservations_snoc]
  cases observation with
  | announced item => exact iff_of_true h id
  | other => exact iff_of_true h id
  | withdrawn item =>
      refine iff_of_true ?_ id
      intro name
      by_cases hname : item.name = name
      · subst hname
        rw [record, sendersNamed_withdraw_self]
        split
        · exact Nat.zero_le _
        · exact h item.name
      · rw [record, sendersNamed_withdraw_other _ _ hname]
        exact h name
  | answered camera address port txtData =>
      have hlength (name : String) :
          (sendersNamed name (record platform (ofObservations platform history)
            (.answered camera address port txtData)).senders).length =
          (sendersNamed name (ofObservations platform history).senders).length +
              if camera = name then 1 else 0 := by
        rw [record, sendersNamed, List.filter_append]
        by_cases hname : camera = name <;>
          simp [hname, RPIVideoSender.new, sendersNamed]
      rw [Repeated, ← sendersNamed_iff, not_not]
      constructor
      · intro hsingle
        have hone := hsingle camera
        rw [hlength, if_pos rfl] at hone
        exact List.length_eq_zero_iff.mp (by omega)
      · intro hnone name
        rw [hlength]
        split
        · rename_i hname
          subst hname
          simp [hnone]
        · exact h name

end NvmrDisplay.Discover.Discovered

namespace NvmrDisplay.System

open Discover Qml Lib

namespace Display

variable {backend : Backend}

/-- No two senders have one name and no two tiles have one `uniqueName`. -/
def Unique (display : Display backend) : Prop :=
  (display.senders.map RPIVideoSender.name).Nodup ∧
    (display.page.tiles.map NVMRVideo.uniqueName).Nodup

end Display

variable [LocalCodec]

/-- A tile needs a sender, so it is enough to count the senders. -/
theorem Shows.unique_iff {platform : Platform} {history : List Observation}
    {display : Display (createServiceDiscover platform)}
    (h : Shows platform history display) :
    display.Unique ↔ (Discovered.ofObservations platform history).Single := by
  have htiles (name : String) :
      (display.page.tiles.map NVMRVideo.uniqueName).count name ≤
        (ServiceDiscover.sendersNamed name
          (Discovered.ofObservations platform history).senders).length := by
    have hperm := (h.cameras.map Camera.uniqueName).count_eq name
    rw [List.map_map, Discovered.count_uniqueName] at hperm
    have hcount : (display.page.tiles.map NVMRVideo.uniqueName).count name = _ := hperm
    rw [hcount]
    exact Discovered.cameras_le_senders platform history name
  simp only [Display.Unique, h.senders, Discovered.Single, List.nodup_iff_count_le_one,
    Discovered.count_name]
  constructor
  · exact fun hunique => hunique.1
  · exact fun hsingle => ⟨hsingle, fun name => (htiles name).trans (hsingle name)⟩

/-- A run lists and shows every camera at most once exactly when no camera is
answered again before its senders are dropped: over D-Bus before the name is
withdrawn, in the embedded backend ever. -/
theorem always_unique_iff (platform : Platform)
    (events : List (DisplayEvent (createServiceDiscover platform)))
    (display : Display (createServiceDiscover platform))
    (h : (machine (createServiceDiscover platform)).run events = some display) :
    (machine (createServiceDiscover platform)).Always (fun _ display => display.Unique) events ↔
      Throughout (fun before observation => ¬ Discovered.Repeated platform before observation)
        (observations events) := by
  refine always_iff_observed platform (P := fun _ display => display.Unique)
    (fun history display hshows => hshows.unique_iff) ?_
    (Discovered.single_record_iff platform) events display h
  intro name
  exact Nat.zero_le _

omit [LocalCodec]

/-- A camera on two interfaces, of which only one has an IPv4 address. -/
def answeredOnce : List (DisplayEvent (@createServiceDiscover .latin1 .android)) :=
  [.discovery (EmbeddedEvent.videoSenderBrowse .new ⟨2, 0, "yard"⟩),
    .discovery (EmbeddedEvent.videoSenderBrowse .new ⟨3, 0, "yard"⟩),
    .discovery (EmbeddedEvent.videoSenderResolve ⟨2, 0, "yard"⟩
      (.found "pi.local" (.inet ⟨10, 0, 0, 7⟩) 8889 rtspTxt)),
    .discovery (EmbeddedEvent.videoSenderResolve ⟨3, 0, "yard"⟩
      (.found "pi.local" (.inet6 [254, 128]) 8889 rtspTxt))]

theorem always_unique_answered_once :
    (∃ display, (machine (@createServiceDiscover .latin1 .android)).run answeredOnce =
        some display ∧
      display.senders.map RPIVideoSender.name = ["yard"] ∧
      display.page.tiles.map NVMRVideo.uniqueName = ["yard"]) ∧
    (machine (@createServiceDiscover .latin1 .android)).Always (fun _ display => display.Unique)
      answeredOnce :=
  ⟨⟨_, rfl, rfl, rfl⟩,
    (@always_unique_iff .latin1 .android answeredOnce _ rfl).mpr (by decide)⟩

/-- Over D-Bus a resolver that reports again, as after a change of address, and
in the embedded backend a camera on two interfaces: both are listed and shown
twice. -/
theorem listed_and_shown_twice :
    (∃ display, (machine (@createServiceDiscover .latin1 .desktop)).run
        [.discovery (DBusEvent.videoSenderNew ⟨2, 0, "yard"⟩),
          .discovery (DBusEvent.videoSenderFound "yard" "10.0.0.7" 8889
            [[114, 116, 115, 112, 61, 97]]),
          .discovery (DBusEvent.videoSenderFound "yard" "10.0.0.8" 8889
            [[114, 116, 115, 112, 61, 97]])] = some display ∧
      ¬ (display.senders.map RPIVideoSender.name).Nodup ∧
      ¬ (display.page.tiles.map NVMRVideo.uniqueName).Nodup) ∧
    ∃ display, (machine (@createServiceDiscover .latin1 .android)).run
        [.discovery (EmbeddedEvent.videoSenderBrowse .new ⟨2, 0, "yard"⟩),
          .discovery (EmbeddedEvent.videoSenderBrowse .new ⟨3, 0, "yard"⟩),
          .discovery (EmbeddedEvent.videoSenderResolve ⟨2, 0, "yard"⟩
            (.found "pi.local" (.inet ⟨10, 0, 0, 7⟩) 8889 [[114, 116, 115, 112, 61, 97]])),
          .discovery (EmbeddedEvent.videoSenderResolve ⟨3, 0, "yard"⟩
            (.found "pi.local" (.inet ⟨10, 0, 1, 7⟩) 8889
              [[114, 116, 115, 112, 61, 97]]))] = some display ∧
      ¬ (display.senders.map RPIVideoSender.name).Nodup ∧
      ¬ (display.page.tiles.map NVMRVideo.uniqueName).Nodup :=
  ⟨⟨_, rfl, by decide, by decide⟩, ⟨_, rfl, by decide, by decide⟩⟩

end NvmrDisplay.System
