import NvmrDisplay.Discover.Announced
import NvmrDisplay.System.Display

/-!
How the cameras on the display follow the announcements. Withdrawals carry an
interface and a protocol but both backends act on the name alone, so a camera
on several interfaces is lost with the first of them; and answers are taken
whether or not the camera is still announced. Both statements are exact: a run
keeps to the law just when none of its events is of the kind that breaks it.
-/

namespace NvmrDisplay.System

open Discover Discover.ServiceDiscover Qml Lib

namespace Display

variable {backend : Backend}

/-- Every sender and tile of the name is still there. -/
def Keeps (name : String) (display display' : Display backend) : Prop :=
  (∀ sender ∈ display.senders, sender.name = name → sender ∈ display'.senders) ∧
    ∀ tile ∈ display.page.tiles, tile.uniqueName = name → tile ∈ display'.page.tiles

theorem Keeps.refl (name : String) (display : Display backend) : Keeps name display display :=
  ⟨fun _ hsender _ => hsender, fun _ htile _ => htile⟩

theorem Keeps.trans (name : String) (a b c : Display backend) (hab : Keeps name a b)
    (hbc : Keeps name b c) : Keeps name a c := by
  constructor
  · intro sender hsender hname
    exact hbc.1 sender (hab.1 sender hsender hname) hname
  · intro tile htile hname
    exact hbc.2 tile (hab.2 tile htile hname) hname

/-- Nothing of the name is listed or shown. -/
def Gone (name : String) (display : Display backend) : Prop :=
  (∀ sender ∈ display.senders, sender.name ≠ name) ∧
    ∀ tile ∈ display.page.tiles, tile.uniqueName ≠ name

end Display

variable [LocalCodec]

/-- What a withdrawal would take away is what the cameras have. -/
theorem removable_iff (platform : Platform) (history : List Observation) (name : String) :
    Since (fun o => o.givesRemovable platform name) (fun o => o.isWithdrawal name) history ↔
      match platform with
      | .desktop => sendersNamed name (Discovered.ofObservations .desktop history).senders ≠ []
      | .android =>
          camerasNamed name (shownBy (Discovered.ofObservations .android history).signals) ≠
            [] := by
  cases platform with
  | desktop =>
      simp [Discovered.sendersNamed_iff, Observation.givesRemovable, Observation.dropsSenders]
  | android =>
      simp [Discovered.camerasNamed_iff, Observation.givesRemovable]

/-- A camera with nothing to take away has no tile. -/
theorem Shows.no_tile_of_not_removable {platform : Platform} {history : List Observation}
    {display : Display (createServiceDiscover platform)} (h : Shows platform history display)
    {name : String} (hnothing : ¬ Since (fun o => o.givesRemovable platform name)
      (fun o => o.isWithdrawal name) history) :
    ¬ ∃ tile ∈ display.page.tiles, tile.uniqueName = name := by
  rw [removable_iff] at hnothing
  rw [h.exists_tile_iff]
  cases platform with
  | android => exact hnothing
  | desktop =>
      have hle := Discovered.cameras_le_senders .desktop history name
      rw [not_not.mp hnothing] at hle
      exact not_not.mpr (List.length_eq_zero_iff.mp (Nat.le_zero.mp hle))

section Step

variable {platform : Platform} {before : List (DisplayEvent (createServiceDiscover platform))}
  {display display' : Display (createServiceDiscover platform)}
  {event : DisplayEvent (createServiceDiscover platform)}

theorem sender_kept
    (hrun : (machine (createServiceDiscover platform)).run before = some display)
    (hstep : display.step event = some display') {sender : RPIVideoSender}
    (hsender : sender ∈ display.senders)
    (hkeeps : ∀ observation, observation? event = some observation →
      ¬ observation.dropsSenders platform sender.name) : sender ∈ display'.senders := by
  have hrun' := (Machine.run_snoc _ before event display').mpr ⟨display, hrun, hstep⟩
  rw [(run_shows platform before display hrun).senders] at hsender
  rw [(run_shows platform _ display' hrun').senders, observations, List.filterMap_append]
  cases hobserved : observation? event with
  | none => simpa [observations, hobserved] using hsender
  | some observation =>
      have hmem := Discovered.mem_senders_record platform _ observation sender hsender
        (hkeeps observation hobserved)
      simpa [observations, hobserved, ← Discovered.ofObservations_snoc] using hmem

theorem tile_kept
    (hrun : (machine (createServiceDiscover platform)).run before = some display)
    (hstep : display.step event = some display') {tile : NVMRVideo}
    (htile : tile ∈ display.page.tiles)
    (hkeeps : ∀ observation, observation? event = some observation →
      ¬ observation.isWithdrawal tile.uniqueName) : tile ∈ display'.page.tiles := by
  have hrun' := (Machine.run_snoc _ before event display').mpr ⟨display, hrun, hstep⟩
  rw [(run_shows platform before display hrun).mem_tiles_iff] at htile
  obtain ⟨more, hmore, hlost⟩ := step_handled platform display display' event hstep
  rw [(run_shows platform _ display' hrun').mem_tiles_iff, hmore]
  refine htile.append ?_
  intro hmem
  obtain ⟨observation, hobserved, hwithdrawal⟩ := hlost _ hmem
  exact hkeeps observation hobserved hwithdrawal

/-- A withdrawal leaves nothing of what it can take away. -/
theorem not_keeps_of_withdrawal
    (hrun : (machine (createServiceDiscover platform)).run before = some display)
    (hstep : display.step event = some display') (item : ServiceItem)
    (hobserved : observation? event = some (.withdrawn item))
    (hremovable : Since (fun o => o.givesRemovable platform item.name)
      (fun o => o.isWithdrawal item.name) (observations before)) :
    ¬ display.Keeps item.name display' := by
  have hrun' := (Machine.run_snoc _ before event display').mpr ⟨display, hrun, hstep⟩
  have hshows := run_shows platform before display hrun
  have hshows' := run_shows platform _ display' hrun'
  have hafter : observations (before ++ [event]) = observations before ++ [.withdrawn item] := by
    simp [observations, hobserved]
  rw [hafter] at hshows'
  rw [removable_iff] at hremovable
  intro hkeeps
  cases platform with
  | desktop =>
      obtain ⟨sender, hsender⟩ := List.exists_mem_of_ne_nil _ hremovable
      obtain ⟨hlisted, hname⟩ := List.mem_filter.mp hsender
      have hname := of_decide_eq_true hname
      have hstays := hkeeps.1 sender (hshows.senders ▸ hlisted) hname
      rw [hshows'.senders, Discovered.ofObservations_snoc] at hstays
      have hnone := Discovered.sendersNamed_withdraw_self .desktop
        (Discovered.ofObservations .desktop (observations before)) item.name
      exact List.filter_eq_nil_iff.mp hnone sender hstays (by simpa using hname)
  | android =>
      obtain ⟨tile, htile, hname⟩ := (hshows.exists_tile_iff item.name).mpr hremovable
      have hstays := (hshows'.exists_tile_iff item.name).mp
        ⟨tile, hkeeps.2 tile htile hname, hname⟩
      rw [Discovered.shownBy_withdrawn, camerasNamed_remove_self] at hstays
      exact hstays rfl

/-- One step keeps every camera that stays announced exactly when it is no
premature withdrawal. -/
theorem step_keeps_iff
    (hrun : (machine (createServiceDiscover platform)).run before = some display)
    (hstep : display.step event = some display') :
    (∀ name, Announced name (observations before) →
        Announced name (observations (before ++ [event])) → display.Keeps name display') ↔
      ∀ observation, observation? event = some observation →
        ¬ Premature platform (observations before) observation := by
  have hafter (observation : Observation) (hobserved : observation? event = some observation) :
      observations (before ++ [event]) = observations before ++ [observation] := by
    simp [observations, hobserved]
  constructor
  · intro hkeeps observation hobserved hpremature
    cases observation with
    | announced _ | answered _ _ _ _ | other => exact hpremature
    | withdrawn item =>
        obtain ⟨hannounced, hremovable⟩ := hpremature
        refine not_keeps_of_withdrawal hrun hstep item hobserved hremovable ?_
        refine hkeeps item.name (hannounced.of_snoc ?_) (hafter _ hobserved ▸ hannounced)
        intro other hother
        cases hother
  · intro hpremature name _ hannounced
    have hnothing (observation : Observation) (hobserved : observation? event = some observation)
        (hwithdrawal : observation.isWithdrawal name) :
        ¬ Since (fun o => o.givesRemovable platform name) (fun o => o.isWithdrawal name)
          (observations before) := by
      intro hremovable
      cases observation with
      | announced _ | answered _ _ _ _ | other => cases hwithdrawal
      | withdrawn item =>
          obtain rfl : item.name = name := of_decide_eq_true hwithdrawal
          exact hpremature _ hobserved ⟨hafter _ hobserved ▸ hannounced, hremovable⟩
    constructor
    · rintro sender hsender rfl
      refine sender_kept hrun hstep hsender ?_
      intro observation hobserved hdrops
      obtain ⟨hdesktop, hwithdrawal⟩ := of_decide_eq_true hdrops
      subst hdesktop
      have hnone := (removable_iff .desktop _ _).not.mp
        (hnothing observation hobserved hwithdrawal)
      rw [(run_shows .desktop before display hrun).senders] at hsender
      exact List.filter_eq_nil_iff.mp (not_not.mp hnone) sender hsender (by simp)
    · rintro tile htile rfl
      refine tile_kept hrun hstep htile ?_
      intro observation hobserved hwithdrawal
      exact (run_shows platform before display hrun).no_tile_of_not_removable
        (hnothing observation hobserved hwithdrawal) ⟨tile, htile, rfl⟩

end Step

/-- Between any two states of a run, every camera that is announced all the
time in between keeps its senders and tiles, exactly when no item of a resolved
camera is withdrawn while another item of it is announced. -/
theorem kept_while_announced_iff (platform : Platform)
    (events : List (DisplayEvent (createServiceDiscover platform)))
    (display : Display (createServiceDiscover platform))
    (h : (machine (createServiceDiscover platform)).run events = some display) :
    (∀ name, (machine (createServiceDiscover platform)).KeptWhile
        (fun events => Announced name (observations events)) (Display.Keeps name) events) ↔
      Throughout (fun before observation => ¬ Premature platform before observation)
        (observations events) := by
  rw [observations, Throughout.filterMap_iff]
  refine Machine.keptWhile_iff_throughout _ (fun name => Display.Keeps.refl name)
    (fun name => Display.Keeps.trans name) ?_ events display h
  intro before display event display' hrun hstep
  exact step_keeps_iff hrun hstep

/-- A camera loses one of two interfaces before it is answered. It leaves the
other one later, and comes back. -/
def leavesOne : List (DisplayEvent (@createServiceDiscover .latin1 .desktop)) :=
  [.discovery (DBusEvent.videoSenderNew ⟨2, 0, "yard"⟩),
    .discovery (DBusEvent.videoSenderNew ⟨3, 0, "yard"⟩),
    .discovery (DBusEvent.videoSenderRemoved ⟨3, 0, "yard"⟩),
    .discovery (DBusEvent.videoSenderFound "yard" "10.0.0.7" 8889 rtspTxt), .click 0,
    .discovery (DBusEvent.videoSenderRemoved ⟨2, 0, "yard"⟩),
    .discovery (DBusEvent.videoSenderNew ⟨2, 0, "yard"⟩)]

omit [LocalCodec] in
theorem kept_while_announced_answered_after :
    (∃ before after,
      (machine (@createServiceDiscover .latin1 .desktop)).run (leavesOne.take 4) = some before ∧
      (machine (@createServiceDiscover .latin1 .desktop)).run (leavesOne.take 5) = some after ∧
      Announced "yard" (observations (leavesOne.take 5)) ∧
      before.page.tiles.map NVMRVideo.uniqueName = ["yard"] ∧
      after.page.tiles.map NVMRVideo.uniqueName = ["yard"]) ∧
    ∀ name, (machine (@createServiceDiscover .latin1 .desktop)).KeptWhile
      (fun events => Announced name (observations events)) (Display.Keeps name) leavesOne :=
  ⟨⟨_, _, rfl, rfl, by decide, rfl, rfl⟩,
    (@kept_while_announced_iff .latin1 .desktop leavesOne _ rfl).mpr (by decide)⟩

omit [LocalCodec] in
/-- A camera on two interfaces leaves one of them: over D-Bus its sender and
its tile go, in the embedded backend its tile. -/
theorem lost_with_first_interface :
    (∃ before after,
      (machine (@createServiceDiscover .latin1 .desktop)).run
        [.discovery (DBusEvent.videoSenderNew ⟨2, 0, "yard"⟩),
          .discovery (DBusEvent.videoSenderNew ⟨3, 0, "yard"⟩),
          .discovery (DBusEvent.videoSenderFound "yard" "10.0.0.7" 8889
            [[114, 116, 115, 112, 61, 97]])] = some before ∧
      before.step (.discovery (DBusEvent.videoSenderRemoved ⟨2, 0, "yard"⟩)) = some after ∧
      ItemAnnounced ⟨3, 0, "yard"⟩
        [.announced ⟨2, 0, "yard"⟩, .announced ⟨3, 0, "yard"⟩,
          .answered "yard" "10.0.0.7" 8889 [[114, 116, 115, 112, 61, 97]],
          .withdrawn ⟨2, 0, "yard"⟩] ∧
      before.senders.length = 1 ∧ before.page.tiles.length = 1 ∧
      after.senders = [] ∧ after.page.tiles = []) ∧
    ∃ before after,
      (machine (@createServiceDiscover .latin1 .android)).run
        [.discovery (EmbeddedEvent.videoSenderBrowse .new ⟨2, 0, "yard"⟩),
          .discovery (EmbeddedEvent.videoSenderBrowse .new ⟨3, 0, "yard"⟩),
          .discovery (EmbeddedEvent.videoSenderResolve ⟨2, 0, "yard"⟩
            (.found "pi.local" (.inet ⟨10, 0, 0, 7⟩) 8889
              [[114, 116, 115, 112, 61, 97]]))] = some before ∧
      before.step (.discovery (EmbeddedEvent.videoSenderBrowse .remove ⟨2, 0, "yard"⟩)) =
        some after ∧
      before.page.tiles.length = 1 ∧ after.page.tiles = [] :=
  ⟨⟨_, _, rfl, rfl, by decide, rfl, rfl, rfl, rfl⟩, ⟨_, _, rfl, rfl, rfl, rfl⟩⟩

/-- Cameras that are not announced have no sender. -/
def NoGhost (platform : Platform) (history : List Observation) : Prop :=
  ∀ name, ¬ Announced name history →
    sendersNamed name (Discovered.ofObservations platform history).senders = []

theorem Shows.gone_iff {platform : Platform} {history : List Observation}
    {display : Display (createServiceDiscover platform)} (h : Shows platform history display)
    (name : String) :
    display.Gone name ↔
      sendersNamed name (Discovered.ofObservations platform history).senders = [] := by
  have hsenders : (∀ sender ∈ display.senders, sender.name ≠ name) ↔
      sendersNamed name (Discovered.ofObservations platform history).senders = [] := by
    rw [h.senders, sendersNamed, List.filter_eq_nil_iff]
    simp
  rw [Display.Gone, hsenders]
  refine ⟨fun hgone => hgone.1, fun hnone => ⟨hnone, ?_⟩⟩
  intro tile htile hname
  refine (h.exists_tile_iff name).mp ⟨tile, htile, hname⟩ ?_
  have hle := Discovered.cameras_le_senders platform history name
  rw [hnone] at hle
  exact List.length_eq_zero_iff.mp (Nat.le_zero.mp hle)

theorem noGhost_snoc_iff (platform : Platform) (history : List Observation)
    (observation : Observation) (h : NoGhost platform history) :
    NoGhost platform (history ++ [observation]) ↔ ¬ Late platform history observation := by
  have hbefore (name : String) (hnew : ¬ Announced name (history ++ [observation]))
      (hkeeps : ¬ observation.isWithdrawal name) :
      sendersNamed name (Discovered.ofObservations platform history).senders = [] :=
    h name fun hannounced => hnew (hannounced.snoc_of_not_withdrawal hkeeps)
  unfold NoGhost
  rw [Discovered.ofObservations_snoc]
  cases observation with
  | announced _ | other =>
      refine iff_of_true ?_ id
      intro name hnew
      exact hbefore name hnew Bool.false_ne_true
  | answered camera address port txtData =>
      rw [Late, not_not]
      constructor
      · intro hghost
        by_contra hcamera
        have hnone := hghost camera fun hnew => hcamera (hnew.of_snoc (by simp))
        simp [Discovered.record, sendersNamed, RPIVideoSender.new] at hnone
      · intro hcamera name hnew
        have hne : camera ≠ name := by
          rintro rfl
          exact hnew (hcamera.snoc_of_not_withdrawal Bool.false_ne_true)
        have hnone := hbefore name hnew Bool.false_ne_true
        simpa [Discovered.record, sendersNamed, RPIVideoSender.new, hne] using hnone
  | withdrawn item =>
      have hother (name : String) (hne : item.name ≠ name)
          (hnew : ¬ Announced name (history ++ [.withdrawn item])) :
          sendersNamed name ((Discovered.ofObservations platform history).withdraw platform
            item.name).senders = [] := by
        rw [Discovered.sendersNamed_withdraw_other _ _ hne]
        exact hbefore name hnew (by simpa [Observation.isWithdrawal] using hne)
      have hself := Discovered.sendersNamed_withdraw_self platform
        (Discovered.ofObservations platform history) item.name
      cases platform with
      | desktop =>
          refine iff_of_true ?_ (by simp [Late])
          intro name hnew
          by_cases hname : item.name = name
          · subst hname
            exact hself
          · exact hother name hname hnew
      | android =>
          have hanswered := (Discovered.sendersNamed_android_iff history item.name).not
          simp only [reduceCtorEq, if_false] at hself
          simp only [Late, true_and, not_and, ← hanswered, not_not]
          constructor
          · intro hghost hnew
            exact hself ▸ hghost item.name hnew
          · intro hlate name hnew
            by_cases hname : item.name = name
            · subst hname
              exact hself.trans (hlate hnew)
            · exact hother name hname hnew

/-- In every state of a run, cameras that are not announced are neither listed
nor shown, exactly when no answer comes for a camera that is not announced and,
in the embedded backend, no answered camera ever loses its last item. -/
theorem no_ghost_iff (platform : Platform)
    (events : List (DisplayEvent (createServiceDiscover platform)))
    (display : Display (createServiceDiscover platform))
    (h : (machine (createServiceDiscover platform)).run events = some display) :
    (machine (createServiceDiscover platform)).Always
        (fun events display => ∀ name, ¬ Announced name (observations events) →
          display.Gone name) events ↔
      Throughout (fun before observation => ¬ Late platform before observation)
        (observations events) := by
  refine always_iff_observed platform
    (P := fun history display => ∀ name, ¬ Announced name history → display.Gone name)
    (Q := NoGhost platform) ?_ ?_ (noGhost_snoc_iff platform) events display h
  · intro history display hshows
    simp only [hshows.gone_iff, NoGhost]
  · intro name _
    rfl

/-- A camera on two interfaces is answered and leaves both. -/
def leavesBoth : List (DisplayEvent (@createServiceDiscover .latin1 .desktop)) :=
  [.discovery (DBusEvent.videoSenderNew ⟨2, 0, "yard"⟩),
    .discovery (DBusEvent.videoSenderNew ⟨3, 0, "yard"⟩),
    .discovery (DBusEvent.videoSenderFound "yard" "10.0.0.7" 8889 rtspTxt),
    .discovery (DBusEvent.videoSenderRemoved ⟨2, 0, "yard"⟩),
    .discovery (DBusEvent.videoSenderRemoved ⟨3, 0, "yard"⟩)]

omit [LocalCodec] in
/-- Over D-Bus a camera that was answered while announced leaves nothing. -/
theorem no_ghost_answered_in_time :
    (∃ display, (machine (@createServiceDiscover .latin1 .desktop)).run (leavesBoth.take 3) =
        some display ∧
      display.senders.map RPIVideoSender.name = ["yard"] ∧
      display.page.tiles.map NVMRVideo.uniqueName = ["yard"]) ∧
    (machine (@createServiceDiscover .latin1 .desktop)).Always
      (fun events display => ∀ name, ¬ Announced name (observations events) →
        display.Gone name) leavesBoth :=
  ⟨⟨_, rfl, rfl, rfl⟩, (@no_ghost_iff .latin1 .desktop leavesBoth _ rfl).mpr (by decide)⟩

omit [LocalCodec] in
/-- A camera leaves before its resolver answers: on both platforms it is listed
and shown from then on. In the embedded backend a camera that leaves after its
answer stays listed too. -/
theorem listed_after_leaving :
    (∃ display, (machine (@createServiceDiscover .latin1 .desktop)).run
        [.discovery (DBusEvent.videoSenderNew ⟨2, 0, "yard"⟩),
          .discovery (DBusEvent.videoSenderRemoved ⟨2, 0, "yard"⟩),
          .discovery (DBusEvent.videoSenderFound "yard" "10.0.0.7" 8889
            [[114, 116, 115, 112, 61, 97]])] = some display ∧
      display.senders.map RPIVideoSender.name = ["yard"] ∧
      display.page.tiles.map NVMRVideo.uniqueName = ["yard"]) ∧
    (∃ display, (machine (@createServiceDiscover .latin1 .android)).run
        [.discovery (EmbeddedEvent.videoSenderBrowse .new ⟨2, 0, "yard"⟩),
          .discovery (EmbeddedEvent.videoSenderBrowse .remove ⟨2, 0, "yard"⟩),
          .discovery (EmbeddedEvent.videoSenderResolve ⟨2, 0, "yard"⟩
            (.found "pi.local" (.inet ⟨10, 0, 0, 7⟩) 8889
              [[114, 116, 115, 112, 61, 97]]))] = some display ∧
      display.senders.map RPIVideoSender.name = ["yard"] ∧
      display.page.tiles.map NVMRVideo.uniqueName = ["yard"]) ∧
    (∃ display, (machine (@createServiceDiscover .latin1 .android)).run
        [.discovery (EmbeddedEvent.videoSenderBrowse .new ⟨2, 0, "yard"⟩),
          .discovery (EmbeddedEvent.videoSenderResolve ⟨2, 0, "yard"⟩
            (.found "pi.local" (.inet ⟨10, 0, 0, 7⟩) 8889
              [[114, 116, 115, 112, 61, 97]])),
          .discovery (EmbeddedEvent.videoSenderBrowse .remove ⟨2, 0, "yard"⟩)] =
        some display ∧
      display.senders.map RPIVideoSender.name = ["yard"] ∧ display.page.tiles = []) ∧
    ¬ Announced "yard" [.announced ⟨2, 0, "yard"⟩, .withdrawn ⟨2, 0, "yard"⟩] :=
  ⟨⟨_, rfl, rfl, rfl⟩, ⟨_, rfl, rfl, rfl⟩, ⟨_, rfl, rfl, rfl⟩, by decide⟩

end NvmrDisplay.System
