import NvmrDisplay.Discover.Backend
import NvmrDisplay.Lib.History

/-!
One camera at a time. The camera signals describe a bag of shown cameras; which
senders and which shown cameras carry a name depends only on the observations
about that name. A sender is there since an answer, a shown camera since an
answer whose TXT record names a stream; a withdrawal ends the second on both
platforms, the first over D-Bus only.
-/

namespace NvmrDisplay.Discover

open ServiceDiscover Lib

/-- A camera as a display is told about it. -/
structure Camera where
  url : String
  uniqueName : String
  videoName : String
  deriving DecidableEq, Repr

/-- A signal adds one camera or removes all of a name. -/
def showSignal (shown : List Camera) : Signal → List Camera
  | .jmriWebserverFound _ => shown
  | .rpiVideoSenderRtspFound url uniqueName videoName =>
      shown ++ [⟨url, uniqueName, videoName⟩]
  | .rpiVideoSenderRtspWentAway uniqueName =>
      shown.filter fun camera => camera.uniqueName != uniqueName

def shownBy (signals : List Signal) : List Camera :=
  signals.foldl showSignal []

/-- The shown cameras of one name. -/
def camerasNamed (name : String) (shown : List Camera) : List Camera :=
  shown.filter fun camera => camera.uniqueName = name

theorem shownBy_append (signals more : List Signal) :
    shownBy (signals ++ more) = more.foldl showSignal (shownBy signals) := by
  simp [shownBy]

theorem camerasNamed_remove_self (name : String) (shown : List Camera) :
    camerasNamed name (shown.filter fun camera => camera.uniqueName != name) = [] := by
  rw [camerasNamed, List.filter_filter, List.filter_eq_nil_iff]
  intro camera _
  simp

theorem camerasNamed_remove_other {name other : String} (hne : other ≠ name)
    (shown : List Camera) :
    camerasNamed name (shown.filter fun camera => camera.uniqueName != other) =
      camerasNamed name shown := by
  rw [camerasNamed, List.filter_filter]
  apply List.filter_congr
  intro camera _
  by_cases hname : camera.uniqueName = name
  · simp [hname, hne.symm]
  · simp [hname]

/-- Any positive number of losses of one name is one loss. -/
theorem foldl_wentAway (name : String) (senders : List RPIVideoSender) (shown : List Camera) :
    (senders.map fun _ => Signal.rpiVideoSenderRtspWentAway name).foldl showSignal shown =
      if senders = [] then shown
      else shown.filter fun camera => camera.uniqueName != name := by
  induction senders generalizing shown with
  | nil => rfl
  | cons sender rest ih =>
      simp only [List.map_cons, List.foldl_cons, showSignal, ih, List.filter_filter]
      simp

namespace Observation

variable [LocalCodec]

/-- The answers for one camera whose TXT record names a stream. -/
def isRtspAnswer (name : String) : Observation → Bool
  | .answered camera _ _ txtData => camera = name ∧ (txtMap txtData).contains "rtsp"
  | _ => false

/-- What removes the senders of a name. -/
def dropsSenders (platform : Platform) (name : String) (observation : Observation) : Bool :=
  platform = .desktop ∧ observation.isWithdrawal name

end Observation

namespace Discovered

theorem shownBy_withdraw (platform : Platform) (found : Discovered) (name : String)
    (hshown : (camerasNamed name (shownBy found.signals)).length ≤
      (sendersNamed name found.senders).length) :
    shownBy (found.withdraw platform name).signals =
      (shownBy found.signals).filter fun camera => camera.uniqueName != name := by
  cases platform with
  | android => simp [withdraw, shownBy_append, showSignal]
  | desktop =>
      simp only [withdraw, shownBy_append, foldl_wentAway]
      split
      · rename_i hnone
        have hempty : camerasNamed name (shownBy found.signals) = [] := by
          simpa [hnone] using hshown
        refine (List.filter_eq_self.mpr ?_).symm
        intro camera hcamera
        have := List.filter_eq_nil_iff.mp hempty camera hcamera
        simpa using this
      · rfl

/-- Over D-Bus a withdrawal loses the senders of its name. -/
theorem sendersNamed_withdraw_self (platform : Platform) (found : Discovered) (name : String) :
    sendersNamed name (found.withdraw platform name).senders =
      if platform = .desktop then [] else sendersNamed name found.senders := by
  cases platform with
  | desktop =>
      simp only [withdraw, sendersNamed, List.filter_filter, if_true]
      rw [List.filter_eq_nil_iff]
      intro sender _
      simp
  | android => simp [withdraw]

theorem sendersNamed_withdraw_other (platform : Platform) (found : Discovered)
    {name other : String} (hne : other ≠ name) :
    sendersNamed name (found.withdraw platform other).senders =
      sendersNamed name found.senders := by
  cases platform with
  | desktop =>
      rw [withdraw, sendersNamed, List.filter_filter]
      apply List.filter_congr
      intro sender _
      by_cases hname : sender.name = name
      · simp [hname, hne.symm]
      · simp [hname]
  | android => rfl

variable [LocalCodec]

/-- The camera an answer adds to the page, if any. -/
def answerCameras (name : String) (txtData : List (List UInt8)) : List Camera :=
  if (txtMap txtData).contains "rtsp" then
    [⟨(txtMap txtData).value "rtsp" "", name, (txtMap txtData).value "videoname" ""⟩]
  else []

theorem shownBy_answered (platform : Platform) (found : Discovered)
    (name address : String) (port : Nat) (txtData : List (List UInt8)) :
    shownBy (found.record platform (.answered name address port txtData)).signals =
      shownBy found.signals ++ answerCameras name txtData := by
  simp only [record, shownBy_append, rtspSignal, answerCameras]
  split <;> simp [showSignal]

theorem answerCameras_length (name : String) (txtData : List (List UInt8)) :
    (answerCameras name txtData).length ≤ 1 := by
  unfold answerCameras
  split <;> simp

theorem camerasNamed_answerCameras (name other : String) (txtData : List (List UInt8)) :
    camerasNamed name (answerCameras other txtData) =
      if other = name then answerCameras other txtData else [] := by
  unfold answerCameras camerasNamed
  split <;> split <;> simp_all

/-- A name never has more shown cameras than senders, so a withdrawal that
finds no sender to lose leaves no camera behind. -/
theorem cameras_le_senders (platform : Platform) (history : List Observation)
    (name : String) :
    (camerasNamed name (shownBy (ofObservations platform history).signals)).length ≤
      (sendersNamed name (ofObservations platform history).senders).length := by
  induction history using List.reverseRecOn generalizing name with
  | nil => simp [ofObservations, initial, shownBy, camerasNamed]
  | append_singleton history observation ih =>
      rw [ofObservations_snoc]
      cases observation with
      | announced item => exact ih name
      | other => exact ih name
      | answered camera address port txtData =>
          have hold := ih name
          have hone := answerCameras_length camera txtData
          rw [shownBy_answered, camerasNamed, List.filter_append, ← camerasNamed,
            ← camerasNamed, camerasNamed_answerCameras]
          rw [record, sendersNamed, List.filter_append, ← sendersNamed]
          by_cases hname : camera = name
          · simp [hname, RPIVideoSender.new] at hone ⊢
            omega
          · simp [hname]
            omega
      | withdrawn item =>
          rw [record, shownBy_withdraw platform _ item.name (ih item.name)]
          by_cases hname : item.name = name
          · subst hname
            rw [camerasNamed_remove_self]
            exact Nat.zero_le _
          · rw [camerasNamed_remove_other hname, sendersNamed_withdraw_other _ _ hname]
            exact ih name

/-- A withdrawal removes the shown cameras of its name, whichever platform. -/
theorem shownBy_withdrawn (platform : Platform) (history : List Observation)
    (item : ServiceItem) :
    shownBy (ofObservations platform (history ++ [.withdrawn item])).signals =
      (shownBy (ofObservations platform history).signals).filter fun camera =>
        camera.uniqueName != item.name := by
  rw [ofObservations_snoc, record]
  exact shownBy_withdraw platform _ item.name (cameras_le_senders platform history item.name)

/-- What is shown does not depend on the platform. -/
theorem shownBy_platform (platform other : Platform) (history : List Observation) :
    shownBy (ofObservations platform history).signals =
      shownBy (ofObservations other history).signals := by
  induction history using List.reverseRecOn with
  | nil => rfl
  | append_singleton history observation ih =>
      cases observation with
      | announced _ | other => simpa [ofObservations_snoc, record] using ih
      | answered name address port txtData =>
          rw [ofObservations_snoc, ofObservations_snoc, shownBy_answered, shownBy_answered, ih]
      | withdrawn item => rw [shownBy_withdrawn, shownBy_withdrawn, ih]

/-- The platforms differ in withdrawals only. -/
theorem ofObservations_platform (platform other : Platform) (history : List Observation)
    (h : ∀ item, .withdrawn item ∉ history) :
    ofObservations platform history = ofObservations other history := by
  induction history using List.reverseRecOn with
  | nil => rfl
  | append_singleton history observation ih =>
      rw [ofObservations_snoc, ofObservations_snoc,
        ih fun item hitem => h item (List.mem_append_left _ hitem)]
      cases observation with
      | announced _ | answered _ _ _ _ | other => rfl
      | withdrawn item => exact absurd (by simp) (h item)

/-- Only a withdrawal of a camera emits the loss of its name. -/
theorem wentAway_of_record (platform : Platform) (found : Discovered)
    (observation : Observation) (signals : List Signal) (name : String)
    (h : (found.record platform observation).signals = found.signals ++ signals)
    (hsignal : .rpiVideoSenderRtspWentAway name ∈ signals) :
    observation.isWithdrawal name := by
  cases observation with
  | announced item => simp_all [record]
  | other => simp_all [record]
  | answered camera address port txtData =>
      obtain rfl := List.append_cancel_left h
      unfold rtspSignal at hsignal
      split at hsignal <;> simp at hsignal
  | withdrawn item =>
      cases platform <;>
        obtain rfl := List.append_cancel_left h <;>
        simp_all [Observation.isWithdrawal]

/-- A sender stays until its name is dropped. -/
theorem mem_senders_record (platform : Platform) (found : Discovered)
    (observation : Observation) (sender : RPIVideoSender) (h : sender ∈ found.senders)
    (hkeeps : ¬ observation.dropsSenders platform sender.name) :
    sender ∈ (found.record platform observation).senders := by
  cases observation with
  | announced item => exact h
  | other => exact h
  | answered camera address port txtData => exact List.mem_append_left _ h
  | withdrawn item =>
      cases platform with
      | android => exact h
      | desktop =>
          simp only [Observation.dropsSenders, Observation.isWithdrawal, true_and,
            decide_eq_true_eq] at hkeeps
          exact List.mem_filter.mpr ⟨h, by simpa using fun hname => hkeeps hname.symm⟩

/-- A name has a sender exactly while it was answered and not dropped since. -/
theorem sendersNamed_iff (platform : Platform) (history : List Observation) (name : String) :
    sendersNamed name (ofObservations platform history).senders ≠ [] ↔
      Since (fun o => o.isAnswer name) (fun o => o.dropsSenders platform name) history := by
  induction history using List.reverseRecOn with
  | nil => simp [ofObservations, initial, sendersNamed, Since.not_nil]
  | append_singleton history observation ih =>
      rw [ofObservations_snoc, Since.snoc, ← ih]
      cases observation with
      | announced item =>
          simp [record, Observation.isAnswer, Observation.dropsSenders,
            Observation.isWithdrawal]
      | other =>
          simp [record, Observation.isAnswer, Observation.dropsSenders,
            Observation.isWithdrawal]
      | answered camera address port txtData =>
          rw [record, sendersNamed, List.filter_append, ← sendersNamed]
          by_cases hname : camera = name <;>
            simp [hname, RPIVideoSender.new, Observation.isAnswer, Observation.dropsSenders,
              Observation.isWithdrawal]
      | withdrawn item =>
          simp only [record, Observation.isAnswer, Observation.dropsSenders,
            Observation.isWithdrawal]
          by_cases hname : item.name = name
          · subst hname
            rw [sendersNamed_withdraw_self]
            cases platform <;> simp
          · rw [sendersNamed_withdraw_other _ _ hname]
            simp [hname]

/-- The embedded backend never drops a sender. -/
theorem sendersNamed_android_iff (history : List Observation) (name : String) :
    sendersNamed name (ofObservations .android history).senders ≠ [] ↔
      ∃ o ∈ history, o.isAnswer name := by
  rw [sendersNamed_iff, Since.iff_exists]
  simp [Observation.dropsSenders]

/-- A name is shown exactly while it was answered with a stream and not
withdrawn since. -/
theorem camerasNamed_iff (platform : Platform) (history : List Observation) (name : String) :
    camerasNamed name (shownBy (ofObservations platform history).signals) ≠ [] ↔
      Since (fun o => o.isRtspAnswer name) (fun o => o.isWithdrawal name) history := by
  induction history using List.reverseRecOn with
  | nil => simp [ofObservations, initial, shownBy, camerasNamed, Since.not_nil]
  | append_singleton history observation ih =>
      rw [Since.snoc, ← ih]
      cases observation with
      | announced item =>
          simp [ofObservations_snoc, record, Observation.isRtspAnswer, Observation.isWithdrawal]
      | other =>
          simp [ofObservations_snoc, record, Observation.isRtspAnswer, Observation.isWithdrawal]
      | answered camera address port txtData =>
          rw [ofObservations_snoc, shownBy_answered, camerasNamed, List.filter_append,
            ← camerasNamed, ← camerasNamed, camerasNamed_answerCameras]
          by_cases hname : camera = name <;>
            by_cases hrtsp : (txtMap txtData).contains "rtsp" <;>
              simp [hname, hrtsp, answerCameras, Observation.isRtspAnswer,
                Observation.isWithdrawal]
      | withdrawn item =>
          rw [shownBy_withdrawn]
          by_cases hname : item.name = name
          · subst hname
            rw [camerasNamed_remove_self]
            simp [Observation.isRtspAnswer, Observation.isWithdrawal]
          · rw [camerasNamed_remove_other hname]
            simp [hname, Observation.isRtspAnswer, Observation.isWithdrawal]

/-- The observations about one camera. -/
def about (name : String) (history : List Observation) : List Observation :=
  history.filter fun observation => observation.camera? = some name

/-- The signals that carry one camera. -/
def signalsNamed (name : String) (signals : List Signal) : List Signal :=
  signals.filter fun signal => signal.camera? = some name

/-- What one camera has of the senders and the signals. -/
def restrict (name : String) (found : Discovered) : Discovered where
  senders := sendersNamed name found.senders
  signals := signalsNamed name found.signals

omit [LocalCodec] in
theorem restrict_withdraw_self (platform : Platform) (found : Discovered) (name : String) :
    (found.withdraw platform name).restrict name =
      (found.restrict name).withdraw platform name := by
  cases platform with
  | android => simp [withdraw, restrict, signalsNamed, Signal.camera?]
  | desktop =>
      simp only [withdraw, restrict, mk.injEq]
      constructor
      · simp [sendersNamed, List.filter_filter, Bool.and_comm]
      · simp [signalsNamed, sendersNamed, Signal.camera?]

omit [LocalCodec] in
theorem restrict_withdraw_other (platform : Platform) (found : Discovered)
    {name other : String} (hne : other ≠ name) :
    (found.withdraw platform other).restrict name = found.restrict name := by
  have hsenders := sendersNamed_withdraw_other platform found hne
  have hsignals : signalsNamed name (found.withdraw platform other).signals =
      signalsNamed name found.signals := by
    cases platform <;>
      simp [withdraw, signalsNamed, Signal.camera?, hne]
  simp [restrict, hsenders, hsignals]

theorem signalsNamed_rtspSignal (name other : String) (txtData : List (List UInt8)) :
    signalsNamed name (rtspSignal other txtData) =
      if other = name then rtspSignal other txtData else [] := by
  unfold signalsNamed
  split
  · rename_i hname
    apply List.filter_eq_self.mpr
    intro signal hsignal
    simp [rtspSignal_camera other txtData signal hsignal, hname]
  · rename_i hname
    apply List.filter_eq_nil_iff.mpr
    intro signal hsignal
    simp [rtspSignal_camera other txtData signal hsignal, hname]

theorem restrict_answered (platform : Platform) (found : Discovered)
    (name camera address : String) (port : Nat) (txtData : List (List UInt8)) :
    (found.record platform (.answered camera address port txtData)).restrict name =
      if camera = name then
        (found.restrict name).record platform (.answered camera address port txtData)
      else found.restrict name := by
  have hsignals := signalsNamed_rtspSignal name camera txtData
  simp only [restrict, record, sendersNamed, signalsNamed, List.filter_append] at hsignals ⊢
  rw [hsignals]
  by_cases hname : camera = name <;> simp [hname, RPIVideoSender.new]

/-- Recording an observation acts on a camera only when it is about it, and
then as if there were no other camera. -/
theorem restrict_record (platform : Platform) (found : Discovered) (name : String)
    (observation : Observation) :
    (found.record platform observation).restrict name =
      if observation.camera? = some name then
        (found.restrict name).record platform observation
      else found.restrict name := by
  cases observation with
  | announced item => simp [record]
  | other => simp [record, Observation.camera?]
  | answered camera address port txtData =>
      simp [restrict_answered, Observation.camera?]
  | withdrawn item =>
      simp only [record, Observation.camera?, Option.some.injEq]
      split
      · rename_i hname
        rw [hname]
        exact restrict_withdraw_self platform found name
      · rename_i hname
        exact restrict_withdraw_other platform found hname

/-- The senders and signals of a camera are those of the history restricted to
that camera: other cameras have no influence on them. -/
theorem restrict_ofObservations (platform : Platform) (history : List Observation)
    (name : String) :
    (ofObservations platform history).restrict name =
      ofObservations platform (about name history) := by
  induction history using List.reverseRecOn with
  | nil => rfl
  | append_singleton history observation ih =>
      rw [ofObservations_snoc, restrict_record, ih]
      by_cases hcamera : observation.camera? = some name <;>
        simp [hcamera, about, ofObservations, List.filter_append]

omit [LocalCodec] in
/-- The shown cameras of a name are those its own signals leave. -/
theorem camerasNamed_shownBy (name : String) (signals : List Signal) :
    camerasNamed name (shownBy signals) = shownBy (signalsNamed name signals) := by
  induction signals using List.reverseRecOn with
  | nil => rfl
  | append_singleton signals signal ih =>
      rw [shownBy_append, signalsNamed, List.filter_append, ← signalsNamed, shownBy_append,
        ← ih]
      cases signal with
      | jmriWebserverFound url => simp [showSignal, Signal.camera?]
      | rpiVideoSenderRtspFound url uniqueName videoName =>
          by_cases hname : uniqueName = name <;>
            simp [showSignal, Signal.camera?, camerasNamed, hname]
      | rpiVideoSenderRtspWentAway uniqueName =>
          simp only [List.foldl_cons, List.foldl_nil, showSignal]
          by_cases hname : uniqueName = name
          · subst hname
            rw [camerasNamed_remove_self]
            simp [Signal.camera?, showSignal, camerasNamed]
          · rw [camerasNamed_remove_other hname]
            simp [Signal.camera?, hname]

end Discovered

end NvmrDisplay.Discover
