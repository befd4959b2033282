import NvmrDisplay.Discover.Cameras

/-!
Which cameras are announced. A browser reports a service for each interface
and protocol it is seen on, so a camera is announced while at least one of its
items has been reported new and not removed since.
-/

namespace NvmrDisplay.Discover

open Lib

/-- The item has been reported and not removed since. -/
def ItemAnnounced (item : ServiceItem) (history : List Observation) : Prop :=
  Since (fun o => o = .announced item) (fun o => o = .withdrawn item) history

instance (item : ServiceItem) (history : List Observation) :
    Decidable (ItemAnnounced item history) :=
  inferInstanceAs (Decidable (Since _ _ history))

/-- The camera is announced on some interface and protocol. -/
def Announced (name : String) (history : List Observation) : Prop :=
  ∃ item : ServiceItem, item.name = name ∧ ItemAnnounced item history

def Observation.announcedItem? : Observation → Option ServiceItem
  | .announced item => some item
  | _ => none

theorem announced_iff_mem (name : String) (history : List Observation) :
    Announced name history ↔
      ∃ item ∈ history.filterMap Observation.announcedItem?,
        item.name = name ∧ ItemAnnounced item history := by
  constructor
  · rintro ⟨item, hname, hitem⟩
    obtain ⟨before, o, after, rfl, rfl, hafter⟩ := hitem
    refine ⟨item, ?_, hname, before, _, after, rfl, rfl, hafter⟩
    exact List.mem_filterMap.mpr ⟨.announced item, by simp, rfl⟩
  · rintro ⟨item, _, hname, hitem⟩
    exact ⟨item, hname, hitem⟩

instance (name : String) (history : List Observation) : Decidable (Announced name history) :=
  decidable_of_iff _ (announced_iff_mem name history).symm

namespace Announced

/-- Only a withdrawal of a camera can end its announcement. -/
theorem snoc_of_not_withdrawal {name : String} {history : List Observation}
    (h : Announced name history) {observation : Observation}
    (hkeeps : ¬ observation.isWithdrawal name) : Announced name (history ++ [observation]) := by
  obtain ⟨item, hname, hitem⟩ := h
  refine ⟨item, hname, (Since.snoc history observation).mpr (Or.inr ⟨hitem, ?_⟩)⟩
  rintro rfl
  exact hkeeps (by simp [Observation.isWithdrawal, hname])

/-- Only an announcement of a camera can start it. -/
theorem of_snoc {name : String} {history : List Observation} {observation : Observation}
    (h : Announced name (history ++ [observation]))
    (hold : ∀ item, observation = .announced item → item.name ≠ name) :
    Announced name history := by
  obtain ⟨item, hname, hitem⟩ := h
  rcases (Since.snoc history observation).mp hitem with hnew | ⟨hitem, _⟩
  · exact absurd hname (hold item hnew)
  · exact ⟨item, hname, hitem⟩

end Announced

/-- What the removal handlers can take away from a camera: over D-Bus its
senders and their tiles, in the embedded backend the tiles only. -/
def Observation.givesRemovable [LocalCodec] (platform : Platform) (name : String)
    (observation : Observation) : Bool :=
  match platform with
  | .desktop => observation.isAnswer name
  | .android => observation.isRtspAnswer name

variable [LocalCodec]

/-- One item of a camera is withdrawn while another is still announced, and
the camera has been resolved since it was last withdrawn. -/
def Premature (platform : Platform) (before : List Observation) : Observation → Prop
  | .withdrawn item =>
      Announced item.name (before ++ [.withdrawn item]) ∧
        Since (fun o => o.givesRemovable platform item.name)
          (fun o => o.isWithdrawal item.name) before
  | _ => False

instance (platform : Platform) (before : List Observation) :
    (observation : Observation) → Decidable (Premature platform before observation)
  | .withdrawn _ => inferInstanceAs (Decidable (_ ∧ Since _ _ before))
  | .announced _ | .answered .. | .other => inferInstanceAs (Decidable False)

omit [LocalCodec]

/-- An answer comes for a camera that is not announced, or, in the embedded
backend, a camera that was ever answered loses its last announced item. -/
def Late (platform : Platform) (before : List Observation) : Observation → Prop
  | .answered name _ _ _ => ¬ Announced name before
  | .withdrawn item =>
      platform = .android ∧ ¬ Announced item.name (before ++ [.withdrawn item]) ∧
        ∃ o ∈ before, o.isAnswer item.name
  | _ => False

instance (platform : Platform) (before : List Observation) :
    (observation : Observation) → Decidable (Late platform before observation)
  | .answered .. => inferInstanceAs (Decidable (¬ Announced _ before))
  | .withdrawn _ => inferInstanceAs (Decidable (_ ∧ _ ∧ ∃ o ∈ before, _))
  | .announced _ | .other => inferInstanceAs (Decidable False)

end NvmrDisplay.Discover
