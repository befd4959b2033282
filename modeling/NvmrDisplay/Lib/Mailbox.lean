import Mathlib.Data.List.Nodup
import Mathlib.Data.List.Perm.Basic

/-!
A mailbox that loses what arrives while nobody listens. It keeps account of
every message: posted messages were handled, wait in the inbox or were dropped.
-/

namespace NvmrDisplay.Lib

structure Mailbox (μ : Type*) where
  posted : List μ
  handled : List μ
  inbox : List μ
  dropped : List μ
  accounts : posted.Perm (handled ++ (inbox ++ dropped))

namespace Mailbox

variable {μ : Type*}

def empty : Mailbox μ := ⟨[], [], [], [], List.Perm.refl _⟩

/-- A message reaches the inbox only while somebody listens. -/
def post (box : Mailbox μ) (listening : Bool) (m : μ) : Mailbox μ :=
  if listening then
    { box with
      posted := box.posted ++ [m]
      inbox := box.inbox ++ [m]
      accounts := by
        have h := box.accounts.append_right [m]
        refine h.trans ?_
        simp only [List.append_assoc]
        exact (List.perm_append_comm.append_left _).append_left _ }
  else
    { box with
      posted := box.posted ++ [m]
      dropped := box.dropped ++ [m]
      accounts := by simpa using box.accounts.append_right [m] }

/-- Handling the oldest message of the inbox. -/
def take (box : Mailbox μ) : Option (μ × Mailbox μ) :=
  match h : box.inbox with
  | [] => none
  | m :: rest => some (m,
      { box with
        handled := box.handled ++ [m]
        inbox := rest
        accounts := by simpa [h] using box.accounts })

@[simp] theorem post_posted (box : Mailbox μ) (listening : Bool) (m : μ) :
    (box.post listening m).posted = box.posted ++ [m] := by
  unfold post
  split <;> rfl

@[simp] theorem post_handled (box : Mailbox μ) (listening : Bool) (m : μ) :
    (box.post listening m).handled = box.handled := by
  unfold post
  split <;> rfl

theorem post_dropped (box : Mailbox μ) (listening : Bool) (m : μ) :
    (box.post listening m).dropped = if listening then box.dropped else box.dropped ++ [m] := by
  unfold post
  split <;> rfl

theorem take_eq_some {box box' : Mailbox μ} {m : μ} (h : box.take = some (m, box')) :
    box.inbox = m :: box'.inbox ∧ box'.handled = box.handled ++ [m] ∧
      box'.posted = box.posted ∧ box'.dropped = box.dropped := by
  unfold take at h
  split at h
  · cases h
  · rename_i first rest hinbox
    obtain ⟨rfl, rfl⟩ := Prod.mk.inj (Option.some.inj h)
    exact ⟨hinbox, rfl, rfl, rfl⟩

/-- What is posted once is handled once. -/
theorem take_fresh {box box' : Mailbox μ} {m : μ} (hnodup : box.posted.Nodup)
    (h : box.take = some (m, box')) : m ∉ box.handled := by
  have hparts := List.nodup_append.mp (box.accounts.nodup_iff.mp hnodup)
  intro hhandled
  refine hparts.2.2 m hhandled m ?_ rfl
  rw [(take_eq_some h).1]
  exact List.mem_cons_self ..

theorem take_isSome (box : Mailbox μ) : box.take.isSome ↔ box.inbox ≠ [] := by
  unfold take
  split <;> simp_all

/-- Once the inbox is empty, what was posted was handled or dropped; posted
once, it was not both. -/
theorem all_handled_iff (box : Mailbox μ) (hnodup : box.posted.Nodup) (hinbox : box.inbox = [])
    (P : μ → Prop) :
    (∀ m ∈ box.posted, P m → m ∈ box.handled) ↔ ∀ m ∈ box.dropped, ¬ P m := by
  have hperm := box.accounts
  rw [hinbox, List.nil_append] at hperm
  have hdisjoint := (List.nodup_append.mp (hperm.nodup_iff.mp hnodup)).2.2
  constructor
  · intro hall m hdropped hm
    have hposted := hperm.mem_iff.mpr (List.mem_append_right _ hdropped)
    exact hdisjoint m (hall m hposted hm) m hdropped rfl
  · intro hnone m hposted hm
    rcases List.mem_append.mp (hperm.mem_iff.mp hposted) with hhandled | hdropped
    · exact hhandled
    · exact absurd hm (hnone m hdropped)

end Mailbox

end NvmrDisplay.Lib
