import Mathlib.Logic.Function.Basic

/-!
The few pieces of Qt the modelled code computes with. A `QMap` is read through
`find`, `contains` and `value` only, never iterated, so it is the function from
keys to stored values. `QString::fromLocal8Bit` depends on the locale of the
host and is a parameter of everything that decodes bytes.
-/

namespace NvmrDisplay

def QMap (κ υ : Type*) := κ → Option υ

namespace QMap

variable {κ υ : Type*}

def empty : QMap κ υ := fun _ => none

def find (map : QMap κ υ) (key : κ) : Option υ := map key

def contains (map : QMap κ υ) (key : κ) : Bool := (map.find key).isSome

def value (map : QMap κ υ) (key : κ) (defaultValue : υ) : υ :=
  (map.find key).getD defaultValue

variable [DecidableEq κ]

def insert (map : QMap κ υ) (key : κ) (stored : υ) : QMap κ υ :=
  Function.update map key (some stored)

def remove (map : QMap κ υ) (key : κ) : QMap κ υ :=
  Function.update map key none

@[simp] theorem find_insert (map : QMap κ υ) (key other : κ) (stored : υ) :
    (map.insert key stored).find other = if other = key then some stored else map.find other :=
  Function.update_apply map key (some stored) other

@[simp] theorem find_remove (map : QMap κ υ) (key other : κ) :
    (map.remove key).find other = if other = key then none else map.find other :=
  Function.update_apply map key none other

end QMap

/-- `std::remove_if` on a vector that nothing erases from afterwards: what is
kept moves to the front, and the places behind it keep what they held. -/
def QVector.removeIf {α : Type*} (vector : List α) (p : α → Bool) : List α :=
  vector.filter (fun x => !p x) ++ vector.drop (vector.filter fun x => !p x).length

theorem QVector.mem_of_mem_removeIf {α : Type*} {vector : List α} {p : α → Bool} {x : α}
    (h : x ∈ QVector.removeIf vector p) : x ∈ vector := by
  rcases List.mem_append.mp h with h | h
  · exact (List.mem_filter.mp h).1
  · exact List.mem_of_mem_drop h

theorem QVector.length_removeIf {α : Type*} (vector : List α) (p : α → Bool) :
    (QVector.removeIf vector p).length = vector.length := by
  have hkept := List.length_filter_le (fun x => !p x) vector
  rw [QVector.removeIf, List.length_append, List.length_drop]
  omega

theorem QVector.removeIf_map {α β : Type*} (vector : List α) (f : α → β) (p : β → Bool) :
    QVector.removeIf (vector.map f) p = (QVector.removeIf vector fun x => p (f x)).map f := by
  simp only [QVector.removeIf, List.filter_map, List.length_map, List.map_append, List.map_drop]
  rfl

/-- Nothing moves exactly if what is to be removed is at the end. -/
theorem QVector.removeIf_eq_self_iff {α : Type*} (vector : List α) (p : α → Bool) :
    QVector.removeIf vector p = vector ↔ vector.Pairwise fun x later => p x → p later := by
  constructor
  · intro hsame
    have hkept := List.filter_append (p := fun x => !p x)
      (vector.filter fun x => !p x) (vector.drop (vector.filter fun x => !p x).length)
    rw [QVector.removeIf] at hsame
    rw [hsame, List.filter_filter] at hkept
    simp only [Bool.and_self, List.self_eq_append_right, List.filter_eq_nil_iff] at hkept
    rw [← hsame, List.pairwise_append]
    refine ⟨?_, ?_, ?_⟩
    · refine List.pairwise_of_forall_mem_list ?_
      intro x hx later _ hp
      simp [hp] at hx
    · refine List.pairwise_of_forall_mem_list ?_
      intro x _ later hlater _
      simpa using hkept later hlater
    · intro x hx later _ hp
      simp [hp] at hx
  · intro hlast
    induction vector with
    | nil => rfl
    | cons x vector ih =>
        obtain ⟨hx, hlast⟩ := List.pairwise_cons.mp hlast
        cases hp : p x with
        | false =>
            have htail := ih hlast
            rw [QVector.removeIf] at htail ⊢
            simp [hp, htail]
        | true =>
            have hnone : (x :: vector).filter (fun x => !p x) = [] := by
              rw [List.filter_eq_nil_iff]
              intro later hlater
              rcases List.mem_cons.mp hlater with rfl | hlater
              · simp [hp]
              · simp [hx later hlater hp]
            rw [QVector.removeIf, hnone]
            rfl

/-- An `int` that wraps. -/
def int32 (n : Int) : Int := n.bmod 4294967296

/-- `QString::fromLocal8Bit` of the host. -/
class LocalCodec where
  fromLocal8Bit : List UInt8 → String

/-- The codec of a Latin-1 locale. -/
@[reducible] def LocalCodec.latin1 : LocalCodec where
  fromLocal8Bit bytes := String.ofList (bytes.map fun byte => Char.ofNat byte.toNat)

namespace QString

/-- `QString::split` with its default of keeping empty parts. -/
def split (text : String) (separator : Char) : List String :=
  (text.toList.splitOn separator).map String.ofList

def number (n : Int) : String := toString n

theorem toList_number (n : Int) : (number n).toList =
    match n with
    | .ofNat n => Nat.toDigits 10 n
    | .negSucc n => '-' :: Nat.toDigits 10 (n + 1) := by
  cases n with
  | ofNat n => exact Nat.toList_repr
  | negSucc n =>
      have hsigned : (number (.negSucc n)).toList = "-".toList ++ (n + 1).repr.toList :=
        String.toList_append
      rw [hsigned, Nat.toList_repr]
      rfl

theorem toDigits_injective {n m : Nat} (h : Nat.toDigits 10 n = Nat.toDigits 10 m) : n = m := by
  rw [← @Nat.ofDigitChars_ten_toDigits n, h, Nat.ofDigitChars_ten_toDigits]

/-- Numbers print apart: the digits give the number back, and a sign is no digit. -/
theorem number_injective {n m : Int} (h : number n = number m) : n = m := by
  have hsign (n : Nat) (digits : List Char) : Nat.toDigits 10 n ≠ '-' :: digits := by
    intro heq
    have hdigit := @Nat.isDigit_of_mem_toDigits 10 n '-' (by decide) (by decide)
      (heq ▸ List.mem_cons_self ..)
    exact absurd hdigit (by decide)
  have hlists := congrArg String.toList h
  rw [toList_number, toList_number] at hlists
  cases n with
  | ofNat n =>
      cases m with
      | ofNat m => exact congrArg Int.ofNat (toDigits_injective hlists)
      | negSucc m => exact absurd hlists (hsign n _)
  | negSucc n =>
      cases m with
      | ofNat m => exact absurd hlists.symm (hsign m _)
      | negSucc m =>
          have hsucc := toDigits_injective (List.cons.inj hlists).2
          exact congrArg Int.negSucc (Nat.succ.inj hsucc)

end QString

end NvmrDisplay
