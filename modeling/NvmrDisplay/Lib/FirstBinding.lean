import Mathlib.Data.List.Nodup
import Mathlib.Logic.Function.Basic

/-!
Lists of bindings in which the first one for a key counts, as `List.lookup`
reads them. A map that is overwritten from the last binding to the first holds
the same bindings. Leaving out bindings with certain values changes what a list
says exactly if such a binding is the one that counts.
-/

namespace NvmrDisplay.Lib

variable {κ υ : Type*} [DecidableEq κ]

theorem lookup_cons_of_ne {key first : κ} (hne : key ≠ first) (stored : υ)
    (rest : List (κ × υ)) : ((first, stored) :: rest).lookup key = rest.lookup key := by
  rw [List.lookup_cons, beq_eq_false_iff_ne.mpr hne]

/-- Overwriting from the last binding to the first. -/
theorem foldr_update_eq_lookup (bindings : List (κ × υ)) (key : κ) :
    bindings.foldr
        (fun binding (map : κ → Option υ) => Function.update map binding.1 (some binding.2))
        (fun _ => none) key =
      bindings.lookup key := by
  induction bindings with
  | nil => rfl
  | cons binding rest ih =>
      obtain ⟨first, stored⟩ := binding
      rw [List.foldr_cons, Function.update_apply]
      by_cases hkey : key = first
      · rw [if_pos hkey, hkey, List.lookup_cons_self]
      · rw [if_neg hkey, lookup_cons_of_ne hkey]
        exact ih

theorem lookup_eq_some_iff_mem {bindings : List (κ × υ)}
    (hkeys : (bindings.map Prod.fst).Nodup) (key : κ) (value : υ) :
    bindings.lookup key = some value ↔ (key, value) ∈ bindings := by
  induction bindings with
  | nil => simp
  | cons binding rest ih =>
      obtain ⟨first, stored⟩ := binding
      simp only [List.map_cons, List.nodup_cons] at hkeys
      obtain ⟨hfirst, hrest⟩ := hkeys
      rw [List.mem_cons, Prod.mk.injEq]
      by_cases hkey : key = first
      · have hlater : (key, value) ∉ rest := by
          intro h
          exact hfirst (hkey ▸ List.mem_map_of_mem h)
        rw [hkey, List.lookup_cons_self, ← hkey]
        simp [hlater, eq_comm]
      · rw [lookup_cons_of_ne hkey, ih hrest]
        simp [hkey]

theorem lookup_filter_of_plain (plain : υ → Prop) [DecidablePred plain]
    (bindings : List (κ × υ)) (key : κ)
    (hplain : ∀ value, bindings.lookup key = some value → plain value) :
    (bindings.filter fun binding => plain binding.2).lookup key = bindings.lookup key := by
  induction bindings with
  | nil => rfl
  | cons binding rest ih =>
      obtain ⟨first, stored⟩ := binding
      by_cases hkey : key = first
      · subst hkey
        rw [List.lookup_cons_self] at hplain ⊢
        rw [List.filter_cons_of_pos (by simpa using hplain stored rfl), List.lookup_cons_self]
      · rw [lookup_cons_of_ne hkey] at hplain ⊢
        rw [List.filter_cons]
        split
        · rw [lookup_cons_of_ne hkey]
          exact ih hplain
        · exact ih hplain

/-- A list without the bindings of certain values reads the same exactly if
none of these is the first one for its key. -/
theorem lookup_filter_eq_iff (plain : υ → Prop) [DecidablePred plain]
    (bindings : List (κ × υ)) :
    (∀ key, (bindings.filter fun binding => plain binding.2).lookup key =
        bindings.lookup key) ↔
      ∀ key value, bindings.lookup key = some value → plain value := by
  constructor
  · intro h key value hvalue
    rw [← h key, List.lookup_eq_some_iff] at hvalue
    obtain ⟨before, after, hsplit, _⟩ := hvalue
    have hmem : (key, value) ∈ bindings.filter fun binding => plain binding.2 := by
      rw [hsplit]
      simp
    exact of_decide_eq_true (List.mem_filter.mp hmem).2
  · intro h key
    exact lookup_filter_of_plain plain bindings key (h key)

end NvmrDisplay.Lib
