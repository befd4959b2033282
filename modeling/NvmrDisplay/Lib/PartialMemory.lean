import Mathlib.Data.List.Basic

/-!
Memories that are known in part. A cell that is not known may be written later;
what was read from the known cells stays true in every extension. A list is a
memory from some cell on, and appending to it extends it.
-/

namespace NvmrDisplay.Lib

variable {α : Type*}

abbrev PartialMemory (α : Type*) := Nat → Option α

namespace PartialMemory

/-- Every known cell is known with the same value. -/
def Extends (memory earlier : PartialMemory α) : Prop :=
  ∀ (cell : Nat) (value : α), earlier cell = some value → memory cell = some value

theorem Extends.trans {memory middle earlier : PartialMemory α} (h : memory.Extends middle)
    (hmiddle : middle.Extends earlier) : memory.Extends earlier :=
  fun cell value hvalue => h cell value (hmiddle cell value hvalue)

/-- The values from a cell on. -/
def Holds (memory : PartialMemory α) (cell : Nat) (values : List α) : Prop :=
  ∀ k value, values[k]? = some value → memory (cell + k) = some value

theorem Holds.extend {memory earlier : PartialMemory α} {cell : Nat} {values : List α}
    (h : earlier.Holds cell values) (hext : memory.Extends earlier) : memory.Holds cell values :=
  fun k value hvalue => hext _ value (h k value hvalue)

theorem holds_nil {memory : PartialMemory α} {cell : Nat} : memory.Holds cell [] := by
  intro k value hvalue
  cases hvalue

theorem holds_cons_iff {memory : PartialMemory α} {cell : Nat} {value : α} {values : List α} :
    memory.Holds cell (value :: values) ↔
      memory cell = some value ∧ memory.Holds (cell + 1) values := by
  constructor
  · intro h
    refine ⟨h 0 value rfl, ?_⟩
    intro k other hother
    have hcell := h (k + 1) other hother
    rwa [show cell + (k + 1) = cell + 1 + k by omega] at hcell
  · rintro ⟨hfirst, hrest⟩ k other hother
    cases k with
    | zero =>
        obtain rfl := Option.some.inj hother
        exact hfirst
    | succ k =>
        have hcell := hrest k other hother
        rwa [show cell + 1 + k = cell + (k + 1) by omega] at hcell

/-- The cells of a list from `floor` on. -/
def ofList (floor : Nat) (values : List α) : PartialMemory α :=
  fun cell => if cell < floor then none else values[cell]?

theorem ofList_eq_some_iff {floor : Nat} {values : List α} {cell : Nat} {value : α} :
    ofList floor values cell = some value ↔ floor ≤ cell ∧ values[cell]? = some value := by
  unfold ofList
  split
  · simp only [reduceCtorEq, false_iff]
    omega
  · rename_i h
    simp only [show floor ≤ cell by omega, true_and]

theorem ofList_append_extends (floor : Nat) (values more : List α) :
    (ofList floor (values ++ more)).Extends (ofList floor values) := by
  intro cell value hvalue
  obtain ⟨hfloor, hread⟩ := ofList_eq_some_iff.mp hvalue
  have hlt := (List.getElem?_eq_some_iff.mp hread).1
  exact ofList_eq_some_iff.mpr ⟨hfloor, by rwa [List.getElem?_append_left hlt]⟩

theorem ofList_extends_of_prefix {floor : Nat} {values longer : List α} (h : values <+: longer) :
    (ofList floor longer).Extends (ofList floor values) := by
  obtain ⟨more, rfl⟩ := h
  exact ofList_append_extends floor values more

/-- What was appended is there. -/
theorem holds_ofList_append {floor : Nat} {values : List α} (more : List α)
    (hfloor : floor ≤ values.length) :
    (ofList floor (values ++ more)).Holds values.length more := by
  intro k value hvalue
  refine ofList_eq_some_iff.mpr ⟨by omega, ?_⟩
  rwa [List.getElem?_append_right (by omega), Nat.add_sub_cancel_left]

/-- What a list holds is a part of it. -/
theorem Holds.take_drop {floor cell : Nat} {values stored : List α}
    (h : (ofList floor stored).Holds cell values) (hvalues : values ≠ []) :
    (stored.drop cell).take values.length = values ∧ cell + values.length ≤ stored.length := by
  have hread (k : Nat) (hk : k < values.length) : stored[cell + k]? = some values[k] :=
    (ofList_eq_some_iff.mp (h k values[k] (List.getElem?_eq_getElem hk))).2
  have hpos := List.length_pos_iff.mpr hvalues
  have hlast := (List.getElem?_eq_some_iff.mp (hread (values.length - 1) (by omega))).1
  refine ⟨?_, by omega⟩
  apply List.ext_getElem
  · rw [List.length_take, List.length_drop]
    omega
  · intro k hk hvalue
    rw [List.getElem_take, List.getElem_drop]
    exact (List.getElem?_eq_some_iff.mp (hread k hvalue)).2

end PartialMemory

end NvmrDisplay.Lib
