import NvmrDisplay.Lib.PartialMemory

/-!
Names on the wire as RFC 1035 lays them out: labels behind their lengths, up to
a zero byte or a pointer to an earlier place where the name goes on. What a
place reads as is stated on a memory that is known in part, so that a name that
can be read stays readable whatever is written after it.
-/

namespace NvmrDisplay.Lib.WireName

/-- A label behind its length. -/
def labelBytes (label : List UInt8) : List UInt8 := UInt8.ofNat label.length :: label

/-- A pointer to a cell. -/
def pointerBytes (target : Nat) : List UInt8 :=
  [UInt8.ofNat (192 + target / 256), UInt8.ofNat (target % 256)]

/-- The labels that a reader finds at a cell, how often it has to look at a
length byte and how many cells it passes before it follows a pointer. No pointer
goes to the header. -/
inductive ReadsAt (header : Nat) (memory : PartialMemory UInt8) :
    Nat → List (List UInt8) → Nat → Nat → Prop where
  | root {cell : Nat} : memory.Holds cell [0] → ReadsAt header memory cell [] 1 1
  | label {cell : Nat} {label : List UInt8} {labels : List (List UInt8)} {steps used : Nat} :
      0 < label.length → label.length ≤ 63 → memory.Holds cell (labelBytes label) →
        ReadsAt header memory (cell + (1 + label.length)) labels steps used →
          ReadsAt header memory cell (label :: labels) (steps + 1) (1 + label.length + used)
  | pointer {cell target : Nat} {labels : List (List UInt8)} {steps used : Nat} :
      header ≤ target → target < cell → target < 0x4000 →
        memory.Holds cell (pointerBytes target) →
        ReadsAt header memory target labels steps used →
          ReadsAt header memory cell labels (steps + 1) 2

variable {header : Nat}

theorem ReadsAt.extend {memory earlier : PartialMemory UInt8} {cell steps used : Nat}
    {labels : List (List UInt8)} (h : ReadsAt header earlier cell labels steps used)
    (hext : memory.Extends earlier) : ReadsAt header memory cell labels steps used := by
  induction h with
  | root hzero => exact .root (hzero.extend hext)
  | label hpos hlength hholds _ ih => exact .label hpos hlength (hholds.extend hext) ih
  | pointer hheader hbefore hsmall hholds _ ih =>
      exact .pointer hheader hbefore hsmall (hholds.extend hext) ih

/-- A place that reads as a name is known. -/
theorem ReadsAt.isSome {memory : PartialMemory UInt8} {cell steps used : Nat}
    {labels : List (List UInt8)} (h : ReadsAt header memory cell labels steps used) :
    ∃ value, memory cell = some value := by
  cases h with
  | root hholds => exact ⟨_, (PartialMemory.holds_cons_iff.mp hholds).1⟩
  | label _ _ hholds _ => exact ⟨_, (PartialMemory.holds_cons_iff.mp hholds).1⟩
  | pointer _ _ _ hholds _ => exact ⟨_, (PartialMemory.holds_cons_iff.mp hholds).1⟩

/-- The cells before a pointer are those of the labels. -/
theorem ReadsAt.used_le {memory : PartialMemory UInt8} {cell steps used : Nat}
    {labels : List (List UInt8)} (h : ReadsAt header memory cell labels steps used) :
    used ≤ (labels.flatMap labelBytes).length + 2 := by
  induction h with
  | root _ => omega
  | label _ _ _ _ ih =>
      rw [List.flatMap_cons, List.length_append, labelBytes, List.length_cons]
      omega
  | pointer _ _ _ _ _ _ => omega

/-- A reader that looks at a length byte for every label, and follows at most
one pointer before each and one at the end. -/
def Direct (labels : List (List UInt8)) (steps : Nat) : Prop := steps ≤ 2 * labels.length + 1

/-- A place where a label stands, so that a pointer to it adds no more than it may. -/
def AtLabel (labels : List (List UInt8)) (steps : Nat) : Prop := steps ≤ 2 * labels.length

theorem AtLabel.pointer {labels : List (List UInt8)} {steps : Nat} (h : AtLabel labels steps) :
    Direct labels (steps + 1) := by
  unfold AtLabel at h
  unfold Direct
  omega

theorem Direct.label {labels : List (List UInt8)} {steps : Nat} (h : Direct labels steps)
    (label : List UInt8) : AtLabel (label :: labels) (steps + 1) := by
  unfold Direct at h
  unfold AtLabel
  rw [List.length_cons]
  omega

theorem AtLabel.direct {labels : List (List UInt8)} {steps : Nat} (h : AtLabel labels steps) :
    Direct labels steps := Nat.le_succ_of_le h

end NvmrDisplay.Lib.WireName
