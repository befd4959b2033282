import Mathlib.Data.List.Basic
import Mathlib.Tactic.SplitIfs

/-!
Loops of the form `for (i = 0; i < length; i++) body` whose bound is read again
before every iteration. A body that shortens the list it walks over moves the
remaining elements under the index, so such a loop may skip elements. The
lemmas below say what the loop computes when the bound stays put and when the
list has at most one element.
-/

namespace NvmrDisplay.Lib.IndexLoop

variable {σ α : Type*}

/-- The loop from index `i` on, for at most `fuel` iterations. -/
def runFrom (length : σ → Nat) (body : Nat → σ → σ) : Nat → Nat → σ → σ
  | 0, _, s => s
  | fuel + 1, i, s =>
      if i < length s then runFrom length body fuel (i + 1) (body i s) else s

/-- The whole loop. The initial bound is enough fuel for every body that never
lengthens the list, see `run_stops`. -/
def run (length : σ → Nat) (body : Nat → σ → σ) (s : σ) : σ :=
  runFrom length body (length s) 0 s

theorem runFrom_of_le (length : σ → Nat) (body : Nat → σ → σ) (fuel i : Nat) (s : σ)
    (h : length s ≤ i) : runFrom length body fuel i s = s := by
  cases fuel with
  | zero => rfl
  | succ fuel => simp [runFrom, Nat.not_lt.mpr h]

/-- More fuel than the distance to the bound changes nothing: the loop has left
through its own guard, not by running out of fuel. -/
theorem runFrom_enough (length : σ → Nat) (body : Nat → σ → σ)
    (hbody : ∀ i s, length (body i s) ≤ length s) (fuel extra i : Nat) (s : σ)
    (h : length s ≤ i + fuel) :
    runFrom length body (fuel + extra) i s = runFrom length body fuel i s := by
  induction fuel generalizing i s with
  | zero => simpa [runFrom] using runFrom_of_le length body extra i s (by omega)
  | succ fuel ih =>
      rw [Nat.add_right_comm]
      simp only [runFrom]
      split_ifs with hi
      · have := hbody i s
        exact ih (i + 1) (body i s) (by omega)
      · rfl

theorem run_stops (length : σ → Nat) (body : Nat → σ → σ)
    (hbody : ∀ i s, length (body i s) ≤ length s) (extra : Nat) (s : σ) :
    runFrom length body (length s + extra) 0 s = run length body s :=
  runFrom_enough length body hbody (length s) extra 0 s (by omega)

theorem run_of_empty (length : σ → Nat) (body : Nat → σ → σ) (s : σ)
    (h : length s = 0) : run length body s = s :=
  runFrom_of_le length body _ 0 s (by omega)

/-- Over a one-element list the body runs exactly once. -/
theorem run_of_single (length : σ → Nat) (body : Nat → σ → σ) (s : σ)
    (h : length s = 1) : run length body s = body 0 s := by
  simp [run, h, runFrom]

/-- The body of a loop that looks at a fixed list and collects what passes a test. -/
def collect (xs : List α) (p : α → Bool) (i : Nat) (found : List α) : List α :=
  match xs[i]? with
  | some x => if p x then found ++ [x] else found
  | none => found

private theorem runFrom_collect (xs : List α) (p : α → Bool) (fuel i : Nat)
    (found : List α) (h : xs.length = i + fuel) :
    runFrom (fun _ => xs.length) (collect xs p) fuel i found =
      found ++ (xs.drop i).filter p := by
  induction fuel generalizing i found with
  | zero => simp [runFrom, List.drop_eq_nil_of_le (by omega : xs.length ≤ i)]
  | succ fuel ih =>
      have hi : i < xs.length := by omega
      simp only [runFrom, hi, if_true]
      rw [ih (i + 1) _ (by omega), List.drop_eq_getElem_cons hi, List.filter_cons]
      simp only [collect, List.getElem?_eq_getElem hi]
      split_ifs <;> simp

/-- With the list left alone no element is skipped: the loop is a filter. -/
theorem run_collect (xs : List α) (p : α → Bool) (found : List α) :
    run (fun _ => xs.length) (collect xs p) found = found ++ xs.filter p := by
  simpa [run] using runFrom_collect xs p xs.length 0 found (by omega)

end NvmrDisplay.Lib.IndexLoop
