import Mathlib.Data.List.Induction
import Mathlib.Data.List.Infix

/-!
Two temporal operators over finite histories. "Since": some label satisfies `p`
and no later one satisfies `q`. "Throughout": every label satisfies a condition
on itself and the labels before it. Both are read from the end, one label at a
time.
-/

namespace NvmrDisplay.Lib

variable {α β : Type*}

def Since (p q : α → Prop) (history : List α) : Prop :=
  ∃ before x after, history = before ++ x :: after ∧ p x ∧ ∀ y ∈ after, ¬ q y

namespace Since

variable {p q : α → Prop}

theorem not_nil : ¬ Since p q [] := by
  rintro ⟨before, x, after, h, _⟩
  simp at h

theorem snoc (history : List α) (x : α) :
    Since p q (history ++ [x]) ↔ p x ∨ (Since p q history ∧ ¬ q x) := by
  constructor
  · rintro ⟨before, y, after, h, hp, hq⟩
    rcases List.eq_nil_or_concat after with rfl | ⟨prior, last, rfl⟩
    · obtain ⟨_, hlast⟩ := List.append_inj' h rfl
      obtain rfl : x = y := by simpa using hlast
      exact Or.inl hp
    · rw [List.concat_eq_append] at h hq
      rw [← List.cons_append, ← List.append_assoc] at h
      obtain ⟨hhistory, hlast⟩ := List.append_inj' h rfl
      obtain rfl : x = last := by simpa using hlast
      refine Or.inr ⟨⟨before, y, prior, hhistory, hp, ?_⟩, hq x (by simp)⟩
      intro z hz
      exact hq z (by simp [hz])
  · rintro (hp | ⟨⟨before, y, after, rfl, hp, hq⟩, hx⟩)
    · exact ⟨history, x, [], rfl, hp, by simp⟩
    · refine ⟨before, y, after ++ [x], by simp, hp, ?_⟩
      intro z hz
      rcases List.mem_append.mp hz with hz | hz
      · exact hq z hz
      · obtain rfl := List.mem_singleton.mp hz
        exact hx

/-- Where nothing ends it, it only has to have happened. -/
theorem iff_exists (hq : ∀ x, ¬ q x) (history : List α) :
    Since p q history ↔ ∃ x ∈ history, p x := by
  constructor
  · rintro ⟨before, x, after, rfl, hp, _⟩
    exact ⟨x, by simp, hp⟩
  · rintro ⟨x, hx, hp⟩
    obtain ⟨before, after, rfl⟩ := List.append_of_mem hx
    exact ⟨before, x, after, rfl, hp, fun y _ => hq y⟩

/-- One pass over the history decides it. -/
theorem iff_foldl [DecidablePred p] [DecidablePred q] (history : List α) :
    Since p q history ↔
      history.foldl (fun held x => decide (p x) || (held && !decide (q x))) false = true := by
  induction history using List.reverseRecOn with
  | nil => simp [not_nil]
  | append_singleton history x ih => simp [snoc, ih]

instance [DecidablePred p] [DecidablePred q] (history : List α) :
    Decidable (Since p q history) :=
  decidable_of_iff _ (iff_foldl history).symm

end Since

/-- Every label of the history satisfies `P`, given the labels before it. -/
def Throughout (P : List α → α → Prop) (history : List α) : Prop :=
  ∀ before x after, history = before ++ x :: after → P before x

namespace Throughout

variable {P : List α → α → Prop}

theorem nil : Throughout P [] := by
  intro before x after h
  simp at h

theorem snoc (history : List α) (x : α) :
    Throughout P (history ++ [x]) ↔ Throughout P history ∧ P history x := by
  constructor
  · intro h
    refine ⟨?_, h history x [] rfl⟩
    rintro before y after rfl
    exact h before y (after ++ [x]) (by simp)
  · rintro ⟨hhistory, hx⟩ before y after h
    rcases List.eq_nil_or_concat after with rfl | ⟨prior, last, rfl⟩
    · obtain ⟨rfl, hlast⟩ := List.append_inj' h rfl
      obtain rfl : x = y := by simpa using hlast
      exact hx
    · rw [List.concat_eq_append, ← List.cons_append, ← List.append_assoc] at h
      obtain ⟨hprior, _⟩ := List.append_inj' h rfl
      exact hhistory before y prior hprior

theorem iff_getElem (history : List α) :
    Throughout P history ↔ ∀ i : Fin history.length, P (history.take i) (history.get i) := by
  constructor
  · intro h i
    refine h (history.take i) (history.get i) (history.drop (i + 1)) ?_
    rw [List.get_eq_getElem, ← List.drop_eq_getElem_cons i.isLt, List.take_append_drop]
  · rintro h before x after rfl
    have hx := h ⟨before.length, by simp⟩
    simpa using hx

instance [∀ before x, Decidable (P before x)] (history : List α) :
    Decidable (Throughout P history) :=
  decidable_of_iff _ (iff_getElem history).symm

end Throughout

end NvmrDisplay.Lib
