import Mathlib.Data.List.Induction

/-!
Machines with labelled partial steps. A step that is not enabled gives `none`,
and a run is a list of labels whose steps are all enabled. Invariants may speak
of the labels read so far, so a fact about the history needs no extra state.
-/

namespace NvmrDisplay.Lib

structure Machine (σ ε : Type*) where
  init : σ
  step : σ → ε → Option σ

namespace Machine

variable {σ ε τ α : Type*} (m : Machine σ ε)

def runFrom (s : σ) : List ε → Option σ
  | [] => some s
  | e :: es => (m.step s e).bind fun next => runFrom next es

def run (es : List ε) : Option σ := m.runFrom m.init es

@[simp] theorem run_nil : m.run [] = some m.init := rfl

theorem runFrom_cons (s : σ) (e : ε) (es : List ε) (s' : σ) :
    m.runFrom s (e :: es) = some s' ↔
      ∃ next, m.step s e = some next ∧ m.runFrom next es = some s' :=
  Option.bind_eq_some_iff

theorem runFrom_append (s : σ) (es fs : List ε) :
    m.runFrom s (es ++ fs) = (m.runFrom s es).bind fun middle => m.runFrom middle fs := by
  induction es generalizing s with
  | nil => rfl
  | cons e es ih =>
      simp only [List.cons_append, runFrom]
      cases m.step s e with
      | none => rfl
      | some next => exact ih next

theorem run_append (es fs : List ε) :
    m.run (es ++ fs) = (m.run es).bind fun middle => m.runFrom middle fs :=
  m.runFrom_append m.init es fs

theorem run_snoc (es : List ε) (e : ε) (s' : σ) :
    m.run (es ++ [e]) = some s' ↔ ∃ s, m.run es = some s ∧ m.step s e = some s' := by
  rw [run_append, Option.bind_eq_some_iff]
  simp [runFrom]

theorem run_split {es fs : List ε} {s : σ} (h : m.run (es ++ fs) = some s) :
    ∃ middle, m.run es = some middle ∧ m.runFrom middle fs = some s := by
  rw [run_append] at h
  exact Option.bind_eq_some_iff.mp h

/-- Every prefix of a run is a run. -/
theorem run_of_prefix {es fs : List ε} {s : σ} (h : m.run fs = some s) (hp : es <+: fs) :
    ∃ middle, m.run es = some middle := by
  obtain ⟨rest, rfl⟩ := hp
  obtain ⟨middle, hmiddle, _⟩ := m.run_split h
  exact ⟨middle, hmiddle⟩

/-- The induction rule for runs: what holds initially and survives every
enabled step holds after every run, together with its history. -/
theorem run_induction {P : List ε → σ → Prop} (hinit : P [] m.init)
    (hstep : ∀ es s e s', m.run es = some s → P es s → m.step s e = some s' →
      P (es ++ [e]) s') :
    ∀ es s, m.run es = some s → P es s := by
  intro es
  induction es using List.reverseRecOn with
  | nil =>
      intro s h
      obtain rfl := Option.some.inj h
      exact hinit
  | append_singleton es e ih =>
      intro s' h
      obtain ⟨s, hs, he⟩ := (m.run_snoc es e s').mp h
      exact hstep es s e s' hs (ih s hs) he

/-- A machine that accepts every label at any time. -/
def total (init : σ) (handle : σ → ε → σ) : Machine σ ε :=
  ⟨init, fun s e => some (handle s e)⟩

theorem run_total (init : σ) (handle : σ → ε → σ) (es : List ε) :
    (total init handle).run es = some (es.foldl handle init) := by
  induction es using List.reverseRecOn with
  | nil => rfl
  | append_singleton es e ih =>
      rw [List.foldl_append]
      exact ((total init handle).run_snoc es e _).mpr ⟨_, ih, rfl⟩

/-- `view` projects the machine onto a smaller one: labels with no image leave
the view alone, the others act on it as their image does. -/
structure Projects (small : Machine τ α) (view : σ → τ) (image : ε → Option α) :
    Prop where
  init : view m.init = small.init
  silent : ∀ s e s', m.step s e = some s' → image e = none → view s' = view s
  visible : ∀ s e s' a, m.step s e = some s' → image e = some a →
    small.step (view s) a = some (view s')

variable {m} {small : Machine τ α} {view : σ → τ} {image : ε → Option α}

/-- The projection of a run is a run of the small machine. Labels that are
invisible in one view cannot influence it, so two runs with the same visible
labels end in the same view. -/
theorem Projects.run (h : m.Projects small view image) (es : List ε) (s : σ)
    (hrun : m.run es = some s) : small.run (es.filterMap image) = some (view s) := by
  refine m.run_induction (P := fun es s => small.run (es.filterMap image) = some (view s))
    ?_ ?_ es s hrun
  · simp [h.init]
  · intro es s e s' _ ih hstep
    rw [List.filterMap_append]
    cases himage : image e with
    | none =>
        simp only [List.filterMap_cons, himage, List.filterMap_nil, List.append_nil]
        rw [h.silent s e s' hstep himage, ih]
    | some a =>
        simp only [List.filterMap_cons, himage, List.filterMap_nil]
        exact (small.run_snoc _ a _).mpr ⟨view s, ih, h.visible s e s' a hstep himage⟩

/-- Conversely, where a label is enabled whenever its image is, and labels
without an image are always enabled, a run of the small machine lifts. -/
theorem Projects.lift (h : m.Projects small view image) (es : List ε) (v : τ)
    (hsilent : ∀ e ∈ es, image e = none → ∀ s, ∃ s', m.step s e = some s')
    (hvisible : ∀ s e a, image e = some a → (small.step (view s) a).isSome →
      ∃ s', m.step s e = some s')
    (hrun : small.run (es.filterMap image) = some v) : ∃ s, m.run es = some s := by
  induction es using List.reverseRecOn generalizing v with
  | nil => exact ⟨m.init, rfl⟩
  | append_singleton es e ih =>
      rw [List.filterMap_append] at hrun
      have hearlier : ∀ e' ∈ es, image e' = none → ∀ s, ∃ s', m.step s e' = some s' :=
        fun e' he' => hsilent e' (List.mem_append_left _ he')
      cases himage : image e with
      | none =>
          simp only [List.filterMap_cons, himage, List.filterMap_nil, List.append_nil] at hrun
          obtain ⟨s, hs⟩ := ih v hearlier hrun
          obtain ⟨s', hs'⟩ := hsilent e (by simp) himage s
          exact ⟨s', (m.run_snoc es e s').mpr ⟨s, hs, hs'⟩⟩
      | some a =>
          simp only [List.filterMap_cons, himage, List.filterMap_nil] at hrun
          obtain ⟨u, hu, hstep⟩ := (small.run_snoc _ a v).mp hrun
          obtain ⟨s, hs⟩ := ih u hearlier hu
          have hview : view s = u := by
            have := h.run es s hs
            rw [hu] at this
            exact (Option.some.inj this).symm
          obtain ⟨s', hs'⟩ := hvisible s e a himage (by simp [hview, hstep])
          exact ⟨s', (m.run_snoc es e s').mpr ⟨s, hs, hs'⟩⟩

end Machine

end NvmrDisplay.Lib
