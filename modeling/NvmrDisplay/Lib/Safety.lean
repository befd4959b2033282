import NvmrDisplay.Lib.History
import NvmrDisplay.Lib.Machine

/-!
Properties of every state along a run, and of every pair of states along it.
Both reduce to a condition on the single labels of the run: a state property to
the condition under which one step preserves it, a relation between states to
the condition under which one step stays within it.
-/

namespace NvmrDisplay.Lib

variable {σ ε α : Type*}

namespace Machine

variable (m : Machine σ ε)

/-- `P` holds in every state of the run, given the labels that led there. -/
def Always (P : List ε → σ → Prop) (es : List ε) : Prop :=
  ∀ before s, before <+: es → m.run before = some s → P before s

theorem always_snoc {P : List ε → σ → Prop} (es : List ε) (e : ε) :
    m.Always P (es ++ [e]) ↔
      m.Always P es ∧ ∀ s, m.run (es ++ [e]) = some s → P (es ++ [e]) s := by
  constructor
  · intro h
    constructor
    · intro before s hbefore hrun
      exact h before s (hbefore.trans (List.prefix_append es [e])) hrun
    · intro s hrun
      exact h (es ++ [e]) s (List.prefix_refl _) hrun
  · rintro ⟨hes, he⟩ before s hbefore hrun
    rcases List.prefix_concat_iff.mp hbefore with rfl | hbefore
    · exact he s hrun
    · exact hes before s hbefore hrun

/-- The exact condition for a safety property that is too weak to carry itself:
`I` is kept by the labels that satisfy `C` and yields `P`, and the first label
that does not satisfy `C` breaks `P`. -/
theorem always_iff_of_invariant {P I : List ε → σ → Prop} {C : List ε → ε → Prop}
    (hinit : P [] m.init) (hinv : I [] m.init)
    (hkeep : ∀ es s e s', m.run es = some s → I es s → m.step s e = some s' → C es e →
      I (es ++ [e]) s' ∧ P (es ++ [e]) s')
    (hbreak : ∀ es s e s', m.run es = some s → I es s → m.step s e = some s' → ¬ C es e →
      ¬ P (es ++ [e]) s') :
    ∀ es s, m.run es = some s → (m.Always P es ↔ Throughout C es) := by
  suffices h : ∀ es s, m.run es = some s →
      (m.Always P es ↔ Throughout C es) ∧ (Throughout C es → I es s) by
    intro es s hrun
    exact (h es s hrun).1
  refine m.run_induction (P := fun es s =>
    (m.Always P es ↔ Throughout C es) ∧ (Throughout C es → I es s)) ?_ ?_
  · refine ⟨iff_of_true ?_ Throughout.nil, fun _ => hinv⟩
    intro before s hbefore hrun
    obtain rfl := List.prefix_nil.mp hbefore
    obtain rfl := Option.some.inj hrun
    exact hinit
  · rintro es s e s' hrun ⟨hiff, hearlier⟩ he
    have hrun' : m.run (es ++ [e]) = some s' := (m.run_snoc es e s').mpr ⟨s, hrun, he⟩
    constructor
    · rw [m.always_snoc, Throughout.snoc, hiff]
      refine and_congr_right fun hes => ?_
      constructor
      · intro hP
        by_contra hC
        exact hbreak es s e s' hrun (hearlier hes) he hC (hP s' hrun')
      · intro hC t ht
        obtain rfl : s' = t := Option.some.inj (hrun'.symm.trans ht)
        exact (hkeep es s e s' hrun (hearlier hes) he hC).2
    · intro hes
      obtain ⟨hes, hC⟩ := (Throughout.snoc es e).mp hes
      exact (hkeep es s e s' hrun (hearlier hes) he hC).1

/-- A safety property that carries itself: where a step from a good state leads
to a good state just when its label satisfies `C`, a run is good throughout just
when all its labels satisfy `C`. -/
theorem always_iff_throughout {P : List ε → σ → Prop} {C : List ε → ε → Prop}
    (hinit : P [] m.init)
    (hstep : ∀ es s e s', m.run es = some s → P es s → m.step s e = some s' →
      (P (es ++ [e]) s' ↔ C es e)) :
    ∀ es s, m.run es = some s → (m.Always P es ↔ Throughout C es) := by
  refine m.always_iff_of_invariant (I := P) hinit hinit ?_ ?_
  · intro es s e s' hrun hs he hC
    have hP := (hstep es s e s' hrun hs he).mpr hC
    exact ⟨hP, hP⟩
  · intro es s e s' hrun hs he hC hP
    exact hC ((hstep es s e s' hrun hs he).mp hP)

/-- For how many states up to the end of the run `p` has held. -/
def heldFor (p : σ → Bool) (es : List ε) : Nat :=
  (es.inits.reverse.takeWhile fun before => (m.run before).any p).length

theorem heldFor_snoc (p : σ → Bool) (es : List ε) (e : ε) (s' : σ)
    (hrun : m.run (es ++ [e]) = some s') :
    m.heldFor p (es ++ [e]) = if p s' then m.heldFor p es + 1 else 0 := by
  have hinits : (es ++ [e]).inits.reverse = (es ++ [e]) :: es.inits.reverse := by
    simp [List.inits_append]
  unfold heldFor
  rw [hinits, List.takeWhile_cons, hrun, Option.any_some]
  split
  · rw [List.length_cons]
  · rw [List.length_nil]

theorem heldFor_pos_iff (p : σ → Bool) (es : List ε) (s : σ) (hrun : m.run es = some s) :
    0 < m.heldFor p es ↔ p s = true := by
  rcases List.eq_nil_or_concat es with rfl | ⟨prior, e, rfl⟩
  · obtain rfl := Option.some.inj hrun
    cases hp : p m.init with
    | true => simp [heldFor, hp]
    | false => simp [heldFor, hp]
  · rw [List.concat_eq_append] at hrun ⊢
    rw [m.heldFor_snoc p prior e s hrun]
    cases p s with
    | true => exact iff_of_true (Nat.succ_pos _) rfl
    | false => exact iff_of_false (Nat.lt_irrefl 0) Bool.false_ne_true

/-- Between any two states of the run with `G` throughout, `K` holds. -/
def KeptWhile (G : List ε → Prop) (K : σ → σ → Prop) (es : List ε) : Prop :=
  ∀ before middle s s', before ++ middle <+: es →
    (∀ during, during <+: middle → G (before ++ during)) →
    m.run before = some s → m.run (before ++ middle) = some s' → K s s'

/-- For a preorder it is enough to look at single steps. -/
theorem keptWhile_iff_step {G : List ε → Prop} {K : σ → σ → Prop} (hrefl : ∀ s, K s s)
    (htrans : ∀ a b c, K a b → K b c → K a c) (es : List ε) :
    m.KeptWhile G K es ↔
      ∀ before e s s', before ++ [e] <+: es → G before → G (before ++ [e]) →
        m.run before = some s → m.step s e = some s' → K s s' := by
  constructor
  · intro h before e s s' hprefix hbefore hafter hrun hstep
    refine h before [e] s s' hprefix ?_ hrun ((m.run_snoc before e s').mpr ⟨s, hrun, hstep⟩)
    intro during hduring
    rcases List.prefix_concat_iff.mp (show during <+: [] ++ [e] from hduring) with rfl | hduring
    · exact hafter
    · obtain rfl := List.prefix_nil.mp hduring
      simpa using hbefore
  · intro h before middle
    induction middle using List.reverseRecOn with
    | nil =>
        intro s s' _ _ hrun hrun'
        obtain rfl : s = s' := by simpa [hrun] using hrun'
        exact hrefl s
    | append_singleton middle e ih =>
        intro s s' hprefix hguard hrun hrun'
        rw [← List.append_assoc] at hprefix hrun'
        obtain ⟨u, hu, hstep⟩ := (m.run_snoc _ e s').mp hrun'
        have hlast := hguard (middle ++ [e]) (List.prefix_refl _)
        rw [← List.append_assoc] at hlast
        refine htrans s u s' ?_ ?_
        · refine ih s u ((List.prefix_append _ _).trans hprefix) ?_ hrun hu
          intro during hduring
          exact hguard during (hduring.trans (List.prefix_append middle [e]))
        · exact h _ e u s' hprefix (hguard middle (List.prefix_append middle [e])) hlast
            hu hstep

/-- The exact condition for relations kept along a run: each step keeps them
just when its label satisfies `C`. -/
theorem keptWhile_iff_throughout {ι : Type*} {G : ι → List ε → Prop}
    {K : ι → σ → σ → Prop} {C : List ε → ε → Prop} (hrefl : ∀ i s, K i s s)
    (htrans : ∀ i a b c, K i a b → K i b c → K i a c)
    (hstep : ∀ es s e s', m.run es = some s → m.step s e = some s' →
      ((∀ i, G i es → G i (es ++ [e]) → K i s s') ↔ C es e))
    (es : List ε) (final : σ) (hrun : m.run es = some final) :
    (∀ i, m.KeptWhile (G i) (K i) es) ↔ Throughout C es := by
  simp only [fun i => m.keptWhile_iff_step (G := G i) (hrefl i) (htrans i) es]
  constructor
  · rintro h before e after rfl
    have hprefix : before ++ [e] <+: before ++ e :: after := ⟨after, by simp⟩
    obtain ⟨s', hs'⟩ := m.run_of_prefix hrun hprefix
    obtain ⟨s, hs, he⟩ := (m.run_snoc before e s').mp hs'
    refine (hstep before s e s' hs he).mp ?_
    intro i hbefore hafter
    exact h i before e s s' hprefix hbefore hafter hs he
  · rintro h i before e s s' ⟨after, rfl⟩ hbefore hafter hs he
    exact (hstep before s e s' hs he).mpr (h before e after (by simp)) i hbefore hafter

end Machine

/-- A condition on the images of a history is a condition on the history. -/
theorem Throughout.filterMap_iff {β : Type*} {C : List β → β → Prop} (f : α → Option β)
    (history : List α) :
    Throughout C (history.filterMap f) ↔
      Throughout (fun before x => ∀ b, f x = some b → C (before.filterMap f) b) history := by
  induction history using List.reverseRecOn with
  | nil => exact iff_of_true Throughout.nil Throughout.nil
  | append_singleton history x ih =>
      rw [Throughout.snoc, ← ih, List.filterMap_append]
      cases himage : f x with
      | none => simp [himage]
      | some b => simp [himage, Throughout.snoc]

end NvmrDisplay.Lib
