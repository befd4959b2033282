import NvmrDisplay.Avahi.ResponseSched
import NvmrDisplay.Lib.History

/-!
What the response scheduler does to one response. Whatever else is scheduled, a
response waits, was seen a short while ago, or neither, and it moves from one to
the other as `ResponseLife.Lived` says. The lists of the scheduler, and the jobs
that are posted while a packet is filled, are gone at this level.
-/

namespace NvmrDisplay.Avahi.Dns

open Discover Lib

/-- Where a response stands. -/
inductive Phase where
  | idle
  | waiting (response : Response) (due : Nat)
  | recent (response : Response) (since : Nat)

/-- Where a response stands, and which queriers said they know it. -/
structure ResponseLife where
  phase : Phase
  known : AvahiAddress → Option (NormalRecord × Nat)

/-- What posting does to where a response stands. -/
def Phase.post (new : Response) (tv : Nat) : Phase → Phase
  | .idle | .recent _ _ => .waiting new tv
  | .waiting old due =>
      .waiting ⟨new.record, new.flushCache || old.flushCache⟩ (if tv < due then tv else due)

/-- The lives that a response can have had until now. -/
inductive ResponseLife.Lived : Nat → ResponseLife → List (Nat × ResponseEvent) → Prop where
  | start : Lived 0 ⟨.idle, fun _ => none⟩ []
  | wait {now later : Nat} {life : ResponseLife} {log : List (Nat × ResponseEvent)} :
      Lived now life log → now ≤ later → Lived later life log
  | forget {now since : Nat} {old : Response}
      {known : AvahiAddress → Option (NormalRecord × Nat)}
      {log : List (Nat × ResponseEvent)} :
      Lived now ⟨.recent old since, known⟩ log →
        since + AVAHI_RESPONSE_HISTORY_MSEC * 1000 ≤ now → Lived now ⟨.idle, known⟩ log
  | post {now due : Nat} {life : ResponseLife} {log : List (Nat × ResponseEvent)}
      (new : Response) :
      Lived now life log →
        (∀ old since, life.phase = .recent old since → old.covers new = false) →
        due ≤ now + (AVAHI_RESPONSE_DEFER_MSEC + AVAHI_RESPONSE_JITTER_MSEC) * 1000 →
        Lived now ⟨life.phase.post new due, life.known⟩ (log ++ [(now, .posted new)])
  | refuse {now since : Nat} {old new : Response}
      {known : AvahiAddress → Option (NormalRecord × Nat)} {log : List (Nat × ResponseEvent)}
      (querier : Option AvahiAddress) :
      Lived now ⟨.recent old since, known⟩ log → old.covers new = true →
        now < since + (AVAHI_RESPONSE_HISTORY_MSEC + 1) * 1000 →
        Lived now ⟨.recent old since, known⟩ (log ++ [(now, .refused new querier)])
  | refuseKnown {now since : Nat} {old : NormalRecord} {new : Response} {querier : AvahiAddress}
      {life : ResponseLife} {log : List (Nat × ResponseEvent)} :
      Lived now life log → life.known querier = some (old, since) →
        old.standsFor new.record = true → now ≤ since + AVAHI_RESPONSE_SUPPRESS_MSEC * 1000 →
        Lived now life (log ++ [(now, .refused new (some querier))])
  | finish {now due : Nat} {old : Response} {known : AvahiAddress → Option (NormalRecord × Nat)}
      {log : List (Nat × ResponseEvent)} (why : Done) :
      Lived now ⟨.waiting old due, known⟩ log →
        Lived now ⟨.recent old now, known⟩ (log ++ [(now, .done why old)])
  | receive {now : Nat} {life : ResponseLife} {log : List (Nat × ResponseEvent)} (new : Response) :
      Lived now life log → (∀ old due, life.phase ≠ .waiting old due) →
        Lived now ⟨.recent new now, life.known⟩ (log ++ [(now, .received new)])
  | keep {now due : Nat} {old new : Response}
      {known : AvahiAddress → Option (NormalRecord × Nat)} {log : List (Nat × ResponseEvent)} :
      Lived now ⟨.waiting old due, known⟩ log → new.covers old = false →
        Lived now ⟨.waiting old due, known⟩ (log ++ [(now, .received new), (now, .kept old)])
  | drop {now due : Nat} {old : Response} {known : AvahiAddress → Option (NormalRecord × Nat)}
      {log : List (Nat × ResponseEvent)} :
      Lived now ⟨.waiting old due, known⟩ log →
        Lived now ⟨.idle, known⟩ (log ++ [(now, .dropped old)])
  | learn {now : Nat} {life : ResponseLife} {log : List (Nat × ResponseEvent)}
      (record : NormalRecord) (querier : AvahiAddress) :
      Lived now life log →
        Lived now ⟨life.phase, Function.update life.known querier (some (record, now))⟩
          (log ++ [(now, .known record querier)])
  | unlearn {now since : Nat} {life : ResponseLife} {log : List (Nat × ResponseEvent)}
      {old : NormalRecord} {querier : AvahiAddress} :
      Lived now life log → life.known querier = some (old, since) →
        since + AVAHI_RESPONSE_SUPPRESS_MSEC * 1000 ≤ now →
        Lived now ⟨life.phase, Function.update life.known querier none⟩ log

namespace ResponseEvent

/-- The response that the scheduler remembers from now on. -/
def remembered : ResponseEvent → Option Response
  | .done _ response | .received response => some response
  | .posted _ | .refused _ _ | .kept _ | .known _ _ | .dropped _ => none

/-- The response that is asked for. -/
def demand : ResponseEvent → Option Response
  | .posted response | .kept response => some response
  | .refused _ _ | .done _ _ | .received _ | .known _ _ | .dropped _ => none

/-- Whether a scheduled response is settled. -/
def closes : ResponseEvent → Bool
  | .done _ _ | .dropped _ => true
  | .posted _ | .refused _ _ | .received _ | .kept _ | .known _ _ => false

end ResponseEvent

section Log

variable {t : Nat} {r : Response} {log between : List (Nat × ResponseEvent)}
  {event : Nat × ResponseEvent}

/-- The response that was remembered last, when, and what happened since. -/
def LastSeen (log : List (Nat × ResponseEvent)) (t : Nat) (r : Response)
    (between : List (Nat × ResponseEvent)) : Prop :=
  ∃ older event, log = older ++ (t, event) :: between ∧ event.remembered = some r ∧
    ∀ later ∈ between, later.2.remembered = none

/-- More was asked for than what was seen. -/
def Unanswered (r : Response) (between : List (Nat × ResponseEvent)) : Prop :=
  ∃ event ∈ between, ∃ d, event.2.demand = some d ∧ r.covers d = false

theorem LastSeen.of_snoc (h : LastSeen (log ++ [event]) t r between) :
    event.2.remembered = some r ∧ event.1 = t ∧ between = [] ∨
      event.2.remembered = none ∧ ∃ earlier, between = earlier ++ [event] ∧
        LastSeen log t r earlier := by
  obtain ⟨older, seen, hlog, hseen, hbetween⟩ := h
  rcases List.eq_nil_or_concat between with rfl | ⟨earlier, last, rfl⟩
  · obtain ⟨_, hlast⟩ := List.append_inj' hlog rfl
    obtain rfl := List.singleton_inj.mp hlast
    exact Or.inl ⟨hseen, rfl, rfl⟩
  · rw [List.concat_eq_append, ← List.cons_append, ← List.append_assoc] at hlog
    obtain ⟨rfl, hlast⟩ := List.append_inj' hlog rfl
    obtain rfl := List.singleton_inj.mp hlast
    rw [List.concat_eq_append] at hbetween
    refine Or.inr ⟨hbetween event (by simp), earlier, List.concat_eq_append, older, seen, rfl,
      hseen, ?_⟩
    intro later hlater
    exact hbetween later (List.mem_append_left _ hlater)

theorem LastSeen.snoc (h : LastSeen log t r between) (hevent : event.2.remembered = none) :
    LastSeen (log ++ [event]) t r (between ++ [event]) := by
  obtain ⟨older, seen, rfl, hseen, hbetween⟩ := h
  refine ⟨older, seen, ?_, hseen, ?_⟩
  · rw [List.append_assoc, List.cons_append]
  · intro later hlater
    rcases List.mem_append.mp hlater with hlater | hlater
    · exact hbetween later hlater
    · obtain rfl := List.mem_singleton.mp hlater
      exact hevent

theorem LastSeen.self (log : List (Nat × ResponseEvent)) (hevent : event.2.remembered = some r) :
    LastSeen (log ++ [event]) event.1 r [] :=
  ⟨log, event.2, rfl, hevent, fun _ hmem => absurd hmem List.not_mem_nil⟩

theorem Unanswered.snoc (h : Unanswered r between) (event : Nat × ResponseEvent) :
    Unanswered r (between ++ [event]) := by
  obtain ⟨other, hother, d, hdemand⟩ := h
  exact ⟨other, List.mem_append_left _ hother, d, hdemand⟩

end Log

namespace ResponseLife.Lived

variable {now : Nat} {life : ResponseLife} {log : List (Nat × ResponseEvent)}

/-- A response is sent again only a while after it was seen last, or if more was
asked for meanwhile. -/
def Spaced (before : List (Nat × ResponseEvent)) (event : Nat × ResponseEvent) : Prop :=
  (∃ r, event.2 = .done .sent r) → ∀ t r between, LastSeen before t r between →
    t + AVAHI_RESPONSE_HISTORY_MSEC * 1000 ≤ event.1 ∨ Unanswered r between

/-- What was seen last is still remembered, a while ago, or not enough. -/
def Remembers (now : Nat) (phase : Phase) (log : List (Nat × ResponseEvent)) : Prop :=
  ∀ t r between, LastSeen log t r between →
    phase = .recent r t ∨ t + AVAHI_RESPONSE_HISTORY_MSEC * 1000 ≤ now ∨ Unanswered r between

theorem remembers_of_forgotten {phase : Phase} (h : Remembers now phase log)
    (hphase : ∀ r t, phase = .recent r t → t + AVAHI_RESPONSE_HISTORY_MSEC * 1000 ≤ now)
    (other : Phase) : Remembers now other log := by
  intro t r between hlast
  rcases h t r between hlast with hrecent | hold
  · exact Or.inr (Or.inl (hphase r t hrecent))
  · exact Or.inr hold

theorem remembers_quiet {phase other : Phase} {event : Nat × ResponseEvent}
    (h : Remembers now phase log) (hevent : event.2.remembered = none)
    (hphase : ∀ r t, phase = .recent r t →
      other = phase ∨ ∃ d, event.2.demand = some d ∧ r.covers d = false) :
    Remembers now other (log ++ [event]) := by
  intro t r between hlast
  rcases hlast.of_snoc with ⟨hseen, _⟩ | ⟨_, earlier, rfl, hearlier⟩
  · rw [hevent] at hseen
    cases hseen
  · rcases h t r earlier hearlier with hrecent | hold | hunanswered
    · rcases hphase r t hrecent with rfl | ⟨d, hd⟩
      · exact Or.inl hrecent
      · exact Or.inr
          (Or.inr ⟨event, List.mem_append_right _ (List.mem_singleton_self _), d, hd⟩)
    · exact Or.inr (Or.inl hold)
    · exact Or.inr (Or.inr (hunanswered.snoc event))

theorem remembers_seen (log : List (Nat × ResponseEvent)) {event : ResponseEvent} {seen : Response}
    (hevent : event.remembered = some seen) :
    Remembers now (.recent seen now) (log ++ [(now, event)]) := by
  intro t r between hlast
  rcases hlast.of_snoc with ⟨hseen, rfl, _⟩ | ⟨hnone, _⟩
  · rw [hevent] at hseen
    obtain rfl := Option.some.inj hseen
    exact Or.inl rfl
  · rw [hevent] at hnone
    cases hnone

theorem append_pair (log : List (Nat × ResponseEvent)) (first second : Nat × ResponseEvent) :
    log ++ [first, second] = log ++ [first] ++ [second] := by
  rw [List.append_assoc, List.singleton_append]

/-- Responses are spaced, and the past is remembered so that they stay so. -/
theorem spaced_and_remembers (h : Lived now life log) :
    Throughout Spaced log ∧ Remembers now life.phase log := by
  induction h with
  | start =>
      refine ⟨Throughout.nil, ?_⟩
      rintro t r between ⟨older, event, hlog, _⟩
      exact absurd hlog.symm (List.append_ne_nil_of_right_ne_nil _ (List.cons_ne_nil _ _))
  | wait _ hle ih =>
      refine ⟨ih.1, ?_⟩
      intro t r between hlast
      rcases ih.2 t r between hlast with hrecent | hold | hunanswered
      · exact Or.inl hrecent
      · exact Or.inr (Or.inl (Nat.le_trans hold hle))
      · exact Or.inr (Or.inr hunanswered)
  | forget _ hle ih =>
      refine ⟨ih.1, remembers_of_forgotten ih.2 ?_ _⟩
      rintro r t hphase
      obtain ⟨_, rfl⟩ := Phase.recent.inj hphase
      exact hle
  | post new _ hcovers _ ih =>
      refine ⟨(Throughout.snoc _ _).mpr ⟨ih.1, ?_⟩, remembers_quiet ih.2 rfl ?_⟩
      · rintro ⟨r, hr⟩
        cases hr
      · intro r t hphase
        exact Or.inr ⟨new, rfl, hcovers r t hphase⟩
  | refuse querier _ _ _ ih =>
      refine ⟨(Throughout.snoc _ _).mpr ⟨ih.1, ?_⟩,
        remembers_quiet ih.2 rfl fun _ _ _ => Or.inl rfl⟩
      rintro ⟨r, hr⟩
      cases hr
  | refuseKnown _ _ _ _ ih =>
      refine ⟨(Throughout.snoc _ _).mpr ⟨ih.1, ?_⟩,
        remembers_quiet ih.2 rfl fun _ _ _ => Or.inl rfl⟩
      rintro ⟨r, hr⟩
      cases hr
  | finish why _ ih =>
      refine ⟨(Throughout.snoc _ _).mpr ⟨ih.1, ?_⟩, remembers_seen _ rfl⟩
      rintro _ t r between hlast
      rcases ih.2 t r between hlast with hrecent | hold
      · cases hrecent
      · exact hold
  | receive new _ _ ih =>
      refine ⟨(Throughout.snoc _ _).mpr ⟨ih.1, ?_⟩, remembers_seen _ rfl⟩
      rintro ⟨r, hr⟩
      cases hr
  | keep _ hcovers ih =>
      rw [append_pair]
      refine ⟨(Throughout.snoc _ _).mpr ⟨(Throughout.snoc _ _).mpr ⟨ih.1, ?_⟩, ?_⟩, ?_⟩
      · rintro ⟨r, hr⟩
        cases hr
      · rintro ⟨r, hr⟩
        cases hr
      · -- What was received does not cover what is still scheduled.
        intro t r between hlast
        rcases hlast.of_snoc with ⟨hseen, _⟩ | ⟨_, earlier, rfl, hearlier⟩
        · cases hseen
        · rcases hearlier.of_snoc with ⟨hseen, rfl, rfl⟩ | ⟨hnone, _⟩
          · obtain rfl := Option.some.inj hseen
            exact Or.inr (Or.inr ⟨_, List.mem_singleton_self _, _, rfl, hcovers⟩)
          · cases hnone
  | drop _ ih =>
      refine ⟨(Throughout.snoc _ _).mpr ⟨ih.1, ?_⟩, remembers_quiet ih.2 rfl ?_⟩
      · rintro ⟨r, hr⟩
        cases hr
      · intro r t hphase
        cases hphase
  | learn record querier _ ih =>
      refine ⟨(Throughout.snoc _ _).mpr ⟨ih.1, ?_⟩,
        remembers_quiet ih.2 rfl fun _ _ _ => Or.inl rfl⟩
      rintro ⟨r, hr⟩
      cases hr
  | unlearn _ _ _ ih => exact ih

/-- What was posted is scheduled for soon until it is settled. -/
def Answers (phase : Phase) (log : List (Nat × ResponseEvent)) : Prop :=
  ∀ before t r after, log = before ++ (t, .posted r) :: after →
    (∃ event ∈ after, event.2.closes = true) ∨
      ∃ scheduled due, phase = .waiting scheduled due ∧
        due ≤ t + (AVAHI_RESPONSE_DEFER_MSEC + AVAHI_RESPONSE_JITTER_MSEC) * 1000 ∧
          (r.flushCache = true → scheduled.flushCache = true)

/-- One more event. -/
theorem answers_snoc {phase other : Phase} {event : Nat × ResponseEvent} (h : Answers phase log)
    (hphase : event.2.closes = true ∨ ∀ scheduled due, phase = .waiting scheduled due →
      ∃ updated earlier, other = .waiting updated earlier ∧ earlier ≤ due ∧
        (scheduled.flushCache = true → updated.flushCache = true))
    (hposted : ∀ r, event.2 = .posted r → ∃ scheduled due, other = .waiting scheduled due ∧
      due ≤ event.1 + (AVAHI_RESPONSE_DEFER_MSEC + AVAHI_RESPONSE_JITTER_MSEC) * 1000 ∧
        (r.flushCache = true → scheduled.flushCache = true)) :
    Answers other (log ++ [event]) := by
  intro before t r after hlog
  rcases List.eq_nil_or_concat after with rfl | ⟨earlier, last, rfl⟩
  · obtain ⟨_, hlast⟩ := List.append_inj' hlog rfl
    obtain rfl := List.singleton_inj.mp hlast
    exact Or.inr (hposted r rfl)
  · rw [List.concat_eq_append, ← List.cons_append, ← List.append_assoc] at hlog
    obtain ⟨hbefore, hlast⟩ := List.append_inj' hlog rfl
    obtain rfl := List.singleton_inj.mp hlast
    rw [List.concat_eq_append]
    rcases h before t r earlier hbefore
      with ⟨closing, hmem, hcloses⟩ | ⟨scheduled, due, hwaiting, hdue, hflush⟩
    · exact Or.inl ⟨closing, List.mem_append_left _ hmem, hcloses⟩
    · rcases hphase with hcloses | hphase
      · exact Or.inl ⟨event, List.mem_append_right _ (List.mem_singleton_self _), hcloses⟩
      · obtain ⟨updated, sooner, hother, hsooner, hupdated⟩ := hphase scheduled due hwaiting
        exact Or.inr ⟨updated, sooner, hother, Nat.le_trans hsooner hdue,
          fun hr => hupdated (hflush hr)⟩

theorem answers_quiet {phase : Phase} {event : Nat × ResponseEvent} (h : Answers phase log)
    (hposted : ∀ r, event.2 ≠ .posted r) : Answers phase (log ++ [event]) :=
  answers_snoc h
    (Or.inr fun scheduled due hphase => ⟨scheduled, due, hphase, Nat.le_refl _, id⟩)
    fun r hr => absurd hr (hposted r)

theorem answers_closing {phase other : Phase} {event : Nat × ResponseEvent} (h : Answers phase log)
    (hcloses : event.2.closes = true) : Answers other (log ++ [event]) := by
  apply answers_snoc h (Or.inl hcloses)
  intro r hr
  rw [hr] at hcloses
  cases hcloses

theorem answers_post {phase : Phase} (h : Answers phase log) (new : Response) {due : Nat}
    (hdue : due ≤ now + (AVAHI_RESPONSE_DEFER_MSEC + AVAHI_RESPONSE_JITTER_MSEC) * 1000) :
    Answers (phase.post new due) (log ++ [(now, .posted new)]) := by
  apply answers_snoc h
  · right
    rintro scheduled old rfl
    refine ⟨_, _, rfl, ?_, ?_⟩
    · split
      · omega
      · exact Nat.le_refl _
    · intro hflush
      rw [hflush, Bool.or_true]
  · intro r hr
    obtain rfl := ResponseEvent.posted.inj hr
    cases phase with
    | idle => exact ⟨new, due, rfl, hdue, id⟩
    | recent old since => exact ⟨new, due, rfl, hdue, id⟩
    | waiting old soon =>
        refine ⟨_, _, rfl, ?_, ?_⟩
        · split
          · exact hdue
          · omega
        · intro hflush
          rw [hflush, Bool.true_or]

theorem answers (h : Lived now life log) : Answers life.phase log := by
  induction h with
  | start =>
      intro before t r after hlog
      exact absurd hlog.symm (List.append_ne_nil_of_right_ne_nil _ (List.cons_ne_nil _ _))
  | wait _ _ ih => exact ih
  | forget _ _ ih =>
      intro before t r after hlog
      rcases ih before t r after hlog with hclosed | ⟨_, _, hphase, _⟩
      · exact Or.inl hclosed
      · cases hphase
  | post new _ _ hdue ih => exact answers_post ih new hdue
  | refuse querier _ _ _ ih => exact answers_quiet ih fun r hr => ResponseEvent.noConfusion hr
  | refuseKnown _ _ _ _ ih => exact answers_quiet ih fun r hr => ResponseEvent.noConfusion hr
  | finish why _ ih => exact answers_closing ih rfl
  | receive new _ hwaiting ih =>
      apply answers_snoc ih
      · exact Or.inr fun scheduled due hphase => absurd hphase (hwaiting scheduled due)
      · intro r hr
        cases hr
  | keep _ _ ih =>
      rw [append_pair]
      exact answers_quiet (answers_quiet ih fun r hr => ResponseEvent.noConfusion hr)
        fun r hr => ResponseEvent.noConfusion hr
  | drop _ ih => exact answers_closing ih rfl
  | learn record querier _ ih => exact answers_quiet ih fun r hr => ResponseEvent.noConfusion hr
  | unlearn _ _ _ ih => exact ih

/-- Why a response may be refused: it was seen a moment ago and nothing was asked
for since, or the querier said that it knows it. -/
def Justified (before : List (Nat × ResponseEvent)) (event : Nat × ResponseEvent) : Prop :=
  ∀ new querier, event.2 = .refused new querier →
    (∃ t r between, LastSeen before t r between ∧
      (∀ other ∈ between, other.2.demand = none) ∧
      r.covers new = true ∧ event.1 < t + (AVAHI_RESPONSE_HISTORY_MSEC + 1) * 1000) ∨
    ∃ t record address, querier = some address ∧ (t, .known record address) ∈ before ∧
      record.standsFor new.record = true ∧ event.1 ≤ t + AVAHI_RESPONSE_SUPPRESS_MSEC * 1000

/-- What is remembered was seen, and what is known was said. -/
def Recalls (life : ResponseLife) (log : List (Nat × ResponseEvent)) : Prop :=
  (∀ r t, life.phase = .recent r t →
    ∃ between, LastSeen log t r between ∧ ∀ other ∈ between, other.2.demand = none) ∧
  ∀ address record t, life.known address = some (record, t) → (t, .known record address) ∈ log

theorem recalls_snoc {other : ResponseLife} {event : Nat × ResponseEvent} (h : Recalls life log)
    (hphase : ∀ r t, other.phase = .recent r t →
      event.2.remembered = some r ∧ event.1 = t ∨
        life.phase = .recent r t ∧ event.2.remembered = none ∧ event.2.demand = none)
    (hknown : ∀ address record t, other.known address = some (record, t) →
      life.known address = some (record, t) ∨ event = (t, .known record address)) :
    Recalls other (log ++ [event]) := by
  constructor
  · intro r t hrecent
    rcases hphase r t hrecent with ⟨hseen, rfl⟩ | ⟨hearlier, hnone, hdemand⟩
    · exact ⟨[], LastSeen.self log hseen, fun _ hmem => absurd hmem List.not_mem_nil⟩
    · obtain ⟨between, hlast, hquiet⟩ := h.1 r t hearlier
      refine ⟨between ++ [event], hlast.snoc hnone, ?_⟩
      intro later hlater
      rcases List.mem_append.mp hlater with hlater | hlater
      · exact hquiet later hlater
      · obtain rfl := List.mem_singleton.mp hlater
        exact hdemand
  · intro address record t hother
    rcases hknown address record t hother with hold | rfl
    · exact List.mem_append_left _ (h.2 address record t hold)
    · exact List.mem_append_right _ (List.mem_singleton_self _)

theorem recalls_quiet {event : Nat × ResponseEvent} (h : Recalls life log)
    (hevent : event.2.remembered = none) (hdemand : event.2.demand = none) :
    Recalls life (log ++ [event]) :=
  recalls_snoc h (fun _ _ hrecent => Or.inr ⟨hrecent, hevent, hdemand⟩)
    fun _ _ _ hknown => Or.inl hknown

/-- Refusals are justified, and the past is recalled so that they stay so. -/
theorem justified_and_recalls (h : Lived now life log) :
    Throughout Justified log ∧ Recalls life log := by
  induction h with
  | start =>
      refine ⟨Throughout.nil, ?_, ?_⟩
      · intro r t hphase
        cases hphase
      · intro address record t hknown
        cases hknown
  | wait _ _ ih => exact ih
  | forget _ _ ih =>
      refine ⟨ih.1, ?_, ih.2.2⟩
      intro r t hphase
      cases hphase
  | @post _ _ life _ new _ _ _ ih =>
      refine ⟨(Throughout.snoc _ _).mpr ⟨ih.1, fun _ _ hr => ResponseEvent.noConfusion hr⟩,
        recalls_snoc ih.2 ?_ fun _ _ _ hknown => Or.inl hknown⟩
      intro r t hphase
      obtain ⟨phase, known⟩ := life
      cases phase with
      | idle => cases hphase
      | recent old since => cases hphase
      | waiting old due => cases hphase
  | refuse querier _ hcovers hsince ih =>
      refine ⟨(Throughout.snoc _ _).mpr ⟨ih.1, ?_⟩, recalls_quiet ih.2 rfl rfl⟩
      intro new other hr
      obtain ⟨rfl, rfl⟩ := ResponseEvent.refused.inj hr
      obtain ⟨between, hlast, hquiet⟩ := ih.2.1 _ _ rfl
      exact Or.inl ⟨_, _, between, hlast, hquiet, hcovers, hsince⟩
  | refuseKnown _ hknown hstands hsince ih =>
      refine ⟨(Throughout.snoc _ _).mpr ⟨ih.1, ?_⟩, recalls_quiet ih.2 rfl rfl⟩
      intro new other hr
      obtain ⟨rfl, rfl⟩ := ResponseEvent.refused.inj hr
      exact Or.inr ⟨_, _, _, rfl, ih.2.2 _ _ _ hknown, hstands, hsince⟩
  | finish why _ ih =>
      refine ⟨(Throughout.snoc _ _).mpr ⟨ih.1, fun _ _ hr => ResponseEvent.noConfusion hr⟩,
        recalls_snoc ih.2 ?_ fun _ _ _ hknown => Or.inl hknown⟩
      intro r t hphase
      obtain ⟨rfl, rfl⟩ := Phase.recent.inj hphase
      exact Or.inl ⟨rfl, rfl⟩
  | receive new _ _ ih =>
      refine ⟨(Throughout.snoc _ _).mpr ⟨ih.1, fun _ _ hr => ResponseEvent.noConfusion hr⟩,
        recalls_snoc ih.2 ?_ fun _ _ _ hknown => Or.inl hknown⟩
      intro r t hphase
      obtain ⟨rfl, rfl⟩ := Phase.recent.inj hphase
      exact Or.inl ⟨rfl, rfl⟩
  | keep _ _ ih =>
      rw [append_pair]
      refine ⟨(Throughout.snoc _ _).mpr ⟨(Throughout.snoc _ _).mpr ⟨ih.1,
        fun _ _ hr => ResponseEvent.noConfusion hr⟩,
        fun _ _ hr => ResponseEvent.noConfusion hr⟩, ?_, ?_⟩
      · intro r t hphase
        cases hphase
      · intro address record t hknown
        exact List.mem_append_left _ (List.mem_append_left _ (ih.2.2 address record t hknown))
  | drop _ ih =>
      refine ⟨(Throughout.snoc _ _).mpr ⟨ih.1, fun _ _ hr => ResponseEvent.noConfusion hr⟩,
        recalls_snoc ih.2 ?_ fun _ _ _ hknown => Or.inl hknown⟩
      intro r t hphase
      cases hphase
  | learn record querier _ ih =>
      refine ⟨(Throughout.snoc _ _).mpr ⟨ih.1, fun _ _ hr => ResponseEvent.noConfusion hr⟩,
        recalls_snoc ih.2 (fun _ _ hrecent => Or.inr ⟨hrecent, rfl, rfl⟩) ?_⟩
      intro address other t hknown
      simp only [Function.update_apply] at hknown
      by_cases hsame : address = querier
      · rw [if_pos hsame] at hknown
        obtain ⟨rfl, rfl⟩ := Prod.mk.inj (Option.some.inj hknown)
        exact Or.inr (hsame ▸ rfl)
      · rw [if_neg hsame] at hknown
        exact Or.inl hknown
  | unlearn _ _ _ ih =>
      refine ⟨ih.1, ih.2.1, ?_⟩
      intro address other t hknown
      simp only [Function.update_apply] at hknown
      split at hknown
      · cases hknown
      · exact ih.2.2 address other t hknown

end ResponseLife.Lived

end NvmrDisplay.Avahi.Dns
