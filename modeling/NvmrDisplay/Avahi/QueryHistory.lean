import NvmrDisplay.Avahi.QuerySched
import NvmrDisplay.Lib.History
import Mathlib.Tactic.Common

/-!
The life of a question. In every run of the query scheduler each question goes
through the phases below, whatever happens to the others, and the history of the
run shows it: a question is on air once in a tenth of a second at most, it is
asked here only while somebody who posted it has not withdrawn it, and whoever
posts it either learns that it was on air just now, or it is asked in time.
-/

namespace NvmrDisplay.Avahi.Dns

open Lib

namespace QueryEvent

def key : QueryEvent → NormalKey
  | posted key | refused key | done _ key | received key | released key | withdrawn key => key

def cls (event : QueryEvent) : KeyClass := event.key.cls

/-- The question was on air. -/
def onAir : QueryEvent → Bool
  | done _ _ | received _ => true
  | posted _ | refused _ | released _ | withdrawn _ => false

/-- Nobody waits any longer for the question to be asked. -/
def closes : QueryEvent → Bool
  | done _ _ | withdrawn _ => true
  | posted _ | refused _ | received _ | released _ => false

end QueryEvent

/-- How many of those who posted a question still want it to be asked. -/
def posters (log : List (Nat × QueryEvent)) : Nat :=
  log.foldl (fun n event => match event.2 with
    | .posted _ => n + 1
    | .released _ => n - 1
    | .done _ _ | .withdrawn _ => 0
    | .refused _ | .received _ => n) 0

/-- It is a tenth of a second since the question was on air. -/
def Quiet (log : List (Nat × QueryEvent)) (t : Nat) : Prop :=
  ∀ event ∈ log, event.2.onAir = true → event.1 + AVAHI_QUERY_HISTORY_MSEC * 1000 ≤ t

/-- What each event says about the events before it. -/
def FairQuery (before : List (Nat × QueryEvent)) : Nat × QueryEvent → Prop
  | (t, .posted _) => Quiet before t
  | (t, .refused _) => ∃ event ∈ before, event.2.onAir = true ∧
      t ≤ event.1 + AVAHI_QUERY_HISTORY_MSEC * 1000
  | (t, .done _ _) => Quiet before t ∧ 0 < posters before
  | (_, .received _) => posters before = 0
  | (_, .released _) => 1 < posters before
  | (_, .withdrawn _) => posters before = 1

inductive QueryPhase where
  | idle
  | wanted (posters due : Nat)
  | recent (since : Nat)

/-- One step in the life of a question, with what is logged. -/
inductive QueryPhase.Step (now : Nat) :
    QueryPhase → List (Nat × QueryEvent) → QueryPhase → Prop where
  | forgotten {since : Nat} : since + AVAHI_QUERY_HISTORY_MSEC * 1000 ≤ now →
      Step now (.recent since) [] .idle
  | posted {key : NormalKey} {due : Nat} : due ≤ now + AVAHI_QUERY_DEFER_MSEC * 1000 →
      Step now .idle [(now, .posted key)] (.wanted 1 due)
  | postedAgain {key : NormalKey} {n due next : Nat} :
      next ≤ due → next ≤ now + AVAHI_QUERY_DEFER_MSEC * 1000 →
        Step now (.wanted n due) [(now, .posted key)] (.wanted (n + 1) next)
  | refused {key : NormalKey} {since : Nat} : now ≤ since + AVAHI_QUERY_HISTORY_MSEC * 1000 →
      Step now (.recent since) [(now, .refused key)] (.recent since)
  | done {who : Asked} {key : NormalKey} {n due : Nat} :
      Step now (.wanted n due) [(now, .done who key)] (.recent now)
  | received {key : NormalKey} : Step now .idle [(now, .received key)] (.recent now)
  | receivedAgain {key : NormalKey} {since : Nat} :
      Step now (.recent since) [(now, .received key)] (.recent now)
  | released {key : NormalKey} {n due : Nat} :
      Step now (.wanted (n + 2) due) [(now, .released key)] (.wanted (n + 1) due)
  | withdrawn {key : NormalKey} {due : Nat} :
      Step now (.wanted 1 due) [(now, .withdrawn key)] .idle

/-- Several steps at one time. -/
inductive QueryPhase.Steps (now : Nat) :
    QueryPhase → List (Nat × QueryEvent) → QueryPhase → Prop where
  | refl (phase : QueryPhase) : Steps now phase [] phase
  | snoc {first second third : QueryPhase} {events more : List (Nat × QueryEvent)} :
      Steps now first events second → Step now second more third →
        Steps now first (events ++ more) third

theorem QueryPhase.Step.single {now : Nat} {first second : QueryPhase}
    {events : List (Nat × QueryEvent)} (h : first.Step now events second) :
    first.Steps now events second := .snoc (.refl first) h

theorem QueryPhase.Steps.trans {now : Nat} {first second third : QueryPhase}
    {events more : List (Nat × QueryEvent)} (h : first.Steps now events second)
    (hmore : second.Steps now more third) : first.Steps now (events ++ more) third := by
  induction hmore with
  | refl => rwa [List.append_nil]
  | snoc _ hstep ih =>
      rw [← List.append_assoc]
      exact .snoc ih hstep

/-- What the phase says about the history. -/
def QueryPhase.Shows (now : Nat) (log : List (Nat × QueryEvent)) : QueryPhase → Prop
  | .idle => posters log = 0 ∧ Quiet log now
  | .wanted n _ => posters log = n ∧ 0 < n ∧ Quiet log now
  | .recent since => posters log = 0 ∧ since ≤ now ∧
      (∃ event ∈ log, event.2.onAir = true ∧ event.1 = since) ∧
        ∀ event ∈ log, event.2.onAir = true → event.1 ≤ since

/-- Who has posted a question waits until it is asked or withdrawn. -/
def Pending (phase : QueryPhase) (log : List (Nat × QueryEvent)) : Prop :=
  ∀ before t key after, log = before ++ (t, .posted key) :: after →
    (∃ event ∈ after, event.2.closes = true) ∨
      ∃ n due, phase = .wanted n due ∧ due ≤ t + AVAHI_QUERY_DEFER_MSEC * 1000

/-- A possible life of a question. -/
structure QueryPhase.Lived (now : Nat) (phase : QueryPhase) (log : List (Nat × QueryEvent)) :
    Prop where
  fair : Throughout FairQuery log
  shows : phase.Shows now log
  pending : Pending phase log

section Life

variable {now : Nat} {phase : QueryPhase} {log : List (Nat × QueryEvent)}

theorem posters_snoc (log : List (Nat × QueryEvent)) (event : Nat × QueryEvent) :
    posters (log ++ [event]) = match event.2 with
      | .posted _ => posters log + 1
      | .released _ => posters log - 1
      | .done _ _ | .withdrawn _ => 0
      | .refused _ | .received _ => posters log := by
  rw [posters, List.foldl_append]
  rfl

theorem Quiet.later {t : Nat} (h : Quiet log now) (ht : now ≤ t) : Quiet log t := by
  intro event hmem hair
  have hquiet := h event hmem hair
  omega

theorem Quiet.snoc {event : Nat × QueryEvent} (h : Quiet log now)
    (hevent : event.2.onAir = false) : Quiet (log ++ [event]) now := by
  intro other hmem hair
  rcases List.mem_append.mp hmem with hmem | hmem
  · exact h other hmem hair
  · obtain rfl := List.mem_singleton.mp hmem
    rw [hevent] at hair
    cases hair

/-- After something that is on air now. -/
theorem recent_snoc {event : Nat × QueryEvent}
    (h : ∀ other ∈ log, other.2.onAir = true → other.1 ≤ now)
    (hevent : event.2.onAir = true) (htime : event.1 = now) :
    (∃ other ∈ log ++ [event], other.2.onAir = true ∧ other.1 = now) ∧
      ∀ other ∈ log ++ [event], other.2.onAir = true → other.1 ≤ now := by
  refine ⟨⟨event, List.mem_append_right _ (List.mem_singleton.mpr rfl), hevent, htime⟩, ?_⟩
  intro other hmem hair
  rcases List.mem_append.mp hmem with hmem | hmem
  · exact h other hmem hair
  · obtain rfl := List.mem_singleton.mp hmem
    exact Nat.le_of_eq htime

/-- Whatever was on air was so until now. -/
theorem QueryPhase.Shows.past (h : phase.Shows now log) :
    ∀ event ∈ log, event.2.onAir = true → event.1 ≤ now := by
  intro event hmem hair
  cases phase with
  | idle =>
      have hquiet := h.2 event hmem hair
      omega
  | wanted n due =>
      have hquiet := h.2.2 event hmem hair
      omega
  | recent since =>
      obtain ⟨_, hsince, _, hall⟩ := h
      exact Nat.le_trans (hall event hmem hair) hsince

theorem QueryPhase.Shows.later {t : Nat} (h : phase.Shows now log) (ht : now ≤ t) :
    phase.Shows t log := by
  cases phase with
  | idle => exact ⟨h.1, h.2.later ht⟩
  | wanted n due => exact ⟨h.1, h.2.1, h.2.2.later ht⟩
  | recent since =>
      obtain ⟨hposters, hsince, hall⟩ := h
      exact ⟨hposters, Nat.le_trans hsince ht, hall⟩

/-- A step that closes what was open, or nothing was open. -/
theorem Pending.closed {next : QueryPhase} {event : Nat × QueryEvent}
    (hnot : ∀ key, event.2 ≠ .posted key) (h : Pending phase log)
    (hnext : event.2.closes = true ∨
      ∀ n due, phase = .wanted n due → ∃ m, next = .wanted m due) :
    Pending next (log ++ [event]) := by
  intro before t key after heq
  rcases List.eq_nil_or_concat after with rfl | ⟨after, last, rfl⟩
  · obtain ⟨_, hlast⟩ := List.append_inj' heq rfl
    obtain rfl := List.singleton_inj.mp hlast
    exact absurd rfl (hnot key)
  · rw [List.concat_eq_append, ← List.cons_append, ← List.append_assoc] at heq
    obtain ⟨hlog, hlast⟩ := List.append_inj' heq rfl
    obtain rfl := List.singleton_inj.mp hlast
    rw [List.concat_eq_append]
    rcases hnext with hcloses | hnext
    · exact Or.inl ⟨event, List.mem_append_right _ (List.mem_singleton.mpr rfl), hcloses⟩
    · rcases h before t key after hlog
        with ⟨other, hother, hcloses⟩ | ⟨n, due, hphase, hdue⟩
      · exact Or.inl ⟨other, List.mem_append_left _ hother, hcloses⟩
      · obtain ⟨m, hm⟩ := hnext n due hphase
        exact Or.inr ⟨m, due, hm, hdue⟩

theorem Pending.posted {n next : Nat} {key : NormalKey} (h : Pending phase log)
    (hnext : next ≤ now + AVAHI_QUERY_DEFER_MSEC * 1000)
    (hphase : ∀ m due, phase = .wanted m due → next ≤ due) :
    Pending (.wanted n next) (log ++ [(now, .posted key)]) := by
  intro before t other after heq
  rcases List.eq_nil_or_concat after with rfl | ⟨after, last, rfl⟩
  · obtain ⟨_, hlast⟩ := List.append_inj' heq rfl
    obtain ⟨rfl, _⟩ := Prod.mk.inj (List.singleton_inj.mp hlast)
    exact Or.inr ⟨n, next, rfl, hnext⟩
  · rw [List.concat_eq_append, ← List.cons_append, ← List.append_assoc] at heq
    obtain ⟨hlog, _⟩ := List.append_inj' heq rfl
    rw [List.concat_eq_append]
    rcases h before t other after hlog
      with ⟨event, hevent, hcloses⟩ | ⟨m, due, hwanted, hdue⟩
    · exact Or.inl ⟨event, List.mem_append_left _ hevent, hcloses⟩
    · exact Or.inr ⟨n, next, rfl, Nat.le_trans (hphase m due hwanted) hdue⟩

theorem QueryPhase.Lived.later {t : Nat} (h : phase.Lived now log) (ht : now ≤ t) :
    phase.Lived t log := ⟨h.fair, h.shows.later ht, h.pending⟩

/-- Each step is possible. -/
theorem QueryPhase.Lived.step {next : QueryPhase} {events : List (Nat × QueryEvent)}
    (h : phase.Lived now log) (hstep : phase.Step now events next) :
    next.Lived now (log ++ events) := by
  obtain ⟨hfair, hshows, hpending⟩ := h
  have hpast := hshows.past
  cases hstep with
  | forgotten hsince =>
      rw [List.append_nil]
      obtain ⟨hposters, _, _, hall⟩ := hshows
      refine ⟨hfair, ⟨hposters, ?_⟩, ?_⟩
      · intro event hmem hair
        have hle := hall event hmem hair
        omega
      · intro before t key after hlog
        rcases hpending before t key after hlog with hclosed | ⟨_, _, hphase, _⟩
        · exact Or.inl hclosed
        · cases hphase
  | posted hdue =>
      obtain ⟨hposters, hquiet⟩ := hshows
      refine ⟨(Throughout.snoc log _).mpr ⟨hfair, hquiet⟩,
        ⟨?_, Nat.zero_lt_one, hquiet.snoc rfl⟩, ?_⟩
      · rw [posters_snoc, hposters]
      · exact hpending.posted hdue fun m due hphase => by cases hphase
  | postedAgain hnext hdue =>
      obtain ⟨hposters, _, hquiet⟩ := hshows
      refine ⟨(Throughout.snoc log _).mpr ⟨hfair, hquiet⟩,
        ⟨?_, Nat.zero_lt_succ _, hquiet.snoc rfl⟩, ?_⟩
      · rw [posters_snoc, hposters]
      · apply hpending.posted hdue
        intro m due hphase
        obtain ⟨_, rfl⟩ := QueryPhase.wanted.inj hphase
        exact hnext
  | refused hsince =>
      obtain ⟨hposters, hle, ⟨event, hmem, hair, rfl⟩, hall⟩ := hshows
      refine ⟨(Throughout.snoc log _).mpr ⟨hfair, event, hmem, hair, hsince⟩,
        ⟨?_, hle, ⟨event, List.mem_append_left _ hmem, hair, rfl⟩, ?_⟩, ?_⟩
      · rw [posters_snoc, hposters]
      · intro other hother hair
        rcases List.mem_append.mp hother with hother | hother
        · exact hall other hother hair
        · obtain rfl := List.mem_singleton.mp hother
          cases hair
      · exact hpending.closed (fun key heq => by cases heq)
          (Or.inr fun n due hphase => by cases hphase)
  | done =>
      obtain ⟨hposters, hpos, hquiet⟩ := hshows
      refine ⟨(Throughout.snoc log _).mpr ⟨hfair, hquiet, hposters ▸ hpos⟩,
        ⟨posters_snoc log _, Nat.le_refl _, recent_snoc hpast rfl rfl⟩, ?_⟩
      exact hpending.closed (fun key heq => by cases heq) (Or.inl rfl)
  | received =>
      obtain ⟨hposters, _⟩ := hshows
      refine ⟨(Throughout.snoc log _).mpr ⟨hfair, hposters⟩,
        ⟨(posters_snoc log _).trans hposters, Nat.le_refl _, recent_snoc hpast rfl rfl⟩, ?_⟩
      exact hpending.closed (fun key heq => by cases heq)
        (Or.inr fun n due hphase => by cases hphase)
  | receivedAgain =>
      obtain ⟨hposters, _⟩ := hshows
      refine ⟨(Throughout.snoc log _).mpr ⟨hfair, hposters⟩,
        ⟨(posters_snoc log _).trans hposters, Nat.le_refl _, recent_snoc hpast rfl rfl⟩, ?_⟩
      exact hpending.closed (fun key heq => by cases heq)
        (Or.inr fun n due hphase => by cases hphase)
  | released =>
      obtain ⟨hposters, _, hquiet⟩ := hshows
      refine ⟨(Throughout.snoc log _).mpr ⟨hfair, by simp only [FairQuery]; omega⟩,
        ⟨?_, Nat.zero_lt_succ _, hquiet.snoc rfl⟩, ?_⟩
      · rw [posters_snoc, hposters]
        rfl
      · apply hpending.closed fun key heq => by cases heq
        refine Or.inr fun m due hphase => ?_
        obtain ⟨_, rfl⟩ := QueryPhase.wanted.inj hphase
        exact ⟨_, rfl⟩
  | withdrawn =>
      obtain ⟨hposters, _, hquiet⟩ := hshows
      refine ⟨(Throughout.snoc log _).mpr ⟨hfair, hposters⟩,
        ⟨posters_snoc log _, hquiet.snoc rfl⟩, ?_⟩
      exact hpending.closed (fun key heq => by cases heq) (Or.inl rfl)

theorem QueryPhase.Lived.steps {next : QueryPhase} {events : List (Nat × QueryEvent)}
    (h : phase.Lived now log) (hsteps : phase.Steps now events next) :
    next.Lived now (log ++ events) := by
  induction hsteps with
  | refl => rwa [List.append_nil]
  | snoc _ hstep ih =>
      rw [← List.append_assoc]
      exact ih.step hstep

end Life

def AvahiQueryJob.cls (qj : AvahiQueryJob) : KeyClass := qj.key.cls

namespace AvahiQueryScheduler

variable {now : Nat} {s t u : AvahiQueryScheduler} {qj job : AvahiQueryJob} {cls : KeyClass}

/-- What the lists of a scheduler always are. A question is there once. -/
structure Wf (s : AvahiQueryScheduler) : Prop where
  addresses : Distinct AvahiQueryJob.address s.all
  fresh : ∀ qj ∈ s.all, qj.address < s.nextAddress
  classes : Distinct AvahiQueryJob.cls s.all
  posted : ∀ qj ∈ s.jobs, 0 < qj.nPosted
  scheduled : ∀ qj ∈ s.jobs, qj.timeEvent = qj.delivery
  recent : ∀ qj ∈ s.history, qj.timeEvent = qj.delivery + AVAHI_QUERY_HISTORY_MSEC * 1000

def phase (s : AvahiQueryScheduler) (cls : KeyClass) : QueryPhase :=
  match lookupBy AvahiQueryJob.cls cls s.jobs with
  | some qj => .wanted qj.nPosted qj.timeEvent
  | none =>
      match lookupBy AvahiQueryJob.cls cls s.history with
      | some qj => .recent qj.delivery
      | none => .idle

def logOf (s : AvahiQueryScheduler) (cls : KeyClass) : List (Nat × QueryEvent) :=
  s.log.filter fun event => event.2.cls = cls

/-- The scheduler goes on at a time: every question makes steps of its life. -/
structure Moves (now : Nat) (s t : AvahiQueryScheduler) : Prop where
  wf : t.Wf
  steps : ∀ cls, ∃ events, (s.phase cls).Steps now events (t.phase cls) ∧
    t.logOf cls = s.logOf cls ++ events

theorem Moves.refl (h : s.Wf) : s.Moves now s :=
  ⟨h, fun cls => ⟨[], .refl (s.phase cls), (List.append_nil _).symm⟩⟩

theorem Moves.trans (h : s.Moves now t) (hmore : t.Moves now u) : s.Moves now u := by
  refine ⟨hmore.wf, fun cls => ?_⟩
  obtain ⟨events, hsteps, hlog⟩ := h.steps cls
  obtain ⟨more, hmoreSteps, hmoreLog⟩ := hmore.steps cls
  exact ⟨events ++ more, hsteps.trans hmoreSteps, by rw [hmoreLog, hlog, List.append_assoc]⟩

/-- Only one question makes a step. -/
theorem Moves.of_step {events : List (Nat × QueryEvent)} (hwf : t.Wf)
    (hself : (s.phase cls).Step now events (t.phase cls))
    (hother : ∀ other ≠ cls, t.phase other = s.phase other) (hlog : t.log = s.log ++ events)
    (habout : ∀ event ∈ events, event.2.cls = cls) : s.Moves now t := by
  refine ⟨hwf, fun other => ?_⟩
  rw [logOf, hlog, List.filter_append]
  by_cases hsame : other = cls
  · subst hsame
    refine ⟨events, hself.single, ?_⟩
    rw [List.filter_eq_self.mpr fun event hmem => decide_eq_true (habout event hmem), logOf]
  · refine ⟨[], ?_, ?_⟩
    · rw [hother other hsame]
      exact .refl _
    · have hnone : events.filter (fun event => event.2.cls = other) = [] := by
        apply List.filter_eq_nil_iff.mpr
        intro event hmem heq
        exact hsame ((of_decide_eq_true heq).symm.trans (habout event hmem))
      rw [hnone, logOf]

/-- Only one question makes a step, and logs it. -/
theorem Moves.of_event (event : QueryEvent) {before after : QueryPhase} (hwf : t.Wf)
    (hbefore : s.phase event.cls = before) (hafter : t.phase event.cls = after)
    (hother : ∀ other ≠ event.cls, t.phase other = s.phase other)
    (hlog : t.log = s.log ++ [(now, event)]) (hstep : before.Step now [(now, event)] after) :
    s.Moves now t := by
  refine Moves.of_step hwf ?_ hother hlog ?_
  · rwa [hbefore, hafter]
  · intro other hmem
    obtain rfl := List.mem_singleton.mp hmem
    rfl

section Phases

theorem phase_wanted (h : lookupBy AvahiQueryJob.cls cls s.jobs = some qj) :
    s.phase cls = .wanted qj.nPosted qj.timeEvent := by
  simp only [phase, h]

theorem phase_recent (hjobs : lookupBy AvahiQueryJob.cls cls s.jobs = none)
    (h : lookupBy AvahiQueryJob.cls cls s.history = some qj) :
    s.phase cls = .recent qj.delivery := by
  simp only [phase, hjobs, h]

theorem phase_idle (hjobs : lookupBy AvahiQueryJob.cls cls s.jobs = none)
    (h : lookupBy AvahiQueryJob.cls cls s.history = none) : s.phase cls = .idle := by
  simp only [phase, hjobs, h]

theorem phase_congr
    (hjobs : lookupBy AvahiQueryJob.cls cls t.jobs = lookupBy AvahiQueryJob.cls cls s.jobs)
    (h : lookupBy AvahiQueryJob.cls cls t.history = lookupBy AvahiQueryJob.cls cls s.history) :
    t.phase cls = s.phase cls := by
  rw [phase, hjobs, h, phase]

end Phases

namespace Wf

theorem jobs_addresses (h : s.Wf) : Distinct AvahiQueryJob.address s.jobs :=
  h.addresses.sublist (List.sublist_append_left _ _)

theorem history_addresses (h : s.Wf) : Distinct AvahiQueryJob.address s.history :=
  h.addresses.sublist (List.sublist_append_right _ _)

theorem jobs_classes (h : s.Wf) : Distinct AvahiQueryJob.cls s.jobs :=
  h.classes.sublist (List.sublist_append_left _ _)

theorem history_classes (h : s.Wf) : Distinct AvahiQueryJob.cls s.history :=
  h.classes.sublist (List.sublist_append_right _ _)

theorem not_both (h : s.Wf) {other : AvahiQueryJob} (hqj : qj ∈ s.jobs)
    (hother : other ∈ s.history) : qj.cls ≠ other.cls := by
  have hnodup := h.classes
  rw [Distinct, all, List.map_append, List.nodup_append] at hnodup
  exact hnodup.2.2 _ (List.mem_map_of_mem hqj) _ (List.mem_map_of_mem hother)

theorem not_scheduled (h : s.Wf) (hqj : qj ∈ s.history) :
    lookupBy AvahiQueryJob.cls qj.cls s.jobs = none :=
  lookupBy_eq_none.mpr fun _ hother => h.not_both hother hqj

theorem not_recent (h : s.Wf) (hqj : qj ∈ s.jobs) :
    lookupBy AvahiQueryJob.cls qj.cls s.history = none :=
  lookupBy_eq_none.mpr fun _ hother => Ne.symm (h.not_both hqj hother)

theorem new_class (h : lookupBy AvahiQueryJob.cls cls s.jobs = none)
    (hhistory : lookupBy AvahiQueryJob.cls cls s.history = none) :
    ∀ other ∈ s.all, other.cls ≠ cls := by
  intro other hother
  rcases List.mem_append.mp hother with hother | hother
  · exact lookupBy_eq_none.mp h other hother
  · exact lookupBy_eq_none.mp hhistory other hother

/-- What the history variable says does not matter. -/
theorem of_log (h : s.Wf) (log : List (Nat × QueryEvent)) : Wf { s with log } :=
  ⟨h.addresses, h.fresh, h.classes, h.posted, h.scheduled, h.recent⟩

/-- Jobs of the history can be freed. -/
theorem jobFree (h : s.Wf) (address : Nat) : (s.jobFree address).Wf := by
  have hsublist : (removeQueryJob s.history address).Sublist s.history := List.filter_sublist
  have hall := hsublist.append_left s.jobs
  exact ⟨h.addresses.sublist hall, fun other hother => h.fresh other (hall.mem hother),
    h.classes.sublist hall, h.posted, h.scheduled,
    fun other hother => h.recent other (hsublist.mem hother)⟩

theorem jobMarkDone (h : s.Wf) (hqj : qj ∈ s.jobs) (who : Asked) :
    (s.jobMarkDone now who qj).Wf := by
  have hsublist : (removeQueryJob s.jobs qj.address).Sublist s.jobs := List.filter_sublist
  have hperm := h.jobs_addresses.perm_cons hqj
  refine ⟨h.addresses.move hperm rfl, ?_, h.classes.move hperm rfl,
    fun other hother => h.posted other (hsublist.mem hother),
    fun other hother => h.scheduled other (hsublist.mem hother), ?_⟩
  · intro other hother
    rcases List.mem_append.mp hother with hother | hother
    · exact h.fresh other (List.mem_append_left _ (hsublist.mem hother))
    · rcases List.mem_cons.mp hother with rfl | hother
      · exact h.fresh qj (List.mem_append_left _ hqj)
      · exact h.fresh other (List.mem_append_right _ hother)
  · intro other hother
    rcases List.mem_cons.mp hother with rfl | hother
    · rfl
    · exact h.recent other hother

/-- A job that is written to keeps its address and its question. -/
theorem setScheduled (h : s.Wf) (hqj : qj ∈ s.jobs) (haddress : job.address = qj.address)
    (hcls : job.cls = qj.cls) (hposted : 0 < job.nPosted) (htime : job.timeEvent = job.delivery) :
    Wf { s with jobs := setQueryJob s.jobs job } := by
  refine ⟨?_, ?_, ?_, ?_, ?_, h.recent⟩
  · rw [Distinct, all, List.map_append, setQueryJob,
      h.jobs_addresses.map_replace hqj haddress haddress, ← List.map_append]
    exact h.addresses
  · intro other hother
    rcases List.mem_append.mp hother with hother | hother
    · rcases mem_replace hother with rfl | hother
      · exact haddress ▸ h.fresh qj (List.mem_append_left _ hqj)
      · exact h.fresh other (List.mem_append_left _ hother)
    · exact h.fresh other (List.mem_append_right _ hother)
  · rw [Distinct, all, List.map_append, setQueryJob,
      h.jobs_addresses.map_replace hqj haddress hcls, ← List.map_append]
    exact h.classes
  · intro other hother
    rcases mem_replace hother with rfl | hother
    · exact hposted
    · exact h.posted other hother
  · intro other hother
    rcases mem_replace hother with rfl | hother
    · exact htime
    · exact h.scheduled other hother

theorem setRecent (h : s.Wf) (hqj : qj ∈ s.history) (haddress : job.address = qj.address)
    (hcls : job.cls = qj.cls)
    (htime : job.timeEvent = job.delivery + AVAHI_QUERY_HISTORY_MSEC * 1000) :
    Wf { s with history := setQueryJob s.history job } := by
  refine ⟨?_, ?_, ?_, h.posted, h.scheduled, ?_⟩
  · rw [Distinct, all, List.map_append, setQueryJob,
      h.history_addresses.map_replace hqj haddress haddress, ← List.map_append]
    exact h.addresses
  · intro other hother
    rcases List.mem_append.mp hother with hother | hother
    · exact h.fresh other (List.mem_append_left _ hother)
    · rcases mem_replace hother with rfl | hother
      · exact haddress ▸ h.fresh qj (List.mem_append_right _ hqj)
      · exact h.fresh other (List.mem_append_right _ hother)
  · rw [Distinct, all, List.map_append, setQueryJob,
      h.history_addresses.map_replace hqj haddress hcls, ← List.map_append]
    exact h.classes
  · intro other hother
    rcases mem_replace hother with rfl | hother
    · exact htime
    · exact h.recent other hother

/-- A new job is not among those there are. -/
theorem fresh_cons (h : s.Wf) {before after : List AvahiQueryJob} (hall : s.all = before ++ after)
    (haddress : qj.address = s.nextAddress) (hcls : ∀ other ∈ s.all, other.cls ≠ qj.cls) :
    Distinct AvahiQueryJob.address (before ++ qj :: after) ∧
      (∀ other ∈ before ++ qj :: after, other.address < s.nextAddress + 1) ∧
      Distinct AvahiQueryJob.cls (before ++ qj :: after) := by
  have haddresses := h.addresses
  have hclasses := h.classes
  have hfresh := h.fresh
  rw [hall] at haddresses hclasses hfresh hcls
  refine ⟨haddresses.insert ?_, ?_, hclasses.insert hcls⟩
  · intro other hother
    have hlt := hfresh other hother
    omega
  · intro other hother
    rcases List.mem_cons.mp (List.perm_middle.mem_iff.mp hother) with rfl | hother
    · omega
    · have hlt := hfresh other hother
      omega

theorem addScheduled (h : s.Wf) (haddress : qj.address = s.nextAddress)
    (hcls : ∀ other ∈ s.all, other.cls ≠ qj.cls) (hposted : 0 < qj.nPosted)
    (htime : qj.timeEvent = qj.delivery) :
    Wf { s with
      jobs := qj :: s.jobs
      nextId := s.nextId + 1
      nextAddress := s.nextAddress + 1 } := by
  obtain ⟨haddresses, hfresh, hclasses⟩ := @fresh_cons s qj h [] s.all rfl haddress hcls
  refine ⟨haddresses, hfresh, hclasses, ?_, ?_, h.recent⟩
  · intro other hother
    rcases List.mem_cons.mp hother with rfl | hother
    · exact hposted
    · exact h.posted other hother
  · intro other hother
    rcases List.mem_cons.mp hother with rfl | hother
    · exact htime
    · exact h.scheduled other hother

theorem addRecent (h : s.Wf) (haddress : qj.address = s.nextAddress)
    (hcls : ∀ other ∈ s.all, other.cls ≠ qj.cls)
    (htime : qj.timeEvent = qj.delivery + AVAHI_QUERY_HISTORY_MSEC * 1000) :
    Wf { s with
      history := qj :: s.history
      nextId := s.nextId + 1
      nextAddress := s.nextAddress + 1 } := by
  obtain ⟨haddresses, hfresh, hclasses⟩ := h.fresh_cons rfl haddress hcls
  refine ⟨haddresses, hfresh, hclasses, h.posted, h.scheduled, ?_⟩
  intro other hother
  rcases List.mem_cons.mp hother with rfl | hother
  · exact htime
  · exact h.recent other hother

end Wf

theorem new_wf : new.Wf := by
  refine ⟨distinct_nil, ?_, distinct_nil, ?_, ?_, ?_⟩
  · exact fun qj hqj => absurd hqj List.not_mem_nil
  · exact fun qj hqj => absurd hqj List.not_mem_nil
  · exact fun qj hqj => absurd hqj List.not_mem_nil
  · exact fun qj hqj => absurd hqj List.not_mem_nil

section Operations

/-- A job of the history is forgotten when it is old. -/
theorem moves_jobFree (h : s.Wf) (hqj : qj ∈ s.history)
    (hold : qj.delivery + AVAHI_QUERY_HISTORY_MSEC * 1000 ≤ now) :
    s.Moves now (s.jobFree qj.address) := by
  have hlookup := h.history_addresses.lookupBy_remove h.history_classes hqj
  have hjobs := h.not_scheduled hqj
  have hidle : (s.jobFree qj.address).phase qj.cls = .idle :=
    phase_idle hjobs ((hlookup qj.cls).trans (if_pos rfl))
  have hrecent : s.phase qj.cls = .recent qj.delivery :=
    phase_recent hjobs (h.history_classes.lookupBy_eq.mpr ⟨hqj, rfl⟩)
  refine @Moves.of_step now s _ qj.cls [] (h.jobFree qj.address) ?_ ?_ (List.append_nil _).symm ?_
  · rw [hidle, hrecent]
    exact .forgotten hold
  · intro other hother
    exact phase_congr rfl ((hlookup other).trans (if_neg hother))
  · exact fun event hmem => absurd hmem List.not_mem_nil

theorem moves_jobMarkDone (h : s.Wf) (hqj : qj ∈ s.jobs) (who : Asked) :
    s.Moves now (s.jobMarkDone now who qj) := by
  have hlookup := h.jobs_addresses.lookupBy_remove h.jobs_classes hqj
  have hwanted := phase_wanted (h.jobs_classes.lookupBy_eq.mpr ⟨hqj, rfl⟩)
  have hfirst : lookupBy AvahiQueryJob.cls qj.cls (s.jobMarkDone now who qj).history =
      some { qj with
        delivery := now
        timeEvent := now + AVAHI_QUERY_HISTORY_MSEC * 1000 } := lookupBy_cons.trans (if_pos rfl)
  have hrecent : (s.jobMarkDone now who qj).phase qj.cls = .recent now :=
    phase_recent ((hlookup qj.cls).trans (if_pos rfl)) hfirst
  refine Moves.of_event (.done who qj.key) (h.jobMarkDone hqj who) hwanted hrecent ?_ rfl .done
  intro other hother
  refine phase_congr ((hlookup other).trans (if_neg hother)) ?_
  exact lookupBy_cons.trans (if_neg (Ne.symm hother))

/-- The first poster of a question. -/
theorem moves_addScheduled (h : s.Wf) (haddress : qj.address = s.nextAddress)
    (hposted : qj.nPosted = 1) (htime : qj.timeEvent = qj.delivery)
    (hdue : qj.timeEvent ≤ now + AVAHI_QUERY_DEFER_MSEC * 1000)
    (hjobs : lookupBy AvahiQueryJob.cls qj.cls s.jobs = none)
    (hhistory : lookupBy AvahiQueryJob.cls qj.cls s.history = none) :
    s.Moves now (logged now { s with
      jobs := qj :: s.jobs
      nextId := s.nextId + 1
      nextAddress := s.nextAddress + 1 } (.posted qj.key)) := by
  have hwf := h.addScheduled haddress (Wf.new_class hjobs hhistory) (by omega) htime
  refine Moves.of_event (.posted qj.key) (hwf.of_log _) (phase_idle hjobs hhistory) ?_ ?_ rfl
    (.posted hdue)
  · rw [← hposted]
    exact phase_wanted (lookupBy_cons.trans (if_pos rfl))
  · intro other hother
    exact phase_congr (lookupBy_cons.trans (if_neg (Ne.symm hother))) rfl

/-- One more poster of a question that is scheduled. -/
theorem moves_setScheduled (h : s.Wf) (hqj : qj ∈ s.jobs) (haddress : job.address = qj.address)
    (hcls : job.cls = qj.cls) (hposted : job.nPosted = qj.nPosted + 1)
    (htime : job.timeEvent = job.delivery) (hearlier : job.timeEvent ≤ qj.timeEvent)
    (hdue : job.timeEvent ≤ now + AVAHI_QUERY_DEFER_MSEC * 1000) {key : NormalKey}
    (hkey : qj.cls = key.cls) :
    s.Moves now (logged now { s with jobs := setQueryJob s.jobs job } (.posted key)) := by
  have hlookup := h.jobs_addresses.lookupBy_replace h.jobs_classes hqj haddress hcls
  have hwf := h.setScheduled hqj haddress hcls (by omega) htime
  refine Moves.of_event (.posted key) (hwf.of_log _)
    (phase_wanted (h.jobs_classes.lookupBy_eq.mpr ⟨hqj, hkey⟩)) ?_ ?_ rfl
    (.postedAgain hearlier hdue)
  · rw [← hposted]
    exact phase_wanted ((hlookup key.cls).trans (if_pos hkey.symm))
  · intro other hother
    refine phase_congr ?_ rfl
    exact (hlookup other).trans (if_neg fun hsame => hother (hsame.trans hkey))

/-- A question of another host, the first for some time. -/
theorem moves_addRecent (h : s.Wf) (haddress : qj.address = s.nextAddress)
    (hdelivery : qj.delivery = now)
    (htime : qj.timeEvent = qj.delivery + AVAHI_QUERY_HISTORY_MSEC * 1000)
    (hjobs : lookupBy AvahiQueryJob.cls qj.cls s.jobs = none)
    (hhistory : lookupBy AvahiQueryJob.cls qj.cls s.history = none) :
    s.Moves now { s with
      history := qj :: s.history
      nextId := s.nextId + 1
      nextAddress := s.nextAddress + 1
      log := s.log ++ [(now, .received qj.key)] } := by
  have hwf := h.addRecent haddress (Wf.new_class hjobs hhistory) htime
  refine Moves.of_event (.received qj.key) (hwf.of_log _)
    (phase_idle hjobs hhistory) ?_ ?_ rfl .received
  · rw [← hdelivery]
    exact phase_recent hjobs (lookupBy_cons.trans (if_pos rfl))
  · intro other hother
    exact phase_congr rfl (lookupBy_cons.trans (if_neg (Ne.symm hother)))

/-- A question that was on air just before. -/
theorem moves_setRecent (h : s.Wf) (hqj : qj ∈ s.history) (haddress : job.address = qj.address)
    (hcls : job.cls = qj.cls) (hdelivery : job.delivery = now)
    (htime : job.timeEvent = job.delivery + AVAHI_QUERY_HISTORY_MSEC * 1000) {key : NormalKey}
    (hkey : qj.cls = key.cls) :
    s.Moves now { s with
      history := setQueryJob s.history job
      log := s.log ++ [(now, .received key)] } := by
  have hlookup := h.history_addresses.lookupBy_replace h.history_classes hqj haddress hcls
  have hwf := h.setRecent hqj haddress hcls htime
  have hjobs := hkey ▸ h.not_scheduled hqj
  refine Moves.of_event (.received key) (hwf.of_log _)
    (phase_recent hjobs (h.history_classes.lookupBy_eq.mpr ⟨hqj, hkey⟩)) ?_ ?_ rfl
    .receivedAgain
  · rw [← hdelivery]
    exact phase_recent hjobs ((hlookup key.cls).trans (if_pos hkey.symm))
  · intro other hother
    refine phase_congr rfl ?_
    exact (hlookup other).trans (if_neg fun hsame => hother (hsame.trans hkey))

theorem same_eq (qj : AvahiQueryJob) (key : NormalKey) :
    qj.key.same key = decide (qj.cls = key.cls) := by
  rw [Bool.eq_iff_iff, NormalKey.same_iff, decide_eq_true_eq]
  rfl

theorem findScheduledJob_eq (s : AvahiQueryScheduler) (key : NormalKey) :
    s.findScheduledJob key = lookupBy AvahiQueryJob.cls key.cls s.jobs := by
  rw [findScheduledJob, lookupBy]
  simp only [same_eq]

/-- What looking for a question in the history does, and finds. -/
theorem moves_findHistoryJob (h : s.Wf) (key : NormalKey) :
    s.Moves now (s.findHistoryJob now key).1 ∧ (s.findHistoryJob now key).1.jobs = s.jobs ∧
      (s.findHistoryJob now key).2 =
        lookupBy AvahiQueryJob.cls key.cls (s.findHistoryJob now key).1.history ∧
      ∀ qj, (s.findHistoryJob now key).2 = some qj →
        now ≤ qj.delivery + AVAHI_QUERY_HISTORY_MSEC * 1000 := by
  have hfind : (s.history.find? fun qj => qj.key.same key) =
      lookupBy AvahiQueryJob.cls key.cls s.history := by
    rw [lookupBy]
    simp only [same_eq]
  rw [findHistoryJob, hfind]
  cases hfound : lookupBy AvahiQueryJob.cls key.cls s.history with
  | none => exact ⟨.refl h, rfl, hfound.symm, fun qj hqj => by cases hqj⟩
  | some qj =>
      obtain ⟨hqj, hcls⟩ := mem_of_lookupBy hfound
      simp only
      split
      · refine ⟨moves_jobFree h hqj (by omega), rfl, ?_, fun qj hqj => by cases hqj⟩
        have hlookup := h.history_addresses.lookupBy_remove h.history_classes hqj key.cls
        exact (hlookup.trans (if_pos hcls.symm)).symm
      · refine ⟨.refl h, rfl, hfound.symm, ?_⟩
        intro other hother
        obtain rfl := Option.some.inj hother
        omega

/-- Scheduling a question that is not in the history. What is logged comes after. -/
theorem moves_schedule (h : s.Wf) {tv : Nat} (htv : tv ≤ now + AVAHI_QUERY_DEFER_MSEC * 1000)
    (key : NormalKey) (hrecent : lookupBy AvahiQueryJob.cls key.cls s.history = none) :
    s.Moves now ((s.schedule tv key).1.logged now (.posted key)) := by
  rw [schedule, findScheduledJob_eq]
  cases hfound : lookupBy AvahiQueryJob.cls key.cls s.jobs with
  | none =>
      exact @moves_addScheduled now s ⟨s.nextAddress, s.nextId, 1, key, tv, tv⟩ h rfl rfl rfl
        htv hfound hrecent
  | some qj =>
      obtain ⟨hqj, hcls⟩ := mem_of_lookupBy hfound
      have htime := h.scheduled qj hqj
      simp only
      refine moves_setScheduled h hqj ?_ ?_ ?_ ?_ ?_ ?_ hcls
      · rfl
      · rfl
      · rfl
      · simp only [htime]
      · simp only
        split
        · omega
        · exact Nat.le_refl _
      · simp only
        split
        · exact htv
        · omega

theorem moves_post (h : s.Wf) (key : NormalKey) (immediately : Bool) :
    s.Moves now (s.post now key immediately).1 := by
  obtain ⟨hmoves, hjobs, hhistory, hage⟩ := @moves_findHistoryJob now s h key
  rw [post]
  simp only
  cases hresult : (s.findHistoryJob now key).2 with
  | some qj =>
      simp only
      obtain ⟨hqj, hcls⟩ := mem_of_lookupBy (hhistory.symm.trans hresult)
      have hphase :=
        phase_recent (hcls ▸ hmoves.wf.not_scheduled hqj) (hhistory.symm.trans hresult)
      exact hmoves.trans (Moves.of_event (.refused key) (hmoves.wf.of_log _) hphase hphase
        (fun _ _ => rfl) rfl (.refused (hage qj hresult)))
  | none =>
      simp only
      refine hmoves.trans (moves_schedule hmoves.wf ?_ key (hhistory.symm.trans hresult))
      split
      · omega
      · exact Nat.le_refl _

theorem moves_incoming (h : s.Wf) (key : NormalKey) : s.Moves now (s.incoming now key) := by
  obtain ⟨hmoves, hjobs, hhistory, _⟩ := @moves_findHistoryJob now s h key
  rw [incoming, findScheduledJob_eq]
  cases hfound : lookupBy AvahiQueryJob.cls key.cls s.jobs with
  | some qj => exact moves_jobMarkDone h (mem_of_lookupBy hfound).1 .elsewhere
  | none =>
      simp only
      refine hmoves.trans ?_
      have hwf := hmoves.wf
      have hnone : lookupBy AvahiQueryJob.cls key.cls (s.findHistoryJob now key).1.jobs = none := by
        rwa [hjobs]
      generalize (s.findHistoryJob now key).1 = s at hwf hhistory hnone
      rw [hhistory]
      cases hrecent : lookupBy AvahiQueryJob.cls key.cls s.history with
      | none =>
          exact @moves_addRecent now s
            ⟨s.nextAddress, s.nextId, 1, key, now, now + AVAHI_QUERY_HISTORY_MSEC * 1000⟩
            hwf rfl rfl rfl hnone hrecent
      | some qj =>
          obtain ⟨hqj, hcls⟩ := mem_of_lookupBy hrecent
          simp only
          refine moves_setRecent hwf hqj ?_ ?_ ?_ ?_ hcls
          · rfl
          · rfl
          · rfl
          · rfl

end Operations

section Withdraw

/-- Jobs that are left are what they were, but for the number of their posters. -/
theorem mem_withdrawJobs {id : UInt32} {jobs : List AvahiQueryJob}
    (hqj : qj ∈ (withdrawJobs id jobs).1) :
    ∃ old ∈ jobs, ∃ n, qj = { old with nPosted := n } ∧ (0 < old.nPosted → 0 < n) := by
  induction jobs with
  | nil => cases hqj
  | cons first jobs ih =>
      rw [withdrawJobs] at hqj
      simp only at hqj
      split at hqj
      · exact ⟨qj, List.mem_cons_of_mem _ hqj, qj.nPosted, rfl, fun h => h⟩
      · rename_i hkept
        split at hqj
        · rename_i hid
          rcases List.mem_cons.mp hqj with rfl | hqj
          · have hmore : first.nPosted - 1 ≠ 0 := fun hzero => hkept ⟨hid, hzero⟩
            exact ⟨first, List.mem_cons_self .., first.nPosted - 1, rfl, by omega⟩
          · obtain ⟨old, hold, hsame⟩ := ih hqj
            exact ⟨old, List.mem_cons_of_mem _ hold, hsame⟩
        · rcases List.mem_cons.mp hqj with rfl | hqj
          · exact ⟨qj, List.mem_cons_self .., qj.nPosted, rfl, fun h => h⟩
          · obtain ⟨old, hold, hsame⟩ := ih hqj
            exact ⟨old, List.mem_cons_of_mem _ hold, hsame⟩

theorem withdrawJobs_sublist {β : Type} (f : AvahiQueryJob → β)
    (hf : ∀ qj n, f { qj with nPosted := n } = f qj) (id : UInt32) (jobs : List AvahiQueryJob) :
    ((withdrawJobs id jobs).1.map f).Sublist (jobs.map f) := by
  induction jobs with
  | nil => exact List.Sublist.refl _
  | cons first jobs ih =>
      rw [withdrawJobs]
      simp only
      split
      · exact List.sublist_cons_self _ _
      · split
        · rw [List.map_cons, List.map_cons, hf]
          exact ih.cons_cons _
        · exact ih.cons_cons _

theorem filter_own (event : QueryEvent) {cls : KeyClass} (h : event.cls = cls)
    (events : List QueryEvent) : (event :: events).filter (fun event => event.cls = cls) =
      event :: events.filter fun event => event.cls = cls := by
  apply List.filter_cons_of_pos
  exact decide_eq_true h

theorem filter_other (event : QueryEvent) {cls : KeyClass} (h : event.cls ≠ cls)
    (events : List QueryEvent) : (event :: events).filter (fun event => event.cls = cls) =
      events.filter fun event => event.cls = cls := by
  apply List.filter_cons_of_neg
  rw [decide_eq_true_eq]
  exact h

/-- What becomes of the job of one question. -/
theorem withdrawJobs_lookup (id : UInt32) {jobs : List AvahiQueryJob}
    (hclasses : Distinct AvahiQueryJob.cls jobs) (cls : KeyClass) :
    let left := lookupBy AvahiQueryJob.cls cls (withdrawJobs id jobs).1
    let events := (withdrawJobs id jobs).2.1.filter fun event => event.cls = cls
    (left = lookupBy AvahiQueryJob.cls cls jobs ∧ events = []) ∨
      ∃ qj, lookupBy AvahiQueryJob.cls cls jobs = some qj ∧
        ((qj.nPosted - 1 ≠ 0 ∧ left = some { qj with nPosted := qj.nPosted - 1 } ∧
          events = [.released qj.key]) ∨
        (qj.nPosted - 1 = 0 ∧ left = none ∧ events = [.withdrawn qj.key])) := by
  induction jobs with
  | nil => exact Or.inl ⟨rfl, rfl⟩
  | cons first jobs ih =>
      obtain ⟨hnew, hrest⟩ := distinct_cons.mp hclasses
      have hrecurse := ih hrest
      simp only at hrecurse ⊢
      rw [withdrawJobs]
      simp only
      by_cases hcls : first.cls = cls
      · -- No other job is about this question.
        have hnone : lookupBy AvahiQueryJob.cls cls jobs = none :=
          lookupBy_eq_none.mpr fun other hother hsame => hnew other hother (hsame.trans hcls.symm)
        have hfound : lookupBy AvahiQueryJob.cls cls (first :: jobs) = some first := by
          rw [lookupBy_cons, if_pos hcls]
        have hlater : lookupBy AvahiQueryJob.cls cls (withdrawJobs id jobs).1 = none ∧
            (withdrawJobs id jobs).2.1.filter (fun event => event.cls = cls) = [] := by
          rcases hrecurse with ⟨hleft, hevents⟩ | ⟨qj, hqj, _⟩
          · exact ⟨hleft.trans hnone, hevents⟩
          · rw [hnone] at hqj
            cases hqj
        split
        · rename_i hlast
          exact Or.inr ⟨first, hfound,
            Or.inr ⟨hlast.2, hnone, filter_own (.withdrawn first.key) hcls []⟩⟩
        · rename_i hkept
          split
          · rename_i hid
            refine Or.inr
              ⟨first, hfound, Or.inl ⟨fun hzero => hkept ⟨hid, hzero⟩, ?_, ?_⟩⟩
            · rw [lookupBy_cons, if_pos]
              exact hcls
            · rw [filter_own (.released first.key) hcls, hlater.2]
          · refine Or.inl ⟨?_, hlater.2⟩
            rw [hfound, lookupBy_cons, if_pos hcls]
      · have hfound : lookupBy AvahiQueryJob.cls cls (first :: jobs) =
          lookupBy AvahiQueryJob.cls cls jobs := by
          rw [lookupBy_cons, if_neg hcls]
        rw [hfound]
        split
        · exact Or.inl ⟨rfl, filter_other (.withdrawn first.key) hcls []⟩
        · split
          · have hsame :
                AvahiQueryJob.cls { first with nPosted := first.nPosted - 1 } ≠ cls := hcls
            rw [lookupBy_cons, if_neg hsame, filter_other (.released first.key) hcls]
            exact hrecurse
          · rw [lookupBy_cons, if_neg hcls]
            exact hrecurse

/-- Posters can withdraw. -/
theorem Wf.withdrawById (h : s.Wf) (id : UInt32) : (s.withdrawById now id).1.Wf := by
  refine ⟨?_, ?_, ?_, ?_, ?_, h.recent⟩
  · apply List.Nodup.sublist _ h.addresses
    rw [all, all, List.map_append, List.map_append]
    exact (withdrawJobs_sublist _ (fun _ _ => rfl) id s.jobs).append_right _
  · intro qj hqj
    rcases List.mem_append.mp hqj with hqj | hqj
    · obtain ⟨old, hold, n, rfl, _⟩ := mem_withdrawJobs hqj
      exact h.fresh old (List.mem_append_left _ hold)
    · exact h.fresh qj (List.mem_append_right _ hqj)
  · apply List.Nodup.sublist _ h.classes
    rw [all, all, List.map_append, List.map_append]
    exact (withdrawJobs_sublist _ (fun _ _ => rfl) id s.jobs).append_right _
  · intro qj hqj
    obtain ⟨old, hold, n, rfl, hpos⟩ := mem_withdrawJobs hqj
    exact hpos (h.posted old hold)
  · intro qj hqj
    obtain ⟨old, hold, n, rfl, _⟩ := mem_withdrawJobs hqj
    exact h.scheduled old hold

theorem moves_withdrawById (h : s.Wf) (id : UInt32) : s.Moves now (s.withdrawById now id).1 := by
  refine ⟨h.withdrawById id, fun cls => ?_⟩
  have hlog : (s.withdrawById now id).1.logOf cls = s.logOf cls ++
      ((withdrawJobs id s.jobs).2.1.filter fun event => event.cls = cls).map fun event =>
        (now, event) := by
    rw [logOf, withdrawById, List.filter_append, List.filter_map]
    rfl
  refine ⟨_, ?_, hlog⟩
  rcases withdrawJobs_lookup id h.jobs_classes cls
    with ⟨hleft, hevents⟩ | ⟨qj, hfound, hcase⟩
  · have hphase : (s.withdrawById now id).1.phase cls = s.phase cls := phase_congr hleft rfl
    rw [hevents, hphase]
    exact .refl _
  · obtain ⟨hqj, hcls⟩ := mem_of_lookupBy hfound
    have hpos := h.posted qj hqj
    rcases hcase with ⟨hmore, hleft, hevents⟩ | ⟨hone, hleft, hevents⟩
    · obtain ⟨n, hn⟩ : ∃ n, qj.nPosted = n + 2 := ⟨qj.nPosted - 2, by omega⟩
      rw [hevents, phase_wanted hfound, @phase_wanted (s.withdrawById now id).1 _ cls hleft]
      simp only [hn]
      exact QueryPhase.Step.released.single
    · have hnPosted : qj.nPosted = 1 := by omega
      have hidle : (s.withdrawById now id).1.phase cls = .idle :=
        phase_idle hleft (hcls ▸ h.not_recent hqj)
      rw [hevents, hidle, phase_wanted hfound, hnPosted]
      exact QueryPhase.Step.withdrawn.single

end Withdraw

end AvahiQueryScheduler

end NvmrDisplay.Avahi.Dns
