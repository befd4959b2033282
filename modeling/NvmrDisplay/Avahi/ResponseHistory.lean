import NvmrDisplay.Avahi.ResponseLife

/-!
Along every run of the response scheduler, every response has a life as
`ResponseLife.Lived` says: each operation on the lists of jobs is a step in the
life of one response, or several such steps.
-/

namespace NvmrDisplay.Avahi.Dns

open Discover Lib

/-- The response that an event is about. -/
def ResponseEvent.cls : ResponseEvent → RecordClass
  | .posted response | .refused response _ | .done _ response | .received response
  | .kept response | .dropped response => response.record.cls
  | .known record _ => record.cls

/-- The response that was sent, if one was. -/
def ResponseEvent.sentClass? : ResponseEvent → Option RecordClass
  | .done .sent response => some response.record.cls
  | .done .answered _ | .done .tooLarge _ | .posted _ | .refused _ _ | .received _ | .kept _
  | .dropped _ | .known _ _ => none

namespace AvahiResponseScheduler

variable {now : Nat} {s t : AvahiResponseScheduler} {rj job : AvahiResponseJob} {cls : RecordClass}

def phase (s : AvahiResponseScheduler) (cls : RecordClass) : Phase :=
  match lookupBy AvahiResponseJob.cls cls s.jobs with
  | some rj => .waiting rj.toResponse rj.timeEvent
  | none =>
      match lookupBy AvahiResponseJob.cls cls s.history with
      | some rj => .recent rj.toResponse rj.delivery
      | none => .idle

/-- How the lists of the scheduler show the life of one response. -/
def life (s : AvahiResponseScheduler) (cls : RecordClass) : ResponseLife where
  phase := s.phase cls
  known querier :=
    (lookupBy AvahiResponseJob.knownBy (cls, some querier) s.suppressed).map fun rj =>
      (rj.record, rj.delivery)

/-- The responses that were sent, and when. -/
def sent (s : AvahiResponseScheduler) : List (Nat × RecordClass) :=
  s.log.filterMap fun event => event.2.sentClass?.map fun cls => (event.1, cls)

def logOf (s : AvahiResponseScheduler) (cls : RecordClass) : List (Nat × ResponseEvent) :=
  s.log.filter fun event => event.2.cls = cls

section Phase

theorem phase_waiting (h : lookupBy AvahiResponseJob.cls cls s.jobs = some rj) :
    s.phase cls = .waiting rj.toResponse rj.timeEvent := by
  simp only [phase, h]

theorem phase_recent (hjobs : lookupBy AvahiResponseJob.cls cls s.jobs = none)
    (h : lookupBy AvahiResponseJob.cls cls s.history = some rj) :
    s.phase cls = .recent rj.toResponse rj.delivery := by
  simp only [phase, hjobs, h]

theorem phase_idle (hjobs : lookupBy AvahiResponseJob.cls cls s.jobs = none)
    (h : lookupBy AvahiResponseJob.cls cls s.history = none) : s.phase cls = .idle := by
  simp only [phase, hjobs, h]

/-- The phase is read from two lists alone. -/
theorem phase_congr
    (hjobs : lookupBy AvahiResponseJob.cls cls t.jobs = lookupBy AvahiResponseJob.cls cls s.jobs)
    (h : lookupBy AvahiResponseJob.cls cls t.history =
      lookupBy AvahiResponseJob.cls cls s.history) :
    t.phase cls = s.phase cls := by
  rw [phase, hjobs, h, phase]

theorem Wf.lookup_history (h : s.Wf) (hrj : rj ∈ s.history) :
    lookupBy AvahiResponseJob.cls rj.cls s.history = some rj :=
  h.history_classes.lookupBy_eq.mpr ⟨hrj, rfl⟩

/-- What is in the history is not scheduled. -/
theorem Wf.not_scheduled (h : s.Wf) (hrj : rj ∈ s.history) :
    lookupBy AvahiResponseJob.cls rj.cls s.jobs = none :=
  lookupBy_eq_none.mpr fun _ hother => h.not_both hother hrj

theorem Wf.not_recent (h : s.Wf) (hrj : rj ∈ s.jobs) :
    lookupBy AvahiResponseJob.cls rj.cls s.history = none :=
  lookupBy_eq_none.mpr fun _ hother => Ne.symm (h.not_both hrj hother)

end Phase

/-- One step of a scheduler: it changes the life of one response, and all that is
logged is about this response. -/
structure Changes (s t : AvahiResponseScheduler) (cls : RecordClass) (life : ResponseLife)
    (events : List (Nat × ResponseEvent)) : Prop where
  wf : t.Wf
  life : t.life = Function.update s.life cls life
  log : t.log = s.log ++ events
  about : ∀ event ∈ events, event.2.cls = cls

/-- The lists of the scheduler are in order, and every response has had a life
that is possible. -/
structure Good (now : Nat) (s : AvahiResponseScheduler) : Prop where
  wf : s.Wf
  lived : ∀ cls, (s.life cls).Lived now (s.logOf cls)

theorem Good.changes {life : ResponseLife} {events : List (Nat × ResponseEvent)} (h : s.Good now)
    (ht : s.Changes t cls life events) (hlived : life.Lived now (s.logOf cls ++ events)) :
    t.Good now := by
  refine ⟨ht.wf, ?_⟩
  intro other
  rw [logOf, ht.log, List.filter_append, ht.life]
  by_cases hother : other = cls
  · subst hother
    rw [Function.update_self, List.filter_eq_self.mpr fun event hmem =>
      decide_eq_true (ht.about event hmem)]
    exact hlived
  · have hnone : events.filter (fun event => event.2.cls = other) = [] := by
      apply List.filter_eq_nil_iff.mpr
      intro event hmem hsame
      exact hother ((of_decide_eq_true hsame).symm.trans (ht.about event hmem))
    rw [Function.update_of_ne hother, hnone, List.append_nil]
    exact h.lived other

section Steps

variable {life : ResponseLife}

theorem life_update (hself : t.life cls = life)
    (hother : ∀ other ≠ cls, t.life other = s.life other) :
    t.life = Function.update s.life cls life := by
  funext other
  by_cases hsame : other = cls
  · rw [hsame, Function.update_self]
    exact hself
  · rw [Function.update_of_ne hsame]
    exact hother other hsame

/-- Other responses than `cls` are where they were. -/
theorem life_of_lookups
    (hjobs : lookupBy AvahiResponseJob.cls cls t.jobs = lookupBy AvahiResponseJob.cls cls s.jobs)
    (hhistory : lookupBy AvahiResponseJob.cls cls t.history =
      lookupBy AvahiResponseJob.cls cls s.history)
    (hsuppressed : t.suppressed = s.suppressed) : t.life cls = s.life cls := by
  rw [life, life, phase_congr hjobs hhistory, hsuppressed]

theorem life_of_phase {phase : Phase} (hphase : t.phase cls = phase)
    (hsuppressed : t.suppressed = s.suppressed) : t.life cls = ⟨phase, (s.life cls).known⟩ := by
  rw [life, hphase, hsuppressed]
  rfl

theorem changes_freeHistory (h : s.Wf) (hrj : rj ∈ s.history) :
    s.Changes (s.jobFree .done rj.id) rj.cls ⟨.idle, (s.life rj.cls).known⟩ [] := by
  have hlookup := lookupBy_removeJob h.history_ids h.history_classes hrj
  refine ⟨h.jobFree .done rj.id, ?_, (List.append_nil _).symm,
    fun event hmem => absurd hmem List.not_mem_nil⟩
  apply life_update
  · apply life_of_phase _ rfl
    exact phase_idle (h.not_scheduled hrj) ((hlookup rj.cls).trans (if_pos rfl))
  · intro other hother
    exact life_of_lookups rfl ((hlookup other).trans (if_neg hother)) rfl

theorem changes_freeScheduled (h : s.Wf) (hrj : rj ∈ s.jobs) :
    s.Changes (s.jobFree .scheduled rj.id) rj.cls ⟨.idle, (s.life rj.cls).known⟩ [] := by
  have hlookup := lookupBy_removeJob h.jobs_ids h.jobs_classes hrj
  refine ⟨h.jobFree .scheduled rj.id, ?_, (List.append_nil _).symm,
    fun event hmem => absurd hmem List.not_mem_nil⟩
  apply life_update
  · apply life_of_phase _ rfl
    exact phase_idle ((hlookup rj.cls).trans (if_pos rfl)) (h.not_recent hrj)
  · intro other hother
    exact life_of_lookups ((hlookup other).trans (if_neg hother)) rfl rfl

theorem changes_freeSuppressed (h : s.Wf) (hrj : rj ∈ s.suppressed) {querier : AvahiAddress}
    (hquerier : rj.querier = some querier) :
    s.Changes (s.jobFree .suppressed rj.id) rj.cls
      ⟨s.phase rj.cls, Function.update (s.life rj.cls).known querier none⟩ [] := by
  have hlookup := lookupBy_removeJob h.suppressed_ids h.known hrj
  refine ⟨h.jobFree .suppressed rj.id, ?_, (List.append_nil _).symm,
    fun event hmem => absurd hmem List.not_mem_nil⟩
  have hknown (other : RecordClass) (who : AvahiAddress) :
      ((s.jobFree .suppressed rj.id).life other).known who =
        if other = rj.cls ∧ who = querier then none else (s.life other).known who := by
    have hpair : (other, some who) = rj.knownBy ↔ other = rj.cls ∧ who = querier := by
      rw [AvahiResponseJob.knownBy, hquerier, Prod.mk.injEq, Option.some_inj]
    change (lookupBy AvahiResponseJob.knownBy (other, some who)
      (removeJob s.suppressed rj.id)).map _ = _
    rw [hlookup]
    simp only [hpair]
    split
    · rfl
    · rfl
  apply life_update
  · rw [ResponseLife.mk.injEq]
    refine ⟨rfl, ?_⟩
    funext who
    rw [hknown, Function.update_apply]
    simp only [true_and]
  · intro other hother
    rw [ResponseLife.mk.injEq]
    refine ⟨rfl, ?_⟩
    funext who
    rw [hknown, if_neg fun hboth => hother hboth.1]

theorem changes_markDone (h : s.Wf) (hrj : rj ∈ s.jobs) (why : Done) :
    s.Changes (s.jobMarkDone now why rj) rj.cls
      ⟨.recent rj.toResponse now, (s.life rj.cls).known⟩
      [(now, .done why rj.toResponse)] := by
  have hlookup := lookupBy_removeJob h.jobs_ids h.jobs_classes hrj
  have hperm := h.jobs_ids.perm_cons hrj
  have hsublist := removeJob_sublist s.jobs rj.id
  have hold := h.fresh rj (List.mem_append_left _ hrj)
  refine ⟨⟨?_, ?_, ?_, h.known, ?_, ?_, h.suppressed⟩, ?_, rfl, ?_⟩
  · exact h.ids.move hperm rfl
  · intro other hother
    rcases List.mem_append.mp hother with hother | hother
    · exact h.fresh other (List.mem_append_left _ (hsublist.mem hother))
    · rcases List.mem_cons.mp hother with rfl | hother
      · exact hold
      · exact h.fresh other (List.mem_append_right _ hother)
  · exact h.classes.move hperm rfl
  · exact fun other hother => h.scheduled other (hsublist.mem hother)
  · intro other hother
    rcases List.mem_cons.mp hother with rfl | hother
    · rfl
    · exact h.recent other hother
  · apply life_update
    · have hfirst : lookupBy AvahiResponseJob.cls rj.cls (s.jobMarkDone now why rj).history =
          some { rj with
            delivery := now
            timeEvent := now + AVAHI_RESPONSE_HISTORY_MSEC * 1000 } :=
        lookupBy_cons.trans (if_pos rfl)
      apply life_of_phase _ rfl
      exact phase_recent ((hlookup rj.cls).trans (if_pos rfl)) hfirst
    · intro other hother
      refine life_of_lookups ?_ ?_ rfl
      · exact (hlookup other).trans (if_neg hother)
      · exact lookupBy_cons.trans (if_neg (Ne.symm hother))
  · intro event hmem
    obtain rfl := List.mem_singleton.mp hmem
    rfl

theorem same_eq (rj : AvahiResponseJob) (record : NormalRecord) :
    rj.record.same record = decide (rj.cls = record.cls) := by
  rw [Bool.eq_iff_iff, NormalRecord.same_iff, decide_eq_true_eq]
  rfl

theorem findScheduledJob_eq (s : AvahiResponseScheduler) (record : NormalRecord) :
    s.findScheduledJob record = lookupBy AvahiResponseJob.cls record.cls s.jobs := by
  rw [findScheduledJob, lookupBy]
  simp only [same_eq]

/-- Posting a response that is not in the history. -/
theorem changes_schedule (h : s.Wf) (tv : Nat) (new : Response) (querier : Option AvahiAddress)
    (hrecent : lookupBy AvahiResponseJob.cls new.record.cls s.history = none) :
    s.Changes (s.schedule tv new querier) new.record.cls
      ⟨(s.phase new.record.cls).post new tv, (s.life new.record.cls).known⟩ [] := by
  rw [schedule, findScheduledJob_eq]
  cases hfound : lookupBy AvahiResponseJob.cls new.record.cls s.jobs with
  | none =>
      simp only
      refine ⟨h.addScheduled rfl ?_ rfl, ?_, (List.append_nil _).symm,
        fun event hmem => absurd hmem List.not_mem_nil⟩
      · intro other hother
        rcases List.mem_append.mp hother with hother | hother
        · exact lookupBy_eq_none.mp hfound other hother
        · exact lookupBy_eq_none.mp hrecent other hother
      · rw [phase_idle hfound hrecent]
        apply life_update
        · have hfirst : lookupBy AvahiResponseJob.cls new.record.cls
              (⟨new, s.nextId, querier, tv, tv⟩ :: s.jobs) =
                some ⟨new, s.nextId, querier, tv, tv⟩ :=
            lookupBy_cons.trans (if_pos rfl)
          apply life_of_phase _ rfl
          exact phase_waiting (s := { s with
            jobs := ⟨new, s.nextId, querier, tv, tv⟩ :: s.jobs
            nextId := s.nextId + 1 }) hfirst
        · intro other hother
          refine life_of_lookups ?_ rfl rfl
          exact lookupBy_cons.trans (if_neg (Ne.symm hother))
  | some rj =>
      obtain ⟨hrj, hcls⟩ := mem_of_lookupBy hfound
      have htime := h.scheduled rj hrj
      simp only
      generalize hjob : ({ rj with
        delivery := if tv < rj.delivery then tv else rj.delivery
        timeEvent := if tv < rj.delivery then tv else rj.timeEvent
        flushCache := new.flushCache || rj.flushCache
        querier := if querier = none ∨ rj.querier ≠ none ∧ querier ≠ rj.querier then none
          else rj.querier
        record := new.record } : AvahiResponseJob) = job
      have hid : job.id = rj.id := hjob ▸ rfl
      have hkey : job.cls = rj.cls := by
        rw [← hjob, hcls]
        rfl
      have hjobTime : job.timeEvent = job.delivery := by
        rw [← hjob]
        simp only [htime]
      have hlookup := lookupBy_setJob h.jobs_ids h.jobs_classes hrj hid hkey
      refine ⟨h.setScheduled hrj hid hkey hjobTime, ?_, (List.append_nil _).symm,
        fun event hmem => absurd hmem List.not_mem_nil⟩
      apply life_update
      · apply life_of_phase _ rfl
        rw [phase_waiting ((hlookup new.record.cls).trans (if_pos hcls.symm)), phase_waiting hfound,
          ← hjob, Phase.post, htime]
      · intro other hother
        refine life_of_lookups ?_ rfl rfl
        exact (hlookup other).trans (if_neg fun hsame => hother (hsame.trans hcls))

theorem changes_setRecent (h : s.Wf) (new : Response) (hrj : rj ∈ s.history)
    (hcls : rj.cls = new.record.cls) :
    Changes s { s with
      history := setJob s.history
        { rj with
          record := new.record
          flushCache := new.flushCache
          querier := none
          delivery := now
          timeEvent := now + AVAHI_RESPONSE_HISTORY_MSEC * 1000 }
      log := s.log ++ [(now, .received new)] } new.record.cls
      ⟨.recent new now, (s.life new.record.cls).known⟩ [(now, .received new)] := by
  generalize hjob : ({ rj with
    record := new.record
    flushCache := new.flushCache
    querier := none
    delivery := now
    timeEvent := now + AVAHI_RESPONSE_HISTORY_MSEC * 1000 } : AvahiResponseJob) = job
  have hid : job.id = rj.id := hjob ▸ rfl
  have hkey : job.cls = rj.cls := by
    rw [← hjob, hcls]
    rfl
  have hlookup := lookupBy_setJob h.history_ids h.history_classes hrj hid hkey
  refine ⟨(h.setRecent hrj hid hkey (hjob ▸ rfl)).of_log _, ?_, rfl, ?_⟩
  · apply life_update
    · apply life_of_phase _ rfl
      rw [phase_recent (hcls ▸ h.not_scheduled hrj)
        ((hlookup new.record.cls).trans (if_pos hcls.symm)), ← hjob]
    · intro other hother
      refine life_of_lookups rfl ?_ rfl
      exact (hlookup other).trans (if_neg fun hsame => hother (hsame.trans hcls))
  · intro event hmem
    obtain rfl := List.mem_singleton.mp hmem
    rfl

theorem changes_addRecent (h : s.Wf) (new : Response)
    (hjobs : lookupBy AvahiResponseJob.cls new.record.cls s.jobs = none)
    (hrecent : lookupBy AvahiResponseJob.cls new.record.cls s.history = none) :
    Changes s { s with
      history :=
        ⟨new, s.nextId, none, now, now + AVAHI_RESPONSE_HISTORY_MSEC * 1000⟩ :: s.history
      nextId := s.nextId + 1
      log := s.log ++ [(now, .received new)] } new.record.cls
      ⟨.recent new now, (s.life new.record.cls).known⟩ [(now, .received new)] := by
  generalize hjob :
    (⟨new, s.nextId, none, now, now + AVAHI_RESPONSE_HISTORY_MSEC * 1000⟩ :
      AvahiResponseJob) = job
  have hkey : job.cls = new.record.cls := hjob ▸ rfl
  refine ⟨(h.addRecent (hjob ▸ rfl) ?_ (hjob ▸ rfl)).of_log _, ?_, rfl, ?_⟩
  · rw [hkey]
    intro other hother
    rcases List.mem_append.mp hother with hother | hother
    · exact lookupBy_eq_none.mp hjobs other hother
    · exact lookupBy_eq_none.mp hrecent other hother
  · apply life_update
    · apply life_of_phase _ rfl
      have hfirst : lookupBy AvahiResponseJob.cls new.record.cls (job :: s.history) = some job :=
        lookupBy_cons.trans (if_pos hkey)
      rw [phase_recent (s := { s with
        history := job :: s.history
        nextId := s.nextId + 1
        log := s.log ++ [(now, .received new)] }) hjobs hfirst, ← hjob]
    · intro other hother
      refine life_of_lookups rfl ?_ rfl
      exact lookupBy_cons.trans (if_neg fun hsame => hother (hsame.symm.trans hkey))
  · intro event hmem
    obtain rfl := List.mem_singleton.mp hmem
    rfl

/-- What a querier knows of the responses, when one more is known. -/
theorem changes_known (h : t.Wf) (hjobs : t.jobs = s.jobs) (hhistory : t.history = s.history)
    {record : NormalRecord} {querier : AvahiAddress} (hrecord : job.record = record)
    (hlookup : ∀ key, lookupBy AvahiResponseJob.knownBy key t.suppressed =
      if key = (record.cls, some querier) then some job
      else lookupBy AvahiResponseJob.knownBy key s.suppressed)
    (hlog : t.log = s.log ++ [(now, .known record querier)]) :
    s.Changes t record.cls ⟨s.phase record.cls,
      Function.update (s.life record.cls).known querier (some (record, job.delivery))⟩
      [(now, .known record querier)] := by
  have hphase (other : RecordClass) : t.phase other = s.phase other :=
    phase_congr (hjobs ▸ rfl) (hhistory ▸ rfl)
  have hknown (other : RecordClass) (who : AvahiAddress) : (t.life other).known who =
      if other = record.cls ∧ who = querier then some (record, job.delivery)
      else (s.life other).known who := by
    have hpair :
        (other, some who) = (record.cls, some querier) ↔ other = record.cls ∧ who = querier := by
      rw [Prod.mk.injEq, Option.some_inj]
    simp only [life, hlookup, hpair]
    split
    · rw [Option.map_some, hrecord]
    · rfl
  refine ⟨h, ?_, hlog, ?_⟩
  · apply life_update
    · rw [ResponseLife.mk.injEq]
      refine ⟨hphase _, ?_⟩
      funext who
      rw [hknown, Function.update_apply]
      simp only [true_and]
    · intro other hother
      rw [ResponseLife.mk.injEq]
      refine ⟨hphase other, ?_⟩
      funext who
      rw [hknown, if_neg fun hboth => hother hboth.1]
  · intro event hmem
    obtain rfl := List.mem_singleton.mp hmem
    rfl

theorem changes_addKnown (h : s.Wf) (record : NormalRecord) (querier : AvahiAddress)
    (hnone : lookupBy AvahiResponseJob.knownBy (record.cls, some querier) s.suppressed = none) :
    Changes s { s with
      suppressed := ⟨⟨record, false⟩, s.nextId, some querier, now,
        now + AVAHI_RESPONSE_SUPPRESS_MSEC * 1000⟩ :: s.suppressed
      nextId := s.nextId + 1
      log := s.log ++ [(now, .known record querier)] } record.cls
      ⟨s.phase record.cls, Function.update (s.life record.cls).known querier
        (some (record, now))⟩
      [(now, .known record querier)] := by
  generalize hjob : (⟨⟨record, false⟩, s.nextId, some querier, now,
    now + AVAHI_RESPONSE_SUPPRESS_MSEC * 1000⟩ : AvahiResponseJob) = job
  have hkey : job.knownBy = (record.cls, some querier) := hjob ▸ rfl
  have hnew : ∀ other ∈ s.suppressed, other.knownBy ≠ job.knownBy := by
    rw [hkey]
    exact lookupBy_eq_none.mp hnone
  have hwf :=
    (h.addSuppressed (hjob ▸ rfl) hnew (hjob ▸ Option.some_ne_none _) (hjob ▸ rfl)).of_log
      (s.log ++ [(now, .known record querier)])
  have hchanges := @changes_known now s _ job hwf rfl rfl record querier (hjob ▸ rfl) ?_ rfl
  · have hnow : job.delivery = now := hjob ▸ rfl
    rwa [hnow] at hchanges
  · intro key
    rw [lookupBy_cons, hkey]
    exact if_congr eq_comm rfl rfl

theorem changes_setKnown (h : s.Wf) {record : NormalRecord} {querier : AvahiAddress}
    (hrj : rj ∈ s.suppressed) (hknown : rj.knownBy = (record.cls, some querier)) :
    Changes s { s with
      suppressed := setJob s.suppressed
        { rj with
          record
          delivery := now
          timeEvent := now + AVAHI_RESPONSE_SUPPRESS_MSEC * 1000 }
      log := s.log ++ [(now, .known record querier)] } record.cls
      ⟨s.phase record.cls, Function.update (s.life record.cls).known querier
        (some (record, now))⟩
      [(now, .known record querier)] := by
  generalize hjob : ({ rj with
    record
    delivery := now
    timeEvent := now + AVAHI_RESPONSE_SUPPRESS_MSEC * 1000 } : AvahiResponseJob) = job
  have hquerier : rj.querier = some querier := congrArg Prod.snd hknown
  have hkey : job.knownBy = rj.knownBy := by
    rw [← hjob, hknown, ← hquerier]
    rfl
  have hwf := (h.setSuppressed hrj (hjob ▸ rfl) hkey (hjob ▸ rfl)).of_log
    (s.log ++ [(now, .known record querier)])
  have hchanges := @changes_known now s _ job hwf rfl rfl record querier (hjob ▸ rfl) ?_ rfl
  · have hnow : job.delivery = now := hjob ▸ rfl
    rwa [hnow] at hchanges
  · intro key
    rw [← hknown]
    exact lookupBy_setJob h.suppressed_ids h.known hrj (hjob ▸ rfl) hkey key

end Steps

section Operations

variable {life : ResponseLife} {record : NormalRecord} {querier : AvahiAddress}

theorem Changes.trans {u : AvahiResponseScheduler} {middle : ResponseLife}
    {first second : List (Nat × ResponseEvent)} (hst : s.Changes t cls middle first)
    (htu : t.Changes u cls life second) : s.Changes u cls life (first ++ second) := by
  refine ⟨htu.wf, ?_, ?_, ?_⟩
  · rw [htu.life, hst.life, Function.update_idem]
  · rw [htu.log, hst.log, List.append_assoc]
  · intro event hmem
    rcases List.mem_append.mp hmem with hmem | hmem
    · exact hst.about event hmem
    · exact htu.about event hmem

theorem changes_logged (h : s.Wf) {event : ResponseEvent} (hevent : event.cls = cls) :
    s.Changes (s.logged now event) cls (s.life cls) [(now, event)] := by
  refine ⟨h.of_log _, ?_, rfl, ?_⟩
  · rw [Function.update_eq_self]
    rfl
  · intro other hmem
    obtain rfl := List.mem_singleton.mp hmem
    exact hevent

/-- What is logged with a change. -/
theorem Changes.logged {event : ResponseEvent} (h : s.Changes t cls life [])
    (hevent : event.cls = cls) :
    s.Changes (t.logged now event) cls life [(now, event)] := by
  have hlog := @changes_logged now t cls h.wf event hevent
  rw [h.life, Function.update_self] at hlog
  exact h.trans hlog

/-- What looking into the history finds. -/
inductive HistoryFound (now : Nat) (s : AvahiResponseScheduler) (record : NormalRecord) :
    AvahiResponseScheduler × Option AvahiResponseJob → Prop where
  | found {rj : AvahiResponseJob} : rj ∈ s.history → rj.cls = record.cls →
      now < rj.delivery + (AVAHI_RESPONSE_HISTORY_MSEC + 1) * 1000 →
        HistoryFound now s record (s, some rj)
  | missing {t : AvahiResponseScheduler} : t.Good now → t.jobs = s.jobs → t.log = s.log →
      lookupBy AvahiResponseJob.cls record.cls t.history = none →
        HistoryFound now s record (t, none)

theorem findHistoryJob_found (h : s.Good now) (record : NormalRecord) :
    HistoryFound now s record (s.findHistoryJob now record) := by
  have hfind : (s.history.find? fun rj => rj.record.same record) =
      lookupBy AvahiResponseJob.cls record.cls s.history := by
    rw [lookupBy]
    simp only [same_eq]
  rw [findHistoryJob, hfind]
  cases hlookup : lookupBy AvahiResponseJob.cls record.cls s.history with
  | none => exact .missing h rfl rfl hlookup
  | some rj =>
      obtain ⟨hrj, hcls⟩ := mem_of_lookupBy hlookup
      have hmsec : AVAHI_RESPONSE_HISTORY_MSEC = 500 := rfl
      simp only
      split
      · have hfree := changes_freeHistory h.wf hrj
        refine .missing (h.changes hfree ?_) rfl rfl ?_
        · have hlived := h.lived rj.cls
          have hphase := phase_recent (h.wf.not_scheduled hrj) (h.wf.lookup_history hrj)
          rw [AvahiResponseScheduler.life, hphase] at hlived
          rw [List.append_nil]
          exact hlived.forget (by omega)
        · exact (lookupBy_removeJob h.wf.history_ids h.wf.history_classes hrj record.cls).trans
            (if_pos hcls.symm)
      · exact .found hrj hcls (by omega)

/-- What looking for what a querier knows finds. -/
inductive SuppressedFound (now : Nat) (s : AvahiResponseScheduler) (record : NormalRecord)
    (querier : AvahiAddress) : AvahiResponseScheduler × Option AvahiResponseJob → Prop where
  | found {rj : AvahiResponseJob} : rj ∈ s.suppressed →
      rj.knownBy = (record.cls, some querier) →
      now ≤ rj.delivery + AVAHI_RESPONSE_SUPPRESS_MSEC * 1000 →
      SuppressedFound now s record querier (s, some rj)
  | missing {t : AvahiResponseScheduler} : t.Good now → t.jobs = s.jobs →
      t.history = s.history → t.log = s.log →
      lookupBy AvahiResponseJob.knownBy (record.cls, some querier) t.suppressed = none →
      SuppressedFound now s record querier (t, none)

theorem findSuppressedJob_found (h : s.Good now) (record : NormalRecord) (querier : AvahiAddress) :
    SuppressedFound now s record querier (s.findSuppressedJob now record querier) := by
  have hkey (rj : AvahiResponseJob) :
      (rj.record.same record && decide (rj.querier = some querier)) =
      decide (rj.knownBy = (record.cls, some querier)) := by
    rw [same_eq, ← Bool.decide_and, AvahiResponseJob.knownBy]
    simp only [Prod.mk.injEq]
  have hfind : (s.suppressed.find? fun rj => rj.record.same record && rj.querier = some querier) =
      lookupBy AvahiResponseJob.knownBy (record.cls, some querier) s.suppressed := by
    rw [lookupBy]
    simp only [hkey]
  rw [findSuppressedJob, hfind]
  cases hlookup : lookupBy AvahiResponseJob.knownBy (record.cls, some querier) s.suppressed with
  | none => exact .missing h rfl rfl rfl hlookup
  | some rj =>
      obtain ⟨hrj, hknown⟩ := mem_of_lookupBy hlookup
      simp only
      split
      · have hquerier : rj.querier = some querier := congrArg Prod.snd hknown
        have hfree := changes_freeSuppressed h.wf hrj hquerier
        have hsame : (s.life rj.cls).known querier = some (rj.record, rj.delivery) := by
          have hself : (rj.cls, some querier) = (record.cls, some querier) := by
            rw [← hknown, AvahiResponseJob.knownBy, hquerier]
          rw [AvahiResponseScheduler.life]
          simp only [hself, hlookup, Option.map_some]
        refine .missing (h.changes hfree ?_) rfl rfl rfl ?_
        · rw [List.append_nil]
          exact (h.lived rj.cls).unlearn hsame (by omega)
        · exact (lookupBy_removeJob h.wf.suppressed_ids h.wf.known hrj _).trans
            (if_pos hknown.symm)
      · exact .found hrj hknown (by omega)

theorem Good.logged {event : ResponseEvent} (h : s.Good now) (hevent : event.cls = cls)
    (hlived : (s.life cls).Lived now (s.logOf cls ++ [(now, event)])) :
    (s.logged now event).Good now :=
  h.changes (changes_logged h.wf hevent) hlived

/-- What posting records with a property does to the scheduled jobs. -/
structure Posted (now : Nat) (P : NormalRecord → Prop) (s t : AvahiResponseScheduler) : Prop where
  good : t.Good now
  kept : ∀ rj ∈ s.jobs, ∃ other ∈ t.jobs, other.id = rj.id ∧ other.cls = rj.cls
  known : ∀ rj ∈ t.jobs, rj ∈ s.jobs ∨ P rj.record
  sent : t.sent = s.sent

variable {P : NormalRecord → Prop}

theorem Posted.of_jobs (h : t.Good now) (hjobs : t.jobs = s.jobs) (hsent : t.sent = s.sent) :
    Posted now P s t :=
  ⟨h, fun rj hrj => ⟨rj, hjobs ▸ hrj, rfl, rfl⟩, fun _ hrj => Or.inl (hjobs ▸ hrj),
    hsent⟩

theorem Posted.trans {u : AvahiResponseScheduler} (hst : Posted now P s t)
    (htu : Posted now P t u) : Posted now P s u := by
  refine ⟨htu.good, ?_, ?_, htu.sent.trans hst.sent⟩
  · intro rj hrj
    obtain ⟨other, hother, hid, hcls⟩ := hst.kept rj hrj
    obtain ⟨last, hlast, hlastId, hlastCls⟩ := htu.kept other hother
    exact ⟨last, hlast, hlastId.trans hid, hlastCls.trans hcls⟩
  · intro rj hrj
    rcases htu.known rj hrj with hrj | hrj
    · exact hst.known rj hrj
    · exact Or.inr hrj

theorem Posted.imp {Q : NormalRecord → Prop} (h : Posted now P s t)
    (hPQ : ∀ record, P record → Q record) : Posted now Q s t :=
  ⟨h.good, h.kept, fun rj hrj => (h.known rj hrj).imp_right (hPQ rj.record), h.sent⟩

theorem sent_logged (s : AvahiResponseScheduler) {event : ResponseEvent}
    (hevent : event.sentClass? = none) : (s.logged now event).sent = s.sent := by
  rw [sent, logged, List.filterMap_append, List.filterMap_cons]
  simp only [hevent, Option.map_none, List.filterMap_nil, List.append_nil]
  rfl

theorem sent_of_log (hlog : t.log = s.log) : t.sent = s.sent := by rw [sent, hlog, sent]

theorem schedule_sent (s : AvahiResponseScheduler) (tv : Nat) (new : Response)
    (querier : Option AvahiAddress) : (s.schedule tv new querier).sent = s.sent := by
  rw [schedule]
  split
  · rfl
  · rfl

theorem schedule_jobs (h : s.Wf) (tv : Nat) (new : Response) (querier : Option AvahiAddress) :
    (∀ rj ∈ s.jobs,
        ∃ other ∈ (s.schedule tv new querier).jobs, other.id = rj.id ∧ other.cls = rj.cls) ∧
      ∀ rj ∈ (s.schedule tv new querier).jobs, rj ∈ s.jobs ∨ rj.record = new.record := by
  rw [schedule, findScheduledJob_eq]
  cases hfound : lookupBy AvahiResponseJob.cls new.record.cls s.jobs with
  | none =>
      constructor
      · exact fun rj hrj => ⟨rj, List.mem_cons_of_mem _ hrj, rfl, rfl⟩
      · intro rj hrj
        rcases List.mem_cons.mp hrj with rfl | hrj
        · exact Or.inr rfl
        · exact Or.inl hrj
  | some old =>
      obtain ⟨hold, hcls⟩ := mem_of_lookupBy hfound
      constructor
      · intro rj hrj
        refine ⟨_, List.mem_map_of_mem hrj, ?_⟩
        by_cases hid : rj.id = old.id
        · rw [if_pos hid]
          refine ⟨hid.symm, ?_⟩
          rw [h.jobs_ids.eq hrj hold hid]
          exact hcls.symm
        · rw [if_neg hid]
          exact ⟨rfl, rfl⟩
      · intro rj hrj
        rcases mem_setJob hrj with rfl | hrj
        · exact Or.inr rfl
        · exact Or.inl hrj

theorem postUnlessRecent_posted (h : s.Good now) (jitter : Jitter) (new : Response)
    (querier : Option AvahiAddress) (immediately : Bool) :
    Posted now (· = new.record) s (s.postUnlessRecent now jitter new querier immediately).1 := by
  have hfound := findHistoryJob_found h new.record
  have hjitter := jitter.property
  have hdue : (if immediately then now else now + AVAHI_RESPONSE_DEFER_MSEC * 1000 + jitter) ≤
      now + (AVAHI_RESPONSE_DEFER_MSEC + AVAHI_RESPONSE_JITTER_MSEC) * 1000 := by
    have hdefer : AVAHI_RESPONSE_DEFER_MSEC = 20 := rfl
    have hmax : AVAHI_RESPONSE_JITTER_MSEC = 100 := rfl
    split
    · omega
    · omega
  rw [postUnlessRecent]
  generalize s.findHistoryJob now new.record = result at hfound ⊢
  cases hfound with
  | missing hgood hjobs hlog hnone =>
      rename_i t
      obtain ⟨hkept, hknown⟩ := schedule_jobs hgood.wf
        (if immediately then now else now + AVAHI_RESPONSE_DEFER_MSEC * 1000 + jitter) new querier
      rw [hjobs] at hkept hknown
      have hsent := (schedule_sent t (if immediately then now else
        now + AVAHI_RESPONSE_DEFER_MSEC * 1000 + jitter) new querier).trans (sent_of_log hlog)
      refine ⟨?_, hkept, hknown, (sent_logged _ rfl).trans hsent⟩
      apply hgood.changes ((changes_schedule hgood.wf _ new querier hnone).logged rfl)
      apply (hgood.lived new.record.cls).post new _ hdue
      intro old since hphase
      rw [AvahiResponseScheduler.life, phase, hnone] at hphase
      cases hlookup : lookupBy AvahiResponseJob.cls new.record.cls t.jobs with
      | none =>
          rw [hlookup] at hphase
          cases hphase
      | some rj =>
          rw [hlookup] at hphase
          cases hphase
  | found hrj hcls hsince =>
      rename_i rj
      have hlived := h.lived rj.cls
      have hphase := phase_recent (h.wf.not_scheduled hrj) (h.wf.lookup_history hrj)
      simp only [Option.any_some]
      by_cases hcovers : rj.toResponse.covers new = true
      · rw [if_pos hcovers]
        rw [AvahiResponseScheduler.life, hphase] at hlived
        refine .of_jobs ?_ rfl (sent_logged _ rfl)
        apply @Good.logged now s rj.cls (.refused new querier) h hcls.symm
        rw [AvahiResponseScheduler.life, hphase]
        exact hlived.refuse querier hcovers hsince
      · rw [if_neg hcovers]
        have hfree := changes_freeHistory h.wf hrj
        have hnone : lookupBy AvahiResponseJob.cls new.record.cls (s.jobFree .done rj.id).history =
            none :=
          (lookupBy_removeJob h.wf.history_ids h.wf.history_classes hrj new.record.cls).trans
            (if_pos hcls.symm)
        obtain ⟨hkept, hknown⟩ := schedule_jobs hfree.wf
          (if immediately then now else now + AVAHI_RESPONSE_DEFER_MSEC * 1000 + jitter) new querier
        refine ⟨?_, hkept, hknown, (sent_logged _ rfl).trans (schedule_sent _ _ _ _)⟩
        have hschedule := changes_schedule hfree.wf
          (if immediately then now else now + AVAHI_RESPONSE_DEFER_MSEC * 1000 + jitter)
          new querier hnone
        rw [hcls] at hfree
        have hidle : (s.jobFree .done rj.id).life new.record.cls =
            ⟨.idle, (s.life new.record.cls).known⟩ := by
          rw [hfree.life, Function.update_self]
        rw [hcls] at hlived hphase
        apply h.changes (hfree.trans (hschedule.logged rfl))
        have hpost := hlived.post new ?_ hdue
        · have hphaseIdle : (s.jobFree .done rj.id).phase new.record.cls = .idle :=
            congrArg ResponseLife.phase hidle
          rw [AvahiResponseScheduler.life, hphase] at hpost
          rw [hphaseIdle, congrArg ResponseLife.known hidle]
          exact hpost
        · intro old since hold
          rw [AvahiResponseScheduler.life, hphase] at hold
          cases hold
          exact Bool.not_eq_true _ ▸ hcovers

theorem known_of_suppressed (h : s.Wf) (hrj : rj ∈ s.suppressed)
    (hknown : rj.knownBy = (cls, some querier)) :
    (s.life cls).known querier = some (rj.record, rj.delivery) := by
  rw [AvahiResponseScheduler.life]
  simp only [h.known.lookupBy_eq.mpr ⟨hrj, hknown⟩, Option.map_some]

/-- Posting a record. -/
theorem post_posted (h : s.Good now) (jitter : Jitter) (record : PostedRecord) (flushCache : Bool)
    (querier : Option AvahiAddress) (immediately : Bool) :
    Posted now (· = record.toNormalRecord) s
      (s.post now jitter record flushCache querier immediately).1 := by
  unfold post
  cases querier with
  | none =>
      exact postUnlessRecent_posted h jitter ⟨record.toNormalRecord, flushCache⟩ none immediately
  | some querier =>
      have hfound := findSuppressedJob_found h record.toNormalRecord querier
      simp only
      generalize s.findSuppressedJob now record.toNormalRecord querier = result at hfound ⊢
      cases hfound with
      | missing hgood hjobs hhistory hlog hnone =>
          exact .trans (.of_jobs hgood hjobs (sent_of_log hlog))
            (postUnlessRecent_posted hgood jitter
              ⟨record.toNormalRecord, flushCache⟩ (some querier) immediately)
      | found hrj hknown hsince =>
          rename_i rj
          simp only [Option.any_some]
          by_cases hstands : rj.record.standsFor record.toNormalRecord = true
          · rw [if_pos hstands]
            refine .of_jobs ?_ rfl (sent_logged _ rfl)
            apply h.logged rfl
            exact (h.lived _).refuseKnown (known_of_suppressed h.wf hrj hknown) hstands hsince
          · rw [if_neg hstands]
            exact postUnlessRecent_posted h jitter ⟨record.toNormalRecord, flushCache⟩
              (some querier) immediately

theorem phase_of_scheduled (h : s.Wf) (hrj : rj ∈ s.jobs) (hcls : rj.cls = cls) :
    s.life cls = ⟨.waiting rj.toResponse rj.timeEvent, (s.life cls).known⟩ :=
  life_of_phase (phase_waiting (h.jobs_classes.lookupBy_eq.mpr ⟨hrj, hcls⟩)) rfl

theorem not_waiting (h : lookupBy AvahiResponseJob.cls cls s.jobs = none) (old : Response)
    (due : Nat) :
    (s.life cls).phase ≠ .waiting old due := by
  intro hphase
  rw [AvahiResponseScheduler.life, phase, h] at hphase
  cases hlookup : lookupBy AvahiResponseJob.cls cls s.history with
  | none =>
      rw [hlookup] at hphase
      cases hphase
  | some rj =>
      rw [hlookup] at hphase
      cases hphase

/-- A scheduled job is marked done. -/
theorem jobMarkDone_good (h : s.Good now) (hrj : rj ∈ s.jobs) (why : Done) :
    (s.jobMarkDone now why rj).Good now := by
  have hlived := h.lived rj.cls
  rw [phase_of_scheduled h.wf hrj rfl] at hlived
  exact h.changes (changes_markDone h.wf hrj why) (hlived.finish why)

/-- A response of another host. -/
theorem incoming_good (h : s.Good now) (record : NormalRecord) (flushCache : Bool) :
    (s.incoming now record flushCache).Good now := by
  rw [incoming, findScheduledJob_eq]
  cases hlookup : lookupBy AvahiResponseJob.cls record.cls s.jobs with
  | some rj =>
      obtain ⟨hrj, hcls⟩ := mem_of_lookupBy hlookup
      simp only
      by_cases hcovers : Response.covers ⟨record, flushCache⟩ rj.toResponse = true
      · rw [if_pos hcovers]
        exact jobMarkDone_good h hrj .answered
      · rw [if_neg hcovers]
        have hlived := h.lived record.cls
        have hreceived :=
          @changes_logged now s record.cls h.wf (.received ⟨record, flushCache⟩) rfl
        have hkept := @changes_logged now _ record.cls hreceived.wf (.kept rj.toResponse) hcls
        apply h.changes (hreceived.trans hkept)
        rw [hreceived.life, Function.update_self]
        rw [phase_of_scheduled h.wf hrj hcls] at hlived ⊢
        exact hlived.keep (Bool.not_eq_true _ ▸ hcovers)
  | none =>
      have hfound := findHistoryJob_found h record
      simp only
      generalize s.findHistoryJob now record = result at hfound ⊢
      cases hfound with
      | missing hgood hjobs hlog hnone =>
          have hscheduled := hjobs ▸ hlookup
          apply hgood.changes (changes_addRecent hgood.wf ⟨record, flushCache⟩ hscheduled hnone)
          exact (hgood.lived record.cls).receive _ (not_waiting hscheduled)
      | found hrj hcls hsince =>
          apply h.changes (changes_setRecent h.wf ⟨record, flushCache⟩ hrj hcls)
          exact (h.lived record.cls).receive _ (not_waiting hlookup)

theorem dropKnown_good (h : s.Good now) (record : NormalRecord) (querier : AvahiAddress) :
    (s.dropKnown now record querier).Good now := by
  rw [dropKnown, findScheduledJob_eq]
  cases hlookup : lookupBy AvahiResponseJob.cls record.cls s.jobs with
  | none => exact h
  | some rj =>
      obtain ⟨hrj, hcls⟩ := mem_of_lookupBy hlookup
      simp only
      split
      · have hlived := h.lived rj.cls
        rw [phase_of_scheduled h.wf hrj rfl] at hlived
        exact h.changes ((changes_freeScheduled h.wf hrj).logged rfl) hlived.drop
      · exact h

/-- A known answer. -/
theorem suppress_good (h : s.Good now) (record : NormalRecord) (querier : AvahiAddress) :
    (s.suppress now record querier).Good now := by
  have hdropped := dropKnown_good h record querier
  have hfound := findSuppressedJob_found hdropped record querier
  rw [suppress]
  generalize s.dropKnown now record querier = t at hdropped hfound ⊢
  simp only
  generalize t.findSuppressedJob now record querier = result at hfound ⊢
  cases hfound with
  | missing hgood hjobs hhistory hlog hnone =>
      apply hgood.changes (changes_addKnown hgood.wf record querier hnone)
      exact (hgood.lived record.cls).learn record querier
  | found hrj hknown hsince =>
      apply hdropped.changes (changes_setKnown hdropped.wf hrj hknown)
      exact (hdropped.lived record.cls).learn record querier

/-- What belongs to a record is posted. -/
theorem enumerateAuxRecords_posted (h : s.Good now) (jitter : Jitter) (id : Nat)
    (records : List (PostedRecord × Bool)) :
    Posted now (fun record => ∃ posted ∈ records, record = posted.1.toNormalRecord) s
      (s.enumerateAuxRecords now jitter id records) := by
  rw [enumerateAuxRecords]
  induction records generalizing s with
  | nil => exact .of_jobs h rfl rfl
  | cons posted records ih =>
      obtain ⟨record, flushCache⟩ := posted
      rw [List.foldl_cons]
      have hfirst := post_posted h jitter record flushCache
        ((s.jobs.find? fun rj => rj.id = id).bind fun rj => rj.querier) false
      apply (hfirst.imp _).trans ((ih hfirst.good).imp _)
      · rintro _ rfl
        exact ⟨_, List.mem_cons_self .., rfl⟩
      · rintro _ ⟨other, hother, rfl⟩
        exact ⟨other, List.mem_cons_of_mem _ hother, rfl⟩

/-- The job with an identity. -/
theorem Wf.find_id (h : s.Wf) (hrj : rj ∈ s.jobs) :
    (s.jobs.find? fun other => other.id = rj.id) = some rj :=
  h.jobs_ids.lookupBy_eq.mpr ⟨hrj, rfl⟩

theorem sent_jobMarkDone (s : AvahiResponseScheduler) (why : Done) (rj : AvahiResponseJob) :
    (s.jobMarkDone now why rj).sent =
      s.sent ++ if why = .sent then [(now, rj.cls)] else [] := by
  rw [sent, jobMarkDone, List.filterMap_append]
  cases why
  · rfl
  · rfl
  · rfl

/-- Once its record is in the packet, a job is done. -/
theorem packetAddResponseJob_added (h : s.Good now) (hrj : rj ∈ s.jobs) (aux : AuxRecords)
    (jitter : Jitter) (p : AvahiDnsPacket) :
    match s.packetAddResponseJob now aux jitter p rj with
    | .added q t =>
        (∃ offset, p.appendRecord rj.record.record rj.flushCache 0 = .ok q offset) ∧
          t.Good now ∧
          t.sent = s.sent ++ [(now, rj.cls)] ∧
          ∀ other ∈ t.jobs, other ∈ s.jobs ∨ ∃ posted ∈ aux rj.record,
            other.record = posted.1.toNormalRecord
    | .full => ∃ q, p.appendRecord rj.record.record rj.flushCache 0 = .null q
    | .undefined => p.appendRecord rj.record.record rj.flushCache 0 = .undefined := by
  rw [packetAddResponseJob]
  cases happend : p.appendRecord rj.record.record rj.flushCache 0 with
  | null q => exact ⟨q, rfl⟩
  | undefined => rfl
  | ok q offset =>
      have hposted := enumerateAuxRecords_posted h jitter rj.id (aux rj.record)
      simp only
      generalize s.enumerateAuxRecords now jitter rj.id (aux rj.record) = t at hposted ⊢
      obtain ⟨other, hother, hid, hcls⟩ := hposted.kept rj hrj
      rw [← hid, hposted.good.wf.find_id hother]
      refine ⟨⟨offset, rfl⟩, jobMarkDone_good hposted.good hother .sent, ?_, ?_⟩
      · rw [sent_jobMarkDone, if_pos rfl, hposted.sent, hcls]
      · exact fun last hlast => hposted.known last ((removeJob_sublist t.jobs other.id).mem hlast)

/-- The packet is filled with the first jobs. -/
theorem fillResponse_good (aux : AuxRecords) (jitter : Jitter) (fuel : Nat) {p q : AvahiDnsPacket}
    {taken all : List Response} (h : s.Good now)
    (hfill : fillResponse now aux jitter fuel p s taken = some (q, t, all)) : t.Good now := by
  induction fuel generalizing p s taken with
  | zero =>
      rw [fillResponse] at hfill
      obtain ⟨_, rfl, _⟩ := hfill
      exact h
  | succ fuel ih =>
      rw [fillResponse] at hfill
      cases hjobs : s.jobs with
      | nil =>
          rw [hjobs] at hfill
          obtain ⟨_, rfl, _⟩ := hfill
          exact h
      | cons rj jobs =>
          have hadded := packetAddResponseJob_added h (hjobs ▸ List.mem_cons_self ..) aux jitter p
          rw [hjobs] at hfill
          simp only at hfill
          cases hadd : s.packetAddResponseJob now aux jitter p rj with
          | undefined =>
              rw [hadd] at hfill
              cases hfill
          | full =>
              rw [hadd] at hfill
              obtain ⟨_, rfl, _⟩ := hfill
              exact h
          | added p' s' =>
              rw [hadd] at hfill hadded
              exact ih hadded.2.1 hfill

theorem sendResponsePacket_good (h : s.Good now) (hrj : rj ∈ s.jobs) (aux : AuxRecords)
    (jitter : Jitter) (mtu : Nat) {packet : Option AvahiDnsPacket}
    (hsend : s.sendResponsePacket now aux jitter mtu rj = some (t, packet)) : t.Good now := by
  rw [sendResponsePacket] at hsend
  have hadded := packetAddResponseJob_added h hrj aux jitter (.newResponse mtu true)
  cases hadd : s.packetAddResponseJob now aux jitter (.newResponse mtu true) rj with
  | undefined =>
      rw [hadd] at hsend
      cases hsend
  | added p s' =>
      rw [hadd] at hsend hadded
      simp only at hsend
      cases hfill : fillResponse now aux jitter p.maxSize p s' [rj.toResponse] with
      | none =>
          rw [hfill] at hsend
          cases hsend
      | some result =>
          obtain ⟨q, u, taken⟩ := result
          rw [hfill] at hsend
          obtain ⟨rfl, _⟩ := Prod.mk.inj (Option.some.inj hsend)
          exact fillResponse_good aux jitter p.maxSize hadded.2.1 hfill
  | full =>
      rw [hadd] at hsend
      simp only at hsend
      have hagain := packetAddResponseJob_added h hrj aux jitter (.newResponse
        (rj.record.record.estimateSize + AVAHI_DNS_PACKET_HEADER_SIZE +
          AVAHI_DNS_PACKET_EXTRA_SIZE) true)
      cases hsecond : s.packetAddResponseJob now aux jitter (.newResponse
        (rj.record.record.estimateSize + AVAHI_DNS_PACKET_HEADER_SIZE +
          AVAHI_DNS_PACKET_EXTRA_SIZE) true) rj with
      | undefined =>
          rw [hsecond] at hsend
          cases hsend
      | added p s' =>
          rw [hsecond] at hsend hagain
          obtain ⟨rfl, _⟩ := Prod.mk.inj (Option.some.inj hsend)
          exact hagain.2.1
      | full =>
          rw [hsecond] at hsend
          obtain ⟨rfl, _⟩ := Prod.mk.inj (Option.some.inj hsend)
          exact jobMarkDone_good h hrj .tooLarge

theorem removeJob_of_not_mem {jobs : List AvahiResponseJob} {id : Nat}
    (h : ∀ rj ∈ jobs, rj.id ≠ id) : removeJob jobs id = jobs :=
  List.filter_eq_self.mpr fun rj hrj => decide_eq_true (h rj hrj)

/-- A job that is not scheduled any more is freed when its time has come. -/
theorem free_good (h : s.Good now) (hrj : rj ∈ s.history ++ s.suppressed)
    (hdue : rj.timeEvent ≤ now) :
    ((s.jobFree .done rj.id).jobFree .suppressed rj.id).Good now := by
  have hother {other : AvahiResponseJob} (hmem : other ∈ s.history ++ s.suppressed)
      (hid : other.id = rj.id) : other = rj :=
    h.wf.ids.eq (List.mem_append_right _ hmem) (List.mem_append_right _ hrj) hid
  have hdisjoint {other : AvahiResponseJob} (hhistory : other ∈ s.history)
      (hsuppressed : other ∈ s.suppressed) : False := by
    have hids : Distinct AvahiResponseJob.id (s.history ++ s.suppressed) :=
      h.wf.ids.sublist (List.sublist_append_right _ _)
    rw [Distinct, List.map_append, List.nodup_append] at hids
    exact hids.2.2 _ (List.mem_map_of_mem hhistory) _ (List.mem_map_of_mem hsuppressed) rfl
  rcases List.mem_append.mp hrj with hhistory | hsuppressed
  · have hkept : (s.jobFree .done rj.id).jobFree .suppressed rj.id = s.jobFree .done rj.id := by
      have hnone : removeJob s.suppressed rj.id = s.suppressed := by
        apply removeJob_of_not_mem
        intro other hmem hid
        exact hdisjoint hhistory (hother (List.mem_append_right _ hmem) hid ▸ hmem)
      rw [jobFree, jobFree, hnone]
    rw [hkept]
    apply h.changes (changes_freeHistory h.wf hhistory)
    have hlived := h.lived rj.cls
    rw [AvahiResponseScheduler.life, phase_recent (h.wf.not_scheduled hhistory)
      (h.wf.lookup_history hhistory)] at hlived
    have htime := h.wf.recent rj hhistory
    rw [List.append_nil]
    exact hlived.forget (by omega)
  · obtain ⟨hquerier, htime⟩ := h.wf.suppressed rj hsuppressed
    obtain ⟨querier, hsome⟩ := Option.ne_none_iff_exists'.mp hquerier
    have hkept : s.jobFree .done rj.id = s := by
      have hnone : removeJob s.history rj.id = s.history := by
        apply removeJob_of_not_mem
        intro other hmem hid
        exact hdisjoint (hother (List.mem_append_left _ hmem) hid ▸ hmem) hsuppressed
      rw [jobFree, hnone]
    rw [hkept]
    apply h.changes (changes_freeSuppressed h.wf hsuppressed hsome)
    rw [List.append_nil]
    apply (h.lived rj.cls).unlearn (known_of_suppressed h.wf hsuppressed _) (by omega)
    rw [AvahiResponseJob.knownBy, hsome]

theorem elapseCallback_good (h : s.Good now) (hrj : rj ∈ s.all) (hdue : rj.timeEvent ≤ now)
    (aux : AuxRecords) (jitter : Jitter) (mtu : Nat) {packet : Option AvahiDnsPacket}
    (helapse : s.elapseCallback now aux jitter mtu rj.id = some (t, packet)) : t.Good now := by
  rw [elapseCallback] at helapse
  cases hfound : s.jobs.find? fun other => other.id = rj.id with
  | some job =>
      rw [hfound] at helapse
      exact sendResponsePacket_good h (List.mem_of_find?_eq_some hfound) aux jitter mtu helapse
  | none =>
      rw [hfound] at helapse
      obtain ⟨rfl, _⟩ := Prod.mk.inj (Option.some.inj helapse)
      rcases List.mem_append.mp hrj with hjobs | hrj
      · exact absurd (decide_eq_true rfl) (List.find?_eq_none.mp hfound rj hjobs)
      · exact free_good h hrj hdue

end Operations

theorem Good.wait (h : s.Good now) {later : Nat} (hle : now ≤ later) : s.Good later :=
  ⟨h.wf, fun cls => (h.lived cls).wait hle⟩

end AvahiResponseScheduler

namespace ResponseHost

open AvahiResponseScheduler

/-- What a step can do. -/
inductive Stepped (host : ResponseHost) (now : Nat) : ResponseInput → ResponseHost → Prop where
  | post (jitter : Jitter) (record : PostedRecord) (flushCache : Bool)
      (querier : Option AvahiAddress) (immediately : Bool) :
      Stepped host now (.post jitter record flushCache querier immediately)
        { host with
          scheduler := (host.scheduler.post now jitter record flushCache querier immediately).1
          now }
  | incoming (record : NormalRecord) (flushCache : Bool) :
      Stepped host now (.incoming record flushCache)
        { host with scheduler := host.scheduler.incoming now record flushCache, now }
  | suppress (record : NormalRecord) (querier : AvahiAddress) :
      Stepped host now (.suppress record querier)
        { host with scheduler := host.scheduler.suppress now record querier, now }
  | elapse {aux : AuxRecords} {jitter : Jitter} {mtu : Nat} {rj : AvahiResponseJob}
      {t : AvahiResponseScheduler} {packet : Option AvahiDnsPacket}
      (hrj : rj ∈ host.scheduler.all) (hdue : rj.timeEvent ≤ now)
      (helapse : host.scheduler.elapseCallback now aux jitter mtu rj.id = some (t, packet)) :
      Stepped host now (.elapse aux jitter mtu rj.id)
        ⟨t, now, host.packets ++ packet.toList.map fun p => (now, p)⟩

theorem step_spec {host after : ResponseHost} {now : Nat} {input : ResponseInput}
    (hstep : host.step (now, input) = some after) :
    host.now ≤ now ∧ Stepped host now input after := by
  unfold step at hstep
  simp only at hstep
  split at hstep
  · cases hstep
  · rename_i hlater
    refine ⟨Nat.le_of_not_lt hlater, ?_⟩
    cases input with
    | post jitter record flushCache querier immediately =>
        obtain rfl := Option.some.inj hstep
        exact .post jitter record flushCache querier immediately
    | incoming record flushCache =>
        obtain rfl := Option.some.inj hstep
        exact .incoming record flushCache
    | suppress record querier =>
        obtain rfl := Option.some.inj hstep
        exact .suppress record querier
    | elapse aux jitter mtu id =>
        simp only at hstep
        split at hstep
        · rename_i hdue
          obtain ⟨rj, hrj, hany⟩ := List.any_eq_true.mp hdue
          rw [Bool.and_eq_true, decide_eq_true_eq, decide_eq_true_eq] at hany
          obtain ⟨rfl, htime⟩ := hany
          obtain ⟨⟨t, packet⟩, helapse, rfl⟩ := Option.map_eq_some_iff.mp hstep
          exact .elapse hrj htime helapse
        · cases hstep

/-- One step of the host. -/
theorem step_good {host after : ResponseHost} {event : Nat × ResponseInput}
    (h : host.scheduler.Good host.now) (hstep : host.step event = some after) :
    after.scheduler.Good after.now := by
  obtain ⟨now, input⟩ := event
  obtain ⟨hlater, hstepped⟩ := step_spec hstep
  have hnow := h.wait hlater
  cases hstepped with
  | post jitter record flushCache querier immediately =>
      exact (post_posted hnow jitter record flushCache querier immediately).good
  | incoming record flushCache => exact incoming_good hnow record flushCache
  | suppress record querier => exact suppress_good hnow record querier
  | elapse hrj hdue helapse => exact elapseCallback_good hnow hrj hdue _ _ _ helapse

/-- The lists of a scheduler are in order and the lives of all responses possible,
after every run. -/
theorem run_good (events : List (Nat × ResponseInput)) (host : ResponseHost)
    (hrun : machine.run events = some host) : host.scheduler.Good host.now := by
  refine machine.run_induction (P := fun _ host => host.scheduler.Good host.now) ?_ ?_ events
    host hrun
  · exact ⟨new_wf, fun cls => .start⟩
  · intro _ before event after _ hbefore hstep
    exact step_good hbefore hstep

end ResponseHost

end NvmrDisplay.Avahi.Dns
