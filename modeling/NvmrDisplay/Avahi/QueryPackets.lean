import NvmrDisplay.Avahi.KnownAnswers
import NvmrDisplay.Avahi.QueryHistory
import NvmrDisplay.Avahi.ResponsePackets

/-!
Whole runs of the query scheduler, with the packets it sends.
-/

namespace NvmrDisplay.Avahi.Dns

open Lib

namespace AvahiQueryScheduler

variable {now mtu : Nat} {s t : AvahiQueryScheduler} {walk : CacheWalk}

theorem moves_fillQuery {turns n n' : Nat} {p q : AvahiDnsPacket} {known known' : List AvahiRecord}
    (h : s.Wf) (hfill : s.fillQuery now walk turns p known n = some (q, t, known', n')) :
    s.Moves now t := by
  induction turns generalizing s p known n with
  | zero =>
      obtain ⟨_, hrest⟩ := Prod.mk.inj (Option.some.inj hfill)
      obtain ⟨rfl, _⟩ := Prod.mk.inj hrest
      exact .refl h
  | succ turns ih =>
      rw [fillQuery] at hfill
      cases hjobs : s.jobs with
      | nil =>
          rw [hjobs] at hfill
          obtain ⟨_, hrest⟩ := Prod.mk.inj (Option.some.inj hfill)
          obtain ⟨rfl, _⟩ := Prod.mk.inj hrest
          exact .refl h
      | cons qj rest =>
          have hdone := @moves_jobMarkDone now s qj h (hjobs ▸ List.mem_cons_self ..) .here
          rw [hjobs] at hfill
          simp only at hfill
          rw [packetAddQueryJob] at hfill
          cases hresult : p.appendKey qj.key.key false with
          | undefined =>
              rw [hresult] at hfill
              cases hfill
          | null q' =>
              rw [hresult] at hfill
              obtain ⟨_, hrest⟩ := Prod.mk.inj (Option.some.inj hfill)
              obtain ⟨rfl, _⟩ := Prod.mk.inj hrest
              exact .refl h
          | ok q' offset =>
              rw [hresult] at hfill
              exact hdone.trans (ih hdone.wf hfill)

/-- What elapses is a job that is scheduled, or one whose time in the history is
over. -/
theorem moves_elapse (h : s.Wf) {address : Nat}
    (hdue : s.all.any fun qj => qj.address = address && qj.timeEvent ≤ now)
    {sent : List AvahiDnsPacket}
    (helapse : s.elapseCallback now walk mtu address = some (t, sent)) : s.Moves now t := by
  rw [elapseCallback] at helapse
  cases hfound : s.jobs.find? fun qj => qj.address = address with
  | some qj =>
      rw [hfound] at helapse
      simp only at helapse
      rw [sendQuery, packetAddQueryJob] at helapse
      have hdone := @moves_jobMarkDone now s qj h (List.mem_of_find?_eq_some hfound) .here
      cases hresult : (AvahiDnsPacket.newQuery mtu).appendKey qj.key.key false with
      | undefined =>
          rw [hresult] at helapse
          cases helapse
      | null q =>
          rw [hresult] at helapse
          cases helapse
      | ok q offset =>
          rw [hresult] at helapse
          simp only at helapse
          split at helapse
          · cases helapse
          · rename_i hfill
            obtain ⟨packets, _, hpair⟩ := Option.map_eq_some_iff.mp helapse
            obtain ⟨rfl, _⟩ := Prod.mk.inj hpair
            exact hdone.trans (moves_fillQuery hdone.wf hfill)
  | none =>
      rw [hfound] at helapse
      obtain ⟨rfl, _⟩ := Prod.mk.inj (Option.some.inj helapse)
      obtain ⟨qj, hqj, hboth⟩ := List.any_eq_true.mp hdue
      obtain ⟨haddress, htime⟩ := Bool.and_eq_true_iff.mp hboth
      obtain rfl := of_decide_eq_true haddress
      rcases List.mem_append.mp hqj with hqj | hqj
      · have hnot := List.find?_eq_none.mp hfound qj hqj
        exact absurd (decide_eq_true rfl) hnot
      · apply moves_jobFree h hqj
        rw [← h.recent qj hqj]
        exact of_decide_eq_true htime

end AvahiQueryScheduler

namespace QueryHost

open AvahiQueryScheduler

/-- The lists are in order, and every question has had a life that is possible. -/
structure Good (host : QueryHost) : Prop where
  wf : host.scheduler.Wf
  lived : ∀ cls, (host.scheduler.phase cls).Lived host.now (host.scheduler.logOf cls)

theorem Good.moves {host after : QueryHost} (h : host.Good) (hle : host.now ≤ after.now)
    (hmoves : host.scheduler.Moves after.now after.scheduler) : after.Good := by
  refine ⟨hmoves.wf, fun cls => ?_⟩
  obtain ⟨events, hsteps, hlog⟩ := hmoves.steps cls
  rw [hlog]
  exact ((h.lived cls).later hle).steps hsteps

/-- What a step can do. -/
inductive Stepped (host : QueryHost) (now : Nat) : QueryInput → QueryHost → Prop where
  | post (key : NormalKey) (immediately : Bool) :
      Stepped host now (.post key immediately)
        { host with scheduler := (host.scheduler.post now key immediately).1, now }
  | incoming (key : NormalKey) :
      Stepped host now (.incoming key)
        { host with scheduler := host.scheduler.incoming now key, now }
  | withdraw (id : UInt32) :
      Stepped host now (.withdraw id)
        { host with scheduler := (host.scheduler.withdrawById now id).1, now }
  | elapse {walk : CacheWalk} {mtu address : Nat} {t : AvahiQueryScheduler}
      {sent : List AvahiDnsPacket}
      (hdue : host.scheduler.all.any fun qj => qj.address = address && qj.timeEvent ≤ now)
      (helapse : host.scheduler.elapseCallback now walk mtu address = some (t, sent)) :
      Stepped host now (.elapse walk mtu address) ⟨t, now, host.packets ++ [(now, sent)]⟩

theorem step_spec {host after : QueryHost} {now : Nat} {input : QueryInput}
    (hstep : host.step (now, input) = some after) :
    host.now ≤ now ∧ Stepped host now input after := by
  unfold step at hstep
  simp only at hstep
  split at hstep
  · cases hstep
  · rename_i hlater
    refine ⟨Nat.le_of_not_lt hlater, ?_⟩
    cases input with
    | post key immediately =>
        obtain rfl := Option.some.inj hstep
        exact .post key immediately
    | incoming key =>
        obtain rfl := Option.some.inj hstep
        exact .incoming key
    | withdraw id =>
        obtain rfl := Option.some.inj hstep
        exact .withdraw id
    | elapse walk mtu address =>
        simp only at hstep
        split at hstep
        · rename_i hdue
          obtain ⟨⟨t, sent⟩, helapse, rfl⟩ := Option.map_eq_some_iff.mp hstep
          exact .elapse hdue helapse
        · cases hstep

theorem step_good {host after : QueryHost} {event : Nat × QueryInput} (h : host.Good)
    (hstep : host.step event = some after) : after.Good := by
  obtain ⟨now, input⟩ := event
  obtain ⟨hlater, hstepped⟩ := step_spec hstep
  cases hstepped with
  | post key immediately => exact h.moves hlater (moves_post h.wf key immediately)
  | incoming key => exact h.moves hlater (moves_incoming h.wf key)
  | withdraw id => exact h.moves hlater (moves_withdrawById h.wf id)
  | elapse hdue helapse => exact h.moves hlater (moves_elapse h.wf hdue helapse)

theorem run_good (events : List (Nat × QueryInput)) (host : QueryHost)
    (hrun : machine.run events = some host) : host.Good := by
  refine machine.run_induction (P := fun _ host => host.Good) ?_ ?_ events host hrun
  · refine ⟨new_wf,
      fun cls => ⟨.nil, ⟨rfl, fun event hmem => absurd hmem List.not_mem_nil⟩, ?_⟩⟩
    intro before t key after hlog
    exact absurd hlog (List.append_ne_nil_of_right_ne_nil _ (List.cons_ne_nil _ _)).symm
  · intro earlier before event after _ hbefore hstep
    exact step_good hbefore hstep

end QueryHost

/-- Inputs with which the packets can be filled: questions and answers that can be
sent, and packets with room for a question. -/
def QueryInput.Publishable : QueryInput → Prop
  | .post key _ | .incoming key => key.key.Sendable
  | .withdraw _ => True
  | .elapse walk mtu _ => SendableWalk walk ∧ mtu ≤ AVAHI_DNS_PACKET_SIZE_MAX ∧
      AVAHI_DNS_PACKET_HEADER_SIZE + QUESTION_SIZE_MAX ≤ (AvahiDnsPacket.newQuery mtu).maxSize

/-- The questions that were asked here, and when. -/
def AvahiQueryScheduler.asked (s : AvahiQueryScheduler) : List (Nat × AvahiKey) :=
  s.log.filterMap fun event => match event.2 with
    | .done .here key => some (event.1, key.key)
    | .done .elsewhere _ | .posted _ | .refused _ | .received _ | .released _ | .withdrawn _ => none

/-- The questions in packets, as they arrive. -/
def questionsOnAir (packets : List (Nat × List AvahiDnsPacket)) : List (Nat × AvahiKey) :=
  packets.flatMap fun packet => packet.2.flatMap fun p =>
    (queryKeys p.data).1.map fun key => (packet.1, key.1)

/-- Only the first packet of a query has questions. -/
theorem QuerySent.questions {packets : List AvahiDnsPacket} {keys : List AvahiKey}
    {answers : List (AvahiRecord × Bool)} (h : QuerySent packets keys answers) :
    packets.flatMap (fun p => (queryKeys p.data).1) = keys.map fun k => (k, false) := by
  induction h with
  | last hread => rw [List.flatMap_singleton, hread.keys]
  | more hread _ ih => rw [List.flatMap_cons, hread.keys, ih, List.map_nil, List.append_nil]

theorem QuerySent.valid {packets : List AvahiDnsPacket} {keys : List AvahiKey}
    {answers : List (AvahiRecord × Bool)} (h : QuerySent packets keys answers) :
    ∀ p ∈ packets, checkValidMulticast p.data = true ∧ isQuery p.data = true := by
  induction h with
  | last hread =>
      intro p hp
      obtain rfl := List.mem_singleton.mp hp
      exact ⟨hread.valid, hread.query⟩
  | more hread _ ih =>
      intro p hp
      rcases List.mem_cons.mp hp with rfl | hp
      · exact ⟨hread.valid, hread.query⟩
      · exact ih p hp

theorem QuerySent.onAir {packets : List AvahiDnsPacket} {keys : List NormalKey}
    {answers : List (AvahiRecord × Bool)} (h : QuerySent packets (keys.map NormalKey.key) answers)
    (now : Nat) : questionsOnAir [(now, packets)] = keys.map fun k => (now, k.key) := by
  have hmap : (packets.flatMap fun p => (queryKeys p.data).1.map fun key => (now, key.1)) =
      (packets.flatMap fun p => (queryKeys p.data).1).map fun key => (now, key.1) :=
    List.map_flatMap.symm
  rw [questionsOnAir, List.flatMap_singleton, hmap, h.questions, List.map_map, List.map_map]
  rfl

namespace AvahiQueryScheduler

variable {now : Nat} {s t u : AvahiQueryScheduler} {key : NormalKey}

theorem asked_of_log {events : List (Nat × QueryEvent)} (hlog : t.log = s.log ++ events)
    (hnone : ∀ event ∈ events, ∀ key, event.2 ≠ .done .here key) : t.asked = s.asked := by
  rw [asked, hlog, List.filterMap_append, ← asked, List.filterMap_eq_nil_iff.mpr, List.append_nil]
  intro event hmem
  have hevent := hnone event hmem
  split
  · rename_i key hhere
    exact absurd hhere (hevent key)
  · rfl
  · rfl
  · rfl
  · rfl
  · rfl
  · rfl

/-- What is asked is what is logged. -/
theorem asked_of_askedNow {keys : List NormalKey} (hlog : t.log = s.log ++ askedNow now keys) :
    t.asked = s.asked ++ keys.map fun k => (now, k.key) := by
  have hsome (keys : List NormalKey) :
      (askedNow now keys).filterMap (fun event => match event.2 with
      | .done .here key => some (event.1, key.key)
      | .done .elsewhere _ | .posted _ | .refused _ | .received _ | .released _ | .withdrawn _ =>
          none) =
      keys.map fun k => (now, k.key) := by
    induction keys with
    | nil => rfl
    | cons k keys ih => exact congrArg ((now, k.key) :: ·) ih
  rw [asked, hlog, List.filterMap_append, ← asked, hsome]

/-- An operation that asks nothing itself, with one question. -/
structure Quietly (key : NormalKey) (s t : AvahiQueryScheduler) : Prop where
  asked : t.asked = s.asked
  keys : ∀ qj ∈ t.all, qj.key = key ∨ ∃ old ∈ s.all, old.key = qj.key

theorem Quietly.asks (h : Quietly key s t) (hs : s.Asks) (hkey : key.key.Sendable) : t.Asks := by
  intro qj hqj
  rcases h.keys qj hqj with rfl | ⟨old, hold, hsame⟩
  · exact hkey
  · exact hsame ▸ hs old hold

theorem Quietly.trans (h : Quietly key s t) (hmore : Quietly key t u) : Quietly key s u := by
  refine ⟨hmore.asked.trans h.asked, fun qj hqj => ?_⟩
  rcases hmore.keys qj hqj with hkey | ⟨middle, hmiddle, hsame⟩
  · exact Or.inl hkey
  · rcases h.keys middle hmiddle with hkey | ⟨old, hold, hother⟩
    · exact Or.inl (hsame.symm.trans hkey)
    · exact Or.inr ⟨old, hold, hother.trans hsame⟩

/-- Every job is one that was there, or has the question. -/
theorem Quietly.of_jobs {events : List (Nat × QueryEvent)}
    (hjobs : ∀ qj ∈ t.jobs, qj.key = key ∨ ∃ old ∈ s.jobs, old.key = qj.key)
    (hhistory : ∀ qj ∈ t.history, qj.key = key ∨ ∃ old ∈ s.all, old.key = qj.key)
    (hlog : t.log = s.log ++ events)
    (hnone : ∀ event ∈ events, ∀ key, event.2 ≠ .done .here key) :
    Quietly key s t := by
  refine ⟨asked_of_log hlog hnone, fun qj hqj => ?_⟩
  rcases List.mem_append.mp hqj with hqj | hqj
  · rcases hjobs qj hqj with hkey | ⟨old, hold, hsame⟩
    · exact Or.inl hkey
    · exact Or.inr ⟨old, List.mem_append_left _ hold, hsame⟩
  · exact hhistory qj hqj

theorem kept (jobs : List AvahiQueryJob) (key : NormalKey) :
    ∀ qj ∈ jobs, qj.key = key ∨ ∃ old ∈ jobs, old.key = qj.key :=
  fun qj hqj => Or.inr ⟨qj, hqj, rfl⟩

theorem kept_history (s : AvahiQueryScheduler) (key : NormalKey) :
    ∀ qj ∈ s.history, qj.key = key ∨ ∃ old ∈ s.all, old.key = qj.key :=
  fun qj hqj => Or.inr ⟨qj, List.mem_append_right _ hqj, rfl⟩

theorem not_here {event : QueryEvent} (hevent : ∀ key, event ≠ .done .here key) :
    ∀ other ∈ [(now, event)], ∀ key, other.2 ≠ .done .here key := by
  intro other hother
  obtain rfl := List.mem_singleton.mp hother
  exact hevent

theorem mem_of_findHistoryJob {qj : AvahiQueryJob} (h : (s.findHistoryJob now key).2 = some qj) :
    qj ∈ (s.findHistoryJob now key).1.history := by
  rw [findHistoryJob] at h ⊢
  cases hfound : s.history.find? fun qj => qj.key.same key with
  | none =>
      rw [hfound] at h
      cases h
  | some other =>
      rw [hfound] at h
      simp only at h ⊢
      split at h
      · cases h
      · rename_i hyoung
        obtain rfl := Option.some.inj h
        rw [if_neg hyoung]
        exact List.mem_of_find?_eq_some hfound

theorem withdrawJobs_events {id : UInt32} {jobs : List AvahiQueryJob} {event : QueryEvent}
    (h : event ∈ (withdrawJobs id jobs).2.1) : ∀ key, event ≠ .done .here key := by
  induction jobs with
  | nil => cases h
  | cons first jobs ih =>
      rw [withdrawJobs] at h
      simp only at h
      split at h
      · obtain rfl := List.mem_singleton.mp h
        exact fun key hhere => by cases hhere
      · split at h
        · rcases List.mem_cons.mp h with rfl | h
          · exact fun key hhere => by cases hhere
          · exact ih h
        · exact ih h

theorem quietly_findHistoryJob (s : AvahiQueryScheduler) (now : Nat) (key : NormalKey) :
    Quietly key s (s.findHistoryJob now key).1 := by
  have hnothing :
      ∀ event ∈ ([] : List (Nat × QueryEvent)), ∀ key, event.2 ≠ .done .here key :=
    fun event hmem => absurd hmem List.not_mem_nil
  have hsame : Quietly key s s :=
    .of_jobs (kept s.jobs key) (kept_history s key) (List.append_nil _).symm hnothing
  rw [findHistoryJob]
  split
  · exact hsame
  · split
    · refine .of_jobs (kept s.jobs key) ?_ (List.append_nil _).symm hnothing
      intro qj hqj
      exact kept_history s key qj (List.mem_of_mem_filter hqj)
    · exact hsame

theorem quietly_schedule (s : AvahiQueryScheduler) (tv now : Nat) (key : NormalKey) :
    Quietly key s ((s.schedule tv key).1.logged now (.posted key)) := by
  have hposted := @not_here now (.posted key) fun key h => by cases h
  rw [schedule]
  split
  · rename_i qj hfound
    refine .of_jobs ?_ (kept_history s key) rfl hposted
    intro other hother
    rcases mem_replace hother with rfl | hother
    · exact Or.inr ⟨qj, List.mem_of_find?_eq_some hfound, rfl⟩
    · exact kept s.jobs key other hother
  · refine .of_jobs ?_ (kept_history s key) rfl hposted
    intro other hother
    rcases List.mem_cons.mp hother with rfl | hother
    · exact Or.inl rfl
    · exact kept s.jobs key other hother

theorem quietly_post (s : AvahiQueryScheduler) (now : Nat) (key : NormalKey) (immediately : Bool) :
    Quietly key s (s.post now key immediately).1 := by
  have hfind := quietly_findHistoryJob s now key
  rw [post]
  simp only
  cases (s.findHistoryJob now key).2 with
  | some qj =>
      simp only
      refine hfind.trans (.of_jobs (kept _ key) (kept_history _ key) rfl ?_)
      exact not_here fun key h => by cases h
  | none =>
      simp only
      exact hfind.trans (quietly_schedule _ _ now key)

theorem quietly_incoming (s : AvahiQueryScheduler) (now : Nat) (key : NormalKey) :
    Quietly key s (s.incoming now key) := by
  have hfind := quietly_findHistoryJob s now key
  have hreceived := @not_here now (.received key) fun key h => by cases h
  rw [incoming]
  split
  · rename_i qj hfound
    have hqj := List.mem_of_find?_eq_some hfound
    refine .of_jobs ?_ ?_ rfl (not_here fun key h => by cases h)
    · intro other hother
      exact kept s.jobs key other (List.mem_of_mem_filter hother)
    · intro other hother
      rcases List.mem_cons.mp hother with rfl | hother
      · exact Or.inr ⟨qj, List.mem_append_left _ hqj, rfl⟩
      · exact kept_history s key other hother
  · simp only
    refine hfind.trans ?_
    cases hfound : (s.findHistoryJob now key).2 with
    | none =>
        refine .of_jobs (kept _ key) ?_ rfl hreceived
        intro other hother
        rcases List.mem_cons.mp hother with rfl | hother
        · exact Or.inl rfl
        · exact kept_history _ key other hother
    | some qj =>
        refine .of_jobs (kept _ key) ?_ rfl hreceived
        intro other hother
        rcases mem_replace hother with rfl | hother
        · have hqj := mem_of_findHistoryJob hfound
          exact Or.inr ⟨qj, List.mem_append_right _ hqj, rfl⟩
        · exact kept_history _ key other hother

theorem quietly_withdrawById (s : AvahiQueryScheduler) (now : Nat) (id : UInt32) :
    (s.withdrawById now id).1.asked = s.asked ∧ (s.Asks → (s.withdrawById now id).1.Asks) := by
  constructor
  · apply asked_of_log rfl
    intro event hmem key hhere
    obtain ⟨other, hother, rfl⟩ := List.mem_map.mp hmem
    exact withdrawJobs_events hother key hhere
  · intro hs qj hqj
    rcases List.mem_append.mp hqj with hqj | hqj
    · obtain ⟨old, hold, n, rfl, _⟩ := mem_withdrawJobs hqj
      exact hs old (List.mem_append_left _ hold)
    · exact hs qj (List.mem_append_right _ hqj)

end AvahiQueryScheduler

namespace QueryHost

open AvahiQueryScheduler

/-- All that is scheduled can be sent, and what was marked as asked here is what
was received. -/
structure Honest (host : QueryHost) : Prop where
  asks : host.scheduler.Asks
  packets : ∀ packet ∈ host.packets, ∀ p ∈ packet.2,
    checkValidMulticast p.data = true ∧ isQuery p.data = true
  asked : host.scheduler.asked = questionsOnAir host.packets

variable {host after : QueryHost}

/-- When a job elapses no assertion fails. -/
theorem Honest.elapse (h : host.Honest) {now mtu address : Nat} {walk : CacheWalk}
    (hinput : (QueryInput.elapse walk mtu address).Publishable) :
    ∃ t sent, host.scheduler.elapseCallback now walk mtu address = some (t, sent) ∧
      Honest ⟨t, now, host.packets ++ [(now, sent)]⟩ := by
  obtain ⟨hwalk, hmtu, hroom⟩ := hinput
  have hpackets (sent : List AvahiDnsPacket)
      (hsent : ∀ p ∈ sent, checkValidMulticast p.data = true ∧ isQuery p.data = true) :
      ∀ packet ∈ host.packets ++ [(now, sent)], ∀ p ∈ packet.2,
        checkValidMulticast p.data = true ∧ isQuery p.data = true := by
    intro packet hpacket
    rcases List.mem_append.mp hpacket with hpacket | hpacket
    · exact h.packets packet hpacket
    · obtain rfl := List.mem_singleton.mp hpacket
      exact hsent
  rw [elapseCallback]
  cases hfound : host.scheduler.jobs.find? fun qj => qj.address = address with
  | none =>
      refine ⟨_, [], rfl, ?_, hpackets [] fun p hp => absurd hp List.not_mem_nil, ?_⟩
      · intro qj hqj
        rcases List.mem_append.mp hqj with hqj | hqj
        · exact h.asks qj (List.mem_append_left _ hqj)
        · exact h.asks qj (List.mem_append_right _ (List.mem_of_mem_filter hqj))
      · rw [questionsOnAir, List.flatMap_append, ← questionsOnAir, ← h.asked]
        exact (List.append_nil _).symm
  | some qj =>
      obtain ⟨t, sent, asked, kept, hsend, hasks, hlog, hsent, _, _⟩ :=
        @sendQuery_spec now mtu host.scheduler walk h.asks qj
          (List.mem_of_find?_eq_some hfound) hwalk hroom hmtu
      refine ⟨t, sent, hsend, hasks, hpackets sent hsent.valid, ?_⟩
      rw [questionsOnAir, List.flatMap_append, ← questionsOnAir, ← questionsOnAir, hsent.onAir,
        asked_of_askedNow hlog, h.asked]

theorem step_honest {event : Nat × QueryInput} (h : host.Honest) (hevent : event.2.Publishable)
    (hstep : host.step event = some after) : after.Honest := by
  obtain ⟨now, input⟩ := event
  obtain ⟨_, hstepped⟩ := step_spec hstep
  cases hstepped with
  | post key immediately =>
      have hquiet := quietly_post host.scheduler now key immediately
      exact ⟨hquiet.asks h.asks hevent, h.packets, hquiet.asked.trans h.asked⟩
  | incoming key =>
      have hquiet := quietly_incoming host.scheduler now key
      exact ⟨hquiet.asks h.asks hevent, h.packets, hquiet.asked.trans h.asked⟩
  | withdraw id =>
      obtain ⟨hasked, hasks⟩ := quietly_withdrawById host.scheduler now id
      exact ⟨hasks h.asks, h.packets, hasked.trans h.asked⟩
  | @elapse walk mtu address _ _ _ helapse =>
      obtain ⟨t, sent, hresult, honest⟩ := @Honest.elapse host h now mtu address walk hevent
      obtain ⟨rfl, rfl⟩ := Prod.mk.inj (Option.some.inj (helapse.symm.trans hresult))
      exact honest

theorem run_honest {events : List (Nat × QueryInput)} {host : QueryHost}
    (hevents : ∀ event ∈ events, event.2.Publishable) (hrun : machine.run events = some host) :
    host.Honest := by
  refine machine.run_induction
    (P := fun events host => (∀ event ∈ events, event.2.Publishable) → host.Honest) ?_ ?_
    events host hrun hevents
  · intro _
    exact ⟨fun qj hqj => absurd hqj List.not_mem_nil,
      fun packet hmem => absurd hmem List.not_mem_nil, rfl⟩
  · intro earlier before event after _ hbefore hstep hall
    apply step_honest (hbefore fun other hother => hall other (List.mem_append_left _ hother)) _
      hstep
    exact hall event (List.mem_append_right _ (List.mem_singleton_self _))

end QueryHost

/-- The question for the address of `pi.local`. -/
def piQuestion : NormalKey where
  key := ⟨[112, 105, 46, 108, 111, 99, 97, 108], AVAHI_DNS_CLASS_IN, AVAHI_DNS_TYPE_A⟩
  normal := by
    obtain ⟨labels, hlabels, _, hname, hfits⟩ := sendableName_pi
    exact ⟨labels, hlabels, hname, hfits⟩

theorem piQuestion_sendable : piQuestion.key.Sendable := ⟨sendableName_pi, by decide, by decide⟩

/-- Two callers post the question, and one withdraws it. It is asked once, with the
answer that is known, and not again at once. -/
def piQueries : List (Nat × QueryInput) :=
  [(0, .post piQuestion false), (10000, .post piQuestion false), (20000, .withdraw 0),
    (100000, .elapse (fun _ => [piAddress.record]) 1500 0), (150000, .post piQuestion true)]

namespace QueryHost

theorem piQueries_run : ∃ host after, machine.run piQueries = some host ∧ host.now = 150000 ∧
    host.scheduler.jobs = [] ∧
      host.scheduler.logOf piQuestion.cls = [] ++ (0, .posted piQuestion) :: after :=
  ⟨_, _, rfl, rfl, rfl, rfl⟩

/-- In every run, a question is accepted or asked only when it was not on air for a
tenth of a second, and refused only when it was; it is asked only while one of
those who posted it has not withdrawn it; and it is dropped only when the last of
them withdraws it. -/
theorem questions_fair {events : List (Nat × QueryInput)} {host : QueryHost}
    (hrun : machine.run events = some host) (cls : KeyClass) :
    Throughout FairQuery (host.scheduler.logOf cls) :=
  ((run_good events host hrun).lived cls).fair

theorem piQueries_fair : ∃ host, machine.run piQueries = some host ∧
    Throughout FairQuery (host.scheduler.logOf piQuestion.cls) := by
  obtain ⟨host, _, hrun, _⟩ := piQueries_run
  exact ⟨host, hrun, questions_fair hrun piQuestion.cls⟩

/-- In every run with questions that can be sent, all receivers accept the packets,
and the questions they read are those that the scheduler marked as asked, when it
did. No assertion fails when the time of a job has come. -/
theorem questions_received {events : List (Nat × QueryInput)} {host : QueryHost}
    (hevents : ∀ event ∈ events, event.2.Publishable) (hrun : machine.run events = some host) :
    (∀ packet ∈ host.packets, ∀ p ∈ packet.2,
        checkValidMulticast p.data = true ∧ isQuery p.data = true) ∧
      host.scheduler.asked = questionsOnAir host.packets ∧
      ∀ qj ∈ host.scheduler.all, ∀ now walk mtu, host.now ≤ now → qj.timeEvent ≤ now →
        (QueryInput.elapse walk mtu qj.address).Publishable →
          (host.step (now, .elapse walk mtu qj.address)).isSome = true := by
  have honest := run_honest hevents hrun
  refine ⟨honest.packets, honest.asked, ?_⟩
  intro qj hqj now walk mtu hle hdue hinput
  obtain ⟨t, sent, helapse, _⟩ := @Honest.elapse host honest now mtu qj.address walk hinput
  have hany : (host.scheduler.all.any fun other =>
      other.address = qj.address && other.timeEvent ≤ now) = true := by
    rw [List.any_eq_true]
    refine ⟨qj, hqj, ?_⟩
    rw [Bool.and_eq_true, decide_eq_true_eq, decide_eq_true_eq]
    exact ⟨rfl, hdue⟩
  rw [step]
  simp only
  rw [if_neg (Nat.not_lt.mpr hle), if_pos hany, helapse]
  rfl

theorem piQueries_publishable : ∀ event ∈ piQueries, event.2.Publishable := by
  intro event hevent
  simp only [piQueries, List.mem_cons, List.not_mem_nil, or_false] at hevent
  rcases hevent with rfl | rfl | rfl | rfl | rfl
  · exact piQuestion_sendable
  · exact piQuestion_sendable
  · trivial
  · refine ⟨fun k record hrecord => ?_, by decide, by decide⟩
    obtain rfl := List.mem_singleton.mp hrecord
    exact ⟨sendableName_pi, trivial⟩
  · exact piQuestion_sendable

theorem piQueries_received : ∃ host, machine.run piQueries = some host ∧
    (∀ packet ∈ host.packets, ∀ p ∈ packet.2,
        checkValidMulticast p.data = true ∧ isQuery p.data = true) ∧
      host.scheduler.asked = questionsOnAir host.packets ∧
      ∀ qj ∈ host.scheduler.all, ∀ now walk mtu, host.now ≤ now → qj.timeEvent ≤ now →
        (QueryInput.elapse walk mtu qj.address).Publishable →
          (host.step (now, .elapse walk mtu qj.address)).isSome = true := by
  obtain ⟨host, _, hrun, _⟩ := piQueries_run
  exact ⟨host, hrun, questions_received piQueries_publishable hrun⟩

end QueryHost

end NvmrDisplay.Avahi.Dns
