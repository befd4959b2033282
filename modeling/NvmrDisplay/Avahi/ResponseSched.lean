import NvmrDisplay.Avahi.DnsMessage
import NvmrDisplay.Avahi.RecordEquality
import NvmrDisplay.Discover.EmbeddedAvahiBrowse
import NvmrDisplay.Lib.Keyed
import NvmrDisplay.Lib.Machine

/-!
The response scheduler of an interface, `avahi-core/response-sched.c`. Responses
wait for a moment before they are sent, so that they are sent together, and so
that what somebody else has sent meanwhile, or the querier already knows, is not
sent at all. Times are in microseconds.
-/

namespace NvmrDisplay.Avahi.Dns

open Discover Lib

/-- Local packets are suppressed this long after sending them. -/
abbrev AVAHI_RESPONSE_HISTORY_MSEC : Nat := 500

/-- Local packets are deferred this long before sending them. -/
abbrev AVAHI_RESPONSE_DEFER_MSEC : Nat := 20

/-- Additional jitter for deferred packets. -/
abbrev AVAHI_RESPONSE_JITTER_MSEC : Nat := 100

/-- Remote packets can suppress local traffic as long as this value. -/
abbrev AVAHI_RESPONSE_SUPPRESS_MSEC : Nat := 700

/-- A record and whether it flushes the cache of who receives it. -/
structure Response where
  record : NormalRecord
  flushCache : Bool
  deriving DecidableEq

/-- `rj->record->ttl >= record->ttl/2` of two goodbyes, or of two that are not. -/
def NormalRecord.standsFor (old new : NormalRecord) : Bool :=
  new.isGoodbye = old.isGoodbye && old.ttl ≥ new.ttl / 2

/-- Whether one response makes another superfluous. -/
def Response.covers (old new : Response) : Bool :=
  old.record.standsFor new.record && (old.flushCache || !new.flushCache)

/-- A job has an identity, as its address is in the source. -/
structure AvahiResponseJob extends Response where
  id : Nat
  querier : Option AvahiAddress
  delivery : Nat
  timeEvent : Nat
  deriving DecidableEq

inductive AvahiResponseJobState where
  | scheduled
  | done
  | suppressed
  deriving DecidableEq

/-- Why a job was marked done. -/
inductive Done where
  | sent
  | answered
  | tooLarge
  deriving DecidableEq

/-- What a scheduler did. -/
inductive ResponseEvent where
  | posted (response : Response)
  | refused (response : Response) (querier : Option AvahiAddress)
  | done (why : Done) (response : Response)
  | received (response : Response)
  | kept (response : Response)
  | known (record : NormalRecord) (querier : AvahiAddress)
  | dropped (response : Response)
  deriving DecidableEq

/-- The lists of jobs, newest first. `log` is a history variable, oldest first,
that nothing here reads. -/
structure AvahiResponseScheduler where
  jobs : List AvahiResponseJob
  history : List AvahiResponseJob
  suppressed : List AvahiResponseJob
  nextId : Nat
  log : List (Nat × ResponseEvent)

/-- The part of `avahi_elapse_time` that is drawn by lot. -/
abbrev Jitter := { usec : Nat // usec < AVAHI_RESPONSE_JITTER_MSEC * 1000 }

/-- The records that a record refers to, with their flags. -/
abbrev AuxRecords := NormalRecord → List (PostedRecord × Bool)

/-- `AVAHI_LLIST_REMOVE`. -/
def removeJob (jobs : List AvahiResponseJob) (id : Nat) : List AvahiResponseJob :=
  jobs.filter fun rj => rj.id ≠ id

/-- What is written to a job. -/
def setJob (jobs : List AvahiResponseJob) (job : AvahiResponseJob) : List AvahiResponseJob :=
  jobs.map fun rj => if rj.id = job.id then job else rj

namespace AvahiResponseScheduler

variable (now : Nat) (s : AvahiResponseScheduler)

/-- `avahi_response_scheduler_new`. -/
def new : AvahiResponseScheduler := ⟨[], [], [], 0, []⟩

def logged (event : ResponseEvent) : AvahiResponseScheduler :=
  { s with log := s.log ++ [(now, event)] }

/-- `job_free`. -/
def jobFree (state : AvahiResponseJobState) (id : Nat) : AvahiResponseScheduler :=
  match state with
  | .scheduled => { s with jobs := removeJob s.jobs id }
  | .done => { s with history := removeJob s.history id }
  | .suppressed => { s with suppressed := removeJob s.suppressed id }

/-- `job_mark_done`. -/
def jobMarkDone (why : Done) (rj : AvahiResponseJob) : AvahiResponseScheduler :=
  { s with
    jobs := removeJob s.jobs rj.id
    history :=
      { rj with delivery := now, timeEvent := now + AVAHI_RESPONSE_HISTORY_MSEC * 1000 } ::
        s.history
    log := s.log ++ [(now, .done why rj.toResponse)] }

/-- `find_scheduled_job`. -/
def findScheduledJob (record : NormalRecord) : Option AvahiResponseJob :=
  s.jobs.find? fun rj => rj.record.same record

/-- `find_history_job`, which frees the job it finds when it is outdated. -/
def findHistoryJob (record : NormalRecord) : AvahiResponseScheduler × Option AvahiResponseJob :=
  match s.history.find? fun rj => rj.record.same record with
  | none => (s, none)
  | some rj =>
      if (now - rj.delivery) / 1000 > AVAHI_RESPONSE_HISTORY_MSEC then (s.jobFree .done rj.id, none)
      else (s, some rj)

/-- `find_suppressed_job`. -/
def findSuppressedJob (record : NormalRecord) (querier : AvahiAddress) :
    AvahiResponseScheduler × Option AvahiResponseJob :=
  match s.suppressed.find? fun rj => rj.record.same record && rj.querier = some querier with
  | none => (s, none)
  | some rj =>
      if now - rj.delivery > AVAHI_RESPONSE_SUPPRESS_MSEC * 1000 then
        (s.jobFree .suppressed rj.id, none)
      else (s, some rj)

/-- The end of `avahi_response_scheduler_post`: the scheduled job is updated, or
there is a new one. -/
def schedule (tv : Nat) (new : Response) (querier : Option AvahiAddress) : AvahiResponseScheduler :=
  match s.findScheduledJob new.record with
  | some rj =>
      { s with
        jobs := setJob s.jobs
          { rj with
            delivery := if tv < rj.delivery then tv else rj.delivery
            timeEvent := if tv < rj.delivery then tv else rj.timeEvent
            flushCache := new.flushCache || rj.flushCache
            querier :=
              if querier = none ∨ rj.querier ≠ none ∧ querier ≠ rj.querier then none
              else rj.querier
            record := new.record } }
  | none =>
      { s with
        jobs := { new with id := s.nextId, querier, delivery := tv, timeEvent := tv } :: s.jobs
        nextId := s.nextId + 1 }

/-- `avahi_response_scheduler_post` of a response that the querier does not know:
whether it was sent recently, and if not, scheduling it. -/
def postUnlessRecent (jitter : Jitter) (new : Response) (querier : Option AvahiAddress)
    (immediately : Bool) : AvahiResponseScheduler × Bool :=
  let (s, history) := s.findHistoryJob now new.record
  if history.any fun rj => rj.toResponse.covers new then
    (s.logged now (.refused new querier), false)
  else
    let s := match history with
      | none => s
      | some rj => s.jobFree .done rj.id
    let tv := if immediately then now else now + AVAHI_RESPONSE_DEFER_MSEC * 1000 + jitter
    ((s.schedule tv new querier).logged now (.posted new), true)

/-- `avahi_response_scheduler_post`. -/
def post (jitter : Jitter) (record : PostedRecord) (flushCache : Bool)
    (querier : Option AvahiAddress) (immediately : Bool) : AvahiResponseScheduler × Bool :=
  let new : Response := ⟨record.toNormalRecord, flushCache⟩
  let (s, suppressed) : AvahiResponseScheduler × Option AvahiResponseJob := match querier with
    | none => (s, none)
    | some querier => s.findSuppressedJob now new.record querier
  if suppressed.any fun rj => rj.record.standsFor new.record then
    (s.logged now (.refused new querier), false)
  else s.postUnlessRecent now jitter new querier immediately

/-- `avahi_response_scheduler_incoming`. -/
def incoming (record : NormalRecord) (flushCache : Bool) : AvahiResponseScheduler :=
  let new : Response := ⟨record, flushCache⟩
  match s.findScheduledJob record with
  | some rj =>
      if new.covers rj.toResponse then s.jobMarkDone now .answered rj
      else (s.logged now (.received new)).logged now (.kept rj.toResponse)
  | none =>
      let (s, history) := s.findHistoryJob now record
      let timeEvent := now + AVAHI_RESPONSE_HISTORY_MSEC * 1000
      match history with
      | some rj =>
          { s with
            history := setJob s.history
              { rj with record, flushCache, querier := none, delivery := now, timeEvent }
            log := s.log ++ [(now, .received new)] }
      | none =>
          { s with
            history := { new with id := s.nextId, querier := none, delivery := now, timeEvent } ::
              s.history
            nextId := s.nextId + 1
            log := s.log ++ [(now, .received new)] }

/-- The first half of `avahi_response_scheduler_suppress`. -/
def dropKnown (record : NormalRecord) (querier : AvahiAddress) : AvahiResponseScheduler :=
  match s.findScheduledJob record with
  | none => s
  | some rj =>
      if rj.querier = some querier && record.standsFor rj.record then
        (s.jobFree .scheduled rj.id).logged now (.dropped rj.toResponse)
      else s

/-- `avahi_response_scheduler_suppress`. -/
def suppress (record : NormalRecord) (querier : AvahiAddress) : AvahiResponseScheduler :=
  let (s, known) := (s.dropKnown now record querier).findSuppressedJob now record querier
  let timeEvent := now + AVAHI_RESPONSE_SUPPRESS_MSEC * 1000
  match known with
  | some rj =>
      { s with
        suppressed := setJob s.suppressed { rj with record, delivery := now, timeEvent }
        log := s.log ++ [(now, .known record querier)] }
  | none =>
      { s with
        suppressed :=
          ⟨⟨record, false⟩, s.nextId, some querier, now, timeEvent⟩ :: s.suppressed
        nextId := s.nextId + 1
        log := s.log ++ [(now, .known record querier)] }

/-- `avahi_server_enumerate_aux_records` with `enumerate_aux_records_callback`.
The job is still scheduled, so posting can change its querier. -/
def enumerateAuxRecords (jitter : Jitter) (id : Nat) (records : List (PostedRecord × Bool)) :
    AvahiResponseScheduler :=
  records.foldl (fun s (record, flushCache) =>
    let querier := (s.jobs.find? fun rj => rj.id = id).bind fun rj => rj.querier
    (s.post now jitter record flushCache querier false).1) s

/-- What `packet_add_response_job` does. -/
inductive PacketAdded where
  | added (p : AvahiDnsPacket) (s : AvahiResponseScheduler)
  | full
  | undefined

/-- `packet_add_response_job`. -/
def packetAddResponseJob (aux : AuxRecords) (jitter : Jitter) (p : AvahiDnsPacket)
    (rj : AvahiResponseJob) : PacketAdded :=
  match p.appendRecord rj.record.record rj.flushCache 0 with
  | .null _ => .full
  | .undefined => .undefined
  | .ok p _ =>
      let s := s.enumerateAuxRecords now jitter rj.id (aux rj.record)
      match s.jobs.find? fun other => other.id = rj.id with
      | none => .undefined
      | some rj => .added p (s.jobMarkDone now .sent rj)

/-- The loop of `send_response_packet`, with what was added to the packet. Each
record takes room in it, so `fuel` need not be more than the room. -/
def fillResponse (aux : AuxRecords) (jitter : Jitter) :
    Nat → AvahiDnsPacket → AvahiResponseScheduler → List Response →
      Option (AvahiDnsPacket × AvahiResponseScheduler × List Response)
  | 0, p, s, taken => some (p, s, taken)
  | fuel + 1, p, s, taken =>
      match s.jobs with
      | [] => some (p, s, taken)
      | rj :: _ =>
          match s.packetAddResponseJob now aux jitter p rj with
          | .added p s => fillResponse aux jitter fuel p s (taken ++ [rj.toResponse])
          | .full => some (p, s, taken)
          | .undefined => none

/-- `send_response_packet`: the packet, if one is sent. -/
def sendResponsePacket (aux : AuxRecords) (jitter : Jitter) (mtu : Nat) (rj : AvahiResponseJob) :
    Option (AvahiResponseScheduler × Option AvahiDnsPacket) :=
  match s.packetAddResponseJob now aux jitter (.newResponse mtu true) rj with
  | .undefined => none
  | .added p s =>
      match fillResponse now aux jitter p.maxSize p s [rj.toResponse] with
      | none => none
      | some (p, s, taken) =>
          some (s, some (p.setField AVAHI_DNS_FIELD_ANCOUNT (UInt16.ofNat taken.length)))
  | .full =>
      let size := rj.record.record.estimateSize + AVAHI_DNS_PACKET_HEADER_SIZE
      match s.packetAddResponseJob now aux jitter
          (.newResponse (size + AVAHI_DNS_PACKET_EXTRA_SIZE) true) rj with
      | .undefined => none
      | .added p s => some (s, some (p.setField AVAHI_DNS_FIELD_ANCOUNT 1))
      | .full => some (s.jobMarkDone now .tooLarge rj, none)

/-- `elapse_callback` of a job. -/
def elapseCallback (aux : AuxRecords) (jitter : Jitter) (mtu : Nat) (id : Nat) :
    Option (AvahiResponseScheduler × Option AvahiDnsPacket) :=
  match s.jobs.find? fun rj => rj.id = id with
  | some rj => s.sendResponsePacket now aux jitter mtu rj
  | none => some ((s.jobFree .done id).jobFree .suppressed id, none)

/-- The jobs of all lists. -/
def all (s : AvahiResponseScheduler) : List AvahiResponseJob :=
  s.jobs ++ (s.history ++ s.suppressed)

end AvahiResponseScheduler

/-- What calls the scheduler: the server, and the event loop when the time of a
job has come. -/
inductive ResponseInput where
  | post (jitter : Jitter) (record : PostedRecord) (flushCache : Bool)
      (querier : Option AvahiAddress) (immediately : Bool)
  | incoming (record : NormalRecord) (flushCache : Bool)
  | suppress (record : NormalRecord) (querier : AvahiAddress)
  | elapse (aux : AuxRecords) (jitter : Jitter) (mtu : Nat) (id : Nat)

/-- The scheduler with the clock and the packets that were sent. -/
structure ResponseHost where
  scheduler : AvahiResponseScheduler
  now : Nat
  packets : List (Nat × AvahiDnsPacket)

namespace ResponseHost

/-- What happens at a time. A time event does not elapse before its time, and a
failed assertion ends the program. -/
def step (host : ResponseHost) (event : Nat × ResponseInput) : Option ResponseHost :=
  let (now, input) := event
  if now < host.now then none
  else
    match input with
    | .post jitter record flushCache querier immediately =>
        some { host with
          scheduler := (host.scheduler.post now jitter record flushCache querier immediately).1
          now }
    | .incoming record flushCache =>
        some { host with scheduler := host.scheduler.incoming now record flushCache, now }
    | .suppress record querier =>
        some { host with scheduler := host.scheduler.suppress now record querier, now }
    | .elapse aux jitter mtu id =>
        if host.scheduler.all.any fun rj => rj.id = id && rj.timeEvent ≤ now then
          (host.scheduler.elapseCallback now aux jitter mtu id).map fun (scheduler, packet) =>
            ⟨scheduler, now, host.packets ++ packet.toList.map fun p => (now, p)⟩
        else none

/-- A run lasts until the interface goes down and calls
`avahi_response_scheduler_clear` or `_force`. -/
def machine : Machine ResponseHost (Nat × ResponseInput) := ⟨⟨.new, 0, []⟩, step⟩

end ResponseHost

def AvahiResponseJob.cls (rj : AvahiResponseJob) : RecordClass := rj.record.cls

/-- The record and the querier of a job that suppresses. -/
def AvahiResponseJob.knownBy (rj : AvahiResponseJob) : RecordClass × Option AvahiAddress :=
  (rj.cls, rj.querier)

section Jobs

variable {κ : Type*} [DecidableEq κ] {key : AvahiResponseJob → κ}
  {jobs : List AvahiResponseJob} {rj job : AvahiResponseJob}

theorem removeJob_sublist (jobs : List AvahiResponseJob) (id : Nat) :
    (removeJob jobs id).Sublist jobs := List.filter_sublist

/-- The job with an identity is the job with a key. -/
theorem lookupBy_removeJob (hids : Distinct AvahiResponseJob.id jobs) (hkeys : Distinct key jobs)
    (hrj : rj ∈ jobs) (k : κ) :
    lookupBy key k (removeJob jobs rj.id) = if k = key rj then none else lookupBy key k jobs :=
  hids.lookupBy_remove hkeys hrj k

omit [DecidableEq κ] in
theorem map_setJob (hids : Distinct AvahiResponseJob.id jobs) (hrj : rj ∈ jobs)
    (hid : job.id = rj.id) (hkey : key job = key rj) : (setJob jobs job).map key = jobs.map key :=
  hids.map_replace hrj hid hkey

theorem mem_setJob {other : AvahiResponseJob} (h : other ∈ setJob jobs job) :
    other = job ∨ other ∈ jobs := mem_replace h

theorem lookupBy_setJob (hids : Distinct AvahiResponseJob.id jobs) (hkeys : Distinct key jobs)
    (hrj : rj ∈ jobs) (hid : job.id = rj.id) (hkey : key job = key rj) (k : κ) :
    lookupBy key k (setJob jobs job) = if k = key rj then some job else lookupBy key k jobs :=
  hids.lookupBy_replace hkeys hrj hid hkey k

end Jobs

namespace AvahiResponseScheduler

variable {now : Nat} {s : AvahiResponseScheduler}

/-- What the lists of a scheduler always are. A response is scheduled or in the
history, but never both, and it is there once. -/
structure Wf (s : AvahiResponseScheduler) : Prop where
  ids : Distinct AvahiResponseJob.id s.all
  fresh : ∀ rj ∈ s.all, rj.id < s.nextId
  classes : Distinct AvahiResponseJob.cls (s.jobs ++ s.history)
  known : Distinct AvahiResponseJob.knownBy s.suppressed
  scheduled : ∀ rj ∈ s.jobs, rj.timeEvent = rj.delivery
  recent : ∀ rj ∈ s.history, rj.timeEvent = rj.delivery + AVAHI_RESPONSE_HISTORY_MSEC * 1000
  suppressed : ∀ rj ∈ s.suppressed, rj.querier ≠ none ∧
    rj.timeEvent = rj.delivery + AVAHI_RESPONSE_SUPPRESS_MSEC * 1000

theorem new_wf : new.Wf := by
  refine ⟨distinct_nil, ?_, distinct_nil, distinct_nil, ?_, ?_, ?_⟩
  · exact fun rj hrj => absurd hrj List.not_mem_nil
  · exact fun rj hrj => absurd hrj List.not_mem_nil
  · exact fun rj hrj => absurd hrj List.not_mem_nil
  · exact fun rj hrj => absurd hrj List.not_mem_nil

namespace Wf

variable {rj : AvahiResponseJob}

theorem jobs_ids (h : s.Wf) : Distinct AvahiResponseJob.id s.jobs :=
  h.ids.sublist (List.sublist_append_left _ _)

theorem history_ids (h : s.Wf) : Distinct AvahiResponseJob.id s.history :=
  h.ids.sublist ((List.sublist_append_left _ _).trans (List.sublist_append_right _ _))

theorem suppressed_ids (h : s.Wf) : Distinct AvahiResponseJob.id s.suppressed :=
  h.ids.sublist ((List.sublist_append_right _ _).trans (List.sublist_append_right _ _))

theorem jobs_classes (h : s.Wf) : Distinct AvahiResponseJob.cls s.jobs :=
  h.classes.sublist (List.sublist_append_left _ _)

theorem history_classes (h : s.Wf) : Distinct AvahiResponseJob.cls s.history :=
  h.classes.sublist (List.sublist_append_right _ _)

/-- What is in the history is not scheduled. -/
theorem not_both (h : s.Wf) {other : AvahiResponseJob} (hrj : rj ∈ s.jobs)
    (hother : other ∈ s.history) : rj.cls ≠ other.cls := by
  have hnodup := h.classes
  rw [Distinct, List.map_append, List.nodup_append] at hnodup
  exact hnodup.2.2 _ (List.mem_map_of_mem hrj) _ (List.mem_map_of_mem hother)

/-- What the history variable says does not matter. -/
theorem of_log (h : s.Wf) (log : List (Nat × ResponseEvent)) : Wf { s with log } :=
  ⟨h.ids, h.fresh, h.classes, h.known, h.scheduled, h.recent, h.suppressed⟩

/-- Jobs can be freed. -/
theorem jobFree (h : s.Wf) (state : AvahiResponseJobState) (id : Nat) :
    (s.jobFree state id).Wf := by
  have hjobs := removeJob_sublist s.jobs id
  have hhistory := removeJob_sublist s.history id
  have hsuppressed := removeJob_sublist s.suppressed id
  cases state with
  | scheduled =>
      have hall := hjobs.append_right (s.history ++ s.suppressed)
      exact ⟨h.ids.sublist hall, fun rj hrj => h.fresh rj (hall.mem hrj),
        h.classes.sublist (hjobs.append_right s.history), h.known,
        fun rj hrj => h.scheduled rj (hjobs.mem hrj), h.recent, h.suppressed⟩
  | done =>
      have hall := (hhistory.append_right s.suppressed).append_left s.jobs
      exact ⟨h.ids.sublist hall, fun rj hrj => h.fresh rj (hall.mem hrj),
        h.classes.sublist (hhistory.append_left s.jobs), h.known, h.scheduled,
        fun rj hrj => h.recent rj (hhistory.mem hrj), h.suppressed⟩
  | suppressed =>
      have hall := (hsuppressed.append_left s.history).append_left s.jobs
      exact ⟨h.ids.sublist hall, fun rj hrj => h.fresh rj (hall.mem hrj), h.classes,
        h.known.sublist hsuppressed, h.scheduled, h.recent,
        fun rj hrj => h.suppressed rj (hsuppressed.mem hrj)⟩

/-- A job that is written to keeps its identity and its response. -/
theorem setScheduled (h : s.Wf) {job : AvahiResponseJob} (hrj : rj ∈ s.jobs)
    (hid : job.id = rj.id) (hcls : job.cls = rj.cls) (htime : job.timeEvent = job.delivery) :
    Wf { s with jobs := setJob s.jobs job } := by
  refine ⟨?_, ?_, ?_, h.known, ?_, h.recent, h.suppressed⟩
  · rw [all, Distinct, List.map_append, map_setJob h.jobs_ids hrj hid hid, ← List.map_append]
    exact h.ids
  · intro other hother
    rcases List.mem_append.mp hother with hother | hother
    · rcases mem_setJob hother with rfl | hother
      · exact hid ▸ h.fresh rj (List.mem_append_left _ hrj)
      · exact h.fresh other (List.mem_append_left _ hother)
    · exact h.fresh other (List.mem_append_right _ hother)
  · rw [Distinct, List.map_append, map_setJob h.jobs_ids hrj hid hcls, ← List.map_append]
    exact h.classes
  · intro other hother
    rcases mem_setJob hother with rfl | hother
    · exact htime
    · exact h.scheduled other hother

theorem setRecent (h : s.Wf) {job : AvahiResponseJob} (hrj : rj ∈ s.history)
    (hid : job.id = rj.id) (hcls : job.cls = rj.cls)
    (htime : job.timeEvent = job.delivery + AVAHI_RESPONSE_HISTORY_MSEC * 1000) :
    Wf { s with history := setJob s.history job } := by
  refine ⟨?_, ?_, ?_, h.known, h.scheduled, ?_, h.suppressed⟩
  · rw [all, Distinct, List.map_append, List.map_append, map_setJob h.history_ids hrj hid hid,
      ← List.map_append, ← List.map_append]
    exact h.ids
  · intro other hother
    rcases List.mem_append.mp hother with hother | hother
    · exact h.fresh other (List.mem_append_left _ hother)
    · rcases List.mem_append.mp hother with hother | hother
      · rcases mem_setJob hother with rfl | hother
        · exact hid ▸ h.fresh rj (List.mem_append_right _ (List.mem_append_left _ hrj))
        · exact h.fresh other (List.mem_append_right _ (List.mem_append_left _ hother))
      · exact h.fresh other (List.mem_append_right _ (List.mem_append_right _ hother))
  · rw [Distinct, List.map_append, map_setJob h.history_ids hrj hid hcls, ← List.map_append]
    exact h.classes
  · intro other hother
    rcases mem_setJob hother with rfl | hother
    · exact htime
    · exact h.recent other hother

theorem setSuppressed (h : s.Wf) {job : AvahiResponseJob} (hrj : rj ∈ s.suppressed)
    (hid : job.id = rj.id) (hkey : job.knownBy = rj.knownBy)
    (htime : job.timeEvent = job.delivery + AVAHI_RESPONSE_SUPPRESS_MSEC * 1000) :
    Wf { s with suppressed := setJob s.suppressed job } := by
  refine ⟨?_, ?_, h.classes, ?_, h.scheduled, h.recent, ?_⟩
  · rw [all, Distinct, List.map_append, List.map_append, map_setJob h.suppressed_ids hrj hid hid,
      ← List.map_append, ← List.map_append]
    exact h.ids
  · intro other hother
    rcases List.mem_append.mp hother with hother | hother
    · exact h.fresh other (List.mem_append_left _ hother)
    · rcases List.mem_append.mp hother with hother | hother
      · exact h.fresh other (List.mem_append_right _ (List.mem_append_left _ hother))
      · rcases mem_setJob hother with rfl | hother
        · exact hid ▸ h.fresh rj (List.mem_append_right _ (List.mem_append_right _ hrj))
        · exact h.fresh other (List.mem_append_right _ (List.mem_append_right _ hother))
  · rw [Distinct, map_setJob h.suppressed_ids hrj hid hkey]
    exact h.known
  · intro other hother
    rcases mem_setJob hother with rfl | hother
    · have hquerier : other.querier = rj.querier := congrArg Prod.snd hkey
      exact ⟨hquerier ▸ (h.suppressed rj hrj).1, htime⟩
    · exact h.suppressed other hother

/-- The identity of a new job is new. -/
theorem fresh_cons (h : s.Wf) {before after : List AvahiResponseJob}
    (hall : s.all = before ++ after) (hid : rj.id = s.nextId) :
    Distinct AvahiResponseJob.id (before ++ rj :: after) ∧
      ∀ other ∈ before ++ rj :: after, other.id < s.nextId + 1 := by
  have hids := h.ids
  have hfresh := h.fresh
  rw [hall] at hids hfresh
  constructor
  · apply hids.insert
    intro other hother
    have hlt := hfresh other hother
    omega
  · intro other hother
    rcases List.mem_cons.mp (List.perm_middle.mem_iff.mp hother) with rfl | hother
    · omega
    · have hlt := hfresh other hother
      omega

theorem addScheduled (h : s.Wf) (hid : rj.id = s.nextId)
    (hcls : ∀ other ∈ s.jobs ++ s.history, other.cls ≠ rj.cls)
    (htime : rj.timeEvent = rj.delivery) :
    Wf { s with jobs := rj :: s.jobs, nextId := s.nextId + 1 } := by
  obtain ⟨hids, hfresh⟩ := @fresh_cons s rj h [] s.all rfl hid
  refine ⟨hids, hfresh, distinct_cons.mpr ⟨hcls, h.classes⟩, h.known, ?_, h.recent,
    h.suppressed⟩
  intro other hother
  rcases List.mem_cons.mp hother with rfl | hother
  · exact htime
  · exact h.scheduled other hother

theorem addRecent (h : s.Wf) (hid : rj.id = s.nextId)
    (hcls : ∀ other ∈ s.jobs ++ s.history, other.cls ≠ rj.cls)
    (htime : rj.timeEvent = rj.delivery + AVAHI_RESPONSE_HISTORY_MSEC * 1000) :
    Wf { s with history := rj :: s.history, nextId := s.nextId + 1 } := by
  obtain ⟨hids, hfresh⟩ := h.fresh_cons rfl hid
  refine ⟨hids, hfresh, h.classes.insert hcls, h.known, h.scheduled, ?_, h.suppressed⟩
  intro other hother
  rcases List.mem_cons.mp hother with rfl | hother
  · exact htime
  · exact h.recent other hother

theorem addSuppressed (h : s.Wf) (hid : rj.id = s.nextId)
    (hkey : ∀ other ∈ s.suppressed, other.knownBy ≠ rj.knownBy)
    (hquerier : rj.querier ≠ none)
    (htime : rj.timeEvent = rj.delivery + AVAHI_RESPONSE_SUPPRESS_MSEC * 1000) :
    Wf { s with suppressed := rj :: s.suppressed, nextId := s.nextId + 1 } := by
  obtain ⟨hids, hfresh⟩ := h.fresh_cons (List.append_assoc _ _ _).symm hid
  rw [List.append_assoc] at hids hfresh
  refine ⟨hids, hfresh, h.classes, distinct_cons.mpr ⟨hkey, h.known⟩, h.scheduled,
    h.recent, ?_⟩
  intro other hother
  rcases List.mem_cons.mp hother with rfl | hother
  · exact ⟨hquerier, htime⟩
  · exact h.suppressed other hother

end Wf

end AvahiResponseScheduler

end NvmrDisplay.Avahi.Dns
