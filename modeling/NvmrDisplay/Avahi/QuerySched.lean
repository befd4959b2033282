import NvmrDisplay.Avahi.DnsMessage
import NvmrDisplay.Avahi.RecordEquality
import NvmrDisplay.Lib.Keyed
import NvmrDisplay.Lib.Machine

/-!
The query scheduler of an interface, `avahi-core/query-sched.c`. A question that
several callers post is asked once, and not at all if another host asks it first.
The packets have the questions, and behind them the answers that are known
already. Known answers that do not fit go into packets of their own, and each
packet but the last says that more follow. Times are in microseconds.
-/

namespace NvmrDisplay.Avahi.Dns

open Lib

abbrev AVAHI_QUERY_HISTORY_MSEC : Nat := 100
abbrev AVAHI_QUERY_DEFER_MSEC : Nat := 100

/-- A job is identified by its address in the source. Its `id` is what a caller
withdraws it by. -/
structure AvahiQueryJob where
  address : Nat
  id : UInt32
  nPosted : Nat
  key : NormalKey
  delivery : Nat
  timeEvent : Nat
  deriving DecidableEq

/-- Who asked a question that is done. -/
inductive Asked where
  | here
  | elsewhere
  deriving DecidableEq

/-- What a scheduler did. -/
inductive QueryEvent where
  | posted (key : NormalKey)
  | refused (key : NormalKey)
  | done (who : Asked) (key : NormalKey)
  | received (key : NormalKey)
  | released (key : NormalKey)
  | withdrawn (key : NormalKey)
  deriving DecidableEq

/-- The lists of jobs, newest first. `log` is a history variable, oldest first,
that nothing here reads. -/
structure AvahiQueryScheduler where
  jobs : List AvahiQueryJob
  history : List AvahiQueryJob
  nextId : UInt32
  nextAddress : Nat
  log : List (Nat × QueryEvent)

/-- The answers in the cache of the interface that are fresh enough, in the order
in which `avahi_cache_walk` comes to them. -/
abbrev CacheWalk := NormalKey → List AvahiRecord

/-- The inner loop of `append_known_answers_and_send`: the packets that are sent
to make room, the packet with the record, and how many records it has. -/
def appendKnownAnswer (mtu : Nat) (record : AvahiRecord) :
    Nat → AvahiDnsPacket → Nat → Option (List AvahiDnsPacket × AvahiDnsPacket × Nat)
  | 0, _, _ => none
  | tries + 1, p, n =>
      match p.appendRecord record false 0 with
      | .ok q _ => some ([], q, n + 1)
      | .undefined => none
      | .null q =>
          if q.isEmpty then some ([], q, n)
          else
            let truncated := q.setField AVAHI_DNS_FIELD_FLAGS
              (getField q.data AVAHI_DNS_FIELD_FLAGS ||| AVAHI_DNS_FLAG_TC)
            (appendKnownAnswer mtu record tries (.newQuery mtu) 0).map fun (sent, p, n') =>
              (truncated.setField AVAHI_DNS_FIELD_ANCOUNT (UInt16.ofNat n) :: sent, p, n')

/-- `append_known_answers_and_send`: the packets that are sent. An empty packet
takes a record or the record is too large, so two tries are enough. -/
def appendKnownAnswersAndSend (mtu : Nat) :
    List AvahiRecord → AvahiDnsPacket → Nat → Option (List AvahiDnsPacket)
  | [], p, n => some [p.setField AVAHI_DNS_FIELD_ANCOUNT (UInt16.ofNat n)]
  | record :: known, p, n =>
      match appendKnownAnswer mtu record 2 p n with
      | none => none
      | some (sent, p, n) => (appendKnownAnswersAndSend mtu known p n).map (sent ++ ·)

/-- The loop of `avahi_query_scheduler_withdraw_by_id`, and whether a job was
freed. Identifiers come back when the counter has wrapped around, so it goes on
behind a job that has other posters. -/
def withdrawJobs (id : UInt32) :
    List AvahiQueryJob → List AvahiQueryJob × List QueryEvent × Bool
  | [] => ([], [], false)
  | qj :: jobs =>
      if qj.id = id ∧ qj.nPosted - 1 = 0 then (jobs, [.withdrawn qj.key], true)
      else
        let (jobs, events, freed) := withdrawJobs id jobs
        if qj.id = id then
          ({ qj with nPosted := qj.nPosted - 1 } :: jobs, .released qj.key :: events, freed)
        else (qj :: jobs, events, freed)

/-- `AVAHI_LLIST_REMOVE`. -/
def removeQueryJob (jobs : List AvahiQueryJob) (address : Nat) : List AvahiQueryJob :=
  jobs.filter fun qj => qj.address ≠ address

/-- What is written to a job. -/
def setQueryJob (jobs : List AvahiQueryJob) (job : AvahiQueryJob) : List AvahiQueryJob :=
  jobs.map fun qj => if qj.address = job.address then job else qj

namespace AvahiQueryScheduler

variable (now : Nat) (s : AvahiQueryScheduler)

/-- `avahi_query_scheduler_new`. -/
def new : AvahiQueryScheduler := ⟨[], [], 0, 0, []⟩

def logged (event : QueryEvent) : AvahiQueryScheduler := { s with log := s.log ++ [(now, event)] }

/-- `job_free` of a job in the history. -/
def jobFree (address : Nat) : AvahiQueryScheduler :=
  { s with history := removeQueryJob s.history address }

/-- `job_mark_done`. -/
def jobMarkDone (who : Asked) (qj : AvahiQueryJob) : AvahiQueryScheduler :=
  { s with
    jobs := removeQueryJob s.jobs qj.address
    history :=
      { qj with delivery := now, timeEvent := now + AVAHI_QUERY_HISTORY_MSEC * 1000 } :: s.history
    log := s.log ++ [(now, .done who qj.key)] }

/-- `find_scheduled_job`. -/
def findScheduledJob (key : NormalKey) : Option AvahiQueryJob :=
  s.jobs.find? fun qj => qj.key.same key

/-- `find_history_job`, which frees the job it finds when it is outdated. -/
def findHistoryJob (key : NormalKey) : AvahiQueryScheduler × Option AvahiQueryJob :=
  match s.history.find? fun qj => qj.key.same key with
  | none => (s, none)
  | some qj =>
      if now - qj.delivery > AVAHI_QUERY_HISTORY_MSEC * 1000 then (s.jobFree qj.address, none)
      else (s, some qj)

/-- The end of `avahi_query_scheduler_post`: the scheduled job is updated, or there
is a new one. Its identifier is returned. -/
def schedule (tv : Nat) (key : NormalKey) : AvahiQueryScheduler × UInt32 :=
  match s.findScheduledJob key with
  | some qj =>
      ({ s with
        jobs := setQueryJob s.jobs
          { qj with
            delivery := if tv < qj.delivery then tv else qj.delivery
            timeEvent := if tv < qj.delivery then tv else qj.timeEvent
            nPosted := qj.nPosted + 1 } }, qj.id)
  | none =>
      ({ s with
        jobs := ⟨s.nextAddress, s.nextId, 1, key, tv, tv⟩ :: s.jobs
        nextId := s.nextId + 1
        nextAddress := s.nextAddress + 1 }, s.nextId)

/-- `avahi_query_scheduler_post`. -/
def post (key : NormalKey) (immediately : Bool) : AvahiQueryScheduler × Option UInt32 :=
  let (s, history) := s.findHistoryJob now key
  match history with
  | some _ => (s.logged now (.refused key), none)
  | none =>
      let (s, id) :=
        s.schedule (if immediately then now else now + AVAHI_QUERY_DEFER_MSEC * 1000) key
      (s.logged now (.posted key), some id)

/-- `avahi_query_scheduler_incoming`. -/
def incoming (key : NormalKey) : AvahiQueryScheduler :=
  match s.findScheduledJob key with
  | some qj => s.jobMarkDone now .elsewhere qj
  | none =>
      let (s, history) := s.findHistoryJob now key
      let timeEvent := now + AVAHI_QUERY_HISTORY_MSEC * 1000
      match history with
      | some qj =>
          { s with
            history := setQueryJob s.history { qj with delivery := now, timeEvent }
            log := s.log ++ [(now, .received key)] }
      | none =>
          { s with
            history := ⟨s.nextAddress, s.nextId, 1, key, now, timeEvent⟩ :: s.history
            nextId := s.nextId + 1
            nextAddress := s.nextAddress + 1
            log := s.log ++ [(now, .received key)] }

/-- `avahi_query_scheduler_withdraw_by_id`. -/
def withdrawById (id : UInt32) : AvahiQueryScheduler × Bool :=
  let (jobs, events, freed) := withdrawJobs id s.jobs
  ({ s with jobs, log := s.log ++ events.map fun event => (now, event) }, freed)

/-- What `packet_add_query_job` does. -/
inductive QueryAdded where
  | added (p : AvahiDnsPacket) (s : AvahiQueryScheduler) (known : List AvahiRecord)
  | full (p : AvahiDnsPacket)
  | undefined

/-- `packet_add_query_job`. Each answer is prepended to the known answers. -/
def packetAddQueryJob (walk : CacheWalk) (p : AvahiDnsPacket) (known : List AvahiRecord)
    (qj : AvahiQueryJob) : QueryAdded :=
  match p.appendKey qj.key.key false with
  | .null p => .full p
  | .undefined => .undefined
  | .ok p _ => .added p (s.jobMarkDone now .here qj) ((walk qj.key).reverse ++ known)

/-- The loop of `elapse_callback`. Each turn takes a job from the list. -/
def fillQuery (walk : CacheWalk) :
    Nat → AvahiDnsPacket → AvahiQueryScheduler → List AvahiRecord → Nat →
      Option (AvahiDnsPacket × AvahiQueryScheduler × List AvahiRecord × Nat)
  | 0, p, s, known, n => some (p, s, known, n)
  | turns + 1, p, s, known, n =>
      match s.jobs with
      | [] => some (p, s, known, n)
      | qj :: _ =>
          match s.packetAddQueryJob now walk p known qj with
          | .added p s known => fillQuery walk turns p s known (n + 1)
          | .full p => some (p, s, known, n)
          | .undefined => none

/-- `elapse_callback` of a scheduled job. Its question has to fit in. -/
def sendQuery (walk : CacheWalk) (mtu : Nat) (qj : AvahiQueryJob) :
    Option (AvahiQueryScheduler × List AvahiDnsPacket) :=
  match s.packetAddQueryJob now walk (.newQuery mtu) [] qj with
  | .full _ | .undefined => none
  | .added p s known =>
      match fillQuery now walk s.jobs.length p s known 1 with
      | none => none
      | some (p, s, known, n) =>
          (appendKnownAnswersAndSend mtu known
            (p.setField AVAHI_DNS_FIELD_QDCOUNT (UInt16.ofNat n)) 0).map fun sent => (s, sent)

/-- `elapse_callback` of a job. -/
def elapseCallback (walk : CacheWalk) (mtu : Nat) (address : Nat) :
    Option (AvahiQueryScheduler × List AvahiDnsPacket) :=
  match s.jobs.find? fun qj => qj.address = address with
  | some qj => s.sendQuery now walk mtu qj
  | none => some (s.jobFree address, [])

/-- The jobs of both lists. -/
def all (s : AvahiQueryScheduler) : List AvahiQueryJob := s.jobs ++ s.history

end AvahiQueryScheduler

/-- What calls the scheduler: the server, and the event loop when the time of a
job has come. -/
inductive QueryInput where
  | post (key : NormalKey) (immediately : Bool)
  | incoming (key : NormalKey)
  | withdraw (id : UInt32)
  | elapse (walk : CacheWalk) (mtu : Nat) (address : Nat)

/-- The scheduler with the clock and the packets that were sent, packet by packet
for each time a job elapsed. -/
structure QueryHost where
  scheduler : AvahiQueryScheduler
  now : Nat
  packets : List (Nat × List AvahiDnsPacket)

namespace QueryHost

/-- What happens at a time. A time event does not elapse before its time, and a
failed assertion ends the program. -/
def step (host : QueryHost) (event : Nat × QueryInput) : Option QueryHost :=
  let (now, input) := event
  if now < host.now then none
  else
    match input with
    | .post key immediately =>
        some { host with scheduler := (host.scheduler.post now key immediately).1, now }
    | .incoming key => some { host with scheduler := host.scheduler.incoming now key, now }
    | .withdraw id => some { host with scheduler := (host.scheduler.withdrawById now id).1, now }
    | .elapse walk mtu address =>
        if host.scheduler.all.any fun qj => qj.address = address && qj.timeEvent ≤ now then
          (host.scheduler.elapseCallback now walk mtu address).map fun (scheduler, sent) =>
            ⟨scheduler, now, host.packets ++ [(now, sent)]⟩
        else none

/-- A run lasts until the interface goes down and calls
`avahi_query_scheduler_clear`. -/
def machine : Machine QueryHost (Nat × QueryInput) := ⟨⟨.new, 0, []⟩, step⟩

end QueryHost

end NvmrDisplay.Avahi.Dns
