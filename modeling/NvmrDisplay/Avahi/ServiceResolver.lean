import NvmrDisplay.Avahi.DomainName
import NvmrDisplay.Discover.EmbeddedAvahiBrowse
import NvmrDisplay.Lib.Machine

/-!
The service resolver of avahi-core, `resolve-service.c`, as the embedded
backend uses it. It keeps the first SRV, TXT and address record that arrive
and reports as soon as it has one of each. Both resolve callbacks free the
resolver that called them, so it reports at most once. Lookup flags are 0 in
both uses and left out; a record is its key name and its data, without its
time to live.
-/

namespace NvmrDisplay.Avahi

open Discover Lib

abbrev AVAHI_PROTO_UNSPEC : Int := -1

abbrev AVAHI_PROTO_INET : Int := 0

abbrev AVAHI_PROTO_INET6 : Int := 1

structure SrvRecord where
  key : String
  name : String
  priority : Nat
  weight : Nat
  port : Nat
  deriving DecidableEq, Repr

structure TxtRecord where
  key : String
  stringList : List (List UInt8)
  deriving DecidableEq, Repr

/-- An A or an AAAA record. -/
structure AddressRecord where
  key : String
  address : AvahiAddress
  deriving DecidableEq, Repr

inductive AvahiRecord where
  | srv (record : SrvRecord)
  | txt (record : TxtRecord)
  | address (record : AddressRecord)
  deriving DecidableEq, Repr

/-- `avahi_domain_equal` of the names in records, which can always be read. -/
def sameName (a b : String) : Bool := domainEqual a.toUTF8.toList b.toUTF8.toList = some true

/-- `avahi_record_equal_no_ttl`. -/
def AvahiRecord.equalNoTtl : AvahiRecord → AvahiRecord → Bool
  | .srv a, .srv b =>
      sameName a.key b.key && a.priority = b.priority && a.weight = b.weight && a.port = b.port &&
        sameName a.name b.name
  | .txt a, .txt b => sameName a.key b.key && a.stringList = b.stringList
  | .address a, .address b => sameName a.key b.key && a.address = b.address
  | _, _ => false

def AddressRecord.isInet (record : AddressRecord) : Bool :=
  match record.address with
  | .inet _ => true
  | .inet6 _ => false

namespace AvahiRecord

def srv? : AvahiRecord → Option SrvRecord
  | .srv record => some record
  | _ => none

def txt? : AvahiRecord → Option TxtRecord
  | .txt record => some record
  | _ => none

def address? : AvahiRecord → Option AddressRecord
  | .address record => some record
  | _ => none

/-- The address of an A record. -/
def inet? : AvahiRecord → Option AvahiIPv4Address
  | .address ⟨_, .inet ipv4⟩ => some ipv4
  | _ => none

end AvahiRecord

/-- The record browsers of a resolver. -/
inductive RecordBrowser where
  | srv
  | txt
  | a
  | aaaa
  deriving DecidableEq, Repr

/-- The browser that reports a record. -/
def AvahiRecord.browser : AvahiRecord → RecordBrowser
  | .srv _ => .srv
  | .txt _ => .txt
  | .address ⟨_, .inet _⟩ => .a
  | .address ⟨_, .inet6 _⟩ => .aaaa

structure AvahiSServiceResolver where
  serviceName : String
  addressProtocol : Int
  interface : Int
  protocol : Int
  /-- The record browsers that exist. -/
  browsers : RecordBrowser → Bool
  srvRecord : Option SrvRecord
  txtRecord : Option TxtRecord
  addressRecord : Option AddressRecord
  timeEvent : Bool

namespace AvahiSServiceResolver

/-- `avahi_s_service_resolver_new`. -/
def new (item : ServiceItem) (aprotocol : Int) : AvahiSServiceResolver where
  serviceName := item.name
  addressProtocol := aprotocol
  interface := item.interface
  protocol := item.protocol
  browsers browser := browser = .srv ∨ browser = .txt
  srvRecord := none
  txtRecord := none
  addressRecord := none
  timeEvent := true

/-- `finish` with `AVAHI_RESOLVER_FOUND`, for a resolver that has every record. -/
def found? (r : AvahiSServiceResolver) : Option ResolverAnswer :=
  match r.srvRecord, r.txtRecord, r.addressRecord with
  | some srv, some txt, some address =>
      some (.found srv.name address.address srv.port txt.stringList)
  | _, _, _ => none

/-- The browsers for the addresses of a newly learned host. -/
def browseAddresses (r : AvahiSServiceResolver) (browser : RecordBrowser) : Bool :=
  match browser with
  | .a => r.addressProtocol = AVAHI_PROTO_INET ∨ r.addressProtocol = AVAHI_PROTO_UNSPEC
  | .aaaa => r.addressProtocol = AVAHI_PROTO_INET6 ∨ r.addressProtocol = AVAHI_PROTO_UNSPEC
  | browser => r.browsers browser

/-- A new record fills its slot if that is empty. The second component is
`changed`. -/
def fill (r : AvahiSServiceResolver) : AvahiRecord → AvahiSServiceResolver × Bool
  | .srv record =>
      match r.srvRecord with
      | none => ({ r with srvRecord := some record, browsers := r.browseAddresses }, true)
      | some _ => (r, false)
  | .txt record =>
      match r.txtRecord with
      | none => ({ r with txtRecord := some record }, true)
      | some _ => (r, false)
  | .address record =>
      match r.addressRecord with
      | none => ({ r with addressRecord := some record }, true)
      | some _ => (r, false)

/-- `record_browser_callback` on `AVAHI_BROWSER_NEW`. -/
def recordNew (r : AvahiSServiceResolver) (interface protocol : Int) (record : AvahiRecord) :
    AvahiSServiceResolver × Option ResolverAnswer :=
  if r.interface > 0 ∧ interface > 0 ∧ interface ≠ r.interface then (r, none)
  else if r.protocol ≠ AVAHI_PROTO_UNSPEC ∧ protocol ≠ AVAHI_PROTO_UNSPEC ∧
      protocol ≠ r.protocol then (r, none)
  else
    let bound := { r with
      interface := if r.interface ≤ 0 then interface else r.interface
      protocol := if r.protocol = AVAHI_PROTO_UNSPEC then protocol else r.protocol }
    let (filled, changed) := bound.fill record
    (filled, if changed then filled.found? else none)

/-- `record_browser_callback` on `AVAHI_BROWSER_REMOVE`: a record that is in
use is dropped, a replacement is looked for and the timeout starts again. -/
def recordRemove (r : AvahiSServiceResolver) (record : AvahiRecord) : AvahiSServiceResolver :=
  match record with
  | .srv _ =>
      if r.srvRecord.any fun inUse => record.equalNoTtl (.srv inUse) then
        { r with
          srvRecord := none
          browsers := fun browser => browser ≠ .a ∧ browser ≠ .aaaa ∧ r.browsers browser
          timeEvent := true }
      else r
  | .txt _ =>
      if r.txtRecord.any fun inUse => record.equalNoTtl (.txt inUse) then
        { r with txtRecord := none, timeEvent := true }
      else r
  | .address _ =>
      if r.addressRecord.any fun inUse => record.equalNoTtl (.address inUse) then
        { r with addressRecord := none, timeEvent := true }
      else r

/-- `record_browser_callback` on `AVAHI_BROWSER_FAILURE`. While the other of the
two address lookups lives the resolver goes on. -/
def browserFailure (r : AvahiSServiceResolver) (browser : RecordBrowser) :
    AvahiSServiceResolver × Option ResolverAnswer :=
  if browser = .a ∧ r.browsers .aaaa then
    ({ r with browsers := Function.update r.browsers .a false }, none)
  else if browser = .aaaa ∧ r.browsers .a then
    ({ r with browsers := Function.update r.browsers .aaaa false }, none)
  else ({ r with browsers := fun _ => false, timeEvent := false }, some .failure)

end AvahiSServiceResolver

inductive ResolverEvent where
  | recordNew (interface protocol : Int) (record : AvahiRecord)
  | recordRemove (record : AvahiRecord)
  | browserFailure (browser : RecordBrowser)
  | cacheExhausted
  | allForNow
  | timeout
  deriving DecidableEq, Repr

/-- A resolver, until a callback frees it, and what it has reported. -/
structure Resolution where
  resolver : Option AvahiSServiceResolver
  answers : List ResolverAnswer

namespace Resolution

/-- A callback of the resolver: an answer frees it. -/
def report (resolution : Resolution)
    (reported : AvahiSServiceResolver × Option ResolverAnswer) : Resolution :=
  match reported.2 with
  | some answer => ⟨none, resolution.answers ++ [answer]⟩
  | none => ⟨some reported.1, resolution.answers⟩

/-- What happens on the network and in the event loop. A resolver hears of a
record only through a browser it has; a freed one hears of nothing. -/
def step (resolution : Resolution) (event : ResolverEvent) : Option Resolution :=
  match resolution.resolver with
  | none => some resolution
  | some r =>
      match event with
      | .recordNew interface protocol record =>
          if r.browsers record.browser then
            some (resolution.report (r.recordNew interface protocol record))
          else none
      | .recordRemove record =>
          if r.browsers record.browser then
            some (resolution.report (r.recordRemove record, none))
          else none
      | .browserFailure browser =>
          if r.browsers browser then some (resolution.report (r.browserFailure browser))
          else none
      | .cacheExhausted | .allForNow => some resolution
      | .timeout =>
          if r.timeEvent then
            some (resolution.report ({ r with timeEvent := false }, some .failure))
          else none

end Resolution

/-- The resolver that `avahi_s_service_resolver_new` creates for an item. -/
def resolution (item : ServiceItem) (aprotocol : Int) : Machine Resolution ResolverEvent where
  init := ⟨some (.new item aprotocol), []⟩
  step := Resolution.step

/-- The calls the resolve callbacks of the embedded backend make of the
answers: `foundRPIVideoSender` for a camera, `foundHTTPServer` for a server. -/
def foundCalls (item : ServiceItem) (resolution : Resolution) : List FoundCall :=
  resolution.answers.filterMap (foundCall item.name)

/-- Records that arrive on the interface and protocol of the item. -/
def arrivals (item : ServiceItem) (records : List AvahiRecord) : List ResolverEvent :=
  records.map (.recordNew item.interface item.protocol)

/-- A resolver that has taken the first record of each kind. -/
def gathered (item : ServiceItem) (aprotocol : Int) (records : List AvahiRecord) :
    AvahiSServiceResolver :=
  { AvahiSServiceResolver.new item aprotocol with
    browsers := if (records.findSome? AvahiRecord.srv?).isSome then
      (AvahiSServiceResolver.new item aprotocol).browseAddresses
      else (AvahiSServiceResolver.new item aprotocol).browsers
    srvRecord := records.findSome? AvahiRecord.srv?
    txtRecord := records.findSome? AvahiRecord.txt?
    addressRecord := records.findSome? AvahiRecord.address? }

/-- What becomes of a resolver: it gathers records until it has one of each
kind, then it answers and is freed. -/
def outcome (item : ServiceItem) (aprotocol : Int) (records : List AvahiRecord) : Resolution :=
  match (gathered item aprotocol records).found? with
  | some answer => ⟨none, [answer]⟩
  | none => ⟨some (gathered item aprotocol records), []⟩

theorem found?_eq_some {r : AvahiSServiceResolver} {answer : ResolverAnswer}
    (h : r.found? = some answer) :
    ∃ srv txt address, r.srvRecord = some srv ∧ r.txtRecord = some txt ∧
      r.addressRecord = some address ∧
      answer = .found srv.name address.address srv.port txt.stringList := by
  unfold AvahiSServiceResolver.found? at h
  split at h
  · rename_i srv txt address hsrv htxt haddress
    exact ⟨srv, txt, address, hsrv, htxt, haddress, (Option.some.inj h).symm⟩
  · cases h

/-- Further records do not change an answer. -/
theorem found?_gathered_append {item : ServiceItem} {aprotocol : Int}
    {records : List AvahiRecord} {answer : ResolverAnswer}
    (h : (gathered item aprotocol records).found? = some answer) (record : AvahiRecord) :
    (gathered item aprotocol (records ++ [record])).found? = some answer := by
  obtain ⟨srv, txt, address, hsrv, htxt, haddress, rfl⟩ := found?_eq_some h
  simp only [gathered] at hsrv htxt haddress
  simp [AvahiSServiceResolver.found?, gathered, List.findSome?_append, hsrv, htxt, haddress]

/-- One more record fills its slot or changes nothing. -/
theorem fill_gathered (item : ServiceItem) (aprotocol : Int) (records : List AvahiRecord)
    (record : AvahiRecord) :
    (gathered item aprotocol records).fill record =
        (gathered item aprotocol (records ++ [record]), true) ∨
      (gathered item aprotocol records).fill record = (gathered item aprotocol records, false) ∧
        gathered item aprotocol (records ++ [record]) = gathered item aprotocol records := by
  cases record with
  | srv record =>
      cases hslot : records.findSome? AvahiRecord.srv? with
      | some first =>
          right
          simp [AvahiSServiceResolver.fill, gathered, hslot, List.findSome?_append,
            AvahiRecord.txt?, AvahiRecord.address?]
      | none =>
          left
          have hbrowsers : (gathered item aprotocol records).browseAddresses =
              (AvahiSServiceResolver.new item aprotocol).browseAddresses := by
            funext browser
            cases browser <;> simp [AvahiSServiceResolver.browseAddresses, gathered, hslot]
          simp only [AvahiSServiceResolver.fill, hbrowsers]
          simp [gathered, hslot, List.findSome?_append, AvahiRecord.srv?, AvahiRecord.txt?,
            AvahiRecord.address?]
  | txt record =>
      cases hslot : records.findSome? AvahiRecord.txt? with
      | some first =>
          right
          simp [AvahiSServiceResolver.fill, gathered, hslot, List.findSome?_append,
            AvahiRecord.srv?, AvahiRecord.address?]
      | none =>
          left
          simp [AvahiSServiceResolver.fill, gathered, hslot, List.findSome?_append,
            AvahiRecord.srv?, AvahiRecord.txt?, AvahiRecord.address?]
  | address record =>
      cases hslot : records.findSome? AvahiRecord.address? with
      | some first =>
          right
          simp [AvahiSServiceResolver.fill, gathered, hslot, List.findSome?_append,
            AvahiRecord.srv?, AvahiRecord.txt?]
      | none =>
          left
          simp [AvahiSServiceResolver.fill, gathered, hslot, List.findSome?_append,
            AvahiRecord.srv?, AvahiRecord.txt?, AvahiRecord.address?]

/-- An incomplete resolver takes a record and answers as soon as it is complete. -/
theorem recordNew_gathered (item : ServiceItem) (aprotocol : Int) (records : List AvahiRecord)
    (record : AvahiRecord) (hincomplete : (gathered item aprotocol records).found? = none) :
    (gathered item aprotocol records).recordNew item.interface item.protocol record =
      (gathered item aprotocol (records ++ [record]),
        (gathered item aprotocol (records ++ [record])).found?) := by
  have hbound : { gathered item aprotocol records with
      interface := if (gathered item aprotocol records).interface ≤ 0 then item.interface
        else (gathered item aprotocol records).interface
      protocol := if (gathered item aprotocol records).protocol = AVAHI_PROTO_UNSPEC then
        item.protocol else (gathered item aprotocol records).protocol } =
      gathered item aprotocol records := by
    simp [gathered, AvahiSServiceResolver.new]
  unfold AvahiSServiceResolver.recordNew
  rw [if_neg fun h => h.2.2 rfl, if_neg fun h => h.2.2 rfl, hbound]
  rcases fill_gathered item aprotocol records record with hfill | ⟨hfill, hsame⟩
  · simp only [hfill, if_true]
  · simp only [hfill, hsame, hincomplete, Bool.false_eq_true, if_false]

/-- The resolver over any arrivals: the first records of each kind decide. -/
theorem outcome_of_arrivals (item : ServiceItem) (aprotocol : Int) (records : List AvahiRecord)
    (reached : Resolution)
    (h : (resolution item aprotocol).run (arrivals item records) = some reached) :
    reached = outcome item aprotocol records := by
  induction records using List.reverseRecOn generalizing reached with
  | nil => exact (Option.some.inj h).symm
  | append_singleton records record ih =>
      rw [arrivals, List.map_append] at h
      obtain ⟨before, hbefore, hstep⟩ := (Machine.run_snoc _ _ _ _).mp h
      obtain rfl := ih before hbefore
      unfold outcome at hstep ⊢
      cases hfound : (gathered item aprotocol records).found? with
      | some answer =>
          rw [hfound] at hstep
          rw [found?_gathered_append hfound record]
          exact (Option.some.inj hstep).symm
      | none =>
          rw [hfound] at hstep
          obtain ⟨_, hstep⟩ := Option.ite_none_right_eq_some.mp hstep
          rw [recordNew_gathered item aprotocol records record hfound] at hstep
          obtain rfl := Option.some.inj hstep
          unfold Resolution.report
          cases (gathered item aprotocol (records ++ [record])).found? <;> rfl

/-- A freed resolver stays freed and silent. -/
theorem run_freed (item : ServiceItem) (aprotocol : Int) (answers : List ResolverAnswer)
    (events : List ResolverEvent) :
    (resolution item aprotocol).runFrom ⟨none, answers⟩ events = some ⟨none, answers⟩ := by
  induction events with
  | nil => rfl
  | cons event events ih => exact ih

/-- A run in which every kind of record arrives before anything else happens
has exactly one answer, made of the first record of each kind. -/
theorem answers_of_complete (item : ServiceItem) (aprotocol : Int) (records : List AvahiRecord)
    (rest : List ResolverEvent) (reached : Resolution)
    (h : (resolution item aprotocol).run (arrivals item records ++ rest) = some reached)
    {srv : SrvRecord} {txt : TxtRecord} {address : AddressRecord}
    (hsrv : records.findSome? AvahiRecord.srv? = some srv)
    (htxt : records.findSome? AvahiRecord.txt? = some txt)
    (haddress : records.findSome? AvahiRecord.address? = some address) :
    reached.answers = [.found srv.name address.address srv.port txt.stringList] := by
  obtain ⟨middle, hmiddle, hrest⟩ := (resolution item aprotocol).run_split h
  have hfound : (gathered item aprotocol records).found? =
      some (.found srv.name address.address srv.port txt.stringList) := by
    simp [AvahiSServiceResolver.found?, gathered, hsrv, htxt, haddress]
  have houtcome := outcome_of_arrivals item aprotocol records middle hmiddle
  rw [outcome, hfound] at houtcome
  rw [houtcome, run_freed] at hrest
  exact congrArg Resolution.answers (Option.some.inj hrest).symm

/-- If the first address record is an A record, it is the first A record. -/
theorem first_inet {records : List AvahiRecord} {first : AddressRecord}
    {address : AvahiIPv4Address}
    (hfirst : records.findSome? AvahiRecord.address? = some first)
    (hinet : records.findSome? AvahiRecord.inet? = some address) (h : first.isInet) :
    first.address = .inet address := by
  induction records with
  | nil => cases hfirst
  | cons record records ih =>
      rcases record with record | record | ⟨key, ipv4 | bytes⟩
      · exact ih hfirst hinet
      · exact ih hfirst hinet
      · obtain rfl := Option.some.inj hfirst
        obtain rfl := Option.some.inj hinet
        rfl
      · obtain rfl := Option.some.inj hfirst
        cases h

theorem exists_first_address {records : List AvahiRecord} {address : AvahiIPv4Address}
    (hinet : records.findSome? AvahiRecord.inet? = some address) :
    ∃ first, records.findSome? AvahiRecord.address? = some first := by
  obtain ⟨record, hrecord, hsome⟩ := List.exists_of_findSome?_eq_some hinet
  apply Option.isSome_iff_exists.mp
  rw [List.findSome?_isSome_iff]
  refine ⟨record, hrecord, ?_⟩
  rcases record with record | record | record
  · cases hsome
  · cases hsome
  · rfl

/-- With SRV, TXT and A records arriving before the timeout, in any order and
with any repetitions, the embedded backend makes exactly one call, with the
first A record's address and the first SRV record's port, if and only if no
AAAA record is the first address to arrive. -/
theorem found_once_iff (item : ServiceItem) (records : List AvahiRecord)
    (rest : List ResolverEvent) (reached : Resolution) (srv : SrvRecord) (txt : TxtRecord)
    (address : AvahiIPv4Address)
    (h : (resolution item AVAHI_PROTO_UNSPEC).run (arrivals item records ++ rest) = some reached)
    (hsrv : records.findSome? AvahiRecord.srv? = some srv)
    (htxt : records.findSome? AvahiRecord.txt? = some txt)
    (hinet : records.findSome? AvahiRecord.inet? = some address) :
    foundCalls item reached = [⟨item.name, address.toString, srv.port, txt.stringList⟩] ↔
      ∃ first, records.findSome? AvahiRecord.address? = some first ∧ first.isInet := by
  obtain ⟨first, hfirst⟩ := exists_first_address hinet
  have hanswers := answers_of_complete item _ records rest reached h hsrv htxt hfirst
  rw [foundCalls, hanswers]
  constructor
  · intro hcalls
    refine ⟨first, hfirst, ?_⟩
    obtain ⟨key, ipv4 | bytes⟩ := first
    · rfl
    · cases hcalls
  · rintro ⟨_, hsome, hkind⟩
    obtain rfl := Option.some.inj (hfirst.symm.trans hsome)
    rw [first_inet hfirst hinet hkind]
    rfl

/-- A camera with an IPv4 address only, its TXT record first. -/
theorem found_once_ipv4_only :
    ∃ reached, (resolution ⟨2, 0, "yard"⟩ AVAHI_PROTO_UNSPEC).run
        (arrivals ⟨2, 0, "yard"⟩
          [.txt ⟨"yard", []⟩, .srv ⟨"yard", "pi.local", 0, 0, 8889⟩,
            .address ⟨"pi.local", .inet ⟨10, 0, 0, 7⟩⟩] ++ []) = some reached ∧
      foundCalls ⟨2, 0, "yard"⟩ reached =
        [⟨"yard", AvahiIPv4Address.toString ⟨10, 0, 0, 7⟩, 8889, []⟩] :=
  ⟨_, rfl, (found_once_iff ⟨2, 0, "yard"⟩
    [.txt ⟨"yard", []⟩, .srv ⟨"yard", "pi.local", 0, 0, 8889⟩,
      .address ⟨"pi.local", .inet ⟨10, 0, 0, 7⟩⟩]
    [] _ ⟨"yard", "pi.local", 0, 0, 8889⟩ ⟨"yard", []⟩ ⟨10, 0, 0, 7⟩
    rfl rfl rfl rfl).mpr ⟨_, rfl, rfl⟩⟩

/-- A dual-stack camera whose AAAA record comes first: the A record arrives in
time and no call is made. -/
theorem never_found_ipv6_first :
    ∃ reached, (resolution ⟨2, 0, "yard"⟩ AVAHI_PROTO_UNSPEC).run
        (arrivals ⟨2, 0, "yard"⟩
          [.srv ⟨"yard", "pi.local", 0, 0, 8889⟩, .txt ⟨"yard", []⟩,
            .address ⟨"pi.local", .inet6 [254, 128]⟩,
            .address ⟨"pi.local", .inet ⟨10, 0, 0, 7⟩⟩]) = some reached ∧
      foundCalls ⟨2, 0, "yard"⟩ reached = [] :=
  ⟨_, rfl, rfl⟩

end NvmrDisplay.Avahi
