import NvmrDisplay.Avahi.DnsRoundTrip

/-!
Messages: the packets that `avahi-core/query-sched.c` and `response-sched.c` fill
and send, and the loops of `avahi-core/server.c` that receive them.
-/

namespace NvmrDisplay.Avahi.Dns

open Lib Lib.WireName

abbrev AVAHI_DNS_FIELD_FLAGS : Nat := 1
abbrev AVAHI_DNS_FIELD_QDCOUNT : Nat := 2
abbrev AVAHI_DNS_FIELD_ANCOUNT : Nat := 3
abbrev AVAHI_DNS_FIELD_NSCOUNT : Nat := 4
abbrev AVAHI_DNS_FIELD_ARCOUNT : Nat := 5

abbrev AVAHI_DNS_FLAG_QR : UInt16 := 0x8000
abbrev AVAHI_DNS_FLAG_OPCODE : UInt16 := 0x7800
abbrev AVAHI_DNS_FLAG_RCODE : UInt16 := 0x000F
abbrev AVAHI_DNS_FLAG_TC : UInt16 := 0x0200
abbrev AVAHI_DNS_FLAG_AA : UInt16 := 0x0400

/-- `avahi_dns_packet_get_field`. -/
def getField (data : List UInt8) (idx : Nat) : UInt16 :=
  (data.getD (2 * idx) 0).toUInt16 <<< 8 ||| (data.getD (2 * idx + 1) 0).toUInt16

namespace AvahiDnsPacket

/-- `avahi_dns_packet_new_query`. -/
def newQuery (mtu : Nat) : AvahiDnsPacket := (new mtu).setField AVAHI_DNS_FIELD_FLAGS 0

/-- `avahi_dns_packet_new_response`. -/
def newResponse (mtu : Nat) (aa : Bool) : AvahiDnsPacket :=
  (new mtu).setField AVAHI_DNS_FIELD_FLAGS
    (AVAHI_DNS_FLAG_QR ||| if aa then AVAHI_DNS_FLAG_AA else 0)

/-- `avahi_dns_packet_is_empty`. -/
def isEmpty (p : AvahiDnsPacket) : Bool := p.data.length ≤ AVAHI_DNS_PACKET_HEADER_SIZE

end AvahiDnsPacket

/-- `avahi_dns_packet_check_valid_multicast`. -/
def checkValidMulticast (data : List UInt8) : Bool :=
  AVAHI_DNS_PACKET_HEADER_SIZE ≤ data.length &&
    getField data AVAHI_DNS_FIELD_FLAGS &&& AVAHI_DNS_FLAG_OPCODE = 0 &&
    getField data AVAHI_DNS_FIELD_FLAGS &&& AVAHI_DNS_FLAG_RCODE = 0

/-- `avahi_dns_packet_is_query`. -/
def isQuery (data : List UInt8) : Bool :=
  getField data AVAHI_DNS_FIELD_FLAGS &&& AVAHI_DNS_FLAG_QR = 0

/-- The loops of `handle_query_packet` and `handle_response_packet`: what is
consumed until a key or a record cannot be read, and where that is. -/
def consumeMany {α : Type} (consume : Nat → Consumed α) : Nat → Nat → List α × Nat
  | 0, rindex => ([], rindex)
  | n + 1, rindex =>
      match consume rindex with
      | .ok received next =>
          let (rest, last) := consumeMany consume n next
          (received :: rest, last)
      | .failed | .undefined => ([], rindex)

/-- The records that `handle_response_packet` handles. -/
def responseRecords (data : List UInt8) : List (AvahiRecord × Bool) :=
  (consumeMany (consumeRecord data)
    ((getField data AVAHI_DNS_FIELD_ANCOUNT).toNat + (getField data AVAHI_DNS_FIELD_ARCOUNT).toNat)
    AVAHI_DNS_PACKET_HEADER_SIZE).1

/-- The keys that `handle_query_packet` handles, and where the records begin. -/
def queryKeys (data : List UInt8) : List (AvahiKey × Bool) × Nat :=
  consumeMany (consumeKey data) (getField data AVAHI_DNS_FIELD_QDCOUNT).toNat
    AVAHI_DNS_PACKET_HEADER_SIZE

/-- The known answers that `handle_query_packet` handles behind the keys, if it
could read all of these. -/
def queryAnswers (data : List UInt8) : List (AvahiRecord × Bool) :=
  let (keys, last) := queryKeys data
  if keys.length = (getField data AVAHI_DNS_FIELD_QDCOUNT).toNat then
    (consumeMany (consumeRecord data) (getField data AVAHI_DNS_FIELD_ANCOUNT).toNat last).1
  else []

section Fields

variable {p : AvahiDnsPacket} {idx : Nat}

theorem setField_length (p : AvahiDnsPacket) (idx : Nat) (v : UInt16) :
    (p.setField idx v).data.length = p.data.length := by
  rw [AvahiDnsPacket.setField, AvahiDnsPacket.write16]
  simp only [List.length_set]

/-- Nothing behind the header changes. -/
theorem setField_getElem? (hidx : idx < 6) (v : UInt16) {cell : Nat}
    (hcell : AVAHI_DNS_PACKET_HEADER_SIZE ≤ cell) :
    (p.setField idx v).data[cell]? = p.data[cell]? := by
  have hheader : AVAHI_DNS_PACKET_HEADER_SIZE = 12 := rfl
  rw [AvahiDnsPacket.setField, AvahiDnsPacket.write16]
  simp only
  rw [List.getElem?_set_ne (by omega), List.getElem?_set_ne (by omega)]

theorem setField_known (hidx : idx < 6) (v : UInt16) (hole : List Nat) :
    (p.setField idx v).known hole = p.known hole := by
  funext cell
  apply Option.ext
  intro value
  rw [known_eq_some_iff, known_eq_some_iff]
  constructor
  · rintro ⟨hmem, hcell, hread⟩
    rw [setField_getElem? hidx v hcell] at hread
    exact ⟨hmem, hcell, hread⟩
  · rintro ⟨hmem, hcell, hread⟩
    refine ⟨hmem, hcell, ?_⟩
    rw [setField_getElem? hidx v hcell]
    exact hread

theorem Written.setField (h : Written [] p) (hidx : idx < 6) (v : UInt16) :
    Written [] (p.setField idx v) := by
  refine ⟨?_, ?_, fun cell hmem => absurd hmem List.not_mem_nil, ?_⟩
  · rw [setField_length]
    exact h.header
  · rw [setField_length]
    exact h.room
  · intro entry hmem
    rw [setField_known hidx]
    exact h.names entry hmem

/-- A field is read as it was set last. -/
theorem getField_setField (hidx : idx < 6)
    (hheader : AVAHI_DNS_PACKET_HEADER_SIZE ≤ p.data.length) (v : UInt16) (other : Nat) :
    getField (p.setField idx v).data other = if other = idx then v else getField p.data other := by
  have hsize : AVAHI_DNS_PACKET_HEADER_SIZE = 12 := rfl
  rw [getField, AvahiDnsPacket.setField, AvahiDnsPacket.write16]
  simp only [List.getD_eq_getElem?_getD]
  by_cases hsame : other = idx
  · subst hsame
    rw [if_pos rfl, List.getElem?_set_ne (by omega), List.getElem?_set_self (by omega),
      List.getElem?_set_self (by rw [List.length_set]; omega)]
    exact joined16 v
  · rw [if_neg hsame, List.getElem?_set_ne (by omega), List.getElem?_set_ne (by omega),
      List.getElem?_set_ne (by omega), List.getElem?_set_ne (by omega), getField,
      List.getD_eq_getElem?_getD, List.getD_eq_getElem?_getD]

/-- What is appended does not change the header. -/
theorem getField_prolonged {q : AvahiDnsPacket} (h : p.data <+: q.data) (hidx : idx < 6)
    (hheader : AVAHI_DNS_PACKET_HEADER_SIZE ≤ p.data.length) :
    getField q.data idx = getField p.data idx := by
  have hsize : AVAHI_DNS_PACKET_HEADER_SIZE = 12 := rfl
  obtain ⟨more, hdata⟩ := h
  rw [getField, getField, ← hdata]
  simp only [List.getD_eq_getElem?_getD]
  rw [List.getElem?_append_left (by omega), List.getElem?_append_left (by omega)]

end Fields

/-- A new packet has an empty header, and room for it. -/
theorem new_written (mtu : Nat) :
    Written [] (AvahiDnsPacket.new mtu) ∧ (AvahiDnsPacket.new mtu).data.length = 12 ∧
      ∀ idx, getField (AvahiDnsPacket.new mtu).data idx = 0 := by
  have hdata : (AvahiDnsPacket.new mtu).data = List.replicate AVAHI_DNS_PACKET_HEADER_SIZE 0 := rfl
  have hlength : (AvahiDnsPacket.new mtu).data.length = 12 := by
    rw [hdata, List.length_replicate]
  have hzero (cell : Nat) :
      (List.replicate AVAHI_DNS_PACKET_HEADER_SIZE (0 : UInt8)).getD cell 0 = 0 := by
    rw [List.getD_eq_getElem?_getD, List.getElem?_replicate]
    split
    · rfl
    · rfl
  refine ⟨⟨?_, ?_, fun cell hmem => absurd hmem List.not_mem_nil,
    fun entry hmem => absurd hmem List.not_mem_nil⟩, hlength, ?_⟩
  · exact Nat.le_of_eq hlength.symm
  · rw [hlength]
    exact Nat.le_max_right _ _
  · intro idx
    rw [getField, hdata, hzero, hzero]
    rfl

/-- The packets for a device are no larger than packets can be. -/
theorem new_maxSize_le {mtu : Nat} (h : mtu ≤ AVAHI_DNS_PACKET_SIZE_MAX) :
    (AvahiDnsPacket.new mtu).maxSize ≤ AVAHI_DNS_PACKET_SIZE_MAX := by
  have hsize : AVAHI_DNS_PACKET_SIZE_MAX = 65813 := rfl
  have hheader : AVAHI_DNS_PACKET_HEADER_SIZE = 12 := rfl
  rw [AvahiDnsPacket.new]
  simp only
  split
  · omega
  · split
    · omega
    · omega

theorem newResponse_maxSize_le {mtu : Nat} (h : mtu ≤ AVAHI_DNS_PACKET_SIZE_MAX) (aa : Bool) :
    (AvahiDnsPacket.newResponse mtu aa).maxSize ≤ AVAHI_DNS_PACKET_SIZE_MAX := new_maxSize_le h

section Many

variable {α : Type}

/-- What is consumed first, and then the rest. -/
theorem consumeMany_add {consume : Nat → Consumed α} {n rindex last : Nat} {items : List α}
    (h : consumeMany consume n rindex = (items, last)) (hall : items.length = n) (more : Nat) :
    consumeMany consume (n + more) rindex =
      (items ++ (consumeMany consume more last).1, (consumeMany consume more last).2) := by
  induction n generalizing rindex items with
  | zero =>
      obtain ⟨rfl, rfl⟩ := Prod.mk.inj h
      rw [Nat.zero_add]
      rfl
  | succ n ih =>
      rw [consumeMany] at h
      cases hfirst : consume rindex with
      | failed =>
          rw [hfirst] at h
          obtain ⟨rfl, _⟩ := Prod.mk.inj h
          cases hall
      | undefined =>
          rw [hfirst] at h
          obtain ⟨rfl, _⟩ := Prod.mk.inj h
          cases hall
      | ok item next =>
          rw [hfirst] at h
          obtain ⟨rfl, rfl⟩ := Prod.mk.inj h
          have hrest := ih rfl (Nat.succ.inj hall)
          rw [Nat.succ_add, consumeMany, hfirst]
          simp only [hrest]
          rfl

/-- The packet has these items from `start` to its end, to whoever receives it. -/
def Carries (consume : List UInt8 → Nat → Consumed α) (p : AvahiDnsPacket) (start : Nat)
    (items : List α) : Prop :=
  ∀ data, (received data).Extends (p.known []) →
    consumeMany (consume data) items.length start = (items, p.data.length)

variable {consume : List UInt8 → Nat → Consumed α} {p q : AvahiDnsPacket} {start : Nat}

theorem Carries.nil (consume : List UInt8 → Nat → Consumed α) (p : AvahiDnsPacket) :
    Carries consume p p.data.length [] := fun _ _ => rfl

/-- One more item behind those that are there. -/
theorem Carries.snoc {items : List α} (h : Carries consume p start items) (hq : p.data <+: q.data)
    {item : α} (hitem : ∀ data, (received data).Extends (q.known []) →
      consume data p.data.length = .ok item q.data.length) :
    Carries consume q start (items ++ [item]) := by
  intro data hdata
  have hfirst := h data (hdata.trans (known_extends hq))
  rw [List.length_append, List.length_singleton, consumeMany_add hfirst rfl, consumeMany,
    hitem data hdata]
  rfl

/-- Only what is known behind the header matters. -/
theorem Carries.congr {items : List α} (h : Carries consume p start items)
    (hknown : q.known [] = p.known []) (hlength : q.data.length = p.data.length) :
    Carries consume q start items := by
  intro data hdata
  rw [hknown] at hdata
  rw [hlength]
  exact h data hdata

theorem Carries.setField {items : List α} (h : Carries consume p start items) {idx : Nat}
    (hidx : idx < 6) (v : UInt16) : Carries consume (p.setField idx v) start items :=
  h.congr (setField_known hidx v []) (setField_length p idx v)

/-- The receiver of a packet has what the packet knows. -/
theorem received_self (p : AvahiDnsPacket) : (received p.data).Extends (p.known []) :=
  received_extends (List.prefix_refl _)

end Many

/-- Every record takes its bytes. -/
theorem consumeRecords_length {data : List UInt8} {n start last : Nat}
    {items : List (AvahiRecord × Bool)}
    (h : consumeMany (consumeRecord data) n start = (items, last)) :
    start + 11 * items.length ≤ last := by
  induction n generalizing start items with
  | zero =>
      obtain ⟨rfl, rfl⟩ := Prod.mk.inj h
      exact Nat.le_refl _
  | succ n ih =>
      rw [consumeMany] at h
      cases hfirst : consumeRecord data start with
      | failed =>
          rw [hfirst] at h
          obtain ⟨rfl, rfl⟩ := Prod.mk.inj h
          exact Nat.le_refl _
      | undefined =>
          rw [hfirst] at h
          obtain ⟨rfl, rfl⟩ := Prod.mk.inj h
          exact Nat.le_refl _
      | ok item next =>
          rw [hfirst] at h
          obtain ⟨rfl, rfl⟩ := Prod.mk.inj h
          have hnext := (consumeRecord_inside hfirst).1
          have hrest := ih rfl
          rw [List.length_cons]
          omega

/-- A packet has fewer records than a field can count. -/
theorem Carries.count_lt {p : AvahiDnsPacket} {start : Nat} {items : List (AvahiRecord × Bool)}
    (h : Carries consumeRecord p start items) (hp : Written [] p)
    (hmax : p.maxSize ≤ AVAHI_DNS_PACKET_SIZE_MAX) : items.length < 65536 := by
  have hlength := consumeRecords_length (h p.data (received_self p))
  have hroom := hp.room
  have hsize : AVAHI_DNS_PACKET_SIZE_MAX = 65813 := rfl
  omega

section Append

variable {p : AvahiDnsPacket} {start : Nat} {items : List (AvahiRecord × Bool)}

/-- What appending a record does to a packet that has some. -/
theorem Carries.appendRecord (h : Written [] p) (hitems : Carries consumeRecord p start items)
    {r : AvahiRecord} (hr : r.Sendable) (cacheFlush : Bool) (maxTtl : UInt32) :
    match p.appendRecord r cacheFlush maxTtl with
    | .ok q _ =>
        Written [] q ∧ q.maxSize = p.maxSize ∧ p.data <+: q.data ∧
          p.data.length < q.data.length ∧
          Carries consumeRecord q start (items ++ [(r.onWire maxTtl, cacheFlush)])
    | .null q =>
        Written [] q ∧ q.data = p.data ∧ q.maxSize = p.maxSize ∧
          Carries consumeRecord q start items
    | .undefined => False := by
  have hspec := appendRecord_spec h hr cacheFlush maxTtl
  cases hresult : p.appendRecord r cacheFlush maxTtl with
  | undefined =>
      rw [hresult] at hspec
      exact hspec
  | null q =>
      rw [hresult] at hspec
      obtain ⟨hwritten, hdata, hmax⟩ := hspec
      refine ⟨hwritten, hdata, hmax, hitems.congr ?_ (hdata ▸ rfl)⟩
      funext cell
      simp only [AvahiDnsPacket.known, hdata]
  | ok q offset =>
      rw [hresult] at hspec
      obtain ⟨_, bytes, hq, hreceived⟩ := hspec
      have hgrows := (consumeRecord_inside (hreceived q.data (received_self q))).1
      have hlength := hq.length
      refine ⟨hq.written, hq.maxSize, hq.prolongs, by omega, hitems.snoc hq.prolongs ?_⟩
      intro data hdata
      rw [hreceived data hdata, hq.length]

end Append

section Response

/-- What `dispatch_packet` asks of a packet before it is handled as a response. -/
def isResponse (data : List UInt8) : Bool :=
  checkValidMulticast data && !isQuery data && getField data AVAHI_DNS_FIELD_QDCOUNT = 0 &&
    getField data AVAHI_DNS_FIELD_ANCOUNT ≠ 0 && getField data AVAHI_DNS_FIELD_NSCOUNT = 0

/-- A response packet that is being filled. -/
structure ResponsePacket (p : AvahiDnsPacket) (items : List (AvahiRecord × Bool)) : Prop where
  written : Written [] p
  carries : Carries consumeRecord p AVAHI_DNS_PACKET_HEADER_SIZE items
  flags : getField p.data AVAHI_DNS_FIELD_FLAGS = AVAHI_DNS_FLAG_QR ||| AVAHI_DNS_FLAG_AA
  counts : ∀ idx, 2 ≤ idx → idx < 6 → getField p.data idx = 0

theorem newResponse_packet (mtu : Nat) : ResponsePacket (.newResponse mtu true) [] := by
  obtain ⟨hwritten, hlength, hzero⟩ := new_written mtu
  have hflags : AVAHI_DNS_FIELD_FLAGS < 6 := by decide
  refine ⟨hwritten.setField hflags _, ?_, ?_, ?_⟩
  · have hstart :
        (AvahiDnsPacket.newResponse mtu true).data.length = AVAHI_DNS_PACKET_HEADER_SIZE :=
      (setField_length _ _ _).trans hlength
    have hnil := Carries.nil consumeRecord (.newResponse mtu true)
    rwa [hstart] at hnil
  · rw [AvahiDnsPacket.newResponse, getField_setField hflags hwritten.header, if_pos rfl]
    rfl
  · intro idx hlow hhigh
    rw [AvahiDnsPacket.newResponse, getField_setField hflags hwritten.header, if_neg, hzero]
    have hone : AVAHI_DNS_FIELD_FLAGS = 1 := rfl
    omega

theorem ResponsePacket.extend {p q : AvahiDnsPacket} {items more : List (AvahiRecord × Bool)}
    (h : ResponsePacket p items) (hq : p.data <+: q.data) (hwritten : Written [] q)
    (hcarries : Carries consumeRecord q AVAHI_DNS_PACKET_HEADER_SIZE more) :
    ResponsePacket q more := by
  refine ⟨hwritten, hcarries, ?_, ?_⟩
  · rw [getField_prolonged hq (by decide) h.written.header]
    exact h.flags
  · intro idx hlow hhigh
    rw [getField_prolonged hq hhigh h.written.header]
    exact h.counts idx hlow hhigh

/-- Once its records are counted, a response packet is accepted and read whole. -/
theorem ResponsePacket.read {p : AvahiDnsPacket} {items : List (AvahiRecord × Bool)}
    (h : ResponsePacket p items) (hne : items ≠ []) (hcount : items.length < 65536) :
    isResponse (p.setField AVAHI_DNS_FIELD_ANCOUNT (UInt16.ofNat items.length)).data = true ∧
      responseRecords (p.setField AVAHI_DNS_FIELD_ANCOUNT (UInt16.ofNat items.length)).data =
        items := by
  have hidx : AVAHI_DNS_FIELD_ANCOUNT < 6 := by decide
  have hfield (other : Nat) :=
    getField_setField hidx h.written.header (UInt16.ofNat items.length) other
  have hvalue : (UInt16.ofNat items.length).toNat = items.length := by
    rw [UInt16.toNat_ofNat']
    omega
  have hpos := List.length_pos_iff.mpr hne
  have hnonzero : UInt16.ofNat items.length ≠ 0 := by
    intro hzero
    rw [hzero] at hvalue
    have hzeroValue : (0 : UInt16).toNat = 0 := rfl
    omega
  have hlong : AVAHI_DNS_PACKET_HEADER_SIZE ≤
      (p.setField AVAHI_DNS_FIELD_ANCOUNT (UInt16.ofNat items.length)).data.length := by
    rw [setField_length]
    exact h.written.header
  constructor
  · rw [isResponse, checkValidMulticast, isQuery, hfield, hfield, hfield, hfield,
      if_neg (by decide), if_neg (by decide), if_pos rfl, if_neg (by decide), h.flags,
      h.counts AVAHI_DNS_FIELD_QDCOUNT (by decide) (by decide),
      h.counts AVAHI_DNS_FIELD_NSCOUNT (by decide) (by decide), decide_eq_true hlong,
      decide_eq_true hnonzero]
    rfl
  · have hall := h.carries.setField hidx (UInt16.ofNat items.length) _ (received_self _)
    have hzero : (0 : UInt16).toNat = 0 := rfl
    rw [responseRecords, hfield, hfield, if_pos rfl, if_neg (by decide),
      h.counts AVAHI_DNS_FIELD_ARCOUNT (by decide) (by decide), hvalue, hzero, Nat.add_zero, hall]

end Response

end NvmrDisplay.Avahi.Dns
