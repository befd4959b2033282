import NvmrDisplay.Avahi.DnsName
import NvmrDisplay.Avahi.ResourceRecord

/-!
Keys and records in packets, `avahi-core/dns.c`. What is appended to a packet is
consumed again by whoever receives it, and nothing that is received is read
beyond its end.
-/

namespace NvmrDisplay.Avahi.Dns

open Lib Lib.WireName

/-- `AVAHI_DNS_RDATA_MAX` bytes at most, as the data of a record of unknown type. -/
def genericData (bytes : List UInt8) : Option (RecordData .generic) :=
  if h : bytes.length ≤ 65535 then some (.generic ⟨bytes, h⟩) else none

/-- The `switch` of `parse_rdata`. -/
def parseRdataOf (data : List UInt8) (rindex : Nat) (rdlength : UInt16) :
    (kind : RecordKind) → Consumed (RecordData kind)
  | .name =>
      (consumeName data rindex AVAHI_DOMAIN_NAME_MAX).andThen fun name rindex =>
        .ok (.name name) rindex
  | .srv =>
      (consumeUint16 data rindex).andThen fun priority rindex =>
        (consumeUint16 data rindex).andThen fun weight rindex =>
          (consumeUint16 data rindex).andThen fun port rindex =>
            (consumeName data rindex AVAHI_DOMAIN_NAME_MAX).andThen fun name rindex =>
              .ok (.srv priority weight port name) rindex
  | .hinfo =>
      (consumeString data rindex AVAHI_DOMAIN_NAME_MAX).andThen fun cpu rindex =>
        (consumeString data rindex AVAHI_DOMAIN_NAME_MAX).andThen fun os rindex =>
          .ok (.hinfo cpu os) rindex
  | .txt =>
      if rdlength > 0 then
        match readBytes data rindex rdlength.toNat with
        | none => .undefined
        | some bytes =>
            match AvahiStringList.parse bytes with
            | none => .failed
            | some stringList =>
                (skip data rindex rdlength.toNat).andThen fun _ rindex =>
                  .ok (.txt stringList) rindex
      else .ok (.txt []) rindex
  | .a =>
      (consumeBytes data rindex 4).andThen fun bytes rindex =>
        if h : bytes.length = 4 then .ok (.a ⟨bytes, h⟩) rindex else .undefined
  | .aaaa =>
      (consumeBytes data rindex 16).andThen fun bytes rindex =>
        if h : bytes.length = 16 then .ok (.aaaa ⟨bytes, h⟩) rindex else .undefined
  | .generic =>
      if rdlength > 0 then
        match (readBytes data rindex rdlength.toNat).bind genericData with
        | none => .undefined
        | some generic => (skip data rindex rdlength.toNat).andThen fun _ rindex =>
            .ok generic rindex
      else .ok (.generic ⟨[], Nat.zero_le _⟩) rindex

/-- `parse_rdata`. -/
def parseRdata (data : List UInt8) (start : Nat) (rdlength : UInt16) (kind : RecordKind) :
    Consumed (RecordData kind) :=
  (parseRdataOf data start rdlength kind).andThen fun parsed rindex =>
    if rindex - start ≠ rdlength.toNat then .failed else .ok parsed rindex

/-- `avahi_dns_packet_consume_record`: the record, and whether it flushes the
cache. -/
def consumeRecord (data : List UInt8) (rindex : Nat) : Consumed (AvahiRecord × Bool) :=
  (consumeName data rindex AVAHI_DOMAIN_NAME_MAX).andThen fun name rindex =>
    (consumeUint16 data rindex).andThen fun type rindex =>
      (consumeUint16 data rindex).andThen fun clazz rindex =>
        (consumeUint32 data rindex).andThen fun ttl rindex =>
          (consumeUint16 data rindex).andThen fun rdlength rindex =>
            if rindex + rdlength.toNat > data.length then .failed
            else
              match keyNew name (clazz &&& ~~~AVAHI_DNS_CACHE_FLUSH) type with
              | .null => .failed
              | .undefined => .undefined
              | .ok key =>
                  (parseRdata data rindex rdlength (recordKind key.type)).andThen
                    fun parsed rindex =>
                    let r : AvahiRecord := ⟨key, recordTtl ttl, parsed⟩
                    if !r.isValid then .failed
                    else .ok (r, clazz &&& AVAHI_DNS_CACHE_FLUSH ≠ 0) rindex

/-- `avahi_dns_packet_consume_key`: the key, and whether a unicast response will
do. -/
def consumeKey (data : List UInt8) (rindex : Nat) : Consumed (AvahiKey × Bool) :=
  (consumeName data rindex 256).andThen fun name rindex =>
    (consumeUint16 data rindex).andThen fun type rindex =>
      (consumeUint16 data rindex).andThen fun clazz rindex =>
        match keyNew name (clazz &&& ~~~AVAHI_DNS_UNICAST_RESPONSE) type with
        | .null => .failed
        | .undefined => .undefined
        | .ok k =>
            if !k.isValid then .failed
            else .ok (k, clazz &&& AVAHI_DNS_UNICAST_RESPONSE ≠ 0) rindex

namespace AvahiDnsPacket

/-- `append_rdata`. -/
def appendRdata (p : AvahiDnsPacket) : {kind : RecordKind} → RecordData kind → Appended
  | _, .name name => p.appendName name
  | _, .srv priority weight port name =>
      (p.appendUint16 priority).andThen fun p _ =>
        (p.appendUint16 weight).andThen fun p _ =>
          (p.appendUint16 port).andThen fun p _ => p.appendName name
  | _, .hinfo cpu os =>
      (p.appendString cpu).andThen fun p _ => p.appendString os
  | _, .txt stringList => p.append (stringList.serialize stringList.serializedSize)
  | _, .a address => p.appendBytes address.val
  | _, .aaaa address => p.appendBytes address.val
  | _, .generic data =>
      if data.val.length ≠ 0 then p.appendBytes data.val else .ok p p.data.length

/-- The class of a record that is sent. -/
def recordClass (clazz : UInt16) (cacheFlush : Bool) : UInt16 :=
  if cacheFlush then clazz ||| AVAHI_DNS_CACHE_FLUSH else clazz &&& ~~~AVAHI_DNS_CACHE_FLUSH

/-- The TTL of a record that is sent; no maximum is 0. -/
def cappedTtl (ttl maxTtl : UInt32) : UInt32 :=
  if maxTtl ≠ 0 ∧ ttl > maxTtl then maxTtl else ttl

/-- `avahi_dns_packet_append_record` up to its `fail` label. -/
def appendRecordParts (p : AvahiDnsPacket) (r : AvahiRecord) (cacheFlush : Bool) (maxTtl : UInt32) :
    Appended :=
  (p.appendName r.key.name).andThen fun p t =>
    (p.appendUint16 r.key.type).andThen fun p _ =>
      (p.appendUint16 (recordClass r.key.clazz cacheFlush)).andThen fun p _ =>
        (p.appendUint32 (cappedTtl r.ttl maxTtl)).andThen fun p _ =>
          (p.appendUint16 0).andThen fun p l =>
            let start := p.data.length
            (p.appendRdata r.data).andThen fun p _ =>
              let size := p.data.length - start
              if size ≤ AVAHI_DNS_RDATA_MAX then .ok (p.write16 l (UInt16.ofNat size)) t
              else .undefined

/-- `avahi_dns_packet_append_record`. -/
def appendRecord (p : AvahiDnsPacket) (r : AvahiRecord) (cacheFlush : Bool) (maxTtl : UInt32) :
    Appended :=
  match p.appendRecordParts r cacheFlush maxTtl with
  | .null q => .null (q.restore p.data.length)
  | other => other

/-- `avahi_dns_packet_append_key` up to where it gives up. -/
def appendKeyParts (p : AvahiDnsPacket) (k : AvahiKey) (unicastResponse : Bool) : Appended :=
  (p.appendName k.name).andThen fun p t =>
    (p.appendUint16 k.type).andThen fun p _ =>
      (p.appendUint16 (if unicastResponse then k.clazz ||| AVAHI_DNS_UNICAST_RESPONSE
        else k.clazz)).andThen fun p _ => .ok p t

/-- `avahi_dns_packet_append_key`. -/
def appendKey (p : AvahiDnsPacket) (k : AvahiKey) (unicastResponse : Bool) : Appended :=
  match p.appendKeyParts k unicastResponse with
  | .null q => .null (q.restore p.data.length)
  | other => other

end AvahiDnsPacket

/-- Names in normal form that fit the buffers for names. -/
def NormalName (s : CString) : Prop :=
  ∃ labels, ProperLabels labels ∧ s = nameOf labels ∧
    (nameOf labels).length < AVAHI_DOMAIN_NAME_MAX

theorem NormalName.isProperName {s : CString} (h : NormalName s) : IsProperName s := by
  obtain ⟨labels, hlabels, rfl, _⟩ := h
  exact ⟨labels, labelsOf_nameOf hlabels, hlabels.nil_notMem⟩

/-- The names in the data of a record. -/
def RecordData.NormalNames : {kind : RecordKind} → RecordData kind → Prop
  | _, .name target => NormalName target
  | _, .srv _ _ _ target => NormalName target
  | _, .hinfo _ _ | _, .txt _ | _, .a _ | _, .aaaa _ | _, .generic _ => True

theorem RecordData.NormalNames.cast {kind other : RecordKind} {data : RecordData other}
    (h : data.NormalNames) (hkind : other = kind) : (hkind ▸ data).NormalNames := by
  subst hkind
  exact h

/-- Records with names that can be compared. -/
structure AvahiRecord.Comparable (r : AvahiRecord) : Prop where
  key : NormalName r.key.name
  data : r.data.NormalNames

theorem domainEqual_ne_none {a b : CString} (ha : NormalName a) (hb : NormalName b) :
    domainEqual a b ≠ none := by
  obtain ⟨labels, hlabels, hproper⟩ := ha.isProperName
  obtain ⟨others, hothers, hother⟩ := hb.isProperName
  rw [domainEqual_eq hlabels hothers hproper hother]
  exact Option.some_ne_none _

theorem rdataEqual_ne_none {kind : RecordKind} {a b : RecordData kind} (ha : a.NormalNames)
    (hb : b.NormalNames) : rdataEqual a b ≠ none := by
  cases a with
  | name target =>
      cases b with
      | name other => exact domainEqual_ne_none ha hb
  | srv priority weight port target =>
      cases b with
      | srv priority' weight' port' other =>
          rw [rdataEqual]
          split
          · exact domainEqual_ne_none ha hb
          · exact Option.some_ne_none _
  | hinfo cpu os =>
      cases b
      exact Option.some_ne_none _
  | txt stringList =>
      cases b
      exact Option.some_ne_none _
  | a address =>
      cases b
      exact Option.some_ne_none _
  | aaaa address =>
      cases b
      exact Option.some_ne_none _
  | generic data =>
      cases b
      exact Option.some_ne_none _

/-- Records of one key have data of one form. -/
theorem kind_eq_of_keyEqual {a b : AvahiKey} (h : keyEqual a b = some true) :
    recordKind b.type = recordKind a.type := by
  obtain ⟨same, _, heq⟩ := Option.map_eq_some_iff.mp h
  simp only [Bool.and_eq_true, decide_eq_true_eq] at heq
  rw [heq.1.2]

/-- Comparing two such records and hashing their keys never fails an assertion. -/
theorem AvahiRecord.Comparable.defined {a b : AvahiRecord} (ha : a.Comparable) (hb : b.Comparable) :
    recordEqualNoTtl a b ≠ none ∧ keyHash a.key ≠ none := by
  constructor
  · rw [recordEqualNoTtl]
    cases hkey : keyEqual a.key b.key with
    | none =>
        rw [keyEqual, Option.map_eq_none_iff] at hkey
        exact absurd hkey (domainEqual_ne_none ha.key hb.key)
    | some same =>
        cases same with
        | false => exact Option.some_ne_none _
        | true =>
            have hkind := kind_eq_of_keyEqual hkey
            simp only
            rw [dif_pos hkind]
            exact rdataEqual_ne_none ha.data (hb.data.cast hkind)
  · obtain ⟨labels, hlabels, _⟩ := ha.key.isProperName
    rw [keyHash, domainHash_eq hlabels]
    exact Option.some_ne_none _

/-- The key of a name from a packet. -/
theorem keyNew_nameOf {labels : List (List UInt8)} (h : ShortLabels labels)
    (hfits : (nameOf labels).length < AVAHI_DOMAIN_NAME_MAX) (clazz type : UInt16) :
    keyNew (nameOf labels) clazz type =
      if ∀ label ∈ labels, Readable label then .ok ⟨nameOf labels, clazz, type⟩
      else .null := by
  rw [keyNew, normalizeNameStrdup, normalizeName_nameOf h hfits]
  by_cases hreadable : ∀ label ∈ labels, Readable label
  · rw [if_pos hreadable, if_pos hreadable]
  · rw [if_neg hreadable, if_neg hreadable]

/-- Data that lies in the packet is parsed without reading beyond it. -/
theorem parseRdataOf_ne_undefined {data : List UInt8} {rindex : Nat} {rdlength : UInt16}
    (h : rindex + rdlength.toNat ≤ data.length) (kind : RecordKind) :
    parseRdataOf data rindex rdlength kind ≠ .undefined := by
  have hname (idx : Nat) : consumeName data idx AVAHI_DOMAIN_NAME_MAX ≠ .undefined :=
    consumeName_ne_undefined data idx (by decide)
  have hdone {kind : RecordKind} (parsed : RecordData kind) (idx : Nat) :
      Consumed.ok parsed idx ≠ .undefined := Consumed.ok_ne_undefined _ _
  have hbytes (l : Nat) : consumeBytes data rindex l ≠ .undefined := by
    rw [consumeBytes_eq]
    split
    · exact Consumed.ok_ne_undefined _ _
    · exact Consumed.failed_ne_undefined
  have hread := readBytes_of_le h
  have hlt := rdlength.toNat_lt
  cases kind with
  | name => exact Consumed.andThen_ne_undefined (hname _) fun _ _ _ => hdone _ _
  | srv =>
      apply Consumed.andThen_ne_undefined (consumeUint16_ne_undefined _ _)
      intro priority idx _
      apply Consumed.andThen_ne_undefined (consumeUint16_ne_undefined _ _)
      intro weight idx _
      apply Consumed.andThen_ne_undefined (consumeUint16_ne_undefined _ _)
      intro port idx _
      exact Consumed.andThen_ne_undefined (hname _) fun _ _ _ => hdone _ _
  | hinfo =>
      apply Consumed.andThen_ne_undefined (consumeString_ne_undefined _ _ _)
      intro cpu idx _
      exact Consumed.andThen_ne_undefined (consumeString_ne_undefined _ _ _) fun _ _ _ => hdone _ _
  | txt =>
      rw [parseRdataOf, hread]
      simp only
      split
      · split
        · exact Consumed.failed_ne_undefined
        · apply Consumed.andThen_ne_undefined
          · rw [skip, if_neg (by omega)]
            exact Consumed.ok_ne_undefined _ _
          · exact fun _ _ _ => hdone _ _
      · exact hdone _ _
  | a =>
      apply Consumed.andThen_ne_undefined (hbytes 4)
      intro bytes idx hresult
      rw [consumeBytes_eq] at hresult
      split at hresult
      · obtain ⟨rfl, _⟩ := Consumed.ok.inj hresult
        rw [dif_pos (by rw [List.length_take, List.length_drop]; omega)]
        exact hdone _ _
      · cases hresult
  | aaaa =>
      apply Consumed.andThen_ne_undefined (hbytes 16)
      intro bytes idx hresult
      rw [consumeBytes_eq] at hresult
      split at hresult
      · obtain ⟨rfl, _⟩ := Consumed.ok.inj hresult
        rw [dif_pos (by rw [List.length_take, List.length_drop]; omega)]
        exact hdone _ _
      · cases hresult
  | generic =>
      have hgeneric :
          ∃ generic, genericData ((data.drop rindex).take rdlength.toNat) = some generic := by
        refine ⟨_, dif_pos ?_⟩
        rw [List.length_take, List.length_drop]
        omega
      obtain ⟨generic, hgeneric⟩ := hgeneric
      rw [parseRdataOf, hread, Option.bind_some, hgeneric]
      simp only
      split
      · apply Consumed.andThen_ne_undefined
        · rw [skip, if_neg (by omega)]
          exact Consumed.ok_ne_undefined _ _
        · exact fun _ _ _ => hdone _ _
      · exact hdone _ _

/-- A name from a packet that is valid is in normal form. -/
theorem normalName_of_consumed {data : List UInt8} {rindex next : Nat} {name : CString}
    (h : consumeName data rindex AVAHI_DOMAIN_NAME_MAX = .ok name next)
    (hvalid : isValidDomainName name = true) : NormalName name := by
  obtain ⟨_, _, labels, hshort, rfl, hfits⟩ := consumeName_inside (by decide) h
  exact ⟨labels, properLabels_of_valid hshort hvalid, rfl, hfits⟩

/-- Parsed data lies in the packet, and its names are in normal form if they are
valid. -/
theorem parseRdataOf_inside {data : List UInt8} {rindex next : Nat} {rdlength : UInt16}
    (hstart : rindex ≤ data.length) {kind : RecordKind} {parsed : RecordData kind}
    (h : parseRdataOf data rindex rdlength kind = .ok parsed next) :
    rindex ≤ next ∧ next ≤ data.length ∧
    (parsed.isValid = true → parsed.NormalNames) := by
  have hgeneric (unknown : RecordData .generic) : unknown.NormalNames := by
    cases unknown
    exact trivial
  have hskip {idx : Nat} (hskip : skip data rindex rdlength.toNat = .ok () idx) :
      rindex ≤ idx ∧ idx ≤ data.length := by
    unfold skip at hskip
    split at hskip
    · cases hskip
    · obtain ⟨_, rfl⟩ := Consumed.ok.inj hskip
      omega
  have hconsumed {l idx : Nat} {bytes : List UInt8}
      (hbytes : consumeBytes data rindex l = .ok bytes idx) :
      rindex ≤ idx ∧ idx ≤ data.length := by
    rw [consumeBytes_eq] at hbytes
    split at hbytes
    · obtain ⟨_, rfl⟩ := Consumed.ok.inj hbytes
      omega
    · cases hbytes
  cases kind with
  | name =>
      obtain ⟨name, idx, hname, hok⟩ := Consumed.andThen_eq_ok_iff.mp h
      obtain ⟨rfl, rfl⟩ := Consumed.ok.inj hok
      obtain ⟨hbefore, hend, _⟩ := consumeName_inside (by decide) hname
      exact ⟨by omega, hend, normalName_of_consumed hname⟩
  | srv =>
      obtain ⟨priority, idx, hpriority, h⟩ := Consumed.andThen_eq_ok_iff.mp h
      obtain ⟨weight, idx', hweight, h⟩ := Consumed.andThen_eq_ok_iff.mp h
      obtain ⟨port, idx'', hport, h⟩ := Consumed.andThen_eq_ok_iff.mp h
      obtain ⟨name, last, hname, hok⟩ := Consumed.andThen_eq_ok_iff.mp h
      obtain ⟨rfl, rfl⟩ := Consumed.ok.inj hok
      have hfirst := consumeUint16_inside hpriority
      have hsecond := consumeUint16_inside hweight
      have hthird := consumeUint16_inside hport
      obtain ⟨hbefore, hend, _⟩ := consumeName_inside (by decide) hname
      exact ⟨by omega, hend, normalName_of_consumed hname⟩
  | hinfo =>
      obtain ⟨cpu, idx, hcpu, h⟩ := Consumed.andThen_eq_ok_iff.mp h
      obtain ⟨os, last, hos, hok⟩ := Consumed.andThen_eq_ok_iff.mp h
      obtain ⟨rfl, rfl⟩ := Consumed.ok.inj hok
      obtain ⟨hfirst, _, _⟩ := consumeString_inside hcpu
      obtain ⟨hsecond, hend, _⟩ := consumeString_inside hos
      exact ⟨by omega, hend, fun _ => trivial⟩
  | txt =>
      rw [parseRdataOf] at h
      split at h
      · split at h
        · cases h
        · split at h
          · cases h
          · obtain ⟨_, idx, hidx, hok⟩ := Consumed.andThen_eq_ok_iff.mp h
            obtain ⟨rfl, rfl⟩ := Consumed.ok.inj hok
            exact ⟨(hskip hidx).1, (hskip hidx).2, fun _ => trivial⟩
      · obtain ⟨rfl, rfl⟩ := Consumed.ok.inj h
        exact ⟨Nat.le_refl _, hstart, fun _ => trivial⟩
  | a =>
      obtain ⟨bytes, idx, hbytes, h⟩ := Consumed.andThen_eq_ok_iff.mp h
      split at h
      · obtain ⟨rfl, rfl⟩ := Consumed.ok.inj h
        exact ⟨(hconsumed hbytes).1, (hconsumed hbytes).2, fun _ => trivial⟩
      · cases h
  | aaaa =>
      obtain ⟨bytes, idx, hbytes, h⟩ := Consumed.andThen_eq_ok_iff.mp h
      split at h
      · obtain ⟨rfl, rfl⟩ := Consumed.ok.inj h
        exact ⟨(hconsumed hbytes).1, (hconsumed hbytes).2, fun _ => trivial⟩
      · cases h
  | generic =>
      rw [parseRdataOf] at h
      split at h
      · split at h
        · cases h
        · obtain ⟨_, idx, hidx, hok⟩ := Consumed.andThen_eq_ok_iff.mp h
          obtain ⟨rfl, rfl⟩ := Consumed.ok.inj hok
          exact ⟨(hskip hidx).1, (hskip hidx).2, fun _ => hgeneric _⟩
      · obtain ⟨rfl, rfl⟩ := Consumed.ok.inj h
        exact ⟨Nat.le_refl _, hstart, fun _ => trivial⟩

/-- A key takes its bytes. -/
theorem consumeKey_inside {data : List UInt8} {rindex next : Nat} {k : AvahiKey} {unicast : Bool}
    (h : consumeKey data rindex = .ok (k, unicast) next) : rindex + 5 ≤ next := by
  obtain ⟨name, idx, hname, h⟩ := Consumed.andThen_eq_ok_iff.mp h
  obtain ⟨type, afterType, htype, h⟩ := Consumed.andThen_eq_ok_iff.mp h
  obtain ⟨clazz, afterClass, hclazz, h⟩ := Consumed.andThen_eq_ok_iff.mp h
  have hbefore := (consumeName_inside (by decide) hname).1
  have hpositions := And.intro (consumeUint16_inside htype).1 (consumeUint16_inside hclazz).1
  split at h
  · cases h
  · cases h
  · split at h
    · cases h
    · obtain ⟨_, rfl⟩ := Consumed.ok.inj h
      omega

/-- A record that is returned lies in the packet, is valid, and can be compared. -/
theorem consumeRecord_inside {data : List UInt8} {rindex next : Nat} {r : AvahiRecord}
    {flush : Bool} (h : consumeRecord data rindex = .ok (r, flush) next) :
    rindex + 11 ≤ next ∧ next ≤ data.length ∧ r.isValid = true ∧ r.Comparable := by
  obtain ⟨name, idx, hname, h⟩ := Consumed.andThen_eq_ok_iff.mp h
  obtain ⟨type, afterType, htype, h⟩ := Consumed.andThen_eq_ok_iff.mp h
  obtain ⟨clazz, afterClass, hclazz, h⟩ := Consumed.andThen_eq_ok_iff.mp h
  obtain ⟨ttl, afterTtl, httl, h⟩ := Consumed.andThen_eq_ok_iff.mp h
  obtain ⟨rdlength, start, hrdlength, h⟩ := Consumed.andThen_eq_ok_iff.mp h
  obtain ⟨hbefore, _, labels, hshort, rfl, hfits⟩ := consumeName_inside (by decide) hname
  have hpositions := And.intro (consumeUint16_inside htype).1 (consumeUint16_inside hclazz).1
  have hlater := And.intro (consumeUint32_inside httl).1 (consumeUint16_inside hrdlength)
  split at h
  · cases h
  · rename_i hend
    rw [keyNew_nameOf hshort hfits] at h
    by_cases hreadable : ∀ label ∈ labels, Readable label
    · rw [if_pos hreadable] at h
      obtain ⟨parsed, afterData, hparsed, h⟩ := Consumed.andThen_eq_ok_iff.mp h
      obtain ⟨parsed', idx', hparsed', h'⟩ := Consumed.andThen_eq_ok_iff.mp hparsed
      obtain ⟨hafter, hinside, hnames⟩ := parseRdataOf_inside (by omega) hparsed'
      split at h'
      · cases h'
      · obtain ⟨rfl, rfl⟩ := Consumed.ok.inj h'
        simp only at h
        split at h
        · cases h
        · rename_i hvalid
          obtain ⟨hpair, rfl⟩ := Consumed.ok.inj h
          obtain ⟨rfl, _⟩ := Prod.mk.inj hpair
          rw [Bool.not_eq_true', Bool.not_eq_false] at hvalid
          obtain ⟨_, hdata⟩ := Bool.and_eq_true_iff.mp hvalid
          exact ⟨by omega, hinside, hvalid,
            ⟨⟨labels, hshort.proper hreadable, rfl, hfits⟩, hnames hdata⟩⟩
    · rw [if_neg hreadable] at h
      cases h

/-- What `avahi_dns_packet_consume_record` returns, whatever the packet: no read
beyond the end, no failed assertion, and only records that can be compared. -/
theorem consumeRecord_ne_undefined (data : List UInt8) (rindex : Nat) :
    consumeRecord data rindex ≠ .undefined := by
  apply Consumed.andThen_ne_undefined (consumeName_ne_undefined data rindex (by decide))
  intro name idx hname
  obtain ⟨_, _, labels, hshort, rfl, hfits⟩ := consumeName_inside (by decide) hname
  apply Consumed.andThen_ne_undefined (consumeUint16_ne_undefined _ _)
  intro type idx _
  apply Consumed.andThen_ne_undefined (consumeUint16_ne_undefined _ _)
  intro clazz idx _
  apply Consumed.andThen_ne_undefined (consumeUint32_ne_undefined _ _)
  intro ttl idx _
  apply Consumed.andThen_ne_undefined (consumeUint16_ne_undefined _ _)
  intro rdlength idx _
  split
  · exact Consumed.failed_ne_undefined
  · rename_i hend
    rw [keyNew_nameOf hshort hfits]
    by_cases hreadable : ∀ label ∈ labels, Readable label
    · rw [if_pos hreadable]
      simp only
      apply Consumed.andThen_ne_undefined
      · apply Consumed.andThen_ne_undefined
        · exact parseRdataOf_ne_undefined (by omega) _
        · intro parsed idx _
          split
          · exact Consumed.failed_ne_undefined
          · exact Consumed.ok_ne_undefined _ _
      · intro parsed idx _
        split
        · exact Consumed.failed_ne_undefined
        · exact Consumed.ok_ne_undefined _ _
    · rw [if_neg hreadable]
      exact Consumed.failed_ne_undefined

/-- No packet makes the receiver read beyond its end or fail an assertion. What it
accepts lies in the packet, is valid, and can be compared with every other
record that was accepted, and hashed. -/
theorem consumeRecord_safe (data : List UInt8) (rindex : Nat) :
    consumeRecord data rindex ≠ .undefined ∧
      ∀ r flush next, consumeRecord data rindex = .ok (r, flush) next →
        rindex < next ∧ next ≤ data.length ∧ r.isValid = true ∧ keyHash r.key ≠ none ∧
          ∀ others idx other otherFlush last,
            consumeRecord others idx = .ok (other, otherFlush) last →
              recordEqualNoTtl r other ≠ none := by
  refine ⟨consumeRecord_ne_undefined data rindex, ?_⟩
  intro r flush next hr
  obtain ⟨hbefore, hend, hvalid, hcomparable⟩ := consumeRecord_inside hr
  refine ⟨by omega, hend, hvalid, (hcomparable.defined hcomparable).2, ?_⟩
  intro others idx other otherFlush last hother
  exact (hcomparable.defined (consumeRecord_inside hother).2.2.2).1

end NvmrDisplay.Avahi.Dns
