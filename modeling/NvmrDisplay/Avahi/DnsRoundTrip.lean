import NvmrDisplay.Avahi.DnsRecord

/-!
What is appended to a packet is what its receiver consumes, `avahi-core/dns.c`.
The receiver has the bytes alone, with whatever was appended later, and finds
each record where it was appended.
-/

namespace NvmrDisplay.Avahi.Dns

open Lib Lib.WireName

/-- Bits that do not overlap are added. -/
theorem or_eq_add {high low : Nat} (i : Nat) (hlow : low < 2 ^ i) (hhigh : 2 ^ i ∣ high) :
    high ||| low = high + low := by
  obtain ⟨factor, rfl⟩ := hhigh
  exact (Nat.two_pow_add_eq_or_of_lt hlow factor).symm

/-- The two bytes of a number, put together again. -/
theorem joined16 (v : UInt16) : (v >>> 8).toUInt8.toUInt16 <<< 8 ||| v.toUInt8.toUInt16 = v := by
  have hlt := v.toNat_lt
  have hhigh : ((v >>> 8).toUInt8.toUInt16 <<< 8).toNat = v.toNat / 256 * 256 := by
    rw [UInt16.toNat_shiftLeft, UInt8.toNat_toUInt16, UInt16.toNat_toUInt8, UInt16.toNat_shiftRight,
      Nat.shiftRight_eq_div_pow, Nat.shiftLeft_eq]
    exact (by omega : v.toNat / 256 % 256 * 256 % 65536 = v.toNat / 256 * 256)
  have hlow : v.toUInt8.toUInt16.toNat = v.toNat % 256 := by
    rw [UInt8.toNat_toUInt16, UInt16.toNat_toUInt8]
  rw [← UInt16.toNat_inj, UInt16.toNat_or, hhigh, hlow, or_eq_add 8 (by omega) (by omega)]
  omega

theorem toNat_byte32 (v : UInt32) (i : UInt32) (hi : i.toNat < 32) :
    ((v >>> i).toUInt8.toUInt32 <<< i).toNat =
      v.toNat / 2 ^ i.toNat % 256 * 2 ^ i.toNat % 2 ^ 32 := by
  rw [UInt32.toNat_shiftLeft, UInt8.toNat_toUInt32, UInt32.toNat_toUInt8, UInt32.toNat_shiftRight,
    Nat.mod_eq_of_lt hi, Nat.shiftRight_eq_div_pow, Nat.shiftLeft_eq]

theorem joined32 (v : UInt32) :
    (v >>> 24).toUInt8.toUInt32 <<< 24 ||| (v >>> 16).toUInt8.toUInt32 <<< 16 |||
      (v >>> 8).toUInt8.toUInt32 <<< 8 ||| v.toUInt8.toUInt32 = v := by
  have hlt := v.toNat_lt
  have hfirst := toNat_byte32 v 24 (by decide)
  have hsecond := toNat_byte32 v 16 (by decide)
  have hthird := toNat_byte32 v 8 (by decide)
  have h8 : (8 : UInt32).toNat = 8 := rfl
  have h16 : (16 : UInt32).toNat = 16 := rfl
  have h24 : (24 : UInt32).toNat = 24 := rfl
  rw [h24] at hfirst
  rw [h16] at hsecond
  rw [h8] at hthird
  have hfourth : v.toUInt8.toUInt32.toNat = v.toNat % 256 := by
    rw [UInt8.toNat_toUInt32, UInt32.toNat_toUInt8]
  rw [← UInt32.toNat_inj, UInt32.toNat_or, UInt32.toNat_or, UInt32.toNat_or, hfourth]
  generalize ((v >>> 24).toUInt8.toUInt32 <<< 24).toNat = first at hfirst
  generalize ((v >>> 16).toUInt8.toUInt32 <<< 16).toNat = second at hsecond
  generalize ((v >>> 8).toUInt8.toUInt32 <<< 8).toNat = third at hthird
  have hone : first ||| second = first + second := or_eq_add 24 (by omega) (by omega)
  have htwo : first + second ||| third = first + second + third :=
    or_eq_add 16 (by omega) (by omega)
  rw [hone, htwo, or_eq_add 8 (by omega) (by omega)]
  omega

section Bytes

variable {data : List UInt8} {rindex : Nat}

/-- The bytes of a packet that its receiver has. -/
abbrev received (data : List UInt8) : PartialMemory UInt8 := PartialMemory.ofList 0 data

theorem received_extends {p : AvahiDnsPacket} {hole : List Nat} (h : p.data <+: data) :
    (received data).Extends (p.known hole) := by
  intro cell value hvalue
  obtain ⟨_, _, hread⟩ := known_eq_some_iff.mp hvalue
  obtain ⟨more, rfl⟩ := h
  have hlt := (List.getElem?_eq_some_iff.mp hread).1
  exact PartialMemory.ofList_eq_some_iff.mpr
    ⟨Nat.zero_le _, by rwa [List.getElem?_append_left hlt]⟩

/-- Who has received what the packet knows has received all of it. -/
theorem received_length_le {p : AvahiDnsPacket} (h : (received data).Extends (p.known []))
    (hlength : AVAHI_DNS_PACKET_HEADER_SIZE < p.data.length) : p.data.length ≤ data.length := by
  have hlast : p.known [] (p.data.length - 1) = some p.data[p.data.length - 1] :=
    known_eq_some_iff.mpr ⟨List.not_mem_nil, by omega, List.getElem?_eq_getElem _⟩
  have hread := (PartialMemory.ofList_eq_some_iff.mp (h _ _ hlast)).2
  have hlt := (List.getElem?_eq_some_iff.mp hread).1
  omega

theorem readBytes_of_holds {bytes : List UInt8} (h : (received data).Holds rindex bytes)
    (hbytes : bytes ≠ []) : readBytes data rindex bytes.length = some bytes := by
  obtain ⟨hread, hend⟩ := h.take_drop hbytes
  rw [readBytes_of_le hend, hread]

theorem end_le_of_holds {bytes : List UInt8} (h : (received data).Holds rindex bytes)
    (hbytes : bytes ≠ []) : rindex + bytes.length ≤ data.length := (h.take_drop hbytes).2

theorem consumeUint16_of_holds {v : UInt16} (h : (received data).Holds rindex (bytes16 v)) :
    consumeUint16 data rindex = .ok v (rindex + 2) := by
  have hread : readBytes data rindex 2 = some (bytes16 v) :=
    readBytes_of_holds h (List.cons_ne_nil _ _)
  have hend : rindex + 2 ≤ data.length := end_le_of_holds h (List.cons_ne_nil _ _)
  rw [consumeUint16, if_neg (by omega), hread, bytes16]
  simp only
  rw [joined16]

theorem consumeUint32_of_holds {v : UInt32} (h : (received data).Holds rindex (bytes32 v)) :
    consumeUint32 data rindex = .ok v (rindex + 4) := by
  have hread : readBytes data rindex 4 = some (bytes32 v) :=
    readBytes_of_holds h (List.cons_ne_nil _ _)
  have hend : rindex + 4 ≤ data.length := end_le_of_holds h (List.cons_ne_nil _ _)
  rw [consumeUint32, if_neg (by omega), hread, bytes32]
  simp only
  rw [joined32]

theorem consumeBytes_of_holds {bytes : List UInt8} (h : (received data).Holds rindex bytes)
    (hbytes : bytes ≠ []) :
    consumeBytes data rindex bytes.length = .ok bytes (rindex + bytes.length) := by
  obtain ⟨hread, hend⟩ := h.take_drop hbytes
  rw [consumeBytes_eq, if_pos hend, hread]

/-- A C string of at most 255 bytes. -/
theorem consumeString_of_holds {s : CString} (hlength : s.length ≤ 255) (hnul : 0 ∉ s)
    (h : (received data).Holds rindex (stringBytes s)) :
    consumeString data rindex AVAHI_DOMAIN_NAME_MAX = .ok s (rindex + (1 + s.length)) := by
  rw [stringBytes_label hlength] at h
  have hend := end_le_of_holds h (List.cons_ne_nil _ _)
  rw [labelBytes, List.length_cons] at hend
  obtain ⟨hfirst, hrest⟩ := holds_ofList_zero_cons.mp h
  have hk : (UInt8.ofNat s.length).toNat = s.length := by
    rw [UInt8.toNat_ofNat']
    omega
  have hroom : min AVAHI_DOMAIN_NAME_MAX (s.length + 1) - 1 = s.length := by
    have hmax : AVAHI_DOMAIN_NAME_MAX = 1014 := rfl
    omega
  have hbytes : readBytes data (rindex + 1) s.length = some s := by
    cases s with
    | nil => exact readBytes_of_le (by omega)
    | cons byte s => exact readBytes_of_holds hrest (List.cons_ne_nil _ _)
  rw [consumeString, if_neg (by omega), readBytes_one hfirst]
  simp only [hk, hroom, hbytes]
  rw [if_neg (by omega), List.takeWhile_eq_self_iff.mpr]
  intro byte hbyte
  rw [decide_eq_true_eq]
  rintro rfl
  exact hnul hbyte

/-- A name with few labels. -/
theorem consumeName_of_reads {labels : List (List UInt8)} {steps used l : Nat}
    (h : ReadsAt AVAHI_DNS_PACKET_HEADER_SIZE (received data) rindex labels steps used)
    (hsteps : Direct labels steps) (hfew : labels.length ≤ 63)
    (hfits : (nameOf labels).length < l) :
    consumeName data rindex l = .ok (nameOf labels) (rindex + used) := by
  refine (consumeName_eq_ok_iff (by omega) _ _).mpr
    ⟨labels, steps, used, h, ?_, rfl, hfits, rfl⟩
  unfold Direct at hsteps
  have hmax : AVAHI_DNS_LABELS_MAX = 127 := rfl
  omega

end Bytes

/-- Names that every reader has steps and room enough for. -/
def SendableName (s : CString) : Prop :=
  ∃ labels, ProperLabels labels ∧ labels.length ≤ 63 ∧ s = nameOf labels ∧
    (nameOf labels).length < AVAHI_DOMAIN_NAME_MAX

/-- Data that a record can carry: names in normal form, and C strings. -/
def RecordData.Sendable : {kind : RecordKind} → RecordData kind → Prop
  | _, .name target => SendableName target
  | _, .srv _ _ _ target => SendableName target
  | _, .hinfo cpu os => (0 ∉ cpu ∧ cpu.length ≤ 255) ∧ 0 ∉ os ∧ os.length ≤ 255
  | _, .txt stringList =>
      (∀ text ∈ stringList, text ≠ [] ∧ text.length ≤ 255) ∧
        stringList.serializedSize ≤ AVAHI_DNS_RDATA_MAX
  | _, .a _ | _, .aaaa _ | _, .generic _ => True

/-- What the bytes of a record's data are to its receiver. -/
def DataReceived (hole : List Nat) (start : Nat) {kind : RecordKind} (sent : RecordData kind)
    (q : AvahiDnsPacket) (bytes : List UInt8) : Prop :=
  bytes.length ≤ AVAHI_DNS_RDATA_MAX ∧ ∀ data, (received data).Extends (q.known hole) →
    parseRdataOf data start (UInt16.ofNat bytes.length) kind = .ok sent (start + bytes.length)

/-- A name takes little more room on the wire than its text does. -/
theorem length_flatMap_labelBytes_le (labels : List (List UInt8)) :
    (labels.flatMap labelBytes).length ≤ (nameOf labels).length + 1 := by
  have hrest (others : List (List UInt8)) : (others.flatMap labelBytes).length ≤
      (others.flatMap fun other => dot :: escape other).length := by
    induction others with
    | nil => exact Nat.le_refl _
    | cons other others ih =>
        have hescape := length_le_escape other
        rw [List.flatMap_cons, List.flatMap_cons, List.length_append, List.length_append,
          labelBytes, List.length_cons, List.length_cons]
        omega
  cases labels with
  | nil => exact Nat.zero_le _
  | cons label labels =>
      have hescape := length_le_escape label
      have hlabels := hrest labels
      rw [nameOf_cons_eq, List.flatMap_cons, List.length_append, List.length_append, labelBytes,
        List.length_cons]
      omega

section Rdata

variable {hole : List Nat} {p : AvahiDnsPacket}

/-- Appended bytes, to whoever has received what was appended later too. -/
theorem Extended.holds (h : Written hole p) {q r : AvahiDnsPacket} {bytes : List UInt8}
    (hq : Extended hole p q bytes) (hr : q.data <+: r.data) {data : List UInt8}
    (hdata : (received data).Extends (r.known hole)) : (received data).Holds p.data.length bytes :=
  (known_holds_append h.before h.header (hq.data ▸ hr)).extend hdata

/-- Names in the data of a record. -/
theorem appendName_data (h : Written hole p) {target : CString} (htarget : SendableName target) :
    (p.appendName target).Meets hole p fun q _ bytes =>
      bytes.length ≤ AVAHI_DOMAIN_NAME_MAX + 3 ∧
        ∀ data, (received data).Extends (q.known hole) →
        consumeName data p.data.length AVAHI_DOMAIN_NAME_MAX =
          .ok target (p.data.length + bytes.length) := by
  obtain ⟨labels, hlabels, hfew, rfl, hfits⟩ := htarget
  apply (appendName_meets h hlabels).imp
  rintro q offset bytes _ ⟨_, steps, hsteps, hreads⟩
  have hused := hreads.used_le
  have hwire := length_flatMap_labelBytes_le labels
  refine ⟨by omega, ?_⟩
  intro data hdata
  exact consumeName_of_reads (hreads.extend hdata) hsteps hfew hfits

theorem appendRdata_srv (h : Written hole p) (priority weight port : UInt16) {target : CString}
    (htarget : SendableName target) :
    (p.appendRdata (.srv priority weight port target)).Meets hole p fun q _ bytes =>
      DataReceived hole p.data.length (.srv priority weight port target) q bytes := by
  apply (append_meets h (bytes16 priority)).andThen
  rintro q₁ _ _ hq₁ ⟨_, rfl⟩
  apply (append_meets hq₁.written (bytes16 weight)).andThen
  rintro q₂ _ _ hq₂ ⟨_, rfl⟩
  apply (append_meets hq₂.written (bytes16 port)).andThen
  rintro q₃ _ _ hq₃ ⟨_, rfl⟩
  apply (appendName_data hq₃.written htarget).imp
  rintro q₄ _ bytes hq₄ ⟨hlength, hname⟩
  have hlengths :
      q₁.data.length = p.data.length + 2 ∧ q₂.data.length = q₁.data.length + 2 ∧
        q₃.data.length = q₂.data.length + 2 := ⟨hq₁.length, hq₂.length, hq₃.length⟩
  have hall : (bytes16 priority ++ (bytes16 weight ++ (bytes16 port ++ bytes))).length =
      6 + bytes.length := by
    simp only [bytes16, List.length_append, List.length_cons, List.length_nil]
    omega
  have hmax : AVAHI_DOMAIN_NAME_MAX = 1014 := rfl
  have hrdata : AVAHI_DNS_RDATA_MAX = 65535 := rfl
  refine ⟨by omega, ?_⟩
  intro data hdata
  have hpriority := consumeUint16_of_holds
    (hq₁.holds h ((hq₂.prolongs.trans hq₃.prolongs).trans hq₄.prolongs) hdata)
  have hweight :=
    consumeUint16_of_holds (hq₂.holds hq₁.written (hq₃.prolongs.trans hq₄.prolongs) hdata)
  have hport := consumeUint16_of_holds (hq₃.holds hq₂.written hq₄.prolongs hdata)
  rw [parseRdataOf, hpriority, Consumed.andThen, ← hlengths.1, hweight, Consumed.andThen,
    ← hlengths.2.1, hport, Consumed.andThen, ← hlengths.2.2, hname data hdata,
    Consumed.andThen, hall]
  have hend : q₃.data.length + bytes.length = p.data.length + (6 + bytes.length) := by omega
  rw [hend]

theorem appendRdata_hinfo (h : Written hole p) {cpu os : CString}
    (hcpu : 0 ∉ cpu ∧ cpu.length ≤ 255) (hos : 0 ∉ os ∧ os.length ≤ 255) :
    (p.appendRdata (.hinfo cpu os)).Meets hole p fun q _ bytes =>
      DataReceived hole p.data.length (.hinfo cpu os) q bytes := by
  apply (append_meets h (stringBytes cpu)).andThen
  rintro q₁ _ _ hq₁ ⟨_, rfl⟩
  apply (append_meets hq₁.written (stringBytes os)).imp
  rintro q₂ _ _ hq₂ ⟨_, rfl⟩
  have hlength {s : CString} (hs : s.length ≤ 255) : (stringBytes s).length = 1 + s.length := by
    rw [stringBytes_label hs, labelBytes, List.length_cons, Nat.add_comm]
  have hfirst := hq₁.length
  have hall : (stringBytes cpu ++ stringBytes os).length = 1 + cpu.length + (1 + os.length) := by
    rw [List.length_append, hlength hcpu.2, hlength hos.2]
  rw [hlength hcpu.2] at hfirst
  have hrdata : AVAHI_DNS_RDATA_MAX = 65535 := rfl
  refine ⟨by omega, ?_⟩
  intro data hdata
  have hread := consumeString_of_holds hcpu.2 hcpu.1 (hq₁.holds h hq₂.prolongs hdata)
  have hread' := consumeString_of_holds hos.2 hos.1
    (hq₂.holds hq₁.written (List.prefix_refl _) hdata)
  rw [parseRdataOf, hread, Consumed.andThen, ← hfirst, hread', Consumed.andThen, hall]
  have hend : q₁.data.length + (1 + os.length) =
      p.data.length + (1 + cpu.length + (1 + os.length)) := by omega
  rw [hend]

theorem toNat_length {bytes : List UInt8} (h : bytes.length ≤ AVAHI_DNS_RDATA_MAX) :
    (UInt16.ofNat bytes.length).toNat = bytes.length := by
  have hrdata : AVAHI_DNS_RDATA_MAX = 65535 := rfl
  rw [UInt16.toNat_ofNat']
  omega

theorem length_pos_of_ne_nil {bytes : List UInt8} (h : bytes ≠ [])
    (hlength : bytes.length ≤ AVAHI_DNS_RDATA_MAX) : UInt16.ofNat bytes.length > 0 := by
  apply UInt16.lt_iff_toNat_lt.mpr
  rw [toNat_length hlength]
  exact List.length_pos_iff.mpr h

theorem skip_of_holds {data bytes : List UInt8} {rindex : Nat}
    (h : (received data).Holds rindex bytes) (hbytes : bytes ≠ []) :
    skip data rindex bytes.length = .ok () (rindex + bytes.length) := by
  have hend := end_le_of_holds h hbytes
  exact if_neg (by omega)

theorem appendRdata_txt (h : Written hole p) {stringList : AvahiStringList}
    (hstrings : ∀ text ∈ stringList, text ≠ [] ∧ text.length ≤ 255)
    (hsize : stringList.serializedSize ≤ AVAHI_DNS_RDATA_MAX) :
    (p.appendRdata (.txt stringList)).Meets hole p fun q _ bytes =>
      DataReceived hole p.data.length (.txt stringList) q bytes := by
  apply (append_meets h _).imp
  rintro q _ bytes hq ⟨_, rfl⟩
  have hparse := AvahiStringList.parse_serialize stringList _ hstrings (Nat.le_refl _)
  have hlength := AvahiStringList.length_serialize stringList
  generalize stringList.serialize stringList.serializedSize = bytes at *
  have hpos := AvahiStringList.serializedSize_pos stringList
  have hne : bytes ≠ [] := List.length_pos_iff.mp (by omega)
  have hmax : bytes.length ≤ AVAHI_DNS_RDATA_MAX := by omega
  refine ⟨hmax, ?_⟩
  intro data hdata
  have hholds := hq.holds h (List.prefix_refl _) hdata
  rw [parseRdataOf, if_pos (length_pos_of_ne_nil hne hmax), toNat_length hmax,
    readBytes_of_holds hholds hne]
  simp only [hparse]
  rw [skip_of_holds hholds hne]
  rfl

theorem appendBytes_meets (h : Written hole p) {bytes : List UInt8} (hne : bytes ≠ []) :
    (p.appendBytes bytes).Meets hole p fun q _ more => more = bytes ∧
      ∀ data, (received data).Extends (q.known hole) →
        (received data).Holds p.data.length bytes := by
  rw [AvahiDnsPacket.appendBytes, if_neg hne]
  apply (append_meets h bytes).imp
  rintro q _ _ hq ⟨_, rfl⟩
  exact ⟨rfl, fun data hdata => hq.holds h (List.prefix_refl _) hdata⟩

/-- The data of a record is appended so that its receiver parses it. -/
theorem appendRdata_meets (h : Written hole p) {kind : RecordKind} {sent : RecordData kind}
    (hsent : sent.Sendable) :
    (p.appendRdata sent).Meets hole p fun q _ bytes =>
      DataReceived hole p.data.length sent q bytes := by
  cases sent with
  | name target =>
      apply (appendName_data h hsent).imp
      rintro q offset bytes _ ⟨hlength, hname⟩
      refine ⟨Nat.le_trans hlength (by decide), ?_⟩
      intro data hdata
      rw [parseRdataOf, hname data hdata]
      rfl
  | srv priority weight port target => exact appendRdata_srv h priority weight port hsent
  | hinfo cpu os => exact appendRdata_hinfo h hsent.1 hsent.2
  | txt stringList => exact appendRdata_txt h hsent.1 hsent.2
  | a address =>
      obtain ⟨bytes, hlength⟩ := address
      have hne : bytes ≠ [] := List.length_pos_iff.mp (by omega)
      apply (appendBytes_meets h hne).imp
      rintro q _ _ _ ⟨rfl, hholds⟩
      refine ⟨by rw [hlength]; decide, ?_⟩
      intro data hdata
      have hread := consumeBytes_of_holds (hholds data hdata) hne
      rw [hlength] at hread ⊢
      rw [parseRdataOf, hread, Consumed.andThen, dif_pos hlength]
  | aaaa address =>
      obtain ⟨bytes, hlength⟩ := address
      have hne : bytes ≠ [] := List.length_pos_iff.mp (by omega)
      apply (appendBytes_meets h hne).imp
      rintro q _ _ _ ⟨rfl, hholds⟩
      refine ⟨by rw [hlength]; decide, ?_⟩
      intro data hdata
      have hread := consumeBytes_of_holds (hholds data hdata) hne
      rw [hlength] at hread ⊢
      rw [parseRdataOf, hread, Consumed.andThen, dif_pos hlength]
  | generic unknown =>
      obtain ⟨bytes, hlength⟩ := unknown
      rw [AvahiDnsPacket.appendRdata]
      by_cases hne : bytes = []
      · subst hne
        exact ⟨[], h.extended_nil, Nat.zero_le _, fun data hdata => rfl⟩
      · rw [if_pos (by simpa using hne)]
        apply (appendBytes_meets h hne).imp
        rintro q _ _ _ ⟨rfl, hholds⟩
        refine ⟨hlength, ?_⟩
        intro data hdata
        have hread := hholds data hdata
        rw [parseRdataOf, if_pos (length_pos_of_ne_nil hne hlength), toNat_length hlength,
          readBytes_of_holds hread hne, Option.bind_some, genericData, dif_pos hlength]
        simp only
        rw [skip_of_holds hread hne]
        rfl

end Rdata

section Length

variable {p q : AvahiDnsPacket}

/-- Two bytes that will be written again. -/
theorem Written.reserve (h : Written [] p) {first second : UInt8}
    (hq : p.extend [first, second] = some q) :
    Written [p.data.length, p.data.length + 1] q := by
  have hextended := h.extend hq
  have hlength := hextended.length
  refine ⟨hextended.written.header, hextended.written.room, ?_, ?_⟩
  · intro cell hmem
    simp only [List.mem_cons, List.not_mem_nil, or_false] at hmem
    simp only [List.length_cons, List.length_nil] at hlength
    omega
  · obtain ⟨_, rfl⟩ := extend_eq_some_iff.mp hq
    intro entry hmem
    apply (h.names entry hmem).extend
    intro cell value hvalue
    obtain ⟨_, hheader, hread⟩ := known_eq_some_iff.mp hvalue
    have hlt := (List.getElem?_eq_some_iff.mp hread).1
    refine known_eq_some_iff.mpr ⟨?_, hheader, ?_⟩
    · simp only [List.mem_cons, List.not_mem_nil, or_false]
      omega
    · simp only
      rwa [List.getElem?_append_left hlt]

/-- Writing the reserved bytes changes nothing that is known. -/
theorem known_write16 (l : Nat) (v : UInt16) :
    ((q.write16 l v).known []).Extends (q.known [l, l + 1]) := by
  intro cell value hvalue
  obtain ⟨hmem, hheader, hread⟩ := known_eq_some_iff.mp hvalue
  simp only [List.mem_cons, List.not_mem_nil, or_false, not_or] at hmem
  refine known_eq_some_iff.mpr ⟨List.not_mem_nil, hheader, ?_⟩
  rw [AvahiDnsPacket.write16]
  simp only
  rw [List.getElem?_set_ne (Ne.symm hmem.2), List.getElem?_set_ne (Ne.symm hmem.1)]
  exact hread

/-- The bytes that are written over those reserved. -/
theorem write16_data {first second : UInt8} {rdata : List UInt8}
    (hq : q.data = p.data ++ [first, second] ++ rdata) (v : UInt16) :
    (q.write16 p.data.length v).data = p.data ++ (bytes16 v ++ rdata) := by
  rw [AvahiDnsPacket.write16, bytes16]
  simp only
  rw [hq, List.append_assoc, List.set_append_right _ _ (Nat.le_refl _),
    List.set_append_right _ _ (Nat.le_add_right _ 1), Nat.sub_self, Nat.add_sub_cancel_left]
  rfl

/-- The length and the data of a record, to its receiver. -/
def RdataReceived (start : Nat) {kind : RecordKind} (sent : RecordData kind) (q : AvahiDnsPacket)
    (bytes : List UInt8) : Prop :=
  ∃ rdlength : UInt16, bytes.length = 2 + rdlength.toNat ∧
    ∀ data, (received data).Extends (q.known []) →
      consumeUint16 data start = .ok rdlength (start + 2) ∧
        parseRdata data (start + 2) rdlength kind = .ok sent (start + bytes.length)

/-- The data of a record is appended behind its length. -/
theorem appendLength_meets (h : Written [] p) {kind : RecordKind} {sent : RecordData kind}
    (hsent : sent.Sendable) (t : Nat) :
    ((p.appendUint16 0).andThen fun p l =>
        let start := p.data.length
        (p.appendRdata sent).andThen fun p _ =>
          let size := p.data.length - start
          if size ≤ AVAHI_DNS_RDATA_MAX then .ok (p.write16 l (UInt16.ofNat size)) t
          else .undefined).Meets [] p fun q offset bytes =>
      offset = t ∧ RdataReceived p.data.length sent q bytes := by
  rw [AvahiDnsPacket.appendUint16, AvahiDnsPacket.append]
  cases hreserved : p.extend (bytes16 0) with
  | none => exact Discarded.refl p
  | some reserved =>
      have hfirst := h.extend hreserved
      have hmeets := appendRdata_meets (h.reserve hreserved) hsent
      rw [Appended.andThen]
      simp only
      cases hresult : reserved.appendRdata sent with
      | undefined =>
          rw [hresult] at hmeets
          exact hmeets
      | null q =>
          rw [hresult] at hmeets
          exact hfirst.discarded hmeets
      | ok q offset =>
          rw [hresult] at hmeets
          obtain ⟨rdata, hq, hmax, hparse⟩ := hmeets
          have hsize : q.data.length - reserved.data.length = rdata.length := by
            rw [hq.length]
            omega
          have hlength := hfirst.length
          have hrdlength := toNat_length hmax
          rw [Appended.andThen]
          simp only [hsize]
          rw [if_pos hmax]
          have hdata := write16_data (hfirst.data ▸ hq.data) (UInt16.ofNat rdata.length)
          have hknown := @known_write16 q p.data.length (UInt16.ofNat rdata.length)
          refine ⟨bytes16 (UInt16.ofNat rdata.length) ++ rdata,
            ⟨hdata, ?_, ?_, ?_, ?_, ?_, ?_⟩, rfl, ?_⟩
          · exact hq.maxSize.trans hfirst.maxSize
          · intro entry hmem
            rcases hq.names entry hmem with hold | hnew
            · exact hfirst.names entry hold
            · right
              omega
          · rw [hdata]
            exact Nat.le_trans h.header (List.prefix_append _ _).length_le
          · rw [AvahiDnsPacket.write16]
            simp only [List.length_set]
            exact hq.written.room
          · exact fun cell hmem => absurd hmem List.not_mem_nil
          · intro entry hmem
            exact (hq.written.names entry hmem).extend hknown
          · refine ⟨UInt16.ofNat rdata.length, ?_, ?_⟩
            · rw [List.length_append, hrdlength]
              rfl
            · intro data hreceived
              have hstart : reserved.data.length = p.data.length + 2 := hlength
              have hparsed := hparse data (hreceived.trans hknown)
              rw [hstart] at hparsed
              refine ⟨consumeUint16_of_holds ((known_holds_append h.before h.header ?_).extend
                hreceived), ?_⟩
              · rw [hdata, ← List.append_assoc]
                exact List.prefix_append _ _
              · have hend : p.data.length + 2 + rdata.length =
                    p.data.length + (bytes16 (UInt16.ofNat rdata.length) ++ rdata).length := by
                  rw [List.length_append, Nat.add_assoc]
                  rfl
                rw [parseRdata, hparsed, Consumed.andThen, hrdlength, if_neg (by omega), hend]

end Length

/-- Setting bits that are cleared again. -/
theorem or_and_not (clazz bits : UInt16) : (clazz ||| bits) &&& ~~~bits = clazz &&& ~~~bits := by
  rw [← UInt16.toBitVec_inj]
  simp only [UInt16.toBitVec_and, UInt16.toBitVec_or, UInt16.toBitVec_not]
  ext i hi
  simp only [BitVec.getElem_and, BitVec.getElem_or, BitVec.getElem_not]
  cases clazz.toBitVec[i] <;> cases bits.toBitVec[i] <;> rfl

theorem or_and_self (clazz bits : UInt16) : (clazz ||| bits) &&& bits = bits := by
  rw [← UInt16.toBitVec_inj]
  simp only [UInt16.toBitVec_and, UInt16.toBitVec_or]
  ext i hi
  simp only [BitVec.getElem_and, BitVec.getElem_or]
  cases clazz.toBitVec[i] <;> cases bits.toBitVec[i] <;> rfl

theorem and_not_and (clazz bits : UInt16) : clazz &&& ~~~bits &&& bits = 0 := by
  rw [UInt16.and_assoc, UInt16.and_comm (~~~bits)]
  simp

/-- The class and the flag that a receiver takes from the class of a record. -/
theorem recordClass_received (clazz : UInt16) (cacheFlush : Bool) :
    AvahiDnsPacket.recordClass clazz cacheFlush &&& ~~~AVAHI_DNS_CACHE_FLUSH =
        clazz &&& ~~~AVAHI_DNS_CACHE_FLUSH ∧
      decide (AvahiDnsPacket.recordClass clazz cacheFlush &&& AVAHI_DNS_CACHE_FLUSH ≠ 0) =
        cacheFlush := by
  cases cacheFlush with
  | true =>
      have hclass : AvahiDnsPacket.recordClass clazz true = clazz ||| AVAHI_DNS_CACHE_FLUSH := rfl
      rw [hclass, or_and_not, or_and_self]
      exact ⟨rfl, rfl⟩
  | false =>
      have hclass :
          AvahiDnsPacket.recordClass clazz false = clazz &&& ~~~AVAHI_DNS_CACHE_FLUSH := rfl
      rw [hclass, and_not_and, UInt16.and_assoc, UInt16.and_self]
      exact ⟨rfl, rfl⟩

/-- Records that can be sent: their names are in normal form and have labels few
enough, their data is such as a record can carry. -/
structure AvahiRecord.Sendable (r : AvahiRecord) : Prop where
  key : SendableName r.key.name
  data : r.data.Sendable

/-- The record that arrives: the bit of the class that asks to flush the cache is
not a part of it, and its TTL is capped. -/
def AvahiRecord.onWire (r : AvahiRecord) (maxTtl : UInt32) : AvahiRecord :=
  { key := { r.key with clazz := r.key.clazz &&& ~~~AVAHI_DNS_CACHE_FLUSH }
    ttl := recordTtl (AvahiDnsPacket.cappedTtl r.ttl maxTtl)
    data := r.data }

theorem SendableName.isValid {s : CString} (h : SendableName s) : isValidDomainName s = true := by
  obtain ⟨labels, hlabels, _, rfl, hfits⟩ := h
  exact isValidDomainName_nameOf hlabels hfits

theorem RecordData.Sendable.isValid {kind : RecordKind} {sent : RecordData kind}
    (h : sent.Sendable) : sent.isValid = true := by
  cases sent with
  | name target => exact SendableName.isValid h
  | srv priority weight port target => exact SendableName.isValid h
  | hinfo cpu os =>
      obtain ⟨⟨_, hcpu⟩, _, hos⟩ := h
      simp [RecordData.isValid, hcpu, hos]
  | txt stringList =>
      refine List.all_eq_true.mpr ?_
      intro text htext
      obtain ⟨hne, hlength⟩ := h.1 text htext
      have hpos := List.length_pos_iff.mpr hne
      simp only [Bool.not_eq_true', Bool.or_eq_false_iff, decide_eq_false_iff_not]
      omega
  | a address => rfl
  | aaaa address => rfl
  | generic data => rfl

theorem AvahiRecord.Sendable.isValid {r : AvahiRecord} (h : r.Sendable) (maxTtl : UInt32) :
    (r.onWire maxTtl).isValid = true := by
  rw [AvahiRecord.isValid, Bool.and_eq_true]
  exact ⟨h.key.isValid, h.data.isValid⟩

/-- The key of a sendable name. -/
theorem keyNew_sendable {s : CString} (h : SendableName s) (clazz type : UInt16) :
    keyNew s clazz type = .ok ⟨s, clazz, type⟩ := by
  obtain ⟨labels, hlabels, _, rfl, hfits⟩ := h
  have hshort : ShortLabels labels := fun label hlabel =>
    ⟨(hlabels label hlabel).2, (hlabels label hlabel).1.length⟩
  rw [keyNew_nameOf hshort hfits, if_pos fun label hlabel =>
    ⟨(hlabels label hlabel).1.noNul, (hlabels label hlabel).1.utf8⟩]

/-- A record at a place of a packet. -/
def RecordReceived (start : Nat) (r : AvahiRecord) (cacheFlush : Bool) (maxTtl : UInt32)
    (q : AvahiDnsPacket) (bytes : List UInt8) : Prop :=
  ∀ data, (received data).Extends (q.known []) →
    consumeRecord data start = .ok (r.onWire maxTtl, cacheFlush) (start + bytes.length)

/-- A record is appended so that its receiver consumes it. -/
theorem appendRecordParts_meets {p : AvahiDnsPacket} (h : Written [] p) {r : AvahiRecord}
    (hr : r.Sendable) (cacheFlush : Bool) (maxTtl : UInt32) :
    (p.appendRecordParts r cacheFlush maxTtl).Meets [] p fun q offset bytes =>
      offset = p.data.length ∧ RecordReceived p.data.length r cacheFlush maxTtl q bytes := by
  obtain ⟨labels, hlabels, hfew, hname, hfits⟩ := hr.key
  rw [AvahiDnsPacket.appendRecordParts, hname]
  apply (appendName_meets h hlabels).andThen
  rintro q₁ t nameBytes hq₁ ⟨rfl, steps, hsteps, hreads⟩
  apply (append_meets hq₁.written (bytes16 r.key.type)).andThen
  rintro q₂ _ _ hq₂ ⟨_, rfl⟩
  apply (append_meets hq₂.written
    (bytes16 (AvahiDnsPacket.recordClass r.key.clazz cacheFlush))).andThen
  rintro q₃ _ _ hq₃ ⟨_, rfl⟩
  apply (append_meets hq₃.written (bytes32 (AvahiDnsPacket.cappedTtl r.ttl maxTtl))).andThen
  rintro q₄ _ _ hq₄ ⟨_, rfl⟩
  apply (appendLength_meets hq₄.written hr.data p.data.length).imp
  rintro q _ bytes hq ⟨rfl, rdlength, hlength, hrdata⟩
  refine ⟨rfl, ?_⟩
  intro data hdata
  obtain ⟨hread, hparse⟩ := hrdata data hdata
  have hlengths : q₁.data.length = p.data.length + nameBytes.length ∧
      q₂.data.length = q₁.data.length + 2 ∧ q₃.data.length = q₂.data.length + 2 ∧
        q₄.data.length = q₃.data.length + 4 :=
    ⟨hq₁.length, hq₂.length, hq₃.length, hq₄.length⟩
  have hend := hq.length
  have hinside := received_length_le hdata (by have := h.header; omega)
  have htoEnd := hq₄.prolongs.trans hq.prolongs
  have hnameRead := consumeName_of_reads (l := AVAHI_DOMAIN_NAME_MAX)
    (hreads.extend (hdata.trans (known_extends
      (hq₂.prolongs.trans (hq₃.prolongs.trans htoEnd))))) hsteps hfew hfits
  have htypeRead :=
    consumeUint16_of_holds (hq₂.holds hq₁.written (hq₃.prolongs.trans htoEnd) hdata)
  have hclassRead := consumeUint16_of_holds (hq₃.holds hq₂.written htoEnd hdata)
  have httlRead := consumeUint32_of_holds (hq₄.holds hq₃.written hq.prolongs hdata)
  obtain ⟨hclass, hflush⟩ := recordClass_received r.key.clazz cacheFlush
  have hkey := keyNew_sendable ⟨labels, hlabels, hfew, rfl, hfits⟩
    (r.key.clazz &&& ~~~AVAHI_DNS_CACHE_FLUSH) r.key.type
  have hvalid := hr.isValid maxTtl
  rw [consumeRecord, hnameRead, Consumed.andThen, ← hlengths.1, htypeRead, Consumed.andThen,
    ← hlengths.2.1, hclassRead, Consumed.andThen, ← hlengths.2.2.1, httlRead, Consumed.andThen,
    ← hlengths.2.2.2, hread, Consumed.andThen, if_neg (by omega), hclass, hkey]
  simp only
  rw [hparse, Consumed.andThen, hflush]
  have hrecord : (⟨⟨nameOf labels, r.key.clazz &&& ~~~AVAHI_DNS_CACHE_FLUSH, r.key.type⟩,
      recordTtl (AvahiDnsPacket.cappedTtl r.ttl maxTtl), r.data⟩ : AvahiRecord) =
        r.onWire maxTtl := by
    rw [AvahiRecord.onWire, ← hname]
  have hall : q₄.data.length + bytes.length = p.data.length + (nameBytes ++ (bytes16 r.key.type ++
      (bytes16 (AvahiDnsPacket.recordClass r.key.clazz cacheFlush) ++
        (bytes32 (AvahiDnsPacket.cappedTtl r.ttl maxTtl) ++ bytes)))).length := by
    simp only [bytes16, bytes32, List.length_append, List.length_cons, List.length_nil]
    omega
  rw [hrecord, hvalid, hall]
  rfl

/-- Appending a record adds it whole, or leaves the packet as it was. -/
theorem appendRecord_spec {p : AvahiDnsPacket} (h : Written [] p) {r : AvahiRecord}
    (hr : r.Sendable) (cacheFlush : Bool) (maxTtl : UInt32) :
    match p.appendRecord r cacheFlush maxTtl with
    | .ok q offset =>
        offset = p.data.length ∧ ∃ bytes, Extended [] p q bytes ∧
          RecordReceived p.data.length r cacheFlush maxTtl q bytes
    | .null q => Written [] q ∧ q.data = p.data ∧ q.maxSize = p.maxSize
    | .undefined => False := by
  have hmeets := appendRecordParts_meets h hr cacheFlush maxTtl
  rw [AvahiDnsPacket.appendRecord]
  cases hresult : p.appendRecordParts r cacheFlush maxTtl with
  | undefined =>
      rw [hresult] at hmeets
      exact hmeets
  | null q =>
      rw [hresult] at hmeets
      exact ⟨h.restore hmeets, hmeets.restore.1, hmeets.restore.2.1⟩
  | ok q offset =>
      rw [hresult] at hmeets
      obtain ⟨bytes, hq, hoffset, hreceived⟩ := hmeets
      exact ⟨hoffset, bytes, hq, hreceived⟩

/-- Keys that can be sent: the receiver's buffer for the name of a key is shorter
than that for the name of a record, and the bit that asks for a unicast response
is not a part of the class. -/
structure AvahiKey.Sendable (k : AvahiKey) : Prop where
  name : SendableName k.name
  short : k.name.length < 256
  clazz : k.clazz &&& AVAHI_DNS_UNICAST_RESPONSE = 0

/-- A key at a place of a packet. -/
def KeyReceived (start : Nat) (k : AvahiKey) (unicastResponse : Bool) (q : AvahiDnsPacket)
    (bytes : List UInt8) : Prop :=
  ∀ data, (received data).Extends (q.known []) →
    consumeKey data start = .ok (k, unicastResponse) (start + bytes.length)

/-- The class and the flag that a receiver takes from the class of a key. -/
theorem keyClass_received {clazz : UInt16} (h : clazz &&& AVAHI_DNS_UNICAST_RESPONSE = 0)
    (unicastResponse : Bool) :
    (if unicastResponse then clazz ||| AVAHI_DNS_UNICAST_RESPONSE else clazz) &&&
          ~~~AVAHI_DNS_UNICAST_RESPONSE = clazz ∧
      decide ((if unicastResponse then clazz ||| AVAHI_DNS_UNICAST_RESPONSE else clazz) &&&
          AVAHI_DNS_UNICAST_RESPONSE ≠ 0) = unicastResponse := by
  have hclear : clazz &&& ~~~AVAHI_DNS_UNICAST_RESPONSE = clazz := by
    rw [← UInt16.toBitVec_inj] at h ⊢
    simp only [UInt16.toBitVec_and, UInt16.toBitVec_not] at h ⊢
    ext i hi
    have hbit := congrArg (fun bits => bits[i]) h
    simp only [BitVec.getElem_and, BitVec.getElem_not] at hbit ⊢
    revert hbit
    cases clazz.toBitVec[i] <;> cases AVAHI_DNS_UNICAST_RESPONSE.toBitVec[i] <;> simp
  cases unicastResponse with
  | true =>
      simp only [if_true]
      rw [or_and_not, or_and_self, hclear]
      exact ⟨rfl, rfl⟩
  | false =>
      simp only [Bool.false_eq_true, if_false]
      rw [hclear, h]
      exact ⟨rfl, rfl⟩

/-- A key is appended so that its receiver consumes it. -/
theorem appendKeyParts_meets {p : AvahiDnsPacket} (h : Written [] p) {k : AvahiKey}
    (hk : k.Sendable) (unicastResponse : Bool) :
    (p.appendKeyParts k unicastResponse).Meets [] p fun q offset bytes =>
      offset = p.data.length ∧ KeyReceived p.data.length k unicastResponse q bytes := by
  obtain ⟨labels, hlabels, hfew, hname, hfits⟩ := hk.name
  have hshort := hk.short
  rw [hname] at hshort
  rw [AvahiDnsPacket.appendKeyParts, hname]
  apply (appendName_meets h hlabels).andThen
  rintro q₁ t nameBytes hq₁ ⟨rfl, steps, hsteps, hreads⟩
  apply (append_meets hq₁.written (bytes16 k.type)).andThen
  rintro q₂ _ _ hq₂ ⟨_, rfl⟩
  apply (append_meets hq₂.written (bytes16 (if unicastResponse then
    k.clazz ||| AVAHI_DNS_UNICAST_RESPONSE else k.clazz))).andThen
  rintro q₃ _ _ hq₃ ⟨_, rfl⟩
  refine ⟨[], hq₃.written.extended_nil, rfl, ?_⟩
  intro data hdata
  have hnameRead := consumeName_of_reads (hreads.extend (hdata.trans (known_extends
    (hq₂.prolongs.trans hq₃.prolongs)))) hsteps hfew hshort
  have htypeRead := consumeUint16_of_holds (hq₂.holds hq₁.written hq₃.prolongs hdata)
  have hclassRead := consumeUint16_of_holds (hq₃.holds hq₂.written (List.prefix_refl _) hdata)
  have hlengths : q₁.data.length = p.data.length + nameBytes.length ∧
      q₂.data.length = q₁.data.length + 2 ∧ q₃.data.length = q₂.data.length + 2 :=
    ⟨hq₁.length, hq₂.length, hq₃.length⟩
  obtain ⟨hclass, hflag⟩ := keyClass_received hk.clazz unicastResponse
  have hkey := keyNew_sendable ⟨labels, hlabels, hfew, rfl, hfits⟩ k.clazz k.type
  have hvalid : (⟨nameOf labels, k.clazz, k.type⟩ : AvahiKey).isValid = true :=
    isValidDomainName_nameOf hlabels hfits
  have hall : q₂.data.length + 2 = p.data.length + (nameBytes ++ (bytes16 k.type ++
      (bytes16 (if unicastResponse then k.clazz ||| AVAHI_DNS_UNICAST_RESPONSE else k.clazz) ++
        []))).length := by
    simp only [bytes16, List.length_append, List.length_cons, List.length_nil]
    omega
  rw [consumeKey, hnameRead, Consumed.andThen, ← hlengths.1, htypeRead, Consumed.andThen,
    ← hlengths.2.1, hclassRead, Consumed.andThen, hclass, hkey]
  simp only
  rw [hvalid, hflag, hall, ← hname]
  rfl

/-- Appending a key adds it whole, or leaves the packet as it was. -/
theorem appendKey_spec {p : AvahiDnsPacket} (h : Written [] p) {k : AvahiKey} (hk : k.Sendable)
    (unicastResponse : Bool) :
    match p.appendKey k unicastResponse with
    | .ok q offset =>
        offset = p.data.length ∧ ∃ bytes, Extended [] p q bytes ∧
          KeyReceived p.data.length k unicastResponse q bytes
    | .null q => Written [] q ∧ q.data = p.data ∧ q.maxSize = p.maxSize
    | .undefined => False := by
  have hmeets := appendKeyParts_meets h hk unicastResponse
  rw [AvahiDnsPacket.appendKey]
  cases hresult : p.appendKeyParts k unicastResponse with
  | undefined =>
      rw [hresult] at hmeets
      exact hmeets
  | null q =>
      rw [hresult] at hmeets
      exact ⟨h.restore hmeets, hmeets.restore.1, hmeets.restore.2.1⟩
  | ok q offset =>
      rw [hresult] at hmeets
      obtain ⟨bytes, hq, hoffset, hreceived⟩ := hmeets
      exact ⟨hoffset, bytes, hq, hreceived⟩

end NvmrDisplay.Avahi.Dns
