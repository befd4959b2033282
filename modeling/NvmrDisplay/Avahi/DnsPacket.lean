import NvmrDisplay.Avahi.DomainName
import NvmrDisplay.Lib.WireName

/-!
Packets, `avahi-core/dns.c`: what is appended to one, and what is consumed from
one. The bytes of a packet are those up to its size. Reading beyond them, and
what follows a failed assertion, is `undefined`.
-/

namespace NvmrDisplay.Avahi.Dns

open Lib Lib.WireName

abbrev AVAHI_DNS_PACKET_HEADER_SIZE : Nat := 12

abbrev AVAHI_DNS_PACKET_EXTRA_SIZE : Nat := 48

abbrev AVAHI_DNS_LABELS_MAX : Nat := 127

abbrev AVAHI_DNS_RDATA_MAX : Nat := 65535

abbrev AVAHI_DNS_PACKET_SIZE_MAX : Nat :=
  AVAHI_DNS_PACKET_HEADER_SIZE + 256 + 2 + 2 + 4 + 2 + AVAHI_DNS_RDATA_MAX

/-- A packet that is being written. The name table has the offset of each name,
and of each name that one ends with. -/
structure AvahiDnsPacket where
  data : List UInt8
  maxSize : Nat
  nameTable : List (CString × Nat)
  deriving DecidableEq, Repr

/-- `avahi_dns_packet_new`. -/
def AvahiDnsPacket.new (mtu : Nat) : AvahiDnsPacket :=
  let maxSize :=
    if mtu = 0 then AVAHI_DNS_PACKET_SIZE_MAX
    else if mtu ≥ AVAHI_DNS_PACKET_EXTRA_SIZE then mtu - AVAHI_DNS_PACKET_EXTRA_SIZE
    else 0
  { data := List.replicate AVAHI_DNS_PACKET_HEADER_SIZE 0
    maxSize := max maxSize AVAHI_DNS_PACKET_HEADER_SIZE
    nameTable := [] }

/-- The two bytes of a number, the higher one first. -/
def bytes16 (v : UInt16) : List UInt8 := [(v >>> 8).toUInt8, v.toUInt8]

def bytes32 (v : UInt32) : List UInt8 :=
  [(v >>> 24).toUInt8, (v >>> 16).toUInt8, (v >>> 8).toUInt8, v.toUInt8]

namespace AvahiDnsPacket

/-- Two bytes written over those at an offset. -/
def write16 (p : AvahiDnsPacket) (offset : Nat) (v : UInt16) : AvahiDnsPacket :=
  { p with data := (p.data.set offset (v >>> 8).toUInt8).set (offset + 1) v.toUInt8 }

/-- `avahi_dns_packet_set_field`. -/
def setField (p : AvahiDnsPacket) (idx : Nat) (v : UInt16) : AvahiDnsPacket := p.write16 (2 * idx) v

/-- `avahi_dns_packet_extend`, and what is written to the bytes it returns. -/
def extend (p : AvahiDnsPacket) (bytes : List UInt8) : Option AvahiDnsPacket :=
  if p.data.length + bytes.length > p.maxSize then none else some { p with data := p.data ++ bytes }

/-- `avahi_dns_packet_cleanup_name_table`. -/
def cleanupNameTable (p : AvahiDnsPacket) : AvahiDnsPacket :=
  { p with nameTable := p.nameTable.filter fun entry => entry.2 < p.data.length }

/-- Back to an earlier size. -/
def restore (p : AvahiDnsPacket) (size : Nat) : AvahiDnsPacket :=
  cleanupNameTable { p with data := p.data.take size }

/-- `avahi_hashmap_insert` into the name table, which keeps an entry it has. -/
def insertName (p : AvahiDnsPacket) (name : CString) (offset : Nat) : AvahiDnsPacket :=
  if (p.nameTable.lookup name).isSome then p
  else { p with nameTable := (name, offset) :: p.nameTable }

end AvahiDnsPacket

/-- What the functions that append return: the offset, or `NULL`. -/
inductive Appended where
  | ok (p : AvahiDnsPacket) (offset : Nat)
  | null (p : AvahiDnsPacket)
  | undefined
  deriving DecidableEq, Repr

/-- The call after one that did not return `NULL`. -/
def Appended.andThen (first : Appended) (next : AvahiDnsPacket → Nat → Appended) : Appended :=
  match first with
  | .ok p offset => next p offset
  | .null p => .null p
  | .undefined => .undefined

/-- The string that `avahi_dns_packet_append_string` writes. -/
def stringBytes (s : CString) : List UInt8 :=
  let k := min s.length 255
  UInt8.ofNat k :: s.take k

namespace AvahiDnsPacket

/-- What a function that extends the packet by these bytes returns. -/
def append (p : AvahiDnsPacket) (bytes : List UInt8) : Appended :=
  match p.extend bytes with
  | some q => .ok q p.data.length
  | none => .null p

/-- `avahi_dns_packet_append_uint16`. -/
def appendUint16 (p : AvahiDnsPacket) (v : UInt16) : Appended := p.append (bytes16 v)

/-- `avahi_dns_packet_append_uint32`. -/
def appendUint32 (p : AvahiDnsPacket) (v : UInt32) : Appended := p.append (bytes32 v)

/-- `avahi_dns_packet_append_bytes`, which asserts that there are some. -/
def appendBytes (p : AvahiDnsPacket) (bytes : List UInt8) : Appended :=
  if bytes = [] then .undefined else p.append bytes

/-- `avahi_dns_packet_append_string`. -/
def appendString (p : AvahiDnsPacket) (s : CString) : Appended := p.append (stringBytes s)

/-- The loop of `avahi_dns_packet_append_name`. Every label takes at least one
byte of the name, so `calls` are enough if there is one for each. -/
def appendNameLoop (start : Nat) : Nat → AvahiDnsPacket → CString → Appended
  | _, p, [] =>
      match p.extend [0] with
      | some p => .ok p start
      | none => .null (p.restore start)
  | 0, p, _ => .null (p.restore start)
  | calls + 1, p, name =>
      let prev := p.nameTable.lookup name
      if prev.any fun idx => p.data.length ≤ idx then .undefined
      else
        match prev.filter (· < 0x4000) with
        | some idx =>
            -- this return leaves what was written before the pointer in place
            match p.extend [UInt8.ofNat ((0xC000 ||| idx) >>> 8), UInt8.ofNat idx] with
            | some p => .ok p start
            | none => .null p
        | none =>
            match unescapeLabel name AVAHI_LABEL_MAX with
            | none => .null (p.restore start)
            | some (label, rest) =>
                match p.appendString label with
                | .ok longer d => appendNameLoop start calls (longer.insertName name d) rest
                | .null p => .null (p.restore start)
                | .undefined => .undefined

/-- `avahi_dns_packet_append_name`. -/
def appendName (p : AvahiDnsPacket) (name : CString) : Appended :=
  p.appendNameLoop p.data.length name.length name

end AvahiDnsPacket

/-- What the functions that consume return: a value and the next read index, or
-1. -/
inductive Consumed (α : Type) where
  | ok (value : α) (rindex : Nat)
  | failed
  | undefined
  deriving DecidableEq, Repr

namespace Consumed

variable {α β : Type}

/-- A call after one that did not fail. -/
def andThen (first : Consumed α) (next : α → Nat → Consumed β) : Consumed β :=
  match first with
  | .ok value rindex => next value rindex
  | .failed => .failed
  | .undefined => .undefined

theorem failed_ne_undefined : (failed : Consumed α) ≠ undefined := by simp

theorem ok_ne_undefined (value : α) (rindex : Nat) : ok value rindex ≠ undefined := by simp

theorem andThen_eq_ok_iff {first : Consumed α} {next : α → Nat → Consumed β} {value : β}
    {rindex : Nat} :
    first.andThen next = .ok value rindex ↔
      ∃ middle idx, first = .ok middle idx ∧ next middle idx = .ok value rindex := by
  cases first with
  | ok middle idx => simp [andThen]
  | failed => simp [andThen]
  | undefined => simp [andThen]

theorem andThen_ne_undefined {first : Consumed α} {next : α → Nat → Consumed β}
    (hfirst : first ≠ .undefined)
    (hnext : ∀ middle idx, first = .ok middle idx → next middle idx ≠ .undefined) :
    first.andThen next ≠ .undefined := by
  cases first with
  | ok middle idx => exact hnext middle idx rfl
  | failed => exact failed_ne_undefined
  | undefined => exact absurd rfl hfirst

end Consumed

/-- `n` bytes, if they are all in the packet. -/
def readBytes (data : List UInt8) (idx n : Nat) : Option (List UInt8) :=
  if idx + n ≤ data.length then some ((data.drop idx).take n) else none

/-- The name that `consume_labels` has written, the room that is left for more
of it, and whether a label has been written. -/
structure LabelBuffer where
  text : CString
  size : Nat
  firstLabel : Bool
  deriving DecidableEq, Repr

/-- The loop of `consume_labels`: the name and `ret`. -/
def consumeLabelsLoop (data : List UInt8) :
    Nat → Nat → Nat → Bool → LabelBuffer → Consumed CString
  | 0, _, _, _, _ => .failed
  | i + 1, idx, ret, compressed, buffer =>
      if idx + 1 > data.length then .failed
      else
        match readBytes data idx 1 with
        | some [n] =>
            if n = 0 then
              if buffer.size < 1 then .failed
              else .ok buffer.text (if compressed then ret else ret + 1)
            else if n ≤ 63 then
              if idx + 1 + n.toNat > data.length then .failed
              else
                match readBytes data (idx + 1) n.toNat with
                | none => .undefined
                | some label =>
                    let separator := if buffer.firstLabel then [] else [dot]
                    let size := buffer.size - separator.length
                    if n.toNat + 1 > buffer.size then .failed
                    else if size = 0 then .undefined
                    else
                      let escaped := escapeLabel label size
                      if !escaped.complete then .failed
                      else
                        consumeLabelsLoop data i (idx + 1 + n.toNat)
                          (if compressed then ret else ret + 1 + n.toNat) compressed
                          ⟨buffer.text ++ separator ++ escaped.text, escaped.size, false⟩
            else if n &&& 0xC0 = 0xC0 then
              if idx + 2 > data.length then .failed
              else
                match readBytes data idx 2 with
                | some [high, low] =>
                    let labelPtr := (high &&& ~~~0xC0).toNat <<< 8 ||| low.toNat
                    if labelPtr < AVAHI_DNS_PACKET_HEADER_SIZE ∨ labelPtr ≥ idx then .failed
                    else
                      consumeLabelsLoop data i labelPtr (if compressed then ret else ret + 2) true
                        buffer
                | _ => .undefined
            else .failed
        | _ => .undefined

/-- `consume_labels` into a buffer of `l` bytes. -/
def consumeLabels (data : List UInt8) (idx l : Nat) : Consumed CString :=
  consumeLabelsLoop data AVAHI_DNS_LABELS_MAX idx 0 false ⟨[], l, true⟩

/-- `avahi_dns_packet_consume_name`. -/
def consumeName (data : List UInt8) (rindex l : Nat) : Consumed CString :=
  (consumeLabels data rindex l).andThen fun name ret => .ok name (rindex + ret)

/-- `avahi_dns_packet_consume_uint16`. -/
def consumeUint16 (data : List UInt8) (rindex : Nat) : Consumed UInt16 :=
  if rindex + 2 > data.length then .failed
  else
    match readBytes data rindex 2 with
    | some [high, low] => .ok (high.toUInt16 <<< 8 ||| low.toUInt16) (rindex + 2)
    | _ => .undefined

/-- `avahi_dns_packet_consume_uint32`. -/
def consumeUint32 (data : List UInt8) (rindex : Nat) : Consumed UInt32 :=
  if rindex + 4 > data.length then .failed
  else
    match readBytes data rindex 4 with
    | some [first, second, third, fourth] =>
        .ok (first.toUInt32 <<< 24 ||| second.toUInt32 <<< 16 ||| third.toUInt32 <<< 8 |||
          fourth.toUInt32) (rindex + 4)
    | _ => .undefined

/-- `avahi_dns_packet_consume_bytes`. -/
def consumeBytes (data : List UInt8) (rindex l : Nat) : Consumed (List UInt8) :=
  if rindex + l > data.length then .failed
  else
    match readBytes data rindex l with
    | some bytes => .ok bytes (rindex + l)
    | none => .undefined

/-- `avahi_dns_packet_consume_string` into a buffer of `l` bytes, as a C string. -/
def consumeString (data : List UInt8) (rindex l : Nat) : Consumed CString :=
  if rindex ≥ data.length then .failed
  else
    match readBytes data rindex 1 with
    | some [k] =>
        if rindex + 1 + k.toNat > data.length then .failed
        else
          match readBytes data (rindex + 1) (min l (k.toNat + 1) - 1) with
          | some bytes => .ok (bytes.takeWhile fun byte => byte ≠ 0) (rindex + (1 + k.toNat))
          | none => .undefined
    | _ => .undefined

/-- `avahi_dns_packet_skip`. -/
def skip (data : List UInt8) (rindex length : Nat) : Consumed Unit :=
  if rindex + length > data.length then .failed else .ok () (rindex + length)

theorem readBytes_of_le {data : List UInt8} {idx n : Nat} (h : idx + n ≤ data.length) :
    readBytes data idx n = some ((data.drop idx).take n) := if_pos h

theorem readBytes_one {data : List UInt8} {idx : Nat} {n : UInt8} (h : data[idx]? = some n) :
    readBytes data idx 1 = some [n] := by
  obtain ⟨hlt, rfl⟩ := List.getElem?_eq_some_iff.mp h
  rw [readBytes_of_le (by omega), List.drop_eq_getElem_cons hlt]
  rfl

theorem readBytes_two {data : List UInt8} {idx : Nat} {first second : UInt8}
    (h : data[idx]? = some first) (hsecond : data[idx + 1]? = some second) :
    readBytes data idx 2 = some [first, second] := by
  obtain ⟨hlt, rfl⟩ := List.getElem?_eq_some_iff.mp h
  obtain ⟨hlt', rfl⟩ := List.getElem?_eq_some_iff.mp hsecond
  rw [readBytes_of_le (by omega), List.drop_eq_getElem_cons hlt, List.drop_eq_getElem_cons hlt']
  rfl

/-- The room for a name of which these labels are written. -/
def LabelBuffer.of (total : Nat) (labels : List (List UInt8)) : LabelBuffer :=
  ⟨nameOf labels, total - (nameOf labels).length, labels = []⟩

/-- Where a pointer goes. -/
def labelPtr (high low : UInt8) : Nat := (high &&& ~~~0xC0).toNat <<< 8 ||| low.toNat

/-- A label is written to the buffer if it fits, and the loop goes on. -/
theorem consumeLabelsLoop_label {α : Type} {total : Nat} {labels : List (List UInt8)}
    {label : List UInt8} (hfits : (nameOf labels).length < total)
    (hlabel : 0 < label.length) {n : Nat} (hn : label.length = n)
    (next : LabelBuffer → Consumed α) :
    (let buffer := LabelBuffer.of total labels
      let separator := if buffer.firstLabel then [] else [dot]
      let size := buffer.size - separator.length
      if n + 1 > buffer.size then .failed
      else if size = 0 then .undefined
      else
        let escaped := escapeLabel label size
        if !escaped.complete then .failed
        else next ⟨buffer.text ++ separator ++ escaped.text, escaped.size, false⟩) =
      if (nameOf (labels ++ [label])).length < total then next (.of total (labels ++ [label]))
      else .failed := by
  have hseparator := separator_length_le labels
  have hescape := length_le_escape label
  have hlength := congrArg List.length (nameOf_concat labels label)
  rw [List.length_append, List.length_append] at hlength
  unfold LabelBuffer.of
  simp only [decide_eq_true_eq]
  rw [← separator]
  by_cases hroom : n + 1 > total - (nameOf labels).length
  · rw [if_pos hroom, if_neg (by omega)]
  · have hnext := escapeLabel_next label
      (show (nameOf labels).length + (separator labels).length < total by omega)
    rw [if_neg hroom, if_neg (by omega)]
    split at hnext
    · rename_i hwhole
      have hlast : decide (labels ++ [label] = []) = false := by simp
      rw [hnext, ← nameOf_concat, if_pos hwhole, hlast]
      rfl
    · rename_i hwhole
      rw [hnext, if_neg hwhole]
      rfl

/-- One step of `consume_labels`: it stays within the packet and its buffer. -/
theorem consumeLabelsLoop_succ (data : List UInt8) (i idx ret : Nat) (compressed : Bool)
    {total : Nat} {labels : List (List UInt8)} (hfits : (nameOf labels).length < total) :
    consumeLabelsLoop data (i + 1) idx ret compressed (.of total labels) =
      match data[idx]? with
      | none => .failed
      | some n =>
          if n = 0 then .ok (nameOf labels) (if compressed then ret else ret + 1)
          else if n ≤ 63 then
            let label := (data.drop (idx + 1)).take n.toNat
            if idx + 1 + n.toNat ≤ data.length ∧
                (nameOf (labels ++ [label])).length < total then
              consumeLabelsLoop data i (idx + 1 + n.toNat)
                (if compressed then ret else ret + 1 + n.toNat) compressed
                (.of total (labels ++ [label]))
            else .failed
          else if n &&& 0xC0 = 0xC0 then
            match data[idx + 1]? with
            | none => .failed
            | some low =>
                if AVAHI_DNS_PACKET_HEADER_SIZE ≤ labelPtr n low ∧ labelPtr n low < idx then
                  consumeLabelsLoop data i (labelPtr n low)
                    (if compressed then ret else ret + 2) true (.of total labels)
                else .failed
          else .failed := by
  rw [consumeLabelsLoop]
  cases hread : data[idx]? with
  | none =>
      have hend := List.getElem?_eq_none_iff.mp hread
      exact if_pos (by omega)
  | some n =>
      have hlt := (List.getElem?_eq_some_iff.mp hread).1
      rw [if_neg (by omega), readBytes_one hread]
      simp only
      by_cases hroot : n = 0
      · have hroom : ¬ (LabelBuffer.of total labels).size < 1 := by
          unfold LabelBuffer.of
          simp only
          omega
        rw [if_pos hroot, if_pos hroot, if_neg hroom]
        rfl
      · rw [if_neg hroot, if_neg hroot]
        by_cases hlabel : n ≤ 63
        · have hpos : 0 < n.toNat := Nat.pos_of_ne_zero fun h => hroot (UInt8.toNat_inj.mp h)
          rw [if_pos hlabel, if_pos hlabel]
          by_cases hwhole : idx + 1 + n.toNat ≤ data.length
          · rw [if_neg (by omega), readBytes_of_le hwhole]
            simp only [hwhole, true_and]
            generalize hbytes : (data.drop (idx + 1)).take n.toNat = label
            have hlength : label.length = n.toNat := by
              rw [← hbytes, List.length_take, List.length_drop]
              omega
            exact consumeLabelsLoop_label hfits (by omega) hlength fun buffer =>
              consumeLabelsLoop data i (idx + 1 + n.toNat)
                (if compressed then ret else ret + 1 + n.toNat) compressed buffer
          · rw [if_pos (by omega), if_neg (by omega)]
        · rw [if_neg hlabel, if_neg hlabel]
          by_cases hpointer : n &&& 0xC0 = 0xC0
          · rw [if_pos hpointer, if_pos hpointer]
            cases hsecond : data[idx + 1]? with
            | none =>
                have hend := List.getElem?_eq_none_iff.mp hsecond
                exact if_pos (by omega)
            | some low =>
                have hlt := (List.getElem?_eq_some_iff.mp hsecond).1
                rw [if_neg (by omega), readBytes_two hread hsecond]
                simp only
                rw [← labelPtr]
                by_cases hptr :
                    AVAHI_DNS_PACKET_HEADER_SIZE ≤ labelPtr n low ∧ labelPtr n low < idx
                · rw [if_pos hptr, if_neg (by omega)]
                · rw [if_neg hptr, if_pos (by omega)]
          · rw [if_neg hpointer, if_neg hpointer]

/-- The two highest bits of a byte, and the others. -/
theorem pointer_high (high : UInt8) :
    (high &&& 0xC0 = 0xC0 ↔ 192 ≤ high.toNat) ∧
    (high &&& ~~~0xC0).toNat = high.toNat % 64 := by
  have hall : ∀ n, n < 256 → (UInt8.ofNat n &&& 0xC0 = 0xC0 ↔ 192 ≤ n) ∧
      (UInt8.ofNat n &&& ~~~0xC0).toNat = n % 64 := by decide +kernel
  have hbyte := hall high.toNat high.toNat_lt
  rwa [UInt8.ofNat_toNat] at hbyte

theorem labelPtr_eq (high low : UInt8) : labelPtr high low = high.toNat % 64 * 256 + low.toNat := by
  have hlow := low.toNat_lt
  rw [labelPtr, (pointer_high high).2, ← Nat.shiftLeft_add_eq_or_of_lt (i := 8) hlow,
    Nat.shiftLeft_eq]

/-- The bytes of a pointer, and where it goes. -/
theorem pointerBytes_iff {high low : UInt8} {target : Nat} :
    high &&& 0xC0 = 0xC0 ∧ labelPtr high low = target ↔
      target < 0x4000 ∧ [high, low] = pointerBytes target := by
  have hhigh := high.toNat_lt
  have hlow := low.toNat_lt
  have hbytes : [high, low] = pointerBytes target ↔
      high.toNat = (192 + target / 256) % 256 ∧ low.toNat = target % 256 % 256 := by
    rw [pointerBytes, List.cons.injEq, List.cons.injEq, ← UInt8.toNat_inj, ← UInt8.toNat_inj,
      UInt8.toNat_ofNat', UInt8.toNat_ofNat']
    simp
  rw [hbytes, (pointer_high high).1, labelPtr_eq]
  omega

theorem holds_ofList_zero_cons {data values : List UInt8} {cell : Nat} {value : UInt8} :
    (PartialMemory.ofList 0 data).Holds cell (value :: values) ↔
      data[cell]? = some value ∧ (PartialMemory.ofList 0 data).Holds (cell + 1) values := by
  rw [PartialMemory.holds_cons_iff, PartialMemory.ofList_eq_some_iff]
  simp

/-- The bytes of a label in a packet, behind its length. -/
theorem holds_labelBytes_iff {data : List UInt8} {idx : Nat} {n : UInt8} (hn : n ≠ 0)
    (hshort : n ≤ 63) (hread : data[idx]? = some n) {label : List UInt8} :
    0 < label.length ∧ label.length ≤ 63 ∧
        (PartialMemory.ofList 0 data).Holds idx (labelBytes label) ↔
      idx + 1 + n.toNat ≤ data.length ∧ label = (data.drop (idx + 1)).take n.toNat := by
  have hpos : 0 < n.toNat := Nat.pos_of_ne_zero fun h => hn (UInt8.toNat_inj.mp h)
  have hmax : n.toNat ≤ 63 := hshort
  constructor
  · rintro ⟨hlabel, hlength, hholds⟩
    obtain ⟨hfirst, hbytes⟩ := holds_ofList_zero_cons.mp hholds
    have heq : n.toNat = label.length := by
      rw [hread] at hfirst
      rw [Option.some.inj hfirst, UInt8.toNat_ofNat']
      omega
    obtain ⟨hvalue, hend⟩ := hbytes.take_drop (List.length_pos_iff.mp hlabel)
    rw [heq]
    exact ⟨hend, hvalue.symm⟩
  · rintro ⟨hend, rfl⟩
    have hlength : ((data.drop (idx + 1)).take n.toNat).length = n.toNat := by
      rw [List.length_take, List.length_drop]
      omega
    refine ⟨by omega, by omega, ?_⟩
    rw [labelBytes, hlength, UInt8.ofNat_toNat]
    refine holds_ofList_zero_cons.mpr ⟨hread, ?_⟩
    intro k value hvalue
    rw [PartialMemory.ofList_eq_some_iff]
    refine ⟨Nat.zero_le _, ?_⟩
    obtain ⟨hk, heq⟩ := List.getElem?_eq_some_iff.mp hvalue
    rw [← heq, List.getElem_take, List.getElem_drop]
    exact List.getElem?_eq_getElem _

/-- What a name begins with, by its first byte. -/
theorem readsAt_iff {data : List UInt8} {idx : Nat} {labels : List (List UInt8)}
    {steps used : Nat} :
    ReadsAt AVAHI_DNS_PACKET_HEADER_SIZE (PartialMemory.ofList 0 data) idx labels steps used ↔
      ∃ n, data[idx]? = some n ∧
        if n = 0 then labels = [] ∧ steps = 1 ∧ used = 1
        else if n ≤ 63 then
          idx + 1 + n.toNat ≤ data.length ∧ ∃ more fewer rest,
            ReadsAt AVAHI_DNS_PACKET_HEADER_SIZE (PartialMemory.ofList 0 data) (idx + 1 + n.toNat)
              more fewer rest ∧
            labels = (data.drop (idx + 1)).take n.toNat :: more ∧ steps = fewer + 1 ∧
              used = 1 + n.toNat + rest
        else
          n &&& 0xC0 = 0xC0 ∧ ∃ low, data[idx + 1]? = some low ∧
            AVAHI_DNS_PACKET_HEADER_SIZE ≤ labelPtr n low ∧ labelPtr n low < idx ∧
            ∃ fewer rest,
              ReadsAt AVAHI_DNS_PACKET_HEADER_SIZE (PartialMemory.ofList 0 data) (labelPtr n low)
                labels fewer rest ∧
              steps = fewer + 1 ∧ used = 2 := by
  constructor
  · intro h
    cases h with
    | root hholds => exact ⟨0, (holds_ofList_zero_cons.mp hholds).1, by simp⟩
    | @label _ label more fewer rest hpos hlength hholds hrest =>
        obtain ⟨hfirst, _⟩ := holds_ofList_zero_cons.mp hholds
        have hvalue : (UInt8.ofNat label.length).toNat = label.length := by
          rw [UInt8.toNat_ofNat']
          omega
        have hne : UInt8.ofNat label.length ≠ 0 := by
          intro hzero
          rw [hzero] at hvalue
          have hpositive : (0 : UInt8).toNat = label.length := hvalue
          rw [UInt8.toNat_zero] at hpositive
          omega
        have hshort : UInt8.ofNat label.length ≤ 63 := by
          apply UInt8.le_iff_toNat_le.mpr
          rw [hvalue]
          exact hlength
        obtain ⟨hend, htext⟩ :=
          (holds_labelBytes_iff hne hshort hfirst).mp ⟨hpos, hlength, hholds⟩
        refine ⟨_, hfirst, ?_⟩
        rw [if_neg hne, if_pos hshort, ← htext]
        refine ⟨hend, more, fewer, rest, ?_, rfl, rfl, ?_⟩
        · rwa [hvalue, Nat.add_assoc]
        · rw [hvalue]
    | @pointer _ target _ fewer rest hheader hbefore hsmall hholds hrest =>
        obtain ⟨hhigh, hlow⟩ := holds_ofList_zero_cons.mp hholds
        obtain ⟨hlow, _⟩ := holds_ofList_zero_cons.mp hlow
        obtain ⟨hbits, hptr⟩ := pointerBytes_iff.mpr ⟨hsmall, rfl⟩
        have hlarge := (pointer_high _).1.mp hbits
        refine ⟨_, hhigh, ?_⟩
        rw [if_neg, if_neg]
        · exact ⟨hbits, _, hlow, by rwa [hptr], by rwa [hptr], fewer, rest, by rwa [hptr],
            rfl, rfl⟩
        · intro hle
          have hle := UInt8.le_iff_toNat_le.mp hle
          have h63 : (63 : UInt8).toNat = 63 := rfl
          omega
        · intro hzero
          rw [hzero, UInt8.toNat_zero] at hlarge
          omega
  · rintro ⟨n, hread, hcase⟩
    split at hcase
    · rename_i hzero
      obtain ⟨rfl, rfl, rfl⟩ := hcase
      rw [hzero] at hread
      exact .root (holds_ofList_zero_cons.mpr ⟨hread, PartialMemory.holds_nil⟩)
    · rename_i hne
      split at hcase
      · rename_i hshort
        obtain ⟨hend, more, fewer, rest, hrest, rfl, rfl, rfl⟩ := hcase
        obtain ⟨hpos, hlength, hholds⟩ :=
          (holds_labelBytes_iff hne hshort hread).mpr ⟨hend, rfl⟩
        have heq : ((data.drop (idx + 1)).take n.toNat).length = n.toNat := by
          rw [List.length_take, List.length_drop]
          omega
        have hnext :
            idx + (1 + ((data.drop (idx + 1)).take n.toNat).length) = idx + 1 + n.toNat := by
          rw [heq, Nat.add_assoc]
        have hreads := ReadsAt.label hpos hlength hholds (hnext.symm ▸ hrest)
        rwa [heq] at hreads
      · obtain ⟨hbits, low, hlow, hheader, hbefore, fewer, rest, hrest, rfl, rfl⟩ := hcase
        obtain ⟨hsmall, hbytes⟩ := pointerBytes_iff.mp ⟨hbits, rfl⟩
        refine .pointer hheader hbefore hsmall ?_ hrest
        rw [← hbytes]
        exact holds_ofList_zero_cons.mpr
          ⟨hread, holds_ofList_zero_cons.mpr ⟨hlow, PartialMemory.holds_nil⟩⟩

/-- `consume_labels` returns a name exactly if its place reads as labels, in no
more steps than it makes, whose text fits. -/
theorem consumeLabelsLoop_eq_ok_iff (data : List UInt8) (i idx ret : Nat) (compressed : Bool)
    {total : Nat} {labels : List (List UInt8)} (hfits : (nameOf labels).length < total)
    (name : CString) (passed : Nat) :
    consumeLabelsLoop data i idx ret compressed (.of total labels) = .ok name passed ↔
      ∃ more steps used,
        ReadsAt AVAHI_DNS_PACKET_HEADER_SIZE (PartialMemory.ofList 0 data) idx more steps used ∧
          steps ≤ i ∧ name = nameOf (labels ++ more) ∧ name.length < total ∧
            passed = if compressed then ret else ret + used := by
  induction i generalizing idx ret compressed labels with
  | zero =>
      rw [consumeLabelsLoop]
      constructor
      · intro hfailed
        cases hfailed
      · rintro ⟨more, steps, used, hreads, hsteps, _⟩
        cases hreads <;> omega
  | succ i ih =>
      rw [consumeLabelsLoop_succ data i idx ret compressed hfits]
      constructor
      · intro h
        cases hread : data[idx]? with
        | none =>
            rw [hread] at h
            cases h
        | some n =>
            rw [hread] at h
            simp only at h
            split at h
            · rename_i hzero
              obtain ⟨rfl, rfl⟩ := Consumed.ok.inj h
              refine ⟨[], 1, 1, readsAt_iff.mpr ⟨n, hread, ?_⟩, by omega, ?_, hfits, rfl⟩
              · rw [if_pos hzero]
                exact ⟨rfl, rfl, rfl⟩
              · rw [List.append_nil]
            · rename_i hne
              split at h
              · rename_i hshort
                split at h
                · rename_i hwhole
                  obtain ⟨more, steps, used, hreads, hsteps, rfl, hname, rfl⟩ :=
                    (ih _ _ _ hwhole.2).mp h
                  rw [List.append_assoc, List.singleton_append] at hname ⊢
                  refine ⟨_, steps + 1, 1 + n.toNat + used, readsAt_iff.mpr ⟨n, hread, ?_⟩,
                    by omega, rfl, hname, ?_⟩
                  · rw [if_neg hne, if_pos hshort]
                    exact ⟨hwhole.1, more, steps, used, hreads, rfl, rfl, rfl⟩
                  · cases compressed
                    · exact (Nat.add_assoc ret 1 n.toNat ▸ Nat.add_assoc ret (1 + n.toNat) used)
                    · rfl
                · cases h
              · rename_i hlong
                split at h
                · rename_i hpointer
                  cases hsecond : data[idx + 1]? with
                  | none =>
                      rw [hsecond] at h
                      cases h
                  | some low =>
                      rw [hsecond] at h
                      simp only at h
                      split at h
                      · rename_i hptr
                        obtain ⟨more, steps, used, hreads, hsteps, hname, hlength, rfl⟩ :=
                          (ih _ _ _ hfits).mp h
                        refine ⟨more, steps + 1, 2, readsAt_iff.mpr ⟨n, hread, ?_⟩, by omega,
                          hname, hlength, rfl⟩
                        rw [if_neg hne, if_neg hlong]
                        exact ⟨hpointer, low, hsecond, hptr.1, hptr.2, steps, used,
                          hreads, rfl, rfl⟩
                      · cases h
                · cases h
      · rintro ⟨more, steps, used, hreads, hsteps, rfl, hname, rfl⟩
        obtain ⟨n, hread, hcase⟩ := readsAt_iff.mp hreads
        rw [hread]
        simp only
        split at hcase
        · rename_i hzero
          obtain ⟨rfl, rfl, rfl⟩ := hcase
          rw [if_pos hzero, List.append_nil]
        · rename_i hne
          rw [if_neg hne]
          split at hcase
          · rename_i hshort
            obtain ⟨hend, others, fewer, rest, hrest, rfl, rfl, rfl⟩ := hcase
            have hall : labels ++ (data.drop (idx + 1)).take n.toNat :: others =
                labels ++ [(data.drop (idx + 1)).take n.toNat] ++ others := by simp
            have hshorter :=
              nameOf_length_le (labels ++ [(data.drop (idx + 1)).take n.toNat]) others
            rw [← hall] at hshorter
            have hnext := Nat.lt_of_le_of_lt hshorter hname
            rw [if_pos hshort, if_pos ⟨hend, hnext⟩]
            refine (ih _ _ _ hnext).mpr
              ⟨others, fewer, rest, hrest, by omega, congrArg nameOf hall, hname, ?_⟩
            cases compressed
            · exact (Nat.add_assoc ret 1 n.toNat ▸ Nat.add_assoc ret (1 + n.toNat) rest).symm
            · rfl
          · rename_i hlong
            obtain ⟨hbits, low, hlow, hheader, hbefore, fewer, rest, hrest, rfl, rfl⟩ := hcase
            rw [if_neg hlong, if_pos hbits, hlow]
            simp only
            rw [if_pos ⟨hheader, hbefore⟩]
            exact (ih _ _ _ hfits).mpr ⟨more, fewer, rest, hrest, by omega, rfl, hname, rfl⟩

/-- `consume_labels` never reads outside of the packet. -/
theorem consumeLabelsLoop_ne_undefined (data : List UInt8) (i idx ret : Nat) (compressed : Bool)
    {total : Nat} {labels : List (List UInt8)} (hfits : (nameOf labels).length < total) :
    consumeLabelsLoop data i idx ret compressed (.of total labels) ≠ .undefined := by
  induction i generalizing idx ret compressed labels with
  | zero =>
      rw [consumeLabelsLoop]
      intro h
      cases h
  | succ i ih =>
      rw [consumeLabelsLoop_succ data i idx ret compressed hfits]
      cases data[idx]? with
      | none => exact Consumed.failed_ne_undefined
      | some n =>
          simp only
          by_cases hzero : n = 0
          · rw [if_pos hzero]
            exact Consumed.ok_ne_undefined _ _
          · rw [if_neg hzero]
            by_cases hshort : n ≤ 63
            · rw [if_pos hshort]
              by_cases hwhole : idx + 1 + n.toNat ≤ data.length ∧
                  (nameOf (labels ++ [(data.drop (idx + 1)).take n.toNat])).length < total
              · rw [if_pos hwhole]
                exact ih _ _ _ hwhole.2
              · rw [if_neg hwhole]
                exact Consumed.failed_ne_undefined
            · rw [if_neg hshort]
              by_cases hbits : n &&& 0xC0 = 0xC0
              · rw [if_pos hbits]
                cases data[idx + 1]? with
                | none => exact Consumed.failed_ne_undefined
                | some low =>
                    simp only
                    by_cases hptr :
                        AVAHI_DNS_PACKET_HEADER_SIZE ≤ labelPtr n low ∧ labelPtr n low < idx
                    · rw [if_pos hptr]
                      exact ih _ _ _ hfits
                    · rw [if_neg hptr]
                      exact Consumed.failed_ne_undefined
              · rw [if_neg hbits]
                exact Consumed.failed_ne_undefined

/-- What `avahi_dns_packet_consume_name` returns. -/
theorem consumeName_eq_ok_iff {data : List UInt8} {rindex l : Nat} (hl : 0 < l) (name : CString)
    (next : Nat) :
    consumeName data rindex l = .ok name next ↔
      ∃ labels steps used,
        ReadsAt AVAHI_DNS_PACKET_HEADER_SIZE (PartialMemory.ofList 0 data) rindex labels
            steps used ∧
          steps ≤ AVAHI_DNS_LABELS_MAX ∧ name = nameOf labels ∧ name.length < l ∧
            next = rindex + used := by
  have hempty : (nameOf []).length < l := hl
  have hloop (passed : Nat) := consumeLabelsLoop_eq_ok_iff data AVAHI_DNS_LABELS_MAX rindex 0 false
    hempty name passed
  have hstart : consumeLabels data rindex l =
      consumeLabelsLoop data AVAHI_DNS_LABELS_MAX rindex 0 false (.of l []) := rfl
  rw [consumeName, hstart]
  constructor
  · intro h
    cases hresult : consumeLabelsLoop data AVAHI_DNS_LABELS_MAX rindex 0 false (.of l []) with
    | ok text passed =>
        rw [hresult] at h
        obtain ⟨rfl, rfl⟩ := Consumed.ok.inj h
        obtain ⟨labels, steps, used, hreads, hsteps, hname, hlength, rfl⟩ :=
          (hloop passed).mp hresult
        refine ⟨labels, steps, used, hreads, hsteps, hname, hlength, ?_⟩
        rw [if_neg Bool.false_ne_true, Nat.zero_add]
    | failed =>
        rw [hresult] at h
        cases h
    | undefined =>
        rw [hresult] at h
        cases h
  · rintro ⟨labels, steps, used, hreads, hsteps, hname, hlength, rfl⟩
    rw [(hloop used).mpr ⟨labels, steps, used, hreads, hsteps, hname, hlength,
      (Nat.zero_add used).symm⟩]
    rfl

theorem consumeName_ne_undefined (data : List UInt8) (rindex : Nat) {l : Nat} (hl : 0 < l) :
    consumeName data rindex l ≠ .undefined := by
  have hloop : consumeLabels data rindex l ≠ .undefined :=
    @consumeLabelsLoop_ne_undefined data AVAHI_DNS_LABELS_MAX rindex 0 false l [] hl
  rw [consumeName]
  cases hresult : consumeLabels data rindex l with
  | ok text passed =>
      intro h
      cases h
  | failed =>
      intro h
      cases h
  | undefined => exact absurd hresult hloop

/-- A name that is read lies in the packet, and its labels are neither empty nor
longer than the wire allows. -/
theorem readsAt_inside {data : List UInt8} {idx steps used : Nat} {labels : List (List UInt8)}
    (h : ReadsAt AVAHI_DNS_PACKET_HEADER_SIZE (PartialMemory.ofList 0 data) idx labels steps used) :
    idx + used ≤ data.length ∧
      ∀ label ∈ labels, label ≠ [] ∧ label.length < AVAHI_LABEL_MAX := by
  induction h with
  | root hholds =>
      have hend := (hholds.take_drop (List.cons_ne_nil _ _)).2
      exact ⟨hend, fun label hlabel => absurd hlabel List.not_mem_nil⟩
  | label hpos hlength hholds _ ih =>
      have hinside := ih.1
      refine ⟨by omega, ?_⟩
      intro label hlabel
      rcases List.mem_cons.mp hlabel with rfl | hlabel
      · exact ⟨List.length_pos_iff.mp hpos, Nat.lt_succ_of_le hlength⟩
      · exact ih.2 label hlabel
  | pointer _ _ _ hholds _ ih =>
      have hend := (hholds.take_drop (List.cons_ne_nil _ _)).2
      exact ⟨hend, ih.2⟩

/-- What `avahi_dns_packet_consume_name` returns lies in the packet and has
labels of the lengths that the wire allows. -/
theorem consumeName_inside {data : List UInt8} {rindex l : Nat} (hl : 0 < l) {name : CString}
    {next : Nat} (h : consumeName data rindex l = .ok name next) :
    rindex < next ∧ next ≤ data.length ∧
      ∃ labels, ShortLabels labels ∧ name = nameOf labels ∧ (nameOf labels).length < l := by
  obtain ⟨labels, steps, used, hreads, _, rfl, hlength, rfl⟩ :=
    (consumeName_eq_ok_iff hl name next).mp h
  obtain ⟨hend, hlabels⟩ := readsAt_inside hreads
  have hused : 0 < used := by
    cases hreads <;> omega
  exact ⟨by omega, hend, labels, hlabels, rfl, hlength⟩

/-- What `avahi_dns_packet_consume_uint16` returns. -/
theorem consumeUint16_eq (data : List UInt8) (rindex : Nat) :
    consumeUint16 data rindex =
      match data[rindex]?, data[rindex + 1]? with
      | some high, some low => .ok (high.toUInt16 <<< 8 ||| low.toUInt16) (rindex + 2)
      | _, _ => .failed := by
  rw [consumeUint16]
  by_cases hend : rindex + 2 > data.length
  · have hsecond : data[rindex + 1]? = none := List.getElem?_eq_none_iff.mpr (by omega)
    rw [if_pos hend, hsecond]
    cases data[rindex]? <;> rfl
  · have hfirst : data[rindex]? = some data[rindex] := List.getElem?_eq_getElem (by omega)
    have hsecond : data[rindex + 1]? = some data[rindex + 1] := List.getElem?_eq_getElem (by omega)
    rw [if_neg hend, readBytes_two hfirst hsecond, hfirst, hsecond]

theorem consumeUint16_inside {data : List UInt8} {rindex next : Nat} {v : UInt16}
    (h : consumeUint16 data rindex = .ok v next) : next = rindex + 2 ∧ next ≤ data.length := by
  rw [consumeUint16] at h
  split at h
  · cases h
  · split at h
    · obtain ⟨_, rfl⟩ := Consumed.ok.inj h
      exact ⟨rfl, by omega⟩
    · cases h

theorem consumeUint16_ne_undefined (data : List UInt8) (rindex : Nat) :
    consumeUint16 data rindex ≠ .undefined := by
  rw [consumeUint16_eq]
  split
  · exact Consumed.ok_ne_undefined _ _
  · exact Consumed.failed_ne_undefined

theorem readBytes_four {data : List UInt8} {idx : Nat} (h : idx + 4 ≤ data.length) :
    readBytes data idx 4 = some [data[idx], data[idx + 1], data[idx + 2], data[idx + 3]] := by
  rw [readBytes_of_le h, List.drop_eq_getElem_cons (by omega : idx < data.length),
    List.drop_eq_getElem_cons (by omega : idx + 1 < data.length),
    List.drop_eq_getElem_cons (by omega : idx + 1 + 1 < data.length),
    List.drop_eq_getElem_cons (by omega : idx + 1 + 1 + 1 < data.length)]
  rfl

theorem consumeUint32_eq {data : List UInt8} {rindex : Nat} (h : rindex + 4 ≤ data.length) :
    consumeUint32 data rindex =
      .ok (data[rindex].toUInt32 <<< 24 ||| data[rindex + 1].toUInt32 <<< 16 |||
        data[rindex + 2].toUInt32 <<< 8 ||| data[rindex + 3].toUInt32) (rindex + 4) := by
  rw [consumeUint32, if_neg (by omega), readBytes_four h]

theorem consumeUint32_inside {data : List UInt8} {rindex next : Nat} {v : UInt32}
    (h : consumeUint32 data rindex = .ok v next) : next = rindex + 4 ∧ next ≤ data.length := by
  rw [consumeUint32] at h
  split at h
  · cases h
  · split at h
    · obtain ⟨_, rfl⟩ := Consumed.ok.inj h
      exact ⟨rfl, by omega⟩
    · cases h

theorem consumeUint32_ne_undefined (data : List UInt8) (rindex : Nat) :
    consumeUint32 data rindex ≠ .undefined := by
  by_cases h : rindex + 4 ≤ data.length
  · rw [consumeUint32_eq h]
    exact Consumed.ok_ne_undefined _ _
  · rw [consumeUint32, if_pos (by omega)]
    exact Consumed.failed_ne_undefined

theorem consumeBytes_eq (data : List UInt8) (rindex l : Nat) :
    consumeBytes data rindex l =
      if rindex + l ≤ data.length then .ok ((data.drop rindex).take l) (rindex + l)
      else .failed := by
  rw [consumeBytes]
  by_cases h : rindex + l ≤ data.length
  · rw [if_neg (by omega), readBytes_of_le h, if_pos h]
  · rw [if_pos (by omega), if_neg h]

theorem consumeString_ne_undefined (data : List UInt8) (rindex l : Nat) :
    consumeString data rindex l ≠ .undefined := by
  rw [consumeString]
  by_cases hstart : rindex ≥ data.length
  · rw [if_pos hstart]
    exact Consumed.failed_ne_undefined
  · have hread : data[rindex]? = some data[rindex] := List.getElem?_eq_getElem (by omega)
    rw [if_neg hstart, readBytes_one hread]
    simp only
    split
    · exact Consumed.failed_ne_undefined
    · rw [readBytes_of_le (by omega)]
      exact Consumed.ok_ne_undefined _ _

theorem consumeString_inside {data : List UInt8} {rindex l next : Nat} {s : CString}
    (h : consumeString data rindex l = .ok s next) :
    rindex < next ∧ next ≤ data.length ∧ s.length ≤ 255 := by
  rw [consumeString] at h
  split at h
  · cases h
  · split at h
    · rename_i k hk
      split at h
      · cases h
      · split at h
        · rename_i bytes hbytes
          obtain ⟨rfl, rfl⟩ := Consumed.ok.inj h
          have hlt := k.toNat_lt
          have hle := (List.takeWhile_prefix (l := bytes) fun byte => decide (byte ≠ 0)).length_le
          unfold readBytes at hbytes
          split at hbytes
          · obtain rfl := Option.some.inj hbytes
            rw [List.length_take] at hle
            refine ⟨by omega, by omega, by omega⟩
          · cases hbytes
        · cases h
    · cases h

end NvmrDisplay.Avahi.Dns
