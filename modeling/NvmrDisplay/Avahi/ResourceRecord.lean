import NvmrDisplay.Avahi.DomainName
import NvmrDisplay.Avahi.StringList

/-!
Keys and records, `avahi-core/rr.c`. The data of a record has the form that the
type of its key says, so a record with other data cannot be built. A failed
assertion is `none` where a function compares, and `undefined` where it creates.
-/

namespace NvmrDisplay.Avahi.Dns

abbrev AVAHI_DNS_TYPE_A : UInt16 := 0x01
abbrev AVAHI_DNS_TYPE_NS : UInt16 := 0x02
abbrev AVAHI_DNS_TYPE_CNAME : UInt16 := 0x05
abbrev AVAHI_DNS_TYPE_PTR : UInt16 := 0x0C
abbrev AVAHI_DNS_TYPE_HINFO : UInt16 := 0x0D
abbrev AVAHI_DNS_TYPE_TXT : UInt16 := 0x10
abbrev AVAHI_DNS_TYPE_AAAA : UInt16 := 0x1C
abbrev AVAHI_DNS_TYPE_SRV : UInt16 := 0x21
abbrev AVAHI_DNS_TYPE_ANY : UInt16 := 0xFF

abbrev AVAHI_DNS_CLASS_IN : UInt16 := 0x01
abbrev AVAHI_DNS_CLASS_ANY : UInt16 := 0xFF

/-- The bit of a class that asks to flush the cache. -/
abbrev AVAHI_DNS_CACHE_FLUSH : UInt16 := 0x8000

abbrev AVAHI_DNS_UNICAST_RESPONSE : UInt16 := 0x8000

abbrev AVAHI_DEFAULT_TTL : UInt32 := 75 * 60

structure AvahiKey where
  name : CString
  clazz : UInt16
  type : UInt16
  deriving DecidableEq, Repr

/-- The members of the union of a record's data. -/
inductive RecordKind where
  | name
  | srv
  | hinfo
  | txt
  | a
  | aaaa
  | generic
  deriving DecidableEq, Repr

/-- The `switch` over the type of a record. -/
def recordKind (type : UInt16) : RecordKind :=
  if type = AVAHI_DNS_TYPE_PTR ∨ type = AVAHI_DNS_TYPE_CNAME ∨
      type = AVAHI_DNS_TYPE_NS then .name
  else if type = AVAHI_DNS_TYPE_SRV then .srv
  else if type = AVAHI_DNS_TYPE_HINFO then .hinfo
  else if type = AVAHI_DNS_TYPE_TXT then .txt
  else if type = AVAHI_DNS_TYPE_A then .a
  else if type = AVAHI_DNS_TYPE_AAAA then .aaaa
  else .generic

inductive RecordData : RecordKind → Type where
  | name (name : CString) : RecordData .name
  | srv (priority weight port : UInt16) (name : CString) : RecordData .srv
  | hinfo (cpu os : CString) : RecordData .hinfo
  | txt (stringList : AvahiStringList) : RecordData .txt
  | a (address : { bytes : List UInt8 // bytes.length = 4 }) : RecordData .a
  | aaaa (address : { bytes : List UInt8 // bytes.length = 16 }) : RecordData .aaaa
  | generic (data : { bytes : List UInt8 // bytes.length ≤ 65535 }) : RecordData .generic
  deriving DecidableEq

structure AvahiRecord where
  key : AvahiKey
  ttl : UInt32
  data : RecordData (recordKind key.type)
  deriving DecidableEq

/-- `avahi_key_new`. -/
def keyNew (name : CString) (clazz type : UInt16) : Created AvahiKey :=
  match normalizeNameStrdup name with
  | .ok name => .ok ⟨name, clazz, type⟩
  | .null => .null
  | .undefined => .undefined

/-- The TTL that `avahi_record_new` sets. -/
def recordTtl (ttl : UInt32) : UInt32 := if ttl ≠ 0xFFFFFFFF then ttl else AVAHI_DEFAULT_TTL

/-- `avahi_key_is_pattern`. -/
def AvahiKey.isPattern (k : AvahiKey) : Bool :=
  k.type = AVAHI_DNS_TYPE_ANY || k.clazz = AVAHI_DNS_CLASS_ANY

/-- `avahi_key_equal`. -/
def keyEqual (a b : AvahiKey) : Option Bool :=
  (domainEqual a.name b.name).map fun same => same && a.type = b.type && a.clazz = b.clazz

/-- `avahi_key_pattern_match`. -/
def keyPatternMatch (pattern k : AvahiKey) : Option Bool :=
  if k.isPattern then none
  else
    (domainEqual pattern.name k.name).map fun same =>
      same && (pattern.type = k.type || pattern.type = AVAHI_DNS_TYPE_ANY) &&
        (pattern.clazz = k.clazz || pattern.clazz = AVAHI_DNS_CLASS_ANY)

/-- `avahi_key_hash`. -/
def keyHash (k : AvahiKey) : Option UInt32 :=
  (domainHash k.name).map fun hash => hash + k.type.toUInt32 + k.clazz.toUInt32

/-- `rdata_equal` of records of one type. -/
def rdataEqual : {kind : RecordKind} → RecordData kind → RecordData kind → Option Bool
  | _, .name a, .name b => domainEqual a b
  | _, .srv priority weight port a, .srv priority' weight' port' b =>
      if priority = priority' ∧ weight = weight' ∧ port = port' then domainEqual a b
      else some false
  | _, .hinfo cpu os, .hinfo cpu' os' => some (cpu = cpu' && os = os')
  | _, .txt a, .txt b => some (a = b)
  | _, .a a, .a b => some (a = b)
  | _, .aaaa a, .aaaa b => some (a = b)
  | _, .generic a, .generic b => some (a = b)

/-- `avahi_record_equal_no_ttl`. -/
def recordEqualNoTtl (a b : AvahiRecord) : Option Bool :=
  match keyEqual a.key b.key with
  | none => none
  | some false => some false
  | some true =>
      if h : recordKind b.key.type = recordKind a.key.type then rdataEqual a.data (h ▸ b.data)
      else none

/-- `avahi_key_is_valid`. -/
def AvahiKey.isValid (k : AvahiKey) : Bool := isValidDomainName k.name

/-- The `switch` of `avahi_record_is_valid`. -/
def RecordData.isValid : {kind : RecordKind} → RecordData kind → Bool
  | _, .name target => isValidDomainName target
  | _, .srv _ _ _ target => isValidDomainName target
  | _, .hinfo cpu os => os.length ≤ 255 && cpu.length ≤ 255
  | _, .txt stringList => stringList.all fun text => !(text.length > 255 || text.length ≤ 0)
  | _, .a _ | _, .aaaa _ | _, .generic _ => true

/-- `avahi_record_is_valid`. -/
def AvahiRecord.isValid (r : AvahiRecord) : Bool := r.key.isValid && r.data.isValid

/-- `avahi_record_is_goodbye`. -/
def AvahiRecord.isGoodbye (r : AvahiRecord) : Bool := r.ttl = 0

/-- `avahi_key_get_estimate_size`. -/
def AvahiKey.estimateSize (k : AvahiKey) : Nat := k.name.length + 1 + 4

def RecordData.estimateSize : {kind : RecordKind} → RecordData kind → Nat
  | _, .name target => target.length + 1
  | _, .srv _ _ _ target => 6 + target.length + 1
  | _, .hinfo cpu os => os.length + 1 + cpu.length + 1
  | _, .txt stringList => stringList.serializedSize
  | _, .a _ => 4
  | _, .aaaa _ => 16
  | _, .generic data => data.val.length

/-- `avahi_record_get_estimate_size`. -/
def AvahiRecord.estimateSize (r : AvahiRecord) : Nat :=
  r.key.estimateSize + 4 + 2 + r.data.estimateSize

end NvmrDisplay.Avahi.Dns
