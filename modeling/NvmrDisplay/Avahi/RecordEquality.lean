import NvmrDisplay.Avahi.DnsRecord

/-!
The equality of keys and records, `avahi-core/rr.c`: which records the scheduler,
the cache and the browsers take for one another.
-/

namespace NvmrDisplay.Avahi.Dns

/-- What the comparison of names sees of a name. -/
def foldedName (s : CString) : List (List UInt8) := foldCase ((labelsOf s).getD [])

/-- The name in the data of a record. -/
def RecordData.target : {kind : RecordKind} → RecordData kind → CString
  | _, .name target => target
  | _, .srv _ _ _ target => target
  | _, .hinfo _ _ | _, .txt _ | _, .a _ | _, .aaaa _ | _, .generic _ => []

/-- The data of a record but for the name in it. -/
def RecordData.withoutTarget : {kind : RecordKind} → RecordData kind → RecordData kind
  | _, .name _ => .name []
  | _, .srv priority weight port _ => .srv priority weight port []
  | _, .hinfo cpu os => .hinfo cpu os
  | _, .txt stringList => .txt stringList
  | _, .a address => .a address
  | _, .aaaa address => .aaaa address
  | _, .generic data => .generic data

/-- What the comparison of records sees of a record: everything but the TTL and
the case of its names. -/
def AvahiRecord.folded (r : AvahiRecord) : List (List UInt8) × List (List UInt8) × AvahiRecord :=
  (foldedName r.key.name, foldedName r.data.target,
    { key := { r.key with name := [] }, ttl := 0, data := r.data.withoutTarget })

theorem domainEqual_folded {a b : CString} (ha : NormalName a) (hb : NormalName b) :
    domainEqual a b = some (decide (foldedName a = foldedName b)) := by
  obtain ⟨labels, hlabels, hproper⟩ := ha.isProperName
  obtain ⟨others, hothers, hother⟩ := hb.isProperName
  rw [domainEqual_eq hlabels hothers hproper hother, foldedName, foldedName, hlabels, hothers]
  rfl

/-- Keys are equal if they differ in the case of their names at most. -/
theorem keyEqual_folded {a b : AvahiKey} (ha : NormalName a.name) (hb : NormalName b.name) :
    keyEqual a b =
      some (decide (foldedName a.name = foldedName b.name ∧ a.type = b.type ∧
        a.clazz = b.clazz)) := by
  rw [keyEqual, domainEqual_folded ha hb, Option.map_some]
  simp only [Bool.decide_and, Bool.and_assoc]

theorem rdataEqual_folded {kind : RecordKind} {a b : RecordData kind} (ha : a.NormalNames)
    (hb : b.NormalNames) :
    rdataEqual a b = some (decide (foldedName a.target = foldedName b.target ∧
      a.withoutTarget = b.withoutTarget)) := by
  cases a with
  | name target =>
      cases b with
      | name other =>
          rw [rdataEqual, domainEqual_folded ha hb]
          simp [RecordData.target, RecordData.withoutTarget]
  | srv priority weight port target =>
      cases b with
      | srv priority' weight' port' other =>
          rw [rdataEqual, domainEqual_folded ha hb]
          by_cases hports : priority = priority' ∧ weight = weight' ∧ port = port'
          · rw [if_pos hports]
            obtain ⟨rfl, rfl, rfl⟩ := hports
            simp [RecordData.target, RecordData.withoutTarget]
          · rw [if_neg hports]
            simp only [RecordData.withoutTarget, RecordData.srv.injEq, and_true]
            rw [decide_eq_false fun h => hports h.2]
  | hinfo cpu os =>
      cases b with
      | hinfo cpu' os' => simp [rdataEqual, RecordData.target, RecordData.withoutTarget]
  | txt stringList =>
      cases b with
      | txt other => simp [rdataEqual, RecordData.target, RecordData.withoutTarget]
  | a address =>
      cases b with
      | a other => simp [rdataEqual, RecordData.target, RecordData.withoutTarget]
  | aaaa address =>
      cases b with
      | aaaa other => simp [rdataEqual, RecordData.target, RecordData.withoutTarget]
  | generic data =>
      cases b with
      | generic other => simp [rdataEqual, RecordData.target, RecordData.withoutTarget]

theorem folded_eq_iff {a b : AvahiRecord} :
    a.folded = b.folded ↔
      (foldedName a.key.name = foldedName b.key.name ∧ a.key.type = b.key.type ∧
        a.key.clazz = b.key.clazz) ∧
      ∃ h : recordKind b.key.type = recordKind a.key.type,
        foldedName a.data.target = foldedName (h ▸ b.data).target ∧
          a.data.withoutTarget = (h ▸ b.data).withoutTarget := by
  obtain ⟨⟨name, clazz, type⟩, ttl, data⟩ := a
  obtain ⟨⟨name', clazz', type'⟩, ttl', data'⟩ := b
  by_cases htype : type = type'
  · subst htype
    simp only [AvahiRecord.folded, Prod.mk.injEq, AvahiRecord.mk.injEq, AvahiKey.mk.injEq,
      heq_eq_eq, true_and, and_true, exists_true_left]
    constructor
    · rintro ⟨hname, htarget, hclazz, hdata⟩
      exact ⟨⟨hname, hclazz⟩, htarget, hdata⟩
    · rintro ⟨⟨hname, hclazz⟩, htarget, hdata⟩
      exact ⟨hname, htarget, hclazz, hdata⟩
  · constructor
    · intro h
      exact absurd (congrArg (fun view => view.2.2.key.type) h) htype
    · intro h
      exact absurd h.1.2.1 htype

/-- The comparison decides whether the records look the same. -/
theorem recordEqualNoTtl_folded {a b : AvahiRecord} (ha : a.Comparable) (hb : b.Comparable) :
    recordEqualNoTtl a b = some (decide (a.folded = b.folded)) := by
  rw [recordEqualNoTtl, keyEqual_folded ha.key hb.key]
  by_cases hkey : foldedName a.key.name = foldedName b.key.name ∧ a.key.type = b.key.type ∧
      a.key.clazz = b.key.clazz
  · have hkind : recordKind b.key.type = recordKind a.key.type := by rw [hkey.2.1]
    rw [decide_eq_true hkey]
    simp only
    rw [dif_pos hkind, rdataEqual_folded ha.data (hb.data.cast hkind)]
    congr 1
    rw [decide_eq_decide, folded_eq_iff]
    constructor
    · intro hdata
      exact ⟨hkey, hkind, hdata⟩
    · rintro ⟨_, _, hdata⟩
      exact hdata
  · rw [decide_eq_false hkey, decide_eq_false fun h => hkey (folded_eq_iff.mp h).1]

theorem keyHash_folded {k : AvahiKey} (h : NormalName k.name) :
    keyHash k = some ((foldedName k.name).flatten.foldl hashByte 0 + k.type.toUInt32 +
      k.clazz.toUInt32) := by
  obtain ⟨labels, hlabels, _⟩ := h.isProperName
  rw [keyHash, domainHash_eq hlabels, Option.map_some, foldedName, hlabels, Option.getD_some,
    ← foldl_hashByte_lower labels.flatten, foldCase, List.map_flatten]

/-- Equal keys have equal hashes. -/
theorem keyHash_eq_of_keyEqual {a b : AvahiKey} (ha : NormalName a.name) (hb : NormalName b.name)
    (h : keyEqual a b = some true) : keyHash a = keyHash b := by
  rw [keyEqual_folded ha hb, Option.some_inj, decide_eq_true_eq] at h
  rw [keyHash_folded ha, keyHash_folded hb, h.1, h.2.1, h.2.2]

/-- A key as the schedulers and the cache have it: its name is in normal form, so
that it can be compared. -/
structure NormalKey where
  key : AvahiKey
  normal : NormalName key.name
  deriving DecidableEq

/-- Keys that are not told apart. -/
abbrev KeyClass := List (List UInt8) × UInt16 × UInt16

namespace NormalKey

/-- `avahi_key_equal` of such keys. -/
def same (a b : NormalKey) : Bool := keyEqual a.key b.key = some true

def cls (k : NormalKey) : KeyClass := (foldedName k.key.name, k.key.type, k.key.clazz)

theorem same_iff {a b : NormalKey} : a.same b = true ↔ a.cls = b.cls := by
  rw [same, keyEqual_folded a.normal b.normal, decide_eq_true_eq, Option.some_inj,
    decide_eq_true_eq, cls, cls, Prod.mk.injEq, Prod.mk.injEq]

end NormalKey

/-- A record as the scheduler and the cache have it: its names are in normal
form, so that it can be compared. -/
structure NormalRecord where
  record : AvahiRecord
  comparable : record.Comparable
  deriving DecidableEq

namespace NormalRecord

/-- `avahi_record_equal_no_ttl` of such records. -/
def same (a b : NormalRecord) : Bool := recordEqualNoTtl a.record b.record = some true

def ttl (r : NormalRecord) : UInt32 := r.record.ttl

def isGoodbye (r : NormalRecord) : Bool := r.record.isGoodbye

/-- No assertion of the comparison fails. -/
theorem recordEqualNoTtl_eq (a b : NormalRecord) :
    recordEqualNoTtl a.record b.record = some (a.same b) := by
  rw [same, recordEqualNoTtl_folded a.comparable b.comparable]
  simp

theorem same_iff {a b : NormalRecord} : a.same b = true ↔ a.record.folded = b.record.folded := by
  have hfolded := recordEqualNoTtl_folded a.comparable b.comparable
  rw [Option.some.inj ((recordEqualNoTtl_eq a b).symm.trans hfolded), decide_eq_true_eq]

def key (r : NormalRecord) : NormalKey := ⟨r.record.key, r.comparable.key⟩

end NormalRecord

/-- Records that may be posted, and cached, are no patterns. -/
structure PostedRecord extends NormalRecord where
  noPattern : record.key.isPattern = false

/-- Records that are not told apart. -/
abbrev RecordClass := List (List UInt8) × List (List UInt8) × AvahiRecord

def NormalRecord.cls (r : NormalRecord) : RecordClass := r.record.folded

end NvmrDisplay.Avahi.Dns
