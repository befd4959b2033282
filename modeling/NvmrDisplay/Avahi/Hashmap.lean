import NvmrDisplay.Avahi.RecordEquality
import NvmrDisplay.Lib.Keyed
import Mathlib.Logic.Function.Basic

/-!
The hash table of `avahi-core/hashmap.c`. An entry is in the list of its bucket
and in the list of all entries. Keys that the table does not tell apart have one
entry, so the table is a finite map from classes of keys.
-/

namespace NvmrDisplay.Avahi.Dns

open Lib

abbrev HASH_MAP_SIZE : Nat := 123

/-- An entry is identified by its address in the source. -/
structure HashmapEntry (κ ν : Type) where
  address : Nat
  key : κ
  value : ν

def HashmapEntry.cls {κ ν γ : Type} (cls : κ → γ) (e : HashmapEntry κ ν) : γ := cls e.key

structure AvahiHashmap (κ ν : Type) where
  hashFunc : κ → UInt32
  equalFunc : κ → κ → Bool
  entries : Nat → List (HashmapEntry κ ν)
  entriesList : List (HashmapEntry κ ν)
  nextAddress : Nat

namespace AvahiHashmap

variable {κ ν : Type}

section Functions

variable (m : AvahiHashmap κ ν)

/-- `avahi_hashmap_new`. -/
def new (hashFunc : κ → UInt32) (equalFunc : κ → κ → Bool) : AvahiHashmap κ ν :=
  ⟨hashFunc, equalFunc, fun _ => [], [], 0⟩

def bucket (key : κ) : Nat := (m.hashFunc key).toNat % HASH_MAP_SIZE

/-- `entry_get`. -/
def entryGet (key : κ) : Option (HashmapEntry κ ν) :=
  (m.entries (m.bucket key)).find? fun e => m.equalFunc key e.key

/-- `entry_free`. -/
def entryFree (e : HashmapEntry κ ν) : AvahiHashmap κ ν :=
  { m with
    entries := Function.update m.entries (m.bucket e.key)
      ((m.entries (m.bucket e.key)).filter fun other => other.address ≠ e.address)
    entriesList := m.entriesList.filter fun other => other.address ≠ e.address }

/-- `avahi_hashmap_lookup`. -/
def lookup (key : κ) : Option ν := (m.entryGet key).map fun e => e.value

/-- A new entry, at the front of both lists. -/
def prepend (key : κ) (value : ν) : AvahiHashmap κ ν :=
  let e : HashmapEntry κ ν := ⟨m.nextAddress, key, value⟩
  { m with
    entries := Function.update m.entries (m.bucket key) (e :: m.entries (m.bucket key))
    entriesList := e :: m.entriesList
    nextAddress := m.nextAddress + 1 }

/-- `avahi_hashmap_insert`, which keeps an entry that is there, and says so. -/
def insert (key : κ) (value : ν) : AvahiHashmap κ ν × Bool :=
  match m.entryGet key with
  | some _ => (m, true)
  | none => (m.prepend key value, false)

/-- `avahi_hashmap_replace`, which writes to an entry that is there, and says so. -/
def replace (key : κ) (value : ν) : AvahiHashmap κ ν × Bool :=
  match m.entryGet key with
  | some e =>
      let write (other : HashmapEntry κ ν) : HashmapEntry κ ν :=
        if other.address = e.address then ⟨e.address, key, value⟩ else other
      ({ m with
        entries := fun bucket => (m.entries bucket).map write
        entriesList := m.entriesList.map write }, true)
  | none => (m.prepend key value, false)

/-- `avahi_hashmap_remove`. -/
def remove (key : κ) : AvahiHashmap κ ν :=
  match m.entryGet key with
  | some e => m.entryFree e
  | none => m

/-- What `avahi_hashmap_foreach` calls back with. -/
def foreach : List (κ × ν) := m.entriesList.map fun e => (e.key, e.value)

end Functions

section Table

variable {γ : Type} [DecidableEq γ] {cls : κ → γ} {m : AvahiHashmap κ ν}

/-- What a table always is. `cls` says which keys are not told apart. -/
structure Wf (cls : κ → γ) (m : AvahiHashmap κ ν) : Prop where
  equal : ∀ a b, m.equalFunc a b = decide (cls a = cls b)
  hash : ∀ a b, cls a = cls b → m.hashFunc a = m.hashFunc b
  buckets : ∀ i, m.entries i = m.entriesList.filter fun e => m.bucket e.key = i
  addresses : Distinct HashmapEntry.address m.entriesList
  fresh : ∀ e ∈ m.entriesList, e.address < m.nextAddress
  keys : Distinct (HashmapEntry.cls cls) m.entriesList

/-- The finite map that a table is. -/
def contents (cls : κ → γ) (m : AvahiHashmap κ ν) (c : γ) : Option (κ × ν) :=
  (lookupBy (HashmapEntry.cls cls) c m.entriesList).map fun e => (e.key, e.value)

theorem new_wf {hashFunc : κ → UInt32} {equalFunc : κ → κ → Bool}
    (hequal : ∀ a b, equalFunc a b = decide (cls a = cls b))
    (hhash : ∀ a b, cls a = cls b → hashFunc a = hashFunc b) :
    (new hashFunc equalFunc : AvahiHashmap κ ν).Wf cls :=
  ⟨hequal, hhash, fun _ => rfl, distinct_nil, fun _ he => absurd he List.not_mem_nil,
    distinct_nil⟩

/-- Keys that are not told apart are in one bucket. -/
theorem Wf.bucket_eq (h : m.Wf cls) {a b : κ} (hcls : cls a = cls b) :
    m.bucket a = m.bucket b := by
  rw [bucket, h.hash a b hcls, bucket]

/-- Looking into one bucket finds what is in the table. -/
theorem Wf.entryGet_eq (h : m.Wf cls) (key : κ) :
    m.entryGet key = lookupBy (HashmapEntry.cls cls) (cls key) m.entriesList := by
  rw [entryGet, h.buckets, List.find?_filter, lookupBy]
  congr 1
  funext e
  rw [h.equal]
  by_cases hcls : cls key = cls e.key
  · have hsame : m.bucket e.key = m.bucket key := h.bucket_eq hcls.symm
    have hentry : e.cls cls = cls key := hcls.symm
    rw [decide_eq_true hentry]
    exact decide_eq_true ⟨decide_eq_true hsame, decide_eq_true hcls⟩
  · have hentry : e.cls cls ≠ cls key := fun hsame => hcls hsame.symm
    rw [decide_eq_false hentry]
    exact decide_eq_false fun hboth => hcls (of_decide_eq_true hboth.2)

theorem Wf.contents_eq (h : m.Wf cls) (key : κ) :
    m.contents cls (cls key) = (m.entryGet key).map fun e => (e.key, e.value) := by
  rw [contents, h.entryGet_eq]

theorem Wf.lookup_eq (h : m.Wf cls) (key : κ) :
    m.lookup key = (m.contents cls (cls key)).map Prod.snd := by
  rw [lookup, h.contents_eq, Option.map_map]
  rfl

/-- A new entry, for a key that the table does not have. -/
theorem Wf.prepend (h : m.Wf cls) {key : κ} (hnone : m.entryGet key = none) (value : ν) :
    (m.prepend key value).Wf cls ∧
      (m.prepend key value).contents cls =
        Function.update (m.contents cls) (cls key) (some (key, value)) := by
  rw [h.entryGet_eq] at hnone
  refine ⟨⟨h.equal, h.hash, ?_, ?_, ?_, ?_⟩, ?_⟩
  · intro i
    have hbucket (other : κ) : (m.prepend key value).bucket other = m.bucket other := rfl
    simp only [hbucket]
    rw [AvahiHashmap.prepend, List.filter_cons]
    by_cases hi : i = m.bucket key
    · subst hi
      simp only [Function.update_self, h.buckets, decide_true, if_true]
    · simp only [Function.update_of_ne hi, h.buckets, decide_eq_false (Ne.symm hi)]
      rfl
  · apply distinct_cons.mpr ⟨_, h.addresses⟩
    intro other hother
    have hlt := h.fresh other hother
    exact Nat.ne_of_lt hlt
  · intro other hother
    rcases List.mem_cons.mp hother with rfl | hother
    · exact Nat.lt_succ_self _
    · exact Nat.lt_succ_of_lt (h.fresh other hother)
  · exact distinct_cons.mpr ⟨lookupBy_eq_none.mp hnone, h.keys⟩
  · funext c
    rw [contents, AvahiHashmap.prepend]
    simp only
    rw [lookupBy_cons, Function.update_apply]
    have hfirst :
        HashmapEntry.cls cls (⟨m.nextAddress, key, value⟩ : HashmapEntry κ ν) = cls key := rfl
    rw [hfirst]
    by_cases hc : c = cls key
    · rw [if_pos hc, if_pos hc.symm]
      rfl
    · rw [if_neg hc, if_neg (Ne.symm hc), contents]

/-- Inserting keeps what is there. -/
theorem Wf.insert (h : m.Wf cls) (key : κ) (value : ν) :
    (m.insert key value).1.Wf cls ∧
      (m.insert key value).1.contents cls =
        Function.update (m.contents cls) (cls key)
          (some ((m.contents cls (cls key)).getD (key, value))) := by
  rw [AvahiHashmap.insert]
  cases hfound : m.entryGet key with
  | none =>
      rw [h.contents_eq, hfound]
      exact h.prepend hfound value
  | some e =>
      have hsome : m.contents cls (cls key) = some (e.key, e.value) := by
        rw [h.contents_eq, hfound, Option.map_some]
      refine ⟨h, ?_⟩
      rw [hsome, Option.getD_some, ← hsome, Function.update_eq_self]

/-- Replacing writes the key and the value. -/
theorem Wf.replace (h : m.Wf cls) (key : κ) (value : ν) :
    (m.replace key value).1.Wf cls ∧
      (m.replace key value).1.contents cls =
        Function.update (m.contents cls) (cls key) (some (key, value)) := by
  rw [AvahiHashmap.replace]
  cases hfound : m.entryGet key with
  | none => exact h.prepend hfound value
  | some e =>
      rw [h.entryGet_eq] at hfound
      obtain ⟨he, hcls⟩ := mem_of_lookupBy hfound
      simp only
      generalize hnew : (⟨e.address, key, value⟩ : HashmapEntry κ ν) = new
      have haddress : new.address = e.address := hnew ▸ rfl
      have hkey : new.cls cls = e.cls cls := by
        rw [hcls, ← hnew]
        rfl
      have hwrite :
          (fun other : HashmapEntry κ ν => if other.address = e.address then new else other) =
          fun other => if other.address = new.address then new else other := by rw [haddress]
      have hbuckets : ∀ other ∈ m.entriesList,
          m.bucket (if other.address = new.address then new else other).key =
            m.bucket other.key := by
        intro other hother
        exact h.bucket_eq (h.addresses.key_replace he haddress hkey other hother)
      rw [hwrite]
      refine ⟨⟨h.equal, h.hash, ?_, ?_, ?_, ?_⟩, ?_⟩
      · intro i
        have hbucket (other : κ) : bucket { m with
            entries := fun bucket => (m.entries bucket).map fun other =>
              if other.address = new.address then new else other
            entriesList := m.entriesList.map fun other =>
              if other.address = new.address then new else other } other = m.bucket other := rfl
        simp only [hbucket]
        rw [h.buckets, List.filter_map]
        apply congrArg
        apply List.filter_congr
        intro other hother
        rw [Function.comp_apply, hbuckets other hother]
      · rw [Distinct, h.addresses.map_replace he haddress haddress]
        exact h.addresses
      · intro other hother
        rcases mem_replace hother with rfl | hother
        · exact haddress ▸ h.fresh e he
        · exact h.fresh other hother
      · rw [Distinct, h.addresses.map_replace he haddress hkey]
        exact h.keys
      · funext c
        rw [contents, h.addresses.lookupBy_replace h.keys he haddress hkey,
          Function.update_apply, hcls]
        split
        · rw [← hnew]
          rfl
        · rfl

/-- Freeing an entry leaves the others in their buckets. -/
theorem Wf.buckets_entryFree (h : m.Wf cls) {e : HashmapEntry κ ν} (he : e ∈ m.entriesList)
    (i : Nat) : (m.entryFree e).entries i =
      (m.entryFree e).entriesList.filter fun other => m.bucket other.key = i := by
  rw [entryFree]
  by_cases hi : i = m.bucket e.key
  · subst hi
    simp only [Function.update_self]
    rw [h.buckets, List.filter_comm]
  · simp only [Function.update_of_ne hi]
    rw [h.buckets, List.filter_filter]
    apply List.filter_congr
    intro other hother
    by_cases hother' : m.bucket other.key = i
    · have hne : other.address ≠ e.address := by
        intro hsame
        exact hi (hother'.symm.trans (by rw [h.addresses.eq hother he hsame]))
      rw [decide_eq_true hother', decide_eq_true hne]
      rfl
    · rw [decide_eq_false hother', Bool.false_and]

theorem Wf.entryFree (h : m.Wf cls) {e : HashmapEntry κ ν} (he : e ∈ m.entriesList) :
    (m.entryFree e).Wf cls := by
  have hsublist : (m.entryFree e).entriesList.Sublist m.entriesList := List.filter_sublist
  exact ⟨h.equal, h.hash, h.buckets_entryFree he, h.addresses.sublist hsublist,
    fun other hother => h.fresh other (hsublist.mem hother), h.keys.sublist hsublist⟩

theorem Wf.contents_entryFree (h : m.Wf cls) {e : HashmapEntry κ ν} (he : e ∈ m.entriesList) :
    (m.entryFree e).contents cls = Function.update (m.contents cls) (e.cls cls) none := by
  funext c
  have hlookup := h.addresses.lookupBy_remove h.keys he c
  rw [contents, AvahiHashmap.entryFree, hlookup, Function.update_apply]
  split
  · rfl
  · rfl

theorem Wf.remove (h : m.Wf cls) (key : κ) :
    (m.remove key).Wf cls ∧
      (m.remove key).contents cls = Function.update (m.contents cls) (cls key) none := by
  rw [AvahiHashmap.remove]
  cases hfound : m.entryGet key with
  | none =>
      have hnone : m.contents cls (cls key) = none := by
        rw [h.contents_eq, hfound, Option.map_none]
      refine ⟨h, ?_⟩
      rw [← hnone, Function.update_eq_self]
  | some e =>
      rw [h.entryGet_eq] at hfound
      obtain ⟨he, hcls⟩ := mem_of_lookupBy hfound
      rw [← hcls]
      exact ⟨h.entryFree he, h.contents_entryFree he⟩

end Table

end AvahiHashmap

/-- What is done to a table. -/
inductive HashmapOp (κ ν : Type) where
  | insert (key : κ) (value : ν)
  | replace (key : κ) (value : ν)
  | remove (key : κ)

def HashmapOp.apply {κ ν : Type} (m : AvahiHashmap κ ν) : HashmapOp κ ν → AvahiHashmap κ ν
  | .insert key value => (m.insert key value).1
  | .replace key value => (m.replace key value).1
  | .remove key => m.remove key

/-- What is done to a finite map from classes of keys. -/
def HashmapOp.spec {κ ν γ : Type} [DecidableEq γ] (cls : κ → γ)
    (map : γ → Option (κ × ν)) :
    HashmapOp κ ν → γ → Option (κ × ν)
  | .insert key value => Function.update map (cls key) (some ((map (cls key)).getD (key, value)))
  | .replace key value => Function.update map (cls key) (some (key, value))
  | .remove key => Function.update map (cls key) none

namespace AvahiHashmap

variable {κ ν γ : Type} [DecidableEq γ] {cls : κ → γ} {m : AvahiHashmap κ ν}

theorem Wf.apply (h : m.Wf cls) (op : HashmapOp κ ν) :
    (op.apply m).Wf cls ∧ (op.apply m).contents cls = op.spec cls (m.contents cls) := by
  cases op with
  | insert key value => exact h.insert key value
  | replace key value => exact h.replace key value
  | remove key => exact h.remove key

/-- Whatever is done to it, the table is the finite map. -/
theorem Wf.foldl (h : m.Wf cls) (ops : List (HashmapOp κ ν)) :
    (ops.foldl HashmapOp.apply m).Wf cls ∧
      (ops.foldl HashmapOp.apply m).contents cls =
        ops.foldl (HashmapOp.spec cls) (m.contents cls) := by
  induction ops generalizing m with
  | nil => exact ⟨h, rfl⟩
  | cons op ops ih =>
      obtain ⟨hop, hcontents⟩ := h.apply op
      obtain ⟨hall, hmap⟩ := ih hop
      exact ⟨hall, by rw [List.foldl_cons, List.foldl_cons, hmap, hcontents]⟩

/-- Each entry is enumerated once. -/
theorem Wf.foreach (h : m.Wf cls) :
    ((m.foreach.map fun entry => cls entry.1).Nodup) ∧
      ∀ key value, (key, value) ∈ m.foreach ↔
        m.contents cls (cls key) = some (key, value) := by
  constructor
  · rw [AvahiHashmap.foreach, List.map_map]
    exact h.keys
  · intro key value
    rw [AvahiHashmap.foreach, List.mem_map, contents, Option.map_eq_some_iff]
    constructor
    · rintro ⟨e, he, hpair⟩
      obtain ⟨rfl, rfl⟩ := Prod.mk.inj hpair
      exact ⟨e, h.keys.lookupBy_eq.mpr ⟨he, rfl⟩, rfl⟩
    · rintro ⟨e, he, hpair⟩
      exact ⟨e, (mem_of_lookupBy he).1, hpair⟩

end AvahiHashmap

/-- `avahi_key_hash` of a key whose name can be read. -/
def NormalKey.hash (k : NormalKey) : UInt32 := (keyHash k.key).getD 0

/-- No assertion of the hash function fails. -/
theorem NormalKey.keyHash_eq (k : NormalKey) : keyHash k.key = some k.hash := by
  rw [hash, keyHash_folded k.normal]
  rfl

/-- The tables of keys, as the cache, the lookups and the queriers have them. -/
def newKeyHashmap (ν : Type) : AvahiHashmap NormalKey ν := .new NormalKey.hash NormalKey.same

theorem newKeyHashmap_wf (ν : Type) : (newKeyHashmap ν).Wf NormalKey.cls := by
  apply AvahiHashmap.new_wf
  · intro a b
    rw [Bool.eq_iff_iff, NormalKey.same_iff, decide_eq_true_eq]
  · intro a b hcls
    have hsame : keyEqual a.key b.key = some true := of_decide_eq_true (NormalKey.same_iff.mpr hcls)
    rw [NormalKey.hash, keyHash_eq_of_keyEqual a.normal b.normal hsame, NormalKey.hash]

/-- Whatever is done to a table of keys, it is a finite map from keys up to the case
of their names: looking up finds what was stored last, and each entry is
enumerated once, with the key it was stored with. -/
theorem keyHashmap_refines {ν : Type} (ops : List (HashmapOp NormalKey ν)) :
    let table := ops.foldl HashmapOp.apply (newKeyHashmap ν)
    let map := ops.foldl (HashmapOp.spec NormalKey.cls) fun _ => none
    (∀ key, table.lookup key = (map key.cls).map Prod.snd) ∧
      (table.foreach.map fun entry => entry.1.cls).Nodup ∧
      ∀ key value, (key, value) ∈ table.foreach ↔ map key.cls = some (key, value) := by
  obtain ⟨hwf, hcontents⟩ := (newKeyHashmap_wf ν).foldl ops
  have hempty : (newKeyHashmap ν).contents NormalKey.cls = fun _ => none := rfl
  rw [hempty] at hcontents
  obtain ⟨hnodup, hmem⟩ := hwf.foreach
  rw [hcontents] at hmem
  refine ⟨fun key => ?_, hnodup, hmem⟩
  rw [hwf.lookup_eq, hcontents]

end NvmrDisplay.Avahi.Dns
