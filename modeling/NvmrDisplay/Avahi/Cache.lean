import NvmrDisplay.Avahi.Hashmap
import NvmrDisplay.Avahi.QuerySched
import NvmrDisplay.Discover.EmbeddedAvahiBrowse
import NvmrDisplay.Lib.Machine

/-!
The cache of an interface, `avahi-core/cache.c`. An entry is in the list of all
entries and in the list of its key, which a hash table finds. The cache tells
subscribers what is new and what is gone. Times are in microseconds.
-/

namespace NvmrDisplay.Avahi.Dns

open Lib
open Discover (AvahiAddress)

inductive AvahiCacheEntryState where
  | valid
  | expiry1
  | expiry2
  | expiry3
  | expiryFinal
  | poof
  | poofFinal
  | goodbyeFinal
  | replaceFinal
  deriving DecidableEq

/-- An entry is identified by its address in the source, and its time event
elapses at its expiry. What begins with `poof` is not read before it is written. -/
structure AvahiCacheEntry where
  address : Nat
  record : PostedRecord
  timestamp : Nat
  expiry : Nat
  state : AvahiCacheEntryState
  cacheFlush : Bool
  origin : AvahiAddress
  poofTimestamp : Nat
  poofAddress : AvahiAddress
  poofNum : Nat

/-- What subscribers are told, and the queries that refresh a record. -/
inductive CacheEvent where
  | new (record : PostedRecord)
  | remove (record : PostedRecord)
  | query (key : NormalKey)

/-- The hash table has the addresses in the list of a key. `log` is a history
variable, oldest first, that nothing here reads. -/
structure AvahiCache where
  hashmap : AvahiHashmap NormalKey (List Nat)
  entries : List AvahiCacheEntry
  nEntries : Nat
  nextAddress : Nat
  log : List CacheEvent

/-- The random part of an expiry, `(right-left) * c->last_rand / (RAND_MAX+1.0)`. -/
abbrev Spread := { spread : Nat → Nat // ∀ width, spread width ≤ width }

namespace AvahiCacheEntry

def key (e : AvahiCacheEntry) : NormalKey := e.record.key

def keyCls (e : AvahiCacheEntry) : KeyClass := e.key.cls

def cls (e : AvahiCacheEntry) : RecordClass := e.record.cls

/-- `next_expiry`. -/
def nextExpiry (e : AvahiCacheEntry) (spread : Spread) (percent : Nat) : AvahiCacheEntry :=
  let usec := e.record.ttl.toNat * 10000
  { e with expiry := e.timestamp + (usec * percent + spread.val (usec * 2)) }

/-- `expire_in_one_second`. -/
def expireInOneSecond (e : AvahiCacheEntry) (now : Nat) (state : AvahiCacheEntryState) :
    AvahiCacheEntry := { e with state, expiry := now + 1000000 }

/-- `start_poof_callback`. -/
def startPoof (e : AvahiCacheEntry) (now : Nat) (a : AvahiAddress) : AvahiCacheEntry :=
  match e.state with
  | .valid => { e with state := .poof, poofAddress := a, poofTimestamp := now, poofNum := 0 }
  | .poof =>
      if now - e.poofTimestamp < 1000000 then e
      else
        let e := { e with poofTimestamp := now, poofAddress := a, poofNum := e.poofNum + 1 }
        if e.poofNum > 3 then e.expireInOneSecond now .poofFinal else e
  | _ => e

/-- `avahi_cache_stop_poof`, of the entry it finds. -/
def stopPoof (e : AvahiCacheEntry) (spread : Spread) (a : AvahiAddress) : AvahiCacheEntry :=
  if (e.state = .poof ∨ e.state = .poofFinal) ∧ a = e.poofAddress then
    { e with state := .valid }.nextExpiry spread 80
  else e

/-- The end of `avahi_cache_update`: what becomes of an entry that is heard. -/
def heard (e : AvahiCacheEntry) (now : Nat) (spread : Spread) (cacheFlush : Bool)
    (a : AvahiAddress) : AvahiCacheEntry :=
  { { e with origin := a, timestamp := now }.nextExpiry spread 80 with state := .valid, cacheFlush }

/-- `avahi_cache_entry_half_ttl`. -/
def halfTtl (e : AvahiCacheEntry) (now : Nat) : Bool :=
  (now - e.timestamp) / 1000000 % 2 ^ 32 ≥ e.record.ttl.toNat / 2

end AvahiCacheEntry

/-- The `switch` of `elapse_func`: the next state and the part of the TTL at which
it ends, or none when the entry is removed. -/
def AvahiCacheEntryState.next : AvahiCacheEntryState → Option (AvahiCacheEntryState × Nat)
  | .expiryFinal | .poofFinal | .goodbyeFinal | .replaceFinal => none
  | .valid | .poof => some (.expiry1, 85)
  | .expiry1 => some (.expiry2, 90)
  | .expiry2 => some (.expiry3, 95)
  | .expiry3 => some (.expiryFinal, 100)

namespace AvahiCache

/-- `avahi_cache_new`. -/
def new : AvahiCache := ⟨newKeyHashmap (List Nat), [], 0, 0, []⟩

variable (c : AvahiCache)

def entryAt (address : Nat) : Option AvahiCacheEntry :=
  c.entries.find? fun e => e.address = address

/-- The list that begins with the entry `lookup_key` returns. -/
def lookupKey (k : NormalKey) : List Nat := (c.hashmap.lookup k).getD []

def byKey (k : NormalKey) : List AvahiCacheEntry := (c.lookupKey k).filterMap c.entryAt

/-- The entries `avahi_cache_walk` visits. -/
def walk (pattern : NormalKey) : List AvahiCacheEntry :=
  if pattern.key.isPattern then
    c.entries.filter fun e => keyPatternMatch pattern.key e.key.key = some true
  else c.byKey pattern

/-- `lookup_record`. -/
def lookupRecord (r : PostedRecord) : Option AvahiCacheEntry :=
  (c.walk r.key).find? fun e => e.record.same r.toNormalRecord

/-- What is written to the entries. -/
def modify (f : AvahiCacheEntry → AvahiCacheEntry) : AvahiCache :=
  { c with entries := c.entries.map f }

/-- What is written to one entry. -/
def setEntry (e : AvahiCacheEntry) : AvahiCache :=
  c.modify fun other => if other.address = e.address then e else other

/-- `remove_entry`. -/
def removeEntry (e : AvahiCacheEntry) : AvahiCache :=
  let t := (c.lookupKey e.key).filter fun address => address ≠ e.address
  { c with
    hashmap :=
      match t.head?.bind c.entryAt with
      | some first => (c.hashmap.replace first.key t).1
      | none => c.hashmap.remove e.key
    entries := c.entries.filter fun other => other.address ≠ e.address
    nEntries := c.nEntries - 1
    log := c.log ++ [.remove e.record] }

/-- `elapse_func` of an entry. -/
def elapseFunc (spread : Spread) (subscribed : NormalKey → Bool) (e : AvahiCacheEntry) :
    AvahiCache :=
  match e.state.next with
  | none => c.removeEntry e
  | some (state, percent) =>
      { c.setEntry ({ e with state }.nextExpiry spread percent) with
        log := if subscribed e.key then c.log ++ [.query e.key] else c.log }

/-- The loop that lets unique records replace all that are older than a second. -/
def dropOld (now : Nat) (k : NormalKey) : AvahiCache :=
  c.modify fun e =>
    if e.address ∈ c.lookupKey k ∧ now > e.timestamp + 1000000 then
      e.expireInOneSecond now .replaceFinal
    else e

/-- A new entry at the front of both lists. -/
def prepend (e : AvahiCacheEntry) : AvahiCache :=
  { c with
    hashmap := (c.hashmap.replace e.key (e.address :: c.lookupKey e.key)).1
    entries := e :: c.entries
    nEntries := c.nEntries + 1
    nextAddress := c.nextAddress + 1
    log := c.log ++ [.new e.record] }

/-- The record of an entry is replaced. The table has the key of the first entry
of a list, so the key there is replaced too. -/
def setRecord (e : AvahiCacheEntry) : AvahiCache :=
  { c.setEntry e with
    hashmap :=
      if (c.lookupKey e.key).head? = some e.address then
        (c.hashmap.replace e.key (c.lookupKey e.key)).1
      else c.hashmap }

/-- `avahi_cache_update` with a record that is no goodbye. -/
def store (max now : Nat) (spread : Spread) (r : PostedRecord) (cacheFlush : Bool)
    (a : AvahiAddress) : AvahiCache :=
  match (c.byKey r.key).find? fun e => e.record.same r.toNormalRecord with
  | some e => c.setRecord ({ e with record := r }.heard now spread cacheFlush a)
  | none =>
      if c.nEntries ≥ max then c
      else
        let e : AvahiCacheEntry :=
          ⟨c.nextAddress, r, now, now, .valid, cacheFlush, a, now, a, 0⟩
        c.prepend (e.heard now spread cacheFlush a)

/-- `avahi_cache_update`. -/
def update (max now : Nat) (spread : Spread) (r : PostedRecord) (cacheFlush : Bool)
    (a : AvahiAddress) : AvahiCache :=
  if r.ttl = 0 then
    match c.lookupRecord r with
    | some e => c.setEntry (e.expireInOneSecond now .goodbyeFinal)
    | none => c
  else if cacheFlush then (c.dropOld now r.key).store max now spread r cacheFlush a
  else c.store max now spread r cacheFlush a

/-- `avahi_cache_flush`, which always removes the first entry. -/
def flush : AvahiCache := c.entries.foldl removeEntry c

/-- `avahi_cache_start_poof`. -/
def startPoof (now : Nat) (k : NormalKey) (a : AvahiAddress) : AvahiCache :=
  c.modify fun e =>
    if (c.walk k).any fun other => other.address = e.address then e.startPoof now a else e

/-- `avahi_cache_stop_poof`. -/
def stopPoof (spread : Spread) (r : PostedRecord) (a : AvahiAddress) : AvahiCache :=
  match c.lookupRecord r with
  | some e => c.setEntry (e.stopPoof spread a)
  | none => c

/-- What `known_answer_walk_callback` collects. -/
def knownAnswers (now : Nat) : CacheWalk := fun key =>
  ((c.walk key).filter fun e => !e.halfTtl now).map fun e => e.record.record

end AvahiCache

/-- What calls the cache: the server, and the event loop when an entry expires. -/
inductive CacheInput where
  | update (spread : Spread) (record : PostedRecord) (cacheFlush : Bool) (origin : AvahiAddress)
  | elapse (spread : Spread) (subscribed : NormalKey → Bool) (address : Nat)
  | flush
  | startPoof (key : NormalKey) (querier : AvahiAddress)
  | stopPoof (spread : Spread) (record : PostedRecord) (querier : AvahiAddress)

structure CacheHost where
  cache : AvahiCache
  now : Nat

namespace CacheHost

/-- What happens at a time. A time event does not elapse before its time. -/
def step (max : Nat) (host : CacheHost) (event : Nat × CacheInput) : Option CacheHost :=
  let (now, input) := event
  if now < host.now then none
  else
    match input with
    | .update spread record cacheFlush origin =>
        some ⟨host.cache.update max now spread record cacheFlush origin, now⟩
    | .elapse spread subscribed address =>
        match host.cache.entryAt address with
        | some e =>
            if e.expiry ≤ now then some ⟨host.cache.elapseFunc spread subscribed e, now⟩
            else none
        | none => none
    | .flush => some ⟨host.cache.flush, now⟩
    | .startPoof key querier => some ⟨host.cache.startPoof now key querier, now⟩
    | .stopPoof spread record querier => some ⟨host.cache.stopPoof spread record querier, now⟩

/-- At most `max` records are cached. -/
def machine (max : Nat) : Machine CacheHost (Nat × CacheInput) := ⟨⟨.new, 0⟩, step max⟩

end CacheHost

namespace AvahiCacheEntry

theorem startPoof_kept (e : AvahiCacheEntry) (now : Nat) (a : AvahiAddress) :
    (e.startPoof now a).address = e.address ∧ (e.startPoof now a).record = e.record := by
  rw [startPoof]
  split
  · exact ⟨rfl, rfl⟩
  · split
    · exact ⟨rfl, rfl⟩
    · simp only
      split
      · exact ⟨rfl, rfl⟩
      · exact ⟨rfl, rfl⟩
  · exact ⟨rfl, rfl⟩

theorem stopPoof_kept (e : AvahiCacheEntry) (spread : Spread) (a : AvahiAddress) :
    (e.stopPoof spread a).address = e.address ∧ (e.stopPoof spread a).record = e.record := by
  rw [stopPoof]
  split
  · exact ⟨rfl, rfl⟩
  · exact ⟨rfl, rfl⟩

end AvahiCacheEntry

/-- Records that are not told apart have keys that are not told apart. -/
theorem NormalRecord.key_cls_of_cls {a b : NormalRecord} (h : a.cls = b.cls) :
    a.key.cls = b.key.cls := by
  obtain ⟨⟨hname, htype, hclazz⟩, _⟩ := folded_eq_iff.mp h
  rw [NormalKey.cls, NormalKey.cls, key, key, hname, htype, hclazz]

namespace AvahiCache

variable {c : AvahiCache} {e : AvahiCacheEntry}

/-- What the table has for the entries of one key. -/
def listed : List AvahiCacheEntry → Option (NormalKey × List Nat)
  | [] => none
  | first :: rest => some (first.key, (first :: rest).map AvahiCacheEntry.address)

/-- The entries of a key, newest first. -/
def keyed (c : AvahiCache) (cls : KeyClass) : List AvahiCacheEntry :=
  c.entries.filter fun e => e.keyCls = cls

/-- What a cache always is. A record is there once, the lists of the keys are
complete, and the table has the key of a record that is there. -/
structure Wf (c : AvahiCache) : Prop where
  table : c.hashmap.Wf NormalKey.cls
  addresses : Distinct AvahiCacheEntry.address c.entries
  fresh : ∀ e ∈ c.entries, e.address < c.nextAddress
  records : Distinct AvahiCacheEntry.cls c.entries
  index : c.hashmap.contents NormalKey.cls = fun cls => listed (c.keyed cls)
  count : c.nEntries = c.entries.length

theorem new_wf : new.Wf :=
  ⟨newKeyHashmap_wf _, distinct_nil, fun _ he => absurd he List.not_mem_nil,
    distinct_nil, rfl, rfl⟩

theorem mem_keyed {cls : KeyClass} : e ∈ c.keyed cls ↔ e ∈ c.entries ∧ e.keyCls = cls := by
  rw [keyed, List.mem_filter, decide_eq_true_eq]

theorem map_address {f : AvahiCacheEntry → AvahiCacheEntry} {es : List AvahiCacheEntry}
    (haddress : ∀ e ∈ es, (f e).address = e.address) :
    (es.map f).map AvahiCacheEntry.address = es.map AvahiCacheEntry.address := by
  rw [List.map_map]
  exact List.map_congr_left haddress

theorem listed_map_cons (f : AvahiCacheEntry → AvahiCacheEntry) (first : AvahiCacheEntry)
    (rest : List AvahiCacheEntry) :
    listed ((first :: rest).map f) =
      some ((f first).key, ((first :: rest).map f).map AvahiCacheEntry.address) := rfl

theorem listed_map {f : AvahiCacheEntry → AvahiCacheEntry} {es : List AvahiCacheEntry}
    (haddress : ∀ e ∈ es, (f e).address = e.address)
    (hhead : ∀ first ∈ es.head?, (f first).key = first.key) :
    listed (es.map f) = listed es := by
  cases es with
  | nil => rfl
  | cons first rest =>
      rw [listed_map_cons, map_address haddress, hhead first rfl, listed]

namespace Wf

theorem entryAt_eq (h : c.Wf) (he : e ∈ c.entries) : c.entryAt e.address = some e :=
  h.addresses.lookupBy_eq.mpr ⟨he, rfl⟩

theorem lookupKey_eq (h : c.Wf) (k : NormalKey) :
    c.lookupKey k = (c.keyed k.cls).map AvahiCacheEntry.address := by
  rw [lookupKey, h.table.lookup_eq, h.index]
  simp only
  cases c.keyed k.cls with
  | nil => rfl
  | cons first rest => rfl

/-- Walking the list of a key comes to all entries of that key. -/
theorem byKey_eq (h : c.Wf) (k : NormalKey) : c.byKey k = c.keyed k.cls := by
  rw [byKey, h.lookupKey_eq, List.filterMap_map]
  have hall : ∀ e ∈ c.keyed k.cls, (c.entryAt ∘ AvahiCacheEntry.address) e = some e :=
    fun e he => h.entryAt_eq (mem_keyed.mp he).1
  rw [List.filterMap_congr hall, List.filterMap_some]

theorem walk_eq (h : c.Wf) {k : NormalKey} (hk : k.key.isPattern = false) :
    c.walk k = c.keyed k.cls := by
  rw [walk, hk, if_neg Bool.false_ne_true, h.byKey_eq]

/-- The first entry of a list is found. -/
theorem head_entryAt (h : c.Wf) {es : List AvahiCacheEntry} (hes : ∀ e ∈ es, e ∈ c.entries) :
    (es.map AvahiCacheEntry.address).head?.bind c.entryAt = es.head? := by
  cases es with
  | nil => rfl
  | cons first rest => exact h.entryAt_eq (hes first (List.mem_cons_self ..))

/-- Entries are found by their records. -/
theorem find_same (h : c.Wf) (r : PostedRecord) :
    ((c.byKey r.key).find? fun e => e.record.same r.toNormalRecord) =
      lookupBy AvahiCacheEntry.cls r.cls c.entries := by
  rw [h.byKey_eq, keyed, List.find?_filter, lookupBy]
  congr 1
  funext e
  have hsame : e.record.same r.toNormalRecord = decide (e.cls = r.cls) := by
    rw [Bool.eq_iff_iff, NormalRecord.same_iff, decide_eq_true_eq]
    rfl
  rw [hsame]
  by_cases hcls : e.cls = r.cls
  · have hkey : e.keyCls = r.key.cls := NormalRecord.key_cls_of_cls hcls
    simp only [hkey, hcls, decide_true, and_self]
  · simp only [hcls, decide_false, Bool.false_eq_true, and_false]

theorem lookupRecord_eq (h : c.Wf) (r : PostedRecord) :
    c.lookupRecord r = lookupBy AvahiCacheEntry.cls r.cls c.entries := by
  rw [← h.find_same, lookupRecord, walk]
  have hkey : r.key.key.isPattern = false := r.noPattern
  rw [hkey, if_neg Bool.false_ne_true]

/-- What is written to entries leaves their addresses and their classes alone. -/
theorem written (h : c.Wf) {f : AvahiCacheEntry → AvahiCacheEntry}
    (haddress : ∀ e ∈ c.entries, (f e).address = e.address)
    (hcls : ∀ e ∈ c.entries, (f e).cls = e.cls)
    {table : AvahiHashmap NormalKey (List Nat)} (htable : table.Wf NormalKey.cls)
    (hindex : table.contents NormalKey.cls = fun cls => listed ((c.keyed cls).map f)) :
    Wf { c.modify f with hashmap := table } := by
  have hkeyed (cls : KeyClass) :
      ((c.entries.map f).filter fun e => e.keyCls = cls) = (c.keyed cls).map f := by
    rw [List.filter_map, keyed]
    congr 1
    apply List.filter_congr
    intro e he
    have hkey : (f e).keyCls = e.keyCls := NormalRecord.key_cls_of_cls (hcls e he)
    simp only [Function.comp_apply, hkey]
  refine ⟨htable, ?_, ?_, ?_, ?_, ?_⟩
  · exact h.addresses.map haddress
  · intro e he
    obtain ⟨old, hold, rfl⟩ := List.mem_map.mp he
    rw [haddress old hold]
    exact h.fresh old hold
  · exact h.records.map hcls
  · rw [hindex]
    funext cls
    rw [← hkeyed]
    rfl
  · rw [AvahiCache.modify, List.length_map]
    exact h.count

theorem modify (h : c.Wf) {f : AvahiCacheEntry → AvahiCacheEntry}
    (haddress : ∀ e ∈ c.entries, (f e).address = e.address)
    (hrecord : ∀ e ∈ c.entries, (f e).record = e.record) : (c.modify f).Wf := by
  refine h.written haddress (fun e he => ?_) h.table ?_
  · rw [AvahiCacheEntry.cls, hrecord e he, AvahiCacheEntry.cls]
  · rw [h.index]
    funext cls
    rw [listed_map fun e he => haddress e (mem_keyed.mp he).1]
    intro first hfirst
    rw [AvahiCacheEntry.key, hrecord first (mem_keyed.mp (List.mem_of_mem_head? hfirst)).1,
      AvahiCacheEntry.key]

/-- The address of an entry says what its key is. -/
theorem keyCls_eq (h : c.Wf) (he : e ∈ c.entries) {cls : KeyClass} {other : AvahiCacheEntry}
    (hother : other ∈ c.keyed cls) (haddress : other.address = e.address) : cls = e.keyCls := by
  obtain ⟨hmem, hcls⟩ := mem_keyed.mp hother
  rw [← hcls, h.addresses.eq hmem he haddress]

/-- An entry is written back with a record that replaces its own. -/
theorem setRecord (h : c.Wf) {old : AvahiCacheEntry} (hold : old ∈ c.entries)
    (haddress : e.address = old.address) (hcls : e.cls = old.cls) : (c.setRecord e).Wf := by
  have hkey : e.key.cls = old.keyCls := NormalRecord.key_cls_of_cls hcls
  have hown {cls : KeyClass} {other : AvahiCacheEntry} (hother : other ∈ c.keyed cls)
      (hsame : other.address = e.address) : cls = e.key.cls :=
    (h.keyCls_eq hold hother (hsame.trans haddress)).trans hkey.symm
  have hkept := h.addresses.key_replace hold haddress haddress
  have hkeyed (cls : KeyClass) : ∀ other ∈ c.keyed cls,
      (if other.address = e.address then e else other).address = other.address :=
    fun other hother => hkept other (mem_keyed.mp hother).1
  rw [AvahiCache.setRecord, AvahiCache.setEntry]
  split
  · rename_i hhead
    obtain ⟨htable, hcontents⟩ := h.table.replace e.key (c.lookupKey e.key)
    refine h.written hkept (h.addresses.key_replace hold haddress hcls) htable ?_
    rw [hcontents, h.index, h.lookupKey_eq]
    rw [h.lookupKey_eq] at hhead
    funext cls
    by_cases hclass : cls = e.key.cls
    · subst hclass
      rw [Function.update_self]
      have hall := map_address (hkeyed e.key.cls)
      cases hes : c.keyed e.key.cls with
      | nil =>
          rw [hes] at hhead
          cases hhead
      | cons first rest =>
          rw [hes] at hhead hall
          have hfirst : first.address = e.address := Option.some.inj hhead
          rw [listed_map_cons, hall, if_pos hfirst]
    · rw [Function.update_of_ne hclass, listed_map (hkeyed cls)]
      intro first hfirst
      rw [if_neg]
      exact fun hsame => hclass (hown (List.mem_of_mem_head? hfirst) hsame)
  · rename_i hhead
    refine h.written hkept (h.addresses.key_replace hold haddress hcls) h.table ?_
    rw [h.index]
    funext cls
    rw [listed_map (hkeyed cls)]
    intro first hfirst
    rw [if_neg]
    intro hsame
    apply hhead
    have hclass := hown (List.mem_of_mem_head? hfirst) hsame
    rw [h.lookupKey_eq, ← hclass, List.head?_map, hfirst, Option.map_some, hsame]

theorem prepend (h : c.Wf) (haddress : e.address = c.nextAddress)
    (hcls : ∀ other ∈ c.entries, other.cls ≠ e.cls) : (c.prepend e).Wf := by
  obtain ⟨htable, hcontents⟩ := h.table.replace e.key (e.address :: c.lookupKey e.key)
  refine ⟨htable, ?_, ?_, distinct_cons.mpr ⟨hcls, h.records⟩, ?_, ?_⟩
  · refine distinct_cons.mpr ⟨?_, h.addresses⟩
    intro other hother
    have hlt := h.fresh other hother
    omega
  · intro other hother
    rcases List.mem_cons.mp hother with rfl | hother
    · exact Nat.lt_succ_of_le (Nat.le_of_eq haddress)
    · exact Nat.lt_succ_of_lt (h.fresh other hother)
  · have hkeyed (cls : KeyClass) : (c.prepend e).keyed cls =
        if e.keyCls = cls then e :: c.keyed cls else c.keyed cls := by
      rw [keyed, keyed, AvahiCache.prepend, List.filter_cons]
      simp only [decide_eq_true_eq]
    have hcontents' : (c.prepend e).hashmap.contents NormalKey.cls =
        Function.update (c.hashmap.contents NormalKey.cls) e.keyCls
          (some (e.key, e.address :: c.lookupKey e.key)) := hcontents
    rw [hcontents', h.index, h.lookupKey_eq]
    funext cls
    rw [hkeyed]
    by_cases hclass : cls = e.keyCls
    · rw [hclass, Function.update_self, if_pos rfl]
      rfl
    · rw [Function.update_of_ne hclass, if_neg (Ne.symm hclass)]
  · rw [AvahiCache.prepend, List.length_cons, h.count]

theorem removeEntry (h : c.Wf) (he : e ∈ c.entries) : (c.removeEntry e).Wf := by
  have hsublist : (c.entries.filter fun other => other.address ≠ e.address).Sublist c.entries :=
    List.filter_sublist
  have hleft : (c.lookupKey e.key).filter (fun address => address ≠ e.address) =
      ((c.keyed e.keyCls).filter fun other => other.address ≠ e.address).map
        AvahiCacheEntry.address := by
    rw [h.lookupKey_eq, List.filter_map]
    rfl
  have hmem : ∀ other ∈ (c.keyed e.keyCls).filter fun other => other.address ≠ e.address,
      other ∈ c.entries ∧ other.keyCls = e.keyCls :=
    fun other hother => mem_keyed.mp (List.mem_of_mem_filter hother)
  have hkeyed (cls : KeyClass) : (c.removeEntry e).keyed cls =
      (c.keyed cls).filter fun other => other.address ≠ e.address := by
    rw [keyed, keyed, List.filter_filter, AvahiCache.removeEntry, List.filter_filter]
    congr 1
    funext other
    exact Bool.and_comm _ _
  have htable : (c.removeEntry e).hashmap.Wf NormalKey.cls ∧
      (c.removeEntry e).hashmap.contents NormalKey.cls =
        Function.update (c.hashmap.contents NormalKey.cls) e.keyCls
          (listed ((c.removeEntry e).keyed e.keyCls)) := by
    rw [hkeyed, AvahiCache.removeEntry]
    simp only
    rw [hleft, h.head_entryAt fun other hother => (hmem other hother).1]
    cases hes : (c.keyed e.keyCls).filter fun other => other.address ≠ e.address with
    | nil => exact h.table.remove e.key
    | cons first rest =>
        have hfirst : first.key.cls = e.keyCls := (hmem first (hes ▸ List.mem_cons_self ..)).2
        have hreplace := h.table.replace first.key ((first :: rest).map AvahiCacheEntry.address)
        rwa [hfirst] at hreplace
  refine ⟨htable.1, h.addresses.sublist hsublist,
    fun other hother => h.fresh other (hsublist.mem hother), h.records.sublist hsublist, ?_, ?_⟩
  · rw [htable.2, h.index]
    funext cls
    by_cases hclass : cls = e.keyCls
    · rw [hclass, Function.update_self]
    · rw [Function.update_of_ne hclass, hkeyed, List.filter_eq_self.mpr]
      intro other hother
      rw [decide_eq_true_eq]
      exact fun hsame => hclass (h.keyCls_eq he hother hsame)
  · have hperm := (h.addresses.perm_cons he).length_eq
    rw [List.length_cons] at hperm
    rw [AvahiCache.removeEntry, h.count, hperm, Nat.add_sub_cancel]

end Wf

end AvahiCache

end NvmrDisplay.Avahi.Dns
