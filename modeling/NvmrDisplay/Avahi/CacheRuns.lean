import NvmrDisplay.Avahi.Cache
import NvmrDisplay.Avahi.ResponsePackets
import NvmrDisplay.Lib.History

/-!
Runs of the cache. Whatever it hears, and whenever time events elapse, what it has
told its subscribers is what it has.
-/

namespace NvmrDisplay.Avahi.Dns

open Lib
open Discover (AvahiAddress)

section Notices

/-- Subscribers are told that a record is new. -/
def CacheEvent.announces (cls : RecordClass) : CacheEvent → Prop
  | .new record => record.cls = cls
  | .remove _ | .query _ => False

/-- Subscribers are told that a record is gone. -/
def CacheEvent.withdraws (cls : RecordClass) : CacheEvent → Prop
  | .remove record => record.cls = cls
  | .new _ | .query _ => False

/-- What subscribers believe to be cached. -/
def Told (log : List CacheEvent) (cls : RecordClass) : Prop :=
  Since (CacheEvent.announces cls) (CacheEvent.withdraws cls) log

/-- A record is new when it was not there, gone when it was, and refreshed while
records with its key are there. -/
def FairNotice (before : List CacheEvent) : CacheEvent → Prop
  | .new record => ¬ Told before record.cls
  | .remove record => Told before record.cls
  | .query key => ∃ record : PostedRecord, record.key.cls = key.cls ∧ Told before record.cls

theorem told_snoc (log : List CacheEvent) (event : CacheEvent) (cls : RecordClass) :
    Told (log ++ [event]) cls ↔ event.announces cls ∨ Told log cls ∧ ¬ event.withdraws cls :=
  Since.snoc log event

end Notices

namespace AvahiCache

variable {c d : AvahiCache} {e : AvahiCacheEntry}

/-- The lists are in order, and subscribers know what is cached. -/
structure Good (c : AvahiCache) : Prop where
  wf : c.Wf
  fair : Throughout FairNotice c.log
  told : ∀ cls, Told c.log cls ↔ cls ∈ c.entries.map AvahiCacheEntry.cls

theorem new_good : new.Good :=
  ⟨new_wf, .nil, fun _ => iff_of_false Since.not_nil List.not_mem_nil⟩

theorem map_cls {f : AvahiCacheEntry → AvahiCacheEntry}
    (hf : ∀ e ∈ c.entries, (f e).cls = e.cls) :
    (c.modify f).entries.map AvahiCacheEntry.cls = c.entries.map AvahiCacheEntry.cls := by
  rw [modify, List.map_map]
  exact List.map_congr_left hf

namespace Good

/-- Nothing is new or gone. -/
theorem kept (h : c.Good) (hwf : d.Wf) (hlog : d.log = c.log)
    (hentries : d.entries.map AvahiCacheEntry.cls = c.entries.map AvahiCacheEntry.cls) :
    d.Good := by
  refine ⟨hwf, hlog ▸ h.fair, fun cls => ?_⟩
  rw [hlog, hentries]
  exact h.told cls

theorem modify (h : c.Good) {f : AvahiCacheEntry → AvahiCacheEntry}
    (haddress : ∀ e ∈ c.entries, (f e).address = e.address)
    (hrecord : ∀ e ∈ c.entries, (f e).record = e.record) : (c.modify f).Good := by
  refine h.kept (h.wf.modify haddress hrecord) rfl (map_cls fun e he => ?_)
  rw [AvahiCacheEntry.cls, hrecord e he, AvahiCacheEntry.cls]

theorem setEntry (h : c.Good) {old : AvahiCacheEntry} (hold : old ∈ c.entries)
    (haddress : e.address = old.address) (hrecord : e.record = old.record) :
    (c.setEntry e).Good := by
  apply h.modify
  · exact h.wf.addresses.key_replace hold haddress haddress
  · exact h.wf.addresses.key_replace hold haddress hrecord

theorem setRecord (h : c.Good) {old : AvahiCacheEntry} (hold : old ∈ c.entries)
    (haddress : e.address = old.address) (hcls : e.cls = old.cls) : (c.setRecord e).Good :=
  h.kept (h.wf.setRecord hold haddress hcls) rfl
    (map_cls (h.wf.addresses.key_replace hold haddress hcls))

theorem prepend (h : c.Good) (haddress : e.address = c.nextAddress)
    (hcls : ∀ other ∈ c.entries, other.cls ≠ e.cls) : (c.prepend e).Good := by
  have hnew : e.cls ∉ c.entries.map AvahiCacheEntry.cls := by
    intro hmem
    obtain ⟨other, hother, hsame⟩ := List.mem_map.mp hmem
    exact hcls other hother hsame
  refine ⟨h.wf.prepend haddress hcls, (Throughout.snoc c.log _).mpr ⟨h.fair, ?_⟩,
    fun cls => ?_⟩
  · exact fun htold => hnew ((h.told e.cls).mp htold)
  · rw [AvahiCache.prepend, told_snoc, h.told, List.map_cons, List.mem_cons]
    constructor
    · rintro (rfl | ⟨htold, _⟩)
      · exact Or.inl rfl
      · exact Or.inr htold
    · rintro (rfl | hmem)
      · exact Or.inl rfl
      · exact Or.inr ⟨hmem, not_false⟩

theorem removeEntry (h : c.Good) (he : e ∈ c.entries) : (c.removeEntry e).Good := by
  have hknown : e.cls ∈ c.entries.map AvahiCacheEntry.cls := List.mem_map_of_mem he
  refine ⟨h.wf.removeEntry he, (Throughout.snoc c.log _).mpr
    ⟨h.fair, (h.told e.cls).mpr hknown⟩, fun cls => ?_⟩
  have hleft := h.wf.addresses.lookupBy_remove h.wf.records he cls
  have hmem (es : List AvahiCacheEntry) :
      cls ∈ es.map AvahiCacheEntry.cls ↔ lookupBy AvahiCacheEntry.cls cls es ≠ none := by
    rw [Ne, lookupBy_eq_none, List.mem_map]
    simp only [not_forall, not_not, exists_prop]
  rw [AvahiCache.removeEntry, told_snoc, h.told, hmem, hmem, hleft]
  constructor
  · rintro (hnew | ⟨hcached, hgone⟩)
    · exact hnew.elim
    · rwa [if_neg (fun hsame => hgone hsame.symm)]
  · intro hcached
    by_cases hsame : cls = e.cls
    · rw [if_pos hsame] at hcached
      exact absurd rfl hcached
    · rw [if_neg hsame] at hcached
      exact Or.inr ⟨hcached, fun hgone => hsame hgone.symm⟩

theorem elapseFunc (h : c.Good) (he : e ∈ c.entries) (spread : Spread)
    (subscribed : NormalKey → Bool) : (c.elapseFunc spread subscribed e).Good := by
  rw [AvahiCache.elapseFunc]
  cases e.state.next with
  | none => exact h.removeEntry he
  | some next =>
      simp only
      generalize hwritten : ({ e with state := next.1 }.nextExpiry spread next.2) = written
      have hset : (c.setEntry written).Good :=
        h.setEntry he (hwritten ▸ rfl) (hwritten ▸ rfl)
      have hsetWf := hset.wf
      have hwf (log : List CacheEvent) : Wf { c.setEntry written with log } :=
        ⟨hsetWf.table, hsetWf.addresses, hsetWf.fresh, hsetWf.records, hsetWf.index,
          hsetWf.count⟩
      split
      · refine ⟨hwf _, (Throughout.snoc c.log _).mpr ⟨h.fair, e.record, rfl, ?_⟩,
          fun cls => ?_⟩
        · exact (h.told e.cls).mpr (List.mem_map_of_mem he)
        · rw [told_snoc]
          refine Iff.trans ?_ (hset.told cls)
          constructor
          · rintro (hnew | ⟨htold, _⟩)
            · exact hnew.elim
            · exact htold
          · exact fun htold => Or.inr ⟨htold, not_false⟩
      · exact ⟨hwf _, h.fair, hset.told⟩

theorem store (h : c.Good) (max now : Nat) (spread : Spread) (r : PostedRecord) (cacheFlush : Bool)
    (a : AvahiAddress) : (c.store max now spread r cacheFlush a).Good := by
  rw [AvahiCache.store, h.wf.find_same]
  cases hfound : lookupBy AvahiCacheEntry.cls r.cls c.entries with
  | some e =>
      obtain ⟨he, hcls⟩ := mem_of_lookupBy hfound
      exact h.setRecord he rfl hcls.symm
  | none =>
      simp only
      split
      · exact h
      · exact h.prepend rfl (lookupBy_eq_none.mp hfound)

theorem dropOld (h : c.Good) (now : Nat) (k : NormalKey) : (c.dropOld now k).Good := by
  apply h.modify
  · intro e _
    split
    · rfl
    · rfl
  · intro e _
    split
    · rfl
    · rfl

theorem update (h : c.Good) (max now : Nat) (spread : Spread) (r : PostedRecord) (cacheFlush : Bool)
    (a : AvahiAddress) : (c.update max now spread r cacheFlush a).Good := by
  rw [AvahiCache.update, h.wf.lookupRecord_eq]
  split
  · cases hfound : lookupBy AvahiCacheEntry.cls r.cls c.entries with
    | none => exact h
    | some e =>
        refine h.setEntry (mem_of_lookupBy hfound).1 ?_ ?_
        · rfl
        · rfl
  · split
    · exact (h.dropOld now r.key).store max now spread r cacheFlush a
    · exact h.store max now spread r cacheFlush a

/-- Removing the first entry as long as there is one removes them all. -/
theorem foldl_removeEntry (h : c.Good) {es : List AvahiCacheEntry} (hes : c.entries = es) :
    (es.foldl AvahiCache.removeEntry c).Good ∧
    (es.foldl AvahiCache.removeEntry c).entries = [] := by
  induction es generalizing c with
  | nil => exact ⟨h, hes⟩
  | cons first rest ih =>
      apply ih (h.removeEntry (hes ▸ List.mem_cons_self ..))
      have hdistinct := h.wf.addresses
      rw [hes, distinct_cons] at hdistinct
      rw [AvahiCache.removeEntry, hes, List.filter_cons_of_neg (by simp)]
      exact List.filter_eq_self.mpr fun other hother => decide_eq_true (hdistinct.1 other hother)

theorem startPoof (h : c.Good) (now : Nat) (k : NormalKey) (a : AvahiAddress) :
    (c.startPoof now k a).Good := by
  apply h.modify
  · intro e _
    split
    · exact (e.startPoof_kept now a).1
    · rfl
  · intro e _
    split
    · exact (e.startPoof_kept now a).2
    · rfl

theorem stopPoof (h : c.Good) (spread : Spread) (r : PostedRecord) (a : AvahiAddress) :
    (c.stopPoof spread r a).Good := by
  rw [AvahiCache.stopPoof, h.wf.lookupRecord_eq]
  cases hfound : lookupBy AvahiCacheEntry.cls r.cls c.entries with
  | none => exact h
  | some e =>
      obtain ⟨haddress, hrecord⟩ := e.stopPoof_kept spread a
      exact h.setEntry (mem_of_lookupBy hfound).1 haddress hrecord

end Good

variable {max now : Nat}

theorem classes_setEntry (h : c.Wf) {old : AvahiCacheEntry} (hold : old ∈ c.entries)
    (haddress : e.address = old.address) (hcls : e.cls = old.cls) :
    (c.setEntry e).entries.map AvahiCacheEntry.cls = c.entries.map AvahiCacheEntry.cls :=
  map_cls (h.addresses.key_replace hold haddress hcls)

theorem classes_store (h : c.Wf) (spread : Spread) (r : PostedRecord) (cacheFlush : Bool)
    (a : AvahiAddress) : c.entries.map AvahiCacheEntry.cls ⊆
      (c.store max now spread r cacheFlush a).entries.map AvahiCacheEntry.cls := by
  rw [store, h.find_same]
  cases hfound : lookupBy AvahiCacheEntry.cls r.cls c.entries with
  | some old =>
      obtain ⟨hold, hcls⟩ := mem_of_lookupBy hfound
      have hkept := @classes_setEntry c
        (AvahiCacheEntry.heard { old with record := r } now spread cacheFlush a) h old hold
          rfl hcls.symm
      intro cls hmem
      rw [← hkept] at hmem
      exact hmem
  | none =>
      simp only
      split
      · exact List.Subset.refl _
      · exact List.subset_cons_self _ _

/-- An update withdraws nothing at once. -/
theorem classes_update (h : c.Good) (spread : Spread) (r : PostedRecord) (cacheFlush : Bool)
    (a : AvahiAddress) : c.entries.map AvahiCacheEntry.cls ⊆
      (c.update max now spread r cacheFlush a).entries.map AvahiCacheEntry.cls := by
  rw [update, h.wf.lookupRecord_eq]
  split
  · cases hfound : lookupBy AvahiCacheEntry.cls r.cls c.entries with
    | none => exact List.Subset.refl _
    | some old =>
        have hkept := classes_setEntry h.wf (mem_of_lookupBy hfound).1
          (e := old.expireInOneSecond now .goodbyeFinal) rfl rfl
        intro cls hmem
        rw [← hkept] at hmem
        exact hmem
  · split
    · have hold : (c.dropOld now r.key).entries.map AvahiCacheEntry.cls =
          c.entries.map AvahiCacheEntry.cls := by
        apply map_cls
        intro e _
        split
        · rfl
        · rfl
      rw [← hold]
      exact classes_store (h.dropOld now r.key).wf spread r cacheFlush a
    · exact classes_store h.wf spread r cacheFlush a

end AvahiCache

namespace CacheHost

/-- What a step can do to the cache. -/
inductive Stepped (max : Nat) (c : AvahiCache) (now : Nat) :
    CacheInput → AvahiCache → Prop where
  | update (spread : Spread) (record : PostedRecord) (cacheFlush : Bool) (origin : AvahiAddress) :
      Stepped max c now (.update spread record cacheFlush origin)
        (c.update max now spread record cacheFlush origin)
  | elapse (spread : Spread) (subscribed : NormalKey → Bool) {e : AvahiCacheEntry}
      (he : e ∈ c.entries)
      (hdue : e.expiry ≤ now) :
      Stepped max c now (.elapse spread subscribed e.address) (c.elapseFunc spread subscribed e)
  | flush : Stepped max c now .flush c.flush
  | startPoof (key : NormalKey) (querier : AvahiAddress) :
      Stepped max c now (.startPoof key querier) (c.startPoof now key querier)
  | stopPoof (spread : Spread) (record : PostedRecord) (querier : AvahiAddress) :
      Stepped max c now (.stopPoof spread record querier) (c.stopPoof spread record querier)

variable {max now : Nat} {host next : CacheHost} {input : CacheInput}
  {events : List (Nat × CacheInput)}

theorem step_spec (hstep : step max host (now, input) = some next) :
    host.now ≤ now ∧ next.now = now ∧ Stepped max host.cache now input next.cache := by
  unfold step at hstep
  simp only at hstep
  split at hstep
  · cases hstep
  · rename_i hlater
    refine ⟨Nat.le_of_not_lt hlater, ?_⟩
    cases input with
    | update spread record cacheFlush origin =>
        obtain rfl := Option.some.inj hstep
        exact ⟨rfl, .update spread record cacheFlush origin⟩
    | elapse spread subscribed address =>
        cases hfound : host.cache.entryAt address with
        | none => simp only [hfound, reduceCtorEq] at hstep
        | some e =>
            simp only [hfound] at hstep
            obtain ⟨he, rfl⟩ := mem_of_lookupBy hfound
            split at hstep
            · rename_i hdue
              obtain rfl := Option.some.inj hstep
              exact ⟨rfl, .elapse spread subscribed he hdue⟩
            · cases hstep
    | flush =>
        obtain rfl := Option.some.inj hstep
        exact ⟨rfl, .flush⟩
    | startPoof key querier =>
        obtain rfl := Option.some.inj hstep
        exact ⟨rfl, .startPoof key querier⟩
    | stopPoof spread record querier =>
        obtain rfl := Option.some.inj hstep
        exact ⟨rfl, .stopPoof spread record querier⟩

theorem Stepped.good {c d : AvahiCache} (h : Stepped max c now input d) (hc : c.Good) : d.Good := by
  cases h with
  | update spread record cacheFlush origin =>
      exact hc.update max now spread record cacheFlush origin
  | elapse spread subscribed he _ => exact hc.elapseFunc he spread subscribed
  | flush => exact (hc.foldl_removeEntry rfl).1
  | startPoof key querier => exact hc.startPoof now key querier
  | stopPoof spread record querier => exact hc.stopPoof spread record querier

theorem run_good (hrun : (machine max).run events = some host) : host.cache.Good := by
  refine (machine max).run_induction (P := fun _ host => host.cache.Good) ?_ ?_ events host hrun
  · exact AvahiCache.new_good
  · intro _ host event next _ h hstep
    exact (step_spec hstep).2.2.good h

end CacheHost

namespace AvahiCache

variable {c : AvahiCache}

/-- Only a record that is new makes the cache larger. -/
theorem length_update {max now : Nat} (h : c.Good) (hmax : c.entries.length ≤ max)
    (spread : Spread) (r : PostedRecord) (cacheFlush : Bool) (a : AvahiAddress) :
    (c.update max now spread r cacheFlush a).entries.length ≤ max := by
  have hstore {d : AvahiCache} (hd : d.Good) (hle : d.entries.length ≤ max) :
      (d.store max now spread r cacheFlush a).entries.length ≤ max := by
    rw [store]
    split
    · rw [setRecord, setEntry, modify, List.length_map]
      exact hle
    · split
      · exact hle
      · rename_i hroom
        have hcount := hd.wf.count
        rw [prepend, List.length_cons]
        omega
  rw [update]
  split
  · split
    · rw [setEntry, modify, List.length_map]
      exact hmax
    · exact hmax
  · split
    · apply hstore (h.dropOld now r.key)
      rw [dropOld, modify, List.length_map]
      exact hmax
    · exact hstore h hmax

theorem length_elapseFunc (c : AvahiCache) (spread : Spread) (subscribed : NormalKey → Bool)
    (e : AvahiCacheEntry) :
    (c.elapseFunc spread subscribed e).entries.length ≤ c.entries.length := by
  rw [elapseFunc]
  split
  · exact List.length_filter_le _ _
  · rw [setEntry, modify, List.length_map]

end AvahiCache

namespace CacheHost

variable {max : Nat} {host : CacheHost} {events : List (Nat × CacheInput)}

theorem run_length (hrun : (machine max).run events = some host) :
    host.cache.entries.length ≤ max := by
  refine (machine max).run_induction (P := fun _ host => host.cache.entries.length ≤ max)
    ?_ ?_ events host hrun
  · exact Nat.zero_le max
  · rintro earlier host ⟨now, input⟩ next hearlier hle hstep
    have hgood := run_good hearlier
    obtain ⟨_, _, hstepped⟩ := step_spec hstep
    generalize next.cache = d at hstepped ⊢
    cases hstepped with
    | update spread record cacheFlush origin =>
        exact AvahiCache.length_update hgood hle spread record cacheFlush origin
    | elapse spread subscribed _ _ =>
        exact Nat.le_trans (AvahiCache.length_elapseFunc _ spread subscribed _) hle
    | flush =>
        rw [AvahiCache.flush, (hgood.foldl_removeEntry rfl).2]
        exact Nat.zero_le max
    | startPoof key querier =>
        rw [AvahiCache.startPoof, AvahiCache.modify, List.length_map]
        exact hle
    | stopPoof spread record querier =>
        rw [AvahiCache.stopPoof]
        split
        · rw [AvahiCache.setEntry, AvahiCache.modify, List.length_map]
          exact hle
        · exact hle

/-- Another address, of `PI.local`. -/
def piOther : PostedRecord where
  record := ⟨⟨[80, 73, 46, 108, 111, 99, 97, 108], AVAHI_DNS_CLASS_IN, AVAHI_DNS_TYPE_A⟩, 120,
    .a ⟨[10, 0, 0, 8], rfl⟩⟩
  comparable := ⟨⟨[[80, 73], [108, 111, 99, 97, 108]],
    @properLabels_of_labelsOf [80, 73, 46, 108, 111, 99, 97, 108] (by decide) _ (by decide)
      (by decide), by decide, by decide⟩, trivial⟩
  noPattern := rfl

def piOtherGoodbye : PostedRecord where
  record := { piOther.record with ttl := 0 }
  comparable := ⟨piOther.comparable.key, piOther.comparable.data⟩
  noPattern := rfl

/-- One more address, of `pi.local`. -/
def piThird : PostedRecord where
  record := { piAddress.record with data := .a ⟨[10, 0, 0, 9], rfl⟩ }
  comparable := ⟨piAddress.comparable.key, trivial⟩
  noPattern := rfl

/-- Two records of one key with a TTL of two minutes are heard, and fill a cache
for two, so that a third is not cached. The second one says goodbye. -/
def piCaching : List (Nat × CacheInput) :=
  let spread : Spread := ⟨fun _ => 0, fun _ => Nat.zero_le _⟩
  let origin : AvahiAddress := .inet ⟨10, 0, 0, 7⟩
  [(0, .update spread piAddress true origin), (500000, .update spread piOther false origin),
    (600000, .update spread piThird false origin),
    (700000, .update spread piOtherGoodbye false origin),
    (1700000, .elapse spread (fun _ => true) 1), (96000000, .elapse spread (fun _ => true) 0),
    (102000000, .elapse spread (fun _ => true) 0), (108000000, .elapse spread (fun _ => true) 0),
    (114000000, .elapse spread (fun _ => false) 0)]

theorem piCaching_full : ∃ full, (machine 2).run (piCaching.take 3) = some full ∧
    full.cache.entries.map (fun e => e.record) = [piOther, piAddress] :=
  ⟨_, rfl, rfl⟩

theorem piCaching_run : ∃ host e, (machine 2).run piCaching = some host ∧
    host.now = 114000000 ∧
    host.cache.entries = [e] ∧ e.record = piAddress ∧ e.state = .expiryFinal ∧
    e.timestamp = 0 ∧
      e.expiry = 120000000 :=
  ⟨_, _, rfl, rfl, rfl, rfl, rfl, rfl, rfl⟩

/-- In every run, walking a key comes to all that is cached with that key and to
nothing else, a record is cached once, there is room for no more than `max` of
them, and subscribers have been told of each record that it is new, and gone, in
turn, so that they know what is cached. -/
theorem cache_coherent (hrun : (machine max).run events = some host) :
    (∀ key : NormalKey, key.key.isPattern = false →
      host.cache.walk key = host.cache.entries.filter fun e => e.key.same key) ∧
    (host.cache.entries.map AvahiCacheEntry.cls).Nodup ∧ host.cache.entries.length ≤ max ∧
    Throughout FairNotice host.cache.log ∧
    ∀ cls, Told host.cache.log cls ↔ cls ∈ host.cache.entries.map AvahiCacheEntry.cls := by
  have hgood := run_good hrun
  refine ⟨fun key hkey => ?_, hgood.wf.records, run_length hrun, hgood.fair, hgood.told⟩
  rw [hgood.wf.walk_eq hkey, AvahiCache.keyed]
  apply List.filter_congr
  intro e _
  rw [Bool.eq_iff_iff, NormalKey.same_iff, decide_eq_true_eq, AvahiCacheEntry.keyCls]

theorem piCaching_coherent : (∃ full, (machine 2).run (piCaching.take 3) = some full ∧
      (full.cache.walk piOther.key).map (fun e => e.record) = [piOther, piAddress]) ∧
    ∃ host, (machine 2).run piCaching = some host ∧ host.cache.entries.length ≤ 2 ∧
      Throughout FairNotice host.cache.log ∧ Told host.cache.log piAddress.cls ∧
        ¬ Told host.cache.log piOther.cls := by
  constructor
  · obtain ⟨full, hrun, hrecords⟩ := piCaching_full
    refine ⟨full, hrun, ?_⟩
    rw [(cache_coherent hrun).1 piOther.key piOther.noPattern, List.filter_eq_self.mpr, hrecords]
    intro e he
    have hsame : ∀ r ∈ [piOther, piAddress], r.key.same piOther.key = true := by decide
    exact hsame e.record (hrecords ▸ List.mem_map_of_mem he)
  · obtain ⟨host, e, hrun, _, hentries, hrecord, _⟩ := piCaching_run
    obtain ⟨_, _, hlength, hfair, htold⟩ := cache_coherent hrun
    have hcached : host.cache.entries.map AvahiCacheEntry.cls = [piAddress.cls] := by
      rw [hentries, List.map_singleton, AvahiCacheEntry.cls, hrecord]
    rw [hcached] at htold
    refine ⟨host, hrun, hlength, hfair, (htold _).mpr (List.mem_singleton_self _), ?_⟩
    exact fun hother => absurd ((htold _).mp hother) (by decide)

end CacheHost

end NvmrDisplay.Avahi.Dns
