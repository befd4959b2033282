import NvmrDisplay.Avahi.CacheRuns
import NvmrDisplay.Avahi.KnownAnswers

/-!
How long a record stays in the cache. An entry is looked at when 80, 85, 90 and 95
percent of its TTL are over, and goes when all of it is. A goodbye, a record that
replaces it, or queries for it that nobody answers, leave it a second.
-/

namespace NvmrDisplay.Avahi.Dns

open Lib
open Discover (AvahiAddress)

section Lifetime

/-- The part of the TTL at which a state ends, unless the record was disowned. -/
def AvahiCacheEntryState.ends : AvahiCacheEntryState → Option Nat
  | .valid | .poof => some 80
  | .expiry1 => some 85
  | .expiry2 => some 90
  | .expiry3 => some 95
  | .expiryFinal => some 100
  | .poofFinal | .goodbyeFinal | .replaceFinal => none

/-- A goodbye of a record, a record that replaces all with its key that were heard
more than a second before, or a query for it. -/
def CacheInput.disowns (e : AvahiCacheEntry) (t : Nat) : CacheInput → Prop
  | .update _ r cacheFlush _ =>
      if r.ttl = 0 then r.cls = e.cls
      else cacheFlush = true ∧ r.key.cls = e.keyCls ∧ e.timestamp + 1000000 < t
  | .startPoof key _ =>
      if key.key.isPattern then keyPatternMatch key.key e.key.key = some true
      else key.cls = e.keyCls
  | .elapse _ _ _ | .flush | .stopPoof _ _ _ => False

/-- Since the record was last heard, something disowned it. -/
def AvahiCacheEntry.Disowned (e : AvahiCacheEntry) (events : List (Nat × CacheInput)) (t : Nat) :
    Prop :=
  ∃ input, (t, input) ∈ events ∧ input.disowns e t ∧ e.timestamp ≤ t

/-- An entry is as it was heard, and expires when its TTL says, or a second after
it was disowned. -/
structure AvahiCacheEntry.Timely (e : AvahiCacheEntry) (events : List (Nat × CacheInput))
    (now : Nat) : Prop where
  heard : ∃ spread cacheFlush origin,
    (e.timestamp, CacheInput.update spread e.record cacheFlush origin) ∈ events
  past : e.timestamp ≤ now
  due : ∀ percent, e.state.ends = some percent →
    e.timestamp + e.record.ttl.toNat * 10000 * percent ≤ e.expiry ∧
      e.expiry ≤ e.timestamp + e.record.ttl.toNat * 10000 * (percent + 2)
  disowned : e.state.ends = none → ∃ t, e.Disowned events t ∧ e.expiry = t + 1000000

theorem AvahiCacheEntryState.next_ends {state later : AvahiCacheEntryState} {percent : Nat}
    (h : state.next = some (later, percent)) : later.ends = some percent := by
  cases state <;> cases h <;> rfl

/-- A state that nothing follows ends with the TTL, or was disowned. -/
theorem AvahiCacheEntryState.ends_of_next {state : AvahiCacheEntryState} {percent : Nat}
    (hnext : state.next = none) (h : state.ends = some percent) : percent = 100 := by
  cases state <;> cases hnext <;> cases h
  rfl

namespace AvahiCacheEntry.Timely

variable {e : AvahiCacheEntry} {events : List (Nat × CacheInput)} {now : Nat}

theorem later (h : e.Timely events now) {t : Nat} (ht : now ≤ t) (event : Nat × CacheInput) :
    e.Timely (events ++ [event]) t := by
  obtain ⟨spread, cacheFlush, origin, hmem⟩ := h.heard
  refine ⟨⟨spread, cacheFlush, origin, List.mem_append_left _ hmem⟩, Nat.le_trans h.past ht,
    h.due, ?_⟩
  intro hends
  obtain ⟨t, ⟨input, hinput, hdisowns, hafter⟩, hexpiry⟩ := h.disowned hends
  exact ⟨t, ⟨input, List.mem_append_left _ hinput, hdisowns, hafter⟩, hexpiry⟩

theorem nextExpiry (h : e.Timely events now) (spread : Spread) {state : AvahiCacheEntryState}
    {percent : Nat} (hends : state.ends = some percent) :
    ({ e with state }.nextExpiry spread percent).Timely events now := by
  refine ⟨h.heard, h.past, ?_, ?_⟩
  · intro other hother
    obtain rfl := Option.some.inj (hends.symm.trans hother)
    have hspread := spread.property (e.record.ttl.toNat * 10000 * 2)
    simp only [AvahiCacheEntry.nextExpiry, Nat.mul_add]
    omega
  · intro hnone
    exact absurd (hends.symm.trans hnone) (by simp)

theorem expireInOneSecond (h : e.Timely events now) {state : AvahiCacheEntryState}
    (hends : state.ends = none) {input : CacheInput} (hinput : (now, input) ∈ events)
    (hdisowns : input.disowns e now) : (e.expireInOneSecond now state).Timely events now := by
  refine ⟨h.heard, h.past, ?_, fun _ => ⟨now, ⟨input, hinput, hdisowns, h.past⟩, rfl⟩⟩
  intro percent hpercent
  exact absurd (hends.symm.trans hpercent) (by simp)

theorem startPoof (h : e.Timely events now) {a : AvahiAddress} {input : CacheInput}
    (hinput : (now, input) ∈ events) (hdisowns : input.disowns e now) :
    (e.startPoof now a).Timely events now := by
  rw [AvahiCacheEntry.startPoof]
  split
  · rename_i hstate
    have hdue := h.due
    rw [hstate] at hdue
    exact ⟨h.heard, h.past, hdue, fun hnone => by cases hnone⟩
  · rename_i hstate
    split
    · exact h
    · simp only
      have hwritten : AvahiCacheEntry.Timely
          { e with poofTimestamp := now, poofAddress := a, poofNum := e.poofNum + 1 } events now :=
        ⟨h.heard, h.past, h.due, h.disowned⟩
      split
      · exact hwritten.expireInOneSecond rfl hinput hdisowns
      · exact hwritten
  · exact h

theorem stopPoof (h : e.Timely events now) (spread : Spread) (a : AvahiAddress) :
    (e.stopPoof spread a).Timely events now := by
  rw [AvahiCacheEntry.stopPoof]
  split
  · exact h.nextExpiry spread rfl
  · exact h

/-- What is heard is valid. -/
theorem of_heard (e : AvahiCacheEntry) {spread spread' : Spread} {cacheFlush : Bool}
    {a : AvahiAddress} (hmem : (now, .update spread' e.record cacheFlush a) ∈ events) :
    (e.heard now spread cacheFlush a).Timely events now := by
  refine ⟨⟨spread', cacheFlush, a, hmem⟩, Nat.le_refl now, ?_, fun hnone => by cases hnone⟩
  intro percent hpercent
  obtain rfl : 80 = percent := Option.some.inj hpercent
  have hspread := spread.property (e.record.ttl.toNat * 10000 * 2)
  simp only [AvahiCacheEntry.heard, AvahiCacheEntry.nextExpiry, Nat.mul_add]
  omega

end AvahiCacheEntry.Timely

namespace AvahiCache

variable {c : AvahiCache} {e : AvahiCacheEntry} {events : List (Nat × CacheInput)} {now : Nat}

theorem mem_walk {key : NormalKey} (h : e ∈ c.walk key) : e ∈ c.entries := by
  rw [walk] at h
  split at h
  · exact List.mem_of_mem_filter h
  · obtain ⟨_, _, hfound⟩ := List.mem_filterMap.mp h
    exact (mem_of_lookupBy hfound).1

theorem mem_setEntry {other : AvahiCacheEntry} (h : other ∈ (c.setEntry e).entries) :
    other = e ∨ other ∈ c.entries := mem_replace h

/-- An entry that a walk comes to has a key that matches. -/
theorem Wf.walk_disowns (h : c.Wf) (he : e ∈ c.entries) {key : NormalKey}
    (hwalk : ((c.walk key).any fun other => other.address = e.address) = true) (t : Nat)
    (a : AvahiAddress) :
    (CacheInput.startPoof key a).disowns e t := by
  obtain ⟨other, hother, haddress⟩ := List.any_eq_true.mp hwalk
  have hsame := of_decide_eq_true haddress
  rw [CacheInput.disowns]
  by_cases hpattern : key.key.isPattern = true
  · rw [if_pos hpattern]
    rw [walk, if_pos hpattern, List.mem_filter, decide_eq_true_eq] at hother
    obtain rfl := h.addresses.eq hother.1 he hsame
    exact hother.2
  · rw [if_neg hpattern]
    rw [h.walk_eq (Bool.not_eq_true _ |>.mp hpattern)] at hother
    exact h.keyCls_eq he hother hsame

theorem timely_dropOld (h : c.Wf) (hall : ∀ e ∈ c.entries, e.Timely events now)
    {spread : Spread} {r : PostedRecord} {a : AvahiAddress}
    (hmem : (now, .update spread r true a) ∈ events)
    (hr : r.ttl ≠ 0) : ∀ e ∈ (c.dropOld now r.key).entries, e.Timely events now := by
  intro e he
  obtain ⟨old, hold, rfl⟩ := List.mem_map.mp he
  split
  · rename_i hlisted
    apply (hall old hold).expireInOneSecond rfl hmem
    rw [CacheInput.disowns, if_neg hr]
    rw [h.lookupKey_eq] at hlisted
    obtain ⟨other, hother, hsame⟩ := List.mem_map.mp hlisted.1
    exact ⟨rfl, h.keyCls_eq hold hother hsame, hlisted.2⟩
  · exact hall old hold

theorem timely_store (hall : ∀ e ∈ c.entries, e.Timely events now) {max : Nat} {spread : Spread}
    {r : PostedRecord} {cacheFlush : Bool} {a : AvahiAddress}
    (hmem : (now, .update spread r cacheFlush a) ∈ events) :
    ∀ e ∈ (c.store max now spread r cacheFlush a).entries, e.Timely events now := by
  intro e he
  rw [store] at he
  split at he
  · rcases mem_setEntry he with rfl | he
    · exact .of_heard _ hmem
    · exact hall e he
  · split at he
    · exact hall e he
    · rcases List.mem_cons.mp he with rfl | he
      · exact .of_heard _ hmem
      · exact hall e he

theorem timely_update (h : c.Good) (hall : ∀ e ∈ c.entries, e.Timely events now) {max : Nat}
    {spread : Spread} {r : PostedRecord} {cacheFlush : Bool} {a : AvahiAddress}
    (hmem : (now, .update spread r cacheFlush a) ∈ events) :
    ∀ e ∈ (c.update max now spread r cacheFlush a).entries, e.Timely events now := by
  intro e he
  rw [update, h.wf.lookupRecord_eq] at he
  split at he
  · rename_i hgoodbye
    cases hfound : lookupBy AvahiCacheEntry.cls r.cls c.entries with
    | none =>
        rw [hfound] at he
        exact hall e he
    | some old =>
        rw [hfound] at he
        obtain ⟨hold, hcls⟩ := mem_of_lookupBy hfound
        rcases mem_setEntry he with rfl | he
        · apply (hall old hold).expireInOneSecond rfl hmem
          rw [CacheInput.disowns, if_pos hgoodbye]
          exact hcls.symm
        · exact hall e he
  · rename_i hr
    split at he
    · rename_i hflush
      subst hflush
      exact timely_store (timely_dropOld h.wf hall hmem hr) hmem e he
    · exact timely_store hall hmem e he

end AvahiCache

namespace CacheHost

variable {max now : Nat} {host next : CacheHost} {input : CacheInput}
  {events : List (Nat × CacheInput)}

theorem Stepped.timely {c d : AvahiCache} (h : Stepped max c now input d) (hc : c.Good)
    (hall : ∀ e ∈ c.entries, e.Timely events now) (hmem : (now, input) ∈ events) :
    ∀ e ∈ d.entries, e.Timely events now := by
  intro e he
  cases h with
  | update spread record cacheFlush origin => exact AvahiCache.timely_update hc hall hmem e he
  | @elapse spread subscribed old hold _ =>
      rw [AvahiCache.elapseFunc] at he
      cases hnext : old.state.next with
      | none =>
          rw [hnext] at he
          exact hall e (List.mem_of_mem_filter he)
      | some later =>
          rw [hnext] at he
          rcases AvahiCache.mem_setEntry he with rfl | he
          · exact (hall old hold).nextExpiry spread (AvahiCacheEntryState.next_ends hnext)
          · exact hall e he
  | flush =>
      rw [AvahiCache.flush, (hc.foldl_removeEntry rfl).2] at he
      cases he
  | startPoof key querier =>
      obtain ⟨old, hold, rfl⟩ := List.mem_map.mp he
      split
      · rename_i hwalk
        exact (hall old hold).startPoof hmem (hc.wf.walk_disowns hold hwalk now querier)
      · exact hall old hold
  | stopPoof spread record querier =>
      rw [AvahiCache.stopPoof, hc.wf.lookupRecord_eq] at he
      cases hfound : lookupBy AvahiCacheEntry.cls record.cls c.entries with
      | none =>
          rw [hfound] at he
          exact hall e he
      | some old =>
          rw [hfound] at he
          rcases AvahiCache.mem_setEntry he with rfl | he
          · exact (hall old (mem_of_lookupBy hfound).1).stopPoof spread querier
          · exact hall e he

theorem run_timely (hrun : (machine max).run events = some host) :
    ∀ e ∈ host.cache.entries, e.Timely events host.now := by
  refine (machine max).run_induction
    (P := fun events host => ∀ e ∈ host.cache.entries, e.Timely events host.now) ?_ ?_ events
    host hrun
  · exact fun e he => absurd he List.not_mem_nil
  · rintro earlier host ⟨now, input⟩ next hearlier hall hstep
    obtain ⟨hlater, hnow, hstepped⟩ := step_spec hstep
    rw [hnow]
    apply hstepped.timely (run_good hearlier)
    · exact fun e he => (hall e he).later hlater (now, input)
    · exact List.mem_append_right _ (List.mem_singleton.mpr rfl)

/-- The known answers of a query can be sent if what was heard can. -/
theorem knownAnswers_sendable (hrun : (machine max).run events = some host)
    (hheard : ∀ t spread record cacheFlush origin,
      (t, CacheInput.update spread record cacheFlush origin) ∈ events →
        record.record.Sendable) :
    SendableWalk (host.cache.knownAnswers host.now) := by
  intro key record hrecord
  obtain ⟨e, he, rfl⟩ := List.mem_map.mp hrecord
  have hcached := AvahiCache.mem_walk (List.mem_of_mem_filter he)
  obtain ⟨spread, cacheFlush, origin, hmem⟩ := (run_timely hrun e hcached).heard
  exact hheard e.timestamp spread e.record cacheFlush origin hmem

/-- Nothing but the end of an entry, or a flush, makes its record go. -/
theorem Stepped.gone {c d : AvahiCache} (h : Stepped max c now input d) (hc : c.Good)
    {e : AvahiCacheEntry} (he : e ∈ c.entries)
    (hgone : e.cls ∉ d.entries.map AvahiCacheEntry.cls) :
    input = .flush ∨ e.state.next = none ∧ e.expiry ≤ now := by
  have hcls : e.cls ∈ c.entries.map AvahiCacheEntry.cls := List.mem_map_of_mem he
  cases h with
  | update spread record cacheFlush origin =>
      exact absurd (AvahiCache.classes_update hc spread record cacheFlush origin hcls) hgone
  | @elapse spread subscribed old hold hdue =>
      rw [AvahiCache.elapseFunc] at hgone
      cases hnext : old.state.next with
      | none =>
          rw [hnext] at hgone
          by_cases hsame : e.address = old.address
          · obtain rfl := hc.wf.addresses.eq he hold hsame
            exact Or.inr ⟨hnext, hdue⟩
          · exact absurd (List.mem_map_of_mem (List.mem_filter.mpr ⟨he, decide_eq_true hsame⟩))
              hgone
      | some later =>
          rw [hnext] at hgone
          have hkept := AvahiCache.classes_setEntry hc.wf hold
            (e := { old with state := later.1 }.nextExpiry spread later.2) rfl rfl
          exact absurd (hkept ▸ hcls) hgone
  | flush => exact Or.inl rfl
  | startPoof key querier =>
      have hkept : (c.startPoof now key querier).entries.map AvahiCacheEntry.cls =
          c.entries.map AvahiCacheEntry.cls := by
        apply AvahiCache.map_cls
        intro e _
        split
        · rw [AvahiCacheEntry.cls, (e.startPoof_kept now querier).2, AvahiCacheEntry.cls]
        · rfl
      exact absurd (hkept ▸ hcls) hgone
  | stopPoof spread record querier =>
      rw [AvahiCache.stopPoof] at hgone
      split at hgone
      · rename_i old hfound
        rw [hc.wf.lookupRecord_eq] at hfound
        obtain ⟨haddress, hrecord⟩ := old.stopPoof_kept spread querier
        have hkept := AvahiCache.classes_setEntry hc.wf (mem_of_lookupBy hfound).1 haddress
          (by rw [AvahiCacheEntry.cls, hrecord, AvahiCacheEntry.cls])
        exact absurd (hkept ▸ hcls) hgone
      · exact absurd hcls hgone

/-- In every run, a record stays in the cache until its TTL is over, or for a second
after something has disowned it, unless the whole cache is flushed. -/
theorem records_stay (hrun : (machine max).run events = some host)
    (hstep : (machine max).step host (now, input) = some next) {e : AvahiCacheEntry}
    (he : e ∈ host.cache.entries) (hgone : e.cls ∉ next.cache.entries.map AvahiCacheEntry.cls) :
    input = .flush ∨ e.timestamp + e.record.ttl.toNat * 1000000 ≤ now ∨
      ∃ t, e.Disowned events t ∧ t + 1000000 ≤ now := by
  rcases (step_spec hstep).2.2.gone (run_good hrun) he hgone with hflush | ⟨hnext, hexpiry⟩
  · exact Or.inl hflush
  · have htimely := run_timely hrun e he
    refine Or.inr ?_
    cases hends : e.state.ends with
    | none =>
        obtain ⟨t, hdisowned, heq⟩ := htimely.disowned hends
        exact Or.inr ⟨t, hdisowned, heq ▸ hexpiry⟩
    | some percent =>
        obtain rfl := AvahiCacheEntryState.ends_of_next hnext hends
        obtain ⟨hdue, _⟩ := htimely.due 100 hends
        exact Or.inl (by omega)

theorem piCaching_stay :
    ∃ host next e, (machine 2).run piCaching = some host ∧
    (machine 2).step host
        (120000000, .elapse ⟨fun _ => 0, fun _ => Nat.zero_le _⟩ (fun _ => true) 0) =
      some next ∧ e ∈ host.cache.entries ∧ next.cache.entries = [] ∧
        (e.timestamp + e.record.ttl.toNat * 1000000 ≤ 120000000 ∨
          ∃ t, e.Disowned piCaching t ∧ t + 1000000 ≤ 120000000) := by
  obtain ⟨host, next, e, hrun, hstep, hmem, hempty⟩ : ∃ host next e,
      (machine 2).run piCaching = some host ∧
        (machine 2).step host
          (120000000, .elapse ⟨fun _ => 0, fun _ => Nat.zero_le _⟩ (fun _ => true) 0) =
            some next ∧
          e ∈ host.cache.entries ∧ next.cache.entries = [] :=
    ⟨_, _, _, rfl, rfl, List.mem_singleton.mpr rfl, rfl⟩
  have hgone : e.cls ∉ next.cache.entries.map AvahiCacheEntry.cls := by
    rw [hempty]
    exact List.not_mem_nil
  refine ⟨host, next, e, hrun, hstep, hmem, hempty, ?_⟩
  rcases records_stay hrun hstep hmem hgone with hflush | hend
  · cases hflush
  · exact hend

end CacheHost

end Lifetime

end NvmrDisplay.Avahi.Dns
