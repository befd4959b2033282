import NvmrDisplay.Avahi.CacheRuns

/-!
Responses fill the cache. A receiver that publishes nothing has no conflicts, so
`handle_response_packet` hands every record that is no pattern to the cache. What
one host announces is then cached by every receiver with room for it.
-/

namespace NvmrDisplay.Avahi.Dns

open Lib
open Discover (AvahiAddress)

theorem mem_consumeMany {α : Type} {consume : Nat → Consumed α} {n rindex : Nat} {item : α}
    (h : item ∈ (consumeMany consume n rindex).1) :
    ∃ start next, consume start = .ok item next := by
  induction n generalizing rindex with
  | zero => cases h
  | succ n ih =>
      rw [consumeMany] at h
      split at h
      · rename_i received next hconsume
        rcases List.mem_cons.mp h with rfl | h
        · exact ⟨rindex, next, hconsume⟩
        · exact ih h
      · cases h
      · cases h

/-- All records that are read can be compared. -/
theorem comparable_of_responseRecords {data : List UInt8} {item : AvahiRecord × Bool}
    (h : item ∈ responseRecords data) : item.1.Comparable := by
  obtain ⟨start, next, hconsume⟩ := mem_consumeMany h
  exact (consumeRecord_inside hconsume).2.2.2

/-- The records of a response that `handle_response_packet` hands to the cache, if
no filters are configured. -/
def heardRecords (data : List UInt8) : List (PostedRecord × Bool) :=
  (responseRecords data).attach.filterMap fun ⟨item, hitem⟩ =>
    if h : item.1.key.isPattern = false then
      some (⟨⟨item.1, comparable_of_responseRecords hitem⟩, h⟩, item.2)
    else none

theorem mem_heardRecords {data : List UInt8} {item : AvahiRecord × Bool}
    (hitem : item ∈ responseRecords data) (h : item.1.key.isPattern = false) :
    (⟨⟨item.1, comparable_of_responseRecords hitem⟩, h⟩, item.2) ∈ heardRecords data := by
  refine List.mem_filterMap.mpr ⟨⟨item, hitem⟩, List.mem_attach _ _, ?_⟩
  simp only [h, dite_true]

theorem heardRecords_length (data : List UInt8) :
    (heardRecords data).length ≤ (responseRecords data).length := by
  refine Nat.le_trans (List.length_filterMap_le _ _) ?_
  rw [List.length_attach]

namespace AvahiCache

variable {c : AvahiCache} {max now : Nat} {spread : Spread} {a : AvahiAddress}

/-- `handle_response_packet`, of a packet from another host. -/
def handleResponsePacket (c : AvahiCache) (max now : Nat) (spread : Spread) (data : List UInt8)
    (a : AvahiAddress) : AvahiCache :=
  (heardRecords data).foldl (fun c item => c.update max now spread item.1 item.2 a) c

/-- A record is cached, or was already, unless there is no room. -/
theorem mem_store (h : c.Good) {r : PostedRecord} {cacheFlush : Bool}
    (hroom : c.entries.length < max) :
    r.cls ∈ (c.store max now spread r cacheFlush a).entries.map AvahiCacheEntry.cls := by
  by_cases hcached : r.cls ∈ c.entries.map AvahiCacheEntry.cls
  · exact classes_store h.wf spread r cacheFlush a hcached
  · have hnone : lookupBy AvahiCacheEntry.cls r.cls c.entries = none := by
      rw [lookupBy_eq_none]
      exact fun e he hcls => hcached (List.mem_map.mpr ⟨e, he, hcls⟩)
    have hcount := h.wf.count
    rw [store, h.wf.find_same, hnone]
    simp only
    rw [if_neg (by omega)]
    exact List.mem_cons_self ..

theorem mem_update (h : c.Good) {r : PostedRecord} {cacheFlush : Bool} (hr : r.ttl ≠ 0)
    (hroom : c.entries.length < max) :
    r.cls ∈ (c.update max now spread r cacheFlush a).entries.map AvahiCacheEntry.cls := by
  rw [update, if_neg hr]
  split
  · apply mem_store (h.dropOld now r.key)
    rw [dropOld, modify, List.length_map]
    exact hroom
  · exact mem_store h hroom

theorem length_update_le (c : AvahiCache) (r : PostedRecord) (cacheFlush : Bool) :
    (c.update max now spread r cacheFlush a).entries.length ≤ c.entries.length + 1 := by
  have hstore (d : AvahiCache) :
      (d.store max now spread r cacheFlush a).entries.length ≤ d.entries.length + 1 := by
    rw [store]
    split
    · rw [setRecord, setEntry, modify, List.length_map]
      exact Nat.le_succ _
    · split
      · exact Nat.le_succ _
      · exact Nat.le_refl _
  rw [update]
  split
  · split
    · rw [setEntry, modify, List.length_map]
      exact Nat.le_succ _
    · exact Nat.le_succ _
  · split
    · have hle := hstore (c.dropOld now r.key)
      rwa [dropOld, modify, List.length_map] at hle
    · exact hstore c

/-- What is cached stays cached as long as only updates come. -/
theorem classes_foldl (h : c.Good) (items : List (PostedRecord × Bool)) :
    c.entries.map AvahiCacheEntry.cls ⊆
      (items.foldl (fun c item => c.update max now spread item.1 item.2 a) c).entries.map
        AvahiCacheEntry.cls := by
  induction items generalizing c with
  | nil => exact List.Subset.refl _
  | cons item items ih =>
      exact List.Subset.trans (classes_update h spread item.1 item.2 a)
        (ih (h.update max now spread item.1 item.2 a))

theorem mem_foldl (h : c.Good) {items : List (PostedRecord × Bool)}
    (hroom : c.entries.length + items.length ≤ max) {item : PostedRecord × Bool}
    (hitem : item ∈ items) (hr : item.1.ttl ≠ 0) : item.1.cls ∈
      (items.foldl (fun c item => c.update max now spread item.1 item.2 a) c).entries.map
        AvahiCacheEntry.cls := by
  induction items generalizing c with
  | nil => cases hitem
  | cons first items ih =>
      rw [List.length_cons] at hroom
      have hgood := h.update max now spread first.1 first.2 a
      rcases List.mem_cons.mp hitem with rfl | hitem
      · exact classes_foldl hgood items (mem_update h hr (by omega))
      · have hlength := @length_update_le max now spread a c first.1 first.2
        refine ih hgood (Nat.le_trans (Nat.add_le_add_right hlength items.length) ?_) hitem
        omega

/-- Every record in a response that is no goodbye is cached if there is room. -/
theorem Good.mem_handleResponsePacket (h : c.Good) {data : List UInt8} {item : AvahiRecord × Bool}
    (hitem : item ∈ responseRecords data) (hpattern : item.1.key.isPattern = false)
    (hr : item.1.ttl ≠ 0) (hroom : c.entries.length + (responseRecords data).length ≤ max) :
    item.1.folded ∈ (c.handleResponsePacket max now spread data a).entries.map
      AvahiCacheEntry.cls := by
  have hlength := heardRecords_length data
  exact mem_foldl h (by omega) (mem_heardRecords hitem hpattern) hr

end AvahiCache

namespace CacheHost

variable {max now : Nat} {spread : Spread} {a : AvahiAddress}

/-- Whatever a host announces is in a response that every host accepts, and in the
cache of every host that has handled it, if there is room, unless it arrives as a
goodbye. -/
theorem announced_cached {events : List (Nat × ResponseInput)} {host : ResponseHost}
    (hevents : ∀ event ∈ events, event.2.Publishable)
    (hrun : ResponseHost.machine.run events = some host)
    {heard : List (Nat × CacheInput)} {receiver : CacheHost}
    (hreceiver : (machine max).run heard = some receiver) {t : Nat} {cls : RecordClass}
    (hsent : (t, cls) ∈ host.scheduler.sent) (hpattern : cls.2.2.key.isPattern = false) :
    ∃ p, (t, p) ∈ host.packets ∧ isResponse p.data = true ∧
      ∃ item ∈ responseRecords p.data, item.1.folded = cls ∧
        (item.1.ttl ≠ 0 →
          receiver.cache.entries.length + (responseRecords p.data).length ≤ max →
          cls ∈ (receiver.cache.handleResponsePacket max now spread p.data a).entries.map
            AvahiCacheEntry.cls) := by
  have hhonest := ResponseHost.run_honest hevents hrun
  rw [hhonest.sent] at hsent
  obtain ⟨packet, hpacket, hitem⟩ := List.mem_flatMap.mp hsent
  obtain ⟨item, hread, hpair⟩ := List.mem_map.mp hitem
  obtain ⟨rfl, rfl⟩ := Prod.mk.inj hpair
  refine ⟨packet.2, hpacket, hhonest.packets packet hpacket, item, hread, rfl, ?_⟩
  intro hr hroom
  exact (run_good hreceiver).mem_handleResponsePacket hread hpattern hr hroom

/-- What is read in the packets: one record each, and no goodbye. -/
theorem piAnnouncement_heard {host : ResponseHost}
    (hrun : ResponseHost.machine.run piAnnouncement = some host) {packet : Nat × AvahiDnsPacket}
    (hpacket : packet ∈ host.packets) : (responseRecords packet.2.data).length = 1 ∧
      ∀ item ∈ responseRecords packet.2.data, item.1.ttl ≠ 0 := by
  have hread : ((ResponseHost.machine.run piAnnouncement).all fun host => host.packets.all
      fun packet => (responseRecords packet.2.data).length = 1 &&
        (responseRecords packet.2.data).all fun item => item.1.ttl ≠ 0) = true := by
    decide +kernel
  rw [hrun, Option.all_some, List.all_eq_true] at hread
  obtain ⟨hlength, httl⟩ := Bool.and_eq_true_iff.mp (hread packet hpacket)
  rw [List.all_eq_true] at httl
  exact ⟨of_decide_eq_true hlength, fun item hitem => of_decide_eq_true (httl item hitem)⟩

/-- A host that has cached nothing yet hears of `pi.local`. -/
theorem piAnnouncement_cached : ∃ host p, ResponseHost.machine.run piAnnouncement = some host ∧
    (20000, p) ∈ host.packets ∧ isResponse p.data = true ∧
      piAddress.cls ∈ (AvahiCache.new.handleResponsePacket 10 20000
        ⟨fun _ => 0, fun _ => Nat.zero_le _⟩ p.data (.inet ⟨10, 0, 0, 7⟩)).entries.map
          AvahiCacheEntry.cls := by
  obtain ⟨host, _, hrun, _, _, _, hsent⟩ := ResponseHost.piAnnouncement_run
  have hfirst : (20000, piAddress.cls) ∈ host.scheduler.sent := by
    rw [hsent]
    exact List.mem_cons_self ..
  have hnew : (machine 10).run [] = some ⟨AvahiCache.new, 0⟩ := rfl
  obtain ⟨p, hpacket, hresponse, item, hitem, _, hcached⟩ :=
    announced_cached ResponseHost.piAnnouncement_publishable hrun hnew hfirst rfl
  obtain ⟨hlength, httl⟩ := piAnnouncement_heard hrun hpacket
  refine ⟨host, p, hrun, hpacket, hresponse, hcached (httl item hitem) ?_⟩
  rw [hlength]
  decide

end CacheHost

end NvmrDisplay.Avahi.Dns
