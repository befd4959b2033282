import NvmrDisplay.Avahi.ResponseHistory

/-!
What the response scheduler promises: responses are spaced, what is posted is
settled in time, only what is superfluous is refused, and what is marked as sent
is what the packets have to whoever receives them.
-/

namespace NvmrDisplay.Avahi.Dns

open Discover Lib

/-- A record that its receivers read as it is. -/
structure AvahiRecord.Publishable (r : AvahiRecord) : Prop where
  sendable : r.Sendable
  clazz : r.key.clazz &&& AVAHI_DNS_CACHE_FLUSH = 0

/-- A response, as it arrives. -/
def arrived (response : Response) : AvahiRecord × Bool :=
  (response.record.record.onWire 0, response.flushCache)

/-- Publishable records are not taken for others when they arrive. -/
theorem AvahiRecord.Publishable.folded_onWire {r : AvahiRecord} (h : r.Publishable)
    (maxTtl : UInt32) :
    (r.onWire maxTtl).folded = r.folded := by
  have hclazz : r.key.clazz &&& ~~~AVAHI_DNS_CACHE_FLUSH = r.key.clazz :=
    (keyClass_received h.clazz false).1
  exact congrArg (fun clazz => (foldedName r.key.name, foldedName r.data.target,
    (⟨⟨[], clazz, r.key.type⟩, 0, r.data.withoutTarget⟩ : AvahiRecord))) hclazz

namespace AvahiResponseScheduler

variable {now : Nat} {s t : AvahiResponseScheduler} {rj : AvahiResponseJob} {aux : AuxRecords}
  {p q : AvahiDnsPacket}

/-- All that is scheduled can be sent. -/
def Publishes (s : AvahiResponseScheduler) : Prop := ∀ rj ∈ s.jobs, rj.record.record.Publishable

/-- All that records refer to can be sent. -/
def PublishesAux (aux : AuxRecords) : Prop :=
  ∀ record, ∀ posted ∈ aux record, posted.1.record.Publishable

theorem Posted.publishes {P : NormalRecord → Prop} (h : Posted now P s t) (hs : s.Publishes)
    (hP : ∀ record, P record → record.record.Publishable) : t.Publishes := by
  intro rj hrj
  rcases h.known rj hrj with hrj | hrj
  · exact hs rj hrj
  · exact hP rj.record hrj

/-- A record is added to the packet for its receiver, or the packet is full. -/
theorem packetAddResponseJob_packet (h : s.Good now) (hs : s.Publishes) (haux : PublishesAux aux)
    (hrj : rj ∈ s.jobs) (jitter : Jitter) {items : List (AvahiRecord × Bool)}
    (hp : ResponsePacket p items) :
    match s.packetAddResponseJob now aux jitter p rj with
    | .added q t =>
        ResponsePacket q (items ++ [arrived rj.toResponse]) ∧ q.maxSize = p.maxSize ∧
          p.data.length < q.data.length ∧ t.Good now ∧ t.Publishes ∧
            t.sent = s.sent ++ [(now, rj.cls)]
    | .full => True
    | .undefined => False := by
  have hadded := packetAddResponseJob_added h hrj aux jitter p
  have happend := hp.carries.appendRecord hp.written (hs rj hrj).sendable rj.flushCache 0
  cases hresult : s.packetAddResponseJob now aux jitter p rj with
  | full => trivial
  | undefined =>
      rw [hresult] at hadded
      rw [hadded] at happend
      exact happend
  | added q t =>
      rw [hresult] at hadded
      obtain ⟨⟨offset, hok⟩, hgood, hsent, hknown⟩ := hadded
      rw [hok] at happend
      obtain ⟨hwritten, hmax, hlonger, hgrows, hcarries⟩ := happend
      refine ⟨hp.extend hlonger hwritten hcarries, hmax, hgrows, hgood, ?_, hsent⟩
      intro other hother
      rcases hknown other hother with hother | ⟨posted, hposted, hrecord⟩
      · exact hs other hother
      · rw [hrecord]
        exact haux rj.record posted hposted

/-- The packet is filled with the responses that are marked as sent. -/
theorem fillResponse_packet (haux : PublishesAux aux) (jitter : Jitter) (fuel : Nat)
    {taken : List Response} (h : s.Good now) (hs : s.Publishes)
    (hp : ResponsePacket p (taken.map arrived)) (hfuel : p.maxSize ≤ p.data.length + fuel) :
    ∃ q t more, fillResponse now aux jitter fuel p s taken = some (q, t, taken ++ more) ∧
      ResponsePacket q ((taken ++ more).map arrived) ∧ q.maxSize = p.maxSize ∧ t.Publishes ∧
        (∀ response ∈ more, response.record.record.Publishable) ∧
          t.sent = s.sent ++ more.map fun response => (now, response.record.cls) := by
  have hstop :
      ResponsePacket p ((taken ++ []).map arrived) ∧ p.maxSize = p.maxSize ∧ s.Publishes ∧
      (∀ response ∈ ([] : List Response), response.record.record.Publishable) ∧
        s.sent = s.sent ++ ([] : List Response).map fun response => (now, response.record.cls) := by
    refine ⟨?_, rfl, hs, fun _ hmem => absurd hmem List.not_mem_nil, (List.append_nil _).symm⟩
    rwa [List.append_nil]
  induction fuel generalizing p s taken with
  | zero => exact ⟨p, s, [], by rw [fillResponse, List.append_nil], hstop⟩
  | succ fuel ih =>
      rw [fillResponse]
      cases hjobs : s.jobs with
      | nil => exact ⟨p, s, [], by rw [List.append_nil], hstop⟩
      | cons rj jobs =>
          have hadded :=
            packetAddResponseJob_packet h hs haux (hjobs ▸ List.mem_cons_self ..) jitter hp
          simp only
          cases hresult : s.packetAddResponseJob now aux jitter p rj with
          | undefined =>
              rw [hresult] at hadded
              exact hadded.elim
          | full => exact ⟨p, s, [], by rw [List.append_nil], hstop⟩
          | added p' s' =>
              rw [hresult] at hadded
              obtain ⟨hpacket, hmax, hgrows, hgood, hpublishes, hsent⟩ := hadded
              have hnext : ResponsePacket p' ((taken ++ [rj.toResponse]).map arrived) := by
                rwa [List.map_append, List.map_singleton]
              obtain ⟨q, t, more, hfill, hlast, hlastMax, hready, hmore, hall⟩ :=
                ih hgood hpublishes hnext (by omega) ⟨by rwa [List.append_nil], rfl, hpublishes,
                  fun _ hmem => absurd hmem List.not_mem_nil, (List.append_nil _).symm⟩
              refine ⟨q, t, rj.toResponse :: more, ?_, ?_, hlastMax.trans hmax, hready, ?_, ?_⟩
              · simp only [hfill, List.append_assoc, List.singleton_append]
              · rwa [List.append_assoc, List.singleton_append] at hlast
              · intro response hresponse
                rcases List.mem_cons.mp hresponse with rfl | hresponse
                · exact hs rj (hjobs ▸ List.mem_cons_self ..)
                · exact hmore response hresponse
              · rw [hall, hsent, List.append_assoc]
                rfl

/-- A job is sent so that its receivers accept the packet and read what is marked
as sent. -/
theorem sendResponsePacket_packet (h : s.Good now) (hs : s.Publishes) (haux : PublishesAux aux)
    (hrj : rj ∈ s.jobs) (jitter : Jitter) {mtu : Nat} (hmtu : mtu ≤ AVAHI_DNS_PACKET_SIZE_MAX) :
    ∃ t packet, s.sendResponsePacket now aux jitter mtu rj = some (t, packet) ∧ t.Publishes ∧
      match packet with
      | some p => isResponse p.data = true ∧ ∃ taken : List Response,
          responseRecords p.data = taken.map arrived ∧
            (∀ response ∈ taken, response.record.record.Publishable) ∧
              t.sent = s.sent ++ taken.map fun response => (now, response.record.cls)
      | none => t.sent = s.sent := by
  have hread {p : AvahiDnsPacket} {taken : List Response}
      (hp : ResponsePacket p (taken.map arrived))
      (hne : taken ≠ []) (hcount : taken.length < 65536) :
      isResponse (p.setField AVAHI_DNS_FIELD_ANCOUNT (UInt16.ofNat taken.length)).data = true ∧
        responseRecords (p.setField AVAHI_DNS_FIELD_ANCOUNT (UInt16.ofNat taken.length)).data =
          taken.map arrived := by
    have hread := hp.read (by simpa using hne) (by rwa [List.length_map])
    rwa [List.length_map] at hread
  have hadded := packetAddResponseJob_packet h hs haux hrj jitter (newResponse_packet mtu)
  rw [sendResponsePacket]
  cases hresult : s.packetAddResponseJob now aux jitter (.newResponse mtu true) rj with
  | undefined =>
      rw [hresult] at hadded
      exact hadded.elim
  | added p s' =>
      rw [hresult] at hadded
      obtain ⟨hpacket, hmax, _, hgood, hpublishes, hsent⟩ := hadded
      obtain ⟨q, t, more, hfill, hlast, hlastMax, hready, hmore, hall⟩ :=
        @fillResponse_packet now s' aux p haux jitter p.maxSize [rj.toResponse] hgood hpublishes
          hpacket (Nat.le_add_left _ _)
      have hcount : ([rj.toResponse] ++ more).length < 65536 := by
        have hlt := hlast.carries.count_lt hlast.written
          (hlastMax.trans hmax ▸ newResponse_maxSize_le hmtu true)
        rwa [List.length_map] at hlt
      obtain ⟨hresponse, hrecords⟩ := hread hlast (List.cons_ne_nil _ _) hcount
      refine ⟨t, some (q.setField AVAHI_DNS_FIELD_ANCOUNT
        (UInt16.ofNat ([rj.toResponse] ++ more).length)), ?_, hready, hresponse,
        [rj.toResponse] ++ more, hrecords, ?_, ?_⟩
      · simp only [hfill]
      · intro response hresponse
        rcases List.mem_cons.mp hresponse with rfl | hresponse
        · exact hs rj hrj
        · exact hmore response hresponse
      · rw [hall, hsent, List.append_assoc]
        rfl
  | full =>
      have hagain := packetAddResponseJob_packet h hs haux hrj jitter (newResponse_packet
        (rj.record.record.estimateSize + AVAHI_DNS_PACKET_HEADER_SIZE +
          AVAHI_DNS_PACKET_EXTRA_SIZE))
      simp only
      cases hsecond : s.packetAddResponseJob now aux jitter (.newResponse
        (rj.record.record.estimateSize + AVAHI_DNS_PACKET_HEADER_SIZE +
          AVAHI_DNS_PACKET_EXTRA_SIZE) true) rj with
      | undefined =>
          rw [hsecond] at hagain
          exact hagain.elim
      | added p s' =>
          rw [hsecond] at hagain
          obtain ⟨hpacket, _, _, _, hpublishes, hsent⟩ := hagain
          obtain ⟨hresponse, hrecords⟩ := @hread p [rj.toResponse] hpacket
            (List.cons_ne_nil _ _) (Nat.lt_of_sub_eq_succ rfl)
          refine ⟨s', some (p.setField AVAHI_DNS_FIELD_ANCOUNT 1), rfl, hpublishes, hresponse,
            [rj.toResponse], hrecords, ?_, hsent⟩
          intro response hresponse
          obtain rfl := List.mem_singleton.mp hresponse
          exact hs rj hrj
      | full =>
          refine ⟨_, none, rfl, ?_, ?_⟩
          · exact fun other hother => hs other ((removeJob_sublist s.jobs rj.id).mem hother)
          · exact (sent_jobMarkDone s .tooLarge rj).trans (List.append_nil _)

theorem incoming_jobs (now : Nat) (s : AvahiResponseScheduler) (record : NormalRecord)
    (flushCache : Bool) :
    (s.incoming now record flushCache).sent = s.sent ∧
      ∀ rj ∈ (s.incoming now record flushCache).jobs, rj ∈ s.jobs := by
  rw [incoming]
  cases s.findScheduledJob record with
  | some rj =>
      simp only
      split
      · refine ⟨(sent_jobMarkDone s .answered rj).trans (List.append_nil _), ?_⟩
        exact fun other hother => (removeJob_sublist s.jobs rj.id).mem hother
      · refine ⟨(sent_logged _ rfl).trans (sent_logged _ rfl), ?_⟩
        exact fun other hother => hother
  | none =>
      have hfree (state : AvahiResponseScheduler × Option AvahiResponseJob)
          (hstate : state = s.findHistoryJob now record) :
          state.1.jobs = s.jobs ∧ state.1.log = s.log := by
        rw [hstate, findHistoryJob]
        split
        · exact ⟨rfl, rfl⟩
        · split
          · exact ⟨rfl, rfl⟩
          · exact ⟨rfl, rfl⟩
      simp only
      obtain ⟨hjobs, hlog⟩ := hfree _ rfl
      generalize s.findHistoryJob now record = found at hjobs hlog ⊢
      obtain ⟨t, history⟩ := found
      have hsent : t.sent = s.sent := sent_of_log hlog
      cases history with
      | none => exact ⟨(@sent_logged now t _ rfl).trans hsent, fun _ hother => hjobs ▸ hother⟩
      | some rj =>
          exact ⟨(@sent_logged now t _ rfl).trans hsent, fun _ hother => hjobs ▸ hother⟩

theorem dropKnown_jobs (now : Nat) (s : AvahiResponseScheduler) (record : NormalRecord)
    (querier : AvahiAddress) :
    (s.dropKnown now record querier).sent = s.sent ∧
      ∀ rj ∈ (s.dropKnown now record querier).jobs, rj ∈ s.jobs := by
  rw [dropKnown]
  cases s.findScheduledJob record with
  | none => exact ⟨rfl, fun _ hother => hother⟩
  | some rj =>
      simp only
      split
      · exact ⟨sent_logged _ rfl, fun _ hother => (removeJob_sublist s.jobs rj.id).mem hother⟩
      · exact ⟨rfl, fun _ hother => hother⟩

theorem suppress_jobs (now : Nat) (s : AvahiResponseScheduler) (record : NormalRecord)
    (querier : AvahiAddress) :
    (s.suppress now record querier).sent = s.sent ∧
      ∀ rj ∈ (s.suppress now record querier).jobs, rj ∈ s.jobs := by
  obtain ⟨hdropped, hkept⟩ := dropKnown_jobs now s record querier
  have hfree (state : AvahiResponseScheduler × Option AvahiResponseJob)
      (t : AvahiResponseScheduler) (hstate : state = t.findSuppressedJob now record querier) :
      state.1.jobs = t.jobs ∧ state.1.log = t.log := by
    rw [hstate, findSuppressedJob]
    split
    · exact ⟨rfl, rfl⟩
    · split
      · exact ⟨rfl, rfl⟩
      · exact ⟨rfl, rfl⟩
  rw [suppress]
  generalize s.dropKnown now record querier = t at hdropped hkept ⊢
  obtain ⟨hjobs, hlog⟩ := hfree _ t rfl
  simp only
  generalize t.findSuppressedJob now record querier = found at hjobs hlog ⊢
  obtain ⟨u, known⟩ := found
  have hsent : u.sent = s.sent := (sent_of_log hlog).trans hdropped
  cases known with
  | none =>
      exact ⟨(@sent_logged now u _ rfl).trans hsent, fun _ hother => hkept _ (hjobs ▸ hother)⟩
  | some rj =>
      exact ⟨(@sent_logged now u _ rfl).trans hsent, fun _ hother => hkept _ (hjobs ▸ hother)⟩

end AvahiResponseScheduler

/-- Inputs whose records can be sent. -/
def ResponseInput.Publishable : ResponseInput → Prop
  | .post _ record _ _ _ => record.record.Publishable
  | .incoming _ _ | .suppress _ _ => True
  | .elapse aux _ mtu _ =>
      AvahiResponseScheduler.PublishesAux aux ∧ mtu ≤ AVAHI_DNS_PACKET_SIZE_MAX

namespace ResponseHost

open AvahiResponseScheduler

/-- What a receiver reads in the packets of a host, and when. -/
def onAir (packets : List (Nat × AvahiDnsPacket)) : List (Nat × RecordClass) :=
  packets.flatMap fun packet =>
    (responseRecords packet.2.data).map fun item => (packet.1, item.1.folded)

/-- All that is scheduled can be sent, and what was marked as sent is what was
received. -/
structure Honest (host : ResponseHost) : Prop where
  good : host.scheduler.Good host.now
  publishes : host.scheduler.Publishes
  packets : ∀ packet ∈ host.packets, isResponse packet.2.data = true
  sent : host.scheduler.sent = onAir host.packets

/-- What is received of a packet. -/
theorem onAir_packet {now : Nat} {p : AvahiDnsPacket} {taken : List Response}
    (hrecords : responseRecords p.data = taken.map arrived)
    (hpublishable : ∀ response ∈ taken, response.record.record.Publishable) :
    onAir [(now, p)] = taken.map fun response => (now, response.record.cls) := by
  rw [onAir, List.flatMap_singleton]
  simp only [hrecords, List.map_map]
  apply List.map_congr_left
  intro response hresponse
  exact congrArg (Prod.mk now) ((hpublishable response hresponse).folded_onWire 0)

theorem elapse_honest {host : ResponseHost} (h : host.Honest) {now : Nat} (hle : host.now ≤ now)
    {aux : AuxRecords} (haux : PublishesAux aux) (jitter : Jitter) {mtu : Nat}
    (hmtu : mtu ≤ AVAHI_DNS_PACKET_SIZE_MAX) (id : Nat) :
    ∃ t packet, host.scheduler.elapseCallback now aux jitter mtu id = some (t, packet) ∧
      t.Publishes ∧
      (∀ p ∈ packet, isResponse p.data = true) ∧
        t.sent = onAir (host.packets ++ packet.toList.map fun p => (now, p)) := by
  have hgood := h.good.wait hle
  rw [elapseCallback]
  cases hfound : host.scheduler.jobs.find? fun rj => rj.id = id with
  | none =>
      refine ⟨_, none, rfl, h.publishes, fun p hp => absurd hp (Option.not_mem_none p), ?_⟩
      rw [Option.toList_none, List.map_nil, List.append_nil]
      exact h.sent
  | some rj =>
      obtain ⟨t, packet, hsend, hpublishes, hpacket⟩ :=
        sendResponsePacket_packet hgood h.publishes haux
          (List.mem_of_find?_eq_some hfound) jitter hmtu
      refine ⟨t, packet, hsend, hpublishes, ?_⟩
      cases packet with
      | none =>
          refine ⟨fun p hp => absurd hp (Option.not_mem_none p), ?_⟩
          rw [Option.toList_none, List.map_nil, List.append_nil, ← h.sent]
          exact hpacket
      | some p =>
          obtain ⟨hresponse, taken, hrecords, hpublishable, hsent⟩ := hpacket
          constructor
          · intro other hother
            obtain rfl := Option.mem_some.mp hother
            exact hresponse
          · rw [Option.toList_some, List.map_singleton, onAir, List.flatMap_append, hsent, h.sent,
              ← onAir_packet hrecords hpublishable]
            rfl

theorem step_honest {host after : ResponseHost} {event : Nat × ResponseInput} (h : host.Honest)
    (hevent : event.2.Publishable) (hstep : host.step event = some after) : after.Honest := by
  have hgood := step_good h.good hstep
  obtain ⟨now, input⟩ := event
  obtain ⟨hlater, hstepped⟩ := step_spec hstep
  cases hstepped with
  | post jitter record flushCache querier immediately =>
      have hposted := post_posted (h.good.wait hlater) jitter record flushCache querier immediately
      refine ⟨hgood, hposted.publishes h.publishes ?_, h.packets, hposted.sent.trans h.sent⟩
      rintro _ rfl
      exact hevent
  | incoming record flushCache =>
      obtain ⟨hsent, hjobs⟩ := incoming_jobs now host.scheduler record flushCache
      exact ⟨hgood, fun rj hrj => h.publishes rj (hjobs rj hrj), h.packets, hsent.trans h.sent⟩
  | suppress record querier =>
      obtain ⟨hsent, hjobs⟩ := suppress_jobs now host.scheduler record querier
      exact ⟨hgood, fun rj hrj => h.publishes rj (hjobs rj hrj), h.packets, hsent.trans h.sent⟩
  | @elapse aux jitter mtu rj _ _ _ _ helapse =>
      obtain ⟨t, packet, hresult, hpublishes, hresponse, hsent⟩ :=
        elapse_honest h hlater hevent.1 jitter hevent.2 rj.id
      obtain ⟨rfl, rfl⟩ := Prod.mk.inj (Option.some.inj (helapse.symm.trans hresult))
      refine ⟨hgood, hpublishes, ?_, hsent⟩
      intro other hother
      rcases List.mem_append.mp hother with hother | hother
      · exact h.packets other hother
      · obtain ⟨p, hp, rfl⟩ := List.mem_map.mp hother
        exact hresponse p (Option.mem_toList.mp hp)

theorem run_honest {events : List (Nat × ResponseInput)} {host : ResponseHost}
    (hevents : ∀ event ∈ events, event.2.Publishable) (hrun : machine.run events = some host) :
    host.Honest := by
  refine machine.run_induction
    (P := fun events host => (∀ event ∈ events, event.2.Publishable) → host.Honest) ?_ ?_
    events host hrun hevents
  · intro _
    exact ⟨⟨new_wf, fun cls => .start⟩, fun rj hrj => absurd hrj List.not_mem_nil,
      fun packet hmem => absurd hmem List.not_mem_nil, rfl⟩
  · intro earlier before event after _ hbefore hstep hall
    apply step_honest (hbefore fun other hother => hall other (List.mem_append_left _ hother)) _
      hstep
    exact hall event (List.mem_append_right _ (List.mem_singleton_self _))

end ResponseHost

/-- The bytes of `pi.local`. -/
theorem sendableName_pi : SendableName [112, 105, 46, 108, 111, 99, 97, 108] :=
  ⟨[[112, 105], [108, 111, 99, 97, 108]],
    @properLabels_of_labelsOf [112, 105, 46, 108, 111, 99, 97, 108] (by decide) _ (by decide)
      (by decide),
    by decide, by decide, by decide⟩

/-- An address of `pi.local`. -/
def piAddress : PostedRecord where
  record :=
    ⟨⟨[112, 105, 46, 108, 111, 99, 97, 108], AVAHI_DNS_CLASS_IN, AVAHI_DNS_TYPE_A⟩, 120,
      .a ⟨[10, 0, 0, 7], rfl⟩⟩
  comparable := by
    obtain ⟨labels, hlabels, _, hname, hfits⟩ := sendableName_pi
    exact ⟨⟨labels, hlabels, hname, hfits⟩, trivial⟩
  noPattern := rfl

/-- The same address, to be remembered for longer. -/
def piLonger : PostedRecord where
  record := { piAddress.record with ttl := 300 }
  comparable := ⟨piAddress.comparable.key, piAddress.comparable.data⟩
  noPattern := rfl

/-- The address is sent and, posted again at once, refused. It goes out again
early with a longer TTL, and once more after half a second. -/
def piAnnouncement : List (Nat × ResponseInput) :=
  let jitter : Jitter := ⟨0, by decide⟩
  [(0, .post jitter piAddress true none false), (20000, .elapse (fun _ => []) jitter 1500 0),
    (200000, .post jitter piAddress true none false),
    (300000, .post jitter piLonger true none false), (320000, .elapse (fun _ => []) jitter 1500 1),
    (900000, .post jitter piAddress true none false), (920000, .elapse (fun _ => []) jitter 1500 2)]

namespace ResponseHost

open AvahiResponseScheduler

theorem piAnnouncement_publishable : ∀ event ∈ piAnnouncement, event.2.Publishable := by
  have hpi : piAddress.record.Publishable := ⟨⟨sendableName_pi, trivial⟩, rfl⟩
  have hlonger : piLonger.record.Publishable := ⟨⟨sendableName_pi, trivial⟩, rfl⟩
  have helapse (jitter : Jitter) (id : Nat) :
      (ResponseInput.elapse (fun _ => []) jitter 1500 id).Publishable :=
    ⟨fun _ _ hposted => absurd hposted List.not_mem_nil, by decide⟩
  intro event hevent
  simp only [piAnnouncement, List.mem_cons, List.not_mem_nil, or_false] at hevent
  rcases hevent with rfl | rfl | rfl | rfl | rfl | rfl | rfl
  · exact hpi
  · exact helapse _ 0
  · exact hpi
  · exact hlonger
  · exact helapse _ 1
  · exact hpi
  · exact helapse _ 2

theorem piAnnouncement_run : ∃ host after, machine.run piAnnouncement = some host ∧
    host.now = 920000 ∧ host.scheduler.jobs = [] ∧
      host.scheduler.logOf piAddress.cls =
        [] ++ (0, .posted ⟨piAddress.toNormalRecord, true⟩) :: after ∧
      host.scheduler.sent =
        [(20000, piAddress.cls), (320000, piAddress.cls), (920000, piAddress.cls)] :=
  ⟨_, _, rfl, rfl, rfl, rfl, rfl⟩

/-- In every run, a response goes out again only half a second after it was seen
last, from here or from another host, or when more was asked for than what was
seen. -/
theorem responses_spaced {events : List (Nat × ResponseInput)} {host : ResponseHost}
    (hrun : machine.run events = some host) (cls : RecordClass) :
    Throughout ResponseLife.Lived.Spaced (host.scheduler.logOf cls) :=
  ((run_good events host hrun).lived cls).spaced_and_remembers.1

/-- The second time it was sent early, because more was asked for. -/
theorem piAnnouncement_spaced : ∃ host, machine.run piAnnouncement = some host ∧
    host.scheduler.sent =
      [(20000, piAddress.cls), (320000, piAddress.cls), (920000, piAddress.cls)] ∧
      Throughout ResponseLife.Lived.Spaced (host.scheduler.logOf piAddress.cls) := by
  obtain ⟨host, _, hrun, _, _, _, hsent⟩ := piAnnouncement_run
  exact ⟨host, hrun, hsent, responses_spaced hrun piAddress.cls⟩

/-- In every run, a response is refused only because it was seen a moment ago and
nothing was asked for since, or because the querier said that it knows it. -/
theorem refusals_justified {events : List (Nat × ResponseInput)} {host : ResponseHost}
    (hrun : machine.run events = some host) (cls : RecordClass) :
    Throughout ResponseLife.Lived.Justified (host.scheduler.logOf cls) :=
  ((run_good events host hrun).lived cls).justified_and_recalls.1

theorem piAnnouncement_justified : ∃ host, machine.run piAnnouncement = some host ∧
    Throughout ResponseLife.Lived.Justified (host.scheduler.logOf piAddress.cls) := by
  obtain ⟨host, _, hrun, _⟩ := piAnnouncement_run
  exact ⟨host, hrun, refusals_justified hrun piAddress.cls⟩

/-- In every run with records that can be sent, all receivers accept the packets,
and what they read is what the scheduler marked as sent, when it did. No
assertion fails when the time of a job has come. -/
theorem sent_is_received {events : List (Nat × ResponseInput)} {host : ResponseHost}
    (hevents : ∀ event ∈ events, event.2.Publishable) (hrun : machine.run events = some host) :
    (∀ packet ∈ host.packets, isResponse packet.2.data = true) ∧
      host.scheduler.sent = onAir host.packets ∧
      ∀ rj ∈ host.scheduler.all, ∀ now aux jitter mtu, host.now ≤ now →
        rj.timeEvent ≤ now →
        (ResponseInput.elapse aux jitter mtu rj.id).Publishable →
          (host.step (now, .elapse aux jitter mtu rj.id)).isSome = true := by
  have hhonest := run_honest hevents hrun
  refine ⟨hhonest.packets, hhonest.sent, ?_⟩
  rintro rj hrj now aux jitter mtu hle hdue ⟨haux, hmtu⟩
  obtain ⟨t, packet, helapse, _⟩ := elapse_honest hhonest hle haux jitter hmtu rj.id
  have hany :
      (host.scheduler.all.any fun other => other.id = rj.id && other.timeEvent ≤ now) = true := by
    rw [List.any_eq_true]
    refine ⟨rj, hrj, ?_⟩
    rw [Bool.and_eq_true, decide_eq_true_eq, decide_eq_true_eq]
    exact ⟨rfl, hdue⟩
  rw [step]
  simp only
  rw [if_neg (Nat.not_lt.mpr hle), if_pos hany, helapse]
  rfl

theorem piAnnouncement_received : ∃ host, machine.run piAnnouncement = some host ∧
    (∀ packet ∈ host.packets, isResponse packet.2.data = true) ∧
      host.scheduler.sent = onAir host.packets ∧
      ∀ rj ∈ host.scheduler.all, ∀ now aux jitter mtu, host.now ≤ now →
        rj.timeEvent ≤ now →
        (ResponseInput.elapse aux jitter mtu rj.id).Publishable →
          (host.step (now, .elapse aux jitter mtu rj.id)).isSome = true := by
  obtain ⟨host, _, hrun, _⟩ := piAnnouncement_run
  exact ⟨host, hrun, sent_is_received piAnnouncement_publishable hrun⟩

end ResponseHost

end NvmrDisplay.Avahi.Dns
