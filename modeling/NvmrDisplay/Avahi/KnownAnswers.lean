import NvmrDisplay.Avahi.QuerySched

/-!
What the packets of the query scheduler are to who receives them: the questions,
and all known answers that fit into a packet.
-/

namespace NvmrDisplay.Avahi.Dns

open Lib

/-- What is read in a query packet. -/
structure QueryRead (data : List UInt8) (truncated : Bool) (keys : List AvahiKey)
    (answers : List (AvahiRecord × Bool)) : Prop where
  valid : checkValidMulticast data = true
  query : isQuery data = true
  counted : (getField data AVAHI_DNS_FIELD_QDCOUNT).toNat = keys.length
  keys : (queryKeys data).1 = keys.map fun k => (k, false)
  answers : queryAnswers data = answers
  truncated : (getField data AVAHI_DNS_FIELD_FLAGS &&& AVAHI_DNS_FLAG_TC ≠ 0) ↔ truncated = true

/-- Packets of one query: the questions are in the first one, and each but the
last is marked as truncated. -/
inductive QuerySent :
    List AvahiDnsPacket → List AvahiKey → List (AvahiRecord × Bool) → Prop where
  | last {p : AvahiDnsPacket} {keys : List AvahiKey} {answers : List (AvahiRecord × Bool)} :
      QueryRead p.data false keys answers → QuerySent [p] keys answers
  | more {p : AvahiDnsPacket} {packets : List AvahiDnsPacket} {keys : List AvahiKey}
      {answers others : List (AvahiRecord × Bool)} :
      QueryRead p.data true keys answers → QuerySent packets [] others →
        QuerySent (p :: packets) keys (answers ++ others)

/-- A query packet that is being filled with known answers. -/
structure QueryPacket (mtu : Nat) (truncated : Bool) (p : AvahiDnsPacket) (keys : List AvahiKey)
    (answers : List (AvahiRecord × Bool)) : Prop where
  written : Written [] p
  maxSize : p.maxSize = (AvahiDnsPacket.newQuery mtu).maxSize
  carries : ∃ start, Carries consumeRecord p start answers ∧
    ∀ data, (received data).Extends (p.known []) →
      consumeMany (consumeKey data) keys.length AVAHI_DNS_PACKET_HEADER_SIZE =
        (keys.map fun k => (k, false), start)
  flags : getField p.data AVAHI_DNS_FIELD_FLAGS = if truncated then AVAHI_DNS_FLAG_TC else 0
  questions : getField p.data AVAHI_DNS_FIELD_QDCOUNT = UInt16.ofNat keys.length
  few : keys.length < 65536

section Packets

variable {mtu : Nat} {truncated : Bool} {p q : AvahiDnsPacket} {keys : List AvahiKey}
  {answers : List (AvahiRecord × Bool)}

theorem toNat_ofNat_of_lt {n : Nat} (h : n < 65536) : (UInt16.ofNat n).toNat = n := by
  rw [UInt16.toNat_ofNat']
  omega

/-- The header of a query packet can be changed but for the number of questions. -/
theorem QueryPacket.setField (h : QueryPacket mtu truncated p keys answers) {idx : Nat}
    (hidx : idx < 6) (hquestions : idx ≠ AVAHI_DNS_FIELD_QDCOUNT) (v : UInt16) {other : Bool}
    (hflags : getField (p.setField idx v).data AVAHI_DNS_FIELD_FLAGS =
      if other then AVAHI_DNS_FLAG_TC else 0) :
    QueryPacket mtu other (p.setField idx v) keys answers := by
  obtain ⟨start, hanswers, hkeys⟩ := h.carries
  refine ⟨h.written.setField hidx v, h.maxSize, ⟨start, hanswers.setField hidx v, ?_⟩, hflags,
    ?_, h.few⟩
  · intro data hdata
    rw [setField_known hidx v] at hdata
    exact hkeys data hdata
  · rw [getField_setField hidx h.written.header, if_neg (Ne.symm hquestions)]
    exact h.questions

/-- Once its answers are counted, a query packet is read whole. -/
theorem QueryPacket.read (h : QueryPacket mtu truncated p keys answers)
    (hcount : answers.length < 65536) :
    QueryRead (p.setField AVAHI_DNS_FIELD_ANCOUNT (UInt16.ofNat answers.length)).data truncated keys
      answers := by
  have hidx : AVAHI_DNS_FIELD_ANCOUNT < 6 := by decide
  have hfield (other : Nat) :=
    getField_setField hidx h.written.header (UInt16.ofNat answers.length) other
  have hflags := (hfield AVAHI_DNS_FIELD_FLAGS).trans ((if_neg (by decide)).trans h.flags)
  have hquestions := (hfield AVAHI_DNS_FIELD_QDCOUNT).trans ((if_neg (by decide)).trans h.questions)
  have hanswers := (hfield AVAHI_DNS_FIELD_ANCOUNT).trans (if_pos rfl)
  have hlong : AVAHI_DNS_PACKET_HEADER_SIZE ≤
      (p.setField AVAHI_DNS_FIELD_ANCOUNT (UInt16.ofNat answers.length)).data.length := by
    rw [setField_length]
    exact h.written.header
  obtain ⟨start, hcarries, hkeys⟩ := h.carries
  have hself := received_self (p.setField AVAHI_DNS_FIELD_ANCOUNT (UInt16.ofNat answers.length))
  have hread : queryKeys (p.setField AVAHI_DNS_FIELD_ANCOUNT (UInt16.ofNat answers.length)).data =
      (keys.map fun k => (k, false), start) := by
    rw [queryKeys, hquestions, toNat_ofNat_of_lt h.few]
    exact hkeys _ (setField_known hidx _ [] ▸ hself)
  have hcounted : (getField (p.setField AVAHI_DNS_FIELD_ANCOUNT (UInt16.ofNat answers.length)).data
      AVAHI_DNS_FIELD_QDCOUNT).toNat = keys.length := by
    rw [hquestions, toNat_ofNat_of_lt h.few]
  refine ⟨?_, ?_, hcounted, congrArg Prod.fst hread, ?_, ?_⟩
  · rw [checkValidMulticast, hflags, decide_eq_true hlong]
    cases truncated with
    | true => rfl
    | false => rfl
  · rw [isQuery, hflags]
    cases truncated with
    | true => rfl
    | false => rfl
  · rw [queryAnswers, hread]
    simp only
    rw [if_pos ((List.length_map _).trans hcounted.symm), hanswers, toNat_ofNat_of_lt hcount,
      hcarries.setField hidx (UInt16.ofNat answers.length) _ hself]
  · rw [hflags]
    cases truncated with
    | true => exact iff_of_true (by decide) rfl
    | false => exact iff_of_false (by decide) Bool.false_ne_true

theorem newQuery_packet (mtu : Nat) : QueryPacket mtu false (.newQuery mtu) [] [] := by
  obtain ⟨hwritten, hlength, hzero⟩ := new_written mtu
  have hflags : AVAHI_DNS_FIELD_FLAGS < 6 := by decide
  have hstart : (AvahiDnsPacket.newQuery mtu).data.length = AVAHI_DNS_PACKET_HEADER_SIZE :=
    (setField_length _ _ _).trans hlength
  have hnil := Carries.nil consumeRecord (.newQuery mtu)
  rw [hstart] at hnil
  refine ⟨hwritten.setField hflags 0, rfl, ⟨_, hnil, fun _ _ => rfl⟩, ?_, ?_,
    Nat.zero_lt_succ _⟩
  · rw [AvahiDnsPacket.newQuery, getField_setField hflags hwritten.header, if_pos rfl]
    rfl
  · rw [AvahiDnsPacket.newQuery, getField_setField hflags hwritten.header,
      if_neg (by decide), hzero]
    rfl

/-- A packet with no more than a header is as it was when it was new. -/
def Fresh (mtu : Nat) (p : AvahiDnsPacket) : Prop := p.isEmpty = true → p = .newQuery mtu

/-- Nothing is left of a record that did not fit into an empty packet. -/
theorem Fresh.of_data (h : Fresh mtu p) (hq : Written [] q) (hdata : q.data = p.data)
    (hmax : q.maxSize = p.maxSize) : Fresh mtu q := by
  intro hempty
  have hnew : p = .newQuery mtu := h (by rwa [AvahiDnsPacket.isEmpty, hdata] at hempty)
  have hlength : q.data.length ≤ AVAHI_DNS_PACKET_HEADER_SIZE := of_decide_eq_true hempty
  have hnames : q.nameTable = [] := by
    apply List.eq_nil_iff_forall_not_mem.mpr
    intro entry hentry
    have hbounds := (hq.names entry hentry).lt_length
    omega
  obtain ⟨data, maxSize, nameTable⟩ := q
  obtain rfl : nameTable = [] := hnames
  obtain rfl : data = p.data := hdata
  obtain rfl : maxSize = p.maxSize := hmax
  rw [hnew]
  rfl

/-- Whether a record fits into a packet of its own. -/
def fitsAlone (mtu : Nat) (record : AvahiRecord) : Bool :=
  match (AvahiDnsPacket.newQuery mtu).appendRecord record false 0 with
  | .ok _ _ => true
  | .null _ | .undefined => false

/-- A known answer, as it arrives. -/
def knownAnswer (record : AvahiRecord) : AvahiRecord × Bool := (record.onWire 0, false)

theorem QueryPacket.appendRecord (h : QueryPacket mtu truncated p keys answers)
    (hfresh : Fresh mtu p) {record : AvahiRecord} (hrecord : record.Sendable) :
    match p.appendRecord record false 0 with
    | .ok q _ => QueryPacket mtu truncated q keys (answers ++ [knownAnswer record]) ∧ Fresh mtu q
    | .null q => QueryPacket mtu truncated q keys answers ∧ Fresh mtu q ∧
        (q.isEmpty = true → fitsAlone mtu record = false)
    | .undefined => False := by
  obtain ⟨start, hcarries, hkeys⟩ := h.carries
  have happend := hcarries.appendRecord h.written hrecord false 0
  cases hresult : p.appendRecord record false 0 with
  | undefined =>
      rw [hresult] at happend
      exact happend
  | ok q offset =>
      rw [hresult] at happend
      obtain ⟨hwritten, hmax, hlonger, hgrows, hall⟩ := happend
      refine ⟨⟨hwritten, hmax.trans h.maxSize, ⟨start, hall, ?_⟩, ?_, ?_, h.few⟩, ?_⟩
      · intro data hdata
        exact hkeys data (hdata.trans (known_extends hlonger))
      · rw [getField_prolonged hlonger (by decide) h.written.header]
        exact h.flags
      · rw [getField_prolonged hlonger (by decide) h.written.header]
        exact h.questions
      · intro hempty
        have hlength : q.data.length ≤ AVAHI_DNS_PACKET_HEADER_SIZE := of_decide_eq_true hempty
        have hheader := h.written.header
        omega
  | null q =>
      rw [hresult] at happend
      obtain ⟨hwritten, hdata, hmax, hall⟩ := happend
      have hknown : q.known [] = p.known [] := by
        funext cell
        simp only [AvahiDnsPacket.known, hdata]
      have hsame : Fresh mtu q := hfresh.of_data hwritten hdata hmax
      refine ⟨⟨hwritten, hmax.trans h.maxSize, ⟨start, hall, ?_⟩, ?_, ?_, h.few⟩,
        hsame, ?_⟩
      · intro data hreceived
        exact hkeys data (hknown ▸ hreceived)
      · rw [hdata]
        exact h.flags
      · rw [hdata]
        exact h.questions
      · intro hempty
        have hnew : p = .newQuery mtu := hfresh (by rwa [AvahiDnsPacket.isEmpty, hdata] at hempty)
        rw [fitsAlone, ← hnew, hresult]

theorem QueryPacket.count_lt (h : QueryPacket mtu truncated p keys answers)
    (hmtu : mtu ≤ AVAHI_DNS_PACKET_SIZE_MAX) : answers.length < 65536 := by
  obtain ⟨start, hcarries, _⟩ := h.carries
  apply hcarries.count_lt h.written
  rw [h.maxSize]
  exact new_maxSize_le hmtu

/-- What becomes of one known answer: it goes into the packet, or into a new one
behind the packet, or it is left out because it fits into none. -/
inductive AnswerAppended (mtu : Nat) (record : AvahiRecord) (keys : List AvahiKey)
    (answers : List (AvahiRecord × Bool)) :
    List AvahiDnsPacket × AvahiDnsPacket × Nat → List AvahiRecord → Prop where
  | here {q : AvahiDnsPacket} {kept : List AvahiRecord} :
      QueryPacket mtu false q keys (answers ++ kept.map knownAnswer) → Fresh mtu q →
        AnswerAppended mtu record keys answers ([], q, answers.length + kept.length) kept
  | behind {p q : AvahiDnsPacket} {kept : List AvahiRecord} :
      QueryRead p.data true keys answers → QueryPacket mtu false q [] (kept.map knownAnswer) →
        Fresh mtu q → AnswerAppended mtu record keys answers ([p], q, kept.length) kept

/-- Whether a record is kept. -/
def Keeps (mtu : Nat) (record : AvahiRecord) (kept : List AvahiRecord) : Prop :=
  kept = [record] ∨ kept = [] ∧ fitsAlone mtu record = false

/-- An empty packet takes the record, or nothing does. -/
theorem appendKnownAnswer_empty (mtu : Nat) {record : AvahiRecord} (hrecord : record.Sendable)
    (tries : Nat) :
    ∃ q kept, appendKnownAnswer mtu record (tries + 1) (.newQuery mtu) 0 =
      some ([], q, kept.length) ∧
      QueryPacket mtu false q [] (kept.map knownAnswer) ∧ Fresh mtu q ∧
        Keeps mtu record kept := by
  have hempty : (AvahiDnsPacket.newQuery mtu).isEmpty = true := by
    apply decide_eq_true
    rw [AvahiDnsPacket.newQuery, setField_length, (new_written mtu).2.1]
  have happend := (newQuery_packet mtu).appendRecord (fun _ => rfl) hrecord
  rw [appendKnownAnswer]
  cases hresult : (AvahiDnsPacket.newQuery mtu).appendRecord record false 0 with
  | undefined =>
      rw [hresult] at happend
      exact happend.elim
  | ok q offset =>
      rw [hresult] at happend
      exact ⟨q, [record], rfl, happend.1, happend.2, Or.inl rfl⟩
  | null q =>
      rw [hresult] at happend
      have hfits : fitsAlone mtu record = false := by rw [fitsAlone, hresult]
      have hlength : q.data.length = (AvahiDnsPacket.newQuery mtu).data.length := by
        have hspec := appendRecord_spec (newQuery_packet mtu).written hrecord false 0
        rw [hresult] at hspec
        rw [hspec.2.1]
      have hq : q.isEmpty = true := by rwa [AvahiDnsPacket.isEmpty, hlength]
      simp only
      rw [if_pos hq]
      exact ⟨q, [], rfl, happend.1, happend.2.1, Or.inr ⟨rfl, hfits⟩⟩

theorem appendKnownAnswer_spec (hmtu : mtu ≤ AVAHI_DNS_PACKET_SIZE_MAX)
    (h : QueryPacket mtu false p keys answers) (hfresh : Fresh mtu p) {record : AvahiRecord}
    (hrecord : record.Sendable) :
    ∃ result kept, appendKnownAnswer mtu record 2 p answers.length = some result ∧
      AnswerAppended mtu record keys answers result kept ∧ Keeps mtu record kept := by
  have happend := h.appendRecord hfresh hrecord
  rw [appendKnownAnswer]
  cases hresult : p.appendRecord record false 0 with
  | undefined =>
      rw [hresult] at happend
      exact happend.elim
  | ok q offset =>
      rw [hresult] at happend
      exact ⟨_, [record], rfl, @AnswerAppended.here mtu record keys answers q [record]
        happend.1 happend.2, Or.inl rfl⟩
  | null q =>
      rw [hresult] at happend
      obtain ⟨hq, hqFresh, hfits⟩ := happend
      simp only
      by_cases hempty : q.isEmpty = true
      · rw [if_pos hempty]
        have hsame : QueryPacket mtu false q keys
            (answers ++ ([] : List AvahiRecord).map knownAnswer) := by
          rwa [List.map_nil, List.append_nil]
        exact ⟨_, [], rfl, @AnswerAppended.here mtu record keys answers q [] hsame hqFresh,
          Or.inr ⟨rfl, hfits hempty⟩⟩
      · -- The packet is sent with the flag that says that more follow.
        rw [if_neg hempty]
        obtain ⟨last, kept, hlast, hpacket, hlastFresh, hkept⟩ :=
          appendKnownAnswer_empty mtu hrecord 0
        rw [hlast]
        refine ⟨_, kept, rfl, .behind ?_ hpacket hlastFresh, hkept⟩
        have htruncated : QueryPacket mtu true (q.setField AVAHI_DNS_FIELD_FLAGS
            (getField q.data AVAHI_DNS_FIELD_FLAGS ||| AVAHI_DNS_FLAG_TC)) keys answers := by
          apply hq.setField (by decide) (by decide)
          rw [getField_setField (by decide) hq.written.header, if_pos rfl, hq.flags]
          rfl
        exact htruncated.read (h.count_lt hmtu)

/-- All known answers that fit are sent, in their order. -/
theorem appendKnownAnswersAndSend_spec (hmtu : mtu ≤ AVAHI_DNS_PACKET_SIZE_MAX)
    {known : List AvahiRecord} (hknown : ∀ record ∈ known, record.Sendable)
    (h : QueryPacket mtu false p keys answers) (hfresh : Fresh mtu p) :
    ∃ packets kept, appendKnownAnswersAndSend mtu known p answers.length = some packets ∧
      QuerySent packets keys (answers ++ kept.map knownAnswer) ∧ kept.Sublist known ∧
        (known.filter (fitsAlone mtu)).Sublist kept := by
  induction known generalizing p keys answers with
  | nil =>
      refine ⟨_, [], rfl, ?_, List.Sublist.refl _, List.Sublist.refl _⟩
      rw [List.map_nil, List.append_nil]
      exact .last (h.read (h.count_lt hmtu))
  | cons record known ih =>
      obtain ⟨result, kept, hresult, happended, hkeeps⟩ :=
        appendKnownAnswer_spec hmtu h hfresh (hknown record (List.mem_cons_self ..))
      have hrest : ∀ other ∈ known, other.Sendable := fun other hother =>
        hknown other (List.mem_cons_of_mem _ hother)
      have hsublist (others : List AvahiRecord) (hsome : others.Sublist known)
          (hall : (known.filter (fitsAlone mtu)).Sublist others) :
          (kept ++ others).Sublist (record :: known) ∧
            ((record :: known).filter (fitsAlone mtu)).Sublist (kept ++ others) := by
        rcases hkeeps with rfl | ⟨rfl, hfits⟩
        · refine ⟨hsome.cons_cons record, ?_⟩
          rw [List.filter_cons]
          split
          · exact hall.cons_cons record
          · exact hall.cons record
        · refine ⟨hsome.cons record, ?_⟩
          rw [List.filter_cons, if_neg (by rw [hfits]; exact Bool.false_ne_true)]
          exact hall
      rw [appendKnownAnswersAndSend, hresult]
      cases happended with
      | here hpacket hnext =>
          obtain ⟨packets, others, hsend, hsent, hsome, hall⟩ := ih hrest hpacket hnext
          rw [List.length_append, List.length_map] at hsend
          simp only [hsend]
          refine ⟨packets, kept ++ others, rfl, ?_, hsublist others hsome hall⟩
          rwa [List.map_append, ← List.append_assoc]
      | behind hread hpacket hnext =>
          obtain ⟨packets, others, hsend, hsent, hsome, hall⟩ := ih hrest hpacket hnext
          rw [List.length_map] at hsend
          simp only [hsend]
          refine ⟨_, kept ++ others, rfl, ?_, hsublist others hsome hall⟩
          rw [List.map_append]
          exact .more hread hsent

/-- Every key takes its bytes. -/
theorem consumeKeys_length {data : List UInt8} {n start last : Nat}
    {items : List (AvahiKey × Bool)}
    (h : consumeMany (consumeKey data) n start = (items, last)) :
    start + 5 * items.length ≤ last := by
  induction n generalizing start items with
  | zero =>
      obtain ⟨rfl, rfl⟩ := Prod.mk.inj h
      exact Nat.le_refl _
  | succ n ih =>
      rw [consumeMany] at h
      cases hfirst : consumeKey data start with
      | failed =>
          rw [hfirst] at h
          obtain ⟨rfl, rfl⟩ := Prod.mk.inj h
          exact Nat.le_refl _
      | undefined =>
          rw [hfirst] at h
          obtain ⟨rfl, rfl⟩ := Prod.mk.inj h
          exact Nat.le_refl _
      | ok item next =>
          rw [hfirst] at h
          obtain ⟨rfl, rfl⟩ := Prod.mk.inj h
          have hnext := consumeKey_inside hfirst
          have hrest := ih rfl
          rw [List.length_cons]
          omega

/-- A query packet that is being filled with questions. -/
structure QuestionPacket (mtu : Nat) (p : AvahiDnsPacket) (keys : List AvahiKey) : Prop where
  written : Written [] p
  maxSize : p.maxSize = (AvahiDnsPacket.newQuery mtu).maxSize
  carries : Carries consumeKey p AVAHI_DNS_PACKET_HEADER_SIZE (keys.map fun k => (k, false))
  flags : getField p.data AVAHI_DNS_FIELD_FLAGS = 0

theorem newQuery_questions (mtu : Nat) : QuestionPacket mtu (.newQuery mtu) [] := by
  have hnew := newQuery_packet mtu
  have hnil := Carries.nil consumeKey (.newQuery mtu)
  have hstart : (AvahiDnsPacket.newQuery mtu).data.length = AVAHI_DNS_PACKET_HEADER_SIZE :=
    (setField_length _ _ _).trans (new_written mtu).2.1
  rw [hstart] at hnil
  exact ⟨hnew.written, hnew.maxSize, hnil, hnew.flags⟩

/-- One more question, if it fits. -/
theorem QuestionPacket.appendKey (h : QuestionPacket mtu p keys) {k : AvahiKey} (hk : k.Sendable) :
    match p.appendKey k false with
    | .ok q _ => QuestionPacket mtu q (keys ++ [k])
    | .null q => QuestionPacket mtu q keys
    | .undefined => False := by
  have hspec := appendKey_spec h.written hk false
  cases hresult : p.appendKey k false with
  | undefined =>
      rw [hresult] at hspec
      exact hspec
  | null q =>
      rw [hresult] at hspec
      obtain ⟨hwritten, hdata, hmax⟩ := hspec
      have hknown : q.known [] = p.known [] := by
        funext cell
        simp only [AvahiDnsPacket.known, hdata]
      refine ⟨hwritten, hmax.trans h.maxSize, h.carries.congr hknown (hdata ▸ rfl), ?_⟩
      rw [hdata]
      exact h.flags
  | ok q offset =>
      rw [hresult] at hspec
      obtain ⟨_, bytes, hq, hreceived⟩ := hspec
      refine ⟨hq.written, hq.maxSize.trans h.maxSize, ?_, ?_⟩
      · rw [List.map_append]
        apply h.carries.snoc hq.prolongs
        intro data hdata
        rw [hreceived data hdata, hq.length]
      · rw [getField_prolonged hq.prolongs (by decide) h.written.header]
        exact h.flags

/-- With its questions counted, the packet can take known answers. -/
theorem QuestionPacket.count (h : QuestionPacket mtu p keys)
    (hmtu : mtu ≤ AVAHI_DNS_PACKET_SIZE_MAX) (hne : keys ≠ []) :
    QueryPacket mtu false
        (p.setField AVAHI_DNS_FIELD_QDCOUNT (UInt16.ofNat keys.length)) keys [] ∧
      Fresh mtu (p.setField AVAHI_DNS_FIELD_QDCOUNT (UInt16.ofNat keys.length)) := by
  have hidx : AVAHI_DNS_FIELD_QDCOUNT < 6 := by decide
  have hfield := getField_setField hidx h.written.header (UInt16.ofNat keys.length)
  have hlength := consumeKeys_length (h.carries p.data (received_self p))
  rw [List.length_map] at hlength
  have hroom := h.written.room
  have hmax : p.maxSize ≤ AVAHI_DNS_PACKET_SIZE_MAX := h.maxSize.symm ▸ new_maxSize_le hmtu
  have hsize : AVAHI_DNS_PACKET_SIZE_MAX = 65813 := rfl
  have hheader : AVAHI_DNS_PACKET_HEADER_SIZE = 12 := rfl
  have hpos := List.length_pos_iff.mpr hne
  refine ⟨⟨h.written.setField hidx _, h.maxSize, ⟨p.data.length, ?_, ?_⟩, ?_, ?_, by omega⟩,
    ?_⟩
  · have hnil :=
      Carries.nil consumeRecord (p.setField AVAHI_DNS_FIELD_QDCOUNT (UInt16.ofNat keys.length))
    rwa [setField_length] at hnil
  · intro data hdata
    rw [setField_known hidx] at hdata
    have hread := h.carries data hdata
    rwa [List.length_map] at hread
  · rw [hfield, if_neg (by decide)]
    exact h.flags
  · rw [hfield, if_pos rfl]
  · intro hempty
    have hshort : (p.setField AVAHI_DNS_FIELD_QDCOUNT (UInt16.ofNat keys.length)).data.length ≤
        AVAHI_DNS_PACKET_HEADER_SIZE := of_decide_eq_true hempty
    rw [setField_length] at hshort
    omega

end Packets

/-- As many bytes as a question that receivers read can have: the labels, a root or
a pointer, the type and the class. -/
abbrev QUESTION_SIZE_MAX : Nat := 256 + 2 + 2 + 2

theorem append_fits {p : AvahiDnsPacket} {bytes : List UInt8}
    (hroom : p.data.length + bytes.length ≤ p.maxSize) :
    p.append bytes = .ok { p with data := p.data ++ bytes } p.data.length := by
  rw [AvahiDnsPacket.append, extend_eq_some_iff.mpr ⟨hroom, rfl⟩]

/-- A question always fits into a packet of its own. -/
theorem newQuery_appendKey {mtu : Nat}
    (hroom : AVAHI_DNS_PACKET_HEADER_SIZE + QUESTION_SIZE_MAX ≤
      (AvahiDnsPacket.newQuery mtu).maxSize)
    {k : AvahiKey} (hk : k.Sendable) :
    ∃ q offset, (AvahiDnsPacket.newQuery mtu).appendKey k false = .ok q offset := by
  have hwritten := (newQuery_questions mtu).written
  have hstart : (AvahiDnsPacket.newQuery mtu).data.length = AVAHI_DNS_PACKET_HEADER_SIZE :=
    (setField_length _ _ _).trans (new_written mtu).2.1
  generalize AvahiDnsPacket.newQuery mtu = p at hroom hwritten hstart
  obtain ⟨labels, hlabels, _, hname, _⟩ := hk.name
  have hshort := hk.short
  rw [hname] at hshort
  have hwire := length_flatMap_labelBytes_le labels
  have hsize : QUESTION_SIZE_MAX = 262 := rfl
  have hmeets := appendName_meets hwritten hlabels
  have hfits : ∀ q, p.appendName (nameOf labels) ≠ .null q :=
    appendNameLoop_fits p.data.length hlabels (Nat.le_refl _) (by omega)
  rw [AvahiDnsPacket.appendKey, AvahiDnsPacket.appendKeyParts, hname]
  cases hfirst : p.appendName (nameOf labels) with
  | undefined =>
      rw [hfirst] at hmeets
      exact hmeets.elim
  | null q => exact absurd hfirst (hfits q)
  | ok q offset =>
      rw [hfirst] at hmeets
      obtain ⟨bytes, hq, _, steps, _, hreads⟩ := hmeets
      have hused := hreads.used_le
      have hmax := hq.maxSize
      have hlength := hq.length
      have htype (v : UInt16) : (bytes16 v).length = 2 := rfl
      have hroomType : q.data.length + (bytes16 k.type).length ≤ q.maxSize := by
        rw [htype]
        omega
      rw [Appended.andThen, AvahiDnsPacket.appendUint16, append_fits hroomType, Appended.andThen,
        AvahiDnsPacket.appendUint16, append_fits]
      · exact ⟨_, _, rfl⟩
      · rw [htype, List.length_append, htype]
        simp only
        omega

section Questions

open AvahiQueryScheduler

variable {now mtu : Nat} {s : AvahiQueryScheduler} {p : AvahiDnsPacket} {keys : List NormalKey}
  {walk : CacheWalk}

/-- All questions that are scheduled can be sent. -/
def AvahiQueryScheduler.Asks (s : AvahiQueryScheduler) : Prop :=
  ∀ qj ∈ s.all, qj.key.key.Sendable

/-- The cache has records that can be sent. -/
def SendableWalk (walk : CacheWalk) : Prop := ∀ k, ∀ record ∈ walk k, record.Sendable

/-- What is logged of questions that were asked. -/
def askedNow (now : Nat) (keys : List NormalKey) : List (Nat × QueryEvent) :=
  keys.map fun k => (now, .done .here k)

theorem AvahiQueryScheduler.Asks.jobMarkDone (h : s.Asks) {qj : AvahiQueryJob} (hqj : qj ∈ s.jobs)
    (who : Asked) : (s.jobMarkDone now who qj).Asks := by
  intro other hother
  rcases List.mem_append.mp hother with hother | hother
  · exact h other (List.mem_append_left _ (List.mem_of_mem_filter hother))
  · rcases List.mem_cons.mp hother with rfl | hother
    · exact h qj (List.mem_append_left _ hqj)
    · exact h other (List.mem_append_right _ hother)

/-- What filling the packet did: the questions that were added are those that were
marked, and their answers are the known answers. -/
structure Filled (now mtu : Nat) (walk : CacheWalk) (s : AvahiQueryScheduler)
    (keys asked : List NormalKey) (q : AvahiDnsPacket) (t : AvahiQueryScheduler) : Prop where
  asks : t.Asks
  packet : QuestionPacket mtu q ((keys ++ asked).map NormalKey.key)
  log : t.log = s.log ++ askedNow now asked

theorem Filled.nothing (hs : s.Asks) (hp : QuestionPacket mtu p (keys.map NormalKey.key)) :
    Filled now mtu walk s keys [] p s := by
  refine ⟨hs, ?_, (List.append_nil _).symm⟩
  rwa [List.append_nil]

theorem fillQuery_spec (turns : Nat) (hs : s.Asks)
    (hp : QuestionPacket mtu p (keys.map NormalKey.key)) (known : List AvahiRecord) (n : Nat) :
    ∃ q t asked, s.fillQuery now walk turns p known n =
        some (q, t, (asked.flatMap walk).reverse ++ known, n + asked.length) ∧
      Filled now mtu walk s keys asked q t := by
  induction turns generalizing s p keys known n with
  | zero => exact ⟨p, s, [], rfl, .nothing hs hp⟩
  | succ turns ih =>
      rw [fillQuery]
      cases hjobs : s.jobs with
      | nil => exact ⟨p, s, [], rfl, .nothing hs hp⟩
      | cons qj rest =>
          have hqj : qj ∈ s.jobs := hjobs ▸ List.mem_cons_self ..
          have happend := hp.appendKey (hs qj (List.mem_append_left _ hqj))
          simp only
          rw [packetAddQueryJob]
          cases hresult : p.appendKey qj.key.key false with
          | undefined =>
              rw [hresult] at happend
              exact happend.elim
          | null q =>
              rw [hresult] at happend
              exact ⟨q, s, [], rfl, .nothing hs happend⟩
          | ok q offset =>
              rw [hresult] at happend
              have hnext : QuestionPacket mtu q ((keys ++ [qj.key]).map NormalKey.key) := by
                rwa [List.map_append]
              obtain ⟨q', t, asked, hfill, hfilled⟩ :=
                ih (hs.jobMarkDone hqj .here) hnext ((walk qj.key).reverse ++ known) (n + 1)
              have hknown : (asked.flatMap walk).reverse ++ ((walk qj.key).reverse ++ known) =
                  ((qj.key :: asked).flatMap walk).reverse ++ known := by
                rw [List.flatMap_cons, List.reverse_append, List.append_assoc]
              have hcount : n + 1 + asked.length = n + (qj.key :: asked).length := by
                rw [List.length_cons]
                omega
              refine ⟨q', t, qj.key :: asked, ?_, hfilled.asks, ?_, ?_⟩
              · simp only
                rw [hfill, hknown, hcount]
              · have hpacket := hfilled.packet
                rwa [List.append_assoc] at hpacket
              · rw [hfilled.log, jobMarkDone, List.append_assoc]
                rfl

/-- What is sent when a job elapses: packets that are read whole, with its question
first, and with all known answers that fit. -/
theorem sendQuery_spec (hs : s.Asks) {qj : AvahiQueryJob} (hqj : qj ∈ s.jobs)
    (hwalk : SendableWalk walk)
    (hroom : AVAHI_DNS_PACKET_HEADER_SIZE + QUESTION_SIZE_MAX ≤
      (AvahiDnsPacket.newQuery mtu).maxSize)
    (hmtu : mtu ≤ AVAHI_DNS_PACKET_SIZE_MAX) :
    ∃ t sent asked kept, s.sendQuery now walk mtu qj = some (t, sent) ∧ t.Asks ∧
      t.log = s.log ++ askedNow now (qj.key :: asked) ∧
      QuerySent sent ((qj.key :: asked).map NormalKey.key) (kept.map knownAnswer) ∧
      kept.Sublist ((qj.key :: asked).flatMap walk).reverse ∧
      (((qj.key :: asked).flatMap walk).reverse.filter (fitsAlone mtu)).Sublist kept := by
  have hkey := hs qj (List.mem_append_left _ hqj)
  obtain ⟨p, offset, hfits⟩ := newQuery_appendKey hroom hkey
  have hfirst := (newQuery_questions mtu).appendKey hkey
  rw [hfits] at hfirst
  obtain ⟨q, t, asked, hfill, hfilled⟩ :=
    @fillQuery_spec now mtu (s.jobMarkDone now .here qj) p [qj.key] walk
    (s.jobMarkDone now .here qj).jobs.length (hs.jobMarkDone hqj .here) hfirst
    ((walk qj.key).reverse ++ []) 1
  obtain ⟨hpacket, hfresh⟩ := hfilled.packet.count hmtu (List.cons_ne_nil _ _)
  have hknown : (asked.flatMap walk).reverse ++ ((walk qj.key).reverse ++ []) =
      ((qj.key :: asked).flatMap walk).reverse := by
    rw [List.append_nil, List.flatMap_cons, List.reverse_append]
  have hcount : 1 + asked.length = (([qj.key] ++ asked).map NormalKey.key).length := by
    rw [List.length_map, List.length_append, List.length_singleton]
  have hsendable : ∀ record ∈ ((qj.key :: asked).flatMap walk).reverse, record.Sendable := by
    intro record hrecord
    obtain ⟨k, _, hrecord⟩ := List.mem_flatMap.mp (List.mem_reverse.mp hrecord)
    exact hwalk k record hrecord
  obtain ⟨packets, kept, hsend, hsent, hsome, hall⟩ :=
    appendKnownAnswersAndSend_spec hmtu hsendable hpacket hfresh
  rw [List.length_nil] at hsend
  refine ⟨t, packets, asked, kept, ?_, hfilled.asks, ?_, hsent, hsome, hall⟩
  · rw [sendQuery, packetAddQueryJob, hfits]
    simp only
    rw [hfill, hknown, hcount]
    simp only
    rw [hsend]
    rfl
  · rw [hfilled.log, jobMarkDone, List.append_assoc]
    rfl

end Questions

end NvmrDisplay.Avahi.Dns
