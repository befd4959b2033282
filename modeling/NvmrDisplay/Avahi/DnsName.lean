import NvmrDisplay.Avahi.DnsPacket

/-!
Name compression, `avahi-core/dns.c`. Each entry of the name table is a place
where its name can be read, whatever is appended later; so a name that ends with
a pointer reads as the name that was appended. Two bytes of a packet are written
twice, the length of the data of a record, and nothing is read from them before.
-/

namespace NvmrDisplay.Avahi.Dns

open Lib Lib.WireName

/-- The bytes of a packet behind its header that will not change. The cells of
the hole are those that will be written again. -/
def AvahiDnsPacket.known (hole : List Nat) (p : AvahiDnsPacket) : PartialMemory UInt8 :=
  fun cell =>
    if cell ∈ hole then none else PartialMemory.ofList AVAHI_DNS_PACKET_HEADER_SIZE p.data cell

/-- Where a name of the table can be read. -/
def EntryReads (memory : PartialMemory UInt8) (entry : CString × Nat) : Prop :=
  ∃ labels steps used, labelsOf entry.1 = some labels ∧
    ReadsAt AVAHI_DNS_PACKET_HEADER_SIZE memory entry.2 labels steps used ∧ AtLabel labels steps

theorem EntryReads.extend {memory earlier : PartialMemory UInt8} {entry : CString × Nat}
    (h : EntryReads earlier entry) (hext : memory.Extends earlier) : EntryReads memory entry := by
  obtain ⟨labels, steps, used, hlabels, hreads, hsteps⟩ := h
  exact ⟨labels, steps, used, hlabels, hreads.extend hext, hsteps⟩

section Known

variable {hole : List Nat} {p : AvahiDnsPacket}

theorem known_eq_some_iff {cell : Nat} {value : UInt8} :
    p.known hole cell = some value ↔
      cell ∉ hole ∧ AVAHI_DNS_PACKET_HEADER_SIZE ≤ cell ∧ p.data[cell]? = some value := by
  unfold AvahiDnsPacket.known
  split
  · rename_i hmem
    simp [hmem]
  · rename_i hmem
    rw [PartialMemory.ofList_eq_some_iff]
    simp [hmem]

theorem EntryReads.lt_length {entry : CString × Nat} (h : EntryReads (p.known hole) entry) :
    AVAHI_DNS_PACKET_HEADER_SIZE ≤ entry.2 ∧ entry.2 < p.data.length := by
  obtain ⟨labels, steps, used, _, hreads, _⟩ := h
  obtain ⟨value, hvalue⟩ := hreads.isSome
  obtain ⟨_, hheader, hread⟩ := known_eq_some_iff.mp hvalue
  exact ⟨hheader, (List.getElem?_eq_some_iff.mp hread).1⟩

/-- A longer packet knows more. -/
theorem known_extends {q : AvahiDnsPacket} (h : p.data <+: q.data) :
    (q.known hole).Extends (p.known hole) := by
  intro cell value hvalue
  obtain ⟨hmem, hheader, hread⟩ := known_eq_some_iff.mp hvalue
  have hlater := PartialMemory.ofList_extends_of_prefix h cell value
    (PartialMemory.ofList_eq_some_iff.mpr ⟨hheader, hread⟩)
  exact known_eq_some_iff.mpr ⟨hmem, PartialMemory.ofList_eq_some_iff.mp hlater⟩

/-- What is appended to a packet is known, since the hole is before it. -/
theorem known_holds_append (hhole : ∀ cell ∈ hole, cell < p.data.length)
    (hheader : AVAHI_DNS_PACKET_HEADER_SIZE ≤ p.data.length) {q : AvahiDnsPacket}
    {bytes : List UInt8} (hdata : p.data ++ bytes <+: q.data) :
    (q.known hole).Holds p.data.length bytes := by
  have hholds := (PartialMemory.holds_ofList_append bytes hheader).extend
    (PartialMemory.ofList_extends_of_prefix hdata)
  intro k value hvalue
  have hcell := PartialMemory.ofList_eq_some_iff.mp (hholds k value hvalue)
  refine known_eq_some_iff.mpr ⟨?_, hcell⟩
  intro hmem
  have hbefore := hhole _ hmem
  omega

end Known

/-- The packets that this code writes. -/
structure Written (hole : List Nat) (p : AvahiDnsPacket) : Prop where
  header : AVAHI_DNS_PACKET_HEADER_SIZE ≤ p.data.length
  room : p.data.length ≤ p.maxSize
  before : ∀ cell ∈ hole, cell < p.data.length
  names : ∀ entry ∈ p.nameTable, EntryReads (p.known hole) entry

/-- What remains of a packet when an append fails: what was there before. -/
structure Discarded (p q : AvahiDnsPacket) : Prop where
  data : p.data <+: q.data
  maxSize : q.maxSize = p.maxSize
  names : ∀ entry ∈ q.nameTable, entry ∈ p.nameTable ∨ p.data.length ≤ entry.2

/-- What a successful append adds. -/
structure Extended (hole : List Nat) (p q : AvahiDnsPacket) (bytes : List UInt8) : Prop where
  data : q.data = p.data ++ bytes
  maxSize : q.maxSize = p.maxSize
  names : ∀ entry ∈ q.nameTable, entry ∈ p.nameTable ∨ p.data.length ≤ entry.2
  written : Written hole q

theorem Extended.prolongs {hole : List Nat} {p q : AvahiDnsPacket} {bytes : List UInt8}
    (h : Extended hole p q bytes) : p.data <+: q.data := h.data ▸ List.prefix_append _ _

theorem Extended.length {hole : List Nat} {p q : AvahiDnsPacket} {bytes : List UInt8}
    (h : Extended hole p q bytes) : q.data.length = p.data.length + bytes.length := by
  rw [h.data, List.length_append]

theorem Extended.trans {hole : List Nat} {p q r : AvahiDnsPacket} {bytes more : List UInt8}
    (h : Extended hole p q bytes) (hr : Extended hole q r more) :
    Extended hole p r (bytes ++ more) := by
  refine ⟨?_, hr.maxSize.trans h.maxSize, ?_, hr.written⟩
  · rw [hr.data, h.data, List.append_assoc]
  · intro entry hmem
    rcases hr.names entry hmem with hold | hnew
    · exact h.names entry hold
    · exact Or.inr (Nat.le_trans h.prolongs.length_le hnew)

/-- What fails after an append leaves what was there before the append. -/
theorem Extended.discarded {hole : List Nat} {p q r : AvahiDnsPacket} {bytes : List UInt8}
    (h : Extended hole p q bytes) (hr : Discarded q r) : Discarded p r := by
  refine ⟨h.prolongs.trans hr.data, hr.maxSize.trans h.maxSize, ?_⟩
  intro entry hmem
  rcases hr.names entry hmem with hold | hnew
  · exact h.names entry hold
  · exact Or.inr (Nat.le_trans h.prolongs.length_le hnew)

theorem Discarded.refl (p : AvahiDnsPacket) : Discarded p p :=
  ⟨List.prefix_refl _, rfl, fun _ hmem => Or.inl hmem⟩

/-- The `fail` branches of the functions that append. -/
theorem Discarded.restore {p q : AvahiDnsPacket} (h : Discarded p q) :
    (q.restore p.data.length).data = p.data ∧ (q.restore p.data.length).maxSize = p.maxSize ∧
      ∀ entry ∈ (q.restore p.data.length).nameTable, entry ∈ p.nameTable := by
  have hdata : q.data.take p.data.length = p.data := List.prefix_iff_eq_take.mp h.data |>.symm
  refine ⟨hdata, h.maxSize, ?_⟩
  intro entry hmem
  obtain ⟨hmem, hlt⟩ := List.mem_filter.mp hmem
  rcases h.names entry hmem with hold | hnew
  · exact hold
  · simp only [hdata, decide_eq_true_eq] at hlt
    omega

theorem Written.restore {hole : List Nat} {p q : AvahiDnsPacket} (h : Written hole p)
    (hq : Discarded p q) : Written hole (q.restore p.data.length) := by
  obtain ⟨hdata, hmax, hnames⟩ := hq.restore
  generalize q.restore p.data.length = restored at hdata hmax hnames
  refine ⟨hdata ▸ h.header, ?_, hdata ▸ h.before, ?_⟩
  · rw [hdata, hmax]
    exact h.room
  · intro entry hmem
    exact (h.names entry (hnames entry hmem)).extend (known_extends (hdata ▸ List.prefix_refl _))

theorem extend_eq_some_iff {p q : AvahiDnsPacket} {bytes : List UInt8} :
    p.extend bytes = some q ↔
      p.data.length + bytes.length ≤ p.maxSize ∧ q = { p with data := p.data ++ bytes } := by
  unfold AvahiDnsPacket.extend
  split
  · simp only [reduceCtorEq, false_iff, not_and]
    omega
  · rename_i hfits
    simp only [Option.some.injEq, eq_comm, show p.data.length + bytes.length ≤ p.maxSize by omega,
      true_and]

/-- Bytes that no entry of the name table is for. -/
theorem Written.extend {hole : List Nat} {p q : AvahiDnsPacket} (h : Written hole p)
    {bytes : List UInt8} (hq : p.extend bytes = some q) : Extended hole p q bytes := by
  obtain ⟨hfits, rfl⟩ := extend_eq_some_iff.mp hq
  refine ⟨rfl, rfl, fun _ => Or.inl, ?_, ?_, ?_, ?_⟩
  · exact Nat.le_trans h.header (List.prefix_append _ _).length_le
  · rw [List.length_append]
    exact hfits
  · intro cell hmem
    exact Nat.lt_of_lt_of_le (h.before cell hmem) (List.prefix_append _ _).length_le
  · intro entry hmem
    exact (h.names entry hmem).extend (known_extends (List.prefix_append _ _))

theorem insertName_data (p : AvahiDnsPacket) (name : CString) (offset : Nat) :
    (p.insertName name offset).data = p.data ∧
    (p.insertName name offset).maxSize = p.maxSize := by
  unfold AvahiDnsPacket.insertName
  split
  · exact ⟨rfl, rfl⟩
  · exact ⟨rfl, rfl⟩

theorem mem_insertName {p : AvahiDnsPacket} {name : CString} {offset : Nat} {entry : CString × Nat}
    (h : entry ∈ (p.insertName name offset).nameTable) :
    entry = (name, offset) ∨ entry ∈ p.nameTable := by
  unfold AvahiDnsPacket.insertName at h
  split at h
  · exact Or.inr h
  · exact List.mem_cons.mp h

theorem mem_of_lookup {table : List (CString × Nat)} {name : CString} {offset : Nat}
    (h : table.lookup name = some offset) : (name, offset) ∈ table := by
  obtain ⟨before, after, rfl, _⟩ := List.lookup_eq_some_iff.mp h
  exact List.mem_append_right _ (List.mem_cons_self ..)

theorem Written.extended_nil {hole : List Nat} {p : AvahiDnsPacket} (h : Written hole p) :
    Extended hole p p [] := ⟨(List.append_nil _).symm, rfl, fun _ => Or.inl, h⟩

/-- The bytes that are written for a pointer. -/
theorem pointer_bytes_eq {idx : Nat} (h : idx < 0x4000) :
    [UInt8.ofNat ((0xC000 ||| idx) >>> 8), UInt8.ofNat idx] = pointerBytes idx := by
  have hor : 0xC000 ||| idx = 0xC000 + idx := (Nat.two_pow_add_eq_or_of_lt (i := 14) h 3).symm
  have hhigh : (0xC000 ||| idx) >>> 8 = 192 + idx / 256 := by
    rw [hor, Nat.shiftRight_eq_div_pow]
    omega
  have hlow : UInt8.ofNat idx = UInt8.ofNat (idx % 256) := by
    rw [← UInt8.toNat_inj, UInt8.toNat_ofNat', UInt8.toNat_ofNat']
    omega
  rw [hhigh, hlow, pointerBytes]

theorem stringBytes_label {label : List UInt8} (hlabel : label.length ≤ 255) :
    stringBytes label = labelBytes label := by
  unfold stringBytes
  simp only [Nat.min_eq_left hlabel, List.take_length]
  rfl

/-- What the loop of `avahi_dns_packet_append_name` relies on. Entries for longer
names are not looked up any more, so they may still be incomplete. -/
structure Appending (hole : List Nat) (p : AvahiDnsPacket) (name : CString) : Prop where
  header : AVAHI_DNS_PACKET_HEADER_SIZE ≤ p.data.length
  room : p.data.length ≤ p.maxSize
  before : ∀ cell ∈ hole, cell < p.data.length
  names : ∀ entry ∈ p.nameTable, entry.1.length ≤ name.length →
    EntryReads (p.known hole) entry

/-- What the loop leaves when it succeeds. -/
structure NameAppended (hole : List Nat) (p q : AvahiDnsPacket) (labels : List (List UInt8)) :
    Prop where
  data : ∃ more steps, q.data = p.data ++ more ∧ Direct labels steps ∧
    ReadsAt AVAHI_DNS_PACKET_HEADER_SIZE (q.known hole) p.data.length labels steps more.length
  maxSize : q.maxSize = p.maxSize
  room : q.data.length ≤ q.maxSize
  names : ∀ entry ∈ q.nameTable,
    entry ∈ p.nameTable ∨ p.data.length ≤ entry.2 ∧ EntryReads (q.known hole) entry

/-- What the loop returns. -/
def NameResult (hole : List Nat) (p : AvahiDnsPacket) (start : Nat) (labels : List (List UInt8)) :
    Appended → Prop
  | .ok q offset => offset = start ∧ NameAppended hole p q labels
  | .null q =>
      p.data.take start <+: q.data ∧ q.maxSize = p.maxSize ∧
        ∀ entry ∈ q.nameTable, entry ∈ p.nameTable ∨ start ≤ entry.2
  | .undefined => False

theorem NameAppended.prolongs {hole : List Nat} {p q : AvahiDnsPacket} {labels : List (List UInt8)}
    (h : NameAppended hole p q labels) : p.data <+: q.data := by
  obtain ⟨more, _, hdata, _⟩ := h.data
  exact hdata ▸ List.prefix_append _ _

section Loop

variable {hole : List Nat} {p : AvahiDnsPacket} {name : CString}

theorem Appending.extend {q : AvahiDnsPacket} {bytes : List UInt8} (h : Appending hole p name)
    (hq : p.extend bytes = some q) {rest : CString} (hrest : rest.length < name.length) :
    Appending hole (q.insertName name p.data.length) rest := by
  obtain ⟨hfits, rfl⟩ := extend_eq_some_iff.mp hq
  generalize hlonger : ({ p with data := p.data ++ bytes } : AvahiDnsPacket) = longer
  obtain ⟨hdata, hmax⟩ := insertName_data longer name p.data.length
  subst hlonger
  simp only at hdata hmax
  refine ⟨?_, ?_, ?_, ?_⟩
  · rw [hdata]
    exact Nat.le_trans h.header (List.prefix_append _ _).length_le
  · rw [hdata, hmax, List.length_append]
    exact hfits
  · intro cell hmem
    rw [hdata]
    exact Nat.lt_of_lt_of_le (h.before cell hmem) (List.prefix_append _ _).length_le
  · intro entry hmem hlength
    rcases mem_insertName hmem with rfl | hold
    · simp only at hlength
      omega
    · refine (h.names entry hold (by omega)).extend (known_extends ?_)
      rw [hdata]
      exact List.prefix_append _ _

/-- The `fail` branch of the loop. -/
theorem restore_take (start : Nat) :
    p.data.take start <+: (p.restore start).data ∧ (p.restore start).maxSize = p.maxSize ∧
      ∀ entry ∈ (p.restore start).nameTable, entry ∈ p.nameTable ∨ start ≤ entry.2 :=
  ⟨List.prefix_refl _, rfl, fun _ hmem => Or.inl (List.mem_filter.mp hmem).1⟩

/-- The byte that ends a name. -/
theorem Appending.root {calls : Nat} (h : Appending hole p []) {labels : List (List UInt8)}
    (hlabels : labelsOf [] = some labels) (start : Nat) :
    NameResult hole p start labels (p.appendNameLoop start calls []) := by
  obtain rfl := Option.some.inj hlabels
  rw [AvahiDnsPacket.appendNameLoop.eq_def]
  simp only
  cases hq : p.extend [0] with
  | none => exact restore_take start
  | some q =>
      obtain ⟨hfits, rfl⟩ := extend_eq_some_iff.mp hq
      refine ⟨rfl, ⟨[0], 1, rfl, Nat.le_refl _, ?_⟩, rfl, ?_, fun _ => Or.inl⟩
      · exact .root (known_holds_append h.before h.header (List.prefix_refl _))
      · rw [List.length_append]
        exact hfits

/-- A name that the table has is appended as a pointer. -/
theorem Appending.pointer (h : Appending hole p name) {labels : List (List UInt8)}
    (hlabels : labelsOf name = some labels) {idx : Nat} (hprev : p.nameTable.lookup name = some idx)
    (hidx : idx < 0x4000) {q : AvahiDnsPacket}
    (hq : p.extend [UInt8.ofNat ((0xC000 ||| idx) >>> 8), UInt8.ofNat idx] = some q) :
    NameAppended hole p q labels := by
  have hentry := h.names _ (mem_of_lookup hprev) (Nat.le_refl _)
  obtain ⟨hheader, hbefore⟩ := hentry.lt_length
  obtain ⟨others, steps, used, hothers, hreads, hsteps⟩ := hentry
  obtain rfl := Option.some.inj (hothers.symm.trans hlabels)
  rw [pointer_bytes_eq hidx] at hq
  obtain ⟨hfits, rfl⟩ := extend_eq_some_iff.mp hq
  refine ⟨⟨pointerBytes idx, steps + 1, rfl, hsteps.pointer, ?_⟩, rfl, ?_, fun _ => Or.inl⟩
  · apply ReadsAt.pointer hheader hbefore hidx
    · exact known_holds_append h.before h.header (List.prefix_refl _)
    · exact hreads.extend (known_extends (List.prefix_append _ _))
  · rw [List.length_append]
    exact hfits

/-- A label is followed by what the rest of the name is appended as. -/
theorem Appending.label (h : Appending hole p name) {label : List UInt8}
    {labels : List (List UInt8)} (hlabel : LabelText label) (hne : label ≠ [])
    (hlabels : labelsOf name = some (label :: labels)) {longer q : AvahiDnsPacket}
    (hlonger : p.extend (labelBytes label) = some longer)
    (hq : NameAppended hole (longer.insertName name p.data.length) q labels) :
    NameAppended hole p q (label :: labels) := by
  obtain ⟨hfits, rfl⟩ := extend_eq_some_iff.mp hlonger
  generalize hnext : ({ p with data := p.data ++ labelBytes label } : AvahiDnsPacket) = next at hq
  obtain ⟨hdata, hmax⟩ := insertName_data next name p.data.length
  subst hnext
  simp only at hdata hmax
  obtain ⟨more, steps, hmore, hsteps, hreads⟩ := hq.data
  rw [hdata, List.append_assoc] at hmore
  rw [hdata, List.length_append, labelBytes, List.length_cons, Nat.add_comm label.length 1]
    at hreads
  have hholds : (q.known hole).Holds p.data.length (labelBytes label) := by
    apply known_holds_append h.before h.header
    rw [hmore, ← List.append_assoc]
    exact List.prefix_append _ _
  have hlong := hlabel.length
  have hshort : label.length ≤ 63 := Nat.le_of_lt_succ hlong
  have hwhole := ReadsAt.label (List.length_pos_iff.mpr hne) hshort hholds hreads
  have hused : 1 + label.length + more.length = (labelBytes label ++ more).length := by
    rw [List.length_append, labelBytes, List.length_cons]
    omega
  rw [hused] at hwhole
  refine ⟨⟨labelBytes label ++ more, steps + 1, hmore, (hsteps.label label).direct, hwhole⟩,
    hq.maxSize.trans hmax, hq.room, ?_⟩
  intro entry hmem
  rcases hq.names entry hmem with hold | ⟨hafter, hreads⟩
  · rcases mem_insertName hold with rfl | hold
    · exact Or.inr ⟨Nat.le_refl _, _, _, _, hlabels, hwhole, hsteps.label label⟩
    · exact Or.inl hold
  · refine Or.inr ⟨?_, hreads⟩
    rw [hdata, List.length_append] at hafter
    omega

/-- The whole name is appended, compressed or not, or what was appended of it is
after what was there before. -/
theorem appendNameLoop_spec (start calls : Nat) (h : Appending hole p name)
    (hstart : start ≤ p.data.length) (hcalls : name.length ≤ calls) (hnul : 0 ∉ name)
    {labels : List (List UInt8)} (hlabels : labelsOf name = some labels) (hproper : [] ∉ labels) :
    NameResult hole p start labels (p.appendNameLoop start calls name) := by
  induction calls generalizing p name labels with
  | zero =>
      obtain rfl := List.eq_nil_of_length_eq_zero (Nat.le_zero.mp hcalls)
      exact h.root hlabels start
  | succ calls ih =>
      rcases labelsOf_eq_some hlabels
        with ⟨rfl, _⟩ | ⟨label, rest, others, hne, hread, _, rfl, hrest⟩
      · exact h.root hlabels start
      · cases name with
        | nil => exact absurd rfl hne
        | cons byte tail =>
            rw [AvahiDnsPacket.appendNameLoop.eq_def]
            simp only
            have hbefore (idx : Nat) (hprev : p.nameTable.lookup (byte :: tail) = some idx) :
                idx < p.data.length :=
              (h.names _ (mem_of_lookup hprev) (Nat.le_refl _)).lt_length.2
            have hinside : (p.nameTable.lookup (byte :: tail)).any
                (fun idx => decide (p.data.length ≤ idx)) = false := by
              cases hprev : p.nameTable.lookup (byte :: tail) with
              | none => rfl
              | some idx =>
                  have hlt := hbefore idx hprev
                  rw [Option.any_some, decide_eq_false_iff_not]
                  omega
            rw [hinside, if_neg Bool.false_ne_true]
            cases hsmall :
                (p.nameTable.lookup (byte :: tail)).filter fun idx => decide (idx < 0x4000) with
            | some idx =>
                obtain ⟨hprev, hidx⟩ := Option.filter_eq_some_iff.mp hsmall
                simp only
                cases hq : p.extend [UInt8.ofNat ((0xC000 ||| idx) >>> 8), UInt8.ofNat idx] with
                | some q => exact ⟨rfl, h.pointer hlabels hprev (of_decide_eq_true hidx) hq⟩
                | none =>
                    exact ⟨List.take_prefix start p.data, rfl, fun _ => Or.inl⟩
            | none =>
                obtain ⟨hlabel, hsuffix, hshorter⟩ := unescapeLabel_some hread
                have hless := hshorter hne
                rw [List.mem_cons, not_or] at hproper
                simp only [hread]
                have hlength := (hlabel hnul).length
                rw [AvahiDnsPacket.appendString, AvahiDnsPacket.append,
                  stringBytes_label (Nat.le_of_lt (Nat.lt_trans hlength (by decide)))]
                cases hextend : p.extend (labelBytes label) with
                | none => exact restore_take start
                | some longer =>
                    obtain ⟨hdata, hmax⟩ := insertName_data longer (byte :: tail) p.data.length
                    rw [(extend_eq_some_iff.mp hextend).2] at hdata hmax
                    have hgrown :
                        p.data <+: (longer.insertName (byte :: tail) p.data.length).data := by
                      rw [(extend_eq_some_iff.mp hextend).2, hdata]
                      exact List.prefix_append _ _
                    have hrec := ih (h.extend hextend hless)
                      (Nat.le_trans hstart hgrown.length_le) (by omega)
                      (fun hmem => hnul (hsuffix.subset hmem)) hrest hproper.2
                    simp only
                    revert hrec
                    cases (longer.insertName (byte :: tail) p.data.length).appendNameLoop start
                        calls rest with
                    | ok q offset =>
                        rintro ⟨hoffset, hq⟩
                        exact ⟨hoffset,
                          h.label (hlabel hnul) (Ne.symm hproper.1) hlabels hextend hq⟩
                    | undefined => exact id
                    | null q =>
                        rintro ⟨hkept, hsize, hnames⟩
                        refine ⟨?_, ?_, ?_⟩
                        · have hsame := List.prefix_iff_eq_take.mp
                            ((List.take_prefix start p.data).trans hgrown)
                          rw [List.length_take, Nat.min_eq_left hstart] at hsame
                          rwa [hsame]
                        · rw [hsize, (extend_eq_some_iff.mp hextend).2]
                          exact hmax
                        · intro entry hmem
                          rcases hnames entry hmem with hold | hnew
                          · rcases mem_insertName hold with rfl | hold
                            · exact Or.inr hstart
                            · rw [(extend_eq_some_iff.mp hextend).2] at hold
                              exact Or.inl hold
                          · exact Or.inr hnew

/-- A name fits where there is room for all its labels and the root. -/
theorem appendNameLoop_fits (start : Nat) {labels : List (List UInt8)}
    (hlabels : ProperLabels labels) {calls : Nat} (hcalls : (nameOf labels).length ≤ calls)
    (hroom : p.data.length + (labels.flatMap labelBytes).length + 1 ≤ p.maxSize) :
    ∀ q, p.appendNameLoop start calls (nameOf labels) ≠ .null q := by
  induction labels generalizing p calls with
  | nil =>
      intro q hq
      rw [nameOf, AvahiDnsPacket.appendNameLoop.eq_def] at hq
      have hextend : p.extend [0] = some { p with data := p.data ++ [0] } :=
        extend_eq_some_iff.mpr ⟨hroom, rfl⟩
      simp only [hextend] at hq
      cases hq
  | cons label labels ih =>
      obtain ⟨hlabel, hne⟩ := hlabels label (List.mem_cons_self ..)
      have hread := unescapeLabel_nameOf hlabel labels
      have hnonempty := mt (nameOf_eq_nil_iff hlabels).mp (List.cons_ne_nil _ _)
      have hless := (unescapeLabel_some hread).2.2 hnonempty
      have hlength := hlabel.length
      have hpos := List.length_pos_iff.mpr hne
      rw [List.flatMap_cons, List.length_append, labelBytes, List.length_cons] at hroom
      intro q
      cases calls with
      | zero => omega
      | succ calls =>
          cases hname : nameOf (label :: labels) with
          | nil => exact absurd hname hnonempty
          | cons byte tail =>
              rw [hname] at hread
              rw [AvahiDnsPacket.appendNameLoop.eq_def]
              simp only [hread]
              split
              · intro hq
                cases hq
              · split
                · rename_i idx _
                  have hextend : p.extend [UInt8.ofNat ((0xC000 ||| idx) >>> 8), UInt8.ofNat idx] =
                      some { p with data := p.data ++
                        [UInt8.ofNat ((0xC000 ||| idx) >>> 8), UInt8.ofNat idx] } := by
                    refine extend_eq_some_iff.mpr ⟨?_, rfl⟩
                    rw [List.length_cons, List.length_cons, List.length_nil]
                    omega
                  rw [hextend]
                  intro hq
                  cases hq
                · have hextend : p.extend (labelBytes label) =
                      some { p with data := p.data ++ labelBytes label } := by
                    refine extend_eq_some_iff.mpr ⟨?_, rfl⟩
                    rw [labelBytes, List.length_cons]
                    omega
                  rw [AvahiDnsPacket.appendString, AvahiDnsPacket.append,
                    stringBytes_label (Nat.le_of_lt (Nat.lt_trans hlength (by decide))), hextend]
                  simp only
                  obtain ⟨hdata, hmax⟩ := insertName_data
                    { p with data := p.data ++ labelBytes label } (byte :: tail) p.data.length
                  apply ih hlabels.tail (by omega)
                  rw [hdata, hmax]
                  simp only [labelBytes, List.length_append, List.length_cons]
                  omega

end Loop

/-- What is to hold of a result: of the packet, the offset and the bytes that
were appended, or else all that was there before is still there. -/
def Appended.Meets (result : Appended) (hole : List Nat) (p : AvahiDnsPacket)
    (post : AvahiDnsPacket → Nat → List UInt8 → Prop) : Prop :=
  match result with
  | .ok q offset => ∃ bytes, Extended hole p q bytes ∧ post q offset bytes
  | .null q => Discarded p q
  | .undefined => False

section Meets

variable {hole : List Nat} {p : AvahiDnsPacket}
  {post later : AvahiDnsPacket → Nat → List UInt8 → Prop}

/-- Two appends, one after the other. -/
theorem Appended.Meets.andThen {first : Appended} {next : AvahiDnsPacket → Nat → Appended}
    (h : first.Meets hole p post)
    (hnext : ∀ q offset bytes, Extended hole p q bytes → post q offset bytes →
      (next q offset).Meets hole q fun r last more => later r last (bytes ++ more)) :
    (first.andThen next).Meets hole p later := by
  cases first with
  | undefined => exact h
  | null q => exact h
  | ok q offset =>
      obtain ⟨bytes, hq, hpost⟩ := h
      have hmeets := hnext q offset bytes hq hpost
      rw [Appended.andThen]
      cases hresult : next q offset with
      | undefined =>
          rw [hresult] at hmeets
          exact hmeets
      | null r =>
          rw [hresult] at hmeets
          exact hq.discarded hmeets
      | ok r last =>
          rw [hresult] at hmeets
          obtain ⟨more, hr, hlater⟩ := hmeets
          exact ⟨bytes ++ more, hq.trans hr, hlater⟩

theorem Appended.Meets.imp {result : Appended} (h : result.Meets hole p post)
    (himp : ∀ q offset bytes, Extended hole p q bytes → post q offset bytes →
    later q offset bytes) :
    result.Meets hole p later := by
  cases result with
  | undefined => exact h
  | null q => exact h
  | ok q offset =>
      obtain ⟨bytes, hq, hpost⟩ := h
      exact ⟨bytes, hq, himp q offset bytes hq hpost⟩

/-- Bytes are appended as they are. -/
theorem append_meets (h : Written hole p) (bytes : List UInt8) :
    (p.append bytes).Meets hole p fun _ offset more => offset = p.data.length ∧ more = bytes := by
  rw [AvahiDnsPacket.append]
  cases hq : p.extend bytes with
  | none => exact Discarded.refl p
  | some q => exact ⟨bytes, h.extend hq, rfl, rfl⟩

/-- A name is appended so that it can be read where it begins. -/
theorem appendName_meets (h : Written hole p) {labels : List (List UInt8)}
    (hlabels : ProperLabels labels) :
    (p.appendName (nameOf labels)).Meets hole p fun q offset more =>
      offset = p.data.length ∧ ∃ steps, Direct labels steps ∧
        ReadsAt AVAHI_DNS_PACKET_HEADER_SIZE (q.known hole) p.data.length labels steps
          more.length := by
  have hloop := appendNameLoop_spec p.data.length (nameOf labels).length
    ⟨h.header, h.room, h.before, fun entry hmem _ => h.names entry hmem⟩ (Nat.le_refl _)
    (Nat.le_refl _) (zero_notMem_nameOf hlabels) (labelsOf_nameOf hlabels) hlabels.nil_notMem
  rw [AvahiDnsPacket.appendName]
  cases hresult : p.appendNameLoop p.data.length (nameOf labels).length (nameOf labels) with
  | undefined =>
      rw [hresult] at hloop
      exact hloop
  | null q =>
      rw [hresult] at hloop
      obtain ⟨hdata, hmax, hnames⟩ := hloop
      rw [List.take_length] at hdata
      exact ⟨hdata, hmax, hnames⟩
  | ok q offset =>
      rw [hresult] at hloop
      obtain ⟨hoffset, hq⟩ := hloop
      obtain ⟨more, steps, hdata, hsteps, hreads⟩ := hq.data
      refine ⟨more, ⟨hdata, hq.maxSize, ?_, ?_, hq.room, ?_, ?_⟩, hoffset, steps,
        hsteps, hreads⟩
      · exact fun entry hmem => (hq.names entry hmem).imp id And.left
      · exact Nat.le_trans h.header hq.prolongs.length_le
      · exact fun cell hmem => Nat.lt_of_lt_of_le (h.before cell hmem) hq.prolongs.length_le
      · intro entry hmem
        rcases hq.names entry hmem with hold | ⟨_, hnew⟩
        · exact (h.names entry hold).extend (known_extends hq.prolongs)
        · exact hnew

end Meets

end NvmrDisplay.Avahi.Dns
