import NvmrDisplay.Avahi.DomainLabel
import Mathlib.Data.List.Induction

/-!
Domain names as sequences of labels, `avahi-common/domain.c`. Every function
that takes a name apart calls `avahi_unescape_label` with a buffer for a label
until the name is used up, so what these calls return is computed once, as
`Labels`. A failed assertion ends the process; a function that asserts returns
`none` then.
-/

namespace NvmrDisplay.Avahi

/-- What the calls of `avahi_unescape_label` on a name return, one after the
other: the name before the call, the label and the name after it. -/
inductive Labels where
  | ended
  | malformed
  | read (name : CString) (label : List UInt8) (rest : CString) (next : Labels)

/-- Every label takes at least one byte of the name, so there are calls enough. -/
def scanFrom : Nat → CString → Labels
  | _, [] => .ended
  | 0, _ => .malformed
  | calls + 1, name =>
      match unescapeLabel name AVAHI_LABEL_MAX with
      | none => .malformed
      | some (label, rest) => .read name label rest (scanFrom calls rest)

def scan (name : CString) : Labels := scanFrom name.length name

/-- The labels, if the whole name can be read. -/
def Labels.texts : Labels → Option (List (List UInt8))
  | .ended => some []
  | .malformed => none
  | .read _ label _ next => next.texts.map fun texts => label :: texts

def labelsOf (name : CString) : Option (List (List UInt8)) := (scan name).texts

/-- The name that has these labels. -/
def nameOf : List (List UInt8) → CString
  | [] => []
  | [label] => escape label
  | label :: next :: labels => escape label ++ dot :: nameOf (next :: labels)

/-- What `avahi_normalize_name` returns: `NULL`, or its buffer. A last label that
did not fit leaves it without a NUL, if something was written at all. -/
inductive Normalized where
  | null
  | assertionFailed
  | buffer (text : CString) (terminated : Bool)
  deriving DecidableEq, Repr

/-- The loop of `avahi_normalize_name`. It does not look at what
`avahi_escape_label` returns. -/
def normalizeLoop (text : CString) (size : Nat) (empty terminated : Bool) : Labels → Normalized
  | .ended => .buffer text terminated
  | .malformed => .null
  | .read _ label rest next =>
      if label = [] then
        if rest = [] ∧ empty then .buffer [] true else .null
      else if empty then
        let escaped := escapeLabel label size
        -- Until something is written the buffer holds the NUL of its first line.
        normalizeLoop (text ++ escaped.text) escaped.size false
          (escaped.complete || escaped.text.isEmpty) next
      else if size < 1 then .null
      else if size - 1 = 0 then .assertionFailed
      else
        let escaped := escapeLabel label (size - 1)
        normalizeLoop (text ++ dot :: escaped.text) escaped.size false escaped.complete next

/-- `avahi_normalize_name` into a buffer of `size` bytes. -/
def normalizeName (s : CString) (size : Nat) : Normalized :=
  normalizeLoop [] size true true (scan s)

/-- What the functions that create something return. -/
inductive Created (α : Type) where
  | ok (value : α)
  | null
  | undefined
  deriving DecidableEq, Repr

/-- `avahi_normalize_name_strdup`. -/
def normalizeNameStrdup (s : CString) : Created CString :=
  match normalizeName s AVAHI_DOMAIN_NAME_MAX with
  | .buffer text true => .ok text
  | .null => .null
  | .assertionFailed | .buffer _ false => .undefined

/-- `tolower` in the C locale. -/
def lower (byte : UInt8) : UInt8 := if 65 ≤ byte ∧ byte ≤ 90 then byte + 32 else byte

/-- `strcasecmp` of two labels is zero. -/
def sameLabel (a b : List UInt8) : Bool := a.map lower = b.map lower

/-- The loop of `avahi_domain_equal` once the other name has ended, which then
reads as an empty label. -/
def equalToEnded : Labels → Option Bool
  | .ended => some true
  | .malformed => none
  | .read _ label rest next =>
      if !sameLabel [] label then some false
      else if rest = [] then some true
      else equalToEnded next

/-- The loop of `avahi_domain_equal`. -/
def domainEqualLoop : Labels → Labels → Option Bool
  | .malformed, _ => none
  | .ended, other => equalToEnded other
  | .read _ label rest next, other =>
      match other with
      | .malformed => none
      | .ended =>
          if !sameLabel label [] then some false
          else if rest = [] then some true
          else domainEqualLoop next .ended
      | .read _ otherLabel otherRest otherNext =>
          if !sameLabel label otherLabel then some false
          else if rest = [] ∧ otherRest = [] then some true
          else domainEqualLoop next otherNext

/-- `avahi_domain_equal`. -/
def domainEqual (a b : CString) : Option Bool := domainEqualLoop (scan a) (scan b)

/-- One step of the hash over a label; a `char` is unsigned, as it is in the ABI
of the devices that run the embedded backend. -/
def hashByte (hash : UInt32) (byte : UInt8) : UInt32 := 31 * hash + (lower byte).toUInt32

def domainHashLoop (hash : UInt32) : Labels → Option UInt32
  | .ended => some hash
  | .malformed => none
  | .read _ label _ next => domainHashLoop (label.foldl hashByte hash) next

/-- `avahi_domain_hash`. -/
def domainHash (s : CString) : Option UInt32 := domainHashLoop 0 (scan s)

/-- The loop of `avahi_is_valid_domain_name`. -/
def validDomainLoop (isFirst : Bool) : Labels → Bool
  | .ended => true
  | .malformed => false
  | .read _ label rest next =>
      if isFirst && label = [] && rest = [] then true
      else if label = [] then false
      else validDomainLoop false next

/-- `avahi_is_valid_domain_name`. The empty string is the root. -/
def isValidDomainName (t : CString) : Bool :=
  if t.length ≥ AVAHI_DOMAIN_NAME_MAX then false else validDomainLoop true (scan t)

/-- More calls than needed return nothing else. -/
theorem scanFrom_of_le (calls more : Nat) (name : CString) (hcalls : name.length ≤ calls)
    (hmore : name.length ≤ more) : scanFrom calls name = scanFrom more name := by
  induction calls generalizing more name with
  | zero =>
      obtain rfl := List.eq_nil_of_length_eq_zero (Nat.le_zero.mp hcalls)
      cases more <;> rfl
  | succ calls ih =>
      cases name with
      | nil => cases more <;> rfl
      | cons byte name =>
          cases more with
          | zero => cases hmore
          | succ more =>
              rw [scanFrom, scanFrom]
              · cases hread : unescapeLabel (byte :: name) AVAHI_LABEL_MAX with
                | none => rfl
                | some read =>
                    obtain ⟨label, rest⟩ := read
                    have hshorter := (unescapeLabel_some hread).2.2 (List.cons_ne_nil _ _)
                    rw [List.length_cons] at hcalls hmore hshorter
                    simp only
                    rw [ih more rest (by omega) (by omega)]
              all_goals exact List.cons_ne_nil _ _

theorem scan_nil : scan [] = .ended := rfl

theorem scan_of_none {name : CString} (hname : name ≠ [])
    (h : unescapeLabel name AVAHI_LABEL_MAX = none) : scan name = .malformed := by
  cases name with
  | nil => exact absurd rfl hname
  | cons byte name =>
      rw [scan, List.length_cons, scanFrom, h]
      exact List.cons_ne_nil _ _

theorem scan_of_some {name rest : CString} {label : List UInt8} (hname : name ≠ [])
    (h : unescapeLabel name AVAHI_LABEL_MAX = some (label, rest)) :
    scan name = .read name label rest (scan rest) := by
  have hshorter := (unescapeLabel_some h).2.2 hname
  cases name with
  | nil => exact absurd rfl hname
  | cons byte name =>
      rw [List.length_cons] at hshorter
      rw [scan, List.length_cons, scanFrom, h]
      · simp only
        rw [scan, scanFrom_of_le name.length rest.length rest (by omega) (by omega)]
      · exact List.cons_ne_nil _ _

/-- Labels of a name other than the root's: each can be held, none is empty. -/
def ProperLabels (labels : List (List UInt8)) : Prop :=
  ∀ label ∈ labels, LabelText label ∧ label ≠ []

theorem ProperLabels.tail {label : List UInt8} {labels : List (List UInt8)}
    (h : ProperLabels (label :: labels)) : ProperLabels labels :=
  fun other hother => h other (List.mem_cons_of_mem label hother)

/-- What reading a written name returns. -/
def Labels.ofTexts : List (List UInt8) → Labels
  | [] => .ended
  | label :: labels => .read (nameOf (label :: labels)) label (nameOf labels) (ofTexts labels)

@[simp] theorem texts_ofTexts (labels : List (List UInt8)) :
    (Labels.ofTexts labels).texts = some labels := by
  induction labels with
  | nil => rfl
  | cons label labels ih => rw [Labels.ofTexts, Labels.texts, ih, Option.map_some]

/-- A name begins with its first label, and its other labels follow. -/
theorem nameOf_cons (label : List UInt8) (labels : List (List UInt8)) :
    ∃ tail, nameOf (label :: labels) = escape label ++ tail ∧ Ends tail (nameOf labels) := by
  cases labels with
  | nil => exact ⟨[], (List.append_nil _).symm, Or.inr ⟨rfl, rfl⟩⟩
  | cons next labels => exact ⟨dot :: nameOf (next :: labels), rfl, Or.inl rfl⟩

theorem escape_ne_nil {label : List UInt8} (h : label ≠ []) : escape label ≠ [] := by
  cases label with
  | nil => exact absurd rfl h
  | cons byte label =>
      rw [escape_cons]
      have hpos := escapeByte_length_pos byte
      intro hnil
      rw [(List.append_eq_nil_iff.mp hnil).1] at hpos
      cases hpos

theorem nameOf_eq_nil_iff {labels : List (List UInt8)} (h : ProperLabels labels) :
    nameOf labels = [] ↔ labels = [] := by
  constructor
  · intro hnil
    cases labels with
    | nil => rfl
    | cons label labels =>
        obtain ⟨tail, hname, _⟩ := nameOf_cons label labels
        rw [hname] at hnil
        exact absurd (List.append_eq_nil_iff.mp hnil).1
          (escape_ne_nil (h label (List.mem_cons_self ..)).2)
  · rintro rfl
    rfl

/-- The first label of a written name. -/
theorem unescapeLabel_nameOf {label : List UInt8} (hlabel : LabelText label)
    (labels : List (List UInt8)) :
    unescapeLabel (nameOf (label :: labels)) AVAHI_LABEL_MAX = some (label, nameOf labels) := by
  obtain ⟨tail, hname, hends⟩ := nameOf_cons label labels
  rw [hname]
  exact unescapeLabel_escape hlabel hlabel.length hends

/-- A written name is read back label by label. -/
theorem scan_nameOf {labels : List (List UInt8)} (h : ProperLabels labels) :
    scan (nameOf labels) = .ofTexts labels := by
  induction labels with
  | nil => rfl
  | cons label labels ih =>
      have hread := unescapeLabel_nameOf (h label (List.mem_cons_self ..)).1 labels
      rw [scan_of_some (mt (nameOf_eq_nil_iff h).mp (List.cons_ne_nil _ _)) hread, ih h.tail,
        Labels.ofTexts]

theorem labelsOf_nameOf {labels : List (List UInt8)} (h : ProperLabels labels) :
    labelsOf (nameOf labels) = some labels := by
  rw [labelsOf, scan_nameOf h, texts_ofTexts]

/-- Two proper names are the same text only if they have the same labels. -/
theorem nameOf_injective {labels others : List (List UInt8)} (h : ProperLabels labels)
    (hothers : ProperLabels others) (hsame : nameOf labels = nameOf others) : labels = others := by
  have hlabels := labelsOf_nameOf h
  rw [hsame, labelsOf_nameOf hothers] at hlabels
  exact (Option.some.inj hlabels).symm

theorem zero_notMem_escape {label : List UInt8} (h : 0 ∉ label) : 0 ∉ escape label := by
  intro hmem
  obtain ⟨byte, hbyte, hzero⟩ := List.mem_flatMap.mp hmem
  have hne : byte ≠ 0 := fun heq => h (heq ▸ hbyte)
  have hlt := byte.toNat_lt
  have hdigit (n : Nat) (hn : n < 10) : (0 : UInt8) ≠ UInt8.ofNat (48 + n) := by
    intro heq
    have hvalue := congrArg UInt8.toNat heq
    rw [UInt8.toNat_ofNat'] at hvalue
    simp at hvalue
    omega
  unfold escapeByte at hzero
  split at hzero
  · simp only [List.mem_cons, List.not_mem_nil, or_false] at hzero
    rcases hzero with heq | heq
    · cases heq
    · exact hne heq.symm
  · split at hzero
    · exact hne (List.mem_singleton.mp hzero).symm
    · simp only [List.mem_cons, List.not_mem_nil, or_false] at hzero
      rcases hzero with heq | heq | heq | heq
      · cases heq
      · exact hdigit _ (by omega) heq
      · exact hdigit _ (by omega) heq
      · exact hdigit _ (by omega) heq

theorem zero_notMem_nameOf {labels : List (List UInt8)} (h : ProperLabels labels) :
    0 ∉ nameOf labels := by
  induction labels with
  | nil => exact List.not_mem_nil
  | cons label labels ih =>
      obtain ⟨tail, hname, hends⟩ := nameOf_cons label labels
      rw [hname, List.mem_append, not_or]
      refine ⟨zero_notMem_escape (h label (List.mem_cons_self ..)).1.noNul, ?_⟩
      rcases hends with rfl | ⟨rfl, _⟩
      · rw [List.mem_cons, not_or]
        exact ⟨by decide, ih h.tail⟩
      · exact List.not_mem_nil

/-- A name that can be read is empty or has a first label. -/
theorem labelsOf_eq_some {name : CString} {labels : List (List UInt8)}
    (h : labelsOf name = some labels) :
    name = [] ∧ labels = [] ∨
      ∃ label rest others, name ≠ [] ∧
        unescapeLabel name AVAHI_LABEL_MAX = some (label, rest) ∧
        scan name = .read name label rest (scan rest) ∧ labels = label :: others ∧
        labelsOf rest = some others := by
  by_cases hname : name = []
  · subst hname
    exact Or.inl ⟨rfl, (Option.some.inj h).symm⟩
  · right
    cases hread : unescapeLabel name AVAHI_LABEL_MAX with
    | none =>
        rw [labelsOf, scan_of_none hname hread] at h
        cases h
    | some read =>
        obtain ⟨label, rest⟩ := read
        rw [labelsOf, scan_of_some hname hread, Labels.texts] at h
        obtain ⟨others, hothers, heq⟩ := Option.map_eq_some_iff.mp h
        exact ⟨label, rest, others, hname, rfl, scan_of_some hname hread, heq.symm, hothers⟩

/-- The labels that are read from a C string are labels that a name can hold. -/
theorem labelText_of_labelsOf {name : CString} (hnul : 0 ∉ name) {labels : List (List UInt8)}
    (h : labelsOf name = some labels) : ∀ label ∈ labels, LabelText label := by
  induction labels generalizing name with
  | nil => exact fun label hlabel => absurd hlabel List.not_mem_nil
  | cons first labels ih =>
      rcases labelsOf_eq_some h
        with ⟨_, hnil⟩ | ⟨label, rest, others, _, hread, _, heq, hrest⟩
      · cases hnil
      · obtain ⟨rfl, rfl⟩ := List.cons.inj heq
        obtain ⟨hlabel, hsuffix, _⟩ := unescapeLabel_some hread
        intro other hother
        rcases List.mem_cons.mp hother with rfl | hother
        · exact hlabel hnul
        · exact ih (fun hmem => hnul (hsuffix.subset hmem)) hrest other hother

theorem properLabels_of_labelsOf {name : CString} (hnul : 0 ∉ name) {labels : List (List UInt8)}
    (h : labelsOf name = some labels) (hproper : [] ∉ labels) : ProperLabels labels := by
  intro label hlabel
  refine ⟨labelText_of_labelsOf hnul h label hlabel, ?_⟩
  rintro rfl
  exact hproper hlabel

theorem ProperLabels.nil_notMem {labels : List (List UInt8)} (h : ProperLabels labels) :
    [] ∉ labels := fun hmem => (h [] hmem).2 rfl

theorem nameOf_cons_eq (label : List UInt8) (labels : List (List UInt8)) :
    nameOf (label :: labels) =
      escape label ++ labels.flatMap fun other => dot :: escape other := by
  induction labels generalizing label with
  | nil => exact (List.append_nil _).symm
  | cons next labels ih => rw [nameOf, ih, List.flatMap_cons, List.cons_append]

theorem nameOf_append {labels others : List (List UInt8)} (h : labels ≠ [])
    (hothers : others ≠ []) :
    nameOf (labels ++ others) = nameOf labels ++ dot :: nameOf others := by
  cases labels with
  | nil => exact absurd rfl h
  | cons label labels =>
      cases others with
      | nil => exact absurd rfl hothers
      | cons other others =>
          rw [List.cons_append, nameOf_cons_eq, nameOf_cons_eq label labels, nameOf_cons_eq other,
            List.flatMap_append, List.flatMap_cons, List.append_assoc, List.cons_append]

theorem nameOf_length_le (labels others : List (List UInt8)) :
    (nameOf labels).length ≤ (nameOf (labels ++ others)).length := by
  cases labels with
  | nil => exact Nat.zero_le _
  | cons label labels =>
      rw [List.cons_append, nameOf_cons_eq, nameOf_cons_eq, List.flatMap_append]
      simp only [List.length_append]
      omega

theorem nameOf_length_le_right (labels others : List (List UInt8)) :
    (nameOf others).length ≤ (nameOf (labels ++ others)).length := by
  by_cases hlabels : labels = []
  · subst hlabels
    exact Nat.le_refl _
  · by_cases hothers : others = []
    · rw [hothers]
      exact Nat.zero_le _
    · rw [nameOf_append hlabels hothers, List.length_append, List.length_cons]
      omega

/-- The dot before one more label. -/
def separator (labels : List (List UInt8)) : CString := if labels = [] then [] else [dot]

theorem separator_length_le (labels : List (List UInt8)) : (separator labels).length ≤ 1 := by
  unfold separator
  split <;> simp

theorem nameOf_concat (labels : List (List UInt8)) (label : List UInt8) :
    nameOf (labels ++ [label]) = nameOf labels ++ separator labels ++ escape label := by
  cases labels with
  | nil => rfl
  | cons first labels =>
      rw [nameOf_append (List.cons_ne_nil _ _) (List.cons_ne_nil _ _), separator, if_neg (by simp),
        nameOf, List.append_assoc, List.singleton_append]

/-- One more label is written to the buffer of a name exactly if the longer name
and its NUL fit. -/
theorem escapeLabel_next {total : Nat} {labels : List (List UInt8)} (label : List UInt8)
    (hroom : (nameOf labels).length + (separator labels).length < total) :
    if (nameOf (labels ++ [label])).length < total then
      escapeLabel label (total - (nameOf labels).length - (separator labels).length) =
        ⟨escape label, total - (nameOf (labels ++ [label])).length, true⟩
    else
      (escapeLabel label
        (total - (nameOf labels).length - (separator labels).length)).complete = false := by
  have hlength := congrArg List.length (nameOf_concat labels label)
  rw [List.length_append, List.length_append] at hlength
  split
  · rw [escapeLabel_of_fits label _ (by omega), hlength, Nat.sub_add_eq, Nat.sub_add_eq]
  · obtain ⟨_, _, _, hcomplete⟩ := escapeLabel_prefix label
      (total - (nameOf labels).length - (separator labels).length) (by omega)
    apply Bool.eq_false_iff.mpr
    intro hall
    have hfits := hcomplete.mp hall
    omega

/-- After the first label, each label that fits is written behind a dot. -/
theorem normalizeLoop_of_fits {reads : Labels} {labels : List (List UInt8)}
    (hreads : reads.texts = some labels) (hlabels : [] ∉ labels) (text : CString) (size : Nat)
    (hfits : (labels.flatMap fun label => dot :: escape label).length < size) :
    normalizeLoop text size false true reads =
      .buffer (text ++ labels.flatMap fun label => dot :: escape label) true := by
  induction reads generalizing labels text size with
  | ended =>
      obtain rfl := Option.some.inj hreads
      rw [List.flatMap_nil, List.append_nil, normalizeLoop]
  | malformed => cases hreads
  | read name label rest next ih =>
      obtain ⟨others, hnext, rfl⟩ := Option.map_eq_some_iff.mp hreads
      rw [List.mem_cons, not_or] at hlabels
      rw [List.flatMap_cons, List.length_append, List.length_cons] at hfits
      rw [normalizeLoop, if_neg (Ne.symm hlabels.1), if_neg Bool.false_ne_true, if_neg (by omega),
        if_neg (by omega), escapeLabel_of_fits label (size - 1) (by omega)]
      simp only
      rw [ih hnext hlabels.2 _ _ (by omega), List.flatMap_cons, List.append_assoc]

/-- Whatever is written leaves room for a NUL. -/
theorem normalizeLoop_length (reads : Labels) (text : CString) (size : Nat)
    (empty terminated : Bool) (hsize : 0 < size) (written : CString) (ended : Bool)
    (h : normalizeLoop text size empty terminated reads = .buffer written ended) :
    written.length < text.length + size := by
  induction reads generalizing text size empty terminated with
  | ended =>
      obtain ⟨rfl, _⟩ := Normalized.buffer.inj h
      omega
  | malformed => cases h
  | read name label rest next ih =>
      rw [normalizeLoop] at h
      split at h
      · split at h
        · obtain ⟨rfl, _⟩ := Normalized.buffer.inj h
          rw [List.length_nil]
          omega
        · cases h
      · split at h
        · obtain ⟨_, htotal, hroom, _⟩ := escapeLabel_prefix label size hsize
          have hlength := ih _ _ _ _ hroom h
          rw [List.length_append] at hlength
          omega
        · split at h
          · cases h
          · split at h
            · cases h
            · obtain ⟨_, htotal, hroom, _⟩ := escapeLabel_prefix label (size - 1) (by omega)
              have hlength := ih _ _ _ _ hroom h
              rw [List.length_append, List.length_cons] at hlength
              omega

/-- A name whose labels are proper is normalized to their text exactly if that
text and a NUL fit. -/
theorem normalizeName_eq_iff {s : CString} {labels : List (List UInt8)}
    (hlabels : labelsOf s = some labels) (hproper : [] ∉ labels) {size : Nat} (hsize : 0 < size) :
    normalizeName s size = .buffer (nameOf labels) true ↔ (nameOf labels).length < size := by
  constructor
  · intro h
    have hlength := normalizeLoop_length (scan s) [] size true true hsize _ _ h
    rwa [List.length_nil, Nat.zero_add] at hlength
  · intro hfits
    rw [normalizeName]
    rw [labelsOf] at hlabels
    cases hscan : scan s with
    | ended =>
        rw [hscan] at hlabels
        obtain rfl := Option.some.inj hlabels
        rfl
    | malformed =>
        rw [hscan] at hlabels
        cases hlabels
    | read name label rest next =>
        rw [hscan, Labels.texts] at hlabels
        obtain ⟨others, hnext, rfl⟩ := Option.map_eq_some_iff.mp hlabels
        rw [List.mem_cons, not_or] at hproper
        rw [nameOf_cons_eq, List.length_append] at hfits
        rw [normalizeLoop, if_neg (Ne.symm hproper.1), if_pos rfl,
          escapeLabel_of_fits label size (by omega)]
        simp only [Bool.true_or]
        rw [normalizeLoop_of_fits hnext hproper.2 _ _ (by omega), nameOf_cons_eq, List.nil_append]

/-- Labels without their case. -/
def foldCase (labels : List (List UInt8)) : List (List UInt8) :=
  labels.map fun label => label.map lower

/-- Two names with proper labels are equal if these are, but for their case. -/
theorem domainEqual_eq {a b : CString} {labels others : List (List UInt8)}
    (ha : labelsOf a = some labels) (hb : labelsOf b = some others) (hlabels : [] ∉ labels)
    (hothers : [] ∉ others) :
    domainEqual a b = some (decide (foldCase labels = foldCase others)) := by
  rw [domainEqual]
  induction labels generalizing a b others with
  | nil =>
      obtain ⟨rfl, _⟩ | ⟨_, _, _, _, _, _, hnil, _⟩ := labelsOf_eq_some ha
      · rcases labelsOf_eq_some hb
          with ⟨rfl, rfl⟩ | ⟨label, rest, more, _, _, hscan, rfl, _⟩
        · rfl
        · rw [List.mem_cons, not_or] at hothers
          have hdiffer : sameLabel [] label = false := by
            rw [sameLabel, decide_eq_false_iff_not]
            intro heq
            exact hothers.1 (List.map_eq_nil_iff.mp heq.symm).symm
          rw [hscan, scan_nil, domainEqualLoop, equalToEnded, hdiffer]
          rfl
      · cases hnil
  | cons first labels ih =>
      obtain ⟨_, hnil⟩ | ⟨label, rest, more, _, _, hscan, heq, hrest⟩ := labelsOf_eq_some ha
      · cases hnil
      · obtain ⟨rfl, rfl⟩ := List.cons.inj heq
        rw [List.mem_cons, not_or] at hlabels
        rw [hscan, domainEqualLoop.eq_def]
        simp only
        rcases labelsOf_eq_some hb
          with ⟨rfl, rfl⟩ | ⟨other, orest, omore, _, _, hoscan, rfl, horest⟩
        · have hdiffer : sameLabel first [] = false := by
            rw [sameLabel, decide_eq_false_iff_not]
            intro heq
            exact hlabels.1 (List.map_eq_nil_iff.mp heq).symm
          rw [scan_nil, hdiffer]
          rfl
        · rw [List.mem_cons, not_or] at hothers
          rw [hoscan]
          simp only
          by_cases hsame : first.map lower = other.map lower
          · have htrue : sameLabel first other = true := decide_eq_true hsame
            have hiff : foldCase (first :: labels) = foldCase (other :: omore) ↔
                foldCase labels = foldCase omore := by
              simp [foldCase, hsame]
            rw [htrue, Bool.not_true, if_neg Bool.false_ne_true]
            have hends : rest = [] ∧ orest = [] → labels = [] ∧ omore = [] := by
              rintro ⟨rfl, rfl⟩
              exact ⟨(Option.some.inj hrest).symm, (Option.some.inj horest).symm⟩
            split
            · rename_i hlast
              obtain ⟨rfl, rfl⟩ := hends hlast
              simp [hiff]
            · rw [ih hrest horest hlabels.2 hothers.2]
              simp [hiff]
          · have hfalse : sameLabel first other = false := decide_eq_false hsame
            have hdiffer : foldCase (first :: labels) ≠ foldCase (other :: omore) := by
              intro heq
              exact hsame (List.cons.inj heq).1
            rw [hfalse, Bool.not_false, if_pos rfl]
            simp [hdiffer]

/-- The hash is one of the bytes of the labels alone. -/
theorem domainHash_eq {s : CString} {labels : List (List UInt8)} (h : labelsOf s = some labels) :
    domainHash s = some (labels.flatten.foldl hashByte 0) := by
  have hloop (reads : Labels) (labels : List (List UInt8)) (hash : UInt32)
      (hreads : reads.texts = some labels) :
      domainHashLoop hash reads = some (labels.flatten.foldl hashByte hash) := by
    induction reads generalizing labels hash with
    | ended =>
        obtain rfl := Option.some.inj hreads
        rfl
    | malformed => cases hreads
    | read name label rest next ih =>
        obtain ⟨others, hnext, rfl⟩ := Option.map_eq_some_iff.mp hreads
        rw [domainHashLoop, ih others _ hnext, List.flatten_cons, List.foldl_append]
  exact hloop (scan s) labels 0 h

/-- The hash does not see the case of a letter. -/
theorem foldl_hashByte_lower (bytes : List UInt8) (hash : UInt32) :
    (bytes.map lower).foldl hashByte hash = bytes.foldl hashByte hash := by
  have hlower (byte : UInt8) : lower (lower byte) = lower byte := by
    unfold lower
    split
    · rename_i hupper
      rw [if_neg]
      rintro ⟨hlow, hhigh⟩
      have h65 := UInt8.le_iff_toNat_le.mp hupper.1
      have h90 := UInt8.le_iff_toNat_le.mp hupper.2
      have hsum := UInt8.le_iff_toNat_le.mp hhigh
      rw [UInt8.toNat_add] at hsum
      simp at h65 h90 hsum
      omega
    · rfl
  induction bytes generalizing hash with
  | nil => rfl
  | cons byte bytes ih =>
      rw [List.map_cons, List.foldl_cons, List.foldl_cons, ih, hashByte, hlower, hashByte]

/-- The normal form depends on the labels alone, whatever the room. -/
theorem normalizeLoop_congr {reads others : Labels} {labels : List (List UInt8)}
    (hreads : reads.texts = some labels) (hothers : others.texts = some labels)
    (hlabels : [] ∉ labels) (text : CString) (size : Nat) (empty terminated : Bool) :
    normalizeLoop text size empty terminated reads =
      normalizeLoop text size empty terminated others := by
  induction reads generalizing others labels text size empty terminated with
  | ended =>
      obtain rfl := Option.some.inj hreads
      cases others with
      | ended => rfl
      | malformed => cases hothers
      | read name label rest next =>
          obtain ⟨_, _, hnil⟩ := Option.map_eq_some_iff.mp hothers
          cases hnil
  | malformed => cases hreads
  | read name label rest next ih =>
      obtain ⟨labels, hnext, rfl⟩ := Option.map_eq_some_iff.mp hreads
      rw [List.mem_cons, not_or] at hlabels
      cases others with
      | ended => cases hothers
      | malformed => cases hothers
      | read name' label' rest' next' =>
          obtain ⟨labels', hnext', heq⟩ := Option.map_eq_some_iff.mp hothers
          obtain ⟨rfl, rfl⟩ := List.cons.inj heq
          rw [normalizeLoop, normalizeLoop, if_neg (Ne.symm hlabels.1), if_neg (Ne.symm hlabels.1)]
          simp only [ih hnext hnext' hlabels.2]

theorem validDomainLoop_of_proper {reads : Labels} {labels : List (List UInt8)}
    (hreads : reads.texts = some labels) (hlabels : [] ∉ labels) (isFirst : Bool) :
    validDomainLoop isFirst reads = true := by
  induction reads generalizing labels isFirst with
  | ended => rfl
  | malformed => cases hreads
  | read name label rest next ih =>
      obtain ⟨others, hnext, rfl⟩ := Option.map_eq_some_iff.mp hreads
      rw [List.mem_cons, not_or] at hlabels
      rw [validDomainLoop, if_neg (by simp [Ne.symm hlabels.1]), if_neg (Ne.symm hlabels.1)]
      exact ih hnext hlabels.2 false

/-- A written name of labels that can be read is valid if it fits. -/
theorem isValidDomainName_nameOf {labels : List (List UInt8)} (h : ProperLabels labels)
    (hfits : (nameOf labels).length < AVAHI_DOMAIN_NAME_MAX) :
    isValidDomainName (nameOf labels) = true := by
  rw [isValidDomainName, if_neg (by omega)]
  exact validDomainLoop_of_proper (labelsOf_nameOf h) h.nil_notMem true

/-- Labels as the wire can have them, whatever their bytes. -/
def ShortLabels (labels : List (List UInt8)) : Prop :=
  ∀ label ∈ labels, label ≠ [] ∧ label.length < AVAHI_LABEL_MAX

theorem ShortLabels.tail {label : List UInt8} {labels : List (List UInt8)}
    (h : ShortLabels (label :: labels)) : ShortLabels labels :=
  fun other hother => h other (List.mem_cons_of_mem label hother)

/-- A name is read as far as its labels are readable. -/
theorem scan_nameOf_cons {label : List UInt8} {labels : List (List UInt8)}
    (h : ShortLabels (label :: labels)) :
    scan (nameOf (label :: labels)) =
      if Readable label then
        .read (nameOf (label :: labels)) label (nameOf labels) (scan (nameOf labels))
      else .malformed := by
  obtain ⟨hne, hlength⟩ := h label (List.mem_cons_self ..)
  obtain ⟨tail, hname, hends⟩ := nameOf_cons label labels
  have hnonempty : nameOf (label :: labels) ≠ [] := by
    rw [hname]
    intro hnil
    exact escape_ne_nil hne (List.append_eq_nil_iff.mp hnil).1
  split
  · rename_i hreadable
    apply scan_of_some hnonempty
    rw [hname]
    exact unescapeLabel_escape ⟨hreadable.1, hreadable.2, hlength⟩ hlength hends
  · rename_i hunreadable
    apply scan_of_none hnonempty
    rw [hname]
    exact unescapeLabel_of_not_readable hlength hunreadable hends

theorem ShortLabels.proper {labels : List (List UInt8)} (h : ShortLabels labels)
    (hreadable : ∀ label ∈ labels, Readable label) : ProperLabels labels := by
  intro label hlabel
  obtain ⟨hne, hlength⟩ := h label hlabel
  obtain ⟨hnul, hutf8⟩ := hreadable label hlabel
  exact ⟨⟨hnul, hutf8, hlength⟩, hne⟩

/-- A written name is valid only if all its labels are readable. -/
theorem properLabels_of_valid {labels : List (List UInt8)} (h : ShortLabels labels)
    (hvalid : isValidDomainName (nameOf labels) = true) : ProperLabels labels := by
  apply h.proper
  have hloop (isFirst : Bool) (hloop : validDomainLoop isFirst (scan (nameOf labels)) = true) :
      ∀ label ∈ labels, Readable label := by
    clear hvalid
    induction labels generalizing isFirst with
    | nil => exact fun label hlabel => absurd hlabel List.not_mem_nil
    | cons label labels ih =>
        rw [scan_nameOf_cons h] at hloop
        split at hloop
        · rename_i hreadable
          have hne := (h label (List.mem_cons_self ..)).1
          rw [validDomainLoop, if_neg (by simp [hne]), if_neg hne] at hloop
          intro other hother
          rcases List.mem_cons.mp hother with rfl | hother
          · exact hreadable
          · exact ih h.tail false hloop other hother
        · cases hloop
  rw [isValidDomainName] at hvalid
  split at hvalid
  · cases hvalid
  · exact hloop true hvalid

/-- Normalizing a written name either gives it back or fails. -/
theorem normalizeLoop_nameOf {labels : List (List UInt8)} (h : ShortLabels labels) (text : CString)
    (size : Nat) (hfits : (labels.flatMap fun label => dot :: escape label).length < size) :
    normalizeLoop text size false true (scan (nameOf labels)) =
      if ∀ label ∈ labels, Readable label then
        .buffer (text ++ labels.flatMap fun label => dot :: escape label) true
      else .null := by
  induction labels generalizing text size with
  | nil =>
      rw [if_pos fun label hlabel => absurd hlabel List.not_mem_nil]
      simp [nameOf, scan_nil, normalizeLoop]
  | cons label labels ih =>
      have hne := (h label (List.mem_cons_self ..)).1
      rw [List.flatMap_cons, List.length_append, List.length_cons] at hfits
      rw [scan_nameOf_cons h]
      by_cases hreadable : Readable label
      · rw [if_pos hreadable, normalizeLoop, if_neg hne, if_neg Bool.false_ne_true,
          if_neg (by omega), if_neg (by omega), escapeLabel_of_fits label (size - 1) (by omega)]
        simp only
        rw [ih h.tail _ _ (by omega), List.flatMap_cons, List.append_assoc]
        simp only [List.mem_cons, forall_eq_or_imp, hreadable, true_and]
      · rw [if_neg hreadable, normalizeLoop, if_neg]
        exact fun hall => hreadable (hall label (List.mem_cons_self ..))

theorem normalizeName_nameOf {labels : List (List UInt8)} (h : ShortLabels labels) {size : Nat}
    (hfits : (nameOf labels).length < size) :
    normalizeName (nameOf labels) size =
      if ∀ label ∈ labels, Readable label then .buffer (nameOf labels) true else .null := by
  rw [normalizeName]
  cases labels with
  | nil =>
      rw [if_pos fun label hlabel => absurd hlabel List.not_mem_nil]
      simp [nameOf, scan_nil, normalizeLoop]
  | cons label labels =>
      have hne := (h label (List.mem_cons_self ..)).1
      rw [nameOf_cons_eq, List.length_append] at hfits
      rw [scan_nameOf_cons h]
      by_cases hreadable : Readable label
      · rw [if_pos hreadable, normalizeLoop, if_neg hne, if_pos rfl,
          escapeLabel_of_fits label size (by omega)]
        simp only [Bool.true_or]
        rw [normalizeLoop_nameOf h.tail _ _ (by omega), nameOf_cons_eq, List.nil_append]
        simp only [List.mem_cons, forall_eq_or_imp, hreadable, true_and]
      · rw [if_neg hreadable, normalizeLoop, if_neg]
        exact fun hall => hreadable (hall label (List.mem_cons_self ..))

/-- Names as keys have them: they read as labels that are not empty. -/
def IsProperName (s : CString) : Prop := ∃ labels, labelsOf s = some labels ∧ [] ∉ labels

/-- `avahi_normalize_name` keeps the labels of a name. It returns their normal
form exactly if that fits with its NUL, and does with the normal form what it
does with the name. -/
theorem normalizeName_exact {s : CString} (hnul : 0 ∉ s) {labels : List (List UInt8)}
    (hlabels : labelsOf s = some labels) (hproper : [] ∉ labels) {size : Nat} (hsize : 0 < size) :
    (normalizeName s size = .buffer (nameOf labels) true ↔ (nameOf labels).length < size) ∧
      labelsOf (nameOf labels) = some labels ∧ domainEqual s (nameOf labels) = some true ∧
      normalizeName (nameOf labels) size = normalizeName s size := by
  have hkept := labelsOf_nameOf (properLabels_of_labelsOf hnul hlabels hproper)
  refine ⟨normalizeName_eq_iff hlabels hproper hsize, hkept, ?_, ?_⟩
  · rw [domainEqual_eq hlabels hkept hproper hproper, decide_eq_true rfl]
  · exact normalizeLoop_congr hkept hlabels hproper [] size true true

/-- The bytes of `Cam 1._tcp`. -/
def plainName : CString := [67, 97, 109, 32, 49, 46, 95, 116, 99, 112]

/-- The blank takes four bytes in the normal form. -/
theorem plainName_normalized :
    (normalizeName plainName 64 =
      .buffer (nameOf [[67, 97, 109, 32, 49], [95, 116, 99, 112]]) true ↔
        (nameOf [[67, 97, 109, 32, 49], [95, 116, 99, 112]]).length < 64) ∧
      labelsOf (nameOf [[67, 97, 109, 32, 49], [95, 116, 99, 112]]) =
        some [[67, 97, 109, 32, 49], [95, 116, 99, 112]] ∧
      domainEqual plainName (nameOf [[67, 97, 109, 32, 49], [95, 116, 99, 112]]) = some true ∧
      normalizeName (nameOf [[67, 97, 109, 32, 49], [95, 116, 99, 112]]) 64 =
        normalizeName plainName 64 :=
  normalizeName_exact (by decide) (by decide) (by decide) (by decide)

/-- No byte of the first label fits: the buffer holds the empty string. -/
example : normalizeName [97] 1 = .buffer [] true := by decide

/-- On names that read as proper labels `avahi_domain_equal` is an equivalence,
and names that are equal have the same hash. -/
theorem domainEqual_equivalence {a b c : CString} (ha : IsProperName a) (hb : IsProperName b)
    (hc : IsProperName c) :
    domainEqual a a = some true ∧ domainEqual a b = domainEqual b a ∧
      (domainEqual a b = some true → domainEqual b c = some true →
        domainEqual a c = some true) ∧
      (domainEqual a b = some true → domainHash a = domainHash b) := by
  obtain ⟨la, hla, hpa⟩ := ha
  obtain ⟨lb, hlb, hpb⟩ := hb
  obtain ⟨lc, hlc, hpc⟩ := hc
  rw [domainEqual_eq hla hla hpa hpa, domainEqual_eq hla hlb hpa hpb,
    domainEqual_eq hlb hla hpb hpa, domainEqual_eq hlb hlc hpb hpc,
    domainEqual_eq hla hlc hpa hpc, domainHash_eq hla,
    domainHash_eq hlb]
  simp only [Option.some.injEq, decide_eq_true_eq, decide_eq_decide, true_and]
  refine ⟨eq_comm, Eq.trans, ?_⟩
  intro hsame
  have hflat : la.flatten.map lower = lb.flatten.map lower := by
    rw [List.map_flatten, List.map_flatten]
    exact congrArg List.flatten hsame
  rw [← foldl_hashByte_lower la.flatten, hflat, foldl_hashByte_lower]

/-- The bytes of `Local`, `local` and `LOCAL.`. -/
def localNames : CString × CString × CString :=
  ([76, 111, 99, 97, 108], [108, 111, 99, 97, 108], [76, 79, 67, 65, 76, 46])

theorem localNames_equivalent :
    domainEqual localNames.1 localNames.1 = some true ∧
      domainEqual localNames.1 localNames.2.1 = domainEqual localNames.2.1 localNames.1 ∧
      (domainEqual localNames.1 localNames.2.1 = some true →
        domainEqual localNames.2.1 localNames.2.2 = some true →
          domainEqual localNames.1 localNames.2.2 = some true) ∧
      (domainEqual localNames.1 localNames.2.1 = some true →
        domainHash localNames.1 = domainHash localNames.2.1) :=
  domainEqual_equivalence ⟨[localNames.1], by decide, by decide⟩
    ⟨[localNames.2.1], by decide, by decide⟩ ⟨[[76, 79, 67, 65, 76]], by decide, by decide⟩

end NvmrDisplay.Avahi
