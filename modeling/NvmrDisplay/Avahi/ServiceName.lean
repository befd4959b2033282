import NvmrDisplay.Avahi.DomainName

/-!
Names of service instances, `avahi-common/domain.c`. The service browser splits
the name an instance is announced under; the resolver joins the parts again to
ask for its records.
-/

namespace NvmrDisplay.Avahi

/-- What both loops of the service type predicates ask of a label. -/
def isTypeLabel (label : List UInt8) : Bool := label.length > 2 && label.head? = some underscore

/-- The loop of `avahi_is_valid_service_type_generic`. -/
def validTypeLoop : Labels → Bool
  | .ended => true
  | .malformed => false
  | .read _ label _ next => if !isTypeLabel label then false else validTypeLoop next

/-- `avahi_is_valid_service_type_generic`. -/
def isValidServiceTypeGeneric (t : CString) : Bool :=
  if t.length ≥ AVAHI_DOMAIN_NAME_MAX ∨ t = [] then false else validTypeLoop (scan t)

/-- `avahi_is_valid_service_name`. -/
def isValidServiceName (t : CString) : Bool :=
  !(t.length ≥ AVAHI_LABEL_MAX || t = [])

/-- What `avahi_service_name_join` returns. What it makes of a buffer without a
NUL is not defined, nor is what follows a failed assertion. -/
inductive Joined where
  | ok (text : CString)
  | invalidServiceName
  | invalidServiceType
  | invalidDomainName
  | undefined
  deriving DecidableEq, Repr

/-- `avahi_service_name_join` into a buffer of `size` bytes. -/
def serviceNameJoin (size : Nat) (name : Option CString) (type domain : CString) : Joined :=
  if name.any fun name => !isValidServiceName name then .invalidServiceName
  else if !isValidServiceTypeGeneric type then .invalidServiceType
  else if !isValidDomainName domain then .invalidDomainName
  else
    let escapedName := name.elim [] fun name =>
      (escapeLabel name (AVAHI_LABEL_MAX * 4)).text ++ [dot]
    match normalizeName type AVAHI_DOMAIN_NAME_MAX with
    | .null => .invalidServiceType
    | .assertionFailed | .buffer _ false => .undefined
    | .buffer normalizedType true =>
        match normalizeName domain AVAHI_DOMAIN_NAME_MAX with
        | .null => .invalidDomainName
        | .assertionFailed | .buffer _ false => .undefined
        | .buffer normalizedDomain true =>
            .ok ((escapedName ++ normalizedType ++ dot :: normalizedDomain).take (size - 1))

inductive SplitState where
  | name
  | type
  | domain
  deriving DecidableEq, Repr

/-- Why `avahi_service_name_split` stops. -/
inductive SplitError where
  | malformed
  | noMemory
  | assertionFailed
  deriving DecidableEq, Repr

/-- A part of the name that is written label by label. -/
structure Part where
  text : CString
  size : Nat
  empty : Bool
  deriving DecidableEq, Repr

/-- Where `avahi_service_name_split` stands. -/
structure Split where
  state : SplitState
  name : CString
  type : Part
  domain : Part
  deriving DecidableEq, Repr

/-- One more label, behind a dot unless it is the first. -/
def Part.append (part : Part) (label : List UInt8) : Except SplitError Part :=
  if !part.empty ∧ part.size = 0 then .error .noMemory
  else
    let separator := if part.empty then [] else [dot]
    let size := part.size - separator.length
    if size = 0 then .error .assertionFailed
    else
      let escaped := escapeLabel label size
      if !escaped.complete then .error .noMemory
      else .ok ⟨part.text ++ separator ++ escaped.text, escaped.size, false⟩

/-- The body of the loop of `avahi_service_name_split`. -/
def splitLabel (nameSize : Nat) (split : Split) (label : List UInt8) : Except SplitError Split :=
  match split.state with
  | .name => .ok { split with state := .type, name := label.take (nameSize - 1) }
  | .type =>
      if label.head? = some underscore then
        (split.type.append label).map fun type => { split with type }
      else
        (split.domain.append label).map fun domain => { split with state := .domain, domain }
  | .domain => (split.domain.append label).map fun domain => { split with domain }

def splitLoop (nameSize : Nat) (split : Split) : Labels → Except SplitError Split
  | .ended => .ok split
  | .malformed => .error .malformed
  | .read _ label _ next =>
      match splitLabel nameSize split label with
      | .error error => .error error
      | .ok split => splitLoop nameSize split next

/-- `avahi_service_name_split` with a buffer for the name. -/
def serviceNameSplit (p : CString) (nameSize typeSize domainSize : Nat) : Except SplitError Split :=
  splitLoop nameSize ⟨.name, [], ⟨[], typeSize, true⟩, ⟨[], domainSize, true⟩⟩ (scan p)

/-- Proper labels read behind a dot are the labels of the whole name. -/
theorem labelsOf_append {labels : List (List UInt8)} (h : ProperLabels labels) (hne : labels ≠ [])
    (rest : CString) :
    labelsOf (nameOf labels ++ dot :: rest) = (labelsOf rest).map (labels ++ ·) := by
  induction labels with
  | nil => exact absurd rfl hne
  | cons label labels ih =>
      obtain ⟨hlabel, _⟩ := h label (List.mem_cons_self ..)
      have hread (name : CString) :
          labelsOf (escape label ++ dot :: name) = (labelsOf name).map (label :: ·) := by
        have hunescape : unescapeLabel (escape label ++ dot :: name) AVAHI_LABEL_MAX =
            some (label, name) := unescapeLabel_escape hlabel hlabel.length (Or.inl rfl)
        rw [labelsOf, scan_of_some (by simp) hunescape, Labels.texts, labelsOf]
      cases labels with
      | nil => exact hread rest
      | cons next labels =>
          rw [nameOf, List.append_assoc, List.cons_append, hread, ih h.tail (List.cons_ne_nil _ _),
            Option.map_map]
          rfl

/-- The buffer of `size` bytes that holds these labels. -/
def Part.of (size : Nat) (labels : List (List UInt8)) : Part :=
  ⟨nameOf labels, size - (nameOf labels).length, labels = []⟩

/-- A label is appended exactly if the longer name and its NUL fit. -/
theorem Part.append_eq_ok_iff {size : Nat} {labels : List (List UInt8)}
    (hfits : (nameOf labels).length < size) (label : List UInt8) (part : Part) :
    (Part.of size labels).append label = .ok part ↔
      part = Part.of size (labels ++ [label]) ∧ (nameOf (labels ++ [label])).length < size := by
  have hseparator := separator_length_le labels
  have hlength := congrArg List.length (nameOf_concat labels label)
  rw [List.length_append, List.length_append] at hlength
  unfold Part.append Part.of
  simp only [decide_eq_true_eq]
  rw [if_neg (by omega), ← separator]
  by_cases hroom : size - (nameOf labels).length - (separator labels).length = 0
  · rw [if_pos hroom]
    constructor
    · intro herror
      cases herror
    · omega
  · have hnext := escapeLabel_next label
      (show (nameOf labels).length + (separator labels).length < size by omega)
    rw [if_neg hroom]
    split at hnext
    · rename_i hwhole
      have hempty : decide (labels ++ [label] = []) = false := by simp
      rw [hnext, ← nameOf_concat, hempty]
      simp only [Bool.not_true, Bool.false_eq_true, if_false, Except.ok.injEq, hwhole, and_true]
      exact eq_comm
    · rename_i hwhole
      rw [hnext]
      simp only [Bool.not_false, if_true, hwhole, and_false, iff_false]
      intro herror
      cases herror

/-- The split of a name that can be read, label by label. -/
theorem splitLoop_eq {reads : Labels} {labels : List (List UInt8)}
    (hreads : reads.texts = some labels) (nameSize : Nat) (split : Split) :
    splitLoop nameSize split reads = labels.foldlM (splitLabel nameSize) split := by
  induction reads generalizing labels split with
  | ended =>
      obtain rfl := Option.some.inj hreads
      rfl
  | malformed => cases hreads
  | read name label rest next ih =>
      obtain ⟨others, hnext, rfl⟩ := Option.map_eq_some_iff.mp hreads
      rw [splitLoop, List.foldlM_cons]
      cases splitLabel nameSize split label with
      | error error => rfl
      | ok split => exact ih hnext split

theorem foldlM_cons_eq_ok {nameSize : Nat} {split after : Split} {label : List UInt8}
    {labels : List (List UInt8)} :
    (label :: labels).foldlM (splitLabel nameSize) split = .ok after ↔
      ∃ next, splitLabel nameSize split label = .ok next ∧
        labels.foldlM (splitLabel nameSize) next = .ok after := by
  rw [List.foldlM_cons]
  cases splitLabel nameSize split label with
  | error error =>
      constructor
      · intro herror
        cases herror
      · rintro ⟨next, herror, _⟩
        cases herror
  | ok next =>
      constructor
      · intro hafter
        exact ⟨next, rfl, hafter⟩
      · rintro ⟨_, heq, hafter⟩
        cases heq
        exact hafter

/-- Labels of a service type. -/
def isUnderscored (label : List UInt8) : Bool := label.head? = some underscore

section Stages

variable {nameSize typeSize domainSize : Nat} {name : CString}

/-- Where the split stands after a name, these types and this domain. -/
def Split.at (typeSize domainSize : Nat) (name : CString) (types domains : List (List UInt8)) :
    Split :=
  ⟨if domains = [] then .type else .domain, name, Part.of typeSize types,
    Part.of domainSize domains⟩

theorem splitLabel_type {types : List (List UInt8)} {label : List UInt8}
    (htypes : (nameOf types).length < typeSize) (hlabel : isUnderscored label = true)
    (after : Split) :
    splitLabel nameSize (.at typeSize domainSize name types []) label = .ok after ↔
      after = .at typeSize domainSize name (types ++ [label]) [] ∧
        (nameOf (types ++ [label])).length < typeSize := by
  have happend := Part.append_eq_ok_iff htypes label
  unfold isUnderscored at hlabel
  rw [decide_eq_true_eq] at hlabel
  unfold splitLabel Split.at
  simp only [if_true, hlabel]
  cases hresult : (Part.of typeSize types).append label with
  | error error =>
      rw [hresult] at happend
      have hnofit : ¬ (nameOf (types ++ [label])).length < typeSize := by
        intro hfits
        cases (happend _).mpr ⟨rfl, hfits⟩
      simp only [hnofit, and_false, iff_false]
      intro herror
      cases herror
  | ok part =>
      obtain ⟨rfl, hfits⟩ := (happend part).mp hresult
      simp only [hfits, and_true]
      rw [Except.map, Except.ok.injEq]
      exact eq_comm

theorem splitLabel_domain {types domains : List (List UInt8)} {label : List UInt8}
    (hdomains : (nameOf domains).length < domainSize)
    (hlabel : domains ≠ [] ∨ isUnderscored label = false) (after : Split) :
    splitLabel nameSize (.at typeSize domainSize name types domains) label = .ok after ↔
      after = .at typeSize domainSize name types (domains ++ [label]) ∧
        (nameOf (domains ++ [label])).length < domainSize := by
  have happend := Part.append_eq_ok_iff hdomains label
  have hstep : splitLabel nameSize (.at typeSize domainSize name types domains) label =
      ((Part.of domainSize domains).append label).map fun domain =>
        ⟨.domain, name, Part.of typeSize types, domain⟩ := by
    unfold splitLabel Split.at
    by_cases hempty : domains = []
    · have hplain : ¬ label.head? = some underscore := by
        rcases hlabel with hne | hplain
        · exact absurd hempty hne
        · exact of_decide_eq_false hplain
      simp only [hempty, if_true, hplain, if_false]
    · simp only [hempty, if_false]
  rw [hstep]
  cases hresult : (Part.of domainSize domains).append label with
  | error error =>
      rw [hresult] at happend
      have hnofit : ¬ (nameOf (domains ++ [label])).length < domainSize := by
        intro hfits
        cases (happend _).mpr ⟨rfl, hfits⟩
      simp only [hnofit, and_false, iff_false]
      intro herror
      cases herror
  | ok part =>
      obtain ⟨rfl, hfits⟩ := (happend part).mp hresult
      simp only [hfits, and_true]
      rw [Except.map, Except.ok.injEq, Split.at, if_neg (by simp)]
      exact eq_comm

/-- Once a label is the domain's, so are all that follow. -/
theorem foldlM_domain (types domains labels : List (List UInt8))
    (hdomains : (nameOf domains).length < domainSize)
    (hfirst : domains ≠ [] ∨ labels.head?.any isUnderscored = false) (after : Split) :
    labels.foldlM (splitLabel nameSize) (.at typeSize domainSize name types domains) = .ok after ↔
      after = .at typeSize domainSize name types (domains ++ labels) ∧
        (nameOf (domains ++ labels)).length < domainSize := by
  induction labels generalizing domains with
  | nil =>
      rw [List.append_nil, List.foldlM_nil]
      simp only [hdomains, and_true]
      constructor
      · intro heq
        cases heq
        rfl
      · rintro rfl
        rfl
  | cons label labels ih =>
      have hstep (next : Split) :
          splitLabel nameSize (.at typeSize domainSize name types domains) label = .ok next ↔
            next = .at typeSize domainSize name types (domains ++ [label]) ∧
              (nameOf (domains ++ [label])).length < domainSize :=
        splitLabel_domain hdomains (by simpa using hfirst) next
      have hall : domains ++ label :: labels = domains ++ [label] ++ labels := by simp
      rw [foldlM_cons_eq_ok, hall]
      constructor
      · rintro ⟨next, hnext, hrest⟩
        obtain ⟨rfl, hfits⟩ := (hstep next).mp hnext
        exact (ih _ hfits (Or.inl (by simp))).mp hrest
      · rintro ⟨rfl, hfits⟩
        have hshort := Nat.lt_of_le_of_lt (nameOf_length_le (domains ++ [label]) labels) hfits
        exact ⟨_, (hstep _).mpr ⟨rfl, hshort⟩,
          (ih _ hshort (Or.inl (by simp))).mpr ⟨rfl, hfits⟩⟩

/-- What follows the name is the type as far as its labels begin with an
underscore, and the domain from there on. -/
theorem foldlM_type (types labels : List (List UInt8)) (htypes : (nameOf types).length < typeSize)
    (hdomain : 0 < domainSize) (after : Split) :
    labels.foldlM (splitLabel nameSize) (.at typeSize domainSize name types []) = .ok after ↔
      after = .at typeSize domainSize name (types ++ labels.takeWhile isUnderscored)
          (labels.dropWhile isUnderscored) ∧
        (nameOf (types ++ labels.takeWhile isUnderscored)).length < typeSize ∧
        (nameOf (labels.dropWhile isUnderscored)).length < domainSize := by
  induction labels generalizing types with
  | nil =>
      have hempty : (nameOf []).length < domainSize := hdomain
      rw [List.takeWhile_nil, List.dropWhile_nil, List.append_nil, List.foldlM_nil]
      simp only [htypes, hempty, and_true]
      constructor
      · intro heq
        cases heq
        rfl
      · rintro rfl
        rfl
  | cons label labels ih =>
      cases hlabel : isUnderscored label with
      | false =>
          rw [List.takeWhile_cons_of_neg (by simp [hlabel]),
            List.dropWhile_cons_of_neg (by simp [hlabel]), List.append_nil,
            foldlM_domain types [] (label :: labels) hdomain (Or.inr (by simpa using hlabel))]
          simp only [htypes, true_and]
          rfl
      | true =>
          have hstep (next : Split) :
              splitLabel nameSize (.at typeSize domainSize name types []) label = .ok next ↔
                next = .at typeSize domainSize name (types ++ [label]) [] ∧
                  (nameOf (types ++ [label])).length < typeSize :=
            splitLabel_type htypes hlabel next
          have hall : types ++ label :: labels.takeWhile isUnderscored =
              types ++ [label] ++ labels.takeWhile isUnderscored := by simp
          rw [List.takeWhile_cons_of_pos hlabel, List.dropWhile_cons_of_pos hlabel,
            foldlM_cons_eq_ok, hall]
          constructor
          · rintro ⟨next, hnext, hrest⟩
            obtain ⟨rfl, hfits⟩ := (hstep next).mp hnext
            exact (ih _ hfits).mp hrest
          · rintro ⟨rfl, hfits, hdomains⟩
            have hshort := Nat.lt_of_le_of_lt
              (nameOf_length_le (types ++ [label]) (labels.takeWhile isUnderscored)) hfits
            exact ⟨_, (hstep _).mpr ⟨rfl, hshort⟩,
              (ih _ hshort).mpr ⟨rfl, hfits, hdomains⟩⟩

end Stages

/-- What `avahi_service_name_split` makes of a name that can be read. -/
theorem serviceNameSplit_eq_ok_iff {p : CString} {label : List UInt8} {labels : List (List UInt8)}
    (hlabels : labelsOf p = some (label :: labels)) (nameSize : Nat) {typeSize domainSize : Nat}
    (htype : 0 < typeSize) (hdomain : 0 < domainSize) (after : Split) :
    serviceNameSplit p nameSize typeSize domainSize = .ok after ↔
      after = .at typeSize domainSize (label.take (nameSize - 1)) (labels.takeWhile isUnderscored)
          (labels.dropWhile isUnderscored) ∧
        (nameOf (labels.takeWhile isUnderscored)).length < typeSize ∧
        (nameOf (labels.dropWhile isUnderscored)).length < domainSize := by
  rw [serviceNameSplit, splitLoop_eq hlabels, List.foldlM_cons]
  exact foldlM_type [] labels htype hdomain after

theorem validTypeLoop_eq {reads : Labels} {labels : List (List UInt8)}
    (hreads : reads.texts = some labels) : validTypeLoop reads = labels.all isTypeLabel := by
  induction reads generalizing labels with
  | ended =>
      obtain rfl := Option.some.inj hreads
      rfl
  | malformed => cases hreads
  | read name label rest next ih =>
      obtain ⟨others, hnext, rfl⟩ := Option.map_eq_some_iff.mp hreads
      rw [validTypeLoop, ih hnext, List.all_cons]
      cases isTypeLabel label <;> rfl

theorem isValidServiceTypeGeneric_eq {type : CString} {types : List (List UInt8)}
    (htypes : labelsOf type = some types) :
    isValidServiceTypeGeneric type = true ↔
      type.length < AVAHI_DOMAIN_NAME_MAX ∧ type ≠ [] ∧ types.all isTypeLabel = true := by
  rw [isValidServiceTypeGeneric, validTypeLoop_eq htypes]
  split
  · rename_i hinvalid
    simp only [Bool.false_eq_true, false_iff]
    rintro ⟨hlength, hne, _⟩
    rcases hinvalid with hlong | hnil
    · omega
    · exact hne hnil
  · rename_i hvalid
    rw [not_or] at hvalid
    simp only [show type.length < AVAHI_DOMAIN_NAME_MAX by omega, hvalid.2, ne_eq,
      not_false_eq_true, true_and]

theorem isTypeLabel_isUnderscored {label : List UInt8} (h : isTypeLabel label = true) :
    isUnderscored label = true := (Bool.and_eq_true_iff.mp h).2

theorem nil_notMem_of_typeLabels {types : List (List UInt8)} (h : types.all isTypeLabel = true) :
    [] ∉ types := by
  intro hmem
  cases List.all_eq_true.mp h [] hmem

theorem escape_length_le (label : List UInt8) : (escape label).length ≤ 4 * label.length := by
  induction label with
  | nil => exact Nat.le_refl _
  | cons byte label ih =>
      have hbyte : (escapeByte byte).length ≤ 4 := by
        unfold escapeByte
        split
        · simp
        · split <;> simp
      rw [escape_cons, List.length_append, List.length_cons]
      omega

/-- The parts of the name of a service, with the labels of its type and domain,
which fit the buffers for their normal forms. -/
structure ServiceParts (name type domain : CString) (types domains : List (List UInt8)) : Prop where
  noNul : 0 ∉ name ∧ 0 ∉ type ∧ 0 ∉ domain
  validName : isValidServiceName name = true
  validType : isValidServiceTypeGeneric type = true
  validDomain : domain.length < AVAHI_DOMAIN_NAME_MAX ∧ [] ∉ domains
  typeRead : labelsOf type = some types
  domainRead : labelsOf domain = some domains
  fits : (nameOf types).length < AVAHI_DOMAIN_NAME_MAX ∧
    (nameOf domains).length < AVAHI_DOMAIN_NAME_MAX

section Join

variable {name type domain : CString} {types domains : List (List UInt8)}

theorem ServiceParts.typeLabels (h : ServiceParts name type domain types domains) :
    types.all isTypeLabel = true := ((isValidServiceTypeGeneric_eq h.typeRead).mp h.validType).2.2

theorem ServiceParts.types_ne_nil (h : ServiceParts name type domain types domains) :
    types ≠ [] := by
  rintro rfl
  rcases labelsOf_eq_some h.typeRead with ⟨hnil, _⟩ | ⟨_, _, _, _, _, _, hcons, _⟩
  · exact ((isValidServiceTypeGeneric_eq h.typeRead).mp h.validType).2.1 hnil
  · cases hcons

theorem ServiceParts.properTypes (h : ServiceParts name type domain types domains) :
    ProperLabels types :=
  properLabels_of_labelsOf h.noNul.2.1 h.typeRead (nil_notMem_of_typeLabels h.typeLabels)

theorem ServiceParts.properDomains (h : ServiceParts name type domain types domains) :
    ProperLabels domains := properLabels_of_labelsOf h.noNul.2.2 h.domainRead h.validDomain.2

/-- The text that the three parts are joined to. -/
theorem ServiceParts.join_eq (h : ServiceParts name type domain types domains) (size : Nat) :
    serviceNameJoin size (some name) type domain =
      .ok ((escape name ++ dot :: (nameOf types ++ dot :: nameOf domains)).take (size - 1)) := by
  have hdomain : isValidDomainName domain = true := by
    rw [isValidDomainName, if_neg (by have := h.validDomain.1; omega)]
    exact validDomainLoop_of_proper h.domainRead h.validDomain.2 true
  have hlength : name.length < AVAHI_LABEL_MAX := by
    have hname := h.validName
    simp only [isValidServiceName, Bool.not_eq_true', Bool.or_eq_false_iff,
      decide_eq_false_iff_not] at hname
    omega
  have hescape := escape_length_le name
  rw [serviceNameJoin, Option.any_some, h.validName, h.validType, hdomain, Option.elim_some,
    (normalizeName_eq_iff h.typeRead h.properTypes.nil_notMem (by decide)).mpr h.fits.1,
    (normalizeName_eq_iff h.domainRead h.validDomain.2 (by decide)).mpr h.fits.2,
    escapeLabel_of_fits name _ (by omega)]
  simp

theorem ServiceParts.properRest (h : ServiceParts name type domain types domains) :
    ProperLabels (types ++ domains) := by
  intro label hlabel
  rcases List.mem_append.mp hlabel with htypes | hdomains
  · exact h.properTypes label htypes
  · exact h.properDomains label hdomains

/-- The labels of the joined text: the name's bytes, the types and the domain. -/
theorem ServiceParts.labelsOf_joined (h : ServiceParts name type domain types domains)
    (hutf8 : utf8Valid name = true) :
    labelsOf (escape name ++ dot :: (nameOf types ++ dot :: nameOf domains)) =
      some (name :: (types ++ domains)) := by
  have hname := h.validName
  simp only [isValidServiceName, Bool.not_eq_true', Bool.or_eq_false_iff,
    decide_eq_false_iff_not] at hname
  have hproper : ProperLabels [name] := by
    intro label hlabel
    obtain rfl := List.mem_singleton.mp hlabel
    exact ⟨⟨h.noNul.1, hutf8, by omega⟩, hname.2⟩
  have hread :=
    labelsOf_append hproper (List.cons_ne_nil _ _) (nameOf types ++ dot :: nameOf domains)
  rw [nameOf, labelsOf_append h.properTypes h.types_ne_nil, labelsOf_nameOf h.properDomains,
    Option.map_some, Option.map_some] at hread
  exact hread

/-- Joining the parts of a service and splitting the name gives the parts back
exactly if the name is UTF-8 and no underscore begins the domain. -/
theorem serviceNameSplit_join (h : ServiceParts name type domain types domains) {size : Nat}
    (hsize : (escape name ++ dot :: (nameOf types ++ dot :: nameOf domains)).length < size) :
    ∃ text, serviceNameJoin size (some name) type domain = .ok text ∧
      ((∃ split, serviceNameSplit text AVAHI_LABEL_MAX AVAHI_DOMAIN_NAME_MAX
            AVAHI_DOMAIN_NAME_MAX = .ok split ∧
          split.name = name ∧ split.type.text = nameOf types ∧
          split.domain.text = nameOf domains) ↔
        utf8Valid name = true ∧ domains.head?.any isUnderscored = false) := by
  refine ⟨_, h.join_eq size, ?_⟩
  rw [List.take_of_length_le (by omega)]
  have hname := h.validName
  simp only [isValidServiceName, Bool.not_eq_true', Bool.or_eq_false_iff,
    decide_eq_false_iff_not] at hname
  have hunderscored : ∀ label ∈ types, isUnderscored label = true := fun label hlabel =>
    isTypeLabel_isUnderscored (List.all_eq_true.mp h.typeLabels label hlabel)
  constructor
  · rintro ⟨split, hsplit, _, htype, _⟩
    have hutf8 : utf8Valid name = true := by
      by_contra hinvalid
      rw [serviceNameSplit, scan_of_none (by simp)
        (unescapeLabel_of_not_readable (by omega) (fun hread => hinvalid hread.2) (Or.inl rfl))]
        at hsplit
      cases hsplit
    refine ⟨hutf8, ?_⟩
    obtain ⟨rfl, _, _⟩ := (serviceNameSplit_eq_ok_iff (h.labelsOf_joined hutf8) AVAHI_LABEL_MAX
      (by decide) (by decide) split).mp hsplit
    rw [List.takeWhile_append_of_pos hunderscored] at htype
    have hsame : types ++ domains.takeWhile isUnderscored = types :=
      nameOf_injective (fun label hlabel => h.properRest label
        (List.append_subset.mpr ⟨List.subset_append_left _ _, fun _ hmem =>
          List.mem_append_right _ (List.takeWhile_subset _ hmem)⟩ hlabel)) h.properTypes htype
    have hnone := List.append_right_eq_self.mp hsame
    cases domains with
    | nil => rfl
    | cons label domains =>
        cases hlabel : isUnderscored label with
        | false => simpa using hlabel
        | true =>
            rw [List.takeWhile_cons_of_pos hlabel] at hnone
            cases hnone
  · rintro ⟨hutf8, hplain⟩
    have hnone :
        domains.takeWhile isUnderscored = [] ∧ domains.dropWhile isUnderscored = domains := by
      cases domains with
      | nil => exact ⟨rfl, rfl⟩
      | cons label domains =>
          have hlabel : ¬ isUnderscored label = true := by simpa using hplain
          exact ⟨List.takeWhile_cons_of_neg hlabel, List.dropWhile_cons_of_neg hlabel⟩
    refine ⟨_, (serviceNameSplit_eq_ok_iff (h.labelsOf_joined hutf8) AVAHI_LABEL_MAX
      (by decide) (by decide) _).mpr ⟨rfl, ?_, ?_⟩, ?_, ?_, ?_⟩
    · rw [List.takeWhile_append_of_pos hunderscored, hnone.1, List.append_nil]
      exact h.fits.1
    · rw [List.dropWhile_append_of_pos hunderscored, hnone.2]
      exact h.fits.2
    · exact List.take_of_length_le (by omega)
    · rw [List.takeWhile_append_of_pos hunderscored, hnone.1, List.append_nil]
      rfl
    · rw [List.dropWhile_append_of_pos hunderscored, hnone.2]
      rfl

end Join

/-- The bytes of `Cam 1`, `_nvmr._tcp` and `local`. -/
def plainParts : CString × CString × CString :=
  ([67, 97, 109, 32, 49], [95, 110, 118, 109, 114, 46, 95, 116, 99, 112], [108, 111, 99, 97, 108])

theorem plainParts_split :
    ∃ text,
      serviceNameJoin AVAHI_DOMAIN_NAME_MAX (some plainParts.1) plainParts.2.1 plainParts.2.2 =
        .ok text ∧
      ((∃ split, serviceNameSplit text AVAHI_LABEL_MAX AVAHI_DOMAIN_NAME_MAX
            AVAHI_DOMAIN_NAME_MAX = .ok split ∧
          split.name = plainParts.1 ∧
          split.type.text = nameOf [[95, 110, 118, 109, 114], [95, 116, 99, 112]] ∧
          split.domain.text = nameOf [[108, 111, 99, 97, 108]]) ↔
        utf8Valid plainParts.1 = true ∧
          [[108, 111, 99, 97, 108]].head?.any isUnderscored = false) :=
  serviceNameSplit_join
    ⟨by decide, by decide, by decide, by decide, by decide, by decide, by decide⟩ (by decide)

/-- The parts of an announced name whose labels were split are those of a
service, if the type is one. -/
theorem serviceParts_of_split {label : List UInt8} {types domains : List (List UInt8)}
    (hproper : ProperLabels (label :: (types ++ domains)))
    (hfits : (nameOf (label :: (types ++ domains))).length < AVAHI_DOMAIN_NAME_MAX)
    (htype : isValidServiceTypeGeneric (nameOf types) = true) :
    ServiceParts label (nameOf types) (nameOf domains) types domains := by
  obtain ⟨hlabel, hne⟩ := hproper label (List.mem_cons_self ..)
  have htypes : ProperLabels types := fun other hother =>
    hproper.tail other (List.mem_append_left _ hother)
  have hdomains : ProperLabels domains := fun other hother =>
    hproper.tail other (List.mem_append_right _ hother)
  have hrest := nameOf_length_le_right [label] (types ++ domains)
  have hleft := nameOf_length_le types domains
  have hright := nameOf_length_le_right types domains
  rw [List.singleton_append] at hrest
  have hshort := hlabel.length
  refine ⟨⟨hlabel.noNul, zero_notMem_nameOf htypes, zero_notMem_nameOf hdomains⟩, ?_, htype,
    ⟨by omega, hdomains.nil_notMem⟩, labelsOf_nameOf htypes, labelsOf_nameOf hdomains,
    by omega, by omega⟩
  have hlong : ¬ label.length ≥ AVAHI_LABEL_MAX := by omega
  simp [isValidServiceName, hlong, hne]

/-- A buffer for a whole name holds the joined name up to the dot of the root. -/
theorem labelsOf_joined_take {label : List UInt8} {types domains : List (List UInt8)}
    (hproper : ProperLabels (label :: (types ++ domains)))
    (hfits : (nameOf (label :: (types ++ domains))).length < AVAHI_DOMAIN_NAME_MAX)
    (htypes : types ≠ []) :
    labelsOf ((escape label ++ dot :: (nameOf types ++ dot :: nameOf domains)).take
        (AVAHI_DOMAIN_NAME_MAX - 1)) = some (label :: (types ++ domains)) := by
  have hfirst : nameOf ([label] ++ types) = nameOf [label] ++ dot :: nameOf types :=
    nameOf_append (List.cons_ne_nil _ _) htypes
  rw [List.singleton_append, nameOf] at hfirst
  have hjoined : escape label ++ dot :: (nameOf types ++ dot :: nameOf domains) =
      nameOf (label :: types) ++ dot :: nameOf domains := by
    rw [hfirst, List.append_assoc, List.cons_append]
  rw [hjoined]
  by_cases hdomains : domains = []
  · -- the root's dot is there if it fits, and the labels are the same without it
    rw [hdomains, List.append_nil] at hproper hfits ⊢
    by_cases hroom : (nameOf (label :: types)).length < AVAHI_DOMAIN_NAME_MAX - 1
    · have hread := labelsOf_append hproper (List.cons_ne_nil _ _) (nameOf [])
      rw [List.take_of_length_le, hread]
      · simp [nameOf, labelsOf, scan_nil, Labels.texts]
      · simp only [List.length_append, List.length_cons, nameOf, List.length_nil]
        omega
    · rw [List.take_append_of_le_length (by omega), List.take_of_length_le (by omega)]
      exact labelsOf_nameOf hproper
  · rw [← nameOf_append (List.cons_ne_nil _ _) hdomains, List.cons_append,
      List.take_of_length_le (by omega)]
    exact labelsOf_nameOf hproper

/-- What the browser splits an announced name into, the resolver joins to a name
with the same labels, unless the announced type is not one. -/
theorem serviceNameJoin_split {label : List UInt8} {labels : List (List UInt8)}
    (hproper : ProperLabels (label :: labels))
    (hfits : (nameOf (label :: labels)).length < AVAHI_DOMAIN_NAME_MAX) :
    ∃ split, serviceNameSplit (nameOf (label :: labels)) AVAHI_LABEL_MAX AVAHI_DOMAIN_NAME_MAX
        AVAHI_DOMAIN_NAME_MAX = .ok split ∧
      if isValidServiceTypeGeneric split.type.text then
        ∃ text, serviceNameJoin AVAHI_DOMAIN_NAME_MAX (some split.name) split.type.text
            split.domain.text = .ok text ∧
          labelsOf text = some (label :: labels)
      else
        serviceNameJoin AVAHI_DOMAIN_NAME_MAX (some split.name) split.type.text split.domain.text =
          .invalidServiceType := by
  obtain ⟨types, htypes⟩ : ∃ types, types = labels.takeWhile isUnderscored := ⟨_, rfl⟩
  obtain ⟨domains, hdomains⟩ :
    ∃ domains, domains = labels.dropWhile isUnderscored := ⟨_, rfl⟩
  have hlabels : labels = types ++ domains := by
    rw [htypes, hdomains, List.takeWhile_append_dropWhile]
  have hmax : 0 < AVAHI_DOMAIN_NAME_MAX := by decide
  have hsplit := serviceNameSplit_eq_ok_iff (labelsOf_nameOf hproper) AVAHI_LABEL_MAX hmax hmax
  rw [← htypes, ← hdomains] at hsplit
  rw [hlabels] at hproper hfits ⊢
  obtain ⟨hlabel, hne⟩ := hproper label (List.mem_cons_self ..)
  have hshort := hlabel.length
  have hname : label.take (AVAHI_LABEL_MAX - 1) = label := List.take_of_length_le (by omega)
  have hrest := nameOf_length_le_right [label] (types ++ domains)
  have hleft := nameOf_length_le types domains
  have hright := nameOf_length_le_right types domains
  rw [List.singleton_append] at hrest
  rw [hname, hlabels] at hsplit
  refine ⟨_, (hsplit _).mpr ⟨rfl, by omega, by omega⟩, ?_⟩
  rw [Split.at, Part.of, Part.of]
  simp only
  split
  · rename_i htype
    have hparts := serviceParts_of_split hproper hfits htype
    exact ⟨_, hparts.join_eq _, labelsOf_joined_take hproper hfits hparts.types_ne_nil⟩
  · rename_i htype
    have hlong : ¬ label.length ≥ AVAHI_LABEL_MAX := by omega
    have hvalid : isValidServiceName label = true := by simp [isValidServiceName, hlong, hne]
    rw [serviceNameJoin, Option.any_some, hvalid, Bool.eq_false_iff.mpr htype]
    rfl

/-- The name that the plain parts are joined to is split and joined again. -/
theorem plainParts_join :
    ∃ split, serviceNameSplit
        (nameOf [[67, 97, 109, 32, 49], [95, 110, 118, 109, 114], [108, 111, 99, 97, 108]])
        AVAHI_LABEL_MAX AVAHI_DOMAIN_NAME_MAX AVAHI_DOMAIN_NAME_MAX = .ok split ∧
      if isValidServiceTypeGeneric split.type.text then
        ∃ text, serviceNameJoin AVAHI_DOMAIN_NAME_MAX (some split.name) split.type.text
            split.domain.text = .ok text ∧
          labelsOf text =
            some [[67, 97, 109, 32, 49], [95, 110, 118, 109, 114], [108, 111, 99, 97, 108]]
      else
        serviceNameJoin AVAHI_DOMAIN_NAME_MAX (some split.name) split.type.text split.domain.text =
          .invalidServiceType :=
  serviceNameJoin_split
    (@properLabels_of_labelsOf
      (nameOf [[67, 97, 109, 32, 49], [95, 110, 118, 109, 114], [108, 111, 99, 97, 108]])
      (by decide) _ (by decide) (by decide)) (by decide)

end NvmrDisplay.Avahi
