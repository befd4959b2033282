import Mathlib.Data.List.Basic

/-!
Labels of domain names, `avahi-common/domain.c`. A name is the bytes of a C
string; in it, a dot ends a label and a backslash escapes a byte. Labels are
the bytes themselves and must be UTF-8.
-/

namespace NvmrDisplay.Avahi

/-- The bytes of a C string, without its NUL. -/
abbrev CString := List UInt8

abbrev AVAHI_LABEL_MAX : Nat := 64

abbrev AVAHI_DOMAIN_NAME_MAX : Nat := 1014

/-- The byte of `.`. -/
abbrev dot : UInt8 := 46

/-- The byte of `\`. -/
abbrev backslash : UInt8 := 92

/-- The byte of `_`. -/
abbrev underscore : UInt8 := 95

/-- `CONTINUATION_CHAR` accepts these bytes. -/
def isContinuation (byte : UInt8) : Bool := byte &&& 0xc0 = 0x80

/-- `UNICODE_VALID`. -/
def unicodeValid (char : Nat) : Bool :=
  char < 0x110000 && char &&& 0xFFFFF800 != 0xD800 && (char < 0xFDD0 || char > 0xFDEF) &&
    char &&& 0xFFFE != 0xFFFE

/-- The bits that a continuation byte adds. -/
def continued (val : Nat) (byte : UInt8) : Nat := val <<< 6 ||| (byte &&& 0x3f).toNat

/-- `avahi_utf8_valid`. A string that ends within a character is not valid. -/
def utf8Valid : CString → Bool
  | [] => true
  | first :: rest =>
      if first < 128 then utf8Valid rest
      else if first &&& 0xe0 = 0xc0 then
        match rest with
        | second :: rest =>
            first &&& 0x1e != 0 && isContinuation second && utf8Valid rest
        | [] => false
      else if first &&& 0xf0 = 0xe0 then
        match rest with
        | second :: third :: rest =>
            let val := continued (continued (first &&& 0x0f).toNat second) third
            isContinuation second && isContinuation third && 1 <<< 11 ≤ val && unicodeValid val &&
              utf8Valid rest
        | _ => false
      else if first &&& 0xf8 = 0xf0 then
        match rest with
        | second :: third :: fourth :: rest =>
            let val := continued (continued (continued (first &&& 0x07).toNat second) third) fourth
            isContinuation second && isContinuation third && isContinuation fourth &&
              1 <<< 16 ≤ val && unicodeValid val && utf8Valid rest
        | _ => false
      else false

/-- `isdigit` in the C locale. -/
def isDigit (byte : UInt8) : Bool := 48 ≤ byte.toNat && byte.toNat ≤ 57

/-- The loop of `avahi_unescape_label`: what is written before the label ends,
and the name after it. -/
def unescapeLoop (size : Nat) (d : List UInt8) : CString → Option (List UInt8 × CString)
  | [] => if d.length ≥ size then none else some (d, [])
  | byte :: name =>
      if d.length ≥ size then none
      else if byte = dot then some (d, name)
      else if byte = backslash then
        match name with
        | [] => none
        | escaped :: name =>
            if escaped = backslash ∨ escaped = dot then unescapeLoop size (d ++ [escaped]) name
            else if isDigit escaped then
              match name with
              | tens :: ones :: name =>
                  if isDigit tens && isDigit ones then
                    let n := (escaped.toNat - 48) * 100 + (tens.toNat - 48) * 10 + (ones.toNat - 48)
                    if n > 255 ∨ n = 0 then none
                    else unescapeLoop size (d ++ [UInt8.ofNat n]) name
                  else none
              | _ => none
            else none
      else unescapeLoop size (d ++ [byte]) name

/-- `avahi_unescape_label`: the first label of a name, and the name after it. -/
def unescapeLabel (name : CString) (size : Nat) : Option (List UInt8 × CString) :=
  match unescapeLoop size [] name with
  | some (label, rest) => if utf8Valid label then some (label, rest) else none
  | none => none

/-- The bytes that `avahi_escape_label` leaves as they are. -/
def isProper (byte : UInt8) : Bool :=
  byte = underscore || byte = 45 || (48 ≤ byte && byte ≤ 57) || (97 ≤ byte && byte ≤ 122) ||
    (65 ≤ byte && byte ≤ 90)

/-- What `avahi_escape_label` has written, the room it leaves, and whether
everything fitted. -/
structure Escaped where
  text : List UInt8
  size : Nat
  complete : Bool

/-- `avahi_escape_label` into a buffer of `size` bytes. -/
def escapeLabel : List UInt8 → Nat → Escaped
  | [], size => ⟨[], size, true⟩
  | byte :: src, size =>
      if byte = dot ∨ byte = backslash then
        if size < 3 then ⟨[], size, false⟩
        else
          let rest := escapeLabel src (size - 2)
          { rest with text := backslash :: byte :: rest.text }
      else if isProper byte then
        if size < 2 then ⟨[], size, false⟩
        else
          let rest := escapeLabel src (size - 1)
          { rest with text := byte :: rest.text }
      else
        if size < 5 then ⟨[], size, false⟩
        else
          let rest := escapeLabel src (size - 4)
          { rest with
            text := backslash :: UInt8.ofNat (48 + byte.toNat / 100) ::
              UInt8.ofNat (48 + byte.toNat / 10 % 10) :: UInt8.ofNat (48 + byte.toNat % 10) ::
                rest.text }

/-- One byte of a label as it is written in a name. -/
def escapeByte (byte : UInt8) : List UInt8 :=
  if byte = dot ∨ byte = backslash then [backslash, byte]
  else if isProper byte then [byte]
  else
    [backslash, UInt8.ofNat (48 + byte.toNat / 100), UInt8.ofNat (48 + byte.toNat / 10 % 10),
      UInt8.ofNat (48 + byte.toNat % 10)]

/-- A label as it is written in a name. -/
def escape (label : List UInt8) : CString := label.flatMap escapeByte

theorem escape_cons (byte : UInt8) (label : List UInt8) :
    escape (byte :: label) = escapeByte byte ++ escape label := List.flatMap_cons

theorem escapeByte_length_pos (byte : UInt8) : 0 < (escapeByte byte).length := by
  unfold escapeByte
  split
  · simp
  · split <;> simp

theorem length_le_escape (label : List UInt8) : label.length ≤ (escape label).length := by
  induction label with
  | nil => exact Nat.le_refl _
  | cons byte label ih =>
      have hpos := escapeByte_length_pos byte
      rw [escape_cons, List.length_append, List.length_cons]
      omega

/-- Each byte is written whole, or nothing more is written. -/
theorem escapeLabel_cons (byte : UInt8) (src : List UInt8) (size : Nat) :
    escapeLabel (byte :: src) size =
      if size < (escapeByte byte).length + 1 then ⟨[], size, false⟩
      else
        let rest := escapeLabel src (size - (escapeByte byte).length)
        { rest with text := escapeByte byte ++ rest.text } := by
  rw [escapeLabel, escapeByte]
  split
  · rfl
  · split <;> rfl

/-- With one byte to spare for the NUL, the whole label is written. -/
theorem escapeLabel_of_fits (label : List UInt8) (size : Nat)
    (hfits : (escape label).length < size) :
    escapeLabel label size = ⟨escape label, size - (escape label).length, true⟩ := by
  induction label generalizing size with
  | nil => rfl
  | cons byte label ih =>
      rw [escape_cons, List.length_append] at hfits
      rw [escapeLabel_cons, if_neg (by omega), ih _ (by omega), escape_cons, List.length_append,
        Nat.sub_add_eq]

/-- What is written is a part of the escaped label, and leaves room for a NUL. -/
theorem escapeLabel_prefix (label : List UInt8) (size : Nat) (hsize : 0 < size) :
    (escapeLabel label size).text <+: escape label ∧
      (escapeLabel label size).text.length + (escapeLabel label size).size = size ∧
      0 < (escapeLabel label size).size ∧
      ((escapeLabel label size).complete = true ↔ (escape label).length < size) := by
  induction label generalizing size with
  | nil => exact ⟨List.nil_prefix, Nat.zero_add size, hsize, iff_of_true rfl hsize⟩
  | cons byte label ih =>
      rw [escapeLabel_cons, escape_cons, List.length_append]
      split
      · refine ⟨List.nil_prefix, Nat.zero_add size, hsize, iff_of_false ?_ ?_⟩
        · exact Bool.false_ne_true
        · omega
      · obtain ⟨hleading, htotal, hroom, hcomplete⟩ :=
          ih (size - (escapeByte byte).length) (by omega)
        simp only
        refine ⟨(List.prefix_append_right_inj _).mpr hleading, ?_, hroom, ?_⟩
        · rw [List.length_append]
          omega
        · rw [hcomplete]
          omega

/-- Decimal digits. -/
theorem isDigit_ofNat {n : Nat} (h : n < 10) :
    isDigit (UInt8.ofNat (48 + n)) = true ∧ (UInt8.ofNat (48 + n)).toNat - 48 = n := by
  have hvalue : (UInt8.ofNat (48 + n)).toNat = 48 + n := by
    rw [UInt8.toNat_ofNat']
    omega
  rw [isDigit, hvalue]
  refine ⟨?_, by omega⟩
  rw [Bool.and_eq_true, decide_eq_true_eq, decide_eq_true_eq]
  omega

/-- A digit is neither of the bytes with a meaning of their own. -/
theorem ne_of_isDigit {byte : UInt8} (h : isDigit byte = true) :
    ¬ (byte = backslash ∨ byte = dot) := by
  rintro (rfl | rfl) <;> cases h

section Unescape

variable {size : Nat} {d : List UInt8} (hd : d.length < size)

include hd

theorem unescapeLoop_nil : unescapeLoop size d [] = some (d, []) :=
  if_neg (by omega)

theorem unescapeLoop_dot (name : CString) :
    unescapeLoop size d (dot :: name) = some (d, name) := by
  rw [unescapeLoop.eq_def]
  exact (if_neg (by omega)).trans (if_pos rfl)

theorem unescapeLoop_plain {byte : UInt8} (hplain : ¬ (byte = backslash ∨ byte = dot))
    (name : CString) :
    unescapeLoop size d (byte :: name) = unescapeLoop size (d ++ [byte]) name := by
  rw [unescapeLoop.eq_def]
  simp only
  rw [if_neg (by omega), if_neg fun h => hplain (Or.inr h), if_neg fun h => hplain (Or.inl h)]

theorem unescapeLoop_special {escaped : UInt8} (hspecial : escaped = backslash ∨ escaped = dot)
    (name : CString) :
    unescapeLoop size d (backslash :: escaped :: name) =
      unescapeLoop size (d ++ [escaped]) name := by
  rw [unescapeLoop.eq_def]
  simp only
  rw [if_neg (by omega), if_neg (by decide), if_pos trivial, if_pos hspecial]

theorem unescapeLoop_decimal {hundreds tens ones byte : UInt8} (hhundreds : isDigit hundreds = true)
    (htens : isDigit tens = true) (hones : isDigit ones = true) (hbyte : byte ≠ 0)
    (hvalue : (hundreds.toNat - 48) * 100 + (tens.toNat - 48) * 10 + (ones.toNat - 48) =
      byte.toNat) (name : CString) :
    unescapeLoop size d (backslash :: hundreds :: tens :: ones :: name) =
      unescapeLoop size (d ++ [byte]) name := by
  have hlt := byte.toNat_lt
  have hpos : byte.toNat ≠ 0 := fun h => hbyte (UInt8.toNat_inj.mp h)
  rw [unescapeLoop.eq_def]
  simp only [hvalue, hhundreds, htens, hones, Bool.and_self, if_true]
  rw [if_neg (by omega), if_neg (by decide), if_neg (ne_of_isDigit hhundreds), if_neg (by omega),
    UInt8.ofNat_toNat]

/-- An escaped byte is read back as that byte. -/
theorem unescapeLoop_escapeByte {byte : UInt8} (hbyte : byte ≠ 0) (name : CString) :
    unescapeLoop size d (escapeByte byte ++ name) = unescapeLoop size (d ++ [byte]) name := by
  unfold escapeByte
  split
  · rename_i hspecial
    exact unescapeLoop_special hd hspecial.symm name
  · rename_i hspecial
    split
    · exact unescapeLoop_plain hd (mt Or.symm hspecial) name
    · have hlt := byte.toNat_lt
      obtain ⟨hhundreds, hh⟩ := isDigit_ofNat (n := byte.toNat / 100) (by omega)
      obtain ⟨htens, ht⟩ := isDigit_ofNat (n := byte.toNat / 10 % 10) (by omega)
      obtain ⟨hones, ho⟩ := isDigit_ofNat (n := byte.toNat % 10) (by omega)
      refine unescapeLoop_decimal hd hhundreds htens hones hbyte ?_ name
      rw [hh, ht, ho]
      omega

end Unescape

/-- An escaped label is read back whole. -/
theorem unescapeLoop_escape (size : Nat) (d label : List UInt8) (name : CString)
    (hlength : d.length + label.length ≤ size) (hnul : 0 ∉ label) :
    unescapeLoop size d (escape label ++ name) = unescapeLoop size (d ++ label) name := by
  induction label generalizing d with
  | nil => rw [List.append_nil]; rfl
  | cons byte label ih =>
      rw [List.length_cons] at hlength
      rw [List.mem_cons, not_or] at hnul
      rw [escape_cons, List.append_assoc,
        unescapeLoop_escapeByte (by omega) (Ne.symm hnul.1),
        ih (d ++ [byte]) (by rw [List.length_append, List.length_singleton]; omega) hnul.2,
        List.append_assoc, List.singleton_append]

/-- Labels that a name can hold. -/
structure LabelText (label : List UInt8) : Prop where
  noNul : 0 ∉ label
  utf8 : utf8Valid label = true
  length : label.length < AVAHI_LABEL_MAX

/-- What is written after an escaped label: nothing, or a dot and more labels. -/
def Ends (name rest : CString) : Prop := name = dot :: rest ∨ name = [] ∧ rest = []

/-- The label that was escaped is unescaped again, and the name goes on after
its dot. -/
theorem unescapeLabel_escape {label : List UInt8} {size : Nat} (hlabel : LabelText label)
    (hsize : label.length < size) {name rest : CString} (hends : Ends name rest) :
    unescapeLabel (escape label ++ name) size = some (label, rest) := by
  have hstop : unescapeLoop size label name = some (label, rest) := by
    rcases hends with rfl | ⟨rfl, rfl⟩
    · exact unescapeLoop_dot hsize rest
    · exact unescapeLoop_nil hsize
  rw [unescapeLabel, unescapeLoop_escape size [] label name (by rw [List.length_nil]; omega)
    hlabel.noNul, List.nil_append, hstop]
  exact if_pos hlabel.utf8

/-- What a label must be to be read from a name. -/
def Readable (label : List UInt8) : Prop := 0 ∉ label ∧ utf8Valid label = true

instance (label : List UInt8) : Decidable (Readable label) :=
  inferInstanceAs (Decidable (0 ∉ label ∧ utf8Valid label = true))

/-- A NUL is escaped as a number that is not read again. -/
theorem unescapeLoop_escape_nul (size : Nat) (d label : List UInt8) (name : CString)
    (hlength : d.length + label.length ≤ size) (hnul : 0 ∈ label) :
    unescapeLoop size d (escape label ++ name) = none := by
  induction label generalizing d with
  | nil => cases hnul
  | cons byte label ih =>
      rw [List.length_cons] at hlength
      rw [escape_cons, List.append_assoc]
      by_cases hbyte : byte = 0
      · rw [hbyte, show escapeByte 0 = [backslash, 48, 48, 48] by decide, List.cons_append,
          unescapeLoop.eq_def]
        simp only [List.cons_append, List.nil_append]
        rw [if_neg (by omega), if_neg (by decide), if_pos trivial, if_neg (by decide),
          if_pos (by decide)]
        rfl
      · rw [unescapeLoop_escapeByte (by omega) hbyte]
        apply ih
        · rw [List.length_append, List.length_singleton]
          omega
        · exact (List.mem_cons.mp hnul).resolve_left (Ne.symm hbyte)

/-- A label that cannot be read can be written, but not read again. -/
theorem unescapeLabel_of_not_readable {label : List UInt8}
    (hlength : label.length < AVAHI_LABEL_MAX) (hlabel : ¬ Readable label) {name rest : CString}
    (hends : Ends name rest) :
    unescapeLabel (escape label ++ name) AVAHI_LABEL_MAX = none := by
  have hfits : ([] : List UInt8).length + label.length ≤ AVAHI_LABEL_MAX := by
    rw [List.length_nil]
    omega
  by_cases hnul : 0 ∈ label
  · rw [unescapeLabel, unescapeLoop_escape_nul AVAHI_LABEL_MAX [] label name hfits hnul]
  · have hstop : unescapeLoop AVAHI_LABEL_MAX label name = some (label, rest) := by
      rcases hends with rfl | ⟨rfl, rfl⟩
      · exact unescapeLoop_dot hlength rest
      · exact unescapeLoop_nil hlength
    rw [unescapeLabel, unescapeLoop_escape AVAHI_LABEL_MAX [] label name hfits hnul,
      List.nil_append, hstop]
    exact if_neg fun hutf8 => hlabel ⟨hnul, hutf8⟩

/-- What the loop has read when it stops: a label that fits, without NUL, and a
shorter name. -/
theorem unescapeLoop_some {size : Nat} {d label : List UInt8} {name rest : CString}
    (h : unescapeLoop size d name = some (label, rest)) :
    label.length < size ∧ (0 ∉ d → 0 ∉ name → 0 ∉ label) ∧ rest <:+ name ∧
      (name ≠ [] → rest.length < name.length) := by
  fun_induction unescapeLoop size d name with
  | case1 | case3 | case5 | case7 | case9 | case10 | case11 => cases h
  | case2 d hroom =>
      obtain ⟨rfl, rfl⟩ := Prod.mk.inj (Option.some.inj h)
      exact ⟨by omega, fun hd _ => hd, List.suffix_refl _, fun h => absurd rfl h⟩
  | case4 d name hroom =>
      obtain ⟨rfl, rfl⟩ := Prod.mk.inj (Option.some.inj h)
      refine ⟨by omega, fun hd _ => hd, List.suffix_cons _ _, ?_⟩
      simp
  | case6 d hroom escaped name hspecial _ ih =>
      obtain ⟨hlength, hlabel, hsuffix, hshorter⟩ := ih h
      have hle := hsuffix.length_le
      refine ⟨hlength, ?_, hsuffix.trans ⟨[backslash, escaped], rfl⟩, fun _ => ?_⟩
      · intro hd hnul
        simp only [List.mem_cons, not_or] at hnul
        apply hlabel _ hnul.2.2
        simp [hd, hnul.2.1]
      · simp only [List.length_cons]
        omega
  | case8 d hroom hundreds _ hdigit tens ones name hdigits n hrange _ ih =>
      have hbyte : UInt8.ofNat n ≠ 0 := by
        intro hzero
        have hvalue := congrArg UInt8.toNat hzero
        rw [UInt8.toNat_ofNat'] at hvalue
        simp at hvalue
        omega
      obtain ⟨hlength, hlabel, hsuffix, hshorter⟩ := ih h
      have hle := hsuffix.length_le
      refine ⟨hlength, ?_, hsuffix.trans ⟨[backslash, hundreds, tens, ones], rfl⟩,
        fun _ => ?_⟩
      · intro hd hnul
        simp only [List.mem_cons, not_or] at hnul
        apply hlabel _ hnul.2.2.2.2
        simp [hd, hbyte.symm]
      · simp only [List.length_cons]
        omega
  | case12 d byte name hroom _ _ ih =>
      obtain ⟨hlength, hlabel, hsuffix, hshorter⟩ := ih h
      have hle := hsuffix.length_le
      refine ⟨hlength, ?_, hsuffix.trans ⟨[byte], rfl⟩, fun _ => ?_⟩
      · intro hd hnul
        simp only [List.mem_cons, not_or] at hnul
        apply hlabel _ hnul.2
        simp [hd, hnul.1]
      · simp only [List.length_cons]
        omega

/-- Every label that is read is one that a name can hold. -/
theorem unescapeLabel_some {label : List UInt8} {name rest : CString}
    (h : unescapeLabel name AVAHI_LABEL_MAX = some (label, rest)) :
    (0 ∉ name → LabelText label) ∧ rest <:+ name ∧
    (name ≠ [] → rest.length < name.length) := by
  unfold unescapeLabel at h
  split at h
  · rename_i read hread
    obtain ⟨hutf8, heq⟩ := Option.ite_none_right_eq_some.mp h
    obtain ⟨rfl, rfl⟩ := Prod.mk.inj (Option.some.inj heq)
    obtain ⟨hlength, hlabel, hsuffix, hshorter⟩ := unescapeLoop_some hread
    exact ⟨fun hnul => ⟨hlabel (by simp) hnul, hutf8, hlength⟩, hsuffix, hshorter⟩
  · cases h

end NvmrDisplay.Avahi
