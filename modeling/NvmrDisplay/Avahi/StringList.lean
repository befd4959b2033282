import Mathlib.Data.List.Basic
import Mathlib.Data.List.TakeWhile
import Mathlib.Algebra.Ring.Nat

/-!
`strlst.c` of avahi-common: the strings of a TXT record. A string list is the
list of its strings from its head on; every function that adds a string puts it
at the head, so a parsed list is in reverse wire order. Allocations are taken to
succeed. A C string is the bytes before its NUL.
-/

namespace NvmrDisplay.Avahi

abbrev AvahiStringList := List (List UInt8)

namespace AvahiStringList

/-- The byte of `=`. -/
abbrev equals : UInt8 := 61

def addArbitrary (l : AvahiStringList) (text : List UInt8) : AvahiStringList := text :: l

def add (l : AvahiStringList) (text : List UInt8) : AvahiStringList := l.addArbitrary text

/-- The loop of `avahi_string_list_parse`. -/
def parseLoop (r : AvahiStringList) : List UInt8 → Option AvahiStringList
  | [] => some r
  | k :: c =>
      if k.toNat > c.length then none
      else
        parseLoop (if k.toNat > 0 then r.addArbitrary (c.take k.toNat) else r)
          (c.drop k.toNat)
termination_by data => data.length
decreasing_by
  rw [List.length_drop, List.length_cons]
  omega

def parse (data : List UInt8) : Option AvahiStringList := parseLoop [] data

/-- The loop of `avahi_string_list_serialize` over the reversed list. -/
def serializeLoop : AvahiStringList → Nat → List UInt8
  | [], _ => []
  | text :: next, size =>
      if size > 1 then
        if text.length = 0 then serializeLoop next size
        else
          let k := min (min text.length 255) (size - 1)
          UInt8.ofNat k :: text.take k ++ serializeLoop next (size - (1 + k))
      else []

/-- The bytes written to a buffer of `size` bytes. -/
def serialize (l : AvahiStringList) (size : Nat) : List UInt8 :=
  let used := serializeLoop l.reverse size
  if used.length = 0 ∧ size > 0 then [0] else used

/-- `avahi_string_list_serialize` without a buffer: the bytes it needs. -/
def serializedSize (l : AvahiStringList) : Nat :=
  let used := l.foldl
    (fun used text => if text.length = 0 then used else used + (1 + min text.length 255)) 0
  if used = 0 then 1 else used

def addPair (l : AvahiStringList) (key : List UInt8) (value : Option (List UInt8)) :
    AvahiStringList :=
  match value with
  | some value => l.addArbitrary (key ++ equals :: value)
  | none => l.add key

/-- `avahi_strdup` of bytes that a NUL follows. -/
def strdup (text : List UInt8) : List UInt8 := text.takeWhile fun byte => byte ≠ 0

/-- The key and the value of one string. -/
def getPair (text : List UInt8) : List UInt8 × Option (List UInt8) :=
  match text.idxOf? equals with
  | none => (strdup text, none)
  | some e => (strdup (text.take e), some (text.drop (e + 1)))

/-- One string as it stands in a TXT record. -/
def characterString (text : List UInt8) : List UInt8 := UInt8.ofNat text.length :: text

theorem parseLoop_characterString (r : AvahiStringList) (text rest : List UInt8)
    (hlength : text.length ≤ 255) :
    parseLoop r (characterString text ++ rest) =
      parseLoop (if text = [] then r else text :: r) rest := by
  have hk : (UInt8.ofNat text.length).toNat = text.length := by
    rw [UInt8.toNat_ofNat']
    omega
  rw [characterString, List.cons_append, parseLoop, hk]
  have hfits : ¬ text.length > (text ++ rest).length := by
    rw [List.length_append]
    omega
  rw [if_neg hfits, List.take_left, List.drop_left]
  cases text with
  | nil => rfl
  | cons byte text => simp [addArbitrary]

/-- Parsing strings puts those that are not empty at the head, one by one. -/
theorem parseLoop_flatMap (r : AvahiStringList) (strings : List (List UInt8))
    (hlength : ∀ text ∈ strings, text.length ≤ 255) :
    parseLoop r (strings.flatMap characterString) =
      some ((strings.filter fun text => text ≠ []).reverse ++ r) := by
  induction strings generalizing r with
  | nil => simp [parseLoop]
  | cons text strings ih =>
      rw [List.flatMap_cons, parseLoop_characterString r text _ (hlength text (by simp)),
        ih _ (fun other hother => hlength other (by simp [hother]))]
      by_cases htext : text = []
      · simp [htext]
      · simp [htext]

/-- Only sequences of strings are accepted. -/
theorem exists_of_parseLoop (r : AvahiStringList) (data : List UInt8) (list : AvahiStringList)
    (h : parseLoop r data = some list) :
    ∃ strings : List (List UInt8), (∀ text ∈ strings, text.length ≤ 255) ∧
      data = strings.flatMap characterString := by
  fun_induction parseLoop r data with
  | case1 r => exact ⟨[], by simp, rfl⟩
  | case2 r k c hover => cases h
  | case3 r k c hfits ih =>
      obtain ⟨strings, hlength, hdata⟩ := ih h
      have htake : (c.take k.toNat).length = k.toNat := by
        rw [List.length_take]
        omega
      refine ⟨c.take k.toNat :: strings, ?_, ?_⟩
      · intro text htext
        rcases List.mem_cons.mp htext with rfl | htext
        · have := k.toNat_lt
          omega
        · exact hlength text htext
      · rw [List.flatMap_cons, ← hdata, characterString, htake, UInt8.ofNat_toNat,
          List.cons_append, List.take_append_drop]

/-- What the parser accepts, and what it makes of it. -/
theorem parse_eq_some_iff (data : List UInt8) (list : AvahiStringList) :
    parse data = some list ↔
      ∃ strings : List (List UInt8), (∀ text ∈ strings, text.length ≤ 255) ∧
        data = strings.flatMap characterString ∧
        list = (strings.filter fun text => text ≠ []).reverse := by
  constructor
  · intro h
    obtain ⟨strings, hlength, rfl⟩ := exists_of_parseLoop [] data list h
    refine ⟨strings, hlength, rfl, ?_⟩
    rw [parse, parseLoop_flatMap [] strings hlength, List.append_nil] at h
    exact (Option.some.inj h).symm
  · rintro ⟨strings, hlength, rfl, rfl⟩
    rw [parse, parseLoop_flatMap [] strings hlength, List.append_nil]

/-- What a TXT record carries of a string. -/
def carried (text : List UInt8) : List UInt8 := text.take 255

/-- The bytes that one string takes. -/
def wireSize (text : List UInt8) : Nat := if text.length = 0 then 0 else 1 + min text.length 255

theorem length_carried (text : List UInt8) : (carried text).length = min text.length 255 := by
  rw [carried, List.length_take, Nat.min_comm]

theorem carried_of_fits {text : List UInt8} (h : text.length ≤ 255) : carried text = text :=
  List.take_of_length_le h

theorem carried_ne_nil {text : List UInt8} (h : text ≠ []) : carried text ≠ [] := by
  have hpos := List.length_pos_iff.mpr h
  apply List.ne_nil_of_length_pos
  rw [length_carried]
  omega

/-- A buffer that is long enough gets what a record can carry of every string. -/
theorem serializeLoop_eq (strings : List (List UInt8)) (size : Nat)
    (hstrings : ∀ text ∈ strings, text ≠ []) (hsize : (strings.map wireSize).sum ≤ size) :
    serializeLoop strings size = (strings.map carried).flatMap characterString := by
  induction strings generalizing size with
  | nil => rfl
  | cons text strings ih =>
      have hpos : 0 < text.length := List.length_pos_iff.mpr (hstrings text (by simp))
      have hwire : wireSize text = 1 + min text.length 255 := if_neg (by omega)
      rw [List.map_cons, List.sum_cons, hwire] at hsize
      have hk : min (min text.length 255) (size - 1) = (carried text).length := by
        rw [length_carried]
        omega
      have htake : text.take (carried text).length = carried text := by
        rw [length_carried, carried, List.take_eq_take_iff]
        omega
      have hrest := ih (size - (1 + (carried text).length))
        (fun other hother => hstrings other (by simp [hother])) (by rw [length_carried]; omega)
      rw [serializeLoop, if_pos (by omega : size > 1), if_neg (by omega : ¬ text.length = 0)]
      simp only [hk, htake, hrest, List.map_cons, List.flatMap_cons, characterString]

theorem serializedSize_pos (l : AvahiStringList) : 0 < serializedSize l := by
  simp only [serializedSize]
  split <;> omega

/-- The loop that counts the bytes counts those of every string. -/
theorem foldl_wireSize (l : AvahiStringList) (used : Nat) :
    l.foldl (fun used text => if text.length = 0 then used else used + (1 + min text.length 255))
        used =
      used + (l.map wireSize).sum := by
  induction l generalizing used with
  | nil => rfl
  | cons text rest ih =>
      rw [List.foldl_cons, ih, List.map_cons, List.sum_cons, wireSize]
      split <;> omega

theorem sum_wireSize_reverse (l : AvahiStringList) :
    (l.reverse.map wireSize).sum = (l.map wireSize).sum := by
  rw [List.map_reverse]
  exact (List.reverse_perm _).sum_nat

theorem length_serializeLoop (strings : List (List UInt8)) (size : Nat)
    (h : (strings.map wireSize).sum ≤ size) :
    (serializeLoop strings size).length = (strings.map wireSize).sum := by
  induction strings generalizing size with
  | nil => rfl
  | cons text strings ih =>
      rw [List.map_cons, List.sum_cons] at h ⊢
      rw [serializeLoop]
      by_cases hempty : text.length = 0
      · have hsize : wireSize text = 0 := if_pos hempty
        rw [if_pos hempty, hsize, Nat.zero_add, ← ih size (by omega)]
        by_cases hroom : size > 1
        · rw [if_pos hroom]
        · rw [if_neg hroom]
          cases strings with
          | nil => rfl
          | cons next strings => rw [serializeLoop, if_neg hroom]
      · have hsize : wireSize text = 1 + min text.length 255 := if_neg hempty
        have hk : min (min text.length 255) (size - 1) = min text.length 255 := by omega
        rw [if_pos (by omega), if_neg hempty]
        simp only [hk]
        rw [List.cons_append, List.length_cons, List.length_append, List.length_take,
          ih _ (by omega), hsize]
        omega

/-- A list is serialized to as many bytes as it needs. -/
theorem length_serialize (l : AvahiStringList) :
    (l.serialize l.serializedSize).length = l.serializedSize := by
  have hreverse := sum_wireSize_reverse l
  have hcount := foldl_wireSize l 0
  rw [Nat.zero_add] at hcount
  unfold serialize serializedSize
  simp only [hcount]
  by_cases hzero : (l.map wireSize).sum = 0
  · rw [if_pos hzero, length_serializeLoop _ _ (by omega), hreverse,
      if_pos ⟨hzero, Nat.one_pos⟩]
    rfl
  · rw [if_neg hzero, length_serializeLoop _ _ (by omega), hreverse, if_neg (by omega),
      length_serializeLoop _ _ (by omega), hreverse]

/-- What the parser makes of a serialized list. -/
theorem parse_serialize_carried (l : AvahiStringList) (size : Nat)
    (hl : ∀ text ∈ l, text ≠ []) (hsize : serializedSize l ≤ size) :
    parse (serialize l size) = some (l.map carried) := by
  have hneeded : (l.reverse.map wireSize).sum ≤ serializedSize l := by
    have hcount := foldl_wireSize l 0
    rw [Nat.zero_add, ← sum_wireSize_reverse] at hcount
    simp only [serializedSize, hcount]
    split <;> omega
  have hpos := serializedSize_pos l
  have hused := serializeLoop_eq l.reverse size (fun text h => hl text (by simpa using h))
    (Nat.le_trans hneeded hsize)
  rw [serialize, hused, parse_eq_some_iff]
  by_cases hempty : l = []
  · subst hempty
    refine ⟨[[]], by simp, ?_, by simp⟩
    rw [if_pos ⟨rfl, by omega⟩]
    rfl
  · refine ⟨l.reverse.map carried, ?_, ?_, ?_⟩
    · intro text htext
      obtain ⟨whole, _, rfl⟩ := List.mem_map.mp htext
      rw [length_carried]
      exact Nat.min_le_right _ _
    · obtain ⟨text, htext⟩ := List.exists_mem_of_ne_nil l hempty
      have hbytes : 0 < ((l.reverse.map carried).flatMap characterString).length := by
        apply List.length_pos_of_mem (a := UInt8.ofNat (carried text).length)
        refine List.mem_flatMap.mpr ⟨carried text, ?_, by simp [characterString]⟩
        exact List.mem_map_of_mem (by simpa using htext)
      rw [if_neg (by omega)]
    · rw [List.filter_eq_self.mpr, List.map_reverse, List.reverse_reverse]
      intro text htext
      obtain ⟨whole, hwhole, rfl⟩ := List.mem_map.mp htext
      exact decide_eq_true (carried_ne_nil (hl whole (by simpa using hwhole)))

/-- A list of strings that a TXT record can carry survives the way over the wire. -/
theorem parse_serialize (l : AvahiStringList) (size : Nat)
    (hl : ∀ text ∈ l, text ≠ [] ∧ text.length ≤ 255) (hsize : serializedSize l ≤ size) :
    parse (serialize l size) = some l := by
  rw [parse_serialize_carried l size (fun text htext => (hl text htext).1) hsize]
  refine congrArg some ((List.map_congr_left fun text htext => ?_).trans (List.map_id l))
  exact carried_of_fits (hl text htext).2

/-- The text before the first `=` of a string, and the text after it. -/
def splitAtEquals (text : List UInt8) : Option (List UInt8 × List UInt8) :=
  (text.idxOf? equals).map fun e => (text.take e, text.drop (e + 1))

theorem splitAtEquals_eq_none_iff (text : List UInt8) :
    splitAtEquals text = none ↔ equals ∉ text := by
  rw [splitAtEquals, Option.map_eq_none_iff, List.idxOf?_eq_none_iff]

theorem splitAtEquals_eq_some_iff (text key value : List UInt8) :
    splitAtEquals text = some (key, value) ↔
      text = key ++ equals :: value ∧ equals ∉ key := by
  constructor
  · intro hsplit
    obtain ⟨e, he, hpair⟩ := Option.map_eq_some_iff.mp hsplit
    obtain ⟨rfl, rfl⟩ := Prod.mk.inj hpair
    obtain ⟨hlt, hat, hbefore⟩ := List.idxOf?_eq_some_iff.mp he
    refine ⟨?_, ?_⟩
    · rw [← hat, ← List.drop_eq_getElem_cons hlt, List.take_append_drop]
    · intro hmem
      obtain ⟨j, hj, hequals⟩ := List.mem_take_iff_getElem.mp hmem
      exact hbefore j (by omega) hequals
  · rintro ⟨rfl, hkey⟩
    have hindex : (key ++ equals :: value).idxOf? equals = some key.length := by
      refine List.idxOf?_eq_some_iff.mpr ⟨by simp, by simp, ?_⟩
      intro j hj hequals
      rw [List.getElem_append_left hj] at hequals
      exact hkey (hequals ▸ List.getElem_mem hj)
    simp [splitAtEquals, hindex]

/-- A string without a NUL is split at its first `=`. -/
theorem getPair_eq (text : List UInt8) (hnul : 0 ∉ text) :
    getPair text =
      match splitAtEquals text with
      | some (key, value) => (key, some value)
      | none => (text, none) := by
  have hwhole (part : List UInt8) (hpart : part ⊆ text) : strdup part = part := by
    apply List.takeWhile_eq_self_iff.mpr
    intro byte hbyte
    refine decide_eq_true ?_
    rintro rfl
    exact hnul (hpart hbyte)
  rw [getPair, splitAtEquals]
  cases text.idxOf? equals with
  | none =>
      simp only [Option.map_none]
      rw [hwhole text (List.Subset.refl _)]
  | some e =>
      simp only [Option.map_some]
      rw [hwhole (text.take e) (List.take_subset e text)]

end AvahiStringList

end NvmrDisplay.Avahi
