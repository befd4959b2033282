import NvmrDisplay.Avahi.StringList
import NvmrDisplay.Discover.EmbeddedAvahiBrowse
import NvmrDisplay.Lib.FirstBinding

/-!
What the display makes of a TXT record. By DNS-SD the first `=` of a string
ends its key, and the first string with a key counts. The parsed list is in
reverse wire order and the map is overwritten, so the first string does count;
but a string that has another `=` in its value is left out.
-/

namespace NvmrDisplay.Discover

open Avahi Lib

/-- ASCII bytes as text. -/
def asciiText (bytes : List UInt8) : String :=
  String.ofList (bytes.map fun byte => Char.ofNat byte.toNat)

def Ascii (bytes : List UInt8) : Prop := ∀ byte ∈ bytes, byte.toNat < 128

instance (bytes : List UInt8) : Decidable (Ascii bytes) :=
  List.decidableBAll (fun byte : UInt8 => byte.toNat < 128) bytes

/-- A locale whose encoding extends ASCII: such bytes are decoded one by one. -/
def DecodesAscii [LocalCodec] : Prop :=
  ∀ bytes, Ascii bytes → LocalCodec.fromLocal8Bit bytes = asciiText bytes

/-- The key and the value of one string, as text. -/
def textPair (text : List UInt8) : Option (String × String) :=
  (AvahiStringList.splitAtEquals text).map fun pair => (asciiText pair.1, asciiText pair.2)

/-- It is what `avahi_string_list_get_pair` makes of the string. -/
theorem textPair_eq {text : List UInt8} (hnul : 0 ∉ text) :
    textPair text = (AvahiStringList.getPair text).2.map fun value =>
      (asciiText (AvahiStringList.getPair text).1, asciiText value) := by
  rw [AvahiStringList.getPair_eq text hnul, textPair]
  cases AvahiStringList.splitAtEquals text with
  | none => rfl
  | some pair => rfl

/-- The DNS-SD reading of the strings of a record, in wire order. -/
def reading (strings : List (List UInt8)) (key : String) : Option String :=
  (strings.filterMap textPair).lookup key

/-- The bytes of a text, one for each character. -/
theorem asciiText_toList (bytes : List UInt8) :
    (asciiText bytes).toList = bytes.map fun byte => Char.ofNat byte.toNat :=
  String.toList_ofList

theorem charOfByte_injective : Function.Injective fun byte : UInt8 => Char.ofNat byte.toNat := by
  have hvalid (byte : UInt8) : (Char.ofNat byte.toNat).toNat = byte.toNat := by
    have hlt := byte.toNat_lt
    rw [Char.ofNat, dif_pos (Or.inl (by omega))]
    rfl
  intro a b h
  have hnat := congrArg Char.toNat h
  simp only [hvalid] at hnat
  exact UInt8.toNat_inj.mp hnat

theorem asciiText_injective : Function.Injective asciiText := by
  intro a b h
  have hlists := congrArg String.toList h
  rw [asciiText_toList, asciiText_toList] at hlists
  exact List.map_injective_iff.mpr charOfByte_injective hlists

/-- A text contains `=` exactly if its bytes do. -/
theorem equals_mem_asciiText (bytes : List UInt8) :
    '=' ∈ (asciiText bytes).toList ↔ AvahiStringList.equals ∈ bytes := by
  rw [asciiText_toList]
  exact List.mem_map_of_injective charOfByte_injective (a := AvahiStringList.equals)

section Decoding

variable [LocalCodec]

/-- What `insertTxt` keeps of one string. -/
def keptPair (vec : List UInt8) : Option (String × String) :=
  match QString.split (LocalCodec.fromLocal8Bit vec) '=' with
  | [key, value] => some (key, value)
  | _ => none

theorem insertTxt_eq (txtMap : QMap String String) (vec : List UInt8) :
    ServiceDiscover.insertTxt txtMap vec =
      match keptPair vec with
      | some pair => txtMap.insert pair.1 pair.2
      | none => txtMap := by
  unfold ServiceDiscover.insertTxt keptPair
  match QString.split (LocalCodec.fromLocal8Bit vec) '=' with
  | [] => rfl
  | [_] => rfl
  | [_, _] => rfl
  | _ :: _ :: _ :: _ => rfl

/-- The map that is built from a list in reverse wire order holds for each key
the first of the kept pairs. -/
theorem txtMap_find (strings : List (List UInt8)) (key : String) :
    (ServiceDiscover.txtMap strings.reverse).find key =
      (strings.filterMap keptPair).lookup key := by
  rw [← foldr_update_eq_lookup, ServiceDiscover.txtMap, List.foldl_reverse]
  induction strings generalizing key with
  | nil => rfl
  | cons vec rest ih =>
      rw [List.foldr_cons, insertTxt_eq]
      cases hkept : keptPair vec with
      | none =>
          rw [List.filterMap_cons_none hkept]
          exact ih key
      | some pair =>
          rw [List.filterMap_cons_some hkept, List.foldr_cons, Function.update_apply, ← ih]
          exact QMap.find_insert _ pair.1 key pair.2

/-- The parts that `QString::split` finds in a decoded string. -/
theorem split_decoded (hcodec : DecodesAscii) {text : List UInt8} (htext : Ascii text) :
    QString.split (LocalCodec.fromLocal8Bit text) '=' =
      ((asciiText text).toList.splitOn '=').map String.ofList := by
  rw [hcodec text htext, QString.split]

/-- A string with one `=` is kept as DNS-SD reads it; all others are left out. -/
theorem keptPair_eq (hcodec : DecodesAscii) {text : List UInt8} (htext : Ascii text) :
    keptPair text = (textPair text).filter fun pair => '=' ∉ pair.2.toList := by
  rw [keptPair, split_decoded hcodec htext, textPair]
  cases hsplit : AvahiStringList.splitAtEquals text with
  | none =>
      have hnone := (AvahiStringList.splitAtEquals_eq_none_iff text).mp hsplit
      rw [List.splitOn_eq_singleton (mt (equals_mem_asciiText text).mp hnone)]
      rfl
  | some pair =>
      obtain ⟨key, value⟩ := pair
      obtain ⟨rfl, hkey⟩ := (AvahiStringList.splitAtEquals_eq_some_iff text key value).mp hsplit
      have hchars : (asciiText (key ++ AvahiStringList.equals :: value)).toList =
          (asciiText key).toList ++ '=' :: (asciiText value).toList := by
        simp only [asciiText_toList, List.map_append, List.map_cons]
        rfl
      rw [hchars, List.splitOn_append_cons_self_of_not_mem (mt (equals_mem_asciiText key).mp hkey)]
      by_cases hvalue : '=' ∈ (asciiText value).toList
      · obtain ⟨before, after, hparts, hbefore⟩ := List.eq_append_cons_of_mem hvalue
        obtain ⟨part, parts, hafter⟩ :=
          List.exists_cons_of_ne_nil (List.splitOn_ne_nil '=' after)
        rw [hparts, List.splitOn_append_cons_self_of_not_mem hbefore, hafter]
        simp [Option.filter_some, hvalue]
      · rw [List.splitOn_eq_singleton hvalue]
        simp [Option.filter_some, hvalue]

/-- The map agrees with the reading of the record exactly if no value that
counts contains a `=`. -/
theorem txtMap_reads_iff (hcodec : DecodesAscii) {strings : List (List UInt8)}
    (hascii : ∀ text ∈ strings, Ascii text) :
    (∀ key, (ServiceDiscover.txtMap strings.reverse).find key = reading strings key) ↔
      ∀ key value, reading strings key = some value → '=' ∉ value.toList := by
  have hkept : strings.filterMap keptPair =
      (strings.filterMap textPair).filter fun pair => '=' ∉ pair.2.toList := by
    rw [List.filter_filterMap]
    apply List.filterMap_congr
    intro text htext
    exact keptPair_eq hcodec (hascii text htext)
  simp only [txtMap_find, hkept]
  exact lookup_filter_eq_iff (fun value : String => '=' ∉ value.toList) _

/-- The decoded list says what was published: the map holds the published
values and no others, and a published stream is announced with its name. -/
structure Recovered (list : AvahiStringList) (published : String → Option String) : Prop where
  mapped : ∀ key value, (ServiceDiscover.txtMap list).find key = some value ↔
    published key = some value
  announced : ∀ url, published "rtsp" = some url →
    ∀ (browse : EmbeddedAvahiBrowse) item hostName address port,
      (browse.videosenderResolveCb item (.found hostName (.inet address) port list)).2 =
        [.rpiVideoSenderRtspFound url item.name ((published "videoname").getD "")]

theorem recovered_iff (list : AvahiStringList) (published : String → Option String) :
    Recovered list published ↔
      ∀ key, (ServiceDiscover.txtMap list).find key = published key := by
  constructor
  · intro h key
    exact Option.ext (h.mapped key)
  · intro h
    refine ⟨fun key value => by rw [h key], ?_⟩
    intro url hurl browse item hostName address port
    have hcontains : (ServiceDiscover.txtMap list).contains "rtsp" = true := by
      rw [QMap.contains, h, hurl]
      rfl
    have hsignals : (browse.videosenderResolveCb item
        (.found hostName (.inet address) port list)).2 =
          ServiceDiscover.rtspSignal item.name list := rfl
    rw [hsignals, ServiceDiscover.rtspSignal, if_pos hcontains, QMap.value, QMap.value, h, h, hurl]
    rfl

end Decoding

/-- The list that `avahi_string_list_add_pair` makes of some pairs. -/
def written (pairs : List (List UInt8 × List UInt8)) : AvahiStringList :=
  pairs.foldl (fun l pair => l.addPair pair.1 (some pair.2)) []

/-- The pairs as text; their keys differ. -/
def publishedPairs (pairs : List (List UInt8 × List UInt8)) (key : String) : Option String :=
  (pairs.map fun pair => (asciiText pair.1, asciiText pair.2)).lookup key

theorem written_eq (pairs : List (List UInt8 × List UInt8)) :
    written pairs =
      (pairs.map fun pair => pair.1 ++ AvahiStringList.equals :: pair.2).reverse := by
  have hfold (l : AvahiStringList) :
      pairs.foldl (fun l pair => l.addPair pair.1 (some pair.2)) l =
        (pairs.map fun pair => pair.1 ++ AvahiStringList.equals :: pair.2).reverse ++ l := by
    induction pairs generalizing l with
    | nil => rfl
    | cons pair rest ih =>
        rw [List.foldl_cons, ih]
        simp [AvahiStringList.addPair, AvahiStringList.addArbitrary]
  rw [written, hfold, List.append_nil]

theorem parse_written (pairs : List (List UInt8 × List UInt8)) (size : Nat)
    (hsize : (written pairs).serializedSize ≤ size) :
    AvahiStringList.parse ((written pairs).serialize size) =
      some ((written pairs).map AvahiStringList.carried) := by
  refine AvahiStringList.parse_serialize_carried (written pairs) size ?_ hsize
  intro text htext
  rw [written_eq, List.mem_reverse, List.mem_map] at htext
  obtain ⟨pair, _, rfl⟩ := htext
  simp

/-- Pairs that fit into strings of a TXT record survive the way over the wire. -/
theorem written_carried (pairs : List (List UInt8 × List UInt8))
    (hfits : ∀ pair ∈ pairs, pair.1.length + pair.2.length < 255) :
    (written pairs).map AvahiStringList.carried = written pairs := by
  refine (List.map_congr_left fun text htext => ?_).trans (List.map_id (written pairs))
  rw [written_eq, List.mem_reverse, List.mem_map] at htext
  obtain ⟨pair, hpair, rfl⟩ := htext
  have hlength := hfits pair hpair
  apply AvahiStringList.carried_of_fits
  rw [List.length_append, List.length_cons]
  omega

theorem reading_written (pairs : List (List UInt8 × List UInt8))
    (hkeys : ∀ pair ∈ pairs, AvahiStringList.equals ∉ pair.1) :
    reading (written pairs).reverse = publishedPairs pairs := by
  funext key
  rw [reading, publishedPairs, written_eq, List.reverse_reverse, List.filterMap_map,
    ← List.filterMap_eq_map]
  congr 1
  apply List.filterMap_congr
  intro pair hpair
  have hsplit := (AvahiStringList.splitAtEquals_eq_some_iff _ pair.1 pair.2).mpr
    ⟨rfl, hkeys pair hpair⟩
  simp [textPair, hsplit]

theorem publishedPairs_eq_some_iff {pairs : List (List UInt8 × List UInt8)}
    (hdistinct : (pairs.map Prod.fst).Nodup) (key value : String) :
    publishedPairs pairs key = some value ↔
      ∃ pair ∈ pairs, asciiText pair.1 = key ∧ asciiText pair.2 = value := by
  have hkeys : ((pairs.map fun pair => (asciiText pair.1, asciiText pair.2)).map
      Prod.fst).Nodup := by
    have hmap := hdistinct.map asciiText_injective
    simpa [List.map_map, Function.comp_def] using hmap
  rw [publishedPairs, lookup_eq_some_iff_mem hkeys, List.mem_map]
  simp only [Prod.mk.injEq]

theorem ascii_written {pairs : List (List UInt8 × List UInt8)}
    (hascii : ∀ pair ∈ pairs, Ascii pair.1 ∧ Ascii pair.2) :
    ∀ text ∈ (written pairs).reverse, Ascii text := by
  intro text htext
  rw [written_eq, List.reverse_reverse, List.mem_map] at htext
  obtain ⟨pair, hpair, rfl⟩ := htext
  obtain ⟨hkey, hvalue⟩ := hascii pair hpair
  intro byte hbyte
  rcases List.mem_append.mp hbyte with hbyte | hbyte
  · exact hkey byte hbyte
  · rcases List.mem_cons.mp hbyte with rfl | hbyte
    · decide
    · exact hvalue byte hbyte

section Decoding

variable [LocalCodec]

/-- A parsed record is decoded to its DNS-SD reading exactly if no value that
counts contains a `=`. -/
theorem recovered_parsed_iff (hcodec : DecodesAscii) {strings : List (List UInt8)}
    (hascii : ∀ text ∈ strings.filter (fun text => text ≠ []), Ascii text) :
    Recovered (strings.filter fun text => text ≠ []).reverse (reading strings) ↔
      ∀ key value, reading strings key = some value → '=' ∉ value.toList := by
  have hempty : reading strings = reading (strings.filter fun text => text ≠ []) := by
    funext key
    rw [reading, reading, List.filterMap_filter]
    congr 1
    apply List.filterMap_congr
    intro text _
    by_cases htext : text = []
    · subst htext
      rfl
    · simp [htext]
  rw [recovered_iff, hempty]
  exact txtMap_reads_iff hcodec hascii

/-- Pairs with distinct keys are recovered exactly if none of their values
contains a `=`. -/
theorem recovered_written_iff (hcodec : DecodesAscii) {pairs : List (List UInt8 × List UInt8)}
    (hdistinct : (pairs.map Prod.fst).Nodup)
    (hkeys : ∀ pair ∈ pairs, AvahiStringList.equals ∉ pair.1)
    (hascii : ∀ pair ∈ pairs, Ascii pair.1 ∧ Ascii pair.2) :
    Recovered (written pairs) (publishedPairs pairs) ↔
      ∀ pair ∈ pairs, AvahiStringList.equals ∉ pair.2 := by
  have hreads := txtMap_reads_iff hcodec (ascii_written hascii)
  rw [List.reverse_reverse, reading_written pairs hkeys] at hreads
  rw [recovered_iff, hreads]
  constructor
  · intro h pair hpair
    have hpublished := (publishedPairs_eq_some_iff hdistinct _ _).mpr ⟨pair, hpair, rfl, rfl⟩
    exact mt (equals_mem_asciiText pair.2).mpr (h _ _ hpublished)
  · intro h key value hvalue
    obtain ⟨pair, hpair, _, rfl⟩ := (publishedPairs_eq_some_iff hdistinct key value).mp hvalue
    exact mt (equals_mem_asciiText pair.2).mp (h pair hpair)

/-- A record carries at most 255 bytes of a string, so what is recovered from the
wire is a pair that fits. -/
theorem fits_of_recovered (hcodec : DecodesAscii) {pairs : List (List UInt8 × List UInt8)}
    (hdistinct : (pairs.map Prod.fst).Nodup)
    (hascii : ∀ pair ∈ pairs, Ascii pair.1 ∧ Ascii pair.2)
    (h : Recovered ((written pairs).map AvahiStringList.carried) (publishedPairs pairs))
    {pair : List UInt8 × List UInt8} (hpair : pair ∈ pairs) :
    pair.1.length + pair.2.length < 255 := by
  have hpublished := (publishedPairs_eq_some_iff hdistinct _ _).mpr ⟨pair, hpair, rfl, rfl⟩
  have hfound := (h.mapped _ _).mpr hpublished
  rw [← List.reverse_reverse (List.map _ _), txtMap_find] at hfound
  obtain ⟨before, after, hkept, _⟩ := List.lookup_eq_some_iff.mp hfound
  obtain ⟨text, htext, hkept⟩ := List.mem_filterMap.mp
    (hkept ▸ List.mem_append_right before (List.mem_cons_self ..))
  obtain ⟨whole, hwhole, rfl⟩ := List.mem_map.mp (List.mem_reverse.mp htext)
  have hascii' : Ascii (AvahiStringList.carried whole) := fun byte hbyte =>
    ascii_written hascii whole (List.mem_reverse.mpr hwhole) byte (List.mem_of_mem_take hbyte)
  rw [keptPair_eq hcodec hascii'] at hkept
  obtain ⟨hsplit, _⟩ := Option.filter_eq_some_iff.mp hkept
  obtain ⟨⟨key, value⟩, hsplit, hpairs⟩ := Option.map_eq_some_iff.mp hsplit
  obtain ⟨hkey, hvalue⟩ := Prod.mk.inj hpairs
  obtain rfl := asciiText_injective hkey
  obtain rfl := asciiText_injective hvalue
  have hlength := AvahiStringList.length_carried whole
  rw [((AvahiStringList.splitAtEquals_eq_some_iff _ _ _).mp hsplit).1, List.length_append,
    List.length_cons] at hlength
  omega

/-- A record is decoded to its DNS-SD reading exactly if no value that counts
contains a `=`; so pairs with distinct keys are recovered exactly if none of
their values contains one and, over the wire, each fits into a string. -/
theorem txt_decoding_iff (hcodec : DecodesAscii) :
    (∀ rdata list, AvahiStringList.parse rdata = some list → (∀ text ∈ list, Ascii text) →
      ∃ strings : List (List UInt8), (∀ text ∈ strings, text.length ≤ 255) ∧
        rdata = strings.flatMap AvahiStringList.characterString ∧
        (∀ text ∈ strings, 0 ∉ text → textPair text =
          (AvahiStringList.getPair text).2.map fun value =>
            (asciiText (AvahiStringList.getPair text).1, asciiText value)) ∧
        (Recovered list (reading strings) ↔
          ∀ key value, reading strings key = some value → '=' ∉ value.toList)) ∧
    ∀ pairs : List (List UInt8 × List UInt8), (pairs.map Prod.fst).Nodup →
      (∀ pair ∈ pairs, AvahiStringList.equals ∉ pair.1) →
      (∀ pair ∈ pairs, Ascii pair.1 ∧ Ascii pair.2) →
      (Recovered (written pairs) (publishedPairs pairs) ↔
        ∀ pair ∈ pairs, AvahiStringList.equals ∉ pair.2) ∧
      ∀ size, (written pairs).serializedSize ≤ size →
        ∃ list, AvahiStringList.parse ((written pairs).serialize size) = some list ∧
          (Recovered list (publishedPairs pairs) ↔
            ∀ pair ∈ pairs, AvahiStringList.equals ∉ pair.2 ∧
              pair.1.length + pair.2.length < 255) := by
  refine ⟨?_, ?_⟩
  · intro rdata list hparse hascii
    obtain ⟨strings, hlength, hrdata, rfl⟩ :=
      (AvahiStringList.parse_eq_some_iff rdata list).mp hparse
    refine ⟨strings, hlength, hrdata, fun text _ hnul => textPair_eq hnul, ?_⟩
    exact recovered_parsed_iff hcodec fun text htext => hascii text (by simpa using htext)
  · intro pairs hdistinct hkeys hascii
    have hwritten := recovered_written_iff hcodec hdistinct hkeys hascii
    refine ⟨hwritten, fun size hsize => ⟨_, parse_written pairs size hsize, ?_⟩⟩
    constructor
    · intro h pair hpair
      have hfits (other) (hother : other ∈ pairs) :=
        fits_of_recovered hcodec hdistinct hascii h hother
      rw [written_carried pairs hfits] at h
      exact ⟨hwritten.mp h pair hpair, hfits pair hpair⟩
    · intro h
      rw [written_carried pairs fun pair hpair => (h pair hpair).2]
      exact hwritten.mpr fun pair hpair => (h pair hpair).1

end Decoding

/-- The bytes of `rtsp=rtsp://c/`. -/
def plainString : List UInt8 := [114, 116, 115, 112, 61, 114, 116, 115, 112, 58, 47, 47, 99, 47]

theorem plain_string_decoded :
    (∃ strings : List (List UInt8), (∀ text ∈ strings, text.length ≤ 255) ∧
      AvahiStringList.characterString plainString =
        strings.flatMap AvahiStringList.characterString ∧
      (∀ text ∈ strings, 0 ∉ text → textPair text =
        (AvahiStringList.getPair text).2.map fun value =>
          (asciiText (AvahiStringList.getPair text).1, asciiText value)) ∧
      (@Recovered .latin1 [plainString] (reading strings) ↔
        ∀ key value, reading strings key = some value → '=' ∉ value.toList)) ∧
      @Recovered .latin1 (written [([97], [98])]) (publishedPairs [([97], [98])]) ∧
      ∃ list, AvahiStringList.parse ((written [([97], [98])]).serialize 4) = some list ∧
        @Recovered .latin1 list (publishedPairs [([97], [98])]) := by
  have hparse : AvahiStringList.parse (AvahiStringList.characterString plainString) =
      some [plainString] :=
    (AvahiStringList.parse_eq_some_iff _ _).mpr ⟨[plainString], by decide, by decide, by decide⟩
  obtain ⟨hparsed, hwritten⟩ := @txt_decoding_iff .latin1 (fun _ _ => rfl)
  obtain ⟨hmemory, hwire⟩ := hwritten [([97], [98])] (by decide) (by decide) (by decide)
  obtain ⟨list, hlist, hrecovered⟩ := hwire 4 (by decide)
  exact ⟨hparsed _ _ hparse (by decide), hmemory.mpr (by decide), list, hlist,
    hrecovered.mpr (by decide)⟩

/-- The bytes of `rtsp=rtsp://c/?q=1`. -/
def queryString : List UInt8 := plainString ++ [63, 113, 61, 49]

/-- A stream with a query is published and parsed, but not announced. -/
theorem query_hides_camera :
    AvahiStringList.parse (AvahiStringList.characterString queryString) = some [queryString] ∧
      reading [queryString] "rtsp" = some "rtsp://c/?q=1" ∧
      @ServiceDiscover.rtspSignal .latin1 "camera" [queryString] = [] ∧
      ¬ @Recovered .latin1 [queryString] (reading [queryString]) := by
  have hreading : reading [queryString] "rtsp" = some "rtsp://c/?q=1" := by decide
  have hempty : (@ServiceDiscover.txtMap .latin1 [queryString]).find "rtsp" = none := by decide
  refine ⟨?_, hreading, by decide, ?_⟩
  · exact (AvahiStringList.parse_eq_some_iff _ _).mpr
      ⟨[queryString], by decide, by decide, by decide⟩
  · intro h
    have hmapped := (@Recovered.mapped .latin1 _ _ h "rtsp" "rtsp://c/?q=1").mpr hreading
    rw [hempty] at hmapped
    cases hmapped

end NvmrDisplay.Discover
