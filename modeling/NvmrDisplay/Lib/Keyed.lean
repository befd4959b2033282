import Mathlib.Data.List.Nodup
import Mathlib.Data.List.Perm.Basic

/-!
Lists whose elements have distinct keys. Such a list is a finite map from keys to
elements: looking for the first element of a key finds the only one. An element
can have several keys, and be looked for by one and removed by another.
-/

namespace NvmrDisplay.Lib

variable {α κ ι : Type*} [DecidableEq κ] {key : α → κ} {k : κ} {a b : α} {l : List α}

/-- No two elements have the same key. -/
def Distinct (key : α → κ) (l : List α) : Prop := (l.map key).Nodup

def lookupBy (key : α → κ) (k : κ) (l : List α) : Option α := l.find? fun a => key a = k

omit [DecidableEq κ] in
theorem Distinct.eq (h : Distinct key l) (ha : a ∈ l) (hb : b ∈ l) (hkey : key a = key b) :
    a = b :=
  List.inj_on_of_nodup_map h ha hb hkey

omit [DecidableEq κ] in
theorem Distinct.sublist {more : List α} (h : Distinct key more) (hl : l.Sublist more) :
    Distinct key l := List.Nodup.sublist (hl.map key) h

omit [DecidableEq κ] in
theorem Distinct.perm {other : List α} (h : Distinct key l) (hl : l.Perm other) :
    Distinct key other := (hl.map key).nodup_iff.mp h

omit [DecidableEq κ] in
/-- What does not touch the keys keeps them distinct. -/
theorem Distinct.map {f : α → α} (h : Distinct key l) (hf : ∀ a ∈ l, key (f a) = key a) :
    Distinct key (l.map f) := by
  have hkeys : (l.map f).map key = l.map key := by
    rw [List.map_map]
    exact List.map_congr_left hf
  rw [Distinct, hkeys]
  exact h

omit [DecidableEq κ] in
theorem distinct_cons :
    Distinct key (a :: l) ↔ (∀ b ∈ l, key b ≠ key a) ∧ Distinct key l := by
  rw [Distinct, Distinct, List.map_cons, List.nodup_cons, List.mem_map, not_exists]
  simp only [not_and]

omit [DecidableEq κ] in
theorem distinct_nil : Distinct key [] := List.nodup_nil

omit [DecidableEq κ] in
/-- An element moves from one list to the next, and keeps its key. -/
theorem Distinct.move {rest more : List α} (h : Distinct key (l ++ more)) (hl : l.Perm (a :: rest))
    (hkey : key b = key a) : Distinct key (rest ++ b :: more) := by
  have hmoved := h.perm ((hl.append_right more).trans List.perm_middle.symm)
  rw [Distinct, List.map_append, List.map_cons] at hmoved ⊢
  rwa [hkey]

omit [DecidableEq κ] in
/-- A new key. -/
theorem Distinct.insert {before : List α} (h : Distinct key (before ++ l))
    (hnew : ∀ other ∈ before ++ l, key other ≠ key a) : Distinct key (before ++ a :: l) :=
  (distinct_cons.mpr ⟨hnew, h⟩).perm List.perm_middle.symm

theorem lookupBy_nil : lookupBy key k ([] : List α) = none := rfl

theorem lookupBy_cons :
    lookupBy key k (a :: l) = if key a = k then some a else lookupBy key k l := by
  rw [lookupBy, List.find?_cons]
  by_cases hkey : key a = k
  · simp only [hkey, decide_true, if_true]
  · simp only [hkey, decide_false, if_false]
    rfl

theorem lookupBy_eq_none : lookupBy key k l = none ↔ ∀ a ∈ l, key a ≠ k := by
  rw [lookupBy, List.find?_eq_none]
  simp only [decide_eq_true_eq, ne_eq]

theorem mem_of_lookupBy (h : lookupBy key k l = some a) : a ∈ l ∧ key a = k :=
  ⟨List.mem_of_find?_eq_some h,
    of_decide_eq_true (p := key a = k) (List.find?_some (p := fun a => decide (key a = k)) h)⟩

/-- The only element of a key is the one that is found. -/
theorem Distinct.lookupBy_eq (h : Distinct key l) :
    lookupBy key k l = some a ↔ a ∈ l ∧ key a = k := by
  constructor
  · exact mem_of_lookupBy
  · rintro ⟨ha, hkey⟩
    cases hfound : lookupBy key k l with
    | none => exact absurd hkey (lookupBy_eq_none.mp hfound a ha)
    | some b =>
        obtain ⟨hb, hother⟩ := mem_of_lookupBy hfound
        rw [h.eq hb ha (hother.trans hkey.symm)]

theorem lookupBy_map {f : α → α} (hf : ∀ a ∈ l, key (f a) = key a) :
    lookupBy key k (l.map f) = (lookupBy key k l).map f := by
  induction l with
  | nil => rfl
  | cons a l ih =>
      rw [List.map_cons, lookupBy_cons, lookupBy_cons, hf a (List.mem_cons_self ..),
        ih fun b hb => hf b (List.mem_cons_of_mem a hb)]
      split
      · rfl
      · rfl

/-- Removing just what has one key. -/
theorem lookupBy_filter {p : α → Bool} {removed : κ}
    (hp : ∀ a ∈ l, p a = true ↔ key a ≠ removed) :
    lookupBy key k (l.filter p) = if k = removed then none else lookupBy key k l := by
  induction l with
  | nil => rw [List.filter_nil, lookupBy_nil, ite_self]
  | cons a l ih =>
      have hrest := ih fun b hb => hp b (List.mem_cons_of_mem a hb)
      have hfirst := hp a (List.mem_cons_self ..)
      by_cases hkey : key a = removed
      · rw [List.filter_cons_of_neg (by rw [hfirst]; exact not_not.mpr hkey), hrest]
        split
        · rfl
        · rename_i hne
          rw [lookupBy_cons, if_neg]
          intro hsame
          exact hne (hsame.symm.trans hkey)
      · rw [List.filter_cons_of_pos (hfirst.mpr hkey), lookupBy_cons, hrest, lookupBy_cons]
        by_cases hk : key a = k
        · rw [if_pos hk, if_pos hk, if_neg]
          intro hsame
          exact hkey (hk.trans hsame)
        · rw [if_neg hk, if_neg hk]

/-- Taking an element out and putting it at the front. -/
theorem Distinct.perm_cons {ident : α → ι} [DecidableEq ι] (h : Distinct ident l)
    (ha : a ∈ l) :
    l.Perm (a :: l.filter fun b => ident b ≠ ident a) := by
  induction l with
  | nil => cases ha
  | cons b l ih =>
      obtain ⟨hfirst, hrest⟩ := distinct_cons.mp h
      rcases List.mem_cons.mp ha with rfl | ha
      · rw [List.filter_cons_of_neg (by simp), List.filter_eq_self.mpr]
        intro c hc
        exact decide_eq_true (hfirst c hc)
      · have hkept : decide (ident b ≠ ident a) = true := decide_eq_true (Ne.symm (hfirst a ha))
        rw [List.filter_cons, if_pos hkept]
        exact ((ih hrest ha).cons b).trans (List.Perm.swap a b _)

section Replace

variable {ident : α → ι} [DecidableEq ι]

/-- Taking out the element with an identity takes out the one with its key. -/
theorem Distinct.lookupBy_remove (hids : Distinct ident l) (hkeys : Distinct key l)
    (ha : a ∈ l) (k : κ) :
    lookupBy key k (l.filter fun b => ident b ≠ ident a) =
      if k = key a then none else lookupBy key k l := by
  apply lookupBy_filter
  intro b hb
  rw [decide_eq_true_eq, not_iff_not]
  constructor
  · intro hident
    rw [hids.eq hb ha hident]
  · intro hkey
    rw [hkeys.eq hb ha hkey]

omit [DecidableEq κ] in
/-- An element is replaced by another with its key: all keys stay. -/
theorem Distinct.key_replace (hids : Distinct ident l) (ha : a ∈ l) (hident : ident b = ident a)
    (hkey : key b = key a) : ∀ c ∈ l, key (if ident c = ident b then b else c) = key c := by
  intro c hc
  split
  · rename_i hsame
    rw [hids.eq hc ha (hsame.trans hident), hkey]
  · rfl

omit [DecidableEq κ] in
theorem Distinct.map_replace (hids : Distinct ident l) (ha : a ∈ l) (hident : ident b = ident a)
    (hkey : key b = key a) :
    (l.map fun c => if ident c = ident b then b else c).map key = l.map key := by
  rw [List.map_map]
  exact List.map_congr_left (hids.key_replace ha hident hkey)

theorem mem_replace {c : α} (h : c ∈ l.map fun c => if ident c = ident b then b else c) :
    c = b ∨ c ∈ l := by
  obtain ⟨d, hd, rfl⟩ := List.mem_map.mp h
  split
  · exact Or.inl rfl
  · exact Or.inr hd

theorem Distinct.lookupBy_replace (hids : Distinct ident l) (hkeys : Distinct key l) (ha : a ∈ l)
    (hident : ident b = ident a) (hkey : key b = key a) (k : κ) :
    lookupBy key k (l.map fun c => if ident c = ident b then b else c) =
      if k = key a then some b else lookupBy key k l := by
  rw [lookupBy_map (hids.key_replace ha hident hkey)]
  cases hfound : lookupBy key k l with
  | none =>
      rw [Option.map_none, if_neg]
      intro hk
      exact lookupBy_eq_none.mp hfound a ha hk.symm
  | some c =>
      obtain ⟨hc, hk⟩ := mem_of_lookupBy hfound
      rw [Option.map_some]
      by_cases hsame : k = key a
      · rw [if_pos hsame, hkeys.eq hc ha (hk.trans hsame), if_pos hident.symm]
      · rw [if_neg hsame, if_neg]
        intro hidents
        apply hsame
        rw [← hk, hids.eq hc ha (hidents.trans hident)]

end Replace

end NvmrDisplay.Lib
