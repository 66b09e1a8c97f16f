import AionisCore.Lib.JsDouble
import AionisCore.Lib.Zod

/-!
# IP literals

The grammar of IPv4 and IPv6 literals with the addresses they stand for. An IPv4 literal is a
dotted quad. An IPv6 literal is eight groups of up to four hexadecimal digits, where `::` may
stand for groups of zeros, a dotted quad for the last two groups, and a zone may follow.
-/

namespace Lib.IpAddress

open JsString

inductive Family where
  | v4
  | v6
  deriving DecidableEq, Repr

def Family.bits : Family → Nat
  | .v4 => 32
  | .v6 => 128

/-- A dotted quad, octets without leading zeros. -/
structure V4 (t : List Char) (os : List Nat) : Prop where
  length : os.length = 4
  octets : ∀ o ∈ os, o < 256
  text : t = ['.'].intercalate (os.map natText)

structure Hextet (t : List Char) (n : Nat) : Prop where
  ne_nil : t ≠ []
  short : t.length ≤ 4
  digits : readRadix 16 t = some n

/-- Groups, a dotted quad for the last two at most. -/
inductive Groups : List (List Char) → List Nat → Prop where
  | nil : Groups [] []
  | quad {t : List Char} {a b c d : Nat} (h : V4 t [a, b, c, d]) :
    Groups [t] [a * 256 + b, c * 256 + d]
  | hextet {t : List Char} {n : Nat} {ts : List (List Char)} {hs : List Nat} (h : Hextet t n)
    (rest : Groups ts hs) : Groups (t :: ts) (n :: hs)

inductive Address : List Char → List Nat → Prop where
  | full {ts : List (List Char)} {hs : List Nat} (h : Groups ts hs) (hlen : hs.length = 8) :
    Address ([':'].intercalate ts) hs
  | compressed {ls rs : List (List Char)} {lefts rights : List Nat}
    (hl : List.Forall₂ Hextet ls lefts) (hr : Groups rs rights)
    (hlen : lefts.length + rights.length < 8) :
    Address ([':'].intercalate ls ++ ':' :: ':' :: [':'].intercalate rs)
      (lefts ++ List.replicate (8 - (lefts.length + rights.length)) 0 ++ rights)

def isZoneChar (c : Char) : Bool := c.isAlphanum || c = '-' || c = '.' || c = ':'

/-- `(?:%[0-9a-zA-Z-.:]{1,})?`. -/
def Zone (z : List Char) : Prop :=
  z = [] ∨ ∃ cs, z = '%' :: cs ∧ cs ≠ [] ∧ ∀ c ∈ cs, isZoneChar c = true

def V6 (t : List Char) (hs : List Nat) : Prop := ∃ a z, t = a ++ z ∧ Address a hs ∧ Zone z

/-- The number that parts of a width make up, the first part in front. -/
def pack (width : Nat) (parts : List Nat) : Nat :=
  parts.foldl (fun v part => v * 2 ^ width + part) 0

/-- The text is a literal of an address. -/
def Literal (s : String) : Family → Nat → Prop
  | .v4, value => ∃ os, V4 s.toList os ∧ pack 8 os = value
  | .v6, value => ∃ hs, V6 s.toList hs ∧ pack 16 hs = value

/-- The function tells the literals of the families from each other and from other texts. -/
structure Recognises (isIP : String → Option Family) : Prop where
  v4 : ∀ s, isIP s = some .v4 ↔ ∃ os, V4 s.toList os
  v6 : ∀ s, isIP s = some .v6 ↔ ∃ hs, V6 s.toList hs

/-! ## Characters -/

variable {t : List Char} {c : Char} {ts : List (List Char)}

theorem mem_intercalate {x : Char} (h : c ∈ [x].intercalate ts) : c = x ∨ ∃ t ∈ ts, c ∈ t := by
  induction ts with
  | nil => cases h
  | cons t ts ih =>
    cases ts with
    | nil =>
      rw [List.intercalate_singleton] at h
      exact .inr ⟨t, List.mem_cons_self, h⟩
    | cons u ts =>
      rw [List.intercalate_cons_cons, List.append_assoc, List.mem_append] at h
      rcases h with h | h
      · exact .inr ⟨t, List.mem_cons_self, h⟩
      · rcases List.mem_cons.1 h with rfl | h
        · exact .inl rfl
        · rcases ih h with hx | ⟨v, hv, hc⟩
          · exact .inl hx
          · exact .inr ⟨v, List.mem_cons_of_mem t hv, hc⟩

/-- A character of the groups of an address. -/
def isAddressChar (c : Char) : Bool := (digitIn 16 c).isSome || c = '.' || c = ':'

theorem digitIn_of_isDigit (h : isDigit c = true) : digitIn 16 c = some (digitValue c) := by
  have hvalue := isDigit_iff.1 h
  unfold digitIn
  rw [if_pos h, if_pos (by unfold digitValue; omega)]

theorem isAddressChar_of_isDigit (h : isDigit c = true) : isAddressChar c = true := by
  simp [isAddressChar, digitIn_of_isDigit h]

variable {os hs : List Nat}

theorem V4.chars (h : V4 t os) (hc : c ∈ t) : isDigit c = true ∨ c = '.' := by
  rw [h.text] at hc
  rcases mem_intercalate hc with rfl | ⟨u, hu, hcu⟩
  · exact .inr rfl
  · obtain ⟨o, -, rfl⟩ := List.mem_map.1 hu
    exact .inl (isDigit_of_mem_natText hcu)

variable {n value : Nat}

theorem Hextet.chars (h : Hextet t n) (hc : c ∈ t) : (digitIn 16 c).isSome = true := by
  obtain ⟨ds, hds, -⟩ := Option.map_eq_some_iff.1 h.digits
  obtain ⟨d, -, hd⟩ := Zod.exists_right_of_forall₂ (Zod.mapM_eq_some.1 hds) hc
  rw [hd]
  rfl

theorem Hextet.no_colon (h : Hextet t n) : ':' ∉ t := fun hc => by
  have hsome := h.chars hc
  revert hsome
  decide

theorem Hextet.no_dot (h : Hextet t n) : '.' ∉ t := fun hc => by
  have hsome := h.chars hc
  revert hsome
  decide

theorem V4.no_colon (h : V4 t os) : ':' ∉ t := fun hc => by
  have hchar := h.chars hc
  revert hchar
  decide

theorem Groups.chars (h : Groups ts hs) :
    ∀ t ∈ ts, ':' ∉ t ∧ t ≠ [] ∧ ∀ c ∈ t, isAddressChar c = true := by
  induction h with
  | nil => exact nofun
  | @quad t a b c d h =>
    intro u hu
    obtain rfl := List.mem_singleton.1 hu
    refine ⟨h.no_colon, fun hnil => ?_, fun c hc => ?_⟩
    · have htext := h.text
      rw [hnil] at htext
      simp only [List.map_cons, List.map_nil, List.intercalate_cons_cons] at htext
      simp at htext
    · rcases h.chars hc with hdigit | rfl
      · exact isAddressChar_of_isDigit hdigit
      · rfl
  | hextet h rest ih =>
    intro u hu
    rcases List.mem_cons.1 hu with rfl | hu
    · refine ⟨h.no_colon, h.ne_nil, fun c hc => ?_⟩
      unfold isAddressChar
      rw [h.chars hc]
      rfl
    · exact ih u hu

theorem groups_of_forall₂ (h : List.Forall₂ Hextet ts hs) : Groups ts hs := by
  induction h with
  | nil => exact .nil
  | cons h _ ih => exact .hextet h ih

theorem Groups.text_chars (h : Groups ts hs) :
    ∀ c ∈ [':'].intercalate ts, isAddressChar c = true := by
  intro c hc
  rcases mem_intercalate hc with rfl | ⟨t, ht, hct⟩
  · rfl
  · exact (h.chars t ht).2.2 c hct

theorem Address.chars (h : Address t hs) : ∀ c ∈ t, isAddressChar c = true := by
  cases h with
  | full h _ => exact h.text_chars
  | compressed hl hr _ =>
    intro c hc
    rcases List.mem_append.1 hc with hc | hc
    · exact (groups_of_forall₂ hl).text_chars c hc
    · rcases List.mem_cons.1 hc with rfl | hc
      · rfl
      · rcases List.mem_cons.1 hc with rfl | hc
        · rfl
        · exact hr.text_chars c hc

theorem Address.colon_mem (h : Address t hs) : ':' ∈ t := by
  cases h with
  | @full ts hs h hlen =>
    cases ts with
    | nil =>
      cases h
      cases hlen
    | cons u ts =>
      cases ts with
      | nil =>
        cases h with
        | quad _ => cases hlen
        | hextet _ rest =>
          cases rest
          cases hlen
      | cons v ts =>
        rw [List.intercalate_cons_cons]
        simp
  | compressed _ _ _ => simp

theorem not_V6_of_V4 (h : V4 t os) : ¬ V6 t hs := by
  rintro ⟨a, z, rfl, ha, -⟩
  exact h.no_colon (List.mem_append_left z ha.colon_mem)

open Classical in
/-- A function that recognises the literals. -/
noncomputable def familyOf (s : String) : Option Family :=
  if ∃ os, V4 s.toList os then some .v4
  else if ∃ hs, V6 s.toList hs then some .v6 else none

theorem recognises_familyOf : Recognises familyOf where
  v4 s := by
    unfold familyOf
    split
    · next h => exact iff_of_true rfl h
    · next h => exact iff_of_false (by split <;> simp) h
  v6 s := by
    unfold familyOf
    split
    · next h =>
      obtain ⟨os, hos⟩ := h
      exact iff_of_false (by simp) fun ⟨hs, hhs⟩ => not_V6_of_V4 hos hhs
    · split
      · next h => exact iff_of_true rfl h
      · next h => exact iff_of_false (by simp) h

/-! ## White space and case -/

variable {s : String} {family : Family}

theorem isWhite_of_isZoneChar (h : isZoneChar c = true) : isWhite c = false := by
  simp only [isZoneChar, Bool.or_eq_true, decide_eq_true_iff] at h
  rcases h with ((h | rfl) | rfl) | rfl
  · exact isWhite_of_isAlphanum h
  · rfl
  · rfl
  · rfl

/-- A hexadecimal digit is one of twenty-two characters. -/
theorem digitIn_range (h : (digitIn 16 c).isSome = true) :
    (48 ≤ c.toNat ∧ c.toNat ≤ 57) ∨ (97 ≤ c.toNat ∧ c.toNat ≤ 102) ∨
      (65 ≤ c.toNat ∧ c.toNat ≤ 70) := by
  unfold digitIn at h
  dsimp only at h
  split at h
  · next hd => exact .inl (isDigit_iff.1 hd)
  split at h
  · next hletter =>
    have hlo : 97 ≤ c.toNat := hletter.1
    have ha : 'a'.toNat = 97 := rfl
    split at h
    · exact .inr (.inl ⟨hlo, by omega⟩)
    · cases h
  split at h
  · next hletter =>
    have hlo : 65 ≤ c.toNat := hletter.1
    have ha : 'A'.toNat = 65 := rfl
    split at h
    · exact .inr (.inr ⟨hlo, by omega⟩)
    · cases h
  · simp at h

theorem isWhite_of_isAddressChar (h : isAddressChar c = true) : isWhite c = false := by
  unfold isAddressChar at h
  rw [Bool.or_eq_true, Bool.or_eq_true, decide_eq_true_iff, decide_eq_true_iff] at h
  rcases h with (h | rfl) | rfl
  · have hrange := digitIn_range h
    exact isWhite_of_printable (by omega) (by omega)
  · rfl
  · rfl

theorem Literal.visible (h : Literal s family value) : ∀ c ∈ s.toList, isWhite c = false := by
  intro c hc
  cases family with
  | v4 =>
    obtain ⟨os, hos, -⟩ := h
    rcases hos.chars hc with hdigit | rfl
    · exact isWhite_of_isAddressChar (isAddressChar_of_isDigit hdigit)
    · rfl
  | v6 =>
    obtain ⟨hs, ⟨a, z, htext, ha, hz⟩, -⟩ := h
    rw [htext] at hc
    rcases List.mem_append.1 hc with hc | hc
    · exact isWhite_of_isAddressChar (ha.chars c hc)
    · rcases hz with rfl | ⟨cs, rfl, -, hcs⟩
      · cases hc
      · rcases List.mem_cons.1 hc with rfl | hc
        · rfl
        · exact isWhite_of_isZoneChar (hcs c hc)

theorem toLower_eq_self (h : ¬ (65 ≤ c.toNat ∧ c.toNat ≤ 90)) : c.toLower = c := by
  unfold Char.toLower
  rw [dif_neg]
  rintro ⟨hlo, hhi⟩
  exact h ⟨hlo, hhi⟩

theorem Literal.ne_nil (h : Literal s family value) : s.toList ≠ [] := by
  cases family with
  | v4 =>
    obtain ⟨os, hos, -⟩ := h
    obtain ⟨a, b, c, d, rfl⟩ := List.length_eq_four.1 hos.length
    rw [hos.text]
    simp [List.intercalate_cons_cons]
  | v6 =>
    obtain ⟨hs, ⟨a, z, htext, ha, -⟩, -⟩ := h
    rw [htext]
    exact List.append_ne_nil_of_left_ne_nil (List.ne_nil_of_mem ha.colon_mem) z

theorem digitIn_toLower (c : Char) : digitIn 16 c.toLower = digitIn 16 c := by
  by_cases hupper : 65 ≤ c.toNat ∧ c.toNat ≤ 90
  · have hc : Char.ofNat c.toNat = c := Char.ofNat_toNat c
    obtain ⟨hlo, hhi⟩ := hupper
    generalize c.toNat = n at hc hlo hhi
    subst hc
    interval_cases n <;> rfl
  · rw [toLower_eq_self hupper]

theorem Hextet.toLower (h : Hextet t n) : Hextet (t.map Char.toLower) n := by
  refine ⟨by simpa using h.ne_nil, by simpa using h.short, ?_⟩
  rw [← h.digits, readRadix, readRadix, List.mapM_map]
  simp [Function.comp_def, digitIn_toLower]

theorem V4.toLower (h : V4 t os) : t.map Char.toLower = t := by
  have hmap : ∀ c ∈ t, c.toLower = id c := by
    intro c hc
    refine toLower_eq_self fun hupper => ?_
    rcases h.chars hc with hdigit | rfl
    · have hrange := isDigit_iff.1 hdigit
      omega
    · have hdot : '.'.toNat = 46 := rfl
      omega
  rw [List.map_congr_left hmap, List.map_id]

theorem Groups.toLower (h : Groups ts hs) : Groups (ts.map (List.map Char.toLower)) hs := by
  induction h with
  | nil => exact .nil
  | quad h =>
    rw [List.map_singleton, h.toLower]
    exact .quad h
  | hextet h _ ih => exact .hextet h.toLower ih

theorem map_intercalate (f : Char → Char) (x : Char) (ts : List (List Char)) :
    ([x].intercalate ts).map f = [f x].intercalate (ts.map (List.map f)) := by
  induction ts with
  | nil => rfl
  | cons t ts ih =>
    cases ts with
    | nil => simp
    | cons u ts =>
      rw [List.intercalate_cons_cons, List.map_append, List.map_append, ih]
      simp [List.intercalate_cons_cons]

/-- The case of the letters does not matter. -/
theorem Address.toLower (h : Address t hs) : Address (t.map Char.toLower) hs := by
  cases h with
  | full h hlen =>
    rw [map_intercalate]
    exact .full h.toLower hlen
  | @compressed ls rs lefts rights hl hr hlen =>
    rw [List.map_append, List.map_cons, List.map_cons, map_intercalate, map_intercalate]
    exact .compressed (List.forall₂_map_left_iff.2 (hl.imp fun _ _ => Hextet.toLower)) hr.toLower
      hlen

/-! ## Bounds -/

theorem pack_lt {width : Nat} {parts : List Nat} (h : ∀ part ∈ parts, part < 2 ^ width) :
    pack width parts < 2 ^ (width * parts.length) := by
  induction parts using List.reverseRecOn with
  | nil => simp [pack]
  | append_singleton parts part ih =>
    have hfront := ih fun x hx => h x (List.mem_append_left _ hx)
    have hpart := h part (by simp)
    rw [pack, List.foldl_append, List.length_append, List.length_singleton, Nat.mul_add,
      Nat.mul_one, Nat.pow_add]
    change pack width parts * 2 ^ width + part < _
    calc pack width parts * 2 ^ width + part < (pack width parts + 1) * 2 ^ width := by
          rw [Nat.add_one_mul]
          omega
      _ ≤ 2 ^ (width * parts.length) * 2 ^ width := Nat.mul_le_mul_right _ hfront

theorem digitIn_lt {radix d : Nat} (h : digitIn radix c = some d) : d < radix := by
  unfold digitIn at h
  extract_lets value at h
  split at h
  · next hlt => exact Option.some.inj h ▸ hlt
  · cases h

theorem Hextet.lt (h : Hextet t n) : n < 2 ^ 16 := by
  obtain ⟨ds, hds, rfl⟩ := Option.map_eq_some_iff.1 h.digits
  have hall := Zod.mapM_eq_some.1 hds
  have hlt : ∀ d ∈ ds, d < 2 ^ 4 := by
    intro d hd
    obtain ⟨c, -, hc⟩ := Zod.exists_left_of_forall₂ hall hd
    exact digitIn_lt hc
  have hpack : ds.foldl (fun n d => 16 * n + d) 0 = pack 4 ds := by
    unfold pack
    congr 1
    funext n d
    omega
  rw [hpack]
  refine (pack_lt hlt).trans_le (Nat.pow_le_pow_right (by omega) ?_)
  have hlen := hall.length_eq
  have hshort := h.short
  omega

theorem Groups.lt (h : Groups ts hs) : ∀ n ∈ hs, n < 2 ^ 16 := by
  induction h with
  | nil => exact nofun
  | quad h =>
    have hlt := h.octets
    simp only [List.forall_mem_cons, List.not_mem_nil, false_imp_iff, implies_true, and_true]
      at hlt ⊢
    omega
  | hextet h _ ih => exact List.forall_mem_cons.2 ⟨h.lt, ih⟩

theorem Address.lt (h : Address t hs) : ∀ n ∈ hs, n < 2 ^ 16 := by
  cases h with
  | full h _ => exact h.lt
  | compressed hl hr _ =>
    intro n hn
    rcases List.mem_append.1 hn with hn | hn
    · rcases List.mem_append.1 hn with hn | hn
      · exact (groups_of_forall₂ hl).lt n hn
      · rw [List.eq_of_mem_replicate hn]
        omega
    · exact hr.lt n hn

theorem Address.length (h : Address t hs) : hs.length = 8 := by
  cases h with
  | full _ hlen => exact hlen
  | compressed _ _ hlen =>
    rw [List.length_append, List.length_append, List.length_replicate]
    omega

theorem Literal.lt (h : Literal s family value) : value < 2 ^ family.bits := by
  cases family with
  | v4 =>
    obtain ⟨os, hos, rfl⟩ := h
    have hlt : pack 8 os < 2 ^ (8 * os.length) := pack_lt hos.octets
    rwa [hos.length] at hlt
  | v6 =>
    obtain ⟨hs, ⟨a, z, -, ha, -⟩, rfl⟩ := h
    have hlt : pack 16 hs < 2 ^ (16 * hs.length) := pack_lt ha.lt
    rwa [ha.length] at hlt

/-! ## Masks -/

/-- Masking with the top bits clears the others. -/
theorem and_topBits {bits s : Nat} (hvalue : value < 2 ^ bits) :
    value &&& ((2 ^ bits - 1) <<< s &&& (2 ^ bits - 1)) = value / 2 ^ s * 2 ^ s := by
  rw [← Nat.shiftRight_eq_div_pow, ← Nat.shiftLeft_eq]
  refine Nat.eq_of_testBit_eq fun i => ?_
  simp only [Nat.testBit_and, Nat.testBit_shiftLeft, Nat.testBit_two_pow_sub_one,
    Nat.testBit_shiftRight]
  by_cases hi : s ≤ i
  · rw [Nat.add_sub_cancel' hi]
    by_cases hlt : i < bits
    · have hless : i - s < bits := by omega
      simp [hi, hlt, hless]
    · have hclear : value.testBit i = false := Nat.testBit_lt_two_pow
        (hvalue.trans_le (Nat.pow_le_pow_right (by omega) (not_lt.1 hlt)))
      simp [hclear]
  · simp [hi]

/-- Addresses agree under a mask if and only if they agree on the top bits. -/
theorem and_topBits_eq_iff {v w bits s : Nat} (hv : v < 2 ^ bits) (hw : w < 2 ^ bits) :
    w &&& ((2 ^ bits - 1) <<< s &&& (2 ^ bits - 1)) =
      v &&& ((2 ^ bits - 1) <<< s &&& (2 ^ bits - 1)) ↔ w / 2 ^ s = v / 2 ^ s := by
  rw [and_topBits hv, and_topBits hw]
  exact Nat.mul_left_inj (Nat.two_pow_pos _).ne'

end Lib.IpAddress
