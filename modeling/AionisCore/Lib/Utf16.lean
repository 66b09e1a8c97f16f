import AionisCore.Lib.Utf8

/-!
# UTF-16

A string of JavaScript is a list of code units. It is the encoding of characters exactly if none
of its surrogates is unpaired.
-/

namespace Lib.Utf16

abbrev Units := List UInt16

def isHigh (u : UInt16) : Bool := 0xD800 ≤ u.toNat && u.toNat < 0xDC00

def isLow (u : UInt16) : Bool := 0xDC00 ≤ u.toNat && u.toNat < 0xE000

def encodeChar (c : Char) : Units :=
  let n := c.toNat
  if n < 0x10000 then [UInt16.ofNat n]
  else [UInt16.ofNat (0xD800 + (n - 0x10000) / 1024), UInt16.ofNat (0xDC00 + (n - 0x10000) % 1024)]

def encode (cs : List Char) : Units := cs.flatMap encodeChar

/-- The character of a pair of surrogates. -/
def pairChar (u v : UInt16) : Char :=
  Char.ofNat (0x10000 + (u.toNat - 0xD800) * 1024 + (v.toNat - 0xDC00))

/-- The characters of a string, unless a surrogate is unpaired. -/
def decode : Units → Option (List Char)
  | [] => some []
  | u :: us =>
    if isHigh u then
      match us with
      | v :: vs => if isLow v then (decode vs).map (pairChar u v :: ·) else none
      | [] => none
    else if isLow u then none
    else (decode us).map (Char.ofNat u.toNat :: ·)

/-- No surrogate is unpaired. -/
def WellFormed (s : Units) : Prop := (decode s).isSome

instance (s : Units) : Decidable (WellFormed s) := inferInstanceAs (Decidable (_ = true))

section Equations

variable {u v : UInt16} {us : Units}

theorem decode_pair (hu : isHigh u = true) (hv : isLow v = true) :
    decode (u :: v :: us) = (decode us).map (pairChar u v :: ·) := by
  rw [decode.eq_def]
  dsimp only
  rw [if_pos hu, if_pos hv]

theorem decode_high (hu : isHigh u = true) (hus : ∀ v ∈ us.head?, isLow v = false) :
    decode (u :: us) = none := by
  rw [decode.eq_def]
  dsimp only
  rw [if_pos hu]
  cases us with
  | nil => rfl
  | cons v us => exact if_neg (by simp [hus v rfl])

theorem decode_low (hhigh : ¬ isHigh u = true) (hlow : isLow u = true) :
    decode (u :: us) = none := by
  rw [decode.eq_def]
  dsimp only
  rw [if_neg hhigh, if_pos hlow]

theorem decode_plain (hhigh : ¬ isHigh u = true) (hlow : ¬ isLow u = true) :
    decode (u :: us) = (decode us).map (Char.ofNat u.toNat :: ·) := by
  rw [decode.eq_def]
  dsimp only
  rw [if_neg hhigh, if_neg hlow]

end Equations

variable {s t : Units} {cs : List Char}

theorem toNat_ofNat {n : Nat} (h : n < 65536) : (UInt16.ofNat n).toNat = n := by
  rw [UInt16.toNat_ofNat']
  exact Nat.mod_eq_of_lt h

@[simp] theorem encode_nil : encode [] = [] := rfl

@[simp] theorem encode_cons (c : Char) (cs : List Char) :
    encode (c :: cs) = encodeChar c ++ encode cs := rfl

theorem encode_append (cs ds : List Char) : encode (cs ++ ds) = encode cs ++ encode ds :=
  List.flatMap_append

theorem decode_encodeChar_append (c : Char) (s : Units) :
    decode (encodeChar c ++ s) = (decode s).map (c :: ·) := by
  have hvalid := Utf8.toNat_lt c
  unfold encodeChar
  dsimp only
  split
  · next hn =>
    have hu := toNat_ofNat hn
    have hhigh : ¬ isHigh (UInt16.ofNat c.toNat) = true := by
      unfold isHigh
      rw [hu, Bool.and_eq_true, decide_eq_true_eq, decide_eq_true_eq]
      omega
    have hlow : ¬ isLow (UInt16.ofNat c.toNat) = true := by
      unfold isLow
      rw [hu, Bool.and_eq_true, decide_eq_true_eq, decide_eq_true_eq]
      omega
    rw [List.singleton_append, decode_plain hhigh hlow, hu, Char.ofNat_toNat]
  · next hn =>
    have hu : (UInt16.ofNat (0xD800 + (c.toNat - 0x10000) / 1024)).toNat =
        0xD800 + (c.toNat - 0x10000) / 1024 := toNat_ofNat (by omega)
    have hv : (UInt16.ofNat (0xDC00 + (c.toNat - 0x10000) % 1024)).toNat =
        0xDC00 + (c.toNat - 0x10000) % 1024 := toNat_ofNat (by omega)
    have hhigh : isHigh (UInt16.ofNat (0xD800 + (c.toNat - 0x10000) / 1024)) = true := by
      unfold isHigh
      rw [hu, Bool.and_eq_true, decide_eq_true_eq, decide_eq_true_eq]
      omega
    have hlow : isLow (UInt16.ofNat (0xDC00 + (c.toNat - 0x10000) % 1024)) = true := by
      unfold isLow
      rw [hv, Bool.and_eq_true, decide_eq_true_eq, decide_eq_true_eq]
      omega
    have hpair : pairChar (UInt16.ofNat (0xD800 + (c.toNat - 0x10000) / 1024))
        (UInt16.ofNat (0xDC00 + (c.toNat - 0x10000) % 1024)) = c := by
      unfold pairChar
      rw [hu, hv, show 0x10000 + (0xD800 + (c.toNat - 0x10000) / 1024 - 0xD800) * 1024 +
        (0xDC00 + (c.toNat - 0x10000) % 1024 - 0xDC00) = c.toNat by omega]
      exact Char.ofNat_toNat c
    rw [List.cons_append, List.singleton_append, decode_pair hhigh hlow, hpair]

theorem decode_encode_append (cs : List Char) (s : Units) :
    decode (encode cs ++ s) = (decode s).map (cs ++ ·) := by
  induction cs with
  | nil => exact Option.map_id'.symm
  | cons c cs ih =>
    rw [encode_cons, List.append_assoc, decode_encodeChar_append, ih, Option.map_map]
    rfl

theorem decode_encode (cs : List Char) : decode (encode cs) = some cs := by
  have h := decode_encode_append cs []
  rwa [List.append_nil, show decode [] = some [] from rfl, Option.map_some, List.append_nil] at h

theorem encode_of_decode (h : decode s = some cs) : encode cs = s := by
  induction s using decode.induct generalizing cs with
  | case1 =>
    obtain rfl := Option.some.inj h
    rfl
  | case2 u hhigh v vs hlow ih =>
    rw [decode_pair hhigh hlow] at h
    obtain ⟨ds, hds, rfl⟩ := Option.map_eq_some_iff.1 h
    have hu := hhigh
    have hv := hlow
    unfold isHigh at hu
    unfold isLow at hv
    rw [Bool.and_eq_true, decide_eq_true_eq, decide_eq_true_eq] at hu hv
    have hn : (pairChar u v).toNat =
        0x10000 + (u.toNat - 0xD800) * 1024 + (v.toNat - 0xDC00) :=
      Utf8.toNat_ofNat_char (by omega)
    rw [encode_cons, ih hds]
    unfold encodeChar
    dsimp only
    rw [hn, if_neg (by omega), show 0xD800 + (0x10000 + (u.toNat - 0xD800) * 1024 +
      (v.toNat - 0xDC00) - 0x10000) / 1024 = u.toNat by omega,
      show 0xDC00 + (0x10000 + (u.toNat - 0xD800) * 1024 + (v.toNat - 0xDC00) - 0x10000) % 1024 =
        v.toNat by omega, UInt16.ofNat_toNat, UInt16.ofNat_toNat]
    rfl
  | case3 u hhigh v vs hlow =>
    have hnone : decode (u :: v :: vs) = none :=
      decode_high hhigh fun x hx => Option.some.inj hx ▸ Bool.eq_false_iff.2 hlow
    rw [hnone] at h
    cases h
  | case4 u hhigh =>
    rw [decode_high hhigh (by simp)] at h
    cases h
  | case5 u us hhigh hlow =>
    rw [decode_low hhigh hlow] at h
    cases h
  | case6 u us hhigh hlow ih =>
    rw [decode_plain hhigh hlow] at h
    obtain ⟨ds, hds, rfl⟩ := Option.map_eq_some_iff.1 h
    unfold isHigh at hhigh
    unfold isLow at hlow
    rw [Bool.and_eq_true, decide_eq_true_eq, decide_eq_true_eq] at hhigh hlow
    have hlt := UInt16.toNat_lt u
    have hn : (Char.ofNat u.toNat).toNat = u.toNat := Utf8.toNat_ofNat_char (by omega)
    rw [encode_cons, ih hds]
    unfold encodeChar
    dsimp only
    rw [hn, if_pos (by omega), UInt16.ofNat_toNat]
    rfl

/-- A string may be cut before a unit that is no low surrogate. -/
theorem decode_append (ht : ∀ u ∈ t.head?, isLow u = false) :
    decode (s ++ t) = (decode s).bind fun x => (decode t).map (x ++ ·) := by
  induction s using decode.induct with
  | case1 => exact Option.map_id'.symm
  | case2 u hhigh v vs hlow ih =>
    rw [List.cons_append, List.cons_append, decode_pair hhigh hlow, decode_pair hhigh hlow, ih]
    cases decode vs <;> simp [Option.map_map, Function.comp_def]
  | case3 u hhigh v vs hlow =>
    have hnone : ∀ us, decode (u :: v :: us) = none := fun us =>
      decode_high hhigh fun x hx => Option.some.inj hx ▸ Bool.eq_false_iff.2 hlow
    rw [List.cons_append, List.cons_append, hnone, hnone]
    rfl
  | case4 u hhigh =>
    rw [List.singleton_append, decode_high hhigh ht, decode_high hhigh (by simp)]
    rfl
  | case5 u us hhigh hlow =>
    rw [List.cons_append, decode_low hhigh hlow, decode_low hhigh hlow]
    rfl
  | case6 u us hhigh hlow ih =>
    rw [List.cons_append, decode_plain hhigh hlow, decode_plain hhigh hlow, ih]
    cases decode us <;> simp [Option.map_map, Function.comp_def]

theorem wellFormed_append (ht : ∀ u ∈ t.head?, isLow u = false) :
    WellFormed (s ++ t) ↔ WellFormed s ∧ WellFormed t := by
  unfold WellFormed
  rw [decode_append ht]
  cases decode s <;> simp

theorem wellFormed_encode (cs : List Char) : WellFormed (encode cs) := by
  unfold WellFormed
  rw [decode_encode]
  rfl

theorem wellFormed_encode_append : WellFormed (encode cs ++ s) ↔ WellFormed s := by
  unfold WellFormed
  rw [decode_encode_append, Option.isSome_map]

/-- A unit that is no surrogate. -/
def Single (u : UInt16) : Prop := u.toNat < 0xD800 ∨ 0xDFFF < u.toNat

theorem Single.not_high {u : UInt16} (h : Single u) : ¬ isHigh u = true := by
  unfold Single at h
  unfold isHigh
  rw [Bool.and_eq_true, decide_eq_true_eq, decide_eq_true_eq]
  omega

theorem Single.not_low {u : UInt16} (h : Single u) : ¬ isLow u = true := by
  unfold Single at h
  unfold isLow
  rw [Bool.and_eq_true, decide_eq_true_eq, decide_eq_true_eq]
  omega

theorem wellFormed_singles_append (hs : ∀ u ∈ s, Single u) :
    WellFormed (s ++ t) ↔ WellFormed t := by
  induction s with
  | nil => exact Iff.rfl
  | cons u s ih =>
    obtain ⟨hu, hs⟩ := List.forall_mem_cons.1 hs
    rw [← ih hs]
    unfold WellFormed
    rw [List.cons_append, decode_plain hu.not_high hu.not_low, Option.isSome_map]

theorem wellFormed_singles (hs : ∀ u ∈ s, Single u) : WellFormed s := by
  have h := wellFormed_singles_append (t := []) hs
  rw [List.append_nil] at h
  exact h.2 rfl

theorem wellFormed_append_cons {u : UInt16} (hu : Single u) :
    WellFormed (s ++ u :: t) ↔ WellFormed s ∧ WellFormed t := by
  have hhead : ∀ x ∈ (u :: t).head?, isLow x = false :=
    fun x hx => Option.some.inj hx ▸ Bool.eq_false_iff.2 hu.not_low
  rw [wellFormed_append hhead]
  refine and_congr_right fun _ => ?_
  have h := wellFormed_singles_append (s := [u]) (t := t) (by simpa using hu)
  rwa [List.singleton_append] at h

theorem wellFormed_append_singles (ht : ∀ u ∈ t, Single u) :
    WellFormed (s ++ t) ↔ WellFormed s := by
  cases t with
  | nil => rw [List.append_nil]
  | cons u t =>
    obtain ⟨hu, ht⟩ := List.forall_mem_cons.1 ht
    rw [wellFormed_append_cons hu, and_iff_left (wellFormed_singles ht)]

theorem head?_encode : ∀ u ∈ (encode cs).head?, isLow u = false := by
  cases cs with
  | nil => exact nofun
  | cons c cs =>
    intro u hu
    have hvalid := Utf8.toNat_lt c
    rw [encode_cons] at hu
    unfold encodeChar at hu
    dsimp only at hu
    unfold isLow
    rw [Bool.and_eq_false_iff, decide_eq_false_iff_not, decide_eq_false_iff_not]
    split at hu
    · next hn =>
      obtain rfl := Option.some.inj hu
      rw [toNat_ofNat hn]
      omega
    · obtain rfl := Option.some.inj hu
      rw [toNat_ofNat (by omega)]
      omega

end Lib.Utf16
