import Mathlib.Algebra.Group.Nat.Defs
import Mathlib.Data.List.Chain

/-!
# UTF-8

Encoding, and the decoding that never fails: what begins a character but does not go on as one is
read as U+FFFD, in parts as long as possible, and so is every byte that begins no character. A
unit is a byte with those that go on with its character; every unit makes one character.
-/

namespace Lib.Utf8

/-! ## Encoding -/

def encodeChar (c : Char) : List UInt8 :=
  let n := c.toNat
  if n < 0x80 then [UInt8.ofNat n]
  else if n < 0x800 then [UInt8.ofNat (0xC0 + n / 64), UInt8.ofNat (0x80 + n % 64)]
  else if n < 0x10000 then
    [UInt8.ofNat (0xE0 + n / 4096), UInt8.ofNat (0x80 + n / 64 % 64), UInt8.ofNat (0x80 + n % 64)]
  else
    [UInt8.ofNat (0xF0 + n / 262144), UInt8.ofNat (0x80 + n / 4096 % 64),
      UInt8.ofNat (0x80 + n / 64 % 64), UInt8.ofNat (0x80 + n % 64)]

def encode (t : List Char) : List UInt8 := t.flatMap encodeChar

@[simp] theorem encode_nil : encode [] = [] := rfl

@[simp] theorem encode_cons (c : Char) (t : List Char) :
    encode (c :: t) = encodeChar c ++ encode t := rfl

@[simp] theorem encode_append (s t : List Char) : encode (s ++ t) = encode s ++ encode t :=
  List.flatMap_append

/-! ## Decoding -/

/-- U+FFFD. -/
def replacement : Char := Char.ofNat 0xFFFD

/-- The ranges of the bytes that go on with a character after its first one. -/
def continuations (b : UInt8) : List (Nat × Nat) :=
  let n := b.toNat
  if n < 0xC2 then []
  else if n < 0xE0 then [(0x80, 0xBF)]
  else if n = 0xE0 then [(0xA0, 0xBF), (0x80, 0xBF)]
  else if n = 0xED then [(0x80, 0x9F), (0x80, 0xBF)]
  else if n < 0xF0 then [(0x80, 0xBF), (0x80, 0xBF)]
  else if n = 0xF0 then [(0x90, 0xBF), (0x80, 0xBF), (0x80, 0xBF)]
  else if n < 0xF4 then [(0x80, 0xBF), (0x80, 0xBF), (0x80, 0xBF)]
  else if n = 0xF4 then [(0x80, 0x8F), (0x80, 0xBF), (0x80, 0xBF)]
  else []

/-- How many bytes at the front are in the ranges, one after the other. -/
def accepted : List (Nat × Nat) → List UInt8 → Nat
  | (lo, hi) :: ranges, c :: t =>
    if lo ≤ c.toNat ∧ c.toNat ≤ hi then 1 + accepted ranges t else 0
  | _, _ => 0

/-- The character of a unit. -/
def unitChar (b : UInt8) (cs : List UInt8) : Char :=
  if b.toNat < 0x80 then Char.ofNat b.toNat
  else if cs ≠ [] ∧ cs.length = (continuations b).length then
    Char.ofNat (cs.foldl (fun n c => n * 64 + c.toNat % 64) (b.toNat % 2 ^ (6 - cs.length)))
  else replacement

/-- Decoding from a place on, the first of whose bytes belong to the last unit. -/
def decodeFrom : Nat → List UInt8 → List Char
  | _, [] => []
  | skip + 1, _ :: t => decodeFrom skip t
  | 0, b :: t =>
    let n := accepted (continuations b) t
    unitChar b (t.take n) :: decodeFrom n t

def decode (bs : List UInt8) : List Char := decodeFrom 0 bs

theorem decodeFrom_eq_drop (n : Nat) (t : List UInt8) : decodeFrom n t = decode (t.drop n) := by
  induction t generalizing n with
  | nil => simp [decode, decodeFrom]
  | cons b t ih =>
    cases n with
    | zero => rfl
    | succ n => rw [decodeFrom, ih, List.drop_succ_cons]

@[simp] theorem decode_nil : decode [] = [] := rfl

theorem decode_cons (b : UInt8) (t : List UInt8) :
    decode (b :: t) = unitChar b (t.take (accepted (continuations b) t)) ::
      decode (t.drop (accepted (continuations b) t)) := by
  rw [decode, decodeFrom, decodeFrom_eq_drop]

theorem accepted_le (ranges : List (Nat × Nat)) (t : List UInt8) :
    accepted ranges t ≤ ranges.length ∧ accepted ranges t ≤ t.length := by
  induction ranges generalizing t with
  | nil => simp [accepted]
  | cons range ranges ih =>
    obtain ⟨lo, hi⟩ := range
    cases t with
    | nil => simp [accepted]
    | cons c t =>
      rw [accepted]
      split
      · have hle := ih t
        simp only [List.length_cons]
        omega
      · simp

variable {s t : List UInt8}

theorem accepted_append {ranges : List (Nat × Nat)} (h : accepted ranges s = ranges.length) :
    accepted ranges (s ++ t) = ranges.length := by
  induction ranges generalizing s with
  | nil => rfl
  | cons range ranges ih =>
    obtain ⟨lo, hi⟩ := range
    cases s with
    | nil => simp [accepted] at h
    | cons c s =>
      rw [accepted] at h
      rw [List.cons_append, accepted]
      split at h
      · next hin =>
        rw [if_pos hin, ih (by simp only [List.length_cons] at h; omega), List.length_cons]
        omega
      · simp at h

theorem accepted_take (ranges : List (Nat × Nat)) (t : List UInt8) :
    accepted ranges (t.take (accepted ranges t)) = accepted ranges t := by
  induction ranges generalizing t with
  | nil => rfl
  | cons range ranges ih =>
    obtain ⟨lo, hi⟩ := range
    cases t with
    | nil => rfl
    | cons c t =>
      rw [accepted]
      split
      · next hin => rw [Nat.add_comm, List.take_succ_cons, accepted, if_pos hin, ih, Nat.add_comm]
      · rfl

theorem decode_unit {b : UInt8} {cs t : List UInt8}
    (h : accepted (continuations b) cs = (continuations b).length)
    (hlen : cs.length = (continuations b).length) :
    decode (b :: (cs ++ t)) = unitChar b cs :: decode t := by
  rw [decode_cons, accepted_append h, ← hlen, List.take_left, List.drop_left]

/-! ## Round trip -/

variable {b : UInt8}

theorem toNat_ofNat {n : Nat} (h : n < 256) : (UInt8.ofNat n).toNat = n := by
  rw [UInt8.toNat_ofNat']
  exact Nat.mod_eq_of_lt h

theorem toNat_lt (c : Char) : c.toNat < 0xD800 ∨ (0xDFFF < c.toNat ∧ c.toNat < 0x110000) :=
  c.valid

/-- The bytes of a character of more than one byte are its unit. -/
theorem decode_unit_eq {cs : List UInt8} {c : Char} (hb : 0x80 ≤ b.toNat) (hne : cs ≠ [])
    (haccepted : accepted (continuations b) cs = cs.length)
    (hlen : (continuations b).length = cs.length)
    (hvalue : cs.foldl (fun n c => n * 64 + c.toNat % 64) (b.toNat % 2 ^ (6 - cs.length)) =
      c.toNat) : decode (b :: (cs ++ t)) = c :: decode t := by
  rw [decode_unit (haccepted.trans hlen.symm) hlen.symm, unitChar, if_neg (by omega),
    if_pos ⟨hne, hlen.symm⟩, hvalue, Char.ofNat_toNat]

theorem decode_encodeChar_append (c : Char) (t : List UInt8) :
    decode (encodeChar c ++ t) = c :: decode t := by
  have hvalid := toNat_lt c
  unfold encodeChar
  dsimp only
  split
  · next hn =>
    have hlead := @toNat_ofNat c.toNat (by omega)
    have hnone : continuations (UInt8.ofNat c.toNat) = [] := by
      unfold continuations
      rw [hlead, if_pos (by omega)]
    have hunit := @decode_unit (UInt8.ofNat c.toNat) [] t (by rw [hnone]; rfl) (by rw [hnone]; rfl)
    rw [List.nil_append] at hunit
    rw [List.singleton_append, hunit, unitChar, hlead, if_pos hn, Char.ofNat_toNat]
  split
  · next hn =>
    have hlead := @toNat_ofNat (0xC0 + c.toNat / 64) (by omega)
    have hlast := @toNat_ofNat (0x80 + c.toNat % 64) (by omega)
    have hranges : continuations (UInt8.ofNat (0xC0 + c.toNat / 64)) = [(0x80, 0xBF)] := by
      unfold continuations
      rw [hlead, if_neg (by omega), if_pos (by omega)]
    refine decode_unit_eq (by omega) (by simp) ?_ (by rw [hranges]; rfl) ?_
    · rw [hranges, accepted, if_pos (by omega)]
      rfl
    · simp only [List.foldl_cons, List.foldl_nil, List.length_cons, List.length_nil, hlead, hlast]
      omega
  split
  · next hn =>
    have hlead := @toNat_ofNat (0xE0 + c.toNat / 4096) (by omega)
    have hmid := @toNat_ofNat (0x80 + c.toNat / 64 % 64) (by omega)
    have hlast := @toNat_ofNat (0x80 + c.toNat % 64) (by omega)
    have hranges : ∃ lo hi, continuations (UInt8.ofNat (0xE0 + c.toNat / 4096)) =
        [(lo, hi), (0x80, 0xBF)] ∧ lo ≤ 0x80 + c.toNat / 64 % 64 ∧
          0x80 + c.toNat / 64 % 64 ≤ hi := by
      unfold continuations
      rw [hlead, if_neg (by omega), if_neg (by omega)]
      split
      · exact ⟨_, _, rfl, by omega, by omega⟩
      split
      · exact ⟨_, _, rfl, by omega, by omega⟩
      rw [if_pos (by omega)]
      exact ⟨_, _, rfl, by omega, by omega⟩
    obtain ⟨lo, hi, hranges, hlo, hhi⟩ := hranges
    refine decode_unit_eq (by omega) (by simp) ?_ (by rw [hranges]; rfl) ?_
    · rw [hranges, accepted, if_pos (by omega), accepted, if_pos (by omega)]
      rfl
    · simp only [List.foldl_cons, List.foldl_nil, List.length_cons, List.length_nil, hlead, hmid,
        hlast]
      omega
  · next hn =>
    have hlead := @toNat_ofNat (0xF0 + c.toNat / 262144) (by omega)
    have hsecond := @toNat_ofNat (0x80 + c.toNat / 4096 % 64) (by omega)
    have hthird := @toNat_ofNat (0x80 + c.toNat / 64 % 64) (by omega)
    have hlast := @toNat_ofNat (0x80 + c.toNat % 64) (by omega)
    have hranges : ∃ lo hi, continuations (UInt8.ofNat (0xF0 + c.toNat / 262144)) =
        [(lo, hi), (0x80, 0xBF), (0x80, 0xBF)] ∧ lo ≤ 0x80 + c.toNat / 4096 % 64 ∧
          0x80 + c.toNat / 4096 % 64 ≤ hi := by
      unfold continuations
      rw [hlead, if_neg (by omega), if_neg (by omega), if_neg (by omega), if_neg (by omega),
        if_neg (by omega)]
      split
      · exact ⟨_, _, rfl, by omega, by omega⟩
      split
      · exact ⟨_, _, rfl, by omega, by omega⟩
      rw [if_pos (by omega)]
      exact ⟨_, _, rfl, by omega, by omega⟩
    obtain ⟨lo, hi, hranges, hlo, hhi⟩ := hranges
    refine decode_unit_eq (by omega) (by simp) ?_ (by rw [hranges]; rfl) ?_
    · rw [hranges, accepted, if_pos (by omega), accepted, if_pos (by omega), accepted,
        if_pos (by omega)]
      rfl
    · simp only [List.foldl_cons, List.foldl_nil, List.length_cons, List.length_nil, hlead,
        hsecond, hthird, hlast]
      omega

theorem decode_encode_append (s : List Char) (t : List UInt8) :
    decode (encode s ++ t) = s ++ decode t := by
  induction s with
  | nil => rfl
  | cons c s ih =>
    rw [encode_cons, List.append_assoc, decode_encodeChar_append, ih, List.cons_append]

/-- Decoding gives back what was encoded. -/
theorem decode_encode (s : List Char) : decode (encode s) = s := by
  have hback := decode_encode_append s []
  rwa [List.append_nil, decode_nil, List.append_nil] at hback

/-! ## Lengths -/

theorem le_length_encodeChar {c : Char} {k : Nat}
    (h : k = 1 ∨ (k = 2 ∧ 0x80 ≤ c.toNat) ∨ (k = 3 ∧ 0x800 ≤ c.toNat) ∨
      (k = 4 ∧ 0x10000 ≤ c.toNat)) : k ≤ (encodeChar c).length := by
  unfold encodeChar
  dsimp only
  split
  · simp only [List.length_cons, List.length_nil]
    omega
  split
  · simp only [List.length_cons, List.length_nil]
    omega
  split
  · simp only [List.length_cons, List.length_nil]
    omega
  · simp only [List.length_cons, List.length_nil]
    omega

theorem accepted_cons_eq {lo hi : Nat} {ranges : List (Nat × Nat)} {c : UInt8}
    (h : accepted ((lo, hi) :: ranges) (c :: t) = ranges.length + 1) :
    lo ≤ c.toNat ∧ c.toNat ≤ hi ∧ accepted ranges t = ranges.length := by
  rw [accepted] at h
  split at h
  · next hin => exact ⟨hin.1, hin.2, by omega⟩
  · omega

theorem toNat_ofNat_char {n : Nat} (h : n < 0xD800 ∨ (0xDFFF < n ∧ n < 0x110000)) :
    (Char.ofNat n).toNat = n := by
  have hvalid : n.isValidChar := h
  rw [Char.ofNat, dif_pos hvalid]
  rfl

/-- The bytes that begin a character of several bytes. -/
theorem continuations_shape (b : UInt8) :
    continuations b = [] ∨
    (0xC2 ≤ b.toNat ∧ b.toNat < 0xE0 ∧ continuations b = [(0x80, 0xBF)]) ∨
    (∃ lo hi, 0xE0 ≤ b.toNat ∧ b.toNat < 0xF0 ∧ continuations b = [(lo, hi), (0x80, 0xBF)] ∧
      0x80 ≤ lo ∧ hi ≤ 0xBF ∧ (b.toNat = 0xE0 → lo = 0xA0) ∧ (b.toNat = 0xED → hi = 0x9F)) ∨
    ∃ lo hi, 0xF0 ≤ b.toNat ∧ b.toNat ≤ 0xF4 ∧
      continuations b = [(lo, hi), (0x80, 0xBF), (0x80, 0xBF)] ∧
      0x80 ≤ lo ∧ hi ≤ 0xBF ∧ (b.toNat = 0xF0 → lo = 0x90) ∧ (b.toNat = 0xF4 → hi = 0x8F) := by
  unfold continuations
  dsimp only
  split
  · exact .inl rfl
  split
  · exact .inr (.inl ⟨by omega, by omega, rfl⟩)
  split
  · exact .inr (.inr (.inl ⟨_, _, by omega, by omega, rfl, by omega, by omega, by omega, by omega⟩))
  split
  · exact .inr (.inr (.inl ⟨_, _, by omega, by omega, rfl, by omega, by omega, by omega, by omega⟩))
  split
  · exact .inr (.inr (.inl ⟨_, _, by omega, by omega, rfl, by omega, by omega, by omega, by omega⟩))
  split
  · exact .inr (.inr (.inr ⟨_, _, by omega, by omega, rfl, by omega, by omega, by omega, by omega⟩))
  split
  · exact .inr (.inr (.inr ⟨_, _, by omega, by omega, rfl, by omega, by omega, by omega, by omega⟩))
  split
  · exact .inr (.inr (.inr ⟨_, _, by omega, by omega, rfl, by omega, by omega, by omega, by omega⟩))
  · exact .inl rfl

/-- The character of a whole unit has as many bytes as the unit. -/
theorem unit_le_encodeChar {cs : List UInt8} (hb : 0x80 ≤ b.toNat) (hne : cs ≠ [])
    (haccepted : accepted (continuations b) cs = cs.length)
    (hlen : (continuations b).length = cs.length) :
    cs.length + 1 ≤ (encodeChar (unitChar b cs)).length := by
  rw [unitChar, if_neg (by omega), if_pos ⟨hne, hlen.symm⟩]
  rw [← hlen] at haccepted
  obtain hshape | ⟨hlo, hhi, hshape⟩ | ⟨lo, hi, hb₁, hb₂, hshape, hlo, hhi, hmin, hmax⟩ |
    ⟨lo, hi, hb₁, hb₂, hshape, hlo, hhi, hmin, hmax⟩ := continuations_shape b
  · rw [hshape] at hlen
    exact absurd (List.length_eq_zero_iff.1 hlen.symm) hne
  · rw [hshape] at hlen haccepted
    obtain ⟨c, rfl⟩ := List.length_eq_one_iff.1 hlen.symm
    obtain ⟨hclo, hchi, -⟩ := accepted_cons_eq haccepted
    refine le_length_encodeChar (.inr (.inl ⟨rfl, ?_⟩))
    simp only [List.foldl_cons, List.foldl_nil, List.length_singleton]
    rw [toNat_ofNat_char (by omega)]
    omega
  · rw [hshape] at hlen haccepted
    obtain ⟨c, d, rfl⟩ := List.length_eq_two.1 hlen.symm
    obtain ⟨hclo, hchi, hrest⟩ := accepted_cons_eq haccepted
    obtain ⟨hdlo, hdhi, -⟩ := accepted_cons_eq hrest
    refine le_length_encodeChar (.inr (.inr (.inl ⟨rfl, ?_⟩)))
    simp only [List.foldl_cons, List.foldl_nil, List.length_cons, List.length_nil]
    rw [toNat_ofNat_char (by omega)]
    omega
  · rw [hshape] at hlen haccepted
    obtain ⟨c, d, e, rfl⟩ := List.length_eq_three.1 hlen.symm
    obtain ⟨hclo, hchi, hrest⟩ := accepted_cons_eq haccepted
    obtain ⟨hdlo, hdhi, hrest⟩ := accepted_cons_eq hrest
    obtain ⟨helo, hehi, -⟩ := accepted_cons_eq hrest
    refine le_length_encodeChar (.inr (.inr (.inr ⟨rfl, ?_⟩)))
    simp only [List.foldl_cons, List.foldl_nil, List.length_cons, List.length_nil]
    rw [toNat_ofNat_char (by omega)]
    omega

theorem length_continuations (b : UInt8) : (continuations b).length ≤ 3 := by
  obtain hshape | ⟨-, -, hshape⟩ | ⟨_, _, -, -, hshape, -⟩ | ⟨_, _, -, -, hshape, -⟩ :=
    continuations_shape b <;> simp [hshape]

theorem length_encodeChar_replacement : (encodeChar replacement).length = 3 := by decide

/-- A unit is a byte of ASCII, or a replaced one of three bytes at most, or a whole one. -/
theorem unit_cases (b : UInt8) (t : List UInt8) :
    (b.toNat < 0x80 ∧ accepted (continuations b) t = 0 ∧ unitChar b [] = Char.ofNat b.toNat) ∨
    (0x80 ≤ b.toNat ∧ accepted (continuations b) t ≤ 2 ∧
      unitChar b (t.take (accepted (continuations b) t)) = replacement) ∨
    (0x80 ≤ b.toNat ∧ accepted (continuations b) t + 1 ≤
      (encodeChar (unitChar b (t.take (accepted (continuations b) t)))).length) := by
  obtain ⟨hranges, hlength⟩ := accepted_le (continuations b) t
  have hlen : (t.take (accepted (continuations b) t)).length = accepted (continuations b) t := by
    rw [List.length_take]
    omega
  by_cases hb : b.toNat < 0x80
  · have hnone : continuations b = [] := by
      unfold continuations
      rw [if_pos (by omega)]
    exact .inl ⟨hb, by rw [hnone]; rfl, by rw [unitChar, if_pos hb]⟩
  by_cases hwhole : t.take (accepted (continuations b) t) ≠ [] ∧
      (t.take (accepted (continuations b) t)).length = (continuations b).length
  · refine .inr (.inr ⟨by omega, ?_⟩)
    have hle := unit_le_encodeChar (by omega) hwhole.1
      ((accepted_take (continuations b) t).trans hlen.symm) hwhole.2.symm
    rwa [hlen] at hle
  · refine .inr (.inl ⟨by omega, ?_, by rw [unitChar, if_neg hb, if_neg hwhole]⟩)
    have hthree := length_continuations b
    by_contra hmore
    refine hwhole ⟨?_, by omega⟩
    rw [← List.length_pos_iff]
    omega

theorem encodeChar_ascii (hb : b.toNat < 0x80) : encodeChar (Char.ofNat b.toNat) = [b] := by
  have hnat : (Char.ofNat b.toNat).toNat = b.toNat := toNat_ofNat_char (by omega)
  unfold encodeChar
  dsimp only
  rw [hnat, if_pos hb, UInt8.ofNat_toNat]

theorem length_le_encode_decode (bs : List UInt8) : bs.length ≤ (encode (decode bs)).length := by
  induction hn : bs.length using Nat.strong_induction_on generalizing bs with
  | _ n ih =>
  cases bs with
  | nil => simp [← hn]
  | cons b t =>
    rw [decode_cons, encode_cons, List.length_append]
    have hdrop := ih (t.drop (accepted (continuations b) t)).length
      (by rw [← hn, List.length_drop, List.length_cons]; omega) _ rfl
    rw [List.length_drop] at hdrop
    have htake := (accepted_le (continuations b) t).2
    have hunit : accepted (continuations b) t + 1 ≤
        (encodeChar (unitChar b (t.take (accepted (continuations b) t)))).length := by
      obtain ⟨hb, hzero, hchar⟩ | ⟨-, htwo, hchar⟩ | ⟨-, hle⟩ := unit_cases b t
      · rw [hzero, List.take_zero, hchar, encodeChar_ascii hb]
        rfl
      · rw [hchar, length_encodeChar_replacement]
        omega
      · exact hle
    rw [← hn, List.length_cons]
    omega

/-! ## Bytes by themselves -/

def Ascii (bs : List UInt8) : Prop := ∀ b ∈ bs, b.toNat < 0x80

theorem continuations_of_lt (hb : b.toNat < 0xC2) : continuations b = [] := by
  unfold continuations
  rw [if_pos hb]

theorem decode_ascii_cons (hb : b.toNat < 0x80) :
    decode (b :: t) = Char.ofNat b.toNat :: decode t := by
  rw [decode_cons, continuations_of_lt (by omega), unitChar, if_pos hb]
  rfl

theorem decode_ascii_append (hs : Ascii s) : decode (s ++ t) = decode s ++ decode t := by
  induction s with
  | nil => rfl
  | cons b s ih =>
    obtain ⟨hb, hs⟩ := List.forall_mem_cons.1 hs
    rw [List.cons_append, decode_ascii_cons hb, decode_ascii_cons hb, ih hs, List.cons_append]

theorem encode_decode_ascii (hs : Ascii s) : encode (decode s) = s := by
  induction s with
  | nil => rfl
  | cons b s ih =>
    obtain ⟨hb, hs⟩ := List.forall_mem_cons.1 hs
    rw [decode_ascii_cons hb, encode_cons, encodeChar_ascii hb, ih hs, List.singleton_append]

theorem decode_single (hb : 0x80 ≤ b.toNat) : decode [b] = [replacement] := by
  have hnone : accepted (continuations b) [] = 0 := by
    cases continuations b <;> rfl
  rw [decode_cons, hnone, unitChar, if_neg (by omega), if_neg (by simp)]
  rfl

/-- The second byte goes on with the character that the first one begins. -/
def Continues (b c : UInt8) : Prop := accepted (continuations b) [c] = 1

instance (b c : UInt8) : Decidable (Continues b c) := inferInstanceAs (Decidable (_ = _))

/-- No byte goes on with a character. -/
def Lone (bs : List UInt8) : Prop := bs.IsChain fun b c => ¬ Continues b c

theorem accepted_eq_zero {b c : UInt8} {t : List UInt8} :
    accepted (continuations b) (c :: t) = 0 ↔ ¬ Continues b c := by
  unfold Continues
  cases continuations b with
  | nil => simp [accepted]
  | cons range ranges =>
    obtain ⟨lo, hi⟩ := range
    have hnil : accepted ranges [] = 0 := by cases ranges <;> rfl
    rw [accepted, accepted, hnil]
    split <;> simp

theorem length_decode_le (bs : List UInt8) : (decode bs).length ≤ bs.length := by
  induction hn : bs.length using Nat.strong_induction_on generalizing bs with
  | _ n ih =>
  cases bs with
  | nil => simp
  | cons b t =>
    have hdrop := ih (t.drop (accepted (continuations b) t)).length
      (by rw [← hn, List.length_drop, List.length_cons]; omega) _ rfl
    rw [List.length_drop] at hdrop
    rw [decode_cons, ← hn, List.length_cons, List.length_cons]
    omega

theorem decode_singleton (b : UInt8) : decode [b] = [unitChar b []] := by
  have hnone : accepted (continuations b) [] = 0 := by
    cases continuations b <;> rfl
  rw [decode_cons, hnone]
  rfl

theorem length_flatMap_decode (bs : List UInt8) :
    (bs.flatMap fun b => decode [b]).length = bs.length := by
  induction bs with
  | nil => rfl
  | cons b t ih => rw [List.flatMap_cons, List.length_append, ih, decode_singleton,
      List.length_singleton, List.length_cons, Nat.add_comm]

theorem decode_cons_of_not_continues {c : UInt8} (h : ¬ Continues b c) :
    decode (b :: c :: t) = decode [b] ++ decode (c :: t) := by
  rw [decode_cons, accepted_eq_zero.2 h, decode_singleton]
  rfl

/-- Bytes are decoded one by one exactly if none goes on with a character. -/
theorem decode_eq_flatMap_iff {bs : List UInt8} :
    decode bs = bs.flatMap (fun b => decode [b]) ↔ Lone bs := by
  induction bs with
  | nil => exact iff_of_true rfl .nil
  | cons b t ih =>
    cases t with
    | nil => exact iff_of_true (by simp) (.singleton b)
    | cons c t =>
      unfold Lone at ih ⊢
      rw [List.isChain_cons_cons, ← ih, List.flatMap_cons]
      refine ⟨fun h => ?_, fun ⟨hne, h⟩ => ?_⟩
      · have hlen := congrArg List.length h
        have hle := length_decode_le ((c :: t).drop (accepted (continuations b) (c :: t)))
        rw [decode_cons, decode_singleton, List.length_append, length_flatMap_decode,
          List.length_cons, List.length_singleton] at hlen
        rw [List.length_drop] at hle
        have htake := (accepted_le (continuations b) (c :: t)).2
        have hzero : accepted (continuations b) (c :: t) = 0 := by omega
        have hne : ¬ Continues b c := accepted_eq_zero.1 hzero
        rw [decode_cons_of_not_continues hne] at h
        exact ⟨hne, List.append_cancel_left h⟩
      · rw [decode_cons_of_not_continues hne, h]

theorem Lone.decode_append (h : Lone (s ++ t)) : decode (s ++ t) = decode s ++ decode t := by
  have hs : Lone s := List.IsChain.left_of_append h
  have ht : Lone t := List.IsChain.right_of_append h
  rw [decode_eq_flatMap_iff.2 h, decode_eq_flatMap_iff.2 hs, decode_eq_flatMap_iff.2 ht,
    List.flatMap_append]

/-! ## The end of a text -/

/-- A byte in the middle of a character. -/
def InnerByte (b : UInt8) : Prop := 0x80 ≤ b.toNat ∧ b.toNat < 0xC0

theorem decode_inner_cons (h : InnerByte b) : decode (b :: t) = replacement :: decode t := by
  have hone := decode_single h.1
  rw [decode_singleton] at hone
  rw [decode_cons, continuations_of_lt (by have := h.2; omega)]
  exact congrArg (· ++ decode t) hone

theorem decode_inner_append (h : ∀ b ∈ s, InnerByte b) :
    decode (s ++ t) = List.replicate s.length replacement ++ decode t := by
  induction s with
  | nil => rfl
  | cons b s ih =>
    obtain ⟨hb, hs⟩ := List.forall_mem_cons.1 h
    rw [List.cons_append, decode_inner_cons hb, ih hs, List.length_cons, List.replicate_succ,
      List.cons_append]

theorem encodeChar_shape (c : Char) :
    ∃ b bs, encodeChar c = b :: bs ∧ ¬ InnerByte b ∧ ∀ x ∈ bs, InnerByte x := by
  have hvalid := toNat_lt c
  have hlead : ∀ n, n < 0x80 ∨ (0xC0 ≤ n ∧ n < 256) → ¬ InnerByte (UInt8.ofNat n) := by
    intro n hn
    have hnat := @toNat_ofNat n (by omega)
    unfold InnerByte
    omega
  have hinner : ∀ ns : List Nat, ∀ x ∈ ns.map fun n => UInt8.ofNat (0x80 + n % 64),
      InnerByte x := by
    intro ns x hx
    obtain ⟨n, -, rfl⟩ := List.mem_map.1 hx
    have hnat := @toNat_ofNat (0x80 + n % 64) (by omega)
    unfold InnerByte
    omega
  unfold encodeChar
  dsimp only
  split
  · exact ⟨_, _, rfl, hlead _ (by omega), nofun⟩
  split
  · exact ⟨_, _, rfl, hlead _ (by omega), hinner [c.toNat]⟩
  split
  · exact ⟨_, _, rfl, hlead _ (by omega), hinner [c.toNat / 64, c.toNat]⟩
  · exact ⟨_, _, rfl, hlead _ (by omega), hinner [c.toNat / 4096, c.toNat / 64, c.toNat]⟩

theorem length_encodeChar_le (c : Char) : (encodeChar c).length ≤ 4 := by
  unfold encodeChar
  dsimp only
  split
  · simp
  split
  · simp
  split <;> simp

/-- The end of an encoded text: inner bytes of a character and a text behind it. -/
theorem exists_drop_encode (t : List Char) (k : Nat) (hk : k ≤ (encode t).length) :
    ∃ s a b, (encode t).drop k = s ++ encode b ∧ t = a ++ b ∧ s.length ≤ 3 ∧
      ∀ x ∈ s, InnerByte x := by
  induction t generalizing k with
  | nil => exact ⟨[], [], [], by simp, rfl, by simp, nofun⟩
  | cons c t ih =>
    by_cases hzero : k = 0
    · exact ⟨[], [], c :: t, by simp [hzero], rfl, by simp, nofun⟩
    rw [encode_cons, List.length_append] at hk
    by_cases hlen : k ≤ (encodeChar c).length
    · obtain ⟨b, bs, hshape, -, hinner⟩ := encodeChar_shape c
      have hfour := length_encodeChar_le c
      refine ⟨(encodeChar c).drop k, [c], t, ?_, rfl, ?_, fun x hx => ?_⟩
      · rw [encode_cons, List.drop_append_of_le_length hlen]
      · rw [List.length_drop]
        omega
      · obtain ⟨j, rfl⟩ := Nat.exists_eq_succ_of_ne_zero hzero
        rw [hshape, List.drop_succ_cons] at hx
        exact hinner x (List.mem_of_mem_drop hx)
    · obtain ⟨s, a, b, hdrop, rfl, hlength, hs⟩ := ih (k - (encodeChar c).length) (by omega)
      refine ⟨s, c :: a, b, ?_, rfl, hlength, hs⟩
      rw [encode_cons, List.drop_append, List.drop_of_length_le (by omega), hdrop, List.nil_append]

end Lib.Utf8
