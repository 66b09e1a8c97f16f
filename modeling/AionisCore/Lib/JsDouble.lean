import AionisCore.Lib.JsNumber
import AionisCore.Lib.JsString
import Mathlib.Data.Int.Log
import Mathlib.Data.Rat.Floor
import Mathlib.Tactic.Linarith
import Mathlib.Tactic.NormNum
import Mathlib.Tactic.Positivity
import Mathlib.Tactic.Ring

/-!
# `Number` of a text

`Number` reads white space, decimals with a sign, a point or an exponent, `Infinity`, and
integers in base sixteen, eight and two; everything else is `NaN`. The value is the double
nearest to what the text says. Integers below `2 ^ 53` are doubles themselves.
-/

namespace Lib

open JsString

/-- A number; the two zeros are one. -/
inductive Double where
  | nan
  | infinity (negative : Bool)
  | finite (x : ℚ)
  deriving DecidableEq

namespace Double

/-- The nearest integer, and the even one of two. -/
def roundEven (x : ℚ) : Int :=
  if Int.fract x < 1 / 2 then ⌊x⌋
  else if 1 / 2 < Int.fract x then ⌊x⌋ + 1
  else if ⌊x⌋ % 2 = 0 then ⌊x⌋ else ⌊x⌋ + 1

/-- How far apart the doubles around a number are. -/
def ulp (x : ℚ) : ℚ := 2 ^ (max (Int.log 2 |x|) (-1022) - 52)

/-- The nearest double. -/
def round (x : ℚ) : Double :=
  let r := roundEven (x / ulp x) * ulp x
  if 2 ^ 1024 ≤ |r| then .infinity (x < 0) else .finite r

/-- `Number.isInteger`, with the integer. -/
def integer? : Double → Option Int
  | .finite x => if x.isInt then some x.num else none
  | _ => none

theorem roundEven_intCast (k : Int) : roundEven k = k := by
  rw [roundEven, Int.fract_intCast, if_pos (by norm_num), Int.floor_intCast]

/-- Rounding goes at most half way. -/
theorem le_roundEven (x : ℚ) : x - 1 / 2 ≤ roundEven x := by
  have hfract := Int.self_sub_floor x
  unfold roundEven
  split
  · next hlow => rw [← hfract] at hlow; linarith
  split
  · have hlt := Int.fract_lt_one x
    push_cast
    linarith
  · next hlow hhigh =>
    have hmid : Int.fract x = 1 / 2 := le_antisymm (not_lt.1 hhigh) (not_lt.1 hlow)
    split
    · linarith
    · push_cast
      linarith

theorem ulp_pos (x : ℚ) : 0 < ulp x := zpow_pos (by norm_num) _

section Naturals

variable {n : Nat}

theorem ulp_natCast : ulp n = 2 ^ ((Nat.log 2 n : Int) - 52) := by
  rw [ulp, abs_of_nonneg (Nat.cast_nonneg n), Int.log_natCast,
    max_eq_left (by omega)]

/-- Integers below `2 ^ 53` are doubles. -/
theorem round_natCast (hn : n < 2 ^ 53) : round n = .finite n := by
  have hexact : ∃ k : Int, (n : ℚ) / ulp n = k := by
    by_cases hzero : n = 0
    · exact ⟨0, by simp [hzero]⟩
    · have hlog : Nat.log 2 n ≤ 52 := Nat.le_of_lt_succ (Nat.log_lt_of_lt_pow hzero hn)
      refine ⟨n * 2 ^ (52 - Nat.log 2 n), ?_⟩
      rw [ulp_natCast, div_eq_mul_inv, ← zpow_neg,
        show -((Nat.log 2 n : Int) - 52) = ((52 - Nat.log 2 n : Nat) : Int) by omega, zpow_natCast]
      push_cast
      rfl
  obtain ⟨k, hk⟩ := hexact
  have hvalue : (roundEven ((n : ℚ) / ulp n) : ℚ) * ulp n = n := by
    rw [hk, roundEven_intCast, ← hk, div_mul_cancel₀ _ (ulp_pos _).ne']
  unfold round
  dsimp only
  rw [hvalue, if_neg]
  rw [not_le, abs_of_nonneg (Nat.cast_nonneg n)]
  calc (n : ℚ) < 2 ^ 53 := by exact_mod_cast hn
    _ ≤ 2 ^ 1024 := pow_le_pow_right₀ (by norm_num) (by omega)

theorem round_large (hn : 2 ^ 53 ≤ n) : (round n).integer? = none ∨
    ∃ k : Int, (round n).integer? = some k ∧ 2 ^ 52 ≤ k := by
  have hzero : n ≠ 0 := by
    rintro rfl
    norm_num at hn
  have hulp : ulp n ≤ n := by
    rw [ulp_natCast]
    calc (2 : ℚ) ^ ((Nat.log 2 n : Int) - 52) ≤ 2 ^ (Nat.log 2 n : Int) :=
          zpow_le_zpow_right₀ (by norm_num) (by omega)
      _ ≤ n := by
        rw [zpow_natCast]
        exact_mod_cast Nat.pow_log_le_self 2 hzero
  have hlarge : (2 : ℚ) ^ 52 ≤ roundEven ((n : ℚ) / ulp n) * ulp n := by
    have hpos := ulp_pos (n : ℚ)
    have hround := mul_le_mul_of_nonneg_right (le_roundEven ((n : ℚ) / ulp n)) hpos.le
    rw [sub_mul, div_mul_cancel₀ _ hpos.ne'] at hround
    have hn' : (2 : ℚ) ^ 53 ≤ n := by exact_mod_cast hn
    have hhalf : (2 : ℚ) ^ 53 = 2 * 2 ^ 52 := by norm_num
    linarith
  unfold round
  dsimp only
  split
  · exact .inl rfl
  · unfold integer?
    dsimp only
    split
    · next hint =>
      refine .inr ⟨_, rfl, ?_⟩
      have hnum := Rat.num_div_den (roundEven ((n : ℚ) / ulp n) * ulp n)
      rw [Rat.isInt, beq_iff_eq] at hint
      rw [hint, Nat.cast_one, div_one] at hnum
      rw [← hnum] at hlarge
      exact_mod_cast hlarge
    · exact .inl rfl

theorem integer?_round_natCast {k : Nat} (hk : k < 2 ^ 52) :
    (round n).integer? = some (k : Int) ↔ n = k := by
  by_cases hn : n < 2 ^ 53
  · rw [round_natCast hn, integer?]
    simp [Rat.isInt]
  · refine iff_of_false (fun hround => ?_) (by omega)
    rcases round_large (not_lt.1 hn) with hnone | ⟨m, hm, hlarge⟩
    · rw [hnone] at hround
      cases hround
    · rw [hm, Option.some.injEq] at hround
      omega

end Naturals

end Double

/-! ## Texts -/

/-- The digit of a base up to thirty-six. -/
def digitIn (radix : Nat) (c : Char) : Option Nat :=
  let value :=
    if isDigit c then digitValue c
    else if 'a' ≤ c ∧ c ≤ 'z' then c.toNat - 'a'.toNat + 10
    else if 'A' ≤ c ∧ c ≤ 'Z' then c.toNat - 'A'.toNat + 10
    else radix
  if value < radix then some value else none

/-- All characters as digits of a base. -/
def readRadix (radix : Nat) (cs : List Char) : Option Nat :=
  (cs.mapM (digitIn radix)).map fun ds => ds.foldl (fun n d => radix * n + d) 0

/-- Digits with a point or an exponent. -/
def unsignedDecimal (cs : List Char) : Option ℚ :=
  let whole := cs.takeWhile isDigit
  let rest := cs.dropWhile isDigit
  let (fraction, rest) := match rest with
    | '.' :: rest => spanDigits rest
    | rest => ([], rest)
  let exponent := scanExponent rest
  if (whole = [] ∧ fraction = []) ∨ exponent.2 ≠ [] then none
  else
    let power : Int := readDigits exponent.1.2
    some (readDigits (whole ++ fraction) *
      10 ^ ((if exponent.1.1 then -power else power) - fraction.length))

def decimalNumber (cs : List Char) : Double :=
  let (negative, cs) := scanSign cs
  if cs = "Infinity".toList then .infinity negative
  else match unsignedDecimal cs with
    | some x => Double.round (if negative then -x else x)
    | none => .nan

def radixNumber (radix : Nat) (cs : List Char) : Double :=
  if cs = [] then .nan
  else match readRadix radix cs with
    | some n => Double.round n
    | none => .nan

/-- `Number(s)`. -/
def number (s : String) : Double :=
  match trimChars s.toList with
  | [] => .finite 0
  | '0' :: c :: cs =>
    if c = 'x' ∨ c = 'X' then radixNumber 16 cs
    else if c = 'o' ∨ c = 'O' then radixNumber 8 cs
    else if c = 'b' ∨ c = 'B' then radixNumber 2 cs
    else decimalNumber ('0' :: c :: cs)
  | cs => decimalNumber cs

/-- `/^\d+$/`. -/
def IsDigits (cs : List Char) : Prop := cs ≠ [] ∧ ∀ c ∈ cs, isDigit c = true

instance (cs : List Char) : Decidable (IsDigits cs) :=
  decidable_of_iff (cs ≠ [] ∧ cs.all isDigit = true) (by rw [IsDigits, List.all_eq_true])

section Digits

variable {cs : List Char} (h : IsDigits cs)

include h

theorem unsignedDecimal_digits : unsignedDecimal cs = some (readDigits cs : ℚ) := by
  have htake : (cs ++ []).takeWhile isDigit = cs := takeWhile_digits h.2 nofun
  have hdrop : cs.dropWhile isDigit = [] := List.dropWhile_eq_nil_iff.2 h.2
  rw [List.append_nil] at htake
  unfold unsignedDecimal
  rw [htake, hdrop]
  simp [scanExponent, h.1, readDigits]

theorem decimalNumber_digits : decimalNumber cs = Double.round (readDigits cs) := by
  obtain ⟨hne, hall⟩ := h
  cases cs with
  | nil => exact absurd rfl hne
  | cons c cs =>
    have hc := hall c List.mem_cons_self
    have hsign : scanSign (c :: cs) = (false, c :: cs) := by
      unfold scanSign
      split
      · next heq =>
        obtain ⟨rfl, -⟩ := List.cons.inj heq
        cases hc
      · next heq =>
        obtain ⟨rfl, -⟩ := List.cons.inj heq
        cases hc
      · rfl
    have hword : c :: cs ≠ "Infinity".toList := by
      intro heq
      obtain ⟨rfl, -⟩ := List.cons.inj (heq.trans (show "Infinity".toList =
        'I' :: "nfinity".toList by decide))
      cases hc
    unfold decimalNumber
    rw [hsign]
    dsimp only
    rw [if_neg hword, unsignedDecimal_digits ⟨hne, hall⟩]
    rfl

end Digits

theorem number_digits {s : String} (h : IsDigits (trimChars s.toList)) :
    number s = Double.round (readDigits (trimChars s.toList)) := by
  rw [← decimalNumber_digits h]
  unfold number
  split
  · next hnil => exact absurd hnil h.1
  · next c cs heq =>
    have hc : isDigit c = true := h.2 c (by simp [heq])
    have hne : ∀ d e, isDigit d = false → isDigit e = false → ¬ (c = d ∨ c = e) := by
      rintro d e hd he (rfl | rfl)
      · exact Bool.noConfusion (hc.symm.trans hd)
      · exact Bool.noConfusion (hc.symm.trans he)
    rw [if_neg (hne _ _ rfl rfl), if_neg (hne _ _ rfl rfl), if_neg (hne _ _ rfl rfl), heq]
  · rfl

/-- `Number` of decimal digits is a small integer only if the digits say so. -/
theorem integer?_number_digits {s : String} {k : Nat} (h : IsDigits (trimChars s.toList))
    (hk : k < 2 ^ 52) :
    (number s).integer? = some (k : Int) ↔ readDigits (trimChars s.toList) = k := by
  rw [number_digits h, Double.integer?_round_natCast hk]

end Lib
