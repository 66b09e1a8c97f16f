import Mathlib.Data.Nat.Digits.Lemmas

/-!
# JavaScript numbers as decimals

A finite number is the decimal that `Number::toString` prints for it: a sign, digits that do
not end in zero, and a power of ten. Literals between the least and the greatest number keep
the decimal they are written as; the others become zero or infinity. `scanNumber` is the
number grammar of JSON, and reads back what `Decimal.text` prints.
-/

namespace Lib

structure Decimal where
  negative : Bool
  digits : Nat
  exponent : Int
  normal : digits % 10 ≠ 0 ∨ digits = 0 ∧ exponent = 0
  deriving DecidableEq

namespace Decimal

/-- Trailing zeros go to the exponent. -/
def shrink : Nat → Nat → Int → Nat × Int
  | 0, m, e => (m, e)
  | fuel + 1, m, e => if m % 10 = 0 then shrink fuel (m / 10) (e + 1) else (m, e)

theorem shrink_normal {fuel m : Nat} {e : Int} (hm : m ≠ 0) (hfuel : m ≤ fuel) :
    (shrink fuel m e).1 % 10 ≠ 0 := by
  induction fuel generalizing m e with
  | zero => omega
  | succ fuel ih =>
    rw [shrink]
    split
    · exact ih (by omega) (by omega)
    · assumption

theorem shrink_mul_pow {m : Nat} (hm : m % 10 ≠ 0) (z : Nat) {fuel : Nat} {e : Int}
    (hfuel : z ≤ fuel) : shrink fuel (m * 10 ^ z) e = (m, e + z) := by
  induction z generalizing fuel e with
  | zero =>
    cases fuel with
    | zero => simp [shrink]
    | succ fuel => simp [shrink, hm]
  | succ z ih =>
    obtain ⟨fuel, rfl⟩ : ∃ f, fuel = f + 1 := ⟨fuel - 1, by omega⟩
    have hdiv : m * 10 ^ (z + 1) = 10 * (m * 10 ^ z) := by
      rw [Nat.pow_succ]
      ring
    rw [shrink, hdiv, if_pos (Nat.mul_mod_right _ _), Nat.mul_div_cancel_left _ (by omega),
      ih (by omega)]
    simp only [Prod.mk.injEq, true_and]
    omega

/-- `± m * 10 ^ e`. -/
def ofScaled (negative : Bool) (m : Nat) (e : Int) : Decimal :=
  if h : m = 0 then ⟨negative, 0, 0, Or.inr ⟨rfl, rfl⟩⟩
  else ⟨negative, (shrink m m e).1, (shrink m m e).2, Or.inl (shrink_normal h le_rfl)⟩

theorem ofScaled_mul_pow (d : Decimal) (hd : d.digits ≠ 0) (z : Nat) :
    ofScaled d.negative (d.digits * 10 ^ z) (d.exponent - z) = d := by
  have hnormal : d.digits % 10 ≠ 0 := d.normal.resolve_right fun h => hd h.1
  have hpow : z < 10 ^ z := Nat.lt_pow_self (by omega)
  have hle : 10 ^ z ≤ d.digits * 10 ^ z := Nat.le_mul_of_pos_left _ (by omega)
  rw [ofScaled, dif_neg (by omega)]
  simp only [shrink_mul_pow hnormal z (show z ≤ d.digits * 10 ^ z by omega)]
  cases d
  simp only [Decimal.mk.injEq, true_and]
  omega

/-! ## Range -/

/-- From here on a literal is rounded to infinity. -/
def overflow : Nat := 2 ^ 1024 - 2 ^ 970

def TooLarge (d : Decimal) : Prop :=
  if 0 ≤ d.exponent then overflow ≤ d.digits * 10 ^ d.exponent.toNat
  else overflow * 10 ^ (-d.exponent).toNat ≤ d.digits

/-- At most half of the least positive number. -/
def TooSmall (d : Decimal) : Prop :=
  d.exponent < 0 ∧ d.digits * 2 ^ 1075 ≤ 10 ^ (-d.exponent).toNat

instance (d : Decimal) : Decidable d.TooLarge := by
  unfold TooLarge
  infer_instance

instance (d : Decimal) : Decidable d.TooSmall := inferInstanceAs (Decidable (_ ∧ _))

def InRange (d : Decimal) : Prop := d.digits = 0 ∨ ¬ d.TooLarge ∧ ¬ d.TooSmall

instance (d : Decimal) : Decidable d.InRange := inferInstanceAs (Decidable (_ ∨ _))

end Decimal

inductive JsNumber where
  | finite (d : Decimal) (inRange : d.InRange)
  | infinity (negative : Bool)
  deriving DecidableEq

namespace JsNumber

def zero (negative : Bool) : JsNumber := .finite ⟨negative, 0, 0, Or.inr ⟨rfl, rfl⟩⟩ (Or.inl rfl)

def ofDecimal (d : Decimal) : JsNumber :=
  if h : d.InRange then .finite d h
  else if d.TooLarge then .infinity d.negative
  else zero d.negative

theorem ofDecimal_of_inRange {d : Decimal} (h : d.InRange) : ofDecimal d = .finite d h :=
  dif_pos h

end JsNumber

/-! ## Digits -/

def isDigit (c : Char) : Bool := '0' ≤ c && c ≤ '9'

def digitChar (n : Nat) : Char := Char.ofNat (48 + n)

def digitValue (c : Char) : Nat := c.toNat - 48

def readDigits (cs : List Char) : Nat := cs.foldl (fun m c => 10 * m + digitValue c) 0

/-- The decimal digits of a number, the leading one first; none for zero. -/
def digitsText (n : Nat) : List Char := (Nat.digits 10 n).reverse.map digitChar

def natText (n : Nat) : List Char := if n = 0 then ['0'] else digitsText n

variable {n : Nat}

theorem toNat_digitChar (h : n < 10) : (digitChar n).toNat = 48 + n := by
  interval_cases n <;> rfl

theorem digitValue_digitChar (h : n < 10) : digitValue (digitChar n) = n := by
  rw [digitValue, toNat_digitChar h]
  omega

variable {c : Char}

theorem isDigit_iff : isDigit c = true ↔ 48 ≤ c.toNat ∧ c.toNat ≤ 57 := by
  rw [isDigit, Bool.and_eq_true, decide_eq_true_eq, decide_eq_true_eq]
  exact Iff.rfl

theorem isDigit_digitChar (h : n < 10) : isDigit (digitChar n) = true := by
  rw [isDigit_iff, toNat_digitChar h]
  omega

theorem isDigit_of_mem_digitsText (h : c ∈ digitsText n) : isDigit c = true := by
  obtain ⟨d, hd, rfl⟩ := List.mem_map.1 h
  exact isDigit_digitChar (Nat.digits_lt_base (by omega) (List.mem_reverse.1 hd))

theorem isDigit_of_mem_natText (h : c ∈ natText n) : isDigit c = true := by
  unfold natText at h
  split at h
  · obtain rfl := List.mem_singleton.1 h
    rfl
  · exact isDigit_of_mem_digitsText h

theorem readDigits_append (cs ds : List Char) :
    readDigits (cs ++ ds) = readDigits cs * 10 ^ ds.length + readDigits ds := by
  induction ds using List.reverseRecOn generalizing cs with
  | nil => simp [readDigits]
  | append_singleton ds d ih =>
    have hsnoc : ∀ xs : List Char, readDigits (xs ++ [d]) = 10 * readDigits xs + digitValue d :=
      fun xs => by simp [readDigits]
    rw [← List.append_assoc, hsnoc, hsnoc, ih, List.length_append, List.length_singleton,
      Nat.pow_succ]
    ring

theorem readDigits_zeros (n : Nat) : readDigits (List.replicate n '0') = 0 := by
  induction n with
  | zero => rfl
  | succ n ih =>
    rw [List.replicate_succ', readDigits_append, ih]
    rfl

@[simp] theorem readDigits_digitsText (n : Nat) : readDigits (digitsText n) = n := by
  have hdigits : ∀ ds : List Nat, (∀ d ∈ ds, d < 10) →
      readDigits (ds.reverse.map digitChar) = Nat.ofDigits 10 ds := by
    intro ds hds
    induction ds with
    | nil => rfl
    | cons d ds ih =>
      rw [List.reverse_cons, List.map_append, readDigits_append,
        ih fun x hx => hds x (List.mem_cons_of_mem d hx), Nat.ofDigits_cons]
      have hd := digitValue_digitChar (hds d (by simp))
      simp only [List.map_cons, List.map_nil, List.length_singleton, readDigits, List.foldl_cons,
        List.foldl_nil, hd]
      omega
  rw [digitsText, hdigits _ fun d hd => Nat.digits_lt_base (by omega) hd, Nat.ofDigits_digits]

@[simp] theorem readDigits_natText (n : Nat) : readDigits (natText n) = n := by
  unfold natText
  split
  · next h => rw [h]; rfl
  · exact readDigits_digitsText n

theorem digitsText_ne_nil (h : n ≠ 0) : digitsText n ≠ [] := by
  simp [digitsText, Nat.digits_eq_nil_iff_eq_zero, h]

theorem head_digitsText (h : c ∈ (digitsText n).head?) : c ≠ '0' := by
  rw [digitsText, List.head?_map, List.head?_reverse] at h
  obtain ⟨d, hd, rfl⟩ := Option.mem_map.1 h
  have hne : Nat.digits 10 n ≠ [] := by
    intro hnil
    simp [hnil] at hd
  have hn : n ≠ 0 := Nat.digits_ne_nil_iff_ne_zero.1 hne
  rw [List.getLast?_eq_some_getLast hne, Option.mem_def, Option.some.injEq] at hd
  have hlast := Nat.getLast_digit_ne_zero 10 hn
  have hlt : d < 10 := by
    rw [← hd]
    exact Nat.digits_lt_base (by omega) (List.getLast_mem hne)
  intro hzero
  have hvalue := congrArg Char.toNat hzero
  rw [toNat_digitChar hlt] at hvalue
  have : '0'.toNat = 48 := rfl
  omega

/-! ## Literals -/

structure NumberLiteral where
  negative : Bool
  whole : List Char
  fraction : List Char
  exponentNegative : Bool
  exponent : List Char
  deriving DecidableEq

namespace NumberLiteral

def scale (l : NumberLiteral) : Int :=
  (if l.exponentNegative then -(readDigits l.exponent : Int) else readDigits l.exponent) -
    l.fraction.length

def value (l : NumberLiteral) : JsNumber :=
  .ofDecimal (.ofScaled l.negative (readDigits (l.whole ++ l.fraction)) l.scale)

def text (l : NumberLiteral) : List Char :=
  (if l.negative then ['-'] else []) ++ l.whole ++
    (if l.fraction = [] then [] else '.' :: l.fraction) ++
    (if l.exponent = [] then []
      else 'e' :: (if l.exponentNegative then '-' else '+') :: l.exponent)

structure WellFormed (l : NumberLiteral) : Prop where
  whole : l.whole = ['0'] ∨
    l.whole ≠ [] ∧ (∀ c ∈ l.whole, isDigit c = true) ∧ ∀ c ∈ l.whole.head?, c ≠ '0'
  fraction : ∀ c ∈ l.fraction, isDigit c = true
  exponent : ∀ c ∈ l.exponent, isDigit c = true
  sign : l.exponent = [] → l.exponentNegative = false

end NumberLiteral

/-- `Number::toString` of a finite number: the digits are `k` of them, and the point stands
after the first `n`. Both zeros print alike. -/
def Decimal.literal (d : Decimal) : NumberLiteral :=
  let ds := digitsText d.digits
  let k : Int := ds.length
  let n := d.exponent + k
  if d.digits = 0 then ⟨false, ['0'], [], false, []⟩
  else if k ≤ n ∧ n ≤ 21 then ⟨d.negative, ds ++ List.replicate (n - k).toNat '0', [], false, []⟩
  else if 0 < n ∧ n ≤ 21 then ⟨d.negative, ds.take n.toNat, ds.drop n.toNat, false, []⟩
  else if -6 < n ∧ n ≤ 0 then
    ⟨d.negative, ['0'], List.replicate (-n).toNat '0' ++ ds, false, []⟩
  else ⟨d.negative, ds.take 1, ds.drop 1, decide (n - 1 < 0), natText (n - 1).natAbs⟩

def Decimal.text (d : Decimal) : List Char := d.literal.text

/-- The digits at the front and what follows them. -/
def spanDigits (cs : List Char) : List Char × List Char :=
  (cs.takeWhile isDigit, cs.dropWhile isDigit)

/-- `(?:\.\d+)?` -/
def scanFraction : List Char → List Char × List Char
  | '.' :: cs => if cs.takeWhile isDigit = [] then ([], '.' :: cs) else spanDigits cs
  | cs => ([], cs)

/-- `[+-]?` -/
def scanSign : List Char → Bool × List Char
  | '-' :: cs => (true, cs)
  | '+' :: cs => (false, cs)
  | cs => (false, cs)

/-- `(?:[eE][+-]?\d+)?` -/
def scanExponent : List Char → (Bool × List Char) × List Char
  | c :: cs =>
    if (c = 'e' ∨ c = 'E') ∧ (scanSign cs).2.takeWhile isDigit ≠ [] then
      (((scanSign cs).1, (scanSign cs).2.takeWhile isDigit), (scanSign cs).2.dropWhile isDigit)
    else ((false, []), c :: cs)
  | [] => ((false, []), [])

/-- `0|[1-9]\d*` -/
def scanWhole : List Char → Option (List Char × List Char)
  | '0' :: cs => some (['0'], cs)
  | c :: cs => if isDigit c then some (spanDigits (c :: cs)) else none
  | [] => none

/-- The longest match of `-?(?:0|[1-9]\d*)(?:\.\d+)?(?:[eE][+-]?\d+)?` at the front. -/
def scanNumber (cs : List Char) : Option (NumberLiteral × List Char) :=
  let negative := cs.head? = some '-'
  match scanWhole (if negative then cs.drop 1 else cs) with
  | none => none
  | some (whole, cs) =>
    let fraction := scanFraction cs
    let exponent := scanExponent fraction.2
    some (⟨negative, whole, fraction.1, exponent.1.1, exponent.1.2⟩, exponent.2)

/-! ## Reading back -/

/-- Nothing that could continue a number stands at the front. -/
def EndsNumber (rest : List Char) : Prop :=
  ∀ c ∈ rest.head?, isDigit c = false ∧ c ≠ '.' ∧ c ≠ 'e' ∧ c ≠ 'E'

section Scan

variable {ds rest : List Char}

theorem takeWhile_isDigit (hrest : ∀ c ∈ rest.head?, isDigit c = false) :
    rest.takeWhile isDigit = [] ∧ rest.dropWhile isDigit = rest := by
  cases rest with
  | nil => exact ⟨rfl, rfl⟩
  | cons c cs =>
    have hc : ¬ isDigit c = true := by simp [hrest c rfl]
    exact ⟨List.takeWhile_cons_of_neg hc, List.dropWhile_cons_of_neg hc⟩

theorem takeWhile_digits (hds : ∀ c ∈ ds, isDigit c = true)
    (hrest : ∀ c ∈ rest.head?, isDigit c = false) : (ds ++ rest).takeWhile isDigit = ds := by
  rw [List.takeWhile_append_of_pos hds, (takeWhile_isDigit hrest).1, List.append_nil]

theorem dropWhile_digits (hds : ∀ c ∈ ds, isDigit c = true)
    (hrest : ∀ c ∈ rest.head?, isDigit c = false) : (ds ++ rest).dropWhile isDigit = rest := by
  rw [List.dropWhile_append_of_pos hds, (takeWhile_isDigit hrest).2]

theorem scanFraction_absent (hrest : ∀ c ∈ rest.head?, c ≠ '.') :
    scanFraction rest = ([], rest) := by
  unfold scanFraction
  split
  · exact absurd rfl (hrest '.' rfl)
  · rfl

theorem scanFraction_present (hne : ds ≠ []) (hds : ∀ c ∈ ds, isDigit c = true)
    (hrest : ∀ c ∈ rest.head?, isDigit c = false) :
    scanFraction ('.' :: (ds ++ rest)) = (ds, rest) := by
  rw [scanFraction, takeWhile_digits hds hrest, if_neg hne, spanDigits,
    takeWhile_digits hds hrest, dropWhile_digits hds hrest]

theorem scanExponent_absent (hrest : ∀ c ∈ rest.head?, c ≠ 'e' ∧ c ≠ 'E') :
    scanExponent rest = ((false, []), rest) := by
  cases rest with
  | nil => rfl
  | cons c cs => exact if_neg fun h => h.1.elim (hrest c rfl).1 (hrest c rfl).2

theorem scanSign_signed (negative : Bool) (cs : List Char) :
    scanSign ((if negative then '-' else '+') :: cs) = (negative, cs) := by
  cases negative <;> rfl

theorem scanExponent_present (negative : Bool) (hne : ds ≠ [])
    (hds : ∀ c ∈ ds, isDigit c = true) (hrest : ∀ c ∈ rest.head?, isDigit c = false) :
    scanExponent ('e' :: (if negative then '-' else '+') :: (ds ++ rest)) =
      ((negative, ds), rest) := by
  rw [scanExponent, scanSign_signed, takeWhile_digits hds hrest, dropWhile_digits hds hrest,
    if_pos ⟨Or.inl rfl, hne⟩]

theorem scanWhole_digits (hne : ds ≠ []) (hds : ∀ c ∈ ds, isDigit c = true)
    (hzero : ∀ c ∈ ds.head?, c ≠ '0') (hrest : ∀ c ∈ rest.head?, isDigit c = false) :
    scanWhole (ds ++ rest) = some (ds, rest) := by
  cases ds with
  | nil => exact absurd rfl hne
  | cons c cs =>
    rw [List.cons_append]
    unfold scanWhole
    split
    · next heq =>
      obtain ⟨rfl, -⟩ := List.cons.inj heq
      exact absurd rfl (hzero _ rfl)
    · next heq =>
      obtain ⟨rfl, rfl⟩ := List.cons.inj heq
      rw [if_pos (hds _ List.mem_cons_self), spanDigits, ← List.cons_append,
        takeWhile_digits hds hrest, dropWhile_digits hds hrest]
    · next heq => cases heq

end Scan

/-- The text of a literal is read back, whatever follows it. -/
theorem scanNumber_text {l : NumberLiteral} (hl : l.WellFormed) {rest : List Char}
    (hrest : EndsNumber rest) : scanNumber (l.text ++ rest) = some (l, rest) := by
  obtain ⟨negative, whole, fraction, exponentNegative, exponent⟩ := l
  obtain ⟨hwhole, hfraction, hexponent, hsign⟩ := hl
  dsimp only at hwhole hfraction hexponent hsign
  -- From the right: what each optional part leaves.
  have hexp : scanExponent ((if exponent = [] then []
      else 'e' :: (if exponentNegative then '-' else '+') :: exponent) ++ rest) =
      ((exponentNegative, exponent), rest) := by
    split
    · next h =>
      rw [List.nil_append, scanExponent_absent fun c hc => (hrest c hc).2.2, h, hsign h]
    · next h => exact scanExponent_present exponentNegative h hexponent fun c hc => (hrest c hc).1
  generalize htail : (if exponent = [] then []
      else 'e' :: (if exponentNegative then '-' else '+') :: exponent) ++ rest = tail at hexp
  have htailHead : ∀ c ∈ tail.head?, isDigit c = false ∧ c ≠ '.' := by
    intro c hc
    rw [← htail] at hc
    split at hc
    · exact ⟨(hrest c hc).1, (hrest c hc).2.1⟩
    · obtain rfl : 'e' = c := by simpa using hc
      exact ⟨rfl, by decide⟩
  have hfrac : scanFraction ((if fraction = [] then [] else '.' :: fraction) ++ tail) =
      (fraction, tail) := by
    split
    · next h => rw [List.nil_append, scanFraction_absent fun c hc => (htailHead c hc).2, h]
    · next h => exact scanFraction_present h hfraction fun c hc => (htailHead c hc).1
  generalize hmiddle : (if fraction = [] then [] else '.' :: fraction) ++ tail = middle at hfrac
  have hmiddleHead : ∀ c ∈ middle.head?, isDigit c = false := by
    intro c hc
    rw [← hmiddle] at hc
    split at hc
    · exact (htailHead c hc).1
    · obtain rfl : '.' = c := by simpa using hc
      rfl
  have hint : scanWhole (whole ++ middle) = some (whole, middle) := by
    obtain rfl | ⟨hne, hdigits, hzero⟩ := hwhole
    · rfl
    · exact scanWhole_digits hne hdigits hzero hmiddleHead
  have htext : NumberLiteral.text ⟨negative, whole, fraction, exponentNegative, exponent⟩ ++ rest =
      (if negative then ['-'] else []) ++ (whole ++ middle) := by
    rw [← hmiddle, ← htail, NumberLiteral.text]
    simp only [List.append_assoc]
  have hhead : ∀ c ∈ (whole ++ middle).head?, c ≠ '-' := by
    intro c hc
    obtain rfl | ⟨hne, hdigits, -⟩ := hwhole
    · obtain rfl : '0' = c := by simpa using hc
      decide
    · rw [List.head?_append_of_ne_nil _ hne] at hc
      rintro rfl
      exact absurd (hdigits _ (List.mem_of_mem_head? hc)) (by decide)
  rw [scanNumber, htext]
  cases negative with
  | true =>
    simp only [if_true, List.singleton_append, List.head?_cons, decide_true, List.drop_one,
      List.tail_cons, hint, hfrac, hexp]
  | false =>
    have hneg : ¬ (whole ++ middle).head? = some '-' := fun h => hhead '-' h rfl
    simp only [Bool.false_eq_true, if_false, List.nil_append, hneg, decide_false, hint, hfrac, hexp]

theorem NumberLiteral.wellFormed_of_digits {negative : Bool} {whole fraction : List Char}
    (hne : whole ≠ []) (hwhole : ∀ c ∈ whole, isDigit c = true)
    (hzero : ∀ c ∈ whole.head?, c ≠ '0') (hfraction : ∀ c ∈ fraction, isDigit c = true) :
    WellFormed ⟨negative, whole, fraction, false, []⟩ where
  whole := Or.inr ⟨hne, hwhole, hzero⟩
  fraction := hfraction
  exponent := fun _ hc => absurd hc List.not_mem_nil
  sign := fun _ => rfl

theorem natText_ne_nil (n : Nat) : natText n ≠ [] := by
  unfold natText
  split
  · exact List.cons_ne_nil _ _
  · next h => exact digitsText_ne_nil h

namespace Decimal

variable (d : Decimal)

theorem literal_wellFormed : d.literal.WellFormed := by
  have hdigits : ∀ c ∈ digitsText d.digits, isDigit c = true :=
    fun c hc => isDigit_of_mem_digitsText hc
  have hzeros : ∀ z, ∀ c ∈ List.replicate z '0', isDigit c = true := by
    intro z c hc
    rw [List.eq_of_mem_replicate hc]
    rfl
  have htake : ∀ n, ∀ c ∈ (digitsText d.digits).take n, isDigit c = true :=
    fun n c hc => hdigits c (List.mem_of_mem_take hc)
  have hdrop : ∀ n, ∀ c ∈ (digitsText d.digits).drop n, isDigit c = true :=
    fun n c hc => hdigits c (List.mem_of_mem_drop hc)
  have hhead : ∀ n, ∀ c ∈ ((digitsText d.digits).take n).head?, c ≠ '0' := by
    intro n c hc
    cases n with
    | zero => simp at hc
    | succ n =>
      rw [List.head?_take, if_neg (by omega)] at hc
      exact head_digitsText hc
  unfold literal
  split
  · exact ⟨Or.inl rfl, nofun, nofun, fun _ => rfl⟩
  · next hzero =>
    have hne : digitsText d.digits ≠ [] := digitsText_ne_nil hzero
    have hlength : 0 < (digitsText d.digits).length := List.length_pos_iff.2 hne
    dsimp only
    split
    · refine NumberLiteral.wellFormed_of_digits (by simp [hne]) (fun c hc => ?_) (fun c hc => ?_)
        nofun
      · exact (List.mem_append.1 hc).elim (hdigits c) (hzeros _ c)
      · rw [List.head?_append_of_ne_nil _ hne] at hc
        exact head_digitsText hc
    · split
      · next hn =>
        refine NumberLiteral.wellFormed_of_digits ?_ (htake _) (hhead _) (hdrop _)
        rw [ne_eq, List.take_eq_nil_iff, not_or]
        exact ⟨by omega, hne⟩
      · split
        · exact ⟨Or.inl rfl, fun c hc => (List.mem_append.1 hc).elim (hzeros _ c) (hdigits c),
            nofun, fun _ => rfl⟩
        · refine ⟨Or.inr ⟨?_, htake 1, hhead 1⟩, hdrop 1, fun c hc => isDigit_of_mem_natText hc,
            fun h => absurd h (natText_ne_nil _)⟩
          rw [ne_eq, List.take_eq_nil_iff, not_or]
          exact ⟨by omega, hne⟩

theorem literal_of_zero (h : d.digits = 0) : d.literal = ⟨false, ['0'], [], false, []⟩ := by
  unfold literal
  rw [if_pos h]

/-- The literal of a number that is not zero names this number. -/
theorem literal_scaled (h : d.digits ≠ 0) :
    ofScaled d.literal.negative (readDigits (d.literal.whole ++ d.literal.fraction))
      d.literal.scale = d := by
  have hne : digitsText d.digits ≠ [] := digitsText_ne_nil h
  have hlength : 0 < (digitsText d.digits).length := List.length_pos_iff.2 hne
  have hplain : ∀ e, e = d.exponent → ofScaled d.negative d.digits e = d := by
    rintro e rfl
    have := ofScaled_mul_pow d h 0
    simpa using this
  unfold literal
  dsimp only
  rw [if_neg h]
  split
  · next hn =>
    have hz : d.exponent = ((d.exponent + (digitsText d.digits).length -
        (digitsText d.digits).length).toNat : Int) := by omega
    simp only [NumberLiteral.scale, List.append_nil, readDigits_append, readDigits_zeros,
      readDigits_digitsText, List.length_replicate, Nat.add_zero]
    have hscaled := ofScaled_mul_pow d h (d.exponent + (digitsText d.digits).length -
      (digitsText d.digits).length).toNat
    rwa [← hz, Int.sub_self] at hscaled
  · split
    · next hn =>
      simp only [NumberLiteral.scale, List.take_append_drop, readDigits_digitsText]
      refine hplain _ ?_
      rw [List.length_drop]
      simp [readDigits]
      omega
    · split
      · next hn =>
        have hread : ∀ z, readDigits (['0'] ++ (List.replicate z '0' ++ digitsText d.digits)) =
            d.digits := by
          intro z
          rw [readDigits_append, readDigits_append, readDigits_zeros, readDigits_digitsText]
          simp [readDigits, digitValue]
        simp only [NumberLiteral.scale, hread]
        refine hplain _ ?_
        rw [List.length_append, List.length_replicate]
        simp [readDigits]
        omega
      · next hn =>
        simp only [NumberLiteral.scale, List.take_append_drop, readDigits_digitsText,
          readDigits_natText]
        refine hplain _ ?_
        rw [List.length_drop]
        by_cases hsign : d.exponent + (digitsText d.digits).length - 1 < 0
        · simp only [hsign, decide_true, if_true]
          omega
        · simp only [hsign, decide_false, Bool.false_eq_true, if_false]
          omega

/-- Not `-0`, which prints as `0`. -/
def NotNegativeZero : Prop := d.digits = 0 → d.negative = false

theorem literal_value (hrange : d.InRange) :
    d.literal.value = .finite d hrange ↔ d.NotNegativeZero := by
  by_cases h : d.digits = 0
  · rw [literal_of_zero d h]
    obtain ⟨negative, digits, exponent, hnormal⟩ := d
    obtain rfl : digits = 0 := h
    obtain rfl : exponent = 0 := (hnormal.resolve_left fun hne => hne rfl).2
    have hvalue : NumberLiteral.value ⟨false, ['0'], [], false, []⟩ = JsNumber.zero false := by
      decide
    rw [hvalue]
    cases negative with
    | false => exact iff_of_true rfl fun _ => rfl
    | true =>
      refine iff_of_false (fun heq => ?_) fun hnot => Bool.noConfusion (hnot rfl)
      have hsign := congrArg (fun n : JsNumber => match n with
        | .finite d _ => d.negative
        | .infinity b => b) heq
      cases hsign
  · refine iff_of_true ?_ fun hzero => absurd hzero h
    rw [NumberLiteral.value, literal_scaled d h, JsNumber.ofDecimal_of_inRange hrange]

end Decimal

/-! ## The lengths of number texts -/

theorem length_digitsText_le {k : Nat} (h : n < 10 ^ k) : (digitsText n).length ≤ k := by
  rw [digitsText, List.length_map, List.length_reverse]
  exact (Nat.digits_length_le_iff (by omega) n).2 h

theorem length_natText_le {k : Nat} (hk : 1 ≤ k) (h : n < 10 ^ k) : (natText n).length ≤ k := by
  unfold natText
  split
  · exact hk
  · exact length_digitsText_le h

theorem NumberLiteral.length_text_le (l : NumberLiteral) :
    l.text.length ≤ 4 + l.whole.length + l.fraction.length + l.exponent.length := by
  unfold text
  simp only [List.length_append]
  have hsign : (if l.negative then ['-'] else []).length ≤ 1 := by
    split <;> simp
  have hfraction : (if l.fraction = [] then [] else '.' :: l.fraction).length ≤
      1 + l.fraction.length := by
    split
    · exact Nat.zero_le _
    · rw [List.length_cons]
      omega
  have hexponent : (if l.exponent = [] then []
      else 'e' :: (if l.exponentNegative then '-' else '+') :: l.exponent).length ≤
      2 + l.exponent.length := by
    split
    · exact Nat.zero_le _
    · rw [List.length_cons, List.length_cons]
      omega
  omega

namespace Decimal

theorem two_pow_le {n b : Nat} (h : n ≤ 3 * b) : 2 ^ n ≤ 10 ^ b := by
  calc 2 ^ n ≤ 2 ^ (3 * b) := Nat.pow_le_pow_right (by omega) h
    _ = (2 ^ 3) ^ b := pow_mul _ _ _
    _ ≤ 10 ^ b := Nat.pow_le_pow_left (by omega) b

theorem mul_two_pow_le {m a n b k : Nat} (hm : m ≤ 10 ^ a) (hn : n ≤ 3 * b) (hk : a + b ≤ k) :
    m * 2 ^ n ≤ 10 ^ k := by
  calc m * 2 ^ n ≤ 10 ^ a * 10 ^ b := Nat.mul_le_mul hm (two_pow_le hn)
    _ = 10 ^ (a + b) := (pow_add _ _ _).symm
    _ ≤ 10 ^ k := Nat.pow_le_pow_right (by omega) hk

theorem overflow_le : overflow ≤ 10 ^ 342 := by
  have hpow := @two_pow_le 1024 342 (by omega)
  rw [overflow]
  exact tsub_le_self.trans hpow

theorem natAbs_exponent_le {d : Decimal} (hrange : d.InRange) (hdigits : d.digits < 10 ^ 17) :
    d.exponent.natAbs ≤ 376 := by
  by_cases hzero : d.digits = 0
  · have := (d.normal.resolve_left fun h => h (by rw [hzero])).2
    omega
  obtain ⟨hlarge, hsmall⟩ := hrange.resolve_left hzero
  rcases Int.le_total 0 d.exponent with he | he
  · rw [TooLarge, if_pos he, Nat.not_le] at hlarge
    have hpow : 10 ^ d.exponent.toNat < 10 ^ 342 :=
      calc 10 ^ d.exponent.toNat ≤ d.digits * 10 ^ d.exponent.toNat :=
            Nat.le_mul_of_pos_left _ (Nat.pos_of_ne_zero hzero)
        _ < overflow := hlarge
        _ ≤ 10 ^ 342 := overflow_le
    have := (Nat.pow_lt_pow_iff_right (by omega)).1 hpow
    omega
  · by_contra hfar
    exact hsmall ⟨by omega, @mul_two_pow_le d.digits 17 1075 359 (-d.exponent).toNat hdigits.le
      (by omega) (by omega)⟩

theorem length_text_le {d : Decimal} (hrange : d.InRange) (hdigits : d.digits < 10 ^ 17) :
    d.text.length ≤ 32 := by
  have hexponent := natAbs_exponent_le hrange hdigits
  have hlength := length_digitsText_le hdigits
  refine (NumberLiteral.length_text_le _).trans ?_
  unfold literal
  dsimp only
  split
  · simp
  · split
    · simp only [List.length_append, List.length_replicate, List.length_nil]
      omega
    · split
      · simp only [List.length_take, List.length_drop, List.length_nil]
        omega
      · split
        · simp only [List.length_append, List.length_replicate, List.length_cons, List.length_nil]
          omega
        · have hnat : (natText (d.exponent + (digitsText d.digits).length - 1).natAbs).length ≤ 3 :=
            length_natText_le (by omega) (by omega)
          simp only [List.length_take, List.length_drop]
          omega

end Decimal

end Lib
