import Mathlib.Algebra.GroupWithZero.Nat
import Mathlib.Data.List.DropRight
import Mathlib.Data.List.Sort

/-!
# JavaScript strings

`trim` removes the white space and line terminators of ECMAScript from both
ends, `length` counts UTF-16 code units, and `take n` is `slice(0, n)`. `sortStrings`
compares code units, and `uniqueStrings` collects the distinct non-blank strings of a list.
-/

namespace Lib.JsString

/-- `WhiteSpace` and `LineTerminator` of ECMAScript. -/
def isWhite (c : Char) : Bool :=
  c.toNat ∈ [0x9, 0xA, 0xB, 0xC, 0xD, 0x20, 0xA0, 0x1680, 0x2028, 0x2029, 0x202F, 0x205F,
    0x3000, 0xFEFF] || (0x2000 ≤ c.toNat && c.toNat ≤ 0x200A)

variable {c : Char}

theorem isWhite_of_printable (hlo : 0x21 ≤ c.toNat) (hhi : c.toNat ≤ 0x7E) : isWhite c = false := by
  rw [isWhite, Bool.or_eq_false_iff]
  simp
  omega

theorem toNat_of_isAlphanum (h : c.isAlphanum = true) : 0x30 ≤ c.toNat ∧ c.toNat ≤ 0x7A := by
  have hrange : ∀ lo hi : UInt32, (decide (lo ≤ c.val) && decide (c.val ≤ hi)) = true →
      lo.toNat ≤ c.toNat ∧ c.toNat ≤ hi.toNat := fun lo hi h =>
    have h := Bool.and_eq_true_iff.1 h
    ⟨of_decide_eq_true h.1, of_decide_eq_true h.2⟩
  obtain h | h := Bool.or_eq_true_iff.1 h
  · obtain h | h := Bool.or_eq_true_iff.1 h
    · have hupper := of_decide_eq_true h
      exact ⟨Nat.le_trans (by decide) hupper.1, Nat.le_trans hupper.2 (by decide)⟩
    · have hlower := hrange 97 122 h
      exact ⟨Nat.le_trans (by decide) hlower.1, Nat.le_trans hlower.2 (by decide)⟩
  · have hdigit := hrange 48 57 h
    exact ⟨Nat.le_trans (by decide) hdigit.1, Nat.le_trans hdigit.2 (by decide)⟩

theorem isWhite_of_isAlphanum (h : c.isAlphanum = true) : isWhite c = false := by
  have hrange := toNat_of_isAlphanum h
  exact isWhite_of_printable (by omega) (by omega)

def trimChars (l : List Char) : List Char := (l.dropWhile isWhite).rdropWhile isWhite

def trim (s : String) : String := String.ofList (trimChars s.toList)

def width (c : Char) : Nat := if c.toNat ≤ 0xFFFF then 1 else 2

def length (s : String) : Nat := (s.toList.map width).sum

/-- The longest prefix of at most `n` code units. -/
def takeChars : Nat → List Char → List Char
  | _, [] => []
  | n, c :: cs => if width c ≤ n then c :: takeChars (n - width c) cs else []

def take (n : Nat) (s : String) : String := String.ofList (takeChars n s.toList)

/-- Neither end is white space. -/
def Trimmed (s : String) : Prop := trim s = s

instance (s : String) : Decidable (Trimmed s) := inferInstanceAs (Decidable (_ = _))

variable {l : List Char}

theorem trimChars_eq_self (hh : ∀ c ∈ l.head?, isWhite c = false)
    (hl : ∀ c ∈ l.getLast?, isWhite c = false) : trimChars l = l := by
  cases l with
  | nil => rfl
  | cons c cs =>
    have hc : isWhite c = false := hh c rfl
    rw [trimChars, List.dropWhile_cons_of_neg (by simp [hc]), List.rdropWhile_eq_self_iff]
    intro hne
    rw [hl _ (List.getLast?_eq_some_getLast hne)]
    simp

theorem head?_dropWhile (h : c ∈ (l.dropWhile isWhite).head?) : isWhite c = false := by
  induction l with
  | nil => simp at h
  | cons d ds ih =>
    by_cases hd : isWhite d = true
    · rw [List.dropWhile_cons_of_pos hd] at h
      exact ih h
    · rw [List.dropWhile_cons_of_neg hd] at h
      obtain rfl : d = c := by simpa using h
      simpa using hd

theorem head?_mono {m : List Char} (h : l <+: m) (hc : c ∈ l.head?) : c ∈ m.head? := by
  obtain ⟨t, rfl⟩ := h
  cases l with
  | nil => simp at hc
  | cons d ds => simpa using hc

theorem trimChars_ends (l : List Char) :
    (∀ c ∈ (trimChars l).head?, isWhite c = false) ∧
      ∀ c ∈ (trimChars l).getLast?, isWhite c = false := by
  constructor
  · intro c hc
    exact head?_dropWhile (head?_mono (List.rdropWhile_prefix _ _) hc)
  · intro c hc
    have hne : trimChars l ≠ [] := by
      intro h
      simp [h] at hc
    have hlast := List.rdropWhile_last_not isWhite (l.dropWhile isWhite) hne
    rw [List.getLast?_eq_some_getLast hne] at hc
    obtain rfl := Option.some.inj hc
    simpa [trimChars] using hlast

theorem trimChars_trimChars (l : List Char) : trimChars (trimChars l) = trimChars l :=
  trimChars_eq_self (trimChars_ends l).1 (trimChars_ends l).2

@[simp] theorem trim_trim (s : String) : trim (trim s) = trim s := by
  simp [trim, trimChars_trimChars]

theorem trimmed_trim (s : String) : Trimmed (trim s) := trim_trim s

variable {s : String}

/-- A trimmed non-empty string stays trimmed behind a prefix that starts with a visible
character. -/
theorem Trimmed.append {p : String} {cs : List Char} (hp : p.toList = c :: cs)
    (hc : isWhite c = false) (hs : Trimmed s) (hne : s ≠ "") : Trimmed (p ++ s) := by
  have hs' : trimChars s.toList = s.toList := by
    have := congrArg String.toList hs
    simpa [trim] using this
  have hne' : s.toList ≠ [] := by simpa using hne
  have hends := (trimChars_ends s.toList).2
  rw [hs'] at hends
  unfold Trimmed trim
  rw [String.toList_append, trimChars_eq_self, ← String.toList_append, String.ofList_toList]
  · intro d hd
    rw [hp] at hd
    obtain rfl : c = d := by simpa using hd
    exact hc
  · intro d hd
    rw [List.getLast?_append_of_ne_nil _ hne'] at hd
    exact hends d hd

theorem mem_dropWhile_isWhite (h : c ∈ l) (hc : isWhite c = false) : c ∈ l.dropWhile isWhite := by
  rw [← List.takeWhile_append_dropWhile (p := isWhite) (l := l), List.mem_append] at h
  rcases h with h | h
  · rw [List.mem_takeWhile_imp h] at hc
    cases hc
  · exact h

theorem mem_trim (h : c ∈ s.toList) (hc : isWhite c = false) : c ∈ (trim s).toList := by
  rw [trim, String.toList_ofList, trimChars, List.rdropWhile, List.mem_reverse]
  exact mem_dropWhile_isWhite (List.mem_reverse.2 (mem_dropWhile_isWhite h hc)) hc

theorem trimmed_of_visible (h : ∀ c ∈ s.toList, isWhite c = false) : Trimmed s := by
  unfold Trimmed trim
  rw [trimChars_eq_self (fun c hc => h c (List.mem_of_mem_head? hc))
    (fun c hc => h c (List.mem_of_mem_getLast? hc)), String.ofList_toList]

@[simp] theorem trim_empty : trim "" = "" := rfl

@[simp] theorem length_empty : length "" = 0 := rfl

@[simp] theorem length_append (s t : String) : length (s ++ t) = length s + length t := by
  simp [length]

theorem length_take_le (n : Nat) (s : String) : length (take n s) ≤ n := by
  have hchars : ∀ (l : List Char) (n : Nat), ((takeChars n l).map width).sum ≤ n := by
    intro l
    induction l with
    | nil => simp [takeChars]
    | cons c cs ih =>
      intro n
      rw [takeChars]
      split
      · next h =>
        have := ih (n - width c)
        rw [List.map_cons, List.sum_cons]
        omega
      · simp
  simpa [length, take] using hchars s.toList n

theorem sum_width_le {m : List Char} (h : l.Sublist m) : (l.map width).sum ≤ (m.map width).sum := by
  induction h with
  | slnil => exact Nat.le_refl _
  | cons c _ ih =>
    rw [List.map_cons, List.sum_cons]
    omega
  | cons_cons c _ ih =>
    rw [List.map_cons, List.map_cons, List.sum_cons, List.sum_cons]
    omega

theorem length_trim_le (s : String) : length (trim s) ≤ length s := by
  have h : (trimChars s.toList).Sublist s.toList :=
    (List.rdropWhile_prefix _ _).sublist.trans (List.dropWhile_sublist _)
  simpa [length, trim] using sum_width_le h

theorem one_le_length (h : s ≠ "") : 1 ≤ length s := by
  have hne : s.toList ≠ [] := by simpa using h
  unfold length
  cases hs : s.toList with
  | nil => exact absurd hs hne
  | cons c cs =>
    have hw : 1 ≤ width c := by
      unfold width
      split <;> omega
    rw [List.map_cons, List.sum_cons]
    omega

/-- The code units of a string. -/
def units (s : String) : List Nat :=
  s.toList.flatMap fun c =>
    if c.toNat ≤ 0xFFFF then [c.toNat]
    else [0xD800 + (c.toNat - 0x10000) / 0x400, 0xDC00 + (c.toNat - 0x10000) % 0x400]

/-- `xs.sort()`. -/
def sortStrings (xs : List String) : List String :=
  xs.insertionSort fun s t => ¬ units t < units s

theorem sortStrings_perm (xs : List String) : (sortStrings xs).Perm xs :=
  List.perm_insertionSort _ _

/-- The distinct non-blank strings, trimmed, in order of first occurrence. -/
def distinctStrings (values : List String) : List String :=
  ((values.map trim).filter (· ≠ "")).eraseDups

def uniqueStrings (values : List String) (limit : Nat) : List String :=
  (distinctStrings values).take limit

theorem mem_distinctStrings {x : String} {values : List String} :
    x ∈ distinctStrings values ↔ (∃ y ∈ values, trim y = x) ∧ x ≠ "" := by
  simp [distinctStrings, List.mem_eraseDups]

variable {n : Nat}

theorem mem_uniqueStrings {x : String} {values : List String} (h : x ∈ uniqueStrings values n) :
    (∃ y ∈ values, trim y = x) ∧ x ≠ "" :=
  mem_distinctStrings.1 (List.mem_of_mem_take h)

/-- A string that `uniqueStrings` leaves as it is. -/
def Plain (s : String) : Prop := Trimmed s ∧ s ≠ ""

instance (s : String) : Decidable (Plain s) := inferInstanceAs (Decidable (_ ∧ _))

variable {xs : List String}

theorem distinctStrings_of_plain (h : ∀ x ∈ xs, Plain x) : distinctStrings xs = xs.eraseDups := by
  have hmap : xs.map trim = xs := by
    rw [List.map_congr_left fun x hx => (h x hx).1, List.map_id']
  have hfilter : xs.filter (· ≠ "") = xs :=
    List.filter_eq_self.2 fun x hx => by simpa using (h x hx).2
  rw [distinctStrings, hmap, hfilter]

theorem eraseDups_of_nodup (h : xs.Nodup) : xs.eraseDups = xs := by
  induction xs with
  | nil => rfl
  | cons x xs ih =>
    obtain ⟨hx, hxs⟩ := List.nodup_cons.1 h
    have hfilter : xs.filter (fun y => !y == x) = xs := by
      refine List.filter_eq_self.2 fun y hy => ?_
      simp only [Bool.not_eq_true', beq_eq_false_iff_ne]
      exact fun heq => hx (heq ▸ hy)
    rw [List.eraseDups_cons, hfilter, ih hxs]

theorem nodup_eraseDups (xs : List String) : xs.eraseDups.Nodup := by
  induction hn : xs.length using Nat.strong_induction_on generalizing xs with
  | _ n ih =>
    cases xs with
    | nil => exact List.nodup_nil
    | cons x xs =>
      rw [List.eraseDups_cons, List.nodup_cons]
      constructor
      · intro hx
        have hx := (List.mem_filter.1 (List.mem_eraseDups.1 hx)).2
        simp only [beq_self_eq_true, Bool.not_true] at hx
        cases hx
      · have hle := List.length_filter_le (fun y => !y == x) xs
        rw [List.length_cons] at hn
        exact ih _ (by omega) _ rfl

theorem uniqueStrings_of_plain (h : ∀ x ∈ xs, Plain x) (hd : xs.Nodup) :
    uniqueStrings xs n = xs.take n := by
  rw [uniqueStrings, distinctStrings_of_plain h, eraseDups_of_nodup hd]

theorem uniqueStrings_concat {r : String} (h : ∀ x ∈ xs, Plain x) (hd : xs.Nodup)
    (hlen : xs.length ≤ n) (hr : Plain r) :
    uniqueStrings (xs ++ [r]) n = if r ∈ xs then xs else (xs ++ [r]).take n := by
  have hplain : ∀ x ∈ xs ++ [r], Plain x := by
    intro x hx
    rcases List.mem_append.1 hx with hx | hx
    · exact h x hx
    · exact List.mem_singleton.1 hx ▸ hr
  split
  · next hmem =>
    rw [uniqueStrings, distinctStrings_of_plain hplain, List.eraseDups_append,
      eraseDups_of_nodup hd]
    have hnil : [r].removeAll xs = [] := by simp [List.removeAll, hmem]
    rw [hnil, List.eraseDups_nil, List.append_nil, List.take_of_length_le hlen]
  · next hmem =>
    refine uniqueStrings_of_plain hplain (List.nodup_append.2 ⟨hd, by simp, ?_⟩)
    intro x hx y hy
    exact fun heq => hmem (List.mem_singleton.1 hy ▸ heq ▸ hx)

/-- Adding a string to the first `n` of a list counts only strings not in the list: one that
the cap dropped finds the kept strings at the cap. -/
theorem uniqueStrings_take_concat {r : String} (h : ∀ x ∈ xs, Plain x) (hd : xs.Nodup)
    (hr : Plain r) :
    uniqueStrings (xs.take n ++ [r]) n = if r ∈ xs then xs.take n else (xs ++ [r]).take n := by
  rw [uniqueStrings_concat (fun x hx => h x (List.mem_of_mem_take hx))
    (hd.sublist (List.take_sublist _ _)) (List.length_take_le _ _) hr]
  have hcap : n ≤ xs.length → (xs.take n ++ [r]).take n = xs.take n := by
    intro hn
    exact List.take_left' (by rw [List.length_take]; omega)
  split
  · next hmem => rw [if_pos (List.mem_of_mem_take hmem)]
  · next hmem =>
    by_cases hn : n ≤ xs.length
    · rw [hcap hn, List.take_append_of_le_length hn, ite_self]
    · rw [List.take_of_length_le (by omega : xs.length ≤ n)] at hmem ⊢
      rw [if_neg hmem]

end Lib.JsString
