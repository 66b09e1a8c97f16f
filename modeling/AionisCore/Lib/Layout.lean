import Mathlib.Data.List.Basic
import Mathlib.Algebra.GroupWithZero.Nat

/-!
# Pieces of a text

Pieces of a text, each with the offsets at which it is said to lie. The letters have widths.
-/

namespace Lib

variable {α : Type}

/-- The piece and its offsets. -/
structure Piece (α : Type) where
  raw : List α
  start : Nat
  stop : Nat

namespace Piece

variable {width : α → Nat} {p : Piece α} {ps qs : List (Piece α)}
  {before gap text text' gaps gaps' : List α}

def size (width : α → Nat) (text : List α) : Nat := (text.map width).sum

@[simp] theorem size_nil : size width [] = 0 := rfl

@[simp] theorem size_cons (a : α) (text : List α) :
    size width (a :: text) = width a + size width text := by
  rw [size, List.map_cons, List.sum_cons, size]

@[simp] theorem size_append (text text' : List α) :
    size width (text ++ text') = size width text + size width text' := by
  rw [size, List.map_append, List.sum_append, size, size]

/-- The piece lies behind some text. -/
structure Behind (width : α → Nat) (p : Piece α) (before : List α) : Prop where
  start : p.start = size width before
  stop : p.stop = size width before + size width p.raw
  ne_nil : p.raw ≠ []

/-- The pieces lie one behind another in the text that follows `before`, and `gaps` is what no
piece has. -/
inductive Laid (width : α → Nat) : List (Piece α) → List α → List α → List α → Prop
  | nil (before gap : List α) : Laid width [] before gap gap
  | cons {p : Piece α} {ps : List (Piece α)} {before text gaps : List α} (gap : List α)
      (behind : p.Behind width (before ++ gap))
      (rest : Laid width ps (before ++ gap ++ p.raw) text gaps) :
      Laid width (p :: ps) before (gap ++ (p.raw ++ text)) (gap ++ gaps)

/-- The letters that some piece covers. -/
def Covers (width : α → Nat) (ps : List (Piece α)) (before : List α) (a : α) : Prop :=
  ∃ p ∈ ps, p.start ≤ size width before ∧ size width before + width a ≤ p.stop

namespace Laid

theorem skip (gap : List α) (h : Laid width ps (before ++ gap) text gaps) :
    Laid width ps before (gap ++ text) (gap ++ gaps) := by
  cases h with
  | nil => exact .nil _ _
  | cons gap' behind rest =>
    rw [← List.append_assoc, ← List.append_assoc gap]
    rw [List.append_assoc before] at behind rest
    exact .cons _ behind rest

theorem append (h : Laid width ps before text gaps)
    (h' : Laid width qs (before ++ text) text' gaps') :
    Laid width (ps ++ qs) before (text ++ text') (gaps ++ gaps') := by
  induction h with
  | nil before gap => exact h'.skip gap
  | cons gap behind rest ih =>
    rw [List.append_assoc, List.append_assoc, List.append_assoc gap]
    refine .cons gap behind (ih ?_)
    simpa [List.append_assoc] using h'

section Positive

variable (hwidth : ∀ a, 0 < width a)

include hwidth

theorem size_pos (hne : text ≠ []) : 0 < size width text := by
  obtain ⟨a, as, rfl⟩ := List.exists_cons_of_ne_nil hne
  rw [size_cons]
  exact Nat.add_pos_left (hwidth a) _

theorem starts (h : Laid width ps before text gaps) :
    ∀ p ∈ ps, size width before ≤ p.start ∧ p.start < p.stop := by
  induction h with
  | nil => simp
  | cons gap behind rest ih =>
    have hpos := size_pos hwidth behind.ne_nil
    obtain ⟨hstart, hstop, -⟩ := behind
    intro q hq
    rcases List.mem_cons.1 hq with rfl | hq
    · rw [size_append] at hstart hstop
      omega
    · have hrest := ih q hq
      rw [size_append, size_append] at hrest
      omega

theorem pairwise (h : Laid width ps before text gaps) :
    ps.Pairwise fun p q => p.stop ≤ q.start := by
  induction h with
  | nil => exact .nil
  | cons gap behind rest ih =>
    refine .cons (fun q hq => ?_) ih
    rw [behind.stop, ← size_append]
    exact (starts hwidth rest q hq).1

end Positive

/-- Each piece is what the text has at its offsets. -/
theorem slice (h : Laid width ps before text gaps) :
    ∀ p ∈ ps, ∃ front after, before ++ text = front ++ p.raw ++ after ∧ p.Behind width front := by
  induction h with
  | nil => simp
  | @cons p ps before text gaps gap behind rest ih =>
    intro q hq
    rcases List.mem_cons.1 hq with rfl | hq
    · exact ⟨before ++ gap, text, by simp, behind⟩
    · obtain ⟨front, after, heq, hbehind⟩ := ih q hq
      exact ⟨front, after, by simpa using heq, hbehind⟩

/-- A letter behind or within a text that is cut in two. -/
theorem cut {as bs front after : List α} {a : α} (h : as ++ bs = front ++ a :: after) :
    (∃ more, as = front ++ a :: more) ∨ ∃ more, front = as ++ more ∧ bs = more ++ a :: after := by
  rcases List.append_eq_append_iff.1 h with ⟨more, rfl, hbs⟩ | ⟨more, rfl, hbs⟩
  · exact .inr ⟨more, rfl, hbs⟩
  · cases more with
    | nil => exact .inr ⟨[], by simp, hbs.symm⟩
    | cons b more =>
      obtain ⟨rfl, -⟩ := List.cons.inj hbs
      exact .inl ⟨more, rfl⟩

/-- The pieces cover the letters with a property just if no gap has one of them. -/
theorem covers_iff (hwidth : ∀ a, 0 < width a) (black : α → Prop)
    (h : Laid width ps before text gaps) :
    (∀ front a after, text = front ++ a :: after → black a → Covers width ps (before ++ front) a) ↔
      ∀ a ∈ gaps, ¬ black a := by
  induction h with
  | nil before gap =>
    refine ⟨fun hcovers a ha hblack => ?_, fun hgap front a after heq hblack => ?_⟩
    · obtain ⟨front, after, rfl⟩ := List.append_of_mem ha
      obtain ⟨p, hp, -⟩ := hcovers front a after rfl hblack
      cases hp
    · exact absurd hblack (hgap a (heq ▸ by simp))
  | @cons p ps before text gaps gap behind rest ih =>
    have hlater := starts hwidth rest
    rw [List.forall_mem_append, ← ih]
    refine ⟨fun hcovers => ⟨fun a ha hblack => ?_, fun front a after heq hblack => ?_⟩,
      fun ⟨hgap, hrest⟩ front a after heq hblack => ?_⟩
    · -- a letter of the gap ends where the pieces start
      obtain ⟨front, after, rfl⟩ := List.append_of_mem ha
      obtain ⟨q, hq, hstart, -⟩ := hcovers front a (after ++ (p.raw ++ text)) (by simp) hblack
      have hpos := hwidth a
      have hbehind := behind.start
      rcases List.mem_cons.1 hq with rfl | hq
      · simp only [size_append, size_cons] at hstart hbehind
        omega
      · have hq := (hlater q hq).1
        simp only [size_append, size_cons] at hstart hq
        omega
    · obtain ⟨q, hq, hstart, hstop⟩ :=
        hcovers (gap ++ (p.raw ++ front)) a after (by simp [heq]) hblack
      rcases List.mem_cons.1 hq with rfl | hq
      · -- the first piece ends before the letter
        have hpos := hwidth a
        have hbehind := behind.stop
        simp only [size_append] at hstop hbehind
        omega
      · refine ⟨q, hq, ?_, ?_⟩
        · simpa [Nat.add_assoc] using hstart
        · simpa [Nat.add_assoc] using hstop
    · rcases cut heq with ⟨more, hmore⟩ | ⟨behindGap, rfl, hpiece⟩
      · exact absurd hblack (hgap a (hmore ▸ by simp))
      · rcases cut hpiece with ⟨more, hmore⟩ | ⟨later, rfl, htext⟩
        · refine ⟨p, List.mem_cons_self, ?_, ?_⟩
          · rw [behind.start]
            simp only [size_append]
            omega
          · rw [behind.stop, hmore]
            simp only [size_append, size_cons]
            omega
        · obtain ⟨q, hq, hcovered⟩ := hrest later a after htext hblack
          refine ⟨q, List.mem_cons_of_mem p hq, ?_⟩
          simpa [List.append_assoc] using hcovered

end Laid

end Piece

end Lib
