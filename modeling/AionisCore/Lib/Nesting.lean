import Mathlib.Data.List.Basic

/-!
# Nested brackets

Sequences of brackets and items, and the scan that keeps a mark for every bracket that is open.
-/

namespace Lib

inductive Delimiter where
  | opening
  | closing
  /-- What is no bracket, and whether it marks the bracket it is directly in. -/
  | item (marks : Bool)
deriving DecidableEq

namespace Delimiter

variable {n m : Nat} {bs bs' : List Delimiter} {mark : Bool} {inner outer : List Bool}

/-- The number of brackets open behind a sequence, and `none` where one is closed that is not
open. -/
def nest : Nat → List Delimiter → Option Nat
  | n, [] => some n
  | n, .opening :: bs => nest (n + 1) bs
  | 0, .closing :: _ => none
  | n + 1, .closing :: bs => nest n bs
  | n, .item _ :: bs => nest n bs

/-- Every bracket in the sequence is closed in it. -/
def Paired (bs : List Delimiter) : Prop := nest 0 bs = some 0

instance : Decidable (Paired bs) := inferInstanceAs (Decidable (_ = _))

/-- The marks of the open brackets, innermost first. -/
def scan : List Bool → List Delimiter → List Bool
  | marks, [] => marks
  | marks, .opening :: bs => scan (false :: marks) bs
  | marks, .closing :: bs => scan marks.tail bs
  | marks, .item marked :: bs => scan (marks.modifyHead (· || marked)) bs

theorem nest_append (n : Nat) (bs bs' : List Delimiter) :
    nest n (bs ++ bs') = (nest n bs).bind fun m => nest m bs' := by
  induction bs generalizing n with
  | nil => rfl
  | cons b bs ih =>
    cases b with
    | opening => exact ih (n + 1)
    | item marks => exact ih n
    | closing =>
      cases n with
      | zero => rfl
      | succ n => exact ih n

theorem scan_append (marks : List Bool) (bs bs' : List Delimiter) :
    scan marks (bs ++ bs') = scan (scan marks bs) bs' := by
  induction bs generalizing marks with
  | nil => rfl
  | cons b bs ih => cases b <;> exact ih _

/-- A sequence that closes no more than it opens only touches the mark below it and the marks of
its own brackets, and takes no mark away. -/
theorem scan_of_nest (h : nest n bs = some m) (hinner : inner.length = n) :
    ∃ inner' mark', inner'.length = m ∧
      scan (inner ++ mark :: outer) bs = inner' ++ mark' :: outer ∧
      (mark = true → mark' = true) := by
  induction bs generalizing n inner mark with
  | nil =>
    obtain rfl := Option.some.inj h
    exact ⟨inner, mark, hinner, rfl, id⟩
  | cons b bs ih =>
    cases b with
    | opening => exact @ih (n + 1) mark (false :: inner) h (by simp [hinner])
    | item marks =>
      rw [scan]
      cases inner with
      | nil =>
        obtain ⟨inner', mark', hlength, hscan, hkept⟩ := @ih n (mark || marks) [] h hinner
        refine ⟨inner', mark', hlength, hscan, fun hmark => hkept ?_⟩
        rw [hmark, Bool.true_or]
      | cons i inner => exact @ih n mark ((i || marks) :: inner) h hinner
    | closing =>
      cases inner with
      | nil =>
        subst hinner
        cases h
      | cons i inner =>
        subst hinner
        exact @ih inner.length mark inner h rfl

/-- A mark made directly in a bracket is still there when the bracket is closed. -/
theorem scan_of_marked (hbefore : Paired bs) (hafter : Paired bs') :
    scan (mark :: outer) (bs ++ .item true :: bs') = true :: outer := by
  obtain ⟨inner, mark₁, hlength, hscan, -⟩ := @scan_of_nest 0 0 bs mark [] outer hbefore rfl
  rw [List.length_eq_zero_iff] at hlength
  subst hlength
  rw [scan_append, ← List.nil_append (mark :: outer), hscan, List.nil_append, scan,
    List.modifyHead_cons, Bool.or_true]
  obtain ⟨inner, mark₂, hlength, hscan', hkept⟩ :=
    @scan_of_nest 0 0 bs' true [] outer hafter rfl
  rw [List.length_eq_zero_iff] at hlength
  subst hlength
  rw [← List.nil_append (true :: outer), hscan', hkept rfl]

theorem closing_not_mem (h : nest 0 bs = some m) (hopen : .opening ∉ bs) : .closing ∉ bs := by
  induction bs with
  | nil => exact List.not_mem_nil
  | cons b bs ih =>
    obtain ⟨hb, hrest⟩ := not_or.1 (mt List.mem_cons.2 hopen)
    cases b with
    | opening => exact absurd rfl hb
    | closing => cases h
    | item marks => simpa using ih h hrest

end Delimiter

end Lib
