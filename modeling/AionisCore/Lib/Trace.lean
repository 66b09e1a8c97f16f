import AionisCore.Lib.Run
import Mathlib.Algebra.Order.Group.Nat
import Mathlib.Order.Basic

/-!
# Infinite runs

At every time of a trace one step is taken, or none. `exists_first` finds the first time of
something that is bound to happen, and `leadsTo_of_rank` is the induction on a rank.
-/

namespace Lib

variable {S I : Type}

structure Trace (step : S → I → Option S) where
  state : Nat → S
  event : Nat → Option I
  next : ∀ n, match event n with
    | none => state (n + 1) = state n
    | some i => step (state n) i = some (state (n + 1))

namespace Trace

variable {step : S → I → Option S} (σ : Trace step)

/-- From every time of `P` on there is a time of `Q`. -/
def LeadsTo (P Q : S → Prop) : Prop := ∀ n, P (σ.state n) → ∃ m, n ≤ m ∧ Q (σ.state m)

variable {σ}

/-- Every step of the trace meets the condition. -/
def Always (σ : Trace step) (C : S → I → Prop) : Prop :=
  ∀ n i, σ.event n = some i → C (σ.state n) i

variable {P : S → Prop}

/-- What the steps that meet the condition keep is kept from one time to a later one. -/
theorem Always.stable {C : S → I → Prop} (h : σ.Always C)
    (hstep : ∀ s i s', P s → C s i → step s i = some s' → P s') {n m : Nat} (hn : P (σ.state n))
    (hnm : n ≤ m) : P (σ.state m) := by
  induction m, hnm using Nat.le_induction with
  | base => exact hn
  | succ m _ ih =>
    have hnext := σ.next m
    split at hnext
    · rw [hnext]
      exact ih
    · next i hi => exact hstep _ i _ ih (h m i hi) hnext

/-- What a step keeps is kept from one time to a later one. -/
theorem stable (hstep : ∀ s i s', P s → step s i = some s' → P s') {n m : Nat} (hn : P (σ.state n))
    (h : n ≤ m) : P (σ.state m) :=
  Always.stable (C := fun _ _ => True) (fun _ _ _ => trivial)
    (fun s i s' hs _ => hstep s i s' hs) hn h

/-- What holds first and every step preserves holds at every time. -/
theorem invariant (h0 : P (σ.state 0)) (hstep : ∀ s i s', P s → step s i = some s' → P s')
    (n : Nat) : P (σ.state n) :=
  stable hstep h0 (Nat.zero_le n)

/-- What holds until `A` happens still holds when it does. -/
theorem exists_first {A P : Nat → Prop} (hkeep : ∀ k, P k → ¬ A k → P (k + 1)) {n m : Nat}
    (hn : P n) (hm : n ≤ m) (hA : A m) : ∃ k, n ≤ k ∧ k ≤ m ∧ A k ∧ P k := by
  induction h : m - n generalizing n with
  | zero =>
    obtain rfl : n = m := by omega
    exact ⟨n, le_rfl, le_rfl, hA, hn⟩
  | succ d ih =>
    by_cases hAn : A n
    · exact ⟨n, le_rfl, hm, hAn, hn⟩
    · obtain ⟨k, hk, hkm, hAk, hPk⟩ := ih (hkeep n hn hAn) (by omega) (by omega)
      exact ⟨k, by omega, hkm, hAk, hPk⟩

/-- A rank that goes down as long as `Q` does not come. -/
theorem leadsTo_of_rank {Q : S → Prop} (rank : S → Nat) (h : ∀ n, P (σ.state n) → ∃ m, n ≤ m ∧
      (Q (σ.state m) ∨ P (σ.state m) ∧ rank (σ.state m) < rank (σ.state n))) : σ.LeadsTo P Q := by
  intro n hn
  induction hr : rank (σ.state n) using Nat.strong_induction_on generalizing n with
  | _ r ih =>
    obtain ⟨m, hnm, hQ | ⟨hP, hlt⟩⟩ := h n hn
    · exact ⟨m, hnm, hQ⟩
    · obtain ⟨k, hmk, hQ⟩ := ih _ (hr ▸ hlt) m hP rfl
      exact ⟨k, le_trans hnm hmk, hQ⟩

/-! ## Finite runs -/

theorem isSome_run_take {s : S} {is : List I} (h : (run step s is).isSome) (n : Nat) :
    (run step s (is.take n)).isSome := by
  obtain ⟨t, ht⟩ := Option.isSome_iff_exists.1 h
  rw [← List.take_append_drop n is] at ht
  obtain ⟨u, hu, -⟩ := run_append.1 ht
  rw [hu]
  rfl

/-- A run after which nothing happens. -/
def ofRun (s : S) (is : List I) (h : (run step s is).isSome) : Trace step where
  state n := (run step s (is.take n)).getD s
  event n := is[n]?
  next := by
    intro n
    obtain ⟨u, hu⟩ := Option.isSome_iff_exists.1 (isSome_run_take h n)
    split
    · next hnone =>
      have hle : is.length ≤ n := List.getElem?_eq_none_iff.1 hnone
      rw [List.take_of_length_le hle, List.take_of_length_le (Nat.le_succ_of_le hle)]
    · next i hi =>
      obtain ⟨t, ht⟩ := Option.isSome_iff_exists.1 (isSome_run_take h (n + 1))
      rw [List.take_add_one, hi] at ht ⊢
      obtain ⟨v, hv, hstep⟩ := run_append.1 ht
      rw [Option.toList_some] at ht ⊢
      obtain ⟨w, hw, hnil⟩ := run_cons.1 hstep
      obtain rfl := Option.some.inj hnil
      rw [ht, hv]
      exact hw

theorem always_ofRun {C : S → I → Prop} {s : S} {is : List I} {h : (run step s is).isSome}
    (hC : Along step C s is) : (ofRun s is h).Always C := by
  intro n i hi
  have hi : is[n]? = some i := hi
  obtain ⟨u, hu⟩ := Option.isSome_iff_exists.1 (isSome_run_take h n)
  have hstate : (ofRun s is h).state n = u := by
    show (run step s (is.take n)).getD s = u
    rw [hu]
    rfl
  rw [← List.take_append_drop n is] at hC
  have hrest := along_append hC hu
  rw [List.drop_eq_getElem?_toList_append, hi] at hrest
  rw [hstate]
  exact hrest.1

end Trace

end Lib
