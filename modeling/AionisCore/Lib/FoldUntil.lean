import Mathlib.Data.List.Basic

/-!
# Loops that break

`foldUntil stop step` goes through a list as `foldl step` does, and breaks before the first
element at which `stop` holds.
-/

namespace Lib

variable {σ α : Type} {stop : σ → α → Bool} {step : σ → α → σ}

def foldUntil (stop : σ → α → Bool) (step : σ → α → σ) : σ → List α → σ
  | s, [] => s
  | s, a :: as => if stop s a then s else foldUntil stop step (step s a) as

/-- The elements that a loop has done, and those that are left where it stops. -/
structure Stops (stop : σ → α → Bool) (step : σ → α → σ) (s : σ) (done rest : List α) : Prop where
  went : ∀ before a after, done = before ++ a :: after → stop (before.foldl step s) a = false
  stopped : ∀ a ∈ rest.head?, stop (done.foldl step s) a = true

theorem Stops.cons {s : σ} {a : α} {done rest : List α} (ha : stop s a = false)
    (h : Stops stop step (step s a) done rest) : Stops stop step s (a :: done) rest where
  went before b after hsplit := by
    cases before with
    | nil =>
      obtain ⟨rfl, -⟩ := List.cons.inj hsplit
      exact ha
    | cons c before =>
      obtain ⟨rfl, hdone⟩ := List.cons.inj hsplit
      exact h.went before b after hdone
  stopped := h.stopped

theorem foldUntil_stops (stop : σ → α → Bool) (step : σ → α → σ) (s : σ) (as : List α) :
    ∃ done rest, as = done ++ rest ∧ foldUntil stop step s as = done.foldl step s ∧
      Stops stop step s done rest := by
  induction as generalizing s with
  | nil =>
    refine ⟨[], [], rfl, rfl, ?_, nofun⟩
    intro before a after h
    exact absurd h (by simp)
  | cons a as ih =>
    rw [foldUntil]
    split
    · next ha =>
      refine ⟨[], a :: as, rfl, rfl, ?_, ?_⟩
      · intro before b after h
        exact absurd h (by simp)
      · intro b hb
        obtain rfl := Option.some.inj hb
        exact ha
    · next ha =>
      obtain ⟨done, rest, rfl, heq, hstops⟩ := ih (step s a)
      exact ⟨a :: done, rest, rfl, heq, hstops.cons (Bool.eq_false_iff.2 ha)⟩

end Lib
