import Mathlib.Tactic.Common
import Mathlib.Logic.Basic

/-!
# Tasks that wait for names

Tasks run one after another. A task needs names and may give one; it starts when each name it
needs is given from the outset or by an earlier task that succeeded, and it then succeeds or
fails at will, as far as it is able to succeed. `best` is the run in which whatever can succeed
does, apart from the tasks that are barred: it bounds every other run.
-/

namespace Lib

variable {K : Type}

structure NamedTask (K : Type) where
  needs : List K
  gives : Option K
  able : Bool

namespace NamedTask

section Run

variable (given : K → Bool) (tasks : Nat → NamedTask K)

/-- The name is there for the task when the tasks of a set have succeeded. -/
def Available (S : Nat → Prop) (j : Nat) (k : K) : Prop :=
  given k = true ∨ ∃ i < j, S i ∧ (tasks i).gives = some k

/-- A set of tasks that may succeed in one run. -/
def Admissible (S : Nat → Prop) : Prop :=
  ∀ j, S j → (tasks j).able = true ∧ ∀ k ∈ (tasks j).needs, Available given tasks S j k

/-- Some name that the task needs is missing. -/
def Blocked (S : Nat → Prop) (j : Nat) : Prop :=
  ∃ k ∈ (tasks j).needs, ¬ Available given tasks S j k

variable [DecidableEq K]

/-- The names that a task needs are there once some tasks are done. -/
def ready (done : List Nat) (j : Nat) : Bool :=
  (tasks j).needs.all fun k => given k || done.any fun i => (tasks i).gives == some k

/-- The tasks among the first `n` that succeed when all that can succeed do. -/
def best (barred : Nat → Bool) : Nat → List Nat
  | 0 => []
  | n + 1 =>
    let done := best barred n
    if !barred n && (tasks n).able && ready given tasks done n then done ++ [n] else done

/-- The task starts in the best run. -/
def Starts (barred : Nat → Bool) (j : Nat) : Prop :=
  ready given tasks (best given tasks barred j) j = true

/-- The task succeeds in the best run. -/
def Succeeds (barred : Nat → Bool) (j : Nat) : Prop :=
  j ∈ best given tasks barred (j + 1)

end Run

theorem Available.mono {given : K → Bool} {tasks : Nat → NamedTask K} {S T : Nat → Prop} {j : Nat}
    {k : K} (h : Available given tasks S j k) (hST : ∀ i < j, S i → T i) :
    Available given tasks T j k :=
  h.imp_right fun ⟨i, hi, hS, hk⟩ => ⟨i, hi, hST i hi hS, hk⟩

section Best

variable [DecidableEq K] {given : K → Bool} {tasks : Nat → NamedTask K} {barred : Nat → Bool}
  {S : Nat → Prop} {i j n : Nat}

theorem lt_of_mem_best (h : i ∈ best given tasks barred n) : i < n := by
  induction n with
  | zero => cases h
  | succ n ih =>
    rw [best] at h
    split at h
    · obtain h | h := List.mem_append.1 h
      · exact Nat.lt_succ_of_lt (ih h)
      · exact Nat.lt_succ_of_le (Nat.le_of_eq (List.mem_singleton.1 h))
    · exact Nat.lt_succ_of_lt (ih h)

theorem mem_best_succ (h : i < n) :
    i ∈ best given tasks barred (n + 1) ↔ i ∈ best given tasks barred n := by
  rw [best]
  split
  · rw [List.mem_append, List.mem_singleton]
    exact or_iff_left (Nat.ne_of_lt h)
  · exact Iff.rfl

theorem mem_best : i ∈ best given tasks barred n ↔ i < n ∧ Succeeds given tasks barred i := by
  constructor
  · intro h
    have hlt := lt_of_mem_best h
    refine ⟨hlt, ?_⟩
    induction n with
    | zero => cases h
    | succ n ih =>
      by_cases hin : i = n
      · exact hin ▸ h
      · have hlt : i < n := by omega
        exact ih ((mem_best_succ hlt).1 h) hlt
  · rintro ⟨hlt, h⟩
    induction n with
    | zero => cases hlt
    | succ n ih =>
      by_cases hin : i = n
      · exact hin ▸ h
      · have hlt : i < n := by omega
        exact (mem_best_succ hlt).2 (ih hlt)

theorem starts_iff : Starts given tasks barred j ↔
    ∀ k ∈ (tasks j).needs, Available given tasks (Succeeds given tasks barred) j k := by
  unfold Starts ready
  rw [List.all_eq_true]
  refine forall₂_congr fun k _ => ?_
  rw [Bool.or_eq_true, List.any_eq_true]
  refine or_congr_right ?_
  constructor
  · rintro ⟨i, hi, hk⟩
    obtain ⟨hlt, hS⟩ := mem_best.1 hi
    exact ⟨i, hlt, hS, by simpa using hk⟩
  · rintro ⟨i, hlt, hS, hk⟩
    exact ⟨i, mem_best.2 ⟨hlt, hS⟩, by simpa using hk⟩

theorem succeeds_iff : Succeeds given tasks barred j ↔
    barred j = false ∧ (tasks j).able = true ∧ Starts given tasks barred j := by
  have hself : j ∉ best given tasks barred j := fun h => absurd (lt_of_mem_best h) (Nat.lt_irrefl j)
  unfold Succeeds Starts
  rw [best]
  split
  · next h =>
    simp only [Bool.and_eq_true, Bool.not_eq_true'] at h
    exact iff_of_true (List.mem_append_right _ (List.mem_singleton_self j)) ⟨h.1.1, h.1.2, h.2⟩
  · next h =>
    refine iff_of_false hself fun hall => h ?_
    simp only [Bool.and_eq_true, Bool.not_eq_true']
    exact ⟨⟨hall.1, hall.2.1⟩, hall.2.2⟩

/-- The best run bounds every run in which the barred tasks fail. -/
theorem Admissible.succeeds (h : Admissible given tasks S) (hbarred : ∀ i, S i → barred i = false)
    {j : Nat} (hj : S j) : Succeeds given tasks barred j := by
  induction j using Nat.strongRecOn with
  | ind j ih =>
    obtain ⟨hable, hneeds⟩ := h j hj
    rw [succeeds_iff, starts_iff]
    exact ⟨hbarred j hj, hable, fun k hk => (hneeds k hk).mono fun i hi hS => ih i hi hS⟩

theorem admissible_succeeds : Admissible given tasks (Succeeds given tasks barred) := by
  intro j hj
  obtain ⟨-, hable, hstarts⟩ := succeeds_iff.1 hj
  exact ⟨hable, starts_iff.1 hstarts⟩

theorem starts_of_not_blocked (h : Admissible given tasks S)
    (hbarred : ∀ i, S i → barred i = false) (hj : ¬ Blocked given tasks S j) :
    Starts given tasks barred j := by
  rw [starts_iff]
  intro k hk
  have hk : Available given tasks S j k := by
    by_contra hnot
    exact hj ⟨k, hk, hnot⟩
  exact hk.mono fun i _ hS => h.succeeds hbarred hS

theorem not_blocked_iff_starts :
    ¬ Blocked given tasks (Succeeds given tasks barred) j ↔ Starts given tasks barred j := by
  rw [starts_iff]
  constructor
  · intro h k hk
    by_contra hnot
    exact h ⟨k, hk, hnot⟩
  · rintro h ⟨k, hk, hnot⟩
    exact hnot (h k hk)

end Best

/-! ## Edges -/

section Edges

variable [DecidableEq K] (given : K → Bool) (tasks : Nat → NamedTask K) (Edge : Nat → Nat → Prop)

/-- A task waits, if only through others, for everything that has an edge into it, and what it
waits for beyond that never comes. -/
structure Matches : Prop where
  waits : ∀ i j, Edge i j → ¬ Starts given tasks (fun t => t == i) j
  awaited : ∀ j, ∀ k ∈ (tasks j).needs, given k = false →
    (∀ i, Edge i j → (tasks i).gives ≠ some k) →
      ∃ i, Edge i j ∧ ¬ Succeeds given tasks (fun _ => false) i

variable {given tasks Edge} {S : Nat → Prop}

/-- Blocked is the task that has an edge from one that did not succeed. -/
theorem Matches.blocked_iff (h : Matches given tasks Edge) (hS : Admissible given tasks S)
    (hle : ∀ i j, Edge i j → i ≤ j) (j : Nat) :
    Blocked given tasks S j ↔ ∃ i, Edge i j ∧ ¬ S i := by
  constructor
  · rintro ⟨k, hk, hmissing⟩
    by_contra hall
    have hpred : ∀ i, Edge i j → S i := fun i hi => by
      by_contra hnot
      exact hall ⟨i, hi, hnot⟩
    have hgiven : given k = false := by
      rw [← Bool.not_eq_true]
      exact fun hgiven => hmissing (Or.inl hgiven)
    have hgives : ∀ i, Edge i j → (tasks i).gives ≠ some k := by
      intro i hi hik
      obtain hlt | rfl := Nat.lt_or_eq_of_le (hle i j hi)
      · exact hmissing (Or.inr ⟨i, hlt, hpred i hi, hik⟩)
      · exact hmissing ((hS i (hpred i hi)).2 k hk)
    obtain ⟨i, hi, hnever⟩ := h.awaited j k hk hgiven hgives
    exact hnever (hS.succeeds (fun _ _ => rfl) (hpred i hi))
  · rintro ⟨i, hi, hfailed⟩
    by_contra hnot
    refine h.waits i j hi (starts_of_not_blocked hS (fun t ht => ?_) hnot)
    rw [beq_eq_false_iff_ne]
    exact fun hti => hfailed (hti ▸ ht)

/-- Where a name that is given has an edge from one that gives it, or the task has no edge, the
edges say what blocks a task in every run just if they match. -/
theorem matches_iff (hle : ∀ i j, Edge i j → i ≤ j)
    (hcover : ∀ j, ∀ k ∈ (tasks j).needs, (∃ i < j, (tasks i).gives = some k) →
      (∃ i, Edge i j ∧ (tasks i).gives = some k) ∨ ∀ i, ¬ Edge i j) :
    (∀ S, Admissible given tasks S → ∀ j, Blocked given tasks S j ↔ ∃ i, Edge i j ∧ ¬ S i) ↔
      Matches given tasks Edge := by
  constructor
  · intro h
    constructor
    · intro i j hi hstarts
      have hblocked := h _ (@admissible_succeeds K _ given tasks fun t => t == i) j
      refine not_blocked_iff_starts.2 hstarts (hblocked.2 ⟨i, hi, fun hsucceeds => ?_⟩)
      have hbarred := (succeeds_iff.1 hsucceeds).1
      simp at hbarred
    · intro j k hk hgiven hgives
      by_contra hall
      have hpred : ∀ i, Edge i j → Succeeds given tasks (fun _ => false) i := fun i hi => by
        by_contra hnot
        exact hall ⟨i, hi, hnot⟩
      by_cases hearlier : ∃ i < j, (tasks i).gives = some k
      · obtain ⟨i, hi, hik⟩ | hnone := hcover j k hk hearlier
        · exact hgives i hi hik
        · have hempty : Admissible given tasks fun _ => False := fun j hj => hj.elim
          have hblocked : Blocked given tasks (fun _ => False) j := by
            refine ⟨k, hk, ?_⟩
            rintro (hk | ⟨-, -, hfalse, -⟩)
            · rw [hgiven] at hk
              cases hk
            · exact hfalse
          obtain ⟨i, hi, -⟩ := (h _ hempty j).1 hblocked
          exact hnone i hi
      · have hblocked : Blocked given tasks (Succeeds given tasks fun _ => false) j := by
          refine ⟨k, hk, ?_⟩
          rintro (hk | ⟨i, hi, -, hik⟩)
          · rw [hgiven] at hk
            cases hk
          · exact hearlier ⟨i, hi, hik⟩
        obtain ⟨i, hi, hfailed⟩ := (h _ admissible_succeeds j).1 hblocked
        exact hfailed (hpred i hi)
  · exact fun h S hS => h.blocked_iff hS hle

end Edges

end NamedTask

end Lib
