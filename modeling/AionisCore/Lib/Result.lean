import Mathlib.Data.List.Forall2

/-!
# Fallible calls

How a chain of `Except` calls comes to succeed.
-/

namespace Lib

variable {ε α β γ : Type}

/-- `if (!o) throw e`. -/
def orThrow (o : Option α) (e : ε) : Except ε α :=
  match o with
  | some a => .ok a
  | none => .error e

theorem orThrow_eq_ok {o : Option α} {e : ε} {a : α} : orThrow o e = .ok a ↔ o = some a := by
  cases o with
  | none => exact iff_of_false (fun h => nomatch h) (fun h => nomatch h)
  | some b =>
    constructor
    · intro h
      cases h
      rfl
    · intro h
      cases h
      rfl

variable {x : Except ε α}

theorem toOption_eq_some {a : α} : x.toOption = some a ↔ x = .ok a := by
  cases x with
  | error e => exact iff_of_false (fun h => nomatch h) (fun h => nomatch h)
  | ok b => rw [Except.toOption, Option.some.injEq, Except.ok.injEq]

theorem exists_ok_some {x : Except ε (Option α)} {p : α → Bool}
    (h : (x.toOption.bind id).any p = true) : ∃ a, x = .ok (some a) ∧ p a = true := by
  obtain ⟨a, ha, hp⟩ := (Option.any_eq_true p _).1 h
  obtain ⟨o, ho, hoa⟩ := Option.bind_eq_some_iff.1 ha
  rw [show o = some a from hoa] at ho
  exact ⟨a, toOption_eq_some.1 ho, hp⟩

variable {f : α → Except ε β}

theorem bind_eq_ok {b : β} : x >>= f = .ok b ↔ ∃ a, x = .ok a ∧ f a = .ok b := by
  cases x with
  | error e => exact iff_of_false (fun h => nomatch h) (fun ⟨_, h, _⟩ => nomatch h)
  | ok a =>
    constructor
    · intro h
      exact ⟨a, rfl, h⟩
    · rintro ⟨_, ha, h⟩
      cases ha
      exact h

theorem map_eq_ok {f : α → β} {b : β} : x.map f = .ok b ↔ ∃ a, x = .ok a ∧ f a = b := by
  cases x with
  | error e => simp [Except.map]
  | ok a => simp [Except.map]

/-- Continuations that agree up to `g` and `g'` give results that do. -/
theorem map_bind_congr {β' : Type} {f' : α → Except ε β'} {g : β → γ} {g' : β' → γ}
    (h : ∀ a, (f a).map g = (f' a).map g') : (x >>= f).map g = (x >>= f').map g' := by
  cases x with
  | error e => rfl
  | ok a => exact h a

variable {xs : List α}

theorem mapM_ok_self {f : α → Except ε α} (h : ∀ x ∈ xs, f x = .ok x) : xs.mapM f = .ok xs := by
  induction xs with
  | nil => rfl
  | cons x xs ih =>
    rw [List.mapM_cons, h x List.mem_cons_self, ih fun y hy => h y (List.mem_cons_of_mem _ hy)]
    rfl

theorem mapError_eq_ok {ε' : Type} {g : ε → ε'} {a : α} : x.mapError g = .ok a ↔ x = .ok a := by
  cases x with
  | error e => exact iff_of_false (fun h => nomatch h) (fun h => nomatch h)
  | ok b => rw [Except.mapError, Except.ok.injEq, Except.ok.injEq]

theorem forM_eq_ok {f : α → Except ε Unit} : xs.forM f = .ok () ↔ ∀ x ∈ xs, f x = .ok () := by
  induction xs with
  | nil => exact iff_of_true rfl fun _ hx => nomatch hx
  | cons x xs ih =>
    rw [List.forM, bind_eq_ok, List.forall_mem_cons, ← ih]
    constructor
    · rintro ⟨⟨⟩, h, hxs⟩
      exact ⟨h, hxs⟩
    · rintro ⟨h, hxs⟩
      exact ⟨(), h, hxs⟩

variable {ys : List β}

theorem map_mapM_ok {g : α → γ} {g' : β → γ} (hf : ∀ x y, f x = .ok y → g' y = g x)
    (h : xs.mapM f = .ok ys) : ys.map g' = xs.map g := by
  induction xs generalizing ys with
  | nil =>
    cases h
    rfl
  | cons x xs ih =>
    rw [List.mapM_cons] at h
    obtain ⟨y, hy, h⟩ := bind_eq_ok.1 h
    obtain ⟨zs, hzs, h⟩ := bind_eq_ok.1 h
    obtain rfl := Except.ok.inj h
    rw [List.map_cons, List.map_cons, hf x y hy, ih hzs]

theorem mapM_ok {g : α → β} (hf : ∀ x y, f x = .ok y → y = g x) (h : xs.mapM f = .ok ys) :
    ys = xs.map g := by
  rw [← List.map_id ys]
  exact map_mapM_ok hf h

theorem foldlM_ok {σ τ : Type} {f : σ → α → Except ε σ} (view : σ → τ) (f' : τ → α → τ)
    (hf : ∀ s a s', f s a = .ok s' → view s' = f' (view s) a) {s s' : σ}
    (h : xs.foldlM f s = .ok s') : view s' = xs.foldl f' (view s) := by
  induction xs generalizing s with
  | nil =>
    cases h
    rfl
  | cons x xs ih =>
    rw [List.foldlM_cons] at h
    obtain ⟨s₁, h₁, h⟩ := bind_eq_ok.1 h
    rw [List.foldl_cons, ← hf s x s₁ h₁]
    exact ih h

theorem foldlM_ok_frame {σ τ : Type} {f : σ → α → Except ε σ} (view : σ → τ)
    (hf : ∀ s a s', f s a = .ok s' → view s' = view s) {s s' : σ} (h : xs.foldlM f s = .ok s') :
    view s' = view s := by
  induction xs generalizing s with
  | nil =>
    cases h
    rfl
  | cons x xs ih =>
    rw [List.foldlM_cons] at h
    obtain ⟨s₁, h₁, h⟩ := bind_eq_ok.1 h
    exact (ih h).trans (hf s x s₁ h₁)

theorem forall_of_mapM_ok (h : xs.mapM f = .ok ys) : ∀ x ∈ xs, ∃ y, f x = .ok y := by
  induction xs generalizing ys with
  | nil =>
    intro x hx
    cases hx
  | cons x xs ih =>
    rw [List.mapM_cons] at h
    obtain ⟨y, hy, h⟩ := bind_eq_ok.1 h
    obtain ⟨zs, hzs, -⟩ := bind_eq_ok.1 h
    rw [List.forall_mem_cons]
    exact ⟨⟨y, hy⟩, ih hzs⟩

theorem forall₂_of_mapM_ok (h : xs.mapM f = .ok ys) :
    List.Forall₂ (fun x y => f x = .ok y) xs ys := by
  induction xs generalizing ys with
  | nil =>
    cases h
    exact .nil
  | cons x xs ih =>
    rw [List.mapM_cons] at h
    obtain ⟨y, hy, h⟩ := bind_eq_ok.1 h
    obtain ⟨zs, hzs, h⟩ := bind_eq_ok.1 h
    obtain rfl := Except.ok.inj h
    exact .cons hy (ih hzs)

end Lib
