import AionisCore.Lib.Run

/-!
# Programs that write a stored state

A program reads and writes a stored state, one write after the other. An error stops it and
takes no write back. `Spec I R P p Q` is its partial correctness: started where `I` and `P`
hold, every single write keeps `I` and is one of `R`, and a value comes with `Q`.
-/

namespace Lib.Journal

/-- What a program leaves behind: the writes it made, each with the state before it. -/
structure Outcome (S α : Type) where
  changes : List (S × S)
  final : S
  value : Option α

def Program (S α : Type) : Type := S → Outcome S α

variable {S α β : Type}

namespace Program

instance : Monad (Program S) where
  pure a := fun s => ⟨[], s, some a⟩
  bind p f := fun s =>
    match (p s).value with
    | none => ⟨(p s).changes, (p s).final, none⟩
    | some a =>
      let o := f a (p s).final
      ⟨(p s).changes ++ o.changes, o.final, o.value⟩

def read (f : S → α) : Program S α := fun s => ⟨[], s, some (f s)⟩

/-- One statement, which may be refused. -/
def write (f : S → Option S) : Program S Unit := fun s =>
  match f s with
  | some s' => ⟨[(s, s')], s', some ()⟩
  | none => ⟨[], s, none⟩

end Program

open Program

def Spec (I : S → Prop) (R : S → S → Prop) (P : S → Prop) (p : Program S α)
    (Q : α → S → Prop) : Prop :=
  ∀ s, I s → P s →
    (∀ c ∈ (p s).changes, R c.1 c.2) ∧ I (p s).final ∧ ∀ a, (p s).value = some a → Q a (p s).final

section Rules

variable {I : S → Prop} {R : S → S → Prop} {P P' : S → Prop} {p : Program S α}
  {Q Q' : α → S → Prop}

theorem Spec.pure {a : α} (h : ∀ s, I s → P s → Q a s) : Spec I R P (pure a) Q := by
  intro s hI hP
  refine ⟨fun c hc => absurd hc List.not_mem_nil, hI, fun b hb => ?_⟩
  obtain rfl := Option.some.inj hb
  exact h s hI hP

theorem Spec.bind {M : α → S → Prop} {f : α → Program S β} {Q : β → S → Prop}
    (hp : Spec I R P p M) (hf : ∀ a, Spec I R (M a) (f a) Q) : Spec I R P (p >>= f) Q := by
  intro s hI hP
  obtain ⟨hchanges, hfinal, hvalue⟩ := hp s hI hP
  simp only [Bind.bind]
  cases hv : (p s).value with
  | none => exact ⟨hchanges, hfinal, fun b hb => nomatch hb⟩
  | some a =>
    obtain ⟨hchanges', hfinal', hvalue'⟩ := hf a _ hfinal (hvalue a hv)
    refine ⟨fun c hc => ?_, hfinal', hvalue'⟩
    exact (List.mem_append.1 hc).elim (hchanges c) (hchanges' c)

theorem Spec.read {f : S → α} (h : ∀ s, I s → P s → Q (f s) s) :
    Spec I R P (Program.read f) Q := by
  intro s hI hP
  refine ⟨fun c hc => absurd hc List.not_mem_nil, hI, fun b hb => ?_⟩
  obtain rfl := Option.some.inj hb
  exact h s hI hP

theorem Spec.write {f : S → Option S} {Q : Unit → S → Prop}
    (h : ∀ s s', I s → P s → f s = some s' → R s s' ∧ I s' ∧ Q () s') :
    Spec I R P (Program.write f) Q := by
  intro s hI hP
  unfold Program.write
  cases hf : f s with
  | none =>
    refine ⟨fun c hc => absurd hc List.not_mem_nil, hI, fun b hb => ?_⟩
    cases hb
  | some s' =>
    obtain ⟨hR, hI', hQ⟩ := h s s' hI hP hf
    refine ⟨fun c hc => ?_, hI', fun b _ => hQ⟩
    obtain rfl := List.mem_singleton.1 hc
    exact hR

theorem Spec.mono (hp : Spec I R P p Q) (hP : ∀ s, I s → P' s → P s)
    (hQ : ∀ a s, I s → Q a s → Q' a s) : Spec I R P' p Q' := by
  intro s hI h
  obtain ⟨hchanges, hfinal, hvalue⟩ := hp s hI (hP s hI h)
  exact ⟨hchanges, hfinal, fun a ha => hQ a _ hfinal (hvalue a ha)⟩

theorem Spec.of_start (h : ∀ s₀, P s₀ → Spec I R (· = s₀) p Q) : Spec I R P p Q :=
  fun s hI hP => h s hP s hI rfl

theorem Spec.ite {c : Prop} [Decidable c] {q : Program S α}
    (hp : c → Spec I R P p Q) (hq : ¬ c → Spec I R P q Q) :
    Spec I R P (if c then p else q) Q := by
  split
  · next h => exact hp h
  · next h => exact hq h

/-- A loop, by an invariant of its result so far and of what is left of the list. -/
theorem Spec.foldlM {f : β → α → Program S β} {J : β → List α → S → Prop}
    (hf : ∀ b x xs, Spec I R (J b (x :: xs)) (f b x) fun b' => J b' xs) (l : List α) (b : β) :
    Spec I R (J b l) (l.foldlM f b) fun b' => J b' [] := by
  induction l generalizing b with
  | nil => exact .pure fun _ _ h => h
  | cons x xs ih =>
    rw [List.foldlM_cons]
    exact (hf b x xs).bind fun b' => ih b'

theorem Spec.forM {f : α → Program S Unit} {J : List α → S → Prop}
    (hf : ∀ x xs, Spec I R (J (x :: xs)) (f x) fun _ => J xs) (l : List α) :
    Spec I R (J l) (l.forM f) fun _ => J [] := by
  induction l with
  | nil => exact .pure fun _ _ h => h
  | cons x xs ih => exact (hf x xs).bind fun _ => ih

end Rules

/-! ## Runs of calls -/

/-- A stored state and the writes that led to it. -/
structure Session (S : Type) where
  store : S
  changes : List (S × S)

/-- One call; an error is the caller's. -/
def Session.call (p : Program S α) (σ : Session S) : Session S :=
  ⟨(p σ.store).final, σ.changes ++ (p σ.store).changes⟩

variable {E : Type} {body : E → Program S α}

/-- Calls that do as they are specified make a session that does. -/
theorem run_session {I : S → Prop} {R : S → S → Prop} {C : S → E → Prop}
    (hbody : ∀ e, Spec I R (C · e) (body e) fun _ _ => True) {σ τ : Session S} {es : List E}
    (hI : I σ.store) (hR : ∀ c ∈ σ.changes, R c.1 c.2)
    (hC : Along (fun σ e => some (σ.call (body e))) (fun σ e => C σ.store e) σ es)
    (hrun : run (fun σ e => some (σ.call (body e))) σ es = some τ) :
    I τ.store ∧ ∀ c ∈ τ.changes, R c.1 c.2 := by
  refine run_invariant_along (Q := fun σ => I σ.store ∧ ∀ c ∈ σ.changes, R c.1 c.2) ?_ ⟨hI, hR⟩
    hC hrun
  rintro σ e _ ⟨hI, hR⟩ hC ⟨⟩
  obtain ⟨hchanges, hfinal, -⟩ := hbody e σ.store hI hC
  refine ⟨hfinal, fun c hc => ?_⟩
  exact (List.mem_append.1 hc).elim (hR c) (hchanges c)

end Lib.Journal
