/-!
# Runs of a step function

`run step s is` takes one step for each label of `is` and fails where a step
does. An invariant of the steps is an invariant of the runs, and a property
that holds after a run but not before it is switched on by one step of it.
-/

namespace Lib

variable {S I : Type} {step : S → I → Option S}

def run (step : S → I → Option S) (s : S) : List I → Option S
  | [] => some s
  | i :: is => (step s i).bind fun s' => run step s' is

@[simp] theorem run_nil (s : S) : run step s [] = some s := rfl

variable {s t : S} {is js : List I}

theorem run_cons {i : I} :
    run step s (i :: is) = some t ↔ ∃ u, step s i = some u ∧ run step u is = some t :=
  Option.bind_eq_some_iff

theorem run_append :
    run step s (is ++ js) = some t ↔ ∃ u, run step s is = some u ∧ run step u js = some t := by
  induction is generalizing s with
  | nil => simp
  | cons i is ih =>
    rw [List.cons_append, run_cons]
    constructor
    · rintro ⟨v, hv, hr⟩
      obtain ⟨u, hu, ht⟩ := ih.1 hr
      exact ⟨u, run_cons.2 ⟨v, hv, hu⟩, ht⟩
    · rintro ⟨u, hu, ht⟩
      obtain ⟨v, hv, hr⟩ := run_cons.1 hu
      exact ⟨v, hv, ih.2 ⟨u, hr, ht⟩⟩

/-- What every step preserves, every run preserves. -/
theorem run_invariant {P : S → Prop} (hstep : ∀ s i s', P s → step s i = some s' → P s') (hs : P s)
    (hr : run step s is = some t) : P t := by
  induction is generalizing s with
  | nil => exact Option.some.inj hr ▸ hs
  | cons i is ih =>
    obtain ⟨u, hu, hr⟩ := run_cons.1 hr
    exact ih (hstep s i u hs hu) hr

/-- A property that a run establishes is established by one of its steps. -/
theorem run_switch {P : S → Prop} (hs : ¬ P s) (hr : run step s is = some t) (ht : P t) :
    ∃ pre i post u v, is = pre ++ i :: post ∧ run step s pre = some u ∧ ¬ P u ∧
      step u i = some v ∧ P v ∧ run step v post = some t := by
  induction is generalizing s with
  | nil => exact absurd (Option.some.inj hr ▸ ht) hs
  | cons i is ih =>
    obtain ⟨v, hv, hr⟩ := run_cons.1 hr
    by_cases hp : P v
    · exact ⟨[], i, is, s, v, rfl, rfl, hs, hv, hp, hr⟩
    · obtain ⟨pre, j, post, u, w, rfl, hpre, hu, hw, hpw, hpost⟩ := ih hp hr
      exact ⟨i :: pre, j, post, u, w, rfl, run_cons.2 ⟨v, hv, hpre⟩, hu, hw, hpw, hpost⟩

/-- Every step of a run is taken from a state that allows it. -/
def Along (step : S → I → Option S) (P : S → I → Prop) : S → List I → Prop
  | _, [] => True
  | s, i :: is => P s i ∧ ∀ s', step s i = some s' → Along step P s' is

variable {P : S → I → Prop}

theorem along_cons_some {f : S → I → S} {i : I} :
    Along (fun s i => some (f s i)) P s (i :: is) ↔
      P s i ∧ Along (fun s i => some (f s i)) P (f s i) is :=
  and_congr_right fun _ => ⟨fun h => h _ rfl, fun h _ hs => Option.some.inj hs ▸ h⟩

/-- Allowed runs can be checked, as every state has one next state at most. -/
instance decidableAlong (P : S → I → Prop) [∀ s i, Decidable (P s i)] :
    (is : List I) → (s : S) → Decidable (Along step P s is)
  | [], _ => isTrue trivial
  | i :: is, s =>
    match h : step s i with
    | none => decidable_of_iff (P s i)
        ⟨fun hp => ⟨hp, fun s' hs => by rw [h] at hs; cases hs⟩, And.left⟩
    | some t =>
      have := decidableAlong P is t
      decidable_of_iff (P s i ∧ Along step P t is)
        (and_congr_right fun _ => ⟨fun ha s' hs => Option.some.inj (h.symm.trans hs) ▸ ha,
          fun ha => ha t h⟩)

theorem along_append (h : Along step P s (is ++ js)) (hr : run step s is = some t) :
    Along step P t js := by
  induction is generalizing s with
  | nil => exact Option.some.inj hr ▸ h
  | cons i is ih =>
    obtain ⟨u, hu, hr⟩ := run_cons.1 hr
    exact ih (h.2 u hu) hr

theorem along_of_append (h : Along step P s (is ++ js)) : Along step P s is := by
  induction is generalizing s with
  | nil => trivial
  | cons i is ih => exact ⟨h.1, fun u hu => ih (h.2 u hu)⟩

theorem Along.mono {Q : S → I → Prop} (hPQ : ∀ s i, P s i → Q s i) (h : Along step P s is) :
    Along step Q s is := by
  induction is generalizing s with
  | nil => trivial
  | cons i is ih => exact ⟨hPQ s i h.1, fun u hu => ih (h.2 u hu)⟩

/-- What every allowed step preserves, every run of allowed steps preserves. -/
theorem run_invariant_along {Q : S → Prop}
    (hstep : ∀ s i s', Q s → P s i → step s i = some s' → Q s') (hs : Q s) (h : Along step P s is)
    (hr : run step s is = some t) : Q t := by
  induction is generalizing s with
  | nil => exact Option.some.inj hr ▸ hs
  | cons i is ih =>
    obtain ⟨u, hu, hr⟩ := run_cons.1 hr
    exact ih (hstep s i u hs h.1 hu) (h.2 u hu) hr

/-- Where a step keeps `Q` just if it is allowed, given what `R` and `C` say of the run, a run keeps
`Q` throughout just if it is allowed. -/
theorem forall_prefix_iff_along_of {C P : S → I → Prop} {R Q : S → Prop}
    (htotal : ∀ s i, ∃ s', step s i = some s')
    (hkeeps : ∀ s i s', R s → C s i → step s i = some s' → R s')
    (hstep : ∀ s i s', R s → C s i → Q s → step s i = some s' → (Q s' ↔ P s i)) {s : S}
    {is : List I} (hR : R s) (hQ : Q s) (hC : Along step C s is) :
    (∀ pre t, pre <+: is → run step s pre = some t → Q t) ↔ Along step P s is := by
  induction is generalizing s with
  | nil =>
    refine iff_of_true (fun pre t hpre hrun => ?_) trivial
    obtain rfl := List.prefix_nil.1 hpre
    exact Option.some.inj hrun ▸ hQ
  | cons i is ih =>
    obtain ⟨u, hu⟩ := htotal s i
    have hRu := hkeeps s i u hR hC.1 hu
    constructor
    · intro h
      have hQu : Q u := h [i] u ⟨is, rfl⟩ (run_cons.2 ⟨u, hu, rfl⟩)
      refine ⟨(hstep s i u hR hC.1 hQ hu).1 hQu, fun v hv => ?_⟩
      obtain rfl := Option.some.inj (hu.symm.trans hv)
      exact (ih hRu hQu (hC.2 u hu)).1 fun pre t hpre hrun =>
        h (i :: pre) t (List.cons_prefix_cons.2 ⟨rfl, hpre⟩) (run_cons.2 ⟨u, hu, hrun⟩)
    · intro h pre t hpre hrun
      cases pre with
      | nil => exact Option.some.inj hrun ▸ hQ
      | cons j pre =>
        obtain ⟨rfl, htail⟩ := List.cons_prefix_cons.1 hpre
        obtain ⟨v, hv, hrun⟩ := run_cons.1 hrun
        obtain rfl := Option.some.inj (hu.symm.trans hv)
        have hQu := (hstep s j u hR hC.1 hQ hu).2 h.1
        exact (ih hRu hQu (hC.2 u hu)).2 (h.2 u hu) pre t htail hrun

/-- Where a step keeps an invariant just if it is allowed, a run keeps it throughout just if it
is allowed. -/
theorem forall_prefix_iff_along {Q : S → Prop} (htotal : ∀ s i, ∃ s', step s i = some s')
    (hstep : ∀ s i s', Q s → step s i = some s' → (Q s' ↔ P s i)) (hs : Q s) :
    (∀ pre t, pre <+: is → run step s pre = some t → Q t) ↔ Along step P s is := by
  have htrue : Along step (fun _ _ => True) s is := by
    clear hs
    induction is generalizing s with
    | nil => trivial
    | cons i is ih => exact ⟨trivial, fun u _ => ih⟩
  exact @forall_prefix_iff_along_of S I step _ P (fun _ => True) Q htotal
    (fun _ _ _ _ _ _ => trivial) (fun s i s' _ _ hQ hs' => hstep s i s' hQ hs') s is trivial hs
    htrue

end Lib
