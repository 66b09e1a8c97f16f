import AionisCore.Lib.Table
import Mathlib.Data.List.Induction

/-!
# Linked records

Records that are stored one after the other, where each names the one before it. Where no
two of them have one id, each is named once at most.
-/

namespace Lib

open Table

variable {α κ : Type} {id : α → κ} {parent : α → Option κ} {l : List α} {a b : α}

/-- Each record names the one just before it, and the first names none. -/
def Linked (id : α → κ) (parent : α → Option κ) (l : List α) : Prop :=
  ∀ before a, before ++ [a] <+: l → parent a = before.getLast?.map id

@[simp] theorem linked_nil : Linked id parent [] := by
  intro before a h
  exact absurd (List.prefix_nil.1 h) (by simp)

theorem linked_append_singleton :
    Linked id parent (l ++ [a]) ↔ Linked id parent l ∧ parent a = l.getLast?.map id := by
  constructor
  · intro h
    exact ⟨fun before b hb => h before b (hb.trans (List.prefix_append _ _)),
      h l a List.prefix_rfl⟩
  · rintro ⟨hl, ha⟩ before b hb
    rcases List.prefix_concat_iff.1 hb with hall | hold
    · obtain ⟨rfl, hlast⟩ := List.append_inj' hall rfl
      obtain rfl := List.singleton_inj.1 hlast
      exact ha
    · exact hl before b hold

theorem Linked.exists_parent (h : Linked id parent l) (ha : a ∈ l) {k : κ}
    (hk : parent a = some k) : ∃ b ∈ l, id b = k := by
  obtain ⟨before, after, rfl⟩ := List.append_of_mem ha
  have hparent := h before a ⟨after, by simp⟩
  rw [hk] at hparent
  obtain ⟨b, hb, hid⟩ := Option.map_eq_some_iff.1 hparent.symm
  exact ⟨b, List.mem_append_left _ (List.mem_of_getLast? hb), hid⟩

/-- No record names the last one. -/
theorem Linked.parent_ne_last (h : Linked id parent l) (hu : Unique id l) (ha : a ∈ l) :
    parent a ≠ l.getLast?.map id := by
  induction l using List.reverseRecOn with
  | nil => cases ha
  | append_singleton l last ih =>
    obtain ⟨hl, hlast⟩ := linked_append_singleton.1 h
    have hnew := hu.of_concat.2
    rw [List.getLast?_concat, Option.map_some]
    intro hparent
    rcases List.mem_append.1 ha with ha | ha
    · obtain ⟨b, hb, hid⟩ := hl.exists_parent ha hparent
      exact hnew b hb hid
    · obtain rfl := List.mem_singleton.1 ha
      rw [hlast] at hparent
      obtain ⟨b, hb, hid⟩ := Option.map_eq_some_iff.1 hparent
      exact hnew b (List.mem_of_getLast? hb) hid

/-- No two records name the same one, and one names none at most. -/
theorem Linked.eq_of_parent (h : Linked id parent l) (hu : Unique id l) (ha : a ∈ l) (hb : b ∈ l)
    (heq : parent a = parent b) : a = b := by
  induction l using List.reverseRecOn with
  | nil => cases ha
  | append_singleton l last ih =>
    obtain ⟨hl, hlast⟩ := linked_append_singleton.1 h
    have hul := hu.of_concat.1
    rcases List.mem_append.1 ha with hal | hal <;> rcases List.mem_append.1 hb with hbl | hbl
    · exact ih hl hul hal hbl
    · obtain rfl := List.mem_singleton.1 hbl
      exact absurd (heq.trans hlast) (hl.parent_ne_last hul hal)
    · obtain rfl := List.mem_singleton.1 hal
      exact absurd (heq.symm.trans hlast) (hl.parent_ne_last hul hbl)
    · exact (List.mem_singleton.1 hal).trans (List.mem_singleton.1 hbl).symm

end Lib
