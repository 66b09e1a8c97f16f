import Mathlib.Data.List.Nodup
import Mathlib.Data.List.Perm.Subperm

/-!
# Slots

A list is written at some of its places, its slots. When the list has been brought into another
order beforehand, with chosen elements moved to the front, the places of the remaining elements
may no longer be those the slots were taken from: then an element is written where another one
is lost.
-/

namespace Lib.Slots

variable {α : Type} {writes : List (Nat × α)} {out : List α} {i j n : Nat} {x : α}

/-- `out[i] = x` for each write, in order. -/
def write (writes : List (Nat × α)) (out : List α) : List α :=
  writes.foldl (fun out w => out.set w.1 w.2) out

@[simp] theorem length_write (writes : List (Nat × α)) (out : List α) :
    (write writes out).length = out.length := by
  unfold write
  induction writes generalizing out with
  | nil => rfl
  | cons w writes ih => rw [List.foldl_cons, ih, List.length_set]

theorem getElem?_write_of_notMem (h : i ∉ writes.map (·.1)) :
    (write writes out)[i]? = out[i]? := by
  unfold write
  induction writes generalizing out with
  | nil => rfl
  | cons w writes ih =>
    rw [List.map_cons, List.mem_cons, not_or] at h
    rw [List.foldl_cons, ih h.2, List.getElem?_set_ne (Ne.symm h.1)]

theorem getElem?_write_of_mem (hslots : (writes.map (·.1)).Nodup) (h : (i, x) ∈ writes)
    (hi : i < out.length) : (write writes out)[i]? = some x := by
  unfold write
  induction writes generalizing out with
  | nil => cases h
  | cons w writes ih =>
    rw [List.map_cons, List.nodup_cons] at hslots
    rw [List.foldl_cons]
    rcases List.mem_cons.1 h with rfl | h
    · refine (getElem?_write_of_notMem hslots.1).trans ?_
      exact List.getElem?_set_self hi
    · exact ih hslots.2 h (by rwa [List.length_set])

theorem mem_write (hslots : (writes.map (·.1)).Nodup) (h : (write writes out)[i]? = some x) :
    (i, x) ∈ writes ∨ i ∉ writes.map (·.1) ∧ out[i]? = some x := by
  by_cases hi : i ∈ writes.map (·.1)
  · obtain ⟨⟨k, y⟩, hmem, rfl⟩ := List.mem_map.1 hi
    have hlt : k < out.length := by
      have hlt := (List.getElem?_eq_some_iff.1 h).1
      rwa [length_write] at hlt
    rw [getElem?_write_of_mem hslots hmem hlt] at h
    obtain rfl := Option.some.inj h
    exact .inl hmem
  · rw [getElem?_write_of_notMem hi] at h
    exact .inr ⟨hi, h⟩

/-- Writes behind the first `n` places keep those. -/
theorem take_write (h : ∀ i ∈ writes.map (·.1), n ≤ i) :
    (write writes out).take n = out.take n := by
  refine List.ext_getElem? fun i => ?_
  rw [List.getElem?_take, List.getElem?_take]
  split
  · next hi => exact getElem?_write_of_notMem fun hmem => absurd (h i hmem) (Nat.not_le.2 hi)
  · rfl

theorem eq_take_cons_drop {xs : List α} (h : xs[i]? = some x) :
    xs = xs.take i ++ x :: xs.drop (i + 1) ∧ (xs.take i).length = i := by
  obtain ⟨hlt, rfl⟩ := List.getElem?_eq_some_iff.1 h
  refine ⟨?_, by rw [List.length_take]; omega⟩
  rw [List.getElem_cons_drop hlt, List.take_append_drop]

/-! ## After a move to the front -/

section Front

variable {xs front : List α} {chosen : α → Bool}

/-- The chosen elements, in some order, in front of the others. -/
def toFront (front : List α) (chosen : α → Bool) (xs : List α) : List α :=
  front ++ xs.filter fun x => !chosen x

theorem toFront_perm (hfront : front.Perm (xs.filter chosen)) :
    (toFront front chosen xs).Perm xs :=
  (hfront.append_right _).trans (List.filter_append_perm chosen xs)

/-- An element with no chosen one behind it keeps its place. -/
theorem getElem?_toFront {before behind : List α} (hfront : front.Perm (xs.filter chosen))
    (hxs : xs = before ++ x :: behind) (hx : chosen x = false)
    (hbehind : ∀ y ∈ behind, chosen y = false) :
    (toFront front chosen xs)[before.length]? = some x := by
  have hlength := (toFront_perm hfront).length_eq
  have hkept : (x :: behind).filter (fun y => !chosen y) = x :: behind :=
    List.filter_eq_self.2 fun y hy => by
      rcases List.mem_cons.1 hy with rfl | hy
      · rw [hx, Bool.not_false]
      · rw [hbehind y hy, Bool.not_false]
  have hsplit : toFront front chosen xs =
      (front ++ before.filter fun y => !chosen y) ++ x :: behind := by
    rw [toFront, hxs, List.filter_append, hkept, List.append_assoc]
  rw [hsplit] at hlength ⊢
  rw [hxs, List.length_append, @List.length_append _ before] at hlength
  rw [← Nat.add_right_cancel hlength, List.getElem?_append_right (Nat.le_refl _),
    Nat.sub_self]
  rfl

/-- The slots are the places of the written elements, none of which is chosen. -/
structure Fits (writes : List (Nat × α)) (chosen : α → Bool) (xs : List α) : Prop where
  slots : (writes.map (·.1)).Nodup
  names : (writes.map (·.2)).Nodup
  places : ∀ i, i ∈ writes.map (·.1) ↔ ∃ x ∈ writes.map (·.2), xs[i]? = some x
  free : ∀ x ∈ writes.map (·.2), x ∈ xs ∧ chosen x = false

/-- No chosen element stands behind a written one. -/
def Aligned (writes : List (Nat × α)) (chosen : α → Bool) (xs : List α) : Prop :=
  xs.Pairwise fun x y => x ∈ writes.map (·.2) → chosen y = false

theorem Aligned.behind {before behind : List α} (h : Aligned writes chosen xs)
    (hxs : xs = before ++ x :: behind) (hx : x ∈ writes.map (·.2)) :
    ∀ y ∈ behind, chosen y = false := by
  unfold Aligned at h
  rw [hxs, List.pairwise_append] at h
  exact fun y hy => (List.pairwise_cons.1 h.2.1).1 y hy hx

section

variable (h : Fits writes chosen xs) (hfront : front.Perm (xs.filter chosen))
  (haligned : Aligned writes chosen xs)

include h hfront haligned

theorem Fits.getElem?_toFront (hx : x ∈ writes.map (·.2)) (hi : xs[i]? = some x) :
    (toFront front chosen xs)[i]? = some x := by
  obtain ⟨hxs, hlen⟩ := eq_take_cons_drop hi
  have := Slots.getElem?_toFront hfront hxs (h.free x hx).2 (haligned.behind hxs hx)
  rwa [hlen] at this

theorem Fits.front_le (hi : i ∈ writes.map (·.1)) : front.length ≤ i := by
  obtain ⟨x, hx, hget⟩ := (h.places i).1 hi
  obtain ⟨hxs, hlen⟩ := eq_take_cons_drop hget
  have hnone : (x :: xs.drop (i + 1)).filter chosen = [] := by
    refine List.filter_eq_nil_iff.2 fun y hy => ?_
    rcases List.mem_cons.1 hy with rfl | hy
    · rw [(h.free y hx).2]
      exact Bool.false_ne_true
    · rw [haligned.behind hxs hx y hy]
      exact Bool.false_ne_true
  have hlength : (xs.filter chosen).length = ((xs.take i).filter chosen).length := by
    conv_lhs => rw [hxs, List.filter_append, hnone, List.append_nil]
  have hle := List.length_filter_le chosen (xs.take i)
  rw [hfront.length_eq, hlength]
  omega

theorem Fits.prefix_write : front <+: write writes (toFront front chosen xs) := by
  have htake : (write writes (toFront front chosen xs)).take front.length =
      (toFront front chosen xs).take front.length :=
    take_write fun i hi => h.front_le hfront haligned hi
  have hfrontEq : (toFront front chosen xs).take front.length = front := List.take_left
  have hprefix := List.take_prefix front.length (write writes (toFront front chosen xs))
  rwa [htake, hfrontEq] at hprefix

end

/-- What stands at a place that is not written is not a written element. -/
theorem Fits.notMem_slots (h : Fits writes chosen xs) (hi : xs[i]? = some x)
    (hx : x ∉ writes.map (·.2)) : i ∉ writes.map (·.1) := by
  intro hslot
  obtain ⟨y, hy, hget⟩ := (h.places i).1 hslot
  obtain rfl := Option.some.inj (hget.symm.trans hi)
  exact hx hy

theorem Fits.exists_slot (h : Fits writes chosen xs) (hfront : front.Perm (xs.filter chosen))
    (hx : x ∈ writes.map (·.2)) :
    ∃ i ∈ writes.map (·.1), (i, x) ∈ writes ∧
      (write writes (toFront front chosen xs))[i]? = some x := by
  obtain ⟨⟨i, y⟩, hmem, rfl⟩ := List.mem_map.1 hx
  have hslot : i ∈ writes.map (·.1) := List.mem_map.2 ⟨_, hmem, rfl⟩
  obtain ⟨z, -, hget⟩ := (h.places i).1 hslot
  have hlt := (List.getElem?_eq_some_iff.1 hget).1
  refine ⟨i, hslot, hmem, getElem?_write_of_mem h.slots hmem ?_⟩
  rwa [(toFront_perm hfront).length_eq]

theorem exists_last {p : α → Prop} {xs : List α} (h : ∃ x ∈ xs, p x) :
    ∃ before x behind, xs = before ++ x :: behind ∧ p x ∧ ∀ y ∈ behind, ¬ p y := by
  induction xs with
  | nil =>
    obtain ⟨x, hx, -⟩ := h
    cases hx
  | cons z xs ih =>
    by_cases hrest : ∃ x ∈ xs, p x
    · obtain ⟨before, x, behind, rfl, hx, hbehind⟩ := ih hrest
      exact ⟨z :: before, x, behind, rfl, hx, hbehind⟩
    · obtain ⟨x, hx, hp⟩ := h
      have hz : p z := by
        rcases List.mem_cons.1 hx with rfl | hx
        · exact hp
        · exact absurd ⟨x, hx, hp⟩ hrest
      exact ⟨[], z, xs, rfl, hz, fun y hy hpy => hrest ⟨y, hy, hpy⟩⟩

/-- A written element with a chosen one behind it is written twice. -/
theorem Fits.aligned_of_nodup (h : Fits writes chosen xs)
    (hfront : front.Perm (xs.filter chosen))
    (hnodup : (write writes (toFront front chosen xs)).Nodup) : Aligned writes chosen xs := by
  by_cases hchosen : ∃ y ∈ xs, chosen y = true
  · obtain ⟨pre, b, post, hxs, hb, hpost⟩ := exists_last hchosen
    have hbfree : b ∉ writes.map (·.2) := fun hmem => by
      rw [(h.free b hmem).2] at hb
      cases hb
    by_cases hpre : ∃ a ∈ pre, a ∈ writes.map (·.2)
    · -- the last written element in front of `b` moves behind its slot
      obtain ⟨u, a, v, rfl, ha, hv⟩ := exists_last hpre
      have hafree : ¬ chosen a = true := fun htrue => by
        rw [(h.free a ha).2] at htrue
        cases htrue
      have hpostNone : post.filter chosen = [] := List.filter_eq_nil_iff.2 hpost
      have hcount : front.length = (u.filter chosen).length + (v.filter chosen).length + 1 := by
        rw [hfront.length_eq, hxs, List.filter_append, List.filter_append,
          List.filter_cons_of_neg hafree, List.filter_cons_of_pos hb, hpostNone]
        simp only [List.length_append, List.length_singleton]
      have hsplit : (u.filter chosen).length + (u.filter fun y => !chosen y).length = u.length := by
        rw [← List.length_append]
        exact (List.filter_append_perm chosen u).length_eq
      have hv' := List.length_filter_le chosen v
      generalize hq : front.length + (u.filter fun y => !chosen y).length = q
      have hat : (toFront front chosen xs)[q]? = some a := by
        have hparts : toFront front chosen xs = (front ++ u.filter fun y => !chosen y) ++
            a :: (v.filter (fun y => !chosen y) ++ (b :: post).filter fun y => !chosen y) := by
          rw [toFront, hxs, List.filter_append, List.filter_append,
            List.filter_cons_of_pos (by rw [(h.free a ha).2]; rfl)]
          simp only [List.append_assoc, List.cons_append]
        rw [hparts, ← hq, ← List.length_append, List.getElem?_append_right (Nat.le_refl _),
          Nat.sub_self]
        rfl
      have hother : ∃ y, xs[q]? = some y ∧ y ∉ writes.map (·.2) := by
        have hindex : xs[q]? = (v ++ b :: post)[(v.filter chosen).length]? := by
          have hq' : q = u.length + ((v.filter chosen).length + 1) := by omega
          rw [hxs, List.append_assoc, hq', List.getElem?_append_right (by omega),
            Nat.add_sub_cancel_left, List.cons_append, List.getElem?_cons_succ]
        rcases Nat.lt_or_eq_of_le hv' with hlt | heq
        · refine ⟨v[(v.filter chosen).length], ?_, hv _ (List.getElem_mem hlt)⟩
          rw [hindex, List.getElem?_append_left hlt, List.getElem?_eq_getElem hlt]
        · refine ⟨b, ?_, hbfree⟩
          rw [hindex, heq, List.getElem?_append_right (Nat.le_refl _), Nat.sub_self]
          rfl
      obtain ⟨y, hy, hyfree⟩ := hother
      have hnotslot := h.notMem_slots hy hyfree
      obtain ⟨i, hslot, -, hi⟩ := h.exists_slot hfront ha
      have hqa := (getElem?_write_of_notMem hnotslot).trans hat
      have hlt := (List.getElem?_eq_some_iff.1 hi).1
      have hiq := (List.getElem?_inj hlt hnodup).1 (hi.trans hqa.symm)
      exact absurd (hiq ▸ hslot) hnotslot
    · have hnone : ∀ a ∈ pre, a ∉ writes.map (·.2) := fun a ha hmem => hpre ⟨a, ha, hmem⟩
      unfold Aligned
      rw [hxs, List.pairwise_append, List.pairwise_cons]
      refine ⟨List.pairwise_of_forall_mem_list fun a ha _ _ hmem => absurd hmem (hnone a ha),
        ⟨fun y _ hmem => absurd hmem hbfree, ?_⟩, fun a ha y _ hmem => absurd hmem (hnone a ha)⟩
      exact List.pairwise_of_forall_mem_list fun a _ y hy _ => Bool.eq_false_iff.2 (hpost y hy)
  · exact List.pairwise_of_forall_mem_list fun a _ y hy _ =>
      Bool.eq_false_iff.2 fun htrue => hchosen ⟨y, hy, htrue⟩

/-- Aligned writes keep the elements apart. -/
theorem Fits.nodup_write (h : Fits writes chosen xs) (hxs : xs.Nodup)
    (hfront : front.Perm (xs.filter chosen)) (haligned : Aligned writes chosen xs) :
    (write writes (toFront front chosen xs)).Nodup := by
  have hfrontNodup := (toFront_perm hfront).nodup_iff.2 hxs
  have hplace : ∀ {i : Nat} {x : α}, (toFront front chosen xs)[i]? = some x →
      x ∈ writes.map (·.2) → i ∈ writes.map (·.1) := by
    intro i x hget hx
    obtain ⟨j, hj⟩ := List.mem_iff_getElem?.1
      ((toFront_perm hfront).mem_iff.1 (List.mem_of_getElem? hget))
    have hat := h.getElem?_toFront hfront haligned hx hj
    have hlt := (List.getElem?_eq_some_iff.1 hget).1
    obtain rfl := (List.getElem?_inj hlt hfrontNodup).1 (hget.trans hat.symm)
    exact (h.places _).2 ⟨x, hx, hj⟩
  refine List.nodup_iff_getElem?_ne_getElem?.2 fun i j hij hj heq => ?_
  obtain ⟨x, hx⟩ : ∃ x, (write writes (toFront front chosen xs))[j]? = some x :=
    ⟨_, List.getElem?_eq_getElem hj⟩
  rcases mem_write h.slots (heq.trans hx) with hi | ⟨hi, hix⟩
  · rcases mem_write h.slots hx with hj | ⟨hj, hjx⟩
    · have hsame := List.inj_on_of_nodup_map h.names hi hj rfl
      exact absurd (congrArg Prod.fst hsame) (Nat.ne_of_lt hij)
    · exact hj (hplace hjx (List.mem_map.2 ⟨_, hi, rfl⟩))
  · rcases mem_write h.slots hx with hj | ⟨hj, hjx⟩
    · exact hi (hplace hix (List.mem_map.2 ⟨_, hj, rfl⟩))
    · have hlt := (List.getElem?_eq_some_iff.1 hix).1
      exact absurd ((List.getElem?_inj hlt hfrontNodup).1 (hix.trans hjx.symm))
        (Nat.ne_of_lt hij)

/-- Nothing is lost and nothing doubled exactly if no chosen element stands behind a written
one. -/
theorem Fits.perm_iff (h : Fits writes chosen xs) (hxs : xs.Nodup)
    (hfront : front.Perm (xs.filter chosen)) :
    (write writes (toFront front chosen xs)).Perm xs ↔ Aligned writes chosen xs := by
  refine ⟨fun hperm => h.aligned_of_nodup hfront (hperm.nodup_iff.2 hxs), fun haligned => ?_⟩
  have hsubset : write writes (toFront front chosen xs) ⊆ xs := by
    intro x hx
    obtain ⟨i, hi⟩ := List.mem_iff_getElem?.1 hx
    rcases mem_write h.slots hi with hmem | ⟨-, hget⟩
    · exact (h.free x (List.mem_map.2 ⟨_, hmem, rfl⟩)).1
    · exact (toFront_perm hfront).mem_iff.1 (List.mem_of_getElem? hget)
  refine (List.subperm_of_subset (h.nodup_write hxs hfront haligned)
    hsubset).perm_of_length_le (Nat.le_of_eq ?_)
  rw [length_write, (toFront_perm hfront).length_eq]

end Front

end Lib.Slots
