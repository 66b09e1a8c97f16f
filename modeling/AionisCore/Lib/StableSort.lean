import Mathlib.Data.List.Basic

/-!
# Stable sorting

A stable sort leaves elements that tie in the order it finds them. So two lists with the same
elements, which hold the elements of each tie in the same order, sort to the same list, and a
list that was sorted by other keys before sorts as if it had not been.
-/

namespace Lib.StableSort

variable {α : Type} {le le' : α → α → Bool} {l l' : List α}

/-- A comparison that ranks all elements, some of them alike. -/
structure Ranks (le : α → α → Bool) : Prop where
  trans : ∀ a b c, le a b → le b c → le a c
  total : ∀ a b, le a b || le b a

def tie (le : α → α → Bool) (a b : α) : Bool := le a b && le b a

section

variable (h : Ranks le)

include h

theorem Ranks.refl (a : α) : le a a := by
  have := h.total a a
  rwa [Bool.or_self] at this

theorem Ranks.tie_self (a : α) : tie le a a := by
  unfold tie
  rw [h.refl, Bool.true_and]

theorem Ranks.pairwise_filter (a : α) (l : List α) :
    (l.filter (tie le a)).Pairwise fun b c => le b c := by
  refine List.pairwise_of_forall_mem_list fun b hb c hc => ?_
  have hb := (Bool.and_eq_true _ _ ▸ (List.mem_filter.1 hb).2 : le a b = true ∧ le b a = true)
  have hc := (Bool.and_eq_true _ _ ▸ (List.mem_filter.1 hc).2 : le a c = true ∧ le c a = true)
  exact h.trans b a c hb.2 hc.1

/-- Sorting keeps the elements of a tie as they stand. -/
theorem Ranks.filter_mergeSort (a : α) (l : List α) :
    (l.mergeSort le).filter (tie le a) = l.filter (tie le a) := by
  have hsub : (l.filter (tie le a)).Sublist (l.mergeSort le) :=
    List.sublist_mergeSort h.trans h.total (h.pairwise_filter a l) List.filter_sublist
  have hsub := hsub.filter (tie le a)
  rw [List.filter_filter, funext fun b => Bool.and_self (tie le a b)] at hsub
  have hlength := ((List.mergeSort_perm l le).filter (tie le a)).length_eq
  exact (hsub.eq_of_length hlength.symm).symm

/-- A sorted list is known by its ties. -/
theorem Ranks.eq_of_filter (hl : l.Pairwise fun a b => le a b) (hl' : l'.Pairwise fun a b => le a b)
    (hties : ∀ a, l.filter (tie le a) = l'.filter (tie le a)) : l = l' := by
  induction l generalizing l' with
  | nil =>
    cases l' with
    | nil => rfl
    | cons b t' =>
      have hb := hties b
      rw [List.filter_cons_of_pos (h.tie_self b), List.filter_nil] at hb
      cases hb
  | cons a t ih =>
    cases l' with
    | nil =>
      have ha := hties a
      rw [List.filter_cons_of_pos (h.tie_self a), List.filter_nil] at ha
      cases ha
    | cons b t' =>
      have hmem : ∀ c, c ∈ a :: t ↔ c ∈ b :: t' := by
        intro c
        have hc := congrArg (c ∈ ·) (hties c)
        simp only [List.mem_filter, h.tie_self c, and_true] at hc
        exact iff_of_eq hc
      have hba : le b a := by
        rcases List.mem_cons.1 ((hmem a).1 List.mem_cons_self) with rfl | ha
        · exact h.refl a
        · exact List.rel_of_pairwise_cons hl' ha
      have hab : le a b := by
        rcases List.mem_cons.1 ((hmem b).2 List.mem_cons_self) with rfl | hb
        · exact h.refl b
        · exact List.rel_of_pairwise_cons hl hb
      have htie : tie le a b := by
        unfold tie
        rw [hab, hba, Bool.true_and]
      have hhead := hties a
      rw [List.filter_cons_of_pos (h.tie_self a), List.filter_cons_of_pos htie] at hhead
      obtain ⟨rfl, -⟩ := List.cons.inj hhead
      refine congrArg (a :: ·) (ih (List.Pairwise.of_cons hl) (List.Pairwise.of_cons hl') ?_)
      intro c
      have hc := hties c
      rw [List.filter_cons, List.filter_cons] at hc
      split at hc
      · exact (List.cons.inj hc).2
      · exact hc

/-- Lists with the same ties sort to the same list. -/
theorem Ranks.mergeSort_congr (hties : ∀ a, l.filter (tie le a) = l'.filter (tie le a)) :
    l.mergeSort le = l'.mergeSort le := by
  refine h.eq_of_filter (List.pairwise_mergeSort h.trans h.total l)
    (List.pairwise_mergeSort h.trans h.total l') fun a => ?_
  rw [h.filter_mergeSort, h.filter_mergeSort, hties]

theorem Ranks.filter_mergeSort_comm (p : α → Bool) (l : List α) :
    (l.mergeSort le).filter p = (l.filter p).mergeSort le := by
  refine h.eq_of_filter ((List.pairwise_mergeSort h.trans h.total l).filter p)
    (List.pairwise_mergeSort h.trans h.total (l.filter p)) fun a => ?_
  rw [h.filter_mergeSort, List.filter_comm, h.filter_mergeSort, List.filter_comm]

/-- A sort does not see an earlier one that ties where it does. -/
theorem Ranks.mergeSort_mergeSort (h' : Ranks le')
    (htie : ∀ a b, tie le a b = true → tie le' a b = true) :
    (l.mergeSort le').mergeSort le = l.mergeSort le := by
  refine h.mergeSort_congr fun a => ?_
  rw [h'.filter_mergeSort_comm, List.mergeSort_of_pairwise]
  refine List.pairwise_of_forall_mem_list fun b hb c hc => ?_
  have hb := htie a b (List.mem_filter.1 hb).2
  have hc := htie a c (List.mem_filter.1 hc).2
  unfold tie at hb hc
  rw [Bool.and_eq_true] at hb hc
  exact h'.trans b a c hb.2 hc.1

/-! ## Comparisons made of others -/

theorem Ranks.flip : Ranks fun a b => le b a :=
  ⟨fun a b c hab hbc => h.trans c b a hbc hab, fun a b => h.total b a⟩

end

theorem tie_flip : tie (fun a b => le b a) = tie le :=
  funext fun a => funext fun b => Bool.and_comm (le b a) (le a b)

theorem Ranks.comap {β : Type} (h : Ranks le) (f : β → α) : Ranks fun a b => le (f a) (f b) :=
  ⟨fun a b c => h.trans (f a) (f b) (f c), fun a b => h.total (f a) (f b)⟩

/-- By the first comparison, and by the second where the first ties. -/
def lex (le le' : α → α → Bool) (a b : α) : Bool := if tie le a b then le' a b else le a b

theorem Ranks.lex_iff (h : Ranks le) {a b : α} :
    lex le le' a b ↔ le a b ∧ (le b a → le' a b) := by
  unfold lex tie
  have htotal := h.total a b
  cases hab : le a b <;> cases hba : le b a <;> simp_all

theorem Ranks.lex (h : Ranks le) (h' : Ranks le') : Ranks (lex le le') where
  trans a b c hab hbc := by
    rw [h.lex_iff] at hab hbc ⊢
    refine ⟨h.trans a b c hab.1 hbc.1, fun hca => ?_⟩
    exact h'.trans a b c (hab.2 (h.trans b c a hbc.1 hca)) (hbc.2 (h.trans c a b hca hab.1))
  total a b := by
    rw [Bool.or_eq_true, h.lex_iff, h.lex_iff]
    have htotal := Bool.or_eq_true _ _ ▸ h.total a b
    have htotal' := Bool.or_eq_true _ _ ▸ h'.total a b
    by_cases hab : le a b
    · by_cases hba : le b a
      · exact htotal'.imp (fun hl => ⟨hab, fun _ => hl⟩) fun hl => ⟨hba, fun _ => hl⟩
      · exact .inl ⟨hab, fun h => absurd h hba⟩
    · exact .inr ⟨htotal.resolve_left hab, fun h => absurd h hab⟩

theorem Ranks.tie_lex (h : Ranks le) : tie (StableSort.lex le le') = fun a b =>
    tie le a b && tie le' a b := by
  funext a b
  rw [Bool.eq_iff_iff]
  unfold tie
  simp only [Bool.and_eq_true, h.lex_iff]
  constructor
  · rintro ⟨⟨hab, hba'⟩, hba, hab'⟩
    exact ⟨⟨hab, hba⟩, hba' hba, hab' hab⟩
  · rintro ⟨⟨hab, hba⟩, hab', hba'⟩
    exact ⟨⟨hab, fun _ => hab'⟩, hba, fun _ => hba'⟩

theorem mergeSort_congr_on (h : ∀ a ∈ l, ∀ b ∈ l, le a b = le' a b) :
    l.mergeSort le = l.mergeSort le' := by
  have hmap := List.map_mergeSort (f := id) h
  rwa [List.map_id, List.map_id] at hmap

/-! ## Places -/

/-- How many elements of a list stand before `x` after a stable sort: those before it that are not
above it, and those behind it that are below. -/
def place (le : α → α → Bool) (before : List α) (x : α) (after : List α) : Nat :=
  before.countP (fun y => le y x) + after.countP fun y => !le x y

theorem countP_le_eq (h : Ranks le) (x : α) (l : List α) :
    l.countP (fun y => le y x) = (l.filter (tie le x)).length + l.countP fun y => !le x y := by
  induction l with
  | nil => rfl
  | cons y l ih =>
    rw [List.countP_cons, ih, List.filter_cons, List.countP_cons]
    have htotal := h.total x y
    unfold tie
    cases hxy : le x y <;> cases hyx : le y x <;> simp_all <;> omega

theorem Ranks.mergeSort_place (h : Ranks le) {before after : List α} {x : α}
    (hnodup : (before ++ x :: after).Nodup) :
    ∃ pre post, (before ++ x :: after).mergeSort le = pre ++ x :: post ∧
      pre.length = place le before x after := by
  have hmem : x ∈ (before ++ x :: after).mergeSort le := List.mem_mergeSort.2 (by simp)
  obtain ⟨pre, post, hsplit⟩ := List.append_of_mem hmem
  have hperm := List.mergeSort_perm (before ++ x :: after) le
  have hsorted := List.pairwise_mergeSort h.trans h.total (before ++ x :: after)
  have htie := h.filter_mergeSort x (before ++ x :: after)
  have hnodup' := hperm.nodup_iff.2 hnodup
  rw [hsplit] at hperm hsorted htie hnodup'
  refine ⟨pre, post, hsplit, ?_⟩
  obtain ⟨-, hcons, hcross⟩ := List.pairwise_append.1 hsorted
  -- the ties in front are those that stood in front
  have hpre : pre.filter (tie le x) = before.filter (tie le x) := by
    rw [List.filter_append, List.filter_append, List.filter_cons_of_pos (h.tie_self x),
      List.filter_cons_of_pos (h.tie_self x)] at htie
    have hx : x ∉ pre.filter (tie le x) := fun hmem =>
      (List.nodup_append.1 hnodup').2.2 x (List.mem_filter.1 hmem).1 x List.mem_cons_self rfl
    have hx' : x ∉ post.filter (tie le x) := fun hmem =>
      (List.nodup_cons.1 (List.nodup_append.1 hnodup').2.1).1 (List.mem_filter.1 hmem).1
    exact ((List.append_cons_inj_of_notMem hx hx').1 htie).1
  have hall : pre.countP (fun y => le y x) = pre.length :=
    List.countP_eq_length.2 fun y hy => hcross y hy x List.mem_cons_self
  have hpost : post.countP (fun y => !le x y) = 0 :=
    List.countP_eq_zero.2 fun y hy => by
      rw [List.rel_of_pairwise_cons hcons hy]
      exact Bool.noConfusion
  have hcount := hperm.countP_eq fun y => !le x y
  rw [List.countP_append, List.countP_append, List.countP_cons, List.countP_cons, hpost] at hcount
  have hbefore := countP_le_eq h x before
  have hpre' := countP_le_eq h x pre
  unfold place
  rw [hpre] at hpre'
  omega

variable {k : Nat}

/-- The elements that a stable sort puts in front of a place. -/
theorem Ranks.mem_take_mergeSort (h : Ranks le) {before after : List α} {x : α}
    (hnodup : (before ++ x :: after).Nodup) :
    x ∈ ((before ++ x :: after).mergeSort le).take k ↔ place le before x after < k := by
  obtain ⟨pre, post, hsplit, hplace⟩ := h.mergeSort_place hnodup
  have hnodup' := (List.mergeSort_perm (before ++ x :: after) le).nodup_iff.2 hnodup
  rw [hsplit] at hnodup' ⊢
  have hpre : x ∉ pre := fun hmem =>
    (List.nodup_append.1 hnodup').2.2 x hmem x List.mem_cons_self rfl
  rw [← hplace, List.take_append, List.mem_append]
  refine ⟨fun hmem => ?_, fun hlt => .inr ?_⟩
  · rcases hmem with hmem | hmem
    · exact absurd (List.mem_of_mem_take hmem) hpre
    · by_contra hle
      rw [Nat.sub_eq_zero_of_le (Nat.not_lt.1 hle)] at hmem
      cases hmem
  · obtain ⟨m, hm⟩ := Nat.exists_eq_add_of_lt hlt
    rw [show k - pre.length = m + 1 by omega, List.take_succ_cons]
    exact List.mem_cons_self


/-- Elements that tie only with themselves are in front if less than `k` are below. -/
theorem Ranks.mem_take_iff (h : Ranks le) {l : List α} {x : α} (hnodup : l.Nodup)
    (hanti : ∀ a ∈ l, ∀ b ∈ l, le a b = true → le b a = true → a = b) (hx : x ∈ l) :
    x ∈ (l.mergeSort le).take k ↔ l.countP (fun y => !le x y) < k := by
  obtain ⟨before, after, rfl⟩ := List.append_of_mem hx
  rw [h.mem_take_mergeSort hnodup]
  have hbefore : before.countP (fun y => le y x) = before.countP fun y => !le x y := by
    refine List.countP_congr fun y hy => ?_
    have hne : y ≠ x := fun heq =>
      (List.nodup_append.1 hnodup).2.2 y hy x List.mem_cons_self heq
    rw [Bool.not_eq_true']
    refine ⟨fun hyx => ?_, fun hxy => ?_⟩
    · by_contra hxy
      exact hne (hanti y (List.mem_append_left _ hy) x hx hyx (by simpa using hxy))
    · have htotal := h.total x y
      rwa [hxy, Bool.false_or] at htotal
  rw [List.countP_append, List.countP_cons, h.refl]
  unfold place
  rw [hbefore]
  rfl

/-- The first that passes a test, of the first `k` of a sorted list. -/
theorem Ranks.find?_take_mergeSort (h : Ranks le) {l : List α} {x : α} {p : α → Bool}
    (hfind : ((l.mergeSort le).take k).find? p = some x) :
    x ∈ (l.mergeSort le).take k ∧ p x = true ∧ ∀ y ∈ l, p y = true → le x y = true := by
  obtain ⟨hp, as, bs, hsplit, has⟩ := List.find?_eq_some_iff_append.1 hfind
  refine ⟨by rw [hsplit]; simp, hp, fun y hy hpy => ?_⟩
  have hsorted := List.pairwise_mergeSort h.trans h.total l
  have hall : l.mergeSort le = as ++ x :: (bs ++ (l.mergeSort le).drop k) := by
    rw [← List.cons_append, ← List.append_assoc, ← hsplit, List.take_append_drop]
  rw [hall] at hsorted
  have hmem : y ∈ l.mergeSort le := List.mem_mergeSort.2 hy
  rw [hall] at hmem
  rcases List.mem_append.1 hmem with hy | hy
  · have hnot := has y hy
    rw [hpy] at hnot
    cases hnot
  · rcases List.mem_cons.1 hy with rfl | hy
    · exact h.refl y
    · exact List.rel_of_pairwise_cons (List.pairwise_append.1 hsorted).2.1 hy

/-- A stable sort of more elements starts alike if none of the new ones comes that far. -/
theorem Ranks.take_mergeSort_append (h : Ranks le) {xs ys : List α} (hnodup : (xs ++ ys).Nodup)
    (hfar : ∀ before y after, ys = before ++ y :: after → k ≤ place le (xs ++ before) y after) :
    ((xs ++ ys).mergeSort le).take k = (xs.mergeSort le).take k := by
  classical
  have hdisjoint := (List.nodup_append.1 hnodup).2.2
  have hxs : (xs ++ ys).filter (· ∈ xs) = xs := by
    rw [List.filter_append, List.filter_eq_self.2 (by simp), List.filter_eq_nil_iff.2,
      List.append_nil]
    intro y hy hmem
    exact hdisjoint y (of_decide_eq_true hmem) y hy rfl
  have htake : ∀ x ∈ ((xs ++ ys).mergeSort le).take k, decide (x ∈ xs) = true := by
    intro x hx
    have hmem := List.mem_mergeSort.1 (List.mem_of_mem_take hx)
    rcases List.mem_append.1 hmem with hxs | hys
    · exact decide_eq_true hxs
    · obtain ⟨before, after, rfl⟩ := List.append_of_mem hys
      rw [← List.append_assoc] at hx hnodup
      have hlt := (h.mem_take_mergeSort hnodup).1 hx
      exact absurd hlt (Nat.not_lt.2 (hfar before x after rfl))
  have hsort : xs.mergeSort le = ((xs ++ ys).mergeSort le).filter (· ∈ xs) := by
    rw [h.filter_mergeSort_comm, hxs]
  rw [hsort]
  generalize (xs ++ ys).mergeSort le = s at htake
  conv_rhs => rw [← List.take_append_drop k s, List.filter_append, List.filter_eq_self.2 htake]
  rw [List.take_append, List.take_take, Nat.min_self]
  by_cases hk : k ≤ s.length
  · rw [List.length_take, Nat.min_eq_left hk, Nat.sub_self, List.take_zero, List.append_nil]
  · rw [List.drop_eq_nil_of_le (Nat.le_of_lt (Nat.not_le.1 hk)), List.filter_nil, List.take_nil,
      List.append_nil]

end Lib.StableSort
