import AionisCore.Lib.JsString

/-!
# Regular expressions

Greedy regular expressions over characters and the search for their matches from left to right.
A pattern may ask for a word boundary before and after its match. `Lang` is the language of an
expression and `ways` the matches at the front of a text in the order in which a backtracking
matcher tries them. `pieces` cuts a text into the matches found and the characters between them.
-/

namespace Lib.Regex

/-- A class repeated (without bound if there is no `hi`), a sequence, an alternative, an option. -/
inductive Re where
  | chars (p : Char → Bool) (lo : Nat) (hi : Option Nat)
  | seq (r s : Re)
  | alt (r s : Re)
  | opt (r : Re)

namespace Re

def Lang : Re → List Char → Prop
  | .chars p lo hi, m => (∀ c ∈ m, p c = true) ∧ lo ≤ m.length ∧ ∀ k ∈ hi, m.length ≤ k
  | .seq r s, m => ∃ x y, m = x ++ y ∧ r.Lang x ∧ s.Lang y
  | .alt r s, m => r.Lang m ∨ s.Lang m
  | .opt r, m => r.Lang m ∨ m = []

/-- Matches at the front with what stands behind them, the preferred ones first. -/
def ways : Re → List Char → List (List Char × List Char)
  | .chars p lo hi, t =>
    let most := (t.takeWhile p).length
    let most := hi.elim most (min most)
    (List.range' lo (most + 1 - lo)).reverse.map t.splitAt
  | .seq r s, t => (r.ways t).flatMap fun (x, u) => (s.ways u).map fun (y, v) => (x ++ y, v)
  | .alt r s, t => r.ways t ++ s.ways t
  | .opt r, t => r.ways t ++ [([], t)]

/-- A bound below the lengths of the matches. -/
def least : Re → Nat
  | .chars _ lo _ => lo
  | .seq r s => r.least + s.least
  | .alt r s => min r.least s.least
  | .opt _ => 0

/-- A class of the expression has the character. -/
def reads (c : Char) : Re → Bool
  | .chars p _ _ => p c
  | .seq r s => r.reads c || s.reads c
  | .alt r s => r.reads c || s.reads c
  | .opt r => r.reads c

variable {r : Re} {m : List Char}

theorem mem_ways_chars {p : Char → Bool} {lo : Nat} {hi : Option Nat} {t b : List Char} :
    (m, b) ∈ (Re.chars p lo hi).ways t ↔ t = m ++ b ∧ (Re.chars p lo hi).Lang m := by
  have hmost : ∀ k, k ≤ hi.elim (t.takeWhile p).length (min (t.takeWhile p).length) ↔
      k ≤ (t.takeWhile p).length ∧ ∀ h ∈ hi, k ≤ h := by
    intro k
    cases hi <;> simp
  simp only [ways, Lang, List.mem_map, List.mem_reverse, List.mem_range'_1, List.splitAt_eq,
    Prod.mk.injEq]
  refine ⟨?_, ?_⟩
  · rintro ⟨k, ⟨hlo, hlt⟩, rfl, rfl⟩
    obtain ⟨hrun, hhi⟩ := (hmost k).1 (by omega)
    have hlen : (t.take k).length = k := by
      rw [List.length_take, Nat.min_eq_left (hrun.trans (List.takeWhile_sublist p).length_le)]
    refine ⟨(List.take_append_drop k t).symm, fun c hc => ?_, by omega, by rwa [hlen]⟩
    have hlenRun : ((t.takeWhile p).take k).length = k := by
      rw [List.length_take, Nat.min_eq_left hrun]
    have htake : t.take k = (t.takeWhile p).take k :=
      (List.prefix_of_prefix_length_le (List.take_prefix k t)
        ((List.take_prefix k _).trans (List.takeWhile_prefix p))
        (by rw [hlen, hlenRun])).eq_of_length (by rw [hlen, hlenRun])
    rw [htake] at hc
    exact List.mem_takeWhile_imp (List.mem_of_mem_take hc)
  · rintro ⟨rfl, hp, hlo, hhi⟩
    have hrun : m.length ≤ ((m ++ b).takeWhile p).length := by
      rw [List.takeWhile_append_of_pos hp, List.length_append]
      omega
    have hle := (hmost m.length).2 ⟨hrun, hhi⟩
    refine ⟨m.length, ⟨hlo, by omega⟩, ?_, ?_⟩
    · simp
    · simp

theorem mem_ways {t b : List Char} : (m, b) ∈ r.ways t ↔ t = m ++ b ∧ r.Lang m := by
  induction r generalizing t m b with
  | chars p lo hi => exact mem_ways_chars
  | seq r s ihr ihs =>
    simp only [ways, Lang, List.mem_flatMap, List.mem_map, Prod.exists, Prod.mk.injEq, ihr, ihs]
    refine ⟨?_, ?_⟩
    · rintro ⟨x, u, ⟨rfl, hx⟩, y, v, ⟨rfl, hy⟩, rfl, rfl⟩
      exact ⟨(List.append_assoc x y v).symm, x, y, rfl, hx, hy⟩
    · rintro ⟨rfl, x, y, rfl, hx, hy⟩
      exact ⟨x, y ++ b, ⟨List.append_assoc x y b, hx⟩, y, b, ⟨rfl, hy⟩, rfl, rfl⟩
  | alt r s ihr ihs =>
    simp only [ways, Lang, List.mem_append, ihr, ihs]
    exact and_or_left.symm
  | opt r ih =>
    simp only [ways, Lang, List.mem_append, List.mem_singleton, Prod.mk.injEq, ih]
    refine ⟨?_, ?_⟩
    · rintro (⟨ht, hm⟩ | ⟨rfl, rfl⟩)
      · exact ⟨ht, .inl hm⟩
      · exact ⟨rfl, .inr rfl⟩
    · rintro ⟨rfl, hm | rfl⟩
      · exact .inl ⟨rfl, hm⟩
      · exact .inr ⟨rfl, rfl⟩

theorem Lang.least_le (h : r.Lang m) : r.least ≤ m.length := by
  induction r generalizing m with
  | chars p lo hi => exact h.2.1
  | seq r s ihr ihs =>
    obtain ⟨x, y, rfl, hx, hy⟩ := h
    have hx := ihr hx
    have hy := ihs hy
    rw [least, List.length_append]
    omega
  | alt r s ihr ihs =>
    rw [least]
    rcases h with h | h
    · exact (min_le_left _ _).trans (ihr h)
    · exact (min_le_right _ _).trans (ihs h)
  | opt r ih => exact Nat.zero_le _

theorem Lang.reads (h : r.Lang m) : ∀ c ∈ m, r.reads c = true := by
  intro c hc
  induction r generalizing m with
  | chars p lo hi => exact h.1 c hc
  | seq r s ihr ihs =>
    obtain ⟨x, y, rfl, hx, hy⟩ := h
    rw [Re.reads, Bool.or_eq_true]
    rcases List.mem_append.1 hc with hc | hc
    · exact .inl (ihr hx hc)
    · exact .inr (ihs hy hc)
  | alt r s ihr ihs =>
    rw [Re.reads, Bool.or_eq_true]
    exact h.imp (fun h => ihr h hc) fun h => ihs h hc
  | opt r ih =>
    rcases h with h | rfl
    · exact ih h hc
    · cases hc

end Re

/-! ## Patterns -/

/-- `\w`. -/
def isWord (c : Char) : Bool := c.isAlphanum || c = '_'

/-- `\b` between the characters, if there are any. -/
def boundary (x y : Option Char) : Bool := x.any isWord != y.any isWord

/-- An expression, between boundaries where it asks for them. No match is empty. -/
structure Pattern where
  left : Bool
  re : Re
  right : Bool
  pos : 0 < re.least

namespace Pattern

/-- The part of a text between two others matches. -/
structure At (pat : Pattern) (a m b : List Char) : Prop where
  lang : pat.re.Lang m
  left : pat.left = true → boundary a.getLast? m.head? = true
  right : pat.right = true → boundary m.getLast? b.head? = true

/-- The text has a part that matches. -/
def Occurs (pat : Pattern) (t : List Char) : Prop := ∃ a m b, t = a ++ m ++ b ∧ pat.At a m b

/-- The match at the front of a text, behind a character if there is one. -/
def matchAt (pat : Pattern) (before : Option Char) (t : List Char) : Option (List Char) :=
  if pat.left && !boundary before t.head? then none
  else ((pat.re.ways t).find? fun (m, b) =>
    !pat.right || boundary m.getLast? b.head?).map (·.1)

inductive Piece where
  | plain (c : Char)
  | found (m : List Char)
  deriving DecidableEq, Repr

/-- The search from a place on, the first of whose characters belong to the last match. -/
def scan (pat : Pattern) : Nat → Option Char → List Char → List Piece
  | _, _, [] => []
  | skip + 1, _, c :: t => scan pat skip (some c) t
  | 0, before, c :: t =>
    match pat.matchAt before (c :: t) with
    | some m => .found m :: scan pat (m.length - 1) (some c) t
    | none => .plain c :: scan pat 0 (some c) t

def pieces (pat : Pattern) (t : List Char) : List Piece := pat.scan 0 none t

/-- The text that pieces make up with something else in place of the matches. -/
def render (tag : List Char → List Char) (ps : List Piece) : List Char :=
  ps.flatMap fun
    | .plain c => [c]
    | .found m => tag m

/-- `t.replace(pat, tag)`. -/
def replace (pat : Pattern) (tag : List Char → List Char) (t : List Char) : List Char :=
  render tag (pat.pieces t)

variable {pat : Pattern} {before : Option Char} {t m : List Char}

theorem matchAt_eq_some (h : pat.matchAt before t = some m) :
    ∃ b, t = m ++ b ∧ pat.re.Lang m ∧ (pat.left = true → boundary before t.head? = true) ∧
      (pat.right = true → boundary m.getLast? b.head? = true) := by
  unfold matchAt at h
  split at h
  · cases h
  · next hleft =>
    obtain ⟨⟨m', b⟩, hfind, rfl⟩ := Option.map_eq_some_iff.1 h
    obtain ⟨ht, hlang⟩ := Re.mem_ways.1 (List.mem_of_find?_eq_some hfind)
    have hright := List.find?_some hfind
    refine ⟨b, ht, hlang, by simpa using hleft, fun hflag => ?_⟩
    simpa [hflag] using hright

theorem matchAt_eq_none {b : List Char} (h : pat.matchAt before (m ++ b) = none)
    (hlang : pat.re.Lang m) (hleft : pat.left = true → boundary before (m ++ b).head? = true)
    (hright : pat.right = true → boundary m.getLast? b.head? = true) : False := by
  unfold matchAt at h
  split at h
  · next hno =>
    rw [Bool.and_eq_true, Bool.not_eq_true'] at hno
    rw [hleft hno.1] at hno
    cases hno.2
  · rw [Option.map_eq_none_iff, List.find?_eq_none] at h
    refine h (m, b) (Re.mem_ways.2 ⟨rfl, hlang⟩) ?_
    cases hflag : pat.right with
    | false => rfl
    | true => exact hright hflag

theorem ne_nil_of_lang (pat : Pattern) (h : pat.re.Lang m) : m ≠ [] := by
  rintro rfl
  have hle := h.least_le
  have hpos := pat.pos
  simp only [List.length_nil] at hle
  omega

/-! ## The search -/

variable {ps : List Piece}

theorem scan_skip {x : List Char} :
    pat.scan x.length before (x ++ t) = pat.scan 0 (x.getLast?.or before) t := by
  induction x generalizing before with
  | nil => rfl
  | cons c x ih =>
    rw [List.length_cons, List.cons_append, scan, ih, List.getLast?_cons]
    cases x.getLast? <;> rfl

/-- What the search does at the front of a text. -/
theorem scan_cases (pat : Pattern) (before : Option Char) (t : List Char) :
    (t = [] ∧ pat.scan 0 before t = []) ∨
    (∃ c u, t = c :: u ∧ pat.matchAt before t = none ∧
      pat.scan 0 before t = .plain c :: pat.scan 0 (some c) u) ∨
    ∃ m u, t = m ++ u ∧ m ≠ [] ∧ pat.matchAt before t = some m ∧
      pat.scan 0 before t = .found m :: pat.scan 0 m.getLast? u := by
  cases t with
  | nil => exact .inl ⟨rfl, rfl⟩
  | cons c u =>
    right
    cases hm : pat.matchAt before (c :: u) with
    | none => exact .inl ⟨c, u, rfl, rfl, by rw [scan, hm]⟩
    | some m =>
      obtain ⟨b, hb, hlang, -⟩ := matchAt_eq_some hm
      obtain ⟨d, x, rfl⟩ := List.exists_cons_of_ne_nil (pat.ne_nil_of_lang hlang)
      obtain ⟨rfl, rfl⟩ : c = d ∧ u = x ++ b := List.cons.inj hb
      refine .inr ⟨c :: x, b, rfl, by simp, rfl, ?_⟩
      rw [scan, hm]
      simp only [List.length_cons, Nat.add_sub_cancel, scan_skip, List.getLast?_cons]
      cases x.getLast? <;> rfl

@[simp] theorem render_nil {tag : List Char → List Char} : render tag [] = [] := rfl

@[simp] theorem render_append {tag : List Char → List Char} {qs : List Piece} :
    render tag (ps ++ qs) = render tag ps ++ render tag qs := List.flatMap_append

@[simp] theorem render_plain {tag : List Char → List Char} {c : Char} :
    render tag (.plain c :: ps) = c :: render tag ps := rfl

@[simp] theorem render_found {tag : List Char → List Char} :
    render tag (.found m :: ps) = tag m ++ render tag ps := rfl

@[simp] theorem render_run {tag : List Char → List Char} :
    render tag (m.map .plain) = m := by
  induction m with
  | nil => rfl
  | cons c m ih => rw [List.map_cons, render_plain, ih]

/-- What the search has asked at a piece, behind a character and before a text. -/
def Asked (pat : Pattern) (before : Option Char) (rest : List Char) : Piece → Prop
  | .plain c => pat.matchAt before (c :: rest) = none
  | .found m => pat.matchAt before (m ++ rest) = some m

theorem getLast?_append_or {x y : List Char} {o : Option Char} :
    (x ++ y).getLast?.or o = y.getLast?.or (x.getLast?.or o) := by
  rw [List.getLast?_append, Option.or_assoc]

/-- The pieces make up the text, and at each the search has asked for a match. -/
theorem scan_spec (pat : Pattern) (before : Option Char) (t : List Char) :
    render id (pat.scan 0 before t) = t ∧
    ∀ ps p qs, pat.scan 0 before t = ps ++ p :: qs →
      Asked pat ((render id ps).getLast?.or before) (render id qs) p := by
  induction hn : t.length using Nat.strong_induction_on generalizing before t with
  | _ n ih =>
  obtain ⟨rfl, hscan⟩ | ⟨c, u, rfl, hm, hscan⟩ | ⟨m, u, rfl, hne, hm, hscan⟩ :=
    scan_cases pat before t
  · simp [hscan]
  · obtain ⟨hsource, hasked⟩ := ih u.length (by simp [← hn]) (some c) u rfl
    rw [hscan]
    refine ⟨by rw [render_plain, hsource], ?_⟩
    rintro (_ | ⟨p, ps⟩) q qs heq
    · cases heq
      rw [hsource]
      exact hm
    · obtain ⟨rfl, hrest⟩ := List.cons.inj heq
      have hlast := @getLast?_append_or [c] (render id ps) before
      rw [render_plain, ← List.singleton_append, hlast]
      exact hasked ps q qs hrest
  · have hpos := List.length_pos_iff.2 hne
    obtain ⟨hsource, hasked⟩ :=
      ih u.length (by rw [← hn, List.length_append]; omega) m.getLast? u rfl
    rw [hscan]
    refine ⟨by rw [render_found, hsource, id], ?_⟩
    rintro (_ | ⟨p, ps⟩) q qs heq
    · cases heq
      rw [hsource]
      exact hm
    · obtain ⟨rfl, hrest⟩ := List.cons.inj heq
      have hlast : m.getLast?.or before = m.getLast? := by
        rw [List.getLast?_eq_getLast_of_ne_nil hne]
        rfl
      rw [render_found, id, getLast?_append_or, hlast]
      exact hasked ps q qs hrest

theorem render_id_pieces (pat : Pattern) (t : List Char) : render id (pat.pieces t) = t :=
  (scan_spec pat none t).1

theorem asked_pieces {qs : List Piece} {p : Piece} (h : pat.pieces t = ps ++ p :: qs) :
    Asked pat (render id ps).getLast? (render id qs) p := by
  have hasked := (scan_spec pat none t).2 ps p qs h
  rwa [Option.or_none] at hasked

/-! ## What is left after a replacement -/

/-- The text has no part in a language, and its ends are characters of none of its words. -/
structure Inert (L : List Char → Prop) (t : List Char) : Prop where
  front : ∃ c u, t = c :: u ∧ ∀ m, L m → c ∉ m
  back : ∃ u c, t = u ++ [c] ∧ ∀ m, L m → c ∉ m
  within : ∀ a m b, t = a ++ m ++ b → ¬ L m

variable {tag : List Char → List Char}

theorem run_of_front {b : List Char} (h : render tag ps = m ++ b)
    (htag : ∀ w, .found w ∈ ps → ∃ c u, tag w = c :: u ∧ c ∉ m) :
    ∃ qs, ps = m.map .plain ++ qs ∧ render tag qs = b := by
  induction m generalizing ps with
  | nil => exact ⟨ps, rfl, h⟩
  | cons d m ih =>
    cases ps with
    | nil => cases h
    | cons p ps =>
      cases p with
      | plain c =>
        obtain ⟨rfl, hrest⟩ := List.cons.inj h
        obtain ⟨qs, rfl, hqs⟩ := ih hrest fun w hw => by
          obtain ⟨e, u, heq, he⟩ := htag w (List.mem_cons_of_mem _ hw)
          exact ⟨e, u, heq, fun hm => he (List.mem_cons_of_mem _ hm)⟩
        exact ⟨qs, rfl, hqs⟩
      | found w =>
        obtain ⟨c, u, heq, hc⟩ := htag w List.mem_cons_self
        rw [render_found, heq] at h
        exact absurd ((List.cons.inj h).1 ▸ List.mem_cons_self) hc

/-- A word of the language in the rendered text stands in a run of plain pieces, if the tags are
inert. -/
theorem exists_run {L : List Char → Prop} {a b : List Char} (h : render tag ps = a ++ m ++ b)
    (hL : L m) (hne : m ≠ []) (htag : ∀ w, .found w ∈ ps → Inert L (tag w)) :
    ∃ qs rs, ps = qs ++ m.map .plain ++ rs ∧ render tag qs = a ∧ render tag rs = b := by
  induction ps generalizing a with
  | nil =>
    rw [render_nil, eq_comm, List.append_assoc, List.append_eq_nil_iff] at h
    exact absurd (List.append_eq_nil_iff.1 h.2).1 hne
  | cons p ps ih =>
    have htail := fun w hw => htag w (List.mem_cons_of_mem p hw)
    cases p with
    | plain c =>
      cases a with
      | nil =>
        obtain ⟨qs, hps, hqs⟩ := run_of_front h fun w hw => by
          obtain ⟨d, u, heq, hd⟩ := (htag w hw).front
          exact ⟨d, u, heq, hd m hL⟩
        exact ⟨[], qs, hps, rfl, hqs⟩
      | cons d a =>
        obtain ⟨rfl, hrest⟩ := List.cons.inj h
        obtain ⟨qs, rs, rfl, rfl, hrs⟩ := ih hrest htail
        exact ⟨.plain c :: qs, rs, rfl, rfl, hrs⟩
    | found w =>
      have hinert := htag w List.mem_cons_self
      rw [render_found, List.append_assoc, List.append_eq_append_iff] at h
      obtain ⟨a', rfl, hrest⟩ | ⟨u, hu, hrest⟩ := h
      · rw [← List.append_assoc] at hrest
        obtain ⟨qs, rs, rfl, rfl, hrs⟩ := ih hrest htail
        exact ⟨.found w :: qs, rs, rfl, rfl, hrs⟩
      obtain rfl | ⟨u, c, rfl⟩ := u.eq_nil_or_concat'
      · rw [List.append_nil] at hu
        obtain ⟨qs, rs, rfl, hqs, hrs⟩ := @ih [] hrest.symm htail
        exact ⟨.found w :: qs, rs, rfl, by rw [render_found, hu, hqs, List.append_nil], hrs⟩
      -- the word cannot begin within the tag
      · exfalso
        obtain ⟨z, hm, -⟩ | ⟨z, hz, -⟩ := List.append_eq_append_iff.1 hrest
        · exact hinert.within a m z (by rw [hu, hm, List.append_assoc]) hL
        · obtain ⟨v, d, hv, hd⟩ := hinert.back
          rw [hv, ← List.append_assoc] at hu
          obtain ⟨-, hcd⟩ := List.append_inj' hu rfl
          refine hd m hL ?_
          rw [hz, List.singleton_inj.1 hcd]
          simp

variable {Q : Pattern} {qs rs : List Piece}

/-- A boundary in front of a run that stands in the rendered text stands in the text too. -/
theorem boundary_left (hright : pat.right = true) (h : pat.pieces t = qs ++ m.map .plain ++ rs)
    (hm : m ≠ []) (hb : boundary (render tag qs).getLast? m.head? = true) :
    boundary (render id qs).getLast? m.head? = true := by
  obtain rfl | ⟨qs, p, rfl⟩ := qs.eq_nil_or_concat'
  · exact hb
  cases p with
  | plain c =>
    rw [render_append, render_plain, render_nil, List.getLast?_concat] at hb ⊢
    exact hb
  | found w =>
    rw [List.append_assoc, List.append_assoc, List.singleton_append] at h
    obtain ⟨b, hwb, hlang, -, hend⟩ := matchAt_eq_some (asked_pieces h)
    obtain rfl := List.append_cancel_left hwb
    have hbound := hend hright
    rw [render_append, render_run, List.head?_append_of_ne_nil _ hm] at hbound
    rw [render_append, render_found, render_nil, List.append_nil, id,
      List.getLast?_append_of_ne_nil _ (pat.ne_nil_of_lang hlang)]
    exact hbound

/-- So does a boundary behind it, unless a match follows. -/
theorem boundary_right (h : pat.pieces t = qs ++ m.map .plain ++ rs) (hm : m ≠ [])
    (hb : boundary m.getLast? (render tag rs).head? = true) :
    boundary m.getLast? (render id rs).head? = true ∨
      pat.left = false ∧ ∃ w rs', rs = .found w :: rs' := by
  cases rs with
  | nil => exact .inl hb
  | cons p rs =>
    cases p with
    | plain c => exact .inl hb
    | found w =>
      obtain ⟨b, hwb, hlang, hbegin, -⟩ := matchAt_eq_some (asked_pieces h)
      rw [render_append, render_run, List.getLast?_append_of_ne_nil _ hm] at hbegin
      cases hleft : pat.left with
      | false => exact .inr ⟨rfl, w, rs, rfl⟩
      | true => exact .inl (hbegin hleft)

/-- Where a part of the rendered text that matches stands in the text. -/
theorem At.exists_run {a b : List Char} (hat : Q.At a m b) (h : pat.replace tag t = a ++ m ++ b)
    (hflags : Q.left = true → pat.right = true)
    (htag : ∀ w, pat.re.Lang w → Inert Q.re.Lang (tag w)) :
    ∃ qs rs, pat.pieces t = qs ++ m.map .plain ++ rs ∧
      (Q.At (render id qs) m (render id rs) ∨
        Q.right = true ∧ pat.left = false ∧ (Q.left = true →
          boundary (render id qs).getLast? m.head? = true) ∧ ∃ w rs', rs = .found w :: rs') := by
  have hm := Q.ne_nil_of_lang hat.lang
  obtain ⟨qs, rs, hpieces, rfl, rfl⟩ := Pattern.exists_run h hat.lang hm fun w hw => by
    obtain ⟨ps, us, hsplit⟩ := List.append_of_mem hw
    obtain ⟨b, -, hlang, -⟩ := matchAt_eq_some (asked_pieces hsplit)
    exact htag w hlang
  have hleft : Q.left = true → boundary (render id qs).getLast? m.head? = true := fun hflag =>
    boundary_left (hflags hflag) hpieces hm (hat.left hflag)
  refine ⟨qs, rs, hpieces, ?_⟩
  cases hright : Q.right with
  | false => exact .inl ⟨hat.lang, hleft, by simp [hright]⟩
  | true =>
    rcases boundary_right hpieces hm (hat.right hright) with hb | ⟨hno, hfound⟩
    · exact .inl ⟨hat.lang, hleft, fun _ => hb⟩
    · exact .inr ⟨rfl, hno, hleft, hfound⟩

/-- The search has passed no match by. -/
theorem not_at_run (h : pat.pieces t = qs ++ m.map .plain ++ rs) :
    ¬ pat.At (render id qs) m (render id rs) := by
  intro hat
  obtain ⟨c, m, rfl⟩ := List.exists_cons_of_ne_nil (pat.ne_nil_of_lang hat.lang)
  rw [List.map_cons, List.append_assoc, List.cons_append] at h
  have hasked : pat.matchAt _ (c :: render id (m.map .plain ++ rs)) = none := asked_pieces h
  rw [render_append, render_run, ← List.cons_append] at hasked
  exact matchAt_eq_none hasked hat.lang hat.left hat.right

theorem Occurs.of_replace (h : Q.Occurs (pat.replace tag t))
    (hleft : Q.left = true → pat.right = true) (hright : Q.right = true → pat.left = true)
    (htag : ∀ w, pat.re.Lang w → Inert Q.re.Lang (tag w)) :
    ∃ qs m rs, pat.pieces t = qs ++ m.map .plain ++ rs ∧
      Q.At (render id qs) m (render id rs) := by
  obtain ⟨a, m, b, htext, hat⟩ := h
  obtain ⟨qs, rs, hpieces, hat | ⟨hflag, hno, -⟩⟩ := hat.exists_run htext hleft htag
  · exact ⟨qs, m, rs, hpieces, hat⟩
  · rw [hright hflag] at hno
    cases hno

/-- A replacement by a pattern whose ends ask for no less than those of another pattern brings no
match of that in. -/
theorem not_occurs_replace (h : ¬ Q.Occurs t) (hleft : Q.left = true → pat.right = true)
    (hright : Q.right = true → pat.left = true)
    (htag : ∀ w, pat.re.Lang w → Inert Q.re.Lang (tag w)) : ¬ Q.Occurs (pat.replace tag t) := by
  intro hoccurs
  obtain ⟨qs, m, rs, hpieces, hat⟩ := hoccurs.of_replace hleft hright htag
  refine h ⟨_, m, _, ?_, hat⟩
  rw [← render_id_pieces pat t, hpieces, render_append, render_append, render_run]

/-- And no match of its own stays. -/
theorem not_occurs_replace_self (hflags : pat.left = pat.right)
    (htag : ∀ w, pat.re.Lang w → Inert pat.re.Lang (tag w)) :
    ¬ pat.Occurs (pat.replace tag t) := by
  intro hoccurs
  obtain ⟨qs, m, rs, hpieces, hat⟩ :=
    hoccurs.of_replace (fun h => hflags ▸ h) (fun h => hflags ▸ h) htag
  exact not_at_run hpieces hat

/-- A text without matches stays as it is. -/
theorem pieces_eq_self (h : ¬ pat.Occurs t) : pat.pieces t = t.map .plain := by
  have hplain : ∀ p ∈ pat.pieces t, ∃ c, p = .plain c := by
    intro p hp
    obtain ⟨ps, qs, hsplit⟩ := List.append_of_mem hp
    cases p with
    | plain c => exact ⟨c, rfl⟩
    | found w =>
      obtain ⟨b, hb, hlang, hleft, hright⟩ := matchAt_eq_some (asked_pieces hsplit)
      refine absurd ⟨render id ps, w, render id qs, ?_, hlang, ?_, ?_⟩ h
      · rw [← render_id_pieces pat t, hsplit, render_append, render_found, id, List.append_assoc]
      · rwa [List.head?_append_of_ne_nil _ (pat.ne_nil_of_lang hlang)] at hleft
      · rwa [← List.append_cancel_left hb] at hright
  have hmap : ∀ ps : List Piece, (∀ p ∈ ps, ∃ c, p = .plain c) →
      ps = (render id ps).map .plain := by
    intro ps hps
    induction ps with
    | nil => rfl
    | cons p ps ih =>
      obtain ⟨c, rfl⟩ := hps p List.mem_cons_self
      rw [render_plain, List.map_cons, ← ih fun q hq => hps q (List.mem_cons_of_mem _ hq)]
  have hself := hmap _ hplain
  rwa [render_id_pieces] at hself

end Pattern

end Lib.Regex
