import AionisCore.Lib.Nesting
import AionisCore.Memory.RuleEngine
import Mathlib.Data.List.Infix

/-!
# Groups of a regular expression

What `isSafeRegexPattern` says about the repeated groups of a pattern. The pattern is read as
the language reads it: escapes and classes are no syntax, and a brace repeats what is before it
only as `{n}`, `{n,}` or `{n,m}`.
-/

namespace AionisCore.Memory

open Lib Lib.Delimiter

/-! ## Tokens -/

inductive RegexToken where
  | opening
  | closing
  | bar
  /-- `*`, `+` or the brace of a counted quantifier. -/
  | repeated
  | optional
  /-- A brace that stands for itself. -/
  | brace
  | other
deriving DecidableEq

namespace RegexToken

def delimiter : RegexToken → Delimiter
  | .opening => .opening
  | .closing => .closing
  | .repeated | .optional => .item true
  | .bar | .brace | .other => .item false

end RegexToken

/-- `{n}`, `{n,}` or `{n,m}`, behind the brace. -/
def opensCount (rest : List Char) : Bool :=
  rest.head?.any Char.isDigit &&
    match rest.dropWhile Char.isDigit with
    | c :: rest => c = '}' || c = ',' && (rest.dropWhile Char.isDigit).head?.any (· = '}')
    | [] => false

def tokenAt (c : Char) (rest : List Char) : RegexToken :=
  if c = '(' then .opening
  else if c = ')' then .closing
  else if c = '|' then .bar
  else if c = '*' ∨ c = '+' then .repeated
  else if c = '?' then .optional
  else if c = '{' then if opensCount rest then .repeated else .brace
  else .other

/-- The tokens of a pattern, one for each character. -/
def lex : ScrubMode → List Char → List RegexToken
  | _, [] => []
  | .escaped, _ :: cs => .other :: lex .plain cs
  | .escapedInClass, _ :: cs => .other :: lex .inClass cs
  | .plain, c :: cs =>
    if c = '\\' then .other :: lex .escaped cs
    else if c = '[' then .other :: lex .inClass cs
    else tokenAt c cs :: lex .plain cs
  | .inClass, c :: cs =>
    if c = '\\' then .other :: lex .escapedInClass cs
    else .other :: lex (if c = ']' then .plain else .inClass) cs

/-- The tokens of a scrubbed pattern. -/
def tokens : List Char → List RegexToken
  | [] => []
  | c :: cs => tokenAt c cs :: tokens cs

/-- A group that is repeated, what is before it and what is in it. -/
def RepeatedGroup (pattern : String) (before body : List RegexToken) : Prop :=
  Paired (body.map (·.delimiter)) ∧
    ∃ after, lex .plain pattern.toList =
      before ++ .opening :: (body ++ .closing :: .repeated :: after)

/-! ## Scrubbing -/

section Scrub

variable {c : Char} {cs rest : List Char}

theorem tokenAt_blot : tokenAt '_' rest = .other := rfl

theorem scrubChars_plain (hescape : c ≠ '\\') (hclass : c ≠ '[') :
    scrubChars .plain (c :: cs) = c :: scrubChars .plain cs := by
  rw [scrubChars, if_neg hescape, if_neg hclass]

/-- A character is kept, or it and the blot in its place are no part of a counted quantifier. -/
theorem scrubChars_cases (c : Char) (cs : List Char) :
    scrubChars .plain (c :: cs) = c :: scrubChars .plain cs ∨
      (c = '\\' ∨ c = '[') ∧ ∃ rest, scrubChars .plain (c :: cs) = '_' :: rest := by
  by_cases hescape : c = '\\'
  · refine .inr ⟨.inl hescape, scrubChars .escaped cs, ?_⟩
    rw [scrubChars, if_pos hescape]
  · by_cases hclass : c = '['
    · refine .inr ⟨.inr hclass, scrubChars .inClass cs, ?_⟩
      rw [scrubChars, if_neg hescape, if_pos hclass]
    · exact .inl (scrubChars_plain hescape hclass)

theorem scrubChars_dropWhile (cs : List Char) :
    (scrubChars .plain cs).dropWhile Char.isDigit =
      scrubChars .plain (cs.dropWhile Char.isDigit) := by
  induction cs with
  | nil => rfl
  | cons c cs ih =>
    rcases scrubChars_cases c cs with hkept | ⟨hc, rest, hblot⟩
    · rw [hkept]
      by_cases hdigit : c.isDigit = true
      · rw [List.dropWhile_cons_of_pos hdigit, List.dropWhile_cons_of_pos hdigit, ih]
      · rw [List.dropWhile_cons_of_neg hdigit, List.dropWhile_cons_of_neg hdigit, hkept]
    · have hdigit : ¬ c.isDigit = true := by rcases hc with rfl | rfl <;> decide
      rw [List.dropWhile_cons_of_neg hdigit, hblot]
      rfl

theorem opensCount_scrub (cs : List Char) : opensCount (scrubChars .plain cs) = opensCount cs := by
  have hhead : ∀ (p : Char → Bool) (cs : List Char), p '_' = false → p '\\' = false →
      p '[' = false → (scrubChars .plain cs).head?.any p = cs.head?.any p := by
    intro p cs hblot hescape hclass
    cases cs with
    | nil => rfl
    | cons c cs =>
      rcases scrubChars_cases c cs with hkept | ⟨rfl | rfl, rest, hrest⟩
      · rw [hkept]
        rfl
      · rw [hrest]
        simp [hblot, hescape]
      · rw [hrest]
        simp [hblot, hclass]
  unfold opensCount
  rw [hhead Char.isDigit cs rfl rfl rfl, scrubChars_dropWhile]
  congr 1
  cases cs.dropWhile Char.isDigit with
  | nil => rfl
  | cons c cs =>
    rcases scrubChars_cases c cs with hkept | ⟨rfl | rfl, rest, hrest⟩
    · rw [hkept]
      dsimp only
      rw [scrubChars_dropWhile]
      have hbrace := hhead (· = '}') (cs.dropWhile Char.isDigit) rfl rfl rfl
      rw [hbrace]
    · rw [hrest]
      rfl
    · rw [hrest]
      rfl

theorem tokenAt_scrub (c : Char) (cs : List Char) :
    tokenAt c (scrubChars .plain cs) = tokenAt c cs := by
  unfold tokenAt
  rw [opensCount_scrub]

/-- Scrubbing blots out what is no syntax. -/
theorem tokens_scrubChars (mode : ScrubMode) (cs : List Char) :
    tokens (scrubChars mode cs) = lex mode cs := by
  induction cs generalizing mode with
  | nil => cases mode <;> rfl
  | cons c cs ih =>
    cases mode with
    | plain =>
      rw [scrubChars, lex]
      split
      · rw [tokens, tokenAt_blot, ih]
      · split
        · rw [tokens, tokenAt_blot, ih]
        · rw [tokens, tokenAt_scrub, ih]
    | escaped => rw [scrubChars, lex, tokens, tokenAt_blot, ih]
    | inClass =>
      rw [scrubChars, lex]
      split
      · rw [tokens, tokenAt_blot, ih]
      · rw [tokens, tokenAt_blot, ih]
    | escapedInClass => rw [scrubChars, lex, tokens, tokenAt_blot, ih]

end Scrub

/-! ## What the checks find -/

section Checks

variable {c : Char} {cs s : List Char} {before body after : List RegexToken}

theorem tokenAt_opening : tokenAt c cs = .opening ↔ c = '(' := by
  unfold tokenAt
  split_ifs <;> simp_all

theorem tokenAt_closing : tokenAt c cs = .closing ↔ c = ')' := by
  unfold tokenAt
  split_ifs <;> simp_all

theorem tokenAt_bar : tokenAt c cs = .bar ↔ c = '|' := by
  unfold tokenAt
  split_ifs <;> simp_all

theorem tokenAt_repeated :
    tokenAt c cs = .repeated ↔ c = '*' ∨ c = '+' ∨ c = '{' ∧ opensCount cs = true := by
  unfold tokenAt
  split_ifs with h1 h2 h3 h4 h5 h6 h7
  · simp [h1]
  · simp [h2]
  · simp [h3]
  · exact ⟨fun _ => h4.imp_right .inl, fun _ => rfl⟩
  · simp [h5]
  · simp [h6, h7]
  · simp [h6, h7]
  · simp only [false_iff, not_or, not_and]
    exact ⟨(not_or.1 h4).1, (not_or.1 h4).2, fun h => absurd h h6⟩

theorem tokenAt_brace (h : tokenAt c cs ≠ .brace) (hc : c = '{') : opensCount cs = true := by
  subst hc
  by_contra hcount
  exact h (by simp [tokenAt, hcount])

/-- The rest of a counted quantifier, up to its closing brace. -/
def EndsCount (rest : List Char) : Prop :=
  ∃ count after, rest = count ++ '}' :: after ∧ ∀ c ∈ count, c.isDigit = true ∨ c = ','

theorem endsCount_of_opensCount (h : opensCount cs = true) : EndsCount cs := by
  rw [opensCount, Bool.and_eq_true] at h
  have hdigits : ∀ {cs : List Char}, ∀ c ∈ cs.takeWhile Char.isDigit, c.isDigit = true :=
    fun c hc => List.mem_takeWhile_imp hc
  obtain ⟨-, h⟩ := h
  have hsplit := List.takeWhile_append_dropWhile (p := Char.isDigit) (l := cs)
  cases hdrop : cs.dropWhile Char.isDigit with
  | nil => simp [hdrop] at h
  | cons c rest =>
    rw [hdrop] at h hsplit
    simp only [Bool.or_eq_true, Bool.and_eq_true, decide_eq_true_eq] at h
    rcases h with rfl | ⟨rfl, h⟩
    · exact ⟨_, rest, hsplit.symm, fun c hc => .inl (hdigits c hc)⟩
    · have hsplit' := List.takeWhile_append_dropWhile (p := Char.isDigit) (l := rest)
      cases hdrop' : rest.dropWhile Char.isDigit with
      | nil => simp [hdrop'] at h
      | cons c after =>
        rw [hdrop'] at h hsplit'
        obtain rfl : c = '}' := by simpa using h
        refine ⟨cs.takeWhile Char.isDigit ++ ',' :: rest.takeWhile Char.isDigit, after, ?_, ?_⟩
        · rw [List.append_assoc, List.cons_append, hsplit', hsplit]
        · intro c hc
          rcases List.mem_append.1 hc with hc | hc
          · exact .inl (hdigits c hc)
          · rcases List.mem_cons.1 hc with rfl | hc
            · exact .inr rfl
            · exact .inl (hdigits c hc)

theorem tokenAt_count (h : c.isDigit = true ∨ c = ',') : tokenAt c cs = .other := by
  have hne : ∀ d : Char, d.isDigit = false → d ≠ ',' → c ≠ d := by
    rintro d hd hcomma rfl
    rcases h with h | h
    · rw [hd] at h
      cases h
    · exact hcomma h
  unfold tokenAt
  have hrepeat : ¬ (c = '*' ∨ c = '+') := not_or.2 ⟨hne _ rfl (by decide), hne _ rfl (by decide)⟩
  rw [if_neg (hne _ rfl (by decide)), if_neg (hne _ rfl (by decide)),
    if_neg (hne _ rfl (by decide)), if_neg hrepeat, if_neg (hne _ rfl (by decide)),
    if_neg (hne _ rfl (by decide))]

theorem scan_cons (marks : List Bool) (t : RegexToken) (before : List RegexToken) :
    scan marks ((t :: before).map (·.delimiter)) =
      scan (scan marks [t.delimiter]) (before.map (·.delimiter)) := by
  rw [List.map_cons, ← List.singleton_append, scan_append]

theorem scan_other (marks : List Bool) : scan marks [.item false] = marks := by
  cases marks <;> simp [scan]

theorem scan_marking (marks : List Bool) :
    scan marks [.item true] = marks.modifyHead fun _ => true := by
  cases marks <;> simp [scan]

/-- As long as every brace opens a counted quantifier, the scan of the characters keeps the marks of
the groups, and finds no repeated group that is marked. -/
theorem unmarked_of_not_nested (skip : Bool) (marks : List Bool)
    (h : nestedQuantifier skip marks s = false) (hskip : skip = true → EndsCount s)
    (htokens : tokens s = before ++ .closing :: .repeated :: after)
    (hbrace : RegexToken.brace ∉ before) :
    (scan marks (before.map (·.delimiter))).headD false = false := by
  induction s generalizing skip marks before with
  | nil => simp [tokens] at htokens
  | cons c cs ih =>
    rw [tokens] at htokens
    cases skip with
    | true =>
      obtain ⟨count, rest, hcs, hcount⟩ := hskip rfl
      rw [nestedQuantifier] at h
      have hother : tokenAt c cs = .other := by
        cases count with
        | nil =>
          rw [List.nil_append, List.cons.injEq] at hcs
          rw [hcs.1]
          rfl
        | cons d count =>
          rw [List.cons_append, List.cons.injEq] at hcs
          rw [hcs.1]
          exact tokenAt_count (hcount d List.mem_cons_self)
      cases before with
      | nil => simp [hother] at htokens
      | cons t before =>
        rw [List.cons_append, List.cons.injEq] at htokens
        obtain ⟨rfl, htokens⟩ := htokens
        rw [scan_cons, hother, RegexToken.delimiter, scan_other]
        refine ih _ marks h (fun hc => ?_) htokens fun hmem => hbrace (List.mem_cons_of_mem _ hmem)
        cases count with
        | nil =>
          rw [List.nil_append, List.cons.injEq] at hcs
          simp [hcs.1] at hc
        | cons d count =>
          rw [List.cons_append, List.cons.injEq] at hcs
          exact ⟨count, rest, hcs.2, fun c hc => hcount c (List.mem_cons_of_mem _ hc)⟩
    | false =>
      rw [nestedQuantifier] at h
      cases before with
      | nil =>
        rw [List.nil_append, List.cons.injEq, tokenAt_closing] at htokens
        obtain ⟨rfl, hrest⟩ := htokens
        rw [if_neg (by decide), if_pos rfl, Bool.or_eq_false_iff] at h
        cases cs with
        | nil => simp [tokens] at hrest
        | cons d cs =>
          rw [tokens, List.cons.injEq, tokenAt_repeated] at hrest
          have hstart : isQuantifierStart d = true := by
            rcases hrest.1 with rfl | rfl | ⟨rfl, -⟩ <;> decide
          simpa [hstart, scan] using h.1
      | cons t before =>
        rw [List.cons_append, List.cons.injEq] at htokens
        obtain ⟨rfl, htokens⟩ := htokens
        have hbrace' : RegexToken.brace ∉ before := fun hmem => hbrace (List.mem_cons_of_mem _ hmem)
        have hcount := tokenAt_brace fun heq : tokenAt c cs = .brace =>
          hbrace (heq ▸ List.mem_cons_self)
        rw [scan_cons]
        by_cases hopen : c = '('
        · rw [if_pos hopen] at h
          rw [tokenAt_opening.2 hopen]
          exact ih false _ h Bool.noConfusion htokens hbrace'
        · rw [if_neg hopen] at h
          by_cases hclose : c = ')'
          · rw [if_pos hclose, Bool.or_eq_false_iff] at h
            rw [tokenAt_closing.2 hclose]
            exact ih false _ h.2 Bool.noConfusion htokens hbrace'
          · rw [if_neg hclose] at h
            by_cases hstart : isQuantifierStart c = true
            · rw [if_pos hstart] at h
              have hmark : (tokenAt c cs).delimiter = .item true := by
                simp only [isQuantifierStart, Bool.or_eq_true, decide_eq_true_eq] at hstart
                rcases hstart with ((rfl | rfl) | rfl) | rfl
                · rfl
                · rfl
                · rfl
                · rw [tokenAt_repeated.2 (.inr (.inr ⟨rfl, hcount rfl⟩))]
                  rfl
              rw [hmark, scan_marking]
              refine ih _ _ h (fun hskip => ?_) htokens hbrace'
              exact endsCount_of_opensCount (hcount (by simpa using hskip))
            · rw [if_neg hstart] at h
              have hplain : (tokenAt c cs).delimiter = .item false := by
                simp only [isQuantifierStart, Bool.or_eq_true, decide_eq_true_eq, not_or] at hstart
                unfold tokenAt
                rw [if_neg hopen, if_neg hclose]
                split
                · rfl
                · rw [if_neg (not_or.2 hstart.1.1), if_neg hstart.1.2, if_neg hstart.2]
                  rfl
              rw [hplain, scan_other]
              exact ih false _ h Bool.noConfusion htokens hbrace'

theorem tokens_suffix (h : tokens s = before ++ after) :
    ∃ rest, rest <:+ s ∧ tokens rest = after := by
  induction before generalizing s with
  | nil => exact ⟨s, List.suffix_refl s, h⟩
  | cons t before ih =>
    cases s with
    | nil => simp [tokens] at h
    | cons c cs =>
      rw [tokens, List.cons_append, List.cons.injEq] at h
      obtain ⟨rest, hsuffix, hrest⟩ := ih h.2
      exact ⟨rest, hsuffix.trans (List.suffix_cons c cs), hrest⟩

/-- The characters of a group without inner groups, read up to its end. -/
theorem leaf_chars (h : tokens s = body ++ .closing :: .repeated :: after)
    (hleaf : RegexToken.closing ∉ body) :
    (∃ c rest, s.dropWhile (· ≠ ')') = ')' :: c :: rest ∧ (c = '*' ∨ c = '+' ∨ c = '{')) ∧
      (RegexToken.bar ∈ body → '|' ∈ s.takeWhile (· ≠ ')')) := by
  induction body generalizing s with
  | nil =>
    match s with
    | [] => simp [tokens] at h
    | [c] => simp [tokens] at h
    | c :: d :: rest =>
      simp only [tokens, List.nil_append, List.cons.injEq, tokenAt_closing, tokenAt_repeated] at h
      obtain ⟨rfl, hd, -⟩ := h
      refine ⟨⟨d, rest, rfl, ?_⟩, fun hmem => absurd hmem List.not_mem_nil⟩
      rcases hd with hd | hd | ⟨hd, -⟩
      · exact .inl hd
      · exact .inr (.inl hd)
      · exact .inr (.inr hd)
  | cons t body ih =>
    cases s with
    | nil => simp [tokens] at h
    | cons c cs =>
      rw [tokens, List.cons_append, List.cons.injEq] at h
      obtain ⟨rfl, h⟩ := h
      obtain ⟨hhead, hrest⟩ := not_or.1 (mt List.mem_cons.2 hleaf)
      have hclose : decide (c ≠ ')') = true := by
        rw [decide_eq_true_eq]
        rintro rfl
        exact hhead rfl
      obtain ⟨hend, hbar⟩ := ih h hrest
      rw [List.dropWhile_cons_of_pos (p := fun c => decide (c ≠ ')')) hclose,
        List.takeWhile_cons_of_pos (p := fun c => decide (c ≠ ')')) hclose]
      refine ⟨hend, fun hmem => ?_⟩
      rcases List.mem_cons.1 hmem with hmem | hmem
      · rw [tokenAt_bar.1 hmem.symm]
        exact List.mem_cons_self
      · exact List.mem_cons_of_mem _ (hbar hmem)

theorem bar_not_mem_of_leaf (h : hasQuantifiedAlternation s = false)
    (htokens : tokens s = before ++ .opening :: (body ++ .closing :: .repeated :: after))
    (hleaf : RegexToken.closing ∉ body) : RegexToken.bar ∉ body := by
  intro hbar
  obtain ⟨rest, hsuffix, hrest⟩ := tokens_suffix htokens
  cases rest with
  | nil => simp [tokens] at hrest
  | cons c cs =>
    rw [tokens, List.cons.injEq, tokenAt_opening] at hrest
    obtain ⟨rfl, hrest⟩ := hrest
    obtain ⟨⟨c, rest, hdrop, hc⟩, hin⟩ := leaf_chars hrest hleaf
    have hfound := List.any_eq_false.1 h _ ((List.mem_tails _ _).2 hsuffix)
    simp only [hdrop, Bool.and_eq_true, decide_eq_true_eq, Bool.or_eq_true] at hfound
    exact hfound ⟨hin hbar, by tauto⟩

end Checks

/-! ## Repeated groups -/

/-- What the checks do not see to: a group with inner groups has no alternative in it and its
quantifiers stand directly in it, and where a brace stood for itself before its end there are no
quantifiers. -/
structure Unrepeated (before body : List RegexToken) : Prop where
  bar : .opening ∈ body → .bar ∉ body
  inner : ∀ outer rest, body = outer ++ .repeated :: rest → Paired (outer.map (·.delimiter))
  brace : .brace ∈ before ++ body → .repeated ∉ body

/-- In an accepted pattern the repeated groups have no quantifiers and alternatives in them just if
those with inner groups, and those behind a brace that stands for itself, have none. -/
theorem repeated_groups_iff {pattern : String} (hsafe : isSafeRegexPattern pattern = true) :
    (∀ before body, RepeatedGroup pattern before body → .repeated ∉ body ∧ .bar ∉ body) ↔
      ∀ before body, RepeatedGroup pattern before body → Unrepeated before body := by
  refine forall_congr' fun before => forall_congr' fun body => forall_congr' fun hgroup => ?_
  constructor
  · rintro ⟨hrepeated, hbar⟩
    refine ⟨fun _ => hbar, fun outer rest hbody => absurd ?_ hrepeated, fun _ => hrepeated⟩
    rw [hbody]
    exact List.mem_append_right _ List.mem_cons_self
  · intro hunrepeated
    obtain ⟨hpaired, after, htokens⟩ := hgroup
    simp only [isSafeRegexPattern, Bool.and_eq_true, Bool.not_eq_true'] at hsafe
    rw [← tokens_scrubChars] at htokens
    constructor
    · intro hmem
      obtain ⟨outer, rest, hbody⟩ := List.append_of_mem hmem
      have houter := hunrepeated.inner outer rest hbody
      have hrest : Paired (rest.map (·.delimiter)) := by
        rw [hbody, List.map_append, Paired, nest_append, houter] at hpaired
        exact hpaired
      have htokens' : tokens (scrubChars .plain pattern.toList) =
          (before ++ .opening :: body) ++ .closing :: .repeated :: after := by
        rw [htokens, List.append_assoc, List.cons_append]
      have hunmarked := unmarked_of_not_nested false [] hsafe.1.1.2 nofun htokens' fun hbrace =>
        hunrepeated.brace (by simpa using hbrace) hmem
      have hmarked : scan (scan [] (before.map (·.delimiter)))
          ((.opening :: body).map (·.delimiter)) = true :: scan [] (before.map (·.delimiter)) := by
        rw [hbody, List.map_cons, List.map_append, List.map_cons]
        exact scan_of_marked houter hrest
      rw [List.map_append, scan_append, hmarked] at hunmarked
      cases hunmarked
    · by_cases hopen : RegexToken.opening ∈ body
      · exact hunrepeated.bar hopen
      · refine bar_not_mem_of_leaf hsafe.1.2 htokens fun hclose => ?_
        refine closing_not_mem hpaired (fun hmem => hopen ?_) (List.mem_map.2 ⟨_, hclose, rfl⟩)
        obtain ⟨t, ht, hdelimiter⟩ := List.mem_map.1 hmem
        cases t <;> first | exact ht | cases hdelimiter

theorem repeated_groups_iff_plain :
    (∀ before body, RepeatedGroup "(ab)+" before body → .repeated ∉ body ∧ .bar ∉ body) ↔
      ∀ before body, RepeatedGroup "(ab)+" before body → Unrepeated before body :=
  repeated_groups_iff (by decide +kernel)

/-- A quantifier in a group in a repeated group is not found. -/
theorem inner_quantifier_accepted :
    isSafeRegexPattern "((a+))+" = true ∧
      RepeatedGroup "((a+))+" [] [.opening, .other, .repeated, .closing] := by
  refine ⟨by decide +kernel, by decide, [], by decide +kernel⟩

end AionisCore.Memory
