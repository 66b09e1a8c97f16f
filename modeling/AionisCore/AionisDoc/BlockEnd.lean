import AionisCore.AionisDoc.ParseAst
import AionisCore.AionisDoc.PayloadRoundTrip
import AionisCore.Lib.Result

/-!
# The end of a block

`findDirectiveBlockEnd` counts braces and skips strings; `PayloadParser` knows the grammar. What
the parser reads as an object is the block that the scan finds.
-/

namespace AionisCore.AionisDoc

open Lib Lib.JsString PayloadParser

namespace BlockState

/-- The state after some characters that do not end the block. -/
def run : BlockState → List Char → Option BlockState
  | s, [] => some s
  | s, c :: cs => (s.step c).bind fun s' => run s' cs

theorem run_append {s s' : BlockState} {cs : List Char} (h : s.run cs = some s')
    (ds : List Char) : s.run (cs ++ ds) = s'.run ds := by
  induction cs generalizing s with
  | nil =>
    obtain rfl := Option.some.inj h
    rfl
  | cons c cs ih =>
    rw [run, Option.bind_eq_some_iff] at h
    obtain ⟨t, ht, h⟩ := h
    rw [List.cons_append, run, ht, Option.bind_some, ih h]

/-- Outside strings, between the braces. -/
def inside (depth : Int) : BlockState := ⟨depth, none, false⟩

end BlockState

theorem findDirectiveBlockEnd_append {s s' : BlockState} {cs : List Char}
    (h : s.run cs = some s') (rest : List Char) :
    findDirectiveBlockEnd s (cs ++ rest) =
      (findDirectiveBlockEnd s' rest).map fun p => (cs ++ p.1, p.2) := by
  induction cs generalizing s with
  | nil =>
    obtain rfl := Option.some.inj h
    rw [List.nil_append]
    cases findDirectiveBlockEnd s rest <;> rfl
  | cons c cs ih =>
    rw [BlockState.run, Option.bind_eq_some_iff] at h
    obtain ⟨t, ht, h⟩ := h
    rw [List.cons_append, findDirectiveBlockEnd, ht]
    dsimp only
    rw [ih h, Option.map_map]
    rfl

/-! ## Characters that change nothing -/

/-- Neither a quote nor a brace. -/
def Neutral (c : Char) : Prop := c ≠ '"' ∧ c ≠ '\'' ∧ c ≠ '{' ∧ c ≠ '}'

instance (c : Char) : Decidable (Neutral c) := inferInstanceAs (Decidable (_ ∧ _))

theorem neutral_of {p : Char → Bool}
    (hp : p '"' = false ∧ p '\'' = false ∧ p '{' = false ∧ p '}' = false) :
    ∀ c, p c = true → Neutral c := by
  intro c hc
  refine ⟨?_, ?_, ?_, ?_⟩
  all_goals
    rintro rfl
    simp [hp] at hc

theorem BlockState.step_neutral {depth : Int} {c : Char} (h : Neutral c) :
    (inside depth).step c = some (inside depth) := by
  obtain ⟨hquote, hsingle, hopen, hclose⟩ := h
  simp [step, inside, hquote, hsingle, hopen, hclose]

/-- From one text to the other the scan stays at its depth. -/
def Passes (cs rest : List Char) : Prop :=
  ∃ used, cs = used ++ rest ∧
    ∀ depth : Int, 0 < depth → (BlockState.inside depth).run used = some (.inside depth)

namespace Passes

variable {c : Char} {cs ds es : List Char}

theorem refl (cs : List Char) : Passes cs cs := ⟨[], rfl, fun _ _ => rfl⟩

theorem trans (h : Passes cs ds) (h' : Passes ds es) : Passes cs es := by
  obtain ⟨used, rfl, hrun⟩ := h
  obtain ⟨used', rfl, hrun'⟩ := h'
  refine ⟨used ++ used', (List.append_assoc _ _ _).symm, fun depth hdepth => ?_⟩
  rw [BlockState.run_append (hrun depth hdepth), hrun' depth hdepth]

theorem cons (hc : Neutral c) (h : Passes cs ds) : Passes (c :: cs) ds := by
  obtain ⟨used, rfl, hrun⟩ := h
  refine ⟨c :: used, rfl, fun depth hdepth => ?_⟩
  rw [BlockState.run, BlockState.step_neutral hc, Option.bind_some, hrun depth hdepth]

theorem dropWhile {p : Char → Bool} (hp : ∀ c, p c = true → Neutral c) (cs : List Char) :
    Passes cs (cs.dropWhile p) := by
  induction cs with
  | nil => exact refl []
  | cons c cs ih =>
    rw [List.dropWhile_cons]
    split
    · next hc => exact ih.cons (hp c hc)
    · exact refl _

theorem skip (cs : List Char) : Passes cs (skipWhitespace cs) :=
  dropWhile (neutral_of (by decide)) cs

theorem digits (cs : List Char) : Passes cs (cs.dropWhile isDigit) :=
  dropWhile (neutral_of (by decide)) cs

theorem identifier (cs : List Char) : Passes cs (cs.dropWhile isIdentifierPart) :=
  dropWhile (neutral_of (by decide)) cs

theorem braces (h : Passes cs ('}' :: ds)) : Passes ('{' :: cs) ds := by
  obtain ⟨used, rfl, hrun⟩ := h
  refine ⟨'{' :: (used ++ ['}']), by simp, fun depth hdepth => ?_⟩
  have hopen : (BlockState.inside depth).run ('{' :: (used ++ ['}'])) =
      (BlockState.inside (depth + 1)).run (used ++ ['}']) := rfl
  rw [hopen, BlockState.run_append (hrun (depth + 1) (by omega))]
  simp [BlockState.run, BlockState.step, BlockState.inside, show depth ≠ 0 by omega]

theorem block (h : Passes cs ('}' :: ds)) :
    ∃ block, '{' :: cs = block ++ ds ∧ block.getLast? = some '}' ∧
      ∀ rest, findDirectiveBlockEnd {} ('{' :: cs ++ rest) = some (block, ds ++ rest) := by
  obtain ⟨used, rfl, hrun⟩ := h
  refine ⟨'{' :: (used ++ ['}']), by simp, by simp [List.getLast?_cons], fun rest => ?_⟩
  have hopen : findDirectiveBlockEnd {} ('{' :: (used ++ '}' :: ds) ++ rest) =
      (findDirectiveBlockEnd (.inside 1) (used ++ '}' :: (ds ++ rest))).map
        fun p => ('{' :: p.1, p.2) := by
    rw [List.cons_append, List.append_assoc]
    rfl
  rw [hopen, findDirectiveBlockEnd_append (hrun 1 (by omega))]
  rfl

end Passes

/-! ## What the parser reads -/

section Parser

variable {cs rest : List Char} {v : AionisValue}

theorem run_stringBody {quote : Char} (hquote : quote ≠ '\\') {s : List Char}
    (h : stringBody quote cs = .ok (s, rest)) :
    ∃ used, cs = used ++ rest ∧
      ∀ depth : Int, (⟨depth, some quote, false⟩ : BlockState).run used = some (.inside depth) := by
  induction cs using stringBody.induct quote generalizing s with
  | case1 => cases h
  | case2 => cases h
  | case3 next cs ih =>
    rw [stringBody, map_eq_ok] at h
    obtain ⟨p, hp, h⟩ := h
    obtain ⟨-, rfl⟩ := Prod.mk.inj h
    obtain ⟨used, rfl, hrun⟩ := ih hp
    exact ⟨'\\' :: next :: used, rfl, hrun⟩
  | case4 cs hend hnext =>
    rw [stringBody_cons hquote, if_pos rfl] at h
    obtain ⟨-, rfl⟩ := Prod.mk.inj (Except.ok.inj h)
    refine ⟨[quote], rfl, fun depth => ?_⟩
    simp [BlockState.run, BlockState.step, BlockState.inside, hquote]
  | case5 c cs hend hnext hne ih =>
    have hback : c ≠ '\\' := by
      rintro rfl
      cases cs with
      | nil => exact hend rfl rfl
      | cons next cs => exact hnext next cs rfl rfl
    rw [stringBody_cons hback, if_neg hne, map_eq_ok] at h
    obtain ⟨p, hp, h⟩ := h
    obtain ⟨-, rfl⟩ := Prod.mk.inj h
    obtain ⟨used, rfl, hrun⟩ := ih hp
    refine ⟨c :: used, rfl, fun depth => ?_⟩
    have hstep : (⟨depth, some quote, false⟩ : BlockState).step c =
        some ⟨depth, some quote, false⟩ := by simp [BlockState.step, hback, hne]
    rw [BlockState.run, hstep, Option.bind_some, hrun]

theorem passes_string {s : String} (h : parseString cs = .ok (s, rest)) : Passes cs rest := by
  cases cs with
  | nil => cases h
  | cons quote cs =>
    rw [parseString] at h
    split at h
    · next hquote =>
      obtain ⟨p, hp, h⟩ := map_eq_ok.1 h
      obtain ⟨-, rfl⟩ := Prod.mk.inj h
      have hback : quote ≠ '\\' := by rcases hquote with rfl | rfl <;> decide
      obtain ⟨used, rfl, hrun⟩ := run_stringBody hback hp
      refine ⟨quote :: used, rfl, fun depth _ => ?_⟩
      have hstep : (BlockState.inside depth).step quote = some ⟨depth, some quote, false⟩ := by
        simp [BlockState.step, BlockState.inside, hquote]
      rw [BlockState.run, hstep, Option.bind_some, hrun]
    · cases h

theorem neutral_of_identifierStart {c : Char} (h : isIdentifierStart c = true) : Neutral c :=
  neutral_of (by decide) c h

theorem passes_key {key : String} (h : parseKey cs = .ok (key, rest)) : Passes cs rest := by
  cases cs with
  | nil => cases h
  | cons c cs =>
    rw [parseKey] at h
    split at h
    · exact passes_string h
    · split at h
      · next hstart =>
        obtain ⟨-, rfl⟩ := Prod.mk.inj (Except.ok.inj h)
        exact (Passes.identifier cs).cons (neutral_of_identifierStart hstart)
      · cases h

theorem passes_expect {c : Char} (hc : Neutral c) (h : expect c cs = .ok rest) :
    Passes cs rest := by
  rw [expect] at h
  split at h
  · next hhead =>
    obtain rfl := Except.ok.inj h
    cases cs with
    | nil => cases hhead
    | cons d ds =>
      obtain rfl := Option.some.inj hhead
      exact (Passes.refl ds).cons hc
  · cases h

theorem passes_fraction (cs : List Char) : Passes cs (scanFraction cs).2 := by
  unfold scanFraction
  split
  · next cs =>
    split
    · exact .refl _
    · exact (Passes.digits cs).cons (by decide)
  · exact .refl _

theorem passes_sign (cs : List Char) : Passes cs (scanSign cs).2 := by
  unfold scanSign
  split
  · exact (Passes.refl _).cons (by decide)
  · exact (Passes.refl _).cons (by decide)
  · exact .refl _

theorem passes_exponent (cs : List Char) : Passes cs (scanExponent cs).2 := by
  unfold scanExponent
  split
  · next c cs =>
    split
    · next h =>
      have hc : Neutral c := by rcases h.1 with rfl | rfl <;> decide
      exact ((passes_sign cs).trans (.digits _)).cons hc
    · exact .refl _
  · exact .refl _

theorem passes_whole {whole : List Char} (h : scanWhole cs = some (whole, rest)) :
    Passes cs rest := by
  unfold scanWhole at h
  split at h
  · obtain ⟨-, rfl⟩ := Prod.mk.inj (Option.some.inj h)
    exact (Passes.refl _).cons (by decide)
  · split at h
    · obtain ⟨-, rfl⟩ := Prod.mk.inj (Option.some.inj h)
      exact .digits _
    · cases h
  · cases h

theorem passes_number (h : parseNumber cs = .ok (v, rest)) : Passes cs rest := by
  unfold parseNumber at h
  split at h
  · next literal rest' hscan =>
    obtain ⟨-, rfl⟩ := Prod.mk.inj (Except.ok.inj h)
    unfold scanNumber at hscan
    dsimp only at hscan
    split at hscan
    · cases hscan
    · next whole more hwhole =>
      obtain ⟨-, rfl⟩ := Prod.mk.inj (Option.some.inj hscan)
      have hsign : Passes cs (if cs.head? = some '-' then cs.drop 1 else cs) := by
        split
        · next hminus =>
          cases cs with
          | nil => cases hminus
          | cons c cs =>
            obtain rfl := Option.some.inj hminus
            exact (Passes.refl _).cons (by decide)
        · exact .refl _
      exact hsign.trans ((passes_whole hwhole).trans
        ((passes_fraction more).trans (passes_exponent _)))
  · cases h

/-- What the fields of an object are read from ends at its brace. -/
theorem passes_open {fuel : Nat}
    (hfields : ∀ out cs v rest, parseFields fuel out cs = .ok (v, rest) → Passes cs ('}' :: rest))
    (h : parseValue (fuel + 1) ('{' :: cs) = .ok (v, rest)) : Passes cs ('}' :: rest) := by
  rw [parseValue] at h
  split at h
  · next hclose =>
    obtain ⟨-, rfl⟩ := Prod.mk.inj (Except.ok.inj h)
    exact hclose ▸ Passes.skip cs
  · exact (Passes.skip cs).trans (hfields _ _ _ _ h)

theorem passes_value {fuel : Nat}
    (hfields : ∀ out cs v rest, parseFields fuel out cs = .ok (v, rest) → Passes cs ('}' :: rest))
    (hitems : ∀ out cs v rest, parseItems fuel out cs = .ok (v, rest) → Passes cs rest)
    (h : parseValue (fuel + 1) cs = .ok (v, rest)) : Passes cs rest := by
  have hopen := h
  rw [parseValue.eq_def] at h
  dsimp only at h
  split at h
  · exact (passes_open hfields hopen).braces
  · next cs =>
    split at h
    · next hclose =>
      obtain ⟨-, rfl⟩ := Prod.mk.inj (Except.ok.inj h)
      have hskip := Passes.skip cs
      rw [hclose] at hskip
      exact (hskip.trans ((Passes.refl _).cons (by decide))).cons (by decide)
    · exact ((Passes.skip cs).trans (hitems _ _ _ _ h)).cons (by decide)
  · split at h
    · obtain ⟨p, hp, h⟩ := map_eq_ok.1 h
      obtain ⟨-, rfl⟩ := Prod.mk.inj h
      exact passes_string hp
    · split at h
      · exact passes_number h
      · split at h
        · next c cs _ _ _ _ hstart =>
          have hliteral : rest = cs.dropWhile isIdentifierPart := by
            unfold parseLiteral at h
            dsimp only at h
            split at h
            · exact (Prod.mk.inj (Except.ok.inj h)).2.symm
            · split at h
              · exact (Prod.mk.inj (Except.ok.inj h)).2.symm
              · split at h
                · exact (Prod.mk.inj (Except.ok.inj h)).2.symm
                · cases h
          rw [hliteral]
          exact (Passes.identifier cs).cons (neutral_of_identifierStart hstart)
        · cases h
  · cases h

theorem passes_skipComma (cs : List Char) : Passes cs (skipComma cs) := by
  unfold skipComma
  split
  · exact (Passes.skip _).cons (by decide)
  · exact .refl _

/-- By induction on the fuel, along the grammar. -/
theorem passes_read (fuel : Nat) :
    (∀ cs v rest, parseValue fuel cs = .ok (v, rest) → Passes cs rest) ∧
    (∀ out cs v rest, parseFields fuel out cs = .ok (v, rest) → Passes cs ('}' :: rest)) ∧
    ∀ out cs v rest, parseItems fuel out cs = .ok (v, rest) → Passes cs rest := by
  induction fuel with
  | zero => exact ⟨nofun, nofun, nofun⟩
  | succ fuel ih =>
    obtain ⟨hvalue, hfields, hitems⟩ := ih
    refine ⟨fun cs v rest h => passes_value hfields hitems h, fun out cs v rest h => ?_,
      fun out cs v rest h => ?_⟩
    · rw [parseFields] at h
      split at h
      · cases h
      · obtain ⟨key, hkey, h⟩ := bind_eq_ok.1 h
        obtain ⟨cs₁, hcolon, h⟩ := bind_eq_ok.1 h
        obtain ⟨value, hread, h⟩ := bind_eq_ok.1 h
        have hfield : Passes cs (skipComma (skipWhitespace value.2)) :=
          (passes_key hkey).trans ((Passes.skip _).trans
            ((passes_expect (by decide) hcolon).trans ((Passes.skip _).trans
              ((hvalue _ _ _ hread).trans ((Passes.skip _).trans (passes_skipComma _))))))
        split at h
        · next hclose =>
          obtain ⟨-, rfl⟩ := Prod.mk.inj (Except.ok.inj h)
          exact hclose ▸ hfield
        · exact hfield.trans (hfields _ _ _ _ h)
    · rw [parseItems] at h
      split at h
      · cases h
      · obtain ⟨value, hread, h⟩ := bind_eq_ok.1 h
        have hitem : Passes cs (skipWhitespace value.2) := (hvalue _ _ _ hread).trans (.skip _)
        split at h
        · next cs₁ hcomma =>
          rw [hcomma] at hitem
          exact hitem.trans (((Passes.skip cs₁).trans (hitems _ _ _ _ h)).cons (by decide))
        · next hclose =>
          obtain ⟨-, rfl⟩ := Prod.mk.inj (Except.ok.inj h)
          rw [hclose] at hitem
          exact hitem.trans ((Passes.refl _).cons (by decide))
        · cases h

/-- A text that is accepted behind a brace is a block and blanks. -/
theorem block_of_parse {accepted : List Char} (hbrace : accepted.head? = some '{')
    (h : parse accepted = .ok v) (rest : List Char) :
    findDirectiveBlockEnd {} (accepted ++ rest) =
      some (accepted.rdropWhile isWhite, accepted.rtakeWhile isWhite ++ rest) := by
  cases accepted with
  | nil => cases hbrace
  | cons c cs =>
    obtain rfl := Option.some.inj hbrace
    obtain ⟨value, hvalue, h⟩ := bind_eq_ok.1 h
    rw [skipWhitespace_cons (by decide)] at hvalue
    split at h
    · next hblank =>
      obtain ⟨block, hblock, hlast, hend⟩ := (passes_open (passes_read _).2.1 hvalue).block
      have hwhite : ∀ c ∈ value.2, isWhite c = true := List.dropWhile_eq_nil_iff.1 hblank
      have hkept : ('{' :: cs).rdropWhile isWhite = block := by
        rw [hblock, List.rdropWhile, List.reverse_append,
          List.dropWhile_append_of_pos (by simpa using hwhite)]
        exact List.rdropWhile_eq_self_iff.2 fun hne => by
          rw [List.getLast?_eq_some_getLast hne] at hlast
          rw [Option.some.inj hlast]
          decide
      have hblanks := List.rdropWhile_append_rtakeWhile (p := isWhite) (l := '{' :: cs)
      rw [hkept] at hblanks
      rw [hend, hkept, List.append_cancel_left (hblanks.trans hblock)]
    · cases h

end Parser

/-! ## Directives -/

theorem directiveHead_some {line : Line} {head : DirectiveHead}
    (h : directiveHead line = some head) :
    line = head.indent ++ '@' :: (head.name ++ head.after) ∧
      skipWhitespace line = '@' :: (head.name ++ head.after) ∧
      (∀ c ∈ head.indent, isWhite c = true) ∧ ∀ c ∈ head.name, isIdentifierPart c = true := by
  unfold directiveHead at h
  split at h
  · next c cs hskip =>
    split at h
    · next halpha =>
      obtain rfl := Option.some.inj h
      have hbody : c :: cs.takeWhile isIdentifierPart ++ cs.dropWhile isIdentifierPart =
          c :: cs := by
        rw [List.cons_append, List.takeWhile_append_dropWhile]
      dsimp only
      rw [hbody, ← hskip]
      refine ⟨List.takeWhile_append_dropWhile.symm, rfl, fun d hd => List.mem_takeWhile_imp hd,
        fun d hd => ?_⟩
      obtain rfl | hd := List.mem_cons.1 hd
      · simp [isIdentifierPart, Char.isAlphanum, halpha]
      · exact List.mem_takeWhile_imp hd
    · cases h
  · cases h

theorem walkLine_of_directiveHead (scan : ScanResult) (lineIndex : Nat) {line : Line}
    {head : DirectiveHead} (h : directiveHead line = some head) (more : List Line) :
    walkLine scan lineIndex line more = walkDirective scan lineIndex line head more := by
  obtain ⟨-, hskip, -⟩ := directiveHead_some h
  have hblank : ¬ isBlankLine line = true := fun hblank => by
    have hnil : skipWhitespace line = [] := List.dropWhile_eq_nil_iff.2 (List.all_eq_true.1 hblank)
    rw [hnil] at hskip
    cases hskip
  have hfence : ¬ isFenceLine line = true := by
    unfold isFenceLine
    rw [hskip]
    nofun
  have hheading : headingMatch line = none := by
    have hhash : isHeadingLine line = false := by
      cases line with
      | nil => rfl
      | cons c cs =>
        have hc : c ≠ '#' := by
          rintro rfl
          rw [skipWhitespace_cons (by decide)] at hskip
          cases hskip
        simp [isHeadingLine, hashes, hc]
    unfold headingMatch
    rw [hhash]
    rfl
  unfold walkLine
  rw [if_neg hblank, if_neg hfence, hheading, h]

/-- A payload that is accepted, whatever follows it, ends at its closing brace, so texts that are
accepted at one place differ in the blanks behind it alone; and a directive takes as many lines as
it has line breaks. -/
theorem accepted_ends_at_brace {accepted : List Char} {v : AionisValue}
    (hbrace : accepted.head? = some '{') (h : parse accepted = .ok v) (rest : List Char) :
    findDirectiveBlockEnd {} (accepted ++ rest) =
      some (accepted.rdropWhile isWhite, accepted.rtakeWhile isWhite ++ rest) ∧
    (∀ accepted' v' rest', accepted'.head? = some '{' → parse accepted' = .ok v' →
      accepted' ++ rest' = accepted ++ rest →
      accepted'.rdropWhile isWhite = accepted.rdropWhile isWhite) ∧
    ∀ scan lineIndex line head more, directiveHead line = some head →
      skipWhitespace (afterName head more) = accepted ++ rest →
      ∃ node, (walkLine scan lineIndex line more).children = [.directive node] ∧
        node.raw.toList = '@' :: head.name ++ (afterName head more).takeWhile isWhite ++
          accepted.rdropWhile isWhite ∧
        (walkLine scan lineIndex line more).taken = some (node.raw.toList.count '\n') := by
  have hend := block_of_parse hbrace h rest
  refine ⟨hend, fun accepted' v' rest' hbrace' h' hsame => ?_,
    fun scan lineIndex line head more hhead htext => ?_⟩
  · have hend' := block_of_parse hbrace' h' rest'
    rw [hsame, hend] at hend'
    exact (Prod.mk.inj (Option.some.inj hend')).1.symm
  · have hopens : (accepted ++ rest).head? = some '{' := by
      rw [List.head?_append, hbrace]
      rfl
    have hname : ('@' :: head.name).count '\n' = 0 := by
      refine List.count_eq_zero.2 fun hmem => ?_
      obtain hat | hmem := List.mem_cons.1 hmem
      · exact absurd hat (by decide)
      · exact absurd ((directiveHead_some hhead).2.2.2 _ hmem) (by decide)
    rw [walkLine_of_directiveHead scan lineIndex hhead]
    unfold walkDirective
    dsimp only
    rw [htext, if_neg (not_not.2 hopens), hend]
    refine ⟨_, rfl, String.toList_ofList, ?_⟩
    rw [String.toList_ofList, List.append_assoc, List.count_append, hname, Nat.zero_add]

/-- A blank behind a block, and a brace in a string. -/
theorem accepted_ends_at_brace_string :
    findDirectiveBlockEnd {} (['{', 'a', ':', '"', '}', '"', '}', ' '] ++ ['@']) =
      some (['{', 'a', ':', '"', '}', '"', '}'], [' ', '@']) := by
  obtain ⟨v, haccepted⟩ : ∃ v, parse ['{', 'a', ':', '"', '}', '"', '}', ' '] = .ok v := ⟨_, rfl⟩
  exact (accepted_ends_at_brace rfl haccepted ['@']).1

/-- A blank behind the brace is accepted with it. -/
theorem accepted_beyond_brace :
    ¬ ∀ (accepted rest : List Char) (v : AionisValue), accepted.head? = some '{' →
      parse accepted = .ok v →
      findDirectiveBlockEnd {} (accepted ++ rest) = some (accepted, rest) := by
  intro h
  have hend := h "{} ".toList [] (.ofObject {}) rfl rfl
  exact absurd hend (by decide)

end AionisCore.AionisDoc
