import AionisCore.AionisDoc.DocumentRoundTrip
import AionisCore.Lib.Layout

/-!
# What the nodes of a document cover

The nodes lie one behind another in the source. A directive takes the lines that its block
reaches, so what follows the closing brace on its line is in no node.
-/

namespace AionisCore.AionisDoc

open Lib Lib.JsString Lib.Piece

theorem units_append (cs ds : List Char) : units (cs ++ ds) = units cs + units ds :=
  size_append cs ds

theorem units_cons (c : Char) (cs : List Char) : units (c :: cs) = width c + units cs :=
  size_cons c cs

/-! ## Line starts -/

theorem width_pos (c : Char) : 0 < width c := by
  unfold width
  split <;> decide

theorem lineStartsFrom_append (i : Nat) (cs ds : List Char) :
    lineStartsFrom i (cs ++ ds) = lineStartsFrom i cs ++ lineStartsFrom (i + units cs) ds := by
  induction cs generalizing i with
  | nil => rfl
  | cons c cs ih =>
    rw [List.cons_append, lineStartsFrom, lineStartsFrom, units_cons]
    split
    · next hc =>
      subst hc
      rw [ih, List.cons_append, Nat.add_assoc]
      rfl
    · rw [ih, Nat.add_assoc]

theorem length_lineStartsFrom (i : Nat) (cs : List Char) :
    (lineStartsFrom i cs).length = cs.count '\n' := by
  induction cs generalizing i with
  | nil => rfl
  | cons c cs ih =>
    rw [lineStartsFrom]
    split
    · next hc => rw [hc, List.length_cons, ih, List.count_cons_self]
    · next hc => rw [ih, List.count_cons_of_ne hc]

section Source

variable {scan : ScanResult} (hscan : scan.lineStarts = 0 :: lineStartsFrom 0 scan.source)

include hscan

theorem lineStart_of_source {before rest : List Char} (hsource : scan.source = before ++ rest)
    (hline : before = [] ∨ ∃ cs, before = cs ++ ['\n']) :
    scan.lineStart (before.count '\n') = units before := by
  unfold ScanResult.lineStart
  rw [hscan]
  rcases hline with rfl | ⟨cs, rfl⟩
  · rfl
  · have hcount : (cs ++ ['\n']).count '\n' = (lineStartsFrom 0 cs).length + 1 := by
      rw [List.count_append, length_lineStartsFrom]
      rfl
    rw [hsource, hcount, List.getElem?_cons_succ, lineStartsFrom_append, lineStartsFrom_append,
      List.append_assoc, List.getElem?_append_right le_rfl, Nat.sub_self]
    change 0 + units cs + 1 = size width (cs ++ ['\n'])
    rw [size_append, Nat.zero_add]
    rfl

theorem lineStart_of_lt {i : Nat} (h : scan.source.count '\n' < i) :
    scan.lineStart i = scan.length := by
  unfold ScanResult.lineStart
  rw [hscan, List.getElem?_eq_none (by rw [List.length_cons, length_lineStartsFrom]; omega)]
  rfl

end Source

/-! ## Places -/

theorem lineStartsFrom_bounds (i : Nat) (cs : List Char) :
    ∀ n ∈ lineStartsFrom i cs, i < n ∧ n ≤ i + units cs := by
  induction cs generalizing i with
  | nil => exact List.forall_mem_nil _
  | cons c cs ih =>
    have hwidth := width_pos c
    rw [lineStartsFrom, units_cons]
    split
    · refine List.forall_mem_cons.2 ⟨by omega, fun n hn => ?_⟩
      have hbounds := ih _ n hn
      omega
    · intro n hn
      have hbounds := ih _ n hn
      omega

/-- The search finds the line before whose end the offset is. -/
theorem searchLine_eq {scan : ScanResult} {offset line fuel low high : Nat}
    (hbefore : ∀ m ≤ line, scan.lineStart m ≤ offset)
    (hafter : ∀ m, line < m → m < scan.lineStarts.length → offset < scan.lineStart m)
    (hend : offset ≤ scan.length) (hlow : low ≤ line) (hhigh : line ≤ high)
    (hlength : high < scan.lineStarts.length) (hfuel : high - low < fuel) :
    scan.searchLine offset fuel low high = line := by
  induction fuel generalizing low high with
  | zero => omega
  | succ fuel ih =>
    obtain ⟨mid, hmid⟩ : ∃ mid, mid = (low + high) / 2 := ⟨_, rfl⟩
    rw [ScanResult.searchLine, if_pos (by omega)]
    dsimp only
    rw [show (((low : Int) + high) / 2).toNat = mid by omega]
    split
    · next hstart =>
      have hgt : line < mid := Nat.lt_of_not_le fun hle =>
        absurd hstart (Nat.not_lt_of_le (hbefore mid hle))
      rw [show (mid : Int) - 1 = (mid - 1 : Nat) by omega]
      exact ih hlow (by omega) (by omega) (by omega)
    · next hstart =>
      have hle : mid ≤ line := Nat.le_of_not_lt fun hgt => hstart (hafter mid hgt (by omega))
      by_cases hmore : mid + 1 < scan.lineStarts.length
      · rw [if_pos hmore]
        split
        · next hnext =>
          have hne : mid ≠ line := by
            rintro rfl
            exact absurd (hafter _ (Nat.lt_succ_self _) hmore) (Nat.not_lt_of_le hnext)
          rw [show (mid : Int) + 1 = (mid + 1 : Nat) by omega]
          exact ih (by omega) hhigh hlength (by omega)
        · next hnext =>
          by_contra hne
          exact hnext (hbefore (mid + 1) (by omega))
      · rw [if_neg hmore, if_neg (by omega)]
        omega

/-- The binary search agrees with plain counting: an offset is on the line after as many breaks as
stand before it, as many units behind the start of that line as the line has before it. -/
theorem offsetToSourcePos_counts {source : String} {before line after : List Char}
    (hsource : source.toList = before ++ line ++ after)
    (hbefore : before = [] ∨ ∃ cs, before = cs ++ ['\n']) (hline : '\n' ∉ line) :
    (scanSource source).offsetToSourcePos (units (before ++ line)) =
      ⟨before.count '\n' + 1, units line + 1, units (before ++ line)⟩ := by
  have hstarts : (scanSource source).lineStarts = 0 :: lineStartsFrom 0 (before ++ line) ++
      lineStartsFrom (units (before ++ line)) after := by
    show 0 :: lineStartsFrom 0 source.toList = _
    rw [hsource, lineStartsFrom_append, Nat.zero_add, List.cons_append]
  have hcount : (0 :: lineStartsFrom 0 (before ++ line)).length = before.count '\n' + 1 := by
    rw [List.length_cons, length_lineStartsFrom, List.count_append, List.count_eq_zero.2 hline]
  have hlength : (scanSource source).length = units (before ++ line) + units after := by
    rw [← units_append, ← hsource]
    rfl
  have hat : (scanSource source).lineStart (before.count '\n') = units before :=
    lineStart_of_source rfl (hsource.trans (List.append_assoc _ _ _)) hbefore
  have hsearch : (scanSource source).findLineIndexAtOffset (units (before ++ line)) =
      before.count '\n' := by
    have hpos := congrArg List.length hstarts
    rw [List.length_append, hcount] at hpos
    unfold ScanResult.findLineIndexAtOffset
    rw [show ((scanSource source).lineStarts.length : Int) - 1 =
      ((scanSource source).lineStarts.length - 1 : Nat) by omega]
    refine searchLine_eq (fun m hm => ?_) (fun m hm hlt => ?_) (by omega) (Nat.zero_le _)
      (by omega) (by omega) (by omega)
    · unfold ScanResult.lineStart
      rw [hstarts, List.getElem?_append_left (by omega), List.getElem?_eq_getElem (by omega)]
      rcases List.mem_cons.1 (List.getElem_mem _) with hzero | hmem
      · rw [hzero]
        exact Nat.zero_le _
      · exact Nat.zero_add (units _) ▸ (lineStartsFrom_bounds 0 _ _ hmem).2
    · unfold ScanResult.lineStart
      rw [hstarts, List.getElem?_append_right (by omega), List.getElem?_eq_getElem (by omega)]
      exact (lineStartsFrom_bounds _ _ _ (List.getElem_mem _)).1
  unfold ScanResult.offsetToSourcePos
  dsimp only
  rw [hlength, Nat.min_eq_left (Nat.le_add_right _ _), hsearch, hat, units_append, Nat.cast_add,
    add_sub_cancel_left]

theorem offsetToSourcePos_counts_second : (scanSource "a\nbc").offsetToSourcePos 3 = ⟨2, 2, 3⟩ :=
  @offsetToSourcePos_counts "a\nbc" ['a', '\n'] ['b'] ['c'] rfl (.inr ⟨['a'], rfl⟩) (by decide)

/-! ## The lines of one turn -/

theorem newline_not_mem_splitLines (cs : List Char) : ∀ line ∈ splitLines cs, '\n' ∉ line := by
  induction cs with
  | nil => simp [splitLines, splitOn]
  | cons c cs ih =>
    by_cases hc : c = '\n'
    · subst hc
      rw [splitLines_newline]
      simpa using ih
    · obtain ⟨line, lines, hsplit⟩ := List.exists_cons_of_ne_nil (splitLines_ne_nil cs)
      rw [splitLines_cons hc hsplit]
      rw [hsplit, List.forall_mem_cons] at ih
      rw [List.forall_mem_cons]
      exact ⟨fun hmem => (List.mem_cons.1 hmem).elim (fun heq => hc heq.symm) ih.1, ih.2⟩

/-- The break behind a line, if another line follows. -/
def lineBreak (more : List Line) : List Char := if more = [] then [] else ['\n']

theorem joinLines_cons_lineBreak (line : Line) (more : List Line) :
    joinLines (line :: more) = line ++ (lineBreak more ++ joinLines more) := by
  unfold lineBreak
  split
  · next h => rw [h, joinLines_singleton]; simp [joinLines]
  · next h => rw [joinLines_cons line h]; rfl

theorem lineBreak_white (more : List Line) : ∀ c ∈ lineBreak more, isWhite c = true := by
  unfold lineBreak
  split
  · exact List.forall_mem_nil _
  · exact List.forall_mem_singleton.2 (by decide)

/-- The first `k + 1` lines with their breaks. -/
def turnText : Nat → Line → List Line → List Char
  | 0, line, more => line ++ lineBreak more
  | _ + 1, line, [] => line
  | k + 1, line, next :: more => line ++ '\n' :: turnText k next more

section Turn

variable {k : Nat} {line : Line} {more : List Line}

theorem turnText_append (k : Nat) (line : Line) (more : List Line) :
    turnText k line more ++ joinLines (more.drop k) = joinLines (line :: more) := by
  induction k generalizing line more with
  | zero => rw [joinLines_cons_lineBreak, turnText, List.append_assoc, List.drop_zero]
  | succ k ih =>
    cases more with
    | nil => rw [turnText, joinLines_singleton, List.drop_nil]; exact List.append_nil line
    | cons next more =>
      rw [turnText, List.drop_succ_cons, List.append_assoc, List.cons_append, ih,
        joinLines_cons line (List.cons_ne_nil next more)]

theorem turnText_eq (hk : k ≤ more.length) : turnText k line more =
    joinLines (line :: more.take k) ++ if k < more.length then ['\n'] else [] := by
  induction k generalizing line more with
  | zero =>
    cases more with
    | nil => rw [turnText, List.take_zero, joinLines_singleton]; rfl
    | cons next more => rw [turnText, List.take_zero, joinLines_singleton]; rfl
  | succ k ih =>
    cases more with
    | nil => simp at hk
    | cons next more =>
      rw [turnText, ih (Nat.le_of_succ_le_succ hk), List.take_succ_cons,
        joinLines_cons line (List.cons_ne_nil _ _), List.append_assoc]
      simp only [List.length_cons, Nat.add_lt_add_iff_right, List.cons_append]

theorem turnText_newline (hlines : ∀ l ∈ line :: more, '\n' ∉ l) (hk : k < more.length) :
    (turnText k line more).count '\n' = k + 1 ∧ ∃ cs, turnText k line more = cs ++ ['\n'] := by
  obtain ⟨hline, hmore⟩ := List.forall_mem_cons.1 hlines
  induction k generalizing line more with
  | zero =>
    have hbreak : lineBreak more = ['\n'] := if_neg (List.ne_nil_of_length_pos hk)
    rw [turnText, hbreak, List.count_append, List.count_eq_zero.2 hline]
    exact ⟨rfl, line, rfl⟩
  | succ k ih =>
    cases more with
    | nil => simp at hk
    | cons next more =>
      obtain ⟨hcount, cs, hcs⟩ := ih hmore (Nat.lt_of_succ_lt_succ hk)
        (List.forall_mem_cons.1 hmore).1 (List.forall_mem_cons.1 hmore).2
      rw [turnText, List.count_append, List.count_eq_zero.2 hline, List.count_cons_self, hcount]
      exact ⟨by omega, line ++ '\n' :: cs, by rw [hcs, List.append_assoc]; rfl⟩

theorem prefix_turnText : line <+: turnText k line more := by
  cases k with
  | zero => exact List.prefix_append _ _
  | succ k =>
    cases more with
    | nil => exact List.prefix_rfl
    | cons next more => exact List.prefix_append _ _

/-- A text that is cut within its first line. -/
theorem turnText_cut_first {front kept : List Char} (hline : '\n' ∉ front ++ kept)
    (more : List Line) :
    turnText (front.count '\n') (front ++ kept) more =
      front ++ ((kept ++ (lineBreak more ++ joinLines more)).takeWhile (· ≠ '\n') ++
        lineBreak (more.drop (front.count '\n'))) := by
  rw [List.mem_append, not_or] at hline
  have hkept : ∀ c ∈ kept, decide (c ≠ '\n') = true :=
    fun c hc => decide_eq_true fun heq => hline.2 (heq ▸ hc)
  have hstops : (lineBreak more ++ joinLines more).takeWhile (· ≠ '\n') = [] := by
    cases more <;> rfl
  rw [List.count_eq_zero.2 hline.1, turnText, List.drop_zero,
    List.takeWhile_append_of_pos hkept, hstops, List.append_nil, List.append_assoc]

/-- A text that is cut within some line. -/
theorem turnText_cut (hlines : ∀ l ∈ line :: more, '\n' ∉ l) {front rest : List Char}
    (h : joinLines (line :: more) = front ++ rest) :
    front.count '\n' ≤ more.length ∧ turnText (front.count '\n') line more =
      front ++ (rest.takeWhile (· ≠ '\n') ++ lineBreak (more.drop (front.count '\n'))) := by
  induction more generalizing line front with
  | nil =>
    rw [joinLines_singleton] at h
    subst h
    have hline := hlines _ List.mem_cons_self
    have hcut := turnText_cut_first hline []
    rw [show lineBreak [] ++ joinLines [] = [] from rfl, List.append_nil] at hcut
    exact ⟨(List.count_eq_zero.2 fun hmem => hline (List.mem_append_left _ hmem)).le, hcut⟩
  | cons next more ih =>
    obtain ⟨hline, hmore⟩ := List.forall_mem_cons.1 hlines
    rw [joinLines_cons_lineBreak] at h
    rcases List.append_eq_append_iff.1 h with ⟨beyond, rfl, hbeyond⟩ | ⟨kept, rfl, rfl⟩
    · cases beyond with
      | nil =>
        have hcut := @turnText_cut_first line [] (by simpa using hline) (next :: more)
        rw [List.append_nil, List.nil_append, hbeyond, List.nil_append] at hcut
        rw [List.append_nil]
        exact ⟨(List.count_eq_zero.2 hline).le.trans (Nat.zero_le _), hcut⟩
      | cons c beyond =>
        obtain ⟨rfl, hjoined⟩ := List.cons.inj hbeyond
        obtain ⟨hle, hcut⟩ := ih hmore hjoined
        have hcount : (line ++ '\n' :: beyond).count '\n' = beyond.count '\n' + 1 := by
          rw [List.count_append, List.count_eq_zero.2 hline, List.count_cons_self, Nat.zero_add]
        rw [hcount, turnText, hcut, List.length_cons, List.append_assoc]
        exact ⟨Nat.succ_le_succ hle, rfl⟩
    · exact ⟨(List.count_eq_zero.2 fun hmem => hline (List.mem_append_left _ hmem)).le.trans
        (Nat.zero_le _), turnText_cut_first hline (next :: more)⟩

end Turn

/-! ## Nodes as pieces -/

def AstNode.raw : AstNode → String
  | .heading node => node.raw
  | .paragraph node => node.raw
  | .fence node => node.raw
  | .directive node => node.raw

def AstNode.loc : AstNode → SourceRange
  | .heading node => node.loc
  | .paragraph node => node.loc
  | .fence node => node.loc
  | .directive node => node.loc

def AstNode.piece (node : AstNode) : Piece Char :=
  ⟨node.raw.toList, node.loc.start.offset, node.loc.stop.offset⟩

/-- A directive that ends a line, if its block is closed. -/
def Clear (line : Line) (more : List Line) : Prop :=
  ∀ head block rest, directiveHead line = some head →
    (skipWhitespace (afterName head more)).head? = some '{' →
    findDirectiveBlockEnd {} (skipWhitespace (afterName head more)) = some (block, rest) →
    ∀ c ∈ rest.takeWhile (· ≠ '\n'), isWhite c = true

/-- The loop comes to a line: `before` is read, and `lines` are left. -/
structure At (scan : ScanResult) (lineIndex : Nat) (before : List Char) (lines : List Line) :
    Prop where
  scanned : scan.lineStarts = 0 :: lineStartsFrom 0 scan.source
  source : scan.source = before ++ joinLines lines
  breaks : scan.source.count '\n' + 1 = lineIndex + lines.length
  index : before.count '\n' = lineIndex
  start : before = [] ∨ ∃ cs, before = cs ++ ['\n']
  plain : ∀ line ∈ lines, '\n' ∉ line

section Walk

variable {scan : ScanResult} {i k : Nat} {before : List Char} {line : Line} {more : List Line}

theorem At.start_eq {lines : List Line} (h : At scan i before lines) :
    scan.lineStart i = units before :=
  h.index ▸ lineStart_of_source h.scanned h.source h.start

theorem At.next (h : At scan i before (line :: more)) (hk : k < more.length) :
    At scan (i + k + 1) (before ++ turnText k line more) (more.drop k) := by
  obtain ⟨hcount, cs, hcs⟩ := turnText_newline h.plain hk
  refine ⟨h.scanned, ?_, ?_, ?_, .inr ⟨before ++ cs, by rw [hcs, List.append_assoc]⟩,
    fun l hl => h.plain l (List.mem_cons_of_mem line (List.mem_of_mem_drop hl))⟩
  · rw [h.source, List.append_assoc, turnText_append]
  · rw [h.breaks, List.length_cons, List.length_drop]
    omega
  · rw [List.count_append, h.index, hcount, Nat.add_assoc]

theorem At.stop_eq (h : At scan i before (line :: more)) (hk : k ≤ more.length) :
    endOfLine scan (i + k) = units before + units (turnText k line more) := by
  rcases hk.lt_or_eq with hlt | rfl
  · rw [endOfLine, (h.next hlt).start_eq]
    exact size_append before _
  · have hbreaks := h.breaks
    rw [List.length_cons] at hbreaks
    have hall := turnText_append more.length line more
    rw [List.drop_length, show joinLines [] = [] from rfl, List.append_nil] at hall
    rw [endOfLine, lineStart_of_lt h.scanned (by omega), ScanResult.length, h.source, hall]
    exact size_append before _

theorem At.source_turn (h : At scan i before (line :: more)) (k : Nat) :
    scan.source = before ++ (turnText k line more ++ joinLines (more.drop k)) := by
  rw [turnText_append, h.source]

/-- A turn that adds one node, between what it leaves out. -/
theorem laid_node {node : AstNode} {text lead raw tail after : List Char} {start stop : Nat}
    (hsource : scan.source = before ++ (text ++ after)) (htext : text = lead ++ (raw ++ tail))
    (hne : raw ≠ []) (hraw : node.raw = String.ofList raw)
    (hloc : node.loc = scan.rangeFromOffsets start stop)
    (hstart : start = units before + units lead) (hstop : stop = start + units raw) :
    Laid width [node.piece] before text (lead ++ tail) := by
  have hlength : scan.length = units before + (units text + units after) := by
    rw [ScanResult.length, hsource, units_append, units_append]
  have hunits : units text = units lead + (units raw + units tail) := by
    rw [htext, units_append, units_append]
  have hpiece : node.piece.raw = raw := by
    rw [AstNode.piece, hraw, String.toList_ofList]
  have hrange : node.piece.start = min start scan.length ∧
      node.piece.stop = min stop scan.length := by
    unfold AstNode.piece
    rw [hloc]
    exact ⟨rfl, rfl⟩
  have hfront : size width (before ++ lead) = units before + units lead := size_append _ _
  have hbehind : node.piece.Behind width (before ++ lead) := by
    refine ⟨?_, ?_, hpiece ▸ hne⟩
    · rw [hrange.1, hfront, hstart]
      exact min_eq_left (by omega)
    · rw [hrange.2, hfront, hpiece, hstop, hstart]
      exact min_eq_left (by omega)
  rw [htext, ← hpiece]
  exact .cons lead hbehind (.nil _ tail)

/-- What the nodes of a turn cover of the lines that it takes. -/
def Turned (before : List Char) (line : Line) (more : List Line) (step : WalkStep) : Prop :=
  ∃ gaps, ((∀ c ∈ gaps, isWhite c = true) ↔ Clear line more) ∧
    match step.taken with
    | none => Laid width (step.children.map AstNode.piece) before (joinLines (line :: more)) gaps
    | some k => k ≤ more.length ∧
      Laid width (step.children.map AstNode.piece) before (turnText k line more) gaps

theorem findDirectiveBlockEnd_eq {s : BlockState} {cs block rest : List Char}
    (h : findDirectiveBlockEnd s cs = some (block, rest)) : cs = block ++ rest := by
  induction cs generalizing s block with
  | nil => cases h
  | cons c cs ih =>
    rw [findDirectiveBlockEnd] at h
    split at h
    · obtain ⟨rfl, rfl⟩ := Prod.mk.inj (Option.some.inj h)
      rfl
    · obtain ⟨p, hp, h⟩ := Option.map_eq_some_iff.1 h
      obtain ⟨rfl, rfl⟩ := Prod.mk.inj h
      rw [List.cons_append, ← ih hp]

theorem turned_none {step : WalkStep} {gaps : List Char} (hclear : directiveHead line = none)
    (htaken : step.taken = some k) (hk : k ≤ more.length) (hgaps : ∀ c ∈ gaps, isWhite c = true)
    (hlaid : Laid width (step.children.map AstNode.piece) before (turnText k line more) gaps) :
    Turned before line more step := by
  refine ⟨gaps, iff_of_true hgaps fun head block rest hhead => ?_, ?_⟩
  · rw [hclear] at hhead
    cases hhead
  · rw [htaken]
    exact ⟨hk, hlaid⟩

theorem turned_walkDirective (h : At scan i before (line :: more)) {head : DirectiveHead}
    (hhead : directiveHead line = some head) :
    Turned before line more (walkDirective scan i line head more) := by
  obtain ⟨hline, -, hindent, hname⟩ := directiveHead_some hhead
  have hjoined : joinLines (line :: more) =
      head.indent ++ ('@' :: head.name ++ afterName head more) := by
    rw [afterName, joinLines_cons_lineBreak, joinLines_cons_lineBreak, hline]
    simp
  have hrefused : ∀ {gaps : List Char}, (∀ c ∈ gaps, isWhite c = true) →
      ((skipWhitespace (afterName head more)).head? = some '{' →
        findDirectiveBlockEnd {} (skipWhitespace (afterName head more)) = none) →
      ((∀ c ∈ gaps, isWhite c = true) ↔ Clear line more) := by
    intro gaps hgaps hnone
    refine iff_of_true hgaps fun head' block rest hhead' hopens hend => ?_
    obtain rfl := Option.some.inj (hhead.symm.trans hhead')
    rw [hnone hopens] at hend
    cases hend
  unfold walkDirective
  dsimp only
  split
  · next hopens =>
    refine ⟨head.indent ++ lineBreak more, hrefused (List.forall_mem_append.2
      ⟨hindent, lineBreak_white more⟩) fun hopened => absurd hopened hopens, Nat.zero_le _, ?_⟩
    have hraw : line.drop head.indent.length = '@' :: (head.name ++ head.after) := by
      rw [hline, List.drop_left]
    refine laid_node (h.source_turn 0) ?_ (hraw ▸ List.cons_ne_nil _ _) rfl rfl
      (congrArg (· + _) h.start_eq) ?_
    · rw [turnText, hraw, ← List.append_assoc, ← hline]
    · rw [h.start_eq, hraw, Nat.add_assoc, ← units_append head.indent, ← hline]
  · next hopens =>
    rw [not_not] at hopens
    split
    · next hend =>
      refine ⟨head.indent ++ [], hrefused (by simpa using hindent) fun _ => hend, ?_⟩
      have hsource : scan.source = before ++ (joinLines (line :: more) ++ []) := by
        rw [List.append_nil, h.source]
      have hne : '@' :: head.name ++ afterName head more ≠ [] := List.cons_ne_nil _ _
      refine laid_node hsource ?_ hne rfl rfl (congrArg (· + _) h.start_eq) ?_
      · rw [List.append_nil, hjoined]
      · rw [h.start_eq, ScanResult.length, h.source, hjoined, units_append, units_append,
          Nat.add_assoc]
    · next block rest hend =>
      have hgap : afterName head more =
          (afterName head more).takeWhile isWhite ++ (block ++ rest) := by
        rw [← findDirectiveBlockEnd_eq hend, skipWhitespace, List.takeWhile_append_dropWhile]
      have hclear : Clear line more ↔ ∀ c ∈ rest.takeWhile (· ≠ '\n'), isWhite c = true := by
        refine ⟨fun hclear => hclear head block rest hhead hopens hend,
          fun hwhite head' block' rest' hhead' _ hend' => ?_⟩
        obtain rfl := Option.some.inj (hhead.symm.trans hhead')
        obtain ⟨-, rfl⟩ := Prod.mk.inj (Option.some.inj (hend.symm.trans hend'))
        exact hwhite
      generalize (afterName head more).takeWhile isWhite = gap at hgap ⊢
      have hcut : joinLines (line :: more) =
          (head.indent ++ ('@' :: head.name ++ gap ++ block)) ++ rest := by
        rw [hjoined, hgap]
        simp
      have hcount : (head.indent ++ ('@' :: head.name ++ gap ++ block)).count '\n' =
          (gap ++ block).count '\n' := by
        have hplain := h.plain line List.mem_cons_self
        rw [hline, ← List.cons_append, List.mem_append, List.mem_append, not_or, not_or] at hplain
        rw [List.append_assoc ('@' :: head.name), List.count_append, List.count_append,
          List.count_eq_zero.2 hplain.1, List.count_eq_zero.2 hplain.2.1, Nat.zero_add,
          Nat.zero_add]
      obtain ⟨hk, hturn⟩ := turnText_cut h.plain hcut
      rw [hcount] at hk hturn
      refine ⟨_, ?_, hk, laid_node (h.source_turn _) (hturn.trans (List.append_assoc _ _ _))
        (List.cons_ne_nil _ _) rfl rfl (congrArg (· + _) h.start_eq) ?_⟩
      · rw [hclear, List.forall_mem_append, List.forall_mem_append]
        exact ⟨fun hwhite => hwhite.2.1, fun hwhite => ⟨hindent, hwhite, lineBreak_white _⟩⟩
      · have hat : width '@' = 1 := rfl
        simp only [units_append, units_cons, hat]
        omega

theorem length_fenceBody (more : List Line) : (if (fenceBody more).2 then
    (fenceBody more).1.length + 1 else (fenceBody more).1.length) ≤ more.length := by
  induction more with
  | nil => exact le_rfl
  | cons next more ih =>
    rw [fenceBody, List.length_cons]
    split
    · exact Nat.succ_le_succ (Nat.zero_le _)
    · dsimp only
      rw [List.length_cons]
      by_cases hclosed : (fenceBody more).2 = true
      · rw [if_pos hclosed] at ih ⊢
        omega
      · rw [if_neg hclosed] at ih ⊢
        omega

theorem turned_walkLine (h : At scan i before (line :: more)) :
    Turned before line more (walkLine scan i line more) := by
  cases hhead : directiveHead line with
  | some head =>
    rw [walkLine_of_directiveHead scan i hhead]
    exact turned_walkDirective h hhead
  | none =>
    -- nodes that are made of the lines of their turn
    have hwhole : ∀ {node : AstNode} {k : Nat}, k ≤ more.length → line ≠ [] →
        node.raw = String.ofList (turnText k line more) →
        node.loc = scan.rangeFromOffsets (scan.lineStart i) (endOfLine scan (i + k)) →
        Laid width [node.piece] before (turnText k line more) [] := by
      intro node k hk hne hraw hloc
      have htext : turnText k line more = [] ++ (turnText k line more ++ []) := by simp
      refine laid_node (h.source_turn k) htext ?_ hraw hloc h.start_eq ?_
      · exact fun hnil => hne (List.prefix_nil.1 (hnil ▸ prefix_turnText))
      · rw [h.stop_eq hk, h.start_eq]
    unfold walkLine
    split
    · next hblank =>
      refine turned_none hhead rfl (Nat.zero_le _) ?_ (.nil before _)
      exact List.forall_mem_append.2 ⟨List.all_eq_true.1 hblank, lineBreak_white more⟩
    · next hblank =>
      have hne : line ≠ [] := fun hnil => hblank (hnil ▸ rfl)
      split
      · refine turned_none hhead rfl (length_fenceBody more) (List.forall_mem_nil _)
          (hwhole (length_fenceBody more) hne ?_ rfl)
        rw [turnText_eq (length_fenceBody more)]
        rfl
      · rw [hhead]
        split
        · next depth text _ =>
          refine turned_none hhead rfl (Nat.zero_le _) (lineBreak_white more) ?_
          have htext : turnText 0 line more = [] ++ (line ++ lineBreak more) := rfl
          exact laid_node (h.source_turn 0) htext hne rfl rfl h.start_eq rfl
        · have hbody : (paragraphBody more).length ≤ more.length :=
            (List.takeWhile_prefix _).length_le
          have htake : more.take (paragraphBody more).length = paragraphBody more :=
            (List.prefix_iff_eq_take.1 (List.takeWhile_prefix _)).symm
          refine turned_none hhead rfl hbody (List.forall_mem_nil _) (hwhole hbody hne ?_ rfl)
          rw [turnText_eq hbody, htake]
          rfl

end Walk

/-! ## The whole walk -/

/-- From the lines at an index the loop comes to others. -/
inductive ComesTo (scan : ScanResult) : Nat → List Line → List Line → Prop
  | here (i : Nat) (lines : List Line) : ComesTo scan i lines lines
  | later {i taken : Nat} {line : Line} {more lines : List Line}
      (turn : (walkLine scan i line more).taken = some taken)
      (rest : ComesTo scan (i + taken + 1) (more.drop taken) lines) :
      ComesTo scan i (line :: more) lines

theorem walkLines_laid {scan : ScanResult} {fuel i : Nat} {before : List Char}
    {lines : List Line} (h : lines = [] ∨ At scan i before lines) (hfuel : lines.length ≤ fuel) :
    ∃ gaps, Laid width ((walkLines scan fuel i lines).1.map AstNode.piece) before
        (joinLines lines) gaps ∧
      ((∀ c ∈ gaps, isWhite c = true) ↔
        ∀ line more, ComesTo scan i lines (line :: more) → Clear line more) := by
  induction fuel generalizing i before lines with
  | zero =>
    obtain rfl := List.length_eq_zero_iff.1 (Nat.le_zero.1 hfuel)
    exact ⟨[], .nil before [],
      iff_of_true (List.forall_mem_nil _) fun _ _ hcomes => by cases hcomes⟩
  | succ fuel ih =>
    cases lines with
    | nil =>
      exact ⟨[], .nil before [],
        iff_of_true (List.forall_mem_nil _) fun _ _ hcomes => by cases hcomes⟩
    | cons line more =>
      have hat := h.resolve_left (List.cons_ne_nil line more)
      obtain ⟨gaps, hclear, hturn⟩ := turned_walkLine hat
      rw [walkLines]
      dsimp only
      cases htaken : (walkLine scan i line more).taken with
      | none =>
        rw [htaken] at hturn
        refine ⟨gaps, hturn, hclear.trans ⟨fun hline l ls hcomes => ?_,
          fun hall => hall line more (.here i _)⟩⟩
        cases hcomes with
        | here => exact hline
        | later turn => rw [htaken] at turn; cases turn
      | some k =>
        rw [htaken] at hturn
        obtain ⟨hk, hlaid⟩ := hturn
        have hnext : more.drop k = [] ∨ At scan (i + k + 1) (before ++ turnText k line more)
            (more.drop k) :=
          hk.eq_or_lt.imp (fun heq => by rw [heq, List.drop_length]) hat.next
        obtain ⟨gaps', hrest, hclears⟩ := ih hnext (by
          rw [List.length_cons] at hfuel
          rw [List.length_drop]
          omega)
        refine ⟨gaps ++ gaps', ?_, ?_⟩
        · rw [List.map_append, ← turnText_append k line more]
          exact hlaid.append hrest
        · rw [List.forall_mem_append, hclear, hclears]
          refine ⟨fun hclears l ls hcomes => ?_,
            fun hall => ⟨hall line more (.here i _),
              fun l ls hcomes => hall l ls (.later htaken hcomes)⟩⟩
          cases hcomes with
          | here => exact hclears.1
          | later turn rest =>
            obtain rfl := Option.some.inj (htaken.symm.trans turn)
            exact hclears.2 l ls rest

theorem walkLines_fuel {scan : ScanResult} {fuel fuel' i : Nat} {lines : List Line}
    (h : lines.length ≤ fuel) (h' : lines.length ≤ fuel') :
    walkLines scan fuel i lines = walkLines scan fuel' i lines := by
  induction fuel generalizing i lines fuel' with
  | zero =>
    obtain rfl := List.length_eq_zero_iff.1 (Nat.le_zero.1 h)
    cases fuel' <;> rfl
  | succ fuel ih =>
    cases lines with
    | nil => cases fuel' <;> rfl
    | cons line more =>
      cases fuel' with
      | zero => simp at h'
      | succ fuel' =>
        rw [List.length_cons] at h h'
        rw [walkLines, walkLines]
        dsimp only
        split
        · rfl
        · next k _ =>
          have hlength := (List.drop_sublist k more).length_le
          rw [ih (show _ ≤ fuel by omega) (show _ ≤ fuel' by omega)]

/-- Each turn of the loop takes a line, and the nodes lie one behind another where they say. They
cover what is not blank just if no directive is followed by anything on the line of its brace. -/
theorem parseAst_covers_iff (source : String) :
    let scan := scanSource source
    let children := (parseAst scan).children
    (∀ fuel, (splitLines scan.source).length ≤ fuel →
      walkLines scan fuel 0 (splitLines scan.source) = (children, (parseAst scan).diagnostics)) ∧
    children.Pairwise (fun a b => a.loc.stop.offset ≤ b.loc.start.offset) ∧
    (∀ node ∈ children, node.loc.start.offset < node.loc.stop.offset ∧
      ∃ front after, scan.source = front ++ node.raw.toList ++ after ∧
        node.loc.start.offset = units front ∧
        node.loc.stop.offset = units front + units node.raw.toList) ∧
    ((∀ front c after, scan.source = front ++ c :: after → isWhite c = false →
        ∃ node ∈ children, node.loc.start.offset ≤ units front ∧
          units front + width c ≤ node.loc.stop.offset) ↔
      ∀ line more, ComesTo scan 0 (splitLines scan.source) (line :: more) → Clear line more) := by
  intro scan children
  have hjoined := joinLines_splitLines scan.source
  have hat : At scan 0 [] (splitLines scan.source) := ⟨rfl, hjoined.symm, by
    rw [length_splitLines, Nat.zero_add], rfl, .inl rfl, newline_not_mem_splitLines _⟩
  obtain ⟨gaps, hlaid, hclear⟩ := walkLines_laid (.inr hat) le_rfl
  rw [hjoined] at hlaid
  refine ⟨fun fuel hfuel => walkLines_fuel hfuel le_rfl, ?_, fun node hnode => ?_, ?_⟩
  · exact List.pairwise_map.1 (hlaid.pairwise width_pos)
  · have hmem := List.mem_map_of_mem (f := AstNode.piece) hnode
    obtain ⟨front, after, hsource, hbehind⟩ := hlaid.slice _ hmem
    exact ⟨(hlaid.starts width_pos _ hmem).2, front, after, hsource, hbehind.start, hbehind.stop⟩
  · have hcovers := hlaid.covers_iff width_pos fun c => isWhite c = false
    simp only [Bool.not_eq_false, Covers, List.mem_map, exists_exists_and_eq_and] at hcovers
    exact hcovers.trans hclear

/-- The word behind the closing brace is in no node. -/
theorem word_behind_brace_uncovered :
    ¬ ∀ (front : List Char) (c : Char) (after : List Char),
      (scanSource "@a \x7b\x7d b").source = front ++ c :: after → isWhite c = false →
        ∃ node ∈ (parseAst (scanSource "@a \x7b\x7d b")).children,
          node.loc.start.offset ≤ units front ∧ units front + width c ≤ node.loc.stop.offset := by
  intro hcovers
  have hnone : ¬ ∃ node ∈ (parseAst (scanSource "@a \x7b\x7d b")).children,
      node.loc.start.offset ≤ 6 ∧ 7 ≤ node.loc.stop.offset := by decide +kernel
  exact hnone (hcovers "@a \x7b\x7d ".toList 'b' [] rfl rfl)

end AionisCore.AionisDoc
