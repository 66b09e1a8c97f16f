import AionisCore.AionisDoc.BlockEnd

/-!
# Documents of directives

A document made of blank lines and well-formed directives, each starting on a line of its own,
is parsed into these directives, one node each. With `parse_stringify` this decides which
payloads come back unchanged when they are printed as JSON.
-/

namespace AionisCore.AionisDoc

open Lib Lib.JsString Lib.JsonData PayloadParser

/-! ## The end of a block -/

/-- What follows a block does not matter. -/
theorem findDirectiveBlockEnd_block {s : BlockState} {block : List Char}
    (h : findDirectiveBlockEnd s block = some (block, [])) (rest : List Char) :
    findDirectiveBlockEnd s (block ++ rest) = some (block, rest) := by
  induction block generalizing s with
  | nil => cases h
  | cons c cs ih =>
    rw [findDirectiveBlockEnd] at h
    rw [List.cons_append, findDirectiveBlockEnd]
    cases hstep : s.step c with
    | none =>
      rw [hstep] at h
      obtain rfl : [] = cs := by simpa using h
      rfl
    | some s' =>
      rw [hstep] at h
      dsimp only at h
      obtain ⟨p, hp, heq⟩ := Option.map_eq_some_iff.1 h
      obtain ⟨hcs, hnil⟩ : p.1 = cs ∧ p.2 = [] := by simpa using heq
      have hblock : findDirectiveBlockEnd s' cs = some (cs, []) := by
        rw [hp, ← hcs, ← hnil]
      dsimp only
      rw [ih hblock]
      rfl

/-- A printed object is a block. -/
theorem findDirectiveBlockEnd_stringify {gap : List Char} (hgap : ∀ c ∈ gap, isWhite c = true)
    (fields : List (String × JsonData)) :
    findDirectiveBlockEnd {} (stringify gap [] (.obj fields)) =
      some (stringify gap [] (.obj fields), []) := by
  have hbrace : ¬ isWhite '}' = true := by decide
  have hend := block_of_parse rfl (parse_stringify hgap (.obj fields)) []
  rw [List.append_nil, List.append_nil, stringify, List.rdropWhile_concat_neg _ _ _ hbrace,
    List.rtakeWhile_concat_neg _ _ _ hbrace] at hend
  rw [stringify, hend]

/-! ## Lines -/

variable {lines : List Line}

theorem splitLines_ne_nil (cs : List Char) : splitLines cs ≠ [] := by
  unfold splitLines
  cases cs with
  | nil => exact List.cons_ne_nil _ _
  | cons c cs =>
    rw [splitOn]
    split
    · exact List.cons_ne_nil _ _
    · split
      · exact List.cons_ne_nil _ _
      · exact List.cons_ne_nil _ _

theorem splitLines_newline (cs : List Char) : splitLines ('\n' :: cs) = [] :: splitLines cs := by
  rw [splitLines, splitOn, if_pos rfl, splitLines]

theorem splitLines_cons {c : Char} (hc : c ≠ '\n') {cs : List Char} {line : Line}
    (h : splitLines cs = line :: lines) : splitLines (c :: cs) = (c :: line) :: lines := by
  unfold splitLines at h ⊢
  rw [splitOn, if_neg hc, h]

theorem joinLines_cons (line : Line) (h : lines ≠ []) :
    joinLines (line :: lines) = line ++ '\n' :: joinLines lines := by
  obtain ⟨l, ls, rfl⟩ := List.exists_cons_of_ne_nil h
  simp [joinLines, List.intercalate, List.intersperse]

theorem joinLines_singleton (line : Line) : joinLines [line] = line := by
  simp [joinLines, List.intercalate, List.intersperse]

theorem joinLines_splitLines (cs : List Char) : joinLines (splitLines cs) = cs := by
  induction cs with
  | nil => rfl
  | cons c cs ih =>
    by_cases hc : c = '\n'
    · subst hc
      rw [splitLines_newline, joinLines_cons _ (splitLines_ne_nil cs), ih, List.nil_append]
    · obtain ⟨line, lines, hsplit⟩ := List.exists_cons_of_ne_nil (splitLines_ne_nil cs)
      rw [splitLines_cons hc hsplit]
      rw [hsplit] at ih
      cases lines with
      | nil =>
        rw [joinLines_singleton] at ih ⊢
        rw [ih]
      | cons l ls =>
        rw [joinLines_cons _ (List.cons_ne_nil l ls)] at ih ⊢
        rw [List.cons_append, ih]

theorem joinLines_append (hne : lines ≠ []) (rest : List Line) :
    ∃ tail, joinLines (lines ++ rest) = joinLines lines ++ tail := by
  induction lines with
  | nil => exact absurd rfl hne
  | cons line lines ih =>
    cases lines with
    | nil =>
      cases rest with
      | nil => exact ⟨[], (List.append_nil _).symm⟩
      | cons r rs =>
        rw [List.singleton_append, joinLines_cons _ (List.cons_ne_nil r rs), joinLines_singleton]
        exact ⟨_, rfl⟩
    | cons l ls =>
      obtain ⟨tail, htail⟩ := ih (List.cons_ne_nil l ls)
      refine ⟨tail, ?_⟩
      rw [List.cons_append, joinLines_cons _ (by simp), htail,
        joinLines_cons _ (List.cons_ne_nil l ls), List.append_assoc, List.cons_append]

theorem splitLines_append_newline (cs ds : List Char) :
    splitLines (cs ++ '\n' :: ds) = splitLines cs ++ splitLines ds := by
  induction cs with
  | nil => exact splitLines_newline ds
  | cons c cs ih =>
    by_cases hc : c = '\n'
    · subst hc
      rw [List.cons_append, splitLines_newline, splitLines_newline, ih, List.cons_append]
    · obtain ⟨line, lines, hsplit⟩ := List.exists_cons_of_ne_nil (splitLines_ne_nil cs)
      rw [hsplit, List.cons_append] at ih
      rw [List.cons_append, splitLines_cons hc ih, splitLines_cons hc hsplit, List.cons_append]

theorem length_splitLines (cs : List Char) : (splitLines cs).length = cs.count '\n' + 1 := by
  induction cs with
  | nil => rfl
  | cons c cs ih =>
    by_cases hc : c = '\n'
    · subst hc
      rw [splitLines_newline, List.length_cons, ih, List.count_cons_self]
    · obtain ⟨line, lines, hsplit⟩ := List.exists_cons_of_ne_nil (splitLines_ne_nil cs)
      rw [hsplit] at ih
      rw [splitLines_cons hc hsplit, List.count_cons_of_ne hc]
      exact ih

/-- Characters without a line break stand before the first line. -/
theorem splitLines_prepend {cs ds : List Char} (hcs : ∀ c ∈ cs, c ≠ '\n') {line : Line}
    {lines : List Line} (h : splitLines ds = line :: lines) :
    splitLines (cs ++ ds) = (cs ++ line) :: lines := by
  induction cs with
  | nil => exact h
  | cons c cs ih =>
    exact splitLines_cons (hcs c List.mem_cons_self)
      (ih fun d hd => hcs d (List.mem_cons_of_mem c hd))

/-! ## Documents -/

/-- A directive without diagnostics. -/
structure DirectiveSource where
  name : List Char
  gap : List Char
  block : List Char
  payload : AionisValue
  name_start : ∃ c cs, name = c :: cs ∧ c.isAlpha = true ∧ ∀ d ∈ cs, isIdentifierPart d = true
  gap_white : ∀ c ∈ gap, isWhite c = true
  block_opens : block.head? = some '{'
  block_ends : findDirectiveBlockEnd {} block = some (block, [])
  block_reads : parse block = .ok payload

def DirectiveSource.text (d : DirectiveSource) : List Char := '@' :: d.name ++ d.gap ++ d.block

inductive DocumentItem where
  | blank (line : Line) (white : ∀ c ∈ line, isWhite c = true ∧ c ≠ '\n')
  | directive (d : DirectiveSource)

def DocumentItem.text : DocumentItem → List Char
  | .blank line _ => line
  | .directive d => d.text

/-- The items, each starting on a line of its own. -/
def documentText : List DocumentItem → List Char
  | [] => []
  | [item] => item.text
  | item :: items => item.text ++ '\n' :: documentText items

def directives (items : List DocumentItem) : List DirectiveSource :=
  items.filterMap fun item => match item with
    | .blank _ _ => none
    | .directive d => some d

/-- The node reads the directive as it is written. -/
structure DirectiveSource.ReadBy (d : DirectiveSource) (node : AstNode) : Prop where
  read : ∃ n, node = .directive n ∧ n.name = String.ofList d.name ∧ n.payload = some d.payload ∧
    n.diagnostics = []

theorem splitLines_documentText {items : List DocumentItem} (hne : items ≠ []) :
    splitLines (documentText items) = items.flatMap fun item => splitLines item.text := by
  induction items with
  | nil => exact absurd rfl hne
  | cons item items ih =>
    cases items with
    | nil => simp [documentText]
    | cons next items =>
      have hnext := ih (List.cons_ne_nil next items)
      rw [documentText, splitLines_append_newline, hnext]
      · rfl
      · exact List.cons_ne_nil _ _

section Directive

variable (d : DirectiveSource) {after : Line}

theorem name_identifier : ∀ c ∈ d.name, isIdentifierPart c = true := by
  obtain ⟨c, cs, hname, halpha, hpart⟩ := d.name_start
  intro x hx
  rw [hname] at hx
  obtain rfl | hx := List.mem_cons.1 hx
  · simp [isIdentifierPart, Char.isAlphanum, halpha]
  · exact hpart x hx

theorem name_not_newline : ∀ c ∈ d.name, c ≠ '\n' := by
  rintro c hc rfl
  exact absurd (name_identifier d _ hc) (by decide)

/-- The first line of what follows the name does not continue it. -/
theorem endsValue_after {more : List Line} (h : splitLines (d.gap ++ d.block) = after :: more) :
    EndsValue after := by
  have hstart : ∀ cs : List Char, EndsValue cs → ∀ line lines,
      splitLines cs = line :: lines → EndsValue line := by
    intro cs hcs line lines hsplit
    cases cs with
    | nil =>
      obtain ⟨rfl, -⟩ := List.cons.inj hsplit
      exact endsValue_nil
    | cons c cs =>
      by_cases hc : c = '\n'
      · subst hc
        rw [splitLines_newline] at hsplit
        obtain ⟨rfl, -⟩ := List.cons.inj hsplit
        exact endsValue_nil
      · obtain ⟨l, ls, hsplit'⟩ := List.exists_cons_of_ne_nil (splitLines_ne_nil cs)
        rw [splitLines_cons hc hsplit'] at hsplit
        obtain ⟨rfl, -⟩ := List.cons.inj hsplit
        exact endsValue_cons (hcs c rfl) _
  refine hstart _ ?_ _ _ h
  intro c hc
  cases hgap : d.gap with
  | nil =>
    rw [hgap, List.nil_append, d.block_opens] at hc
    obtain rfl := Option.some.inj hc
    decide
  | cons g gs =>
    rw [hgap] at hc
    obtain rfl : g = c := by simpa using hc
    have hwhite := d.gap_white g (hgap ▸ List.mem_cons_self)
    by_contra hpart
    rw [Bool.not_eq_false] at hpart
    rw [isWhite_of_identifierPart hpart] at hwhite
    cases hwhite

theorem directiveHead_line (h : EndsValue after) :
    directiveHead ('@' :: d.name ++ after) =
      some { indent := [], name := d.name, after := after } := by
  obtain ⟨c, cs, hname, halpha, hpart⟩ := d.name_start
  obtain ⟨htake, hdrop⟩ := identifierPart_ends hpart h
  have hat : isWhite '@' = false := by decide
  unfold directiveHead
  rw [List.cons_append, skipWhitespace_cons hat, hname, List.cons_append]
  change (if c.isAlpha = true then some (DirectiveHead.mk
    (('@' :: c :: (cs ++ after)).takeWhile isWhite) (c :: (cs ++ after).takeWhile isIdentifierPart)
    ((cs ++ after).dropWhile isIdentifierPart)) else none) = _
  rw [if_pos halpha, htake, hdrop, List.takeWhile_cons_of_neg (by simp [hat])]

theorem parse_block (loc : SourceRange) :
    parseAionisPayload d.block loc = (some d.payload, []) := by
  unfold parseAionisPayload
  rw [d.block_reads]

/-- The turn of the loop that meets a directive. -/
theorem walkLine_directive (scan : ScanResult) (lineIndex : Nat) {more : List Line}
    (h : splitLines (d.gap ++ d.block) = after :: more) (rest : List Line) :
    ∃ node, (walkLine scan lineIndex ('@' :: d.name ++ after) (more ++ rest)).children = [node] ∧
      d.ReadBy node ∧
      (walkLine scan lineIndex ('@' :: d.name ++ after) (more ++ rest)).diagnostics = [] ∧
      (walkLine scan lineIndex ('@' :: d.name ++ after) (more ++ rest)).taken =
        some more.length := by
  obtain ⟨tail, htail⟩ := joinLines_append (splitLines_ne_nil (d.gap ++ d.block)) rest
  have htext : afterName ⟨[], d.name, after⟩ (more ++ rest) = d.gap ++ (d.block ++ tail) := by
    rw [joinLines_splitLines, h] at htail
    rw [← List.append_assoc]
    exact htail
  have hne : d.block ≠ [] := by
    intro hnil
    have hopens := d.block_opens
    rw [hnil] at hopens
    cases hopens
  obtain ⟨b, bs, hblock⟩ := List.exists_cons_of_ne_nil hne
  obtain rfl : '{' = b := by
    have hopens := d.block_opens
    rw [hblock] at hopens
    exact (Option.some.inj hopens).symm
  have hopen : isWhite '{' = false := by decide
  have hskip : skipWhitespace (d.gap ++ (d.block ++ tail)) = d.block ++ tail := by
    rw [skipWhitespace_append d.gap_white, hblock, List.cons_append, skipWhitespace_cons hopen]
  have hgap : (d.gap ++ (d.block ++ tail)).takeWhile isWhite = d.gap := by
    rw [List.takeWhile_append_of_pos d.gap_white, hblock, List.cons_append,
      List.takeWhile_cons_of_neg (by simp [hopen]), List.append_nil]
  have hhead : (d.block ++ tail).head? = some '{' := by
    rw [hblock]
    rfl
  have hcount : (d.gap ++ d.block).count '\n' = more.length := by
    have hlength := length_splitLines (d.gap ++ d.block)
    rw [h, List.length_cons] at hlength
    omega
  rw [walkLine_of_directiveHead scan lineIndex (directiveHead_line d (endsValue_after d h))]
  unfold walkDirective
  rw [htext]
  dsimp only
  rw [hskip, hgap, findDirectiveBlockEnd_block d.block_ends tail, if_neg (not_not.2 hhead)]
  dsimp only
  simp only [parse_block]
  exact ⟨_, rfl, ⟨_, rfl, rfl, rfl, rfl⟩, trivial, congrArg some hcount⟩

end Directive

/-- A document of blank lines and directives is read into its directives. -/
theorem walkLines_items (scan : ScanResult) (items : List DocumentItem) {fuel : Nat}
    (hfuel : (items.flatMap fun item => splitLines item.text).length ≤ fuel) (lineIndex : Nat) :
    (walkLines scan fuel lineIndex (items.flatMap fun item => splitLines item.text)).2 = [] ∧
      List.Forall₂ DirectiveSource.ReadBy (directives items)
        (walkLines scan fuel lineIndex (items.flatMap fun item => splitLines item.text)).1 := by
  induction items generalizing fuel lineIndex with
  | nil =>
    cases fuel with
    | zero => exact ⟨rfl, .nil⟩
    | succ fuel => exact ⟨rfl, .nil⟩
  | cons item items ih =>
    rw [List.flatMap_cons, List.length_append] at hfuel
    rw [List.flatMap_cons]
    cases item with
    | blank line white =>
      have hsplit : splitLines line = [line] := by
        have hline := @splitLines_prepend line [] (fun c hc => (white c hc).2) [] [] rfl
        rwa [List.append_nil] at hline
      rw [DocumentItem.text, hsplit] at hfuel ⊢
      obtain ⟨fuel, rfl⟩ := Nat.exists_eq_add_of_le' (show 1 ≤ fuel by
        rw [List.length_singleton] at hfuel
        omega)
      have hblank : isBlankLine line = true := List.all_eq_true.2 fun c hc => (white c hc).1
      have hstep : walkLine scan lineIndex line (items.flatMap fun item => splitLines item.text) =
          {} := by
        unfold walkLine
        rw [if_pos hblank]
      rw [List.singleton_append, walkLines, hstep]
      exact ih (by rw [List.length_singleton] at hfuel; omega) (lineIndex + 0 + 1)
    | directive d =>
      obtain ⟨after, more, hsplit⟩ :=
        List.exists_cons_of_ne_nil (splitLines_ne_nil (d.gap ++ d.block))
      have htext : splitLines (DocumentItem.directive d).text =
          ('@' :: d.name ++ after) :: more := by
        have hprefix : ∀ c ∈ '@' :: d.name, c ≠ '\n' := by
          intro c hc
          obtain rfl | hc := List.mem_cons.1 hc
          · decide
          · exact name_not_newline d c hc
        have hlines := splitLines_prepend hprefix hsplit
        rwa [← List.append_assoc] at hlines
      rw [htext, List.length_cons] at hfuel
      obtain ⟨fuel, rfl⟩ := Nat.exists_eq_add_of_le' (show 1 ≤ fuel by omega)
      obtain ⟨node, hchildren, hread, hdiagnostics, htaken⟩ :=
        walkLine_directive d scan lineIndex hsplit (items.flatMap fun item => splitLines item.text)
      have hrest := ih (show (items.flatMap fun item => splitLines item.text).length ≤ fuel by
        omega) (lineIndex + more.length + 1)
      rw [htext, List.cons_append, walkLines, htaken, hchildren, hdiagnostics]
      dsimp only
      rw [List.drop_left]
      exact ⟨hrest.1, .cons hread hrest.2⟩

theorem parseAst_documentText (items : List DocumentItem) :
    (parseAst (scanSource (String.ofList (documentText items)))).diagnostics = [] ∧
      List.Forall₂ DirectiveSource.ReadBy (directives items)
        (parseAst (scanSource (String.ofList (documentText items)))).children := by
  have hsource : (scanSource (String.ofList (documentText items))).source =
      documentText items := String.toList_ofList
  unfold parseAst
  rw [hsource]
  cases items with
  | nil => exact ⟨rfl, .nil⟩
  | cons item items =>
    rw [splitLines_documentText (List.cons_ne_nil _ _)]
    exact walkLines_items _ (item :: items) le_rfl 0

/-! ## Payloads printed as JSON -/

/-- `@name ` followed by `JSON.stringify(v, null, gap)`. -/
def printedDirective {name : List Char}
    (hname : ∃ c cs, name = c :: cs ∧ c.isAlpha = true ∧ ∀ d ∈ cs, isIdentifierPart d = true)
    (gap : List Char) (hgap : ∀ c ∈ gap, isWhite c = true) (fields : List (String × JsonData)) :
    DirectiveSource where
  name := name
  gap := [' ']
  block := stringify gap [] (.obj fields)
  payload := reread (.obj fields)
  name_start := hname
  gap_white := List.forall_mem_singleton.2 rfl
  block_opens := by
    rw [stringify]
    rfl
  block_ends := findDirectiveBlockEnd_stringify hgap fields
  block_reads := parse_stringify hgap (.obj fields)

/-- The document in which the printed payload of an object stands among other directives. -/
def printedDocument {name : List Char}
    (hname : ∃ c cs, name = c :: cs ∧ c.isAlpha = true ∧ ∀ d ∈ cs, isIdentifierPart d = true)
    (gap : List Char) (hgap : ∀ c ∈ gap, isWhite c = true) (fields : List (String × JsonData))
    (before after : List DocumentItem) : String :=
  String.ofList (documentText
    (before ++ .directive (printedDirective hname gap hgap fields) :: after))

/-- The node of the printed payload, which is the object without a diagnostic. -/
structure ReadsObject (document : DocumentNode) (index : Nat) (name : List Char)
    (fields : List (String × JsonData)) : Prop where
  diagnostics : document.diagnostics = []
  node : ∃ node, document.children[index]? = some (.directive node) ∧
    node.name = String.ofList name ∧ node.payload = some (toValue (.obj fields)) ∧
    node.diagnostics = []

/-- A printed object, whatever directives stand around it, is read back exactly when it is
plain. -/
theorem printed_object_reads_back {name : List Char}
    (hname : ∃ c cs, name = c :: cs ∧ c.isAlpha = true ∧ ∀ d ∈ cs, isIdentifierPart d = true)
    {gap : List Char} (hgap : ∀ c ∈ gap, isWhite c = true) {fields : List (String × JsonData)}
    (hfields : Distinct (.obj fields)) (before after : List DocumentItem) :
    ReadsObject (parseAst (scanSource (printedDocument hname gap hgap fields before after)))
      (directives before).length name fields ↔ Plain (.obj fields) := by
  obtain ⟨hdiagnostics, hread⟩ := parseAst_documentText
    (before ++ .directive (printedDirective hname gap hgap fields) :: after)
  have hdirectives : directives (before ++ .directive (printedDirective hname gap hgap fields) ::
      after) = directives before ++ printedDirective hname gap hgap fields :: directives after := by
    unfold directives
    rw [List.filterMap_append]
    rfl
  rw [hdirectives] at hread
  have hlength := hread.length_eq
  rw [List.length_append, List.length_cons] at hlength
  have hat := hread.get (i := (directives before).length)
    (by rw [List.length_append, List.length_cons]; omega) (by omega)
  obtain ⟨node, hnode, hnodeName, hpayload, hclean⟩ := hat.read
  have hget : (parseAst (scanSource (printedDocument hname gap hgap fields before after))).children[
      (directives before).length]? = some (.directive node) := by
    rw [← hnode, List.get_eq_getElem]
    exact List.getElem?_eq_getElem _
  have hdirective : (directives before ++ printedDirective hname gap hgap fields ::
      directives after).get ⟨(directives before).length, by
        rw [List.length_append, List.length_cons]; omega⟩ =
      printedDirective hname gap hgap fields := by
    rw [List.get_eq_getElem]
    exact List.getElem_of_append rfl rfl
  rw [hdirective] at hnodeName hpayload
  rw [← reread_eq_toValue (.obj fields) hfields]
  constructor
  · rintro ⟨-, other, hother, -, hvalue, -⟩
    rw [hget] at hother
    obtain rfl := AstNode.directive.inj (Option.some.inj hother)
    rw [hpayload] at hvalue
    exact Option.some.inj hvalue
  · intro heq
    refine ⟨hdiagnostics, node, hget, hnodeName, ?_, hclean⟩
    rw [← heq]
    exact hpayload

theorem doc_directiveName : ∃ c cs, ['d', 'o', 'c'] = c :: cs ∧ c.isAlpha = true ∧
    ∀ d ∈ cs, isIdentifierPart d = true :=
  ⟨'d', ['o', 'c'], rfl, by decide, List.all_eq_true.1 rfl⟩

/-- Braces, quotes and line breaks in a string. -/
def sampleFields : List (String × JsonData) :=
  [("id", .str "a\x7d\"\n\x27"), ("tags", .arr [.bool true, .null])]

theorem sampleFields_plain : Plain (.obj sampleFields) := by
  have hid : PlainText "id" ∧ PlainText "tags" ∧ PlainText "a\x7d\"\n\x27" := by
    decide
  exact ⟨⟨⟨hid.1, by decide⟩, hid.2.2⟩, ⟨⟨hid.2.1, by decide⟩, trivial, trivial, trivial⟩, trivial⟩

theorem printed_object_reads_back_sample :
    ReadsObject (parseAst (scanSource (printedDocument doc_directiveName [' ', ' ']
      (List.all_eq_true.1 rfl) sampleFields [.blank [] nofun] [])))
      0 ['d', 'o', 'c'] sampleFields :=
  (printed_object_reads_back doc_directiveName (List.all_eq_true.1 rfl)
    (show Distinct (.obj sampleFields) from
      ⟨by decide, trivial, ⟨trivial, trivial, trivial⟩, trivial⟩) [.blank [] nofun] []).2
    sampleFields_plain

/-- The text that a node has under a key. -/
def nodeText (key : String) : AstNode → Option String
  | .directive node =>
    match node.payload.bind AionisValue.asObject with
    | some o => match o.get key with
      | some (.str s) => some s
      | _ => none
    | none => none
  | _ => none

/-- The escape of a backspace is read as the letter b. -/
theorem printed_backspace_read_as_letter :
    printedDocument doc_directiveName [] nofun [("k", .str "\x08")] [] [] =
        "@doc \x7b\"k\":\"\\b\"\x7d" ∧
      (parseAst (scanSource (printedDocument doc_directiveName [] nofun
        [("k", .str "\x08")] [] []))).children.map (nodeText "k") = [some "b"] ∧
      ¬ ReadsObject (parseAst (scanSource (printedDocument doc_directiveName [] nofun
        [("k", .str "\x08")] [] []))) 0 ['d', 'o', 'c'] [("k", .str "\x08")] := by
  have hread : (parseAst (scanSource (printedDocument doc_directiveName [] nofun
      [("k", .str "\x08")] [] []))).children.map (nodeText "k") = [some "b"] := by decide +kernel
  refine ⟨by decide +kernel, hread, fun h => ?_⟩
  obtain ⟨node, hnode, -, hpayload, -⟩ := h.node
  have htext := congrArg (fun l => l[0]?) hread
  simp only [List.getElem?_map, hnode] at htext
  simp [nodeText, hpayload, toValue, toFields, toField, AionisValue.asObject, AionisObject.get,
    OrderedMap.getEntry] at htext

end AionisCore.AionisDoc
