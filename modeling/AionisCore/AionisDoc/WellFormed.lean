import AionisCore.AionisDoc.RecordValues

/-!
# What the compiler makes is well formed

Payloads hold no methods, every place has a line and a column, diagnostics have a code and a
message, headings a depth and directives a name. The binary search for a line never leaves the
lines that surround the offset, so that a column is never negative.
-/

namespace AionisCore.AionisDoc

open Lib Lib.JsString

/-! ## Places -/

namespace ScanResult

variable {scan : ScanResult} {offset : Nat}

/-- Where the line after the one at an index starts. -/
def nextStart (scan : ScanResult) (i : Nat) : Nat :=
  if i + 1 < scan.lineStarts.length then scan.lineStart (i + 1) else scan.length + 1

/-- The search ends at a line that starts no later than the offset. -/
theorem searchLine_start {fuel low high : Nat} (hlow : scan.lineStart low ≤ offset)
    (hhigh : offset < scan.nextStart high) (hle : low ≤ high)
    (hlength : high < scan.lineStarts.length) (hfuel : high - low < fuel) :
    scan.lineStart (scan.searchLine offset fuel low high) ≤ offset := by
  induction fuel generalizing low high with
  | zero => omega
  | succ fuel ih =>
    have hmid : (((low : Int) + high) / 2).toNat = (low + high) / 2 := by omega
    rw [searchLine, if_pos (by omega)]
    dsimp only
    rw [hmid]
    by_cases hbefore : offset < scan.lineStart ((low + high) / 2)
    · rw [if_pos hbefore]
      have hne : low ≠ (low + high) / 2 := by
        intro heq
        rw [← heq] at hbefore
        omega
      obtain ⟨m, hm⟩ : ∃ m, (low + high) / 2 = m + 1 := ⟨(low + high) / 2 - 1, by omega⟩
      rw [hm] at hbefore ⊢
      have hcast : (((m + 1 : Nat) : Int) - 1) = (m : Nat) := by omega
      rw [hcast]
      refine ih hlow ?_ (by omega) (by omega) (by omega)
      rw [nextStart, if_pos (by omega)]
      exact hbefore
    · rw [if_neg hbefore]
      by_cases hafter : scan.nextStart ((low + high) / 2) ≤ offset
      · have hne : (low + high) / 2 ≠ high := by
          intro heq
          rw [heq] at hafter
          omega
        have hcast : (((low + high) / 2 : Nat) : Int) + 1 = ((low + high) / 2 + 1 : Nat) := by omega
        have hstart : scan.lineStart ((low + high) / 2 + 1) ≤ offset := by
          rw [nextStart, if_pos (by omega)] at hafter
          exact hafter
        unfold nextStart at hafter
        rw [if_pos hafter, hcast]
        exact ih hstart hhigh (by omega) hlength (by omega)
      · unfold nextStart at hafter
        rw [if_neg hafter]
        omega

end ScanResult

theorem lineStart_zero (source : String) : (scanSource source).lineStart 0 = 0 := rfl

theorem offsetToSourcePos_valid (source : String) (offset : Nat) :
    ((scanSource source).offsetToSourcePos offset).valid = true := by
  have hpos : 0 < (scanSource source).lineStarts.length := Nat.succ_pos _
  have hstart := @ScanResult.searchLine_start (scanSource source)
    (min offset (scanSource source).length) ((scanSource source).lineStarts.length + 1) 0
    ((scanSource source).lineStarts.length - 1) (by rw [lineStart_zero]; omega)
    (by rw [ScanResult.nextStart, if_neg (by omega)]; omega) (by omega) (by omega) (by omega)
  have hcast : (((scanSource source).lineStarts.length - 1 : Nat) : Int) =
      ((scanSource source).lineStarts.length : Int) - 1 := by omega
  have hzero : ((0 : Nat) : Int) = 0 := rfl
  rw [hcast, hzero] at hstart
  unfold SourcePos.valid ScanResult.offsetToSourcePos ScanResult.findLineIndexAtOffset
  rw [decide_eq_true_eq]
  dsimp only
  omega

theorem rangeFromOffsets_valid (source : String) (start stop : Nat) :
    ((scanSource source).rangeFromOffsets start stop).valid = true := by
  unfold SourceRange.valid ScanResult.rangeFromOffsets
  rw [offsetToSourcePos_valid, offsetToSourcePos_valid]
  rfl

/-! ## Payloads -/

section Objects

variable {o : AionisObject} {k : String} {v : AionisValue}

theorem mem_setEntry {α : Type} {k : String} {a : α} {fields : List (String × α)}
    {f : String × α} (h : f ∈ OrderedMap.setEntry k a fields) : f = (k, a) ∨ f ∈ fields := by
  induction fields with
  | nil => exact Or.inl (List.mem_singleton.1 h)
  | cons g gs ih =>
    rw [OrderedMap.setEntry] at h
    split at h
    · obtain h | h := List.mem_cons.1 h
      · exact Or.inl h
      · exact Or.inr (List.mem_cons_of_mem _ h)
    · obtain h | h := List.mem_cons.1 h
      · exact Or.inr (h ▸ List.mem_cons_self)
      · exact (ih h).imp_right (List.mem_cons_of_mem _)

theorem AionisObject.CleanObject.set (h : o.CleanObject) (hv : Clean v) :
    (o.set k v).CleanObject := by
  unfold AionisObject.set
  split
  · split
    · exact ⟨h.1, hv.proto⟩
    · exact h
  · refine ⟨cleanFields_iff.2 fun f hf => ?_, h.2⟩
    obtain rfl | hf := mem_setEntry hf
    · exact hv
    · exact cleanFields_iff.1 h.1 f hf

theorem getEntry_mem {α : Type} {k : String} {a : α} {fields : List (String × α)}
    (h : OrderedMap.getEntry k fields = some a) : (k, a) ∈ fields := by
  induction fields with
  | nil => cases h
  | cons g gs ih =>
    rw [OrderedMap.getEntry] at h
    split at h
    · next hk =>
      obtain rfl := Option.some.inj h
      exact hk ▸ List.mem_cons_self
    · exact List.mem_cons_of_mem _ (ih h)

/-- A field that no builtin object has is clean wherever it is inherited from. -/
theorem clean_chainEntry (hmethods : k ∉ AionisValue.objectMethods)
    (harray : k ∉ AionisValue.arrayMethods) (proto : AionisValue) (hproto : CleanProto proto)
    (h : proto.chainEntry k = some v) : Clean v := by
  match proto with
  | .obj own proto =>
    rw [AionisValue.chainEntry, Option.or_eq_some_iff] at h
    obtain h | ⟨-, h⟩ := h
    · exact cleanFields_iff.1 hproto.1 _ (getEntry_mem h)
    · exact clean_chainEntry hmethods harray proto hproto.2 h
  | .arr items =>
    rw [AionisValue.chainEntry, AionisValue.arrayEntry] at h
    split at h
    · obtain rfl := Option.some.inj h
      trivial
    · split at h
      · next hmethod => exact (hmethod.elim harray hmethods).elim
      · obtain ⟨i, -, h⟩ := Option.bind_eq_some_iff.1 h
        exact cleanItems_iff.1 hproto v (List.mem_of_getElem? h)
  | .objectPrototype =>
    rw [AionisValue.chainEntry, if_neg hmethods] at h
    cases h
  | .null => cases h
  | .bool _ => cases h
  | .num _ => cases h
  | .str _ => cases h
  | .method _ => cases h

theorem AionisObject.CleanObject.get (h : o.CleanObject) (hmethods : k ∉ AionisValue.objectMethods)
    (harray : k ∉ AionisValue.arrayMethods) (hproto : k ≠ "__proto__") (hget : o.get k = some v) :
    Clean v := by
  unfold AionisObject.get at hget
  split at hget
  · next w hentry =>
    obtain rfl := Option.some.inj hget
    exact cleanFields_iff.1 h.1 _ (getEntry_mem hentry)
  · rw [if_neg fun hk => hproto hk.1] at hget
    exact clean_chainEntry hmethods harray o.proto h.2 hget

theorem Clean.asObject (h : Clean v) (hobject : v.asObject = some o) : o.CleanObject := by
  cases v with
  | obj own proto =>
    obtain rfl := Option.some.inj hobject
    exact h
  | objectPrototype => exact h.elim
  | _ => cases hobject

end Objects

section Parser

open PayloadParser

/-- A message says something. -/
def Says {α : Type} : Except String α → Prop
  | .ok _ => True
  | .error message => message ≠ ""

theorem Says.error {α : Type} {message : String} (h : message ≠ "") :
    Says (.error message : Except String α) := h

theorem Says.map {α β : Type} {r : Except String α} (h : Says r) (f : α → β) : Says (r.map f) := by
  cases r with
  | ok a => trivial
  | error message => exact h

theorem interpolated_ne_empty {before after : String} (h : before ≠ "") :
    before ++ after ≠ "" := by
  intro heq
  have hlist := congrArg String.toList heq
  rw [String.toList_append] at hlist
  exact h (String.toList_injective (List.append_eq_nil_iff.1 hlist).1)

theorem says_stringBody (quote : Char) (cs : List Char) : Says (stringBody quote cs) := by
  fun_induction stringBody quote cs with
  | case1 => exact nofun
  | case2 => exact nofun
  | case3 next cs ih => exact ih.map _
  | case4 => trivial
  | case5 c cs _ _ _ ih => exact ih.map _

theorem says_parseString (cs : List Char) : Says (parseString cs) := by
  unfold parseString
  split
  · split
    · exact (says_stringBody _ _).map _
    · exact nofun
  · exact nofun

theorem says_parseKey (cs : List Char) : Says (parseKey cs) := by
  unfold parseKey
  split
  · split
    · exact says_parseString _
    · split
      · trivial
      · exact nofun
  · exact nofun

theorem says_expect (c : Char) (cs : List Char) : Says (expect c cs) := by
  unfold expect
  split
  · trivial
  · simp only [toString, String.append_assoc]
    exact interpolated_ne_empty nofun

/-- A value that was read is clean; else the message says something. -/
def Reads : Except String (AionisValue × List Char) → Prop
  | .ok p => Clean p.1
  | .error message => message ≠ ""

theorem Reads.error {message : String} (h : message ≠ "") : Reads (.error message) := h

theorem Reads.bind {α : Type} {r : Except String α}
    {f : α → Except String (AionisValue × List Char)} (h : Says r)
    (hf : ∀ a, r = .ok a → Reads (f a)) : Reads (r >>= f) := by
  cases r with
  | ok a => exact hf a rfl
  | error message => exact h

theorem Reads.message {r : Except String (AionisValue × List Char)} (h : Reads r) : Says r := by
  cases r with
  | ok p => trivial
  | error message => exact h

theorem reads_parseNumber (cs : List Char) : Reads (parseNumber cs) := by
  unfold parseNumber
  split
  · trivial
  · exact nofun

theorem reads_parseLiteral (c : Char) (cs : List Char) : Reads (parseLiteral c cs) := by
  unfold parseLiteral
  dsimp only
  split
  · trivial
  · split
    · trivial
    · split
      · trivial
      · simp only [toString, String.append_assoc]
        exact interpolated_ne_empty nofun

theorem reads_parse (fuel : Nat) :
    (∀ cs, Reads (parseValue fuel cs)) ∧
    (∀ out cs, AionisObject.CleanObject out → Reads (parseFields fuel out cs)) ∧
    ∀ out cs, CleanItems out → Reads (parseItems fuel out cs) := by
  induction fuel with
  | zero =>
    exact ⟨fun _ => .error (by decide), fun _ _ _ => .error (by decide),
      fun _ _ _ => .error (by decide)⟩
  | succ fuel ih =>
    obtain ⟨ihValue, ihFields, ihItems⟩ := ih
    have hempty : AionisObject.CleanObject {} := ⟨trivial, trivial⟩
    refine ⟨fun cs => ?_, fun out cs hout => ?_, fun out cs hout => ?_⟩
    · unfold parseValue
      split
      · split
        · exact hempty
        · exact ihFields _ _ hempty
      · split
        · trivial
        · exact ihItems _ _ trivial
      · next c rest _ _ =>
        split
        · have hsays := says_parseString (c :: rest)
          cases hstring : parseString (c :: rest) with
          | ok p => trivial
          | error message =>
            rw [hstring] at hsays
            exact hsays
        · split
          · exact reads_parseNumber _
          · split
            · exact reads_parseLiteral _ _
            · simp only [toString, String.append_assoc]
              exact interpolated_ne_empty (by decide)
      · simp only [toString, String.append_assoc]
        exact interpolated_ne_empty (by decide)
    · unfold parseFields
      split
      · exact .error (by decide)
      · refine Reads.bind (says_parseKey _) fun key _ => ?_
        refine Reads.bind (says_expect _ _) fun rest _ => ?_
        refine Reads.bind (ihValue _).message fun value hvalue => ?_
        have hclean : Clean value.1 := by
          have hreads := ihValue (skipWhitespace rest)
          rw [hvalue] at hreads
          exact hreads
        split
        · exact hout.set hclean
        · exact ihFields _ _ (hout.set hclean)
    · unfold parseItems
      split
      · exact .error (by decide)
      · refine Reads.bind (ihValue _).message fun value hvalue => ?_
        have hclean : Clean value.1 := by
          have hreads := ihValue cs
          rw [hvalue] at hreads
          exact hreads
        have hitems : CleanItems (out ++ [value.1]) := by
          rw [cleanItems_iff]
          intro v hv
          obtain hv | hv := List.mem_append.1 hv
          · exact cleanItems_iff.1 hout v hv
          · rw [List.mem_singleton.1 hv]
            exact hclean
        split
        · exact ihItems _ _ hitems
        · exact hitems
        · exact .error (by decide)

theorem clean_or_says (raw : List Char) :
    (∀ v, PayloadParser.parse raw = .ok v → Clean v) ∧ Says (PayloadParser.parse raw) := by
  unfold PayloadParser.parse
  have hreads := (reads_parse (raw.length + 1)).1 (skipWhitespace raw)
  cases hvalue : parseValue (raw.length + 1) (skipWhitespace raw) with
  | error message =>
    rw [hvalue] at hreads
    exact ⟨fun _ h => (by cases h), hreads⟩
  | ok p =>
    rw [hvalue] at hreads
    dsimp only [bind, Except.bind]
    split
    · exact ⟨fun v h => Except.ok.inj h ▸ hreads, trivial⟩
    · exact ⟨fun _ h => (by cases h), .error (by decide)⟩

/-- A payload is clean, or a diagnostic tells what is wrong with it. -/
theorem parsePayload_wellFormed (raw : List Char) {loc : SourceRange} (hloc : loc.valid = true) :
    (∀ v ∈ (parseAionisPayload raw loc).1, Clean v) ∧
      ∀ d ∈ (parseAionisPayload raw loc).2, d.valid = true := by
  obtain ⟨hclean, hsays⟩ := clean_or_says raw
  unfold parseAionisPayload
  split
  · next v hv =>
    refine ⟨fun w hw => ?_, fun d hd => by cases hd⟩
    obtain rfl := Option.some.inj hw
    exact hclean v hv
  · next message hmessage =>
    rw [hmessage] at hsays
    refine ⟨fun _ hw => (by cases hw), fun d hd => ?_⟩
    obtain rfl := List.mem_singleton.1 hd
    simp only [Diagnostic.valid, hloc, Bool.and_true, Bool.and_eq_true, decide_eq_true_eq]
    exact ⟨by decide, hsays⟩

end Parser

/-! ## The syntax tree -/

def AstNode.WellFormed : AstNode → Prop
  | .heading node => 0 < node.depth ∧ node.loc.valid = true
  | .paragraph node => node.loc.valid = true
  | .fence node => node.loc.valid = true
  | .directive node => node.name ≠ "" ∧ (∀ d ∈ node.diagnostics, d.valid = true) ∧
    node.loc.valid = true ∧ ∀ v ∈ node.payload, Clean v

/-- What a turn of the loop adds is well formed. -/
structure WalkStep.WellFormed (step : WalkStep) : Prop where
  children : ∀ node ∈ step.children, node.WellFormed
  diagnostics : ∀ d ∈ step.diagnostics, d.valid = true

section Walk

variable {source : String} {lineIndex : Nat} {line : Line} {more : List Line}

theorem walkFence_wellFormed :
    (walkFence (scanSource source) lineIndex line more).WellFormed := by
  unfold walkFence
  dsimp only
  constructor
  · intro node hnode
    obtain rfl := List.mem_singleton.1 hnode
    exact rangeFromOffsets_valid _ _ _
  · intro d hd
    dsimp only at hd
    split at hd
    · cases hd
    · obtain rfl := List.mem_singleton.1 hd
      simp [Diagnostic.valid, rangeFromOffsets_valid]

theorem refusedDirective_wellFormed {name raw : List Char} {start stop : Nat} {message : String}
    {taken : Option Nat} (hname : name ≠ []) (hmessage : message ≠ "") :
    (refusedDirective (scanSource source) name raw start stop message taken).WellFormed := by
  have hvalid : (makeInvalidDirectiveDiagnostic (scanSource source) start stop message).valid =
      true := by
    simp [makeInvalidDirectiveDiagnostic, Diagnostic.valid, rangeFromOffsets_valid, hmessage]
  constructor
  · intro node hnode
    obtain rfl := List.mem_singleton.1 hnode
    refine ⟨fun hempty => hname ?_, ?_, rangeFromOffsets_valid _ _ _, nofun⟩
    · have hlist := congrArg String.toList hempty
      rwa [String.toList_ofList] at hlist
    · intro d hd
      rw [List.mem_singleton.1 hd]
      exact hvalid
  · intro d hd
    rw [List.mem_singleton.1 hd]
    exact hvalid

theorem walkDirective_wellFormed {head : DirectiveHead} (hname : head.name ≠ []) :
    (walkDirective (scanSource source) lineIndex line head more).WellFormed := by
  unfold walkDirective
  dsimp only
  split
  · exact refusedDirective_wellFormed hname nofun
  · split
    · exact refusedDirective_wellFormed hname nofun
    · next block _ _ =>
      obtain ⟨hclean, hvalid⟩ := parsePayload_wellFormed block
        (rangeFromOffsets_valid source ((scanSource source).lineStart lineIndex + units head.indent)
          ((scanSource source).lineStart lineIndex + units head.indent + 1 + units head.name +
            units ((afterName head more).takeWhile isWhite) + units block))
      constructor
      · intro node hnode
        obtain rfl := List.mem_singleton.1 hnode
        refine ⟨fun hempty => hname ?_, hvalid, rangeFromOffsets_valid _ _ _, hclean⟩
        have hlist := congrArg String.toList hempty
        rwa [String.toList_ofList] at hlist
      · exact hvalid

theorem directiveHead_name {head : DirectiveHead} (h : directiveHead line = some head) :
    head.name ≠ [] := by
  unfold directiveHead at h
  split at h
  · split at h
    · obtain rfl := Option.some.inj h
      exact List.cons_ne_nil _ _
    · cases h
  · cases h

theorem headingMatch_depth {depth : Nat} {text : List Char}
    (h : headingMatch line = some (depth, text)) : 0 < depth := by
  unfold headingMatch at h
  dsimp only at h
  split at h
  · next hheading =>
    obtain ⟨rfl, -⟩ := Prod.mk.inj (Option.some.inj h)
    simp only [isHeadingLine, Bool.and_eq_true, decide_eq_true_eq] at hheading
    omega
  · cases h

theorem walkLine_wellFormed :
    (walkLine (scanSource source) lineIndex line more).WellFormed := by
  unfold walkLine
  split
  · exact ⟨nofun, nofun⟩
  · split
    · exact walkFence_wellFormed
    · split
      · next depth text hheading =>
        refine ⟨fun node hnode => ?_, nofun⟩
        obtain rfl := List.mem_singleton.1 hnode
        exact ⟨headingMatch_depth hheading, rangeFromOffsets_valid _ _ _⟩
      · split
        · next head hhead => exact walkDirective_wellFormed (directiveHead_name hhead)
        · refine ⟨fun node hnode => ?_, nofun⟩
          obtain rfl := List.mem_singleton.1 hnode
          exact rangeFromOffsets_valid _ _ _

theorem walkLines_wellFormed (fuel : Nat) (lineIndex : Nat) (lines : List Line) :
    (∀ node ∈ (walkLines (scanSource source) fuel lineIndex lines).1, node.WellFormed) ∧
      ∀ d ∈ (walkLines (scanSource source) fuel lineIndex lines).2, d.valid = true := by
  induction fuel generalizing lineIndex lines with
  | zero => exact ⟨nofun, nofun⟩
  | succ fuel ih =>
    cases lines with
    | nil => exact ⟨nofun, nofun⟩
    | cons line more =>
      have hstep := @walkLine_wellFormed source lineIndex line more
      rw [walkLines]
      dsimp only
      split
      · exact ⟨hstep.children, hstep.diagnostics⟩
      · next taken _ =>
        obtain ⟨hnodes, hdiagnostics⟩ := ih (lineIndex + taken + 1) (more.drop taken)
        constructor
        · intro node hnode
          obtain hnode | hnode := List.mem_append.1 hnode
          · exact hstep.children node hnode
          · exact hnodes node hnode
        · intro d hd
          obtain hd | hd := List.mem_append.1 hd
          · exact hstep.diagnostics d hd
          · exact hdiagnostics d hd

end Walk

/-! ## The intermediate representation -/

/-- An entry has a clean payload and a place. -/
def EntryFits (data : AionisObject) (loc : Option SourceRange) : Prop :=
  data.CleanObject ∧ validLoc loc = true

structure AionisDocIR.WellFormed (ir : AionisDocIR) : Prop where
  doc : ∀ d ∈ ir.doc, EntryFits d.data d.loc
  context : ∀ c ∈ ir.context, EntryFits c.data c.loc
  plans : ∀ p ∈ ir.plans, EntryFits p.data p.loc
  executions : ∀ e ∈ ir.executions, EntryFits e.data e.loc ∧ ∀ o ∈ e.input, o.CleanObject
  decisions : ∀ d ∈ ir.decisions, EntryFits d.data d.loc
  evidence : ∀ e ∈ ir.evidence, EntryFits e.data e.loc ∧ ∀ vs ∈ e.sources, CleanItems vs
  replay : ∀ r ∈ ir.replay, EntryFits r.data r.loc
  memory : ∀ m ∈ ir.memory, EntryFits m.data m.loc
  state : ∀ s ∈ ir.state, EntryFits s.data s.loc
  diagnostics : ∀ d ∈ ir.diagnostics, d.valid = true

section Normalize

variable {ir : AionisDocIR} {payload : AionisObject} {loc : SourceRange}

theorem forall_concat {α : Type} {P : α → Prop} {xs : List α} {a : α} (h : ∀ x ∈ xs, P x)
    (ha : P a) : ∀ x ∈ xs ++ [a], P x := by
  intro x hx
  obtain hx | hx := List.mem_append.1 hx
  · exact h x hx
  · exact List.mem_singleton.1 hx ▸ ha

theorem makeDiagnostic_valid {code message : String} (hcode : code ≠ "") (hmessage : message ≠ "")
    (hloc : loc.valid = true) : (makeDiagnostic loc code message).valid = true := by
  simp [makeDiagnostic, Diagnostic.valid, hcode, hmessage, hloc]

theorem AionisDocIR.wellFormed_empty : AionisDocIR.WellFormed {} where
  doc := fun _ h => nomatch h
  context := List.forall_mem_nil _
  plans := List.forall_mem_nil _
  executions := List.forall_mem_nil _
  decisions := List.forall_mem_nil _
  evidence := List.forall_mem_nil _
  replay := List.forall_mem_nil _
  memory := List.forall_mem_nil _
  state := List.forall_mem_nil _
  diagnostics := List.forall_mem_nil _

theorem AionisDocIR.WellFormed.report (h : ir.WellFormed) {d : Diagnostic} (hd : d.valid = true) :
    (ir.report d).WellFormed :=
  { h with diagnostics := forall_concat h.diagnostics hd }

theorem normalizeExecute_input (hpayload : payload.CleanObject) {o : AionisObject}
    (ho : o ∈ (normalizeExecute payload loc).input) : o.CleanObject := by
  obtain ⟨v, hv, hobject⟩ := Option.bind_eq_some_iff.1 (show asObjectField _ = some o from ho)
  exact (hpayload.get (by decide) (by decide) (by decide) hv).asObject hobject

theorem normalizeEvidence_sources (hpayload : payload.CleanObject) {vs : List AionisValue}
    (hvs : vs ∈ (normalizeEvidence payload loc).sources) : CleanItems vs := by
  unfold normalizeEvidence at hvs
  dsimp only at hvs
  split at hvs
  · next items hitems =>
    obtain rfl := Option.some.inj hvs
    exact hpayload.get (by decide) (by decide) (by decide) hitems
  · cases hvs

theorem AionisDocIR.WellFormed.addDirective (h : ir.WellFormed) (hpayload : payload.CleanObject)
    (hloc : loc.valid = true) (name : String) : (ir.addDirective name payload loc).WellFormed := by
  have hentry : EntryFits payload (some loc) := ⟨hpayload, hloc⟩
  unfold AionisDocIR.addDirective
  split
  · split
    · exact h.report (makeDiagnostic_valid nofun nofun hloc)
    · refine { h with doc := fun d hd => ?_ }
      obtain rfl := Option.some.inj hd
      exact hentry
  · exact { h with context := forall_concat h.context hentry }
  · exact { h with plans := forall_concat h.plans hentry }
  · have hexecution : EntryFits payload (some loc) ∧
        ∀ o ∈ (normalizeExecute payload loc).input, o.CleanObject :=
      ⟨hentry, fun o ho => normalizeExecute_input hpayload ho⟩
    exact { h with executions := forall_concat h.executions hexecution }
  · exact { h with decisions := forall_concat h.decisions hentry }
  · have hevidence : EntryFits payload (some loc) ∧
        ∀ vs ∈ (normalizeEvidence payload loc).sources, CleanItems vs :=
      ⟨hentry, fun vs hvs => normalizeEvidence_sources hpayload hvs⟩
    exact { h with evidence := forall_concat h.evidence hevidence }
  · exact { h with replay := forall_concat h.replay hentry }
  · exact { h with memory := forall_concat h.memory hentry }
  · exact { h with state := forall_concat h.state hentry }
  · exact h

theorem AionisDocIR.WellFormed.addNode (h : ir.WellFormed) {node : AstNode}
    (hnode : node.WellFormed) : (ir.addNode node).WellFormed := by
  unfold AionisDocIR.addNode
  split
  · next directive =>
    obtain ⟨-, -, hloc, hclean⟩ := hnode
    split
    · exact h
    · next payload hpayload =>
      split
      · next o ho => exact h.addDirective ((hclean payload hpayload).asObject ho) hloc _
      · refine h.report (makeDiagnostic_valid nofun ?_ hloc)
        simp only [toString, String.append_assoc]
        exact interpolated_ne_empty nofun
  · exact h

theorem normalizeAstToIr_wellFormed {ast : DocumentNode}
    (h : ∀ node ∈ ast.children, node.WellFormed) : (normalizeAstToIr ast).WellFormed := by
  have hfold : ∀ (nodes : List AstNode) (ir : AionisDocIR), ir.WellFormed →
      (∀ node ∈ nodes, node.WellFormed) → (nodes.foldl AionisDocIR.addNode ir).WellFormed := by
    intro nodes
    induction nodes with
    | nil => exact fun ir hir _ => hir
    | cons node nodes ih =>
      intro ir hir hnodes
      rw [List.foldl_cons]
      exact ih _ (hir.addNode (hnodes node List.mem_cons_self))
        fun n hn => hnodes n (List.mem_cons_of_mem _ hn)
  exact hfold _ _ AionisDocIR.wellFormed_empty h

end Normalize

/-! ## The compiler's diagnostics -/

section Diagnostics

variable {ir : AionisDocIR}

theorem validLoc_getD {loc : Option SourceRange} (h : validLoc loc = true) :
    (loc.getD noLoc).valid = true := by
  cases loc with
  | none => rfl
  | some loc => exact h

theorem validLoc_or {loc loc' : Option SourceRange} (h : validLoc loc = true)
    (h' : validLoc loc' = true) : validLoc (loc.or loc') = true := by
  cases loc with
  | none => exact h'
  | some loc => exact h

theorem validLoc_head {α : Type} {xs : List α} {f : α → Option SourceRange}
    (h : ∀ x ∈ xs, validLoc (f x) = true) : validLoc (xs.head?.bind f) = true := by
  cases xs with
  | nil => rfl
  | cons x xs => exact h x List.mem_cons_self

theorem validLoc_doc (h : ir.WellFormed) : validLoc (ir.doc.bind (·.loc)) = true := by
  cases hdoc : ir.doc with
  | none => rfl
  | some doc => exact (h.doc doc hdoc).2

theorem executionLoc_valid (h : ir.WellFormed) {e : ExecuteIR} (he : e ∈ ir.executions) :
    (executionLoc ir e).valid = true :=
  validLoc_getD (validLoc_or (h.executions e he).1.2 (validLoc_doc h))

theorem validateIrSchemas_valid (h : ir.WellFormed) :
    ∀ d ∈ validateIrSchemas ir, d.valid = true := by
  intro d hd
  unfold validateIrSchemas at hd
  split at hd
  · rw [List.mem_singleton.1 hd]
    refine makeDiagnostic_valid nofun nofun (validLoc_getD ?_)
    refine validLoc_or (validLoc_head fun e he => (h.executions e he).1.2) ?_
    refine validLoc_or (validLoc_head fun c hc => (h.context c hc).2) ?_
    refine validLoc_or (validLoc_head fun r hr => (h.replay r hr).2) ?_
    cases hdiagnostics : ir.diagnostics with
    | nil => rfl
    | cons d ds =>
      have hvalid := h.diagnostics d (hdiagnostics ▸ List.mem_cons_self)
      simp only [Diagnostic.valid, Bool.and_eq_true] at hvalid
      exact hvalid.2
  · next doc hdoc =>
    have hloc := (h.doc doc hdoc).2
    rw [List.mem_append, List.mem_append] at hd
    obtain (hd | hd) | hd := hd
    · split at hd
      · rw [List.mem_singleton.1 hd]
        exact makeDiagnostic_valid nofun nofun (validLoc_getD hloc)
      · cases hd
    · split at hd
      · rw [List.mem_singleton.1 hd]
        exact makeDiagnostic_valid nofun nofun (validLoc_getD hloc)
      · cases hd
    · obtain ⟨e, he, hd⟩ := List.mem_filterMap.1 hd
      split at hd
      · rw [← Option.some.inj hd]
        exact makeDiagnostic_valid nofun nofun
          (validLoc_getD (validLoc_or (h.executions e he).1.2 hloc))
      · cases hd

theorem resolveRefs_valid (h : ir.WellFormed) : ∀ d ∈ resolveRefs ir, d.valid = true := by
  intro d hd
  obtain ⟨e, he, hd⟩ := List.mem_flatMap.1 hd
  have hloc := executionLoc_valid h he
  have hmade : ∀ message : String, message ≠ "" →
      (makeDiagnostic (executionLoc ir e) "UNRESOLVED_REF" message).valid = true :=
    fun message hmessage => makeDiagnostic_valid nofun hmessage hloc
  unfold refDiagnostics at hd
  split at hd
  · cases hd
  · dsimp only at hd
    split at hd
    · rw [List.mem_singleton.1 hd]
      refine hmade _ ?_
      simp only [toString, String.append_assoc]
      exact interpolated_ne_empty nofun
    · rw [Option.mem_toList] at hd
      unfold validateBinding at hd
      dsimp only at hd
      split at hd
      · rw [← Option.some.inj hd]
        refine hmade _ ?_
        simp only [toString, String.append_assoc]
        exact interpolated_ne_empty nofun
      · split at hd
        · rw [← Option.some.inj hd]
          refine hmade _ ?_
          simp only [toString, String.append_assoc]
          exact interpolated_ne_empty nofun
        · split at hd
          · rw [← Option.some.inj hd]
            refine hmade _ ?_
            simp only [toString, String.append_assoc]
            exact interpolated_ne_empty nofun
          · cases hd

/-- What the loop over the executions keeps. -/
structure GraphState.WellFormed (s : GraphState) : Prop where
  nodes : ∀ node ∈ s.nodes, node.id ≠ "" ∧ EntryFits node.payload node.loc
  diagnostics : ∀ d ∈ s.diagnostics, d.valid = true

theorem GraphState.WellFormed.addExecutions (hir : ir.WellFormed) {s : GraphState} {n : Nat}
    {es : List ExecuteIR} (h : s.WellFormed) (hes : ∀ e ∈ es, e ∈ ir.executions) :
    (GraphState.addExecutions ir s n es).WellFormed := by
  induction es generalizing s n with
  | nil => exact h
  | cons e es ih =>
    have he := hes e List.mem_cons_self
    rw [GraphState.addExecutions]
    refine ih ?_ fun x hx => hes x (List.mem_cons_of_mem _ hx)
    constructor
    · refine forall_concat h.nodes ⟨?_, (hir.executions e he).1⟩
      show nodeId n ≠ ""
      simp only [nodeId, toString]
      exact interpolated_ne_empty nofun
    · intro d hd
      obtain hd | hd := List.mem_append.1 hd
      · exact h.diagnostics d hd
      · obtain ⟨dependency, -, hd⟩ := List.mem_filterMap.1 hd
        split at hd
        · cases hd
        · rw [← Option.some.inj hd]
          have hmessage : (GraphState.unknownDependency ir e dependency).message ≠ "" := by
            simp only [GraphState.unknownDependency, toString, String.append_assoc]
            exact interpolated_ne_empty nofun
          have hcode : decide (("UNKNOWN_DEPENDENCY" : String) ≠ "") = true :=
            decide_eq_true (by decide)
          exact Bool.and_eq_true_iff.2 ⟨Bool.and_eq_true_iff.2
            ⟨hcode, decide_eq_true hmessage⟩, executionLoc_valid hir he⟩

theorem graphState_wellFormed (h : ir.WellFormed) :
    (GraphState.addExecutions ir {} 0 ir.executions).WellFormed :=
  GraphState.WellFormed.addExecutions h ⟨nofun, nofun⟩ fun _ he => he

end Diagnostics

/-- What the compiler makes is well formed. -/
structure CompileResult.WellFormed (result : CompileResult) : Prop where
  nodes : ∀ node ∈ result.ast.children, node.WellFormed
  astDiagnostics : ∀ d ∈ result.ast.diagnostics, d.valid = true
  loc : result.ast.loc.valid = true
  ir : result.ir.WellFormed
  diagnostics : ∀ d ∈ result.diagnostics, d.valid = true

theorem compileAionisDoc_wellFormed (source : String) : (compileAionisDoc source).WellFormed := by
  obtain ⟨hnodes, hdiagnostics⟩ := @walkLines_wellFormed source
    (splitLines (scanSource source).source).length 0 (splitLines (scanSource source).source)
  have hir : (compileAionisDoc source).ir.WellFormed := normalizeAstToIr_wellFormed hnodes
  refine ⟨hnodes, hdiagnostics, rangeFromOffsets_valid _ _ _, hir, fun d hd => ?_⟩
  have hd : d ∈ (compileAionisDoc source).ast.diagnostics ++
      (compileAionisDoc source).ir.diagnostics ++ validateIrSchemas (compileAionisDoc source).ir ++
      resolveRefs (compileAionisDoc source).ir ++
      (buildExecutionGraph (compileAionisDoc source).ir).2 := hd
  simp only [List.mem_append] at hd
  obtain (((hd | hd) | hd) | hd) | hd := hd
  · exact hdiagnostics d hd
  · exact hir.diagnostics d hd
  · exact validateIrSchemas_valid hir d hd
  · exact resolveRefs_valid hir d hd
  · unfold buildExecutionGraph at hd
    split at hd
    · cases hd
    · exact (graphState_wellFormed hir).diagnostics d hd

end AionisCore.AionisDoc
