import AionisCore.AionisDoc.PlanObserver

/-!
# What the schemas make of a compilation

Both ways into the schemas, in memory and from JSON text, take every clean value and make a plain
one of it. A well-formed syntax tree or representation therefore passes and keeps all but its
values, unless a confidence does not arrive as a number.
-/

namespace AionisCore.AionisDoc

open Lib

/-! ## Plain values are clean -/

mutual

theorem PlainValue.clean : (v : AionisValue) → PlainValue v → Clean v
  | .null, _ => trivial
  | .bool _, _ => trivial
  | .num _, _ => trivial
  | .str _, _ => trivial
  | .arr items, h => PlainValues.clean items h
  | .obj own _, h => ⟨PlainEntries.clean own h.1, h.2 ▸ trivial⟩
  | .objectPrototype, h => h.elim
  | .method _, h => h.elim

theorem PlainValues.clean : (items : List AionisValue) → PlainValues items → CleanItems items
  | [], _ => trivial
  | v :: vs, h => ⟨PlainValue.clean v h.1, PlainValues.clean vs h.2⟩

theorem PlainEntries.clean : (fields : List (String × AionisValue)) → PlainEntries fields →
    CleanFields fields
  | [], _ => trivial
  | f :: fs, h => ⟨PlainEntry.clean f h.1, PlainEntries.clean fs h.2⟩

theorem PlainEntry.clean : (f : String × AionisValue) → PlainEntry f → CleanField f
  | (_, v), h => PlainValue.clean v h.2

end

theorem AionisObject.PlainObject.clean {o : AionisObject} (h : o.PlainObject) : o.CleanObject :=
  ⟨PlainEntries.clean o.own h.1, h.2 ▸ trivial⟩

/-! ## Arrivals -/

namespace Arrival

variable (a : Arrival)

/-- What an object, a value and a number have become on arrival. -/
def takeRecord (o : AionisObject) : AionisObject := (a.record o).getD {}

def takeValue (v : AionisValue) : AionisValue := (a.value v).getD .null

def takeNumber (n : JsNumber) : JsNumber := (a.number n).getD n

/-- Values with a property arrive, and are plain. -/
structure Takes (P : AionisValue → Prop) (Q : AionisObject → Prop) : Prop where
  value : ∀ v, P v → a.value v = some (a.takeValue v) ∧ PlainValue (a.takeValue v)
  record : ∀ o, Q o → a.record o = some (a.takeRecord o) ∧ (a.takeRecord o).PlainObject

theorem inMemory_takes : inMemory.Takes Clean AionisObject.CleanObject where
  value := fun _ hv => ⟨parseAionisValue_eq_flatten hv, flattenValue_plain hv⟩
  record := fun _ ho => ⟨parseRecord_eq_flatten ho, flattenObject_plain ho⟩

theorem inMemory_takes_plain : inMemory.Takes PlainValue AionisObject.PlainObject where
  value := fun v hv => inMemory_takes.value v (PlainValue.clean v hv)
  record := fun _ ho => inMemory_takes.record _ ho.clean

theorem fromJson_takes : fromJson.Takes PlainValue AionisObject.PlainObject where
  value := by
    intro v hv
    have harrives : fromJson.value v = some (jsonValue v) :=
      parse_plain (jsonValue v) (json_plain v hv)
    rw [takeValue, harrives]
    exact ⟨rfl, json_plain v hv⟩
  record := by
    intro o ho
    rw [takeRecord, fromJson_record ho]
    exact ⟨rfl, jsonObject_plain ho⟩

end Arrival

/-! ## The syntax tree -/

/-- The node passes its schema but for its values, which have the property. -/
def AstNode.Holds (P : AionisValue → Prop) : AstNode → Prop
  | .heading node => 0 < node.depth ∧ node.loc.valid = true
  | .paragraph node => node.loc.valid = true
  | .fence node => node.loc.valid = true
  | .directive node => node.name ≠ "" ∧ (∀ d ∈ node.diagnostics, d.valid = true) ∧
    node.loc.valid = true ∧ ∀ v ∈ node.payload, P v

structure DocumentNode.Holds (P : AionisValue → Prop) (ast : DocumentNode) : Prop where
  children : ∀ node ∈ ast.children, node.Holds P
  diagnostics : ∀ d ∈ ast.diagnostics, d.valid = true
  loc : ast.loc.valid = true

section Ast

variable {a : Arrival} {P : AionisValue → Prop} {Q : AionisObject → Prop}

theorem AstNode.Holds.parse (ha : a.Takes P Q) {node : AstNode} (h : node.Holds P) :
    ∃ taken, node.parse a = some taken ∧ taken.Holds PlainValue := by
  cases node with
  | heading node =>
    exact ⟨.heading node, if_pos (by simp [h.1, h.2]), h⟩
  | paragraph node => exact ⟨.paragraph node, if_pos h, h⟩
  | fence node => exact ⟨.fence node, if_pos h, h⟩
  | directive node =>
    obtain ⟨hname, hdiagnostics, hloc, hpayload⟩ := h
    have hchecks : (node.name ≠ "" && node.diagnostics.all (·.valid) && node.loc.valid) = true := by
      simp only [Bool.and_eq_true, decide_eq_true_eq, List.all_eq_true]
      exact ⟨⟨hname, hdiagnostics⟩, hloc⟩
    have hvalue : node.payload.mapM a.value = some (node.payload.map a.takeValue) :=
      optionMapM_eq_map fun v hv => (ha.value v (hpayload v hv)).1
    refine ⟨.directive { node with payload := node.payload.map a.takeValue }, ?_, hname,
      hdiagnostics, hloc, fun v hv => ?_⟩
    · rw [AstNode.parse, if_pos hchecks, hvalue]
      rfl
    · obtain ⟨w, hw, rfl⟩ := Option.map_eq_some_iff.1 hv
      exact (ha.value w (hpayload w hw)).2

theorem DocumentNode.Holds.parse (ha : a.Takes P Q) {ast : DocumentNode} (h : ast.Holds P) :
    ∃ taken, ast.parse a = some taken ∧ taken.Holds PlainValue := by
  have hchecks : (ast.diagnostics.all (·.valid) && ast.loc.valid) = true := by
    rw [Bool.and_eq_true, List.all_eq_true]
    exact ⟨h.diagnostics, h.loc⟩
  choose! taken htaken hholds using
    fun node (hnode : node ∈ ast.children) => (h.children node hnode).parse ha
  have hchildren : ast.children.mapM (AstNode.parse a) = some (ast.children.map taken) :=
    mapM_eq_map htaken
  refine ⟨{ ast with children := ast.children.map taken }, ?_, ?_, h.diagnostics, h.loc⟩
  · rw [DocumentNode.parse, if_pos hchecks, hchildren]
    rfl
  · intro node hnode
    obtain ⟨before, hbefore, rfl⟩ := List.mem_map.1 hnode
    exact hholds before hbefore

end Ast

/-! ## The representation -/

/-- Every value of the representation has the property, and every place is valid. -/
structure AionisDocIR.Holds (P : AionisValue → Prop) (Q : AionisObject → Prop)
    (ir : AionisDocIR) : Prop where
  doc : ∀ d ∈ ir.doc, Q d.data ∧ validLoc d.loc = true
  context : ∀ c ∈ ir.context, Q c.data ∧ validLoc c.loc = true
  plans : ∀ p ∈ ir.plans, Q p.data ∧ validLoc p.loc = true
  executions : ∀ e ∈ ir.executions, (Q e.data ∧ validLoc e.loc = true) ∧ ∀ o ∈ e.input, Q o
  decisions : ∀ d ∈ ir.decisions, Q d.data ∧ validLoc d.loc = true
  evidence : ∀ e ∈ ir.evidence,
    (Q e.data ∧ validLoc e.loc = true) ∧ ∀ vs ∈ e.sources, ∀ v ∈ vs, P v
  replay : ∀ r ∈ ir.replay, Q r.data ∧ validLoc r.loc = true
  memory : ∀ m ∈ ir.memory, Q m.data ∧ validLoc m.loc = true
  state : ∀ s ∈ ir.state, Q s.data ∧ validLoc s.loc = true
  diagnostics : ∀ d ∈ ir.diagnostics, d.valid = true

/-- The confidences arrive as numbers. -/
structure AionisDocIR.NumbersArrive (a : Arrival) (ir : AionisDocIR) : Prop where
  decisions : ∀ d ∈ ir.decisions, ∀ n ∈ d.confidence, (a.number n).isSome = true
  evidence : ∀ e ∈ ir.evidence, ∀ n ∈ e.confidence, (a.number n).isSome = true

/-- The representation with its values as they arrive. -/
def AionisDocIR.taken (a : Arrival) (ir : AionisDocIR) : AionisDocIR where
  doc := ir.doc.map fun d => { d with data := a.takeRecord d.data }
  context := ir.context.map fun c => { c with data := a.takeRecord c.data }
  plans := ir.plans.map fun p => { p with data := a.takeRecord p.data }
  executions := ir.executions.map fun e =>
    { e with input := e.input.map a.takeRecord, data := a.takeRecord e.data }
  decisions := ir.decisions.map fun d =>
    { d with confidence := d.confidence.map a.takeNumber, data := a.takeRecord d.data }
  evidence := ir.evidence.map fun e =>
    { e with
      sources := e.sources.map fun vs => vs.map a.takeValue
      confidence := e.confidence.map a.takeNumber
      data := a.takeRecord e.data }
  replay := ir.replay.map fun r => { r with data := a.takeRecord r.data }
  memory := ir.memory.map fun m => { m with data := a.takeRecord m.data }
  state := ir.state.map fun s => { s with data := a.takeRecord s.data }
  diagnostics := ir.diagnostics

section Ir

variable {a : Arrival} {P : AionisValue → Prop} {Q : AionisObject → Prop} {ir : AionisDocIR}

theorem parseEntry_taken (ha : a.Takes P Q) {α : Type} {data : AionisObject}
    {loc : Option SourceRange} {withData : AionisObject → α} (h : Q data ∧ validLoc loc = true) :
    parseEntry a data loc withData = some (withData (a.takeRecord data)) :=
  parseEntry_eq h.2 (ha.record data h.1).1

theorem takeNumber_eq {n : JsNumber} (h : (a.number n).isSome = true) :
    a.number n = some (a.takeNumber n) := by
  obtain ⟨m, hm⟩ := Option.isSome_iff_exists.1 h
  rw [Arrival.takeNumber, hm]
  rfl

section

variable (ha : a.Takes P Q)

include ha

theorem ExecuteIR.parse_taken {e : ExecuteIR}
    (h : (Q e.data ∧ validLoc e.loc = true) ∧ ∀ o ∈ e.input, Q o) :
    e.parse a = some { e with input := e.input.map a.takeRecord, data := a.takeRecord e.data } := by
  have hinput : e.input.mapM a.record = some (e.input.map a.takeRecord) :=
    optionMapM_eq_map fun o ho => (ha.record o (h.2 o ho)).1
  rw [ExecuteIR.parse, hinput]
  exact parseEntry_taken ha h.1

theorem DecisionIR.parse_taken {d : DecisionIR} (h : Q d.data ∧ validLoc d.loc = true)
    (hnumber : ∀ n ∈ d.confidence, (a.number n).isSome = true) :
    d.parse a = some
      { d with confidence := d.confidence.map a.takeNumber, data := a.takeRecord d.data } := by
  have hconfidence : d.confidence.mapM a.number = some (d.confidence.map a.takeNumber) :=
    optionMapM_eq_map fun n hn => takeNumber_eq (hnumber n hn)
  rw [DecisionIR.parse, hconfidence]
  exact parseEntry_taken ha h

theorem EvidenceIR.sources_taken {e : EvidenceIR} (h : ∀ vs ∈ e.sources, ∀ v ∈ vs, P v) :
    (e.sources.mapM fun vs : List AionisValue => vs.mapM a.value) =
      some (e.sources.map fun vs => vs.map a.takeValue) :=
  optionMapM_eq_map fun vs hvs => mapM_eq_map fun v hv => (ha.value v (h vs hvs v hv)).1

theorem EvidenceIR.parse_taken {e : EvidenceIR}
    (h : (Q e.data ∧ validLoc e.loc = true) ∧ ∀ vs ∈ e.sources, ∀ v ∈ vs, P v)
    (hnumber : ∀ n ∈ e.confidence, (a.number n).isSome = true) :
    e.parse a = some
      { e with
        sources := e.sources.map fun vs => vs.map a.takeValue
        confidence := e.confidence.map a.takeNumber
        data := a.takeRecord e.data } := by
  have hconfidence : e.confidence.mapM a.number = some (e.confidence.map a.takeNumber) :=
    optionMapM_eq_map fun n hn => takeNumber_eq (hnumber n hn)
  rw [EvidenceIR.parse, EvidenceIR.sources_taken ha h.2, hconfidence]
  exact parseEntry_taken ha h.1

theorem AionisDocIR.Holds.parse (h : ir.Holds P Q)
    (hnumbers : ir.NumbersArrive a) : ir.parse a = some (ir.taken a) := by
  have hdoc : ir.doc.mapM (DocMetaIR.parse a) = some (ir.taken a).doc :=
    optionMapM_eq_map fun d hd => parseEntry_taken ha (h.doc d hd)
  have hcontext : ir.context.mapM (ContextIR.parse a) = some (ir.taken a).context :=
    mapM_eq_map fun c hc => parseEntry_taken ha (h.context c hc)
  have hplans : ir.plans.mapM (PlanIR.parse a) = some (ir.taken a).plans :=
    mapM_eq_map fun p hp => parseEntry_taken ha (h.plans p hp)
  have hexecutions : ir.executions.mapM (ExecuteIR.parse a) = some (ir.taken a).executions :=
    mapM_eq_map fun e he => ExecuteIR.parse_taken ha (h.executions e he)
  have hdecisions : ir.decisions.mapM (DecisionIR.parse a) = some (ir.taken a).decisions :=
    mapM_eq_map fun d hd => DecisionIR.parse_taken ha (h.decisions d hd) (hnumbers.decisions d hd)
  have hevidence : ir.evidence.mapM (EvidenceIR.parse a) = some (ir.taken a).evidence :=
    mapM_eq_map fun e he => EvidenceIR.parse_taken ha (h.evidence e he) (hnumbers.evidence e he)
  have hreplay : ir.replay.mapM (ReplayIR.parse a) = some (ir.taken a).replay :=
    mapM_eq_map fun r hr => parseEntry_taken ha (h.replay r hr)
  have hmemory : ir.memory.mapM (MemoryIR.parse a) = some (ir.taken a).memory :=
    mapM_eq_map fun m hm => parseEntry_taken ha (h.memory m hm)
  have hstate : ir.state.mapM (StateIR.parse a) = some (ir.taken a).state :=
    mapM_eq_map fun s hs => parseEntry_taken ha (h.state s hs)
  have hchecks : ir.diagnostics.all (·.valid) = true := List.all_eq_true.2 h.diagnostics
  unfold AionisDocIR.parse
  rw [hdoc, hcontext, hplans, hexecutions, hdecisions, hevidence, hreplay, hmemory, hstate]
  exact if_pos hchecks

end

theorem AionisDocIR.parse_eq_none (h : ¬ ir.NumbersArrive a) : ir.parse a = none := by
  have hrefused : ir.decisions.mapM (DecisionIR.parse a) = none ∨
      ir.evidence.mapM (EvidenceIR.parse a) = none := by
    by_contra hboth
    obtain ⟨hdecisions, hevidence⟩ := not_or.1 hboth
    refine h ⟨fun d hd n hn => ?_, fun e he n hn => ?_⟩
    · refine Option.isSome_iff_ne_none.2 fun hnone => hdecisions (mapM_eq_none hd ?_)
      have hconfidence : d.confidence.mapM a.number = none := by
        rw [show d.confidence = some n from hn]
        show (a.number n).map some = none
        rw [hnone]
        rfl
      rw [DecisionIR.parse, hconfidence]
      rfl
    · refine Option.isSome_iff_ne_none.2 fun hnone => hevidence (mapM_eq_none he ?_)
      have hconfidence : e.confidence.mapM a.number = none := by
        rw [show e.confidence = some n from hn]
        show (a.number n).map some = none
        rw [hnone]
        rfl
      rw [EvidenceIR.parse, hconfidence]
      exact Option.bind_eq_none_iff.2 fun _ _ => rfl
  unfold AionisDocIR.parse
  refine Option.eq_none_iff_forall_ne_some.2 fun taken htaken => ?_
  simp only [Option.bind_eq_bind, Option.bind_eq_some_iff] at htaken
  obtain ⟨-, -, -, -, -, -, -, -, decisions, hdecisions, evidence, hevidence, -⟩ := htaken
  obtain hnone | hnone := hrefused
  · rw [hnone] at hdecisions
    cases hdecisions
  · rw [hnone] at hevidence
    cases hevidence

theorem AionisDocIR.Holds.taken (ha : a.Takes P Q) (h : ir.Holds P Q) :
    (ir.taken a).Holds PlainValue AionisObject.PlainObject where
  doc := by
    intro d hd
    obtain ⟨before, hbefore, rfl⟩ := Option.map_eq_some_iff.1 hd
    exact ⟨(ha.record _ (h.doc before hbefore).1).2, (h.doc before hbefore).2⟩
  context := by
    intro c hc
    obtain ⟨before, hbefore, rfl⟩ := List.mem_map.1 hc
    exact ⟨(ha.record _ (h.context before hbefore).1).2, (h.context before hbefore).2⟩
  plans := by
    intro p hp
    obtain ⟨before, hbefore, rfl⟩ := List.mem_map.1 hp
    exact ⟨(ha.record _ (h.plans before hbefore).1).2, (h.plans before hbefore).2⟩
  executions := by
    intro e he
    obtain ⟨before, hbefore, rfl⟩ := List.mem_map.1 he
    obtain ⟨hentry, hinput⟩ := h.executions before hbefore
    refine ⟨⟨(ha.record _ hentry.1).2, hentry.2⟩, fun o ho => ?_⟩
    obtain ⟨input, hmem, rfl⟩ := Option.map_eq_some_iff.1 ho
    exact (ha.record _ (hinput input hmem)).2
  decisions := by
    intro d hd
    obtain ⟨before, hbefore, rfl⟩ := List.mem_map.1 hd
    exact ⟨(ha.record _ (h.decisions before hbefore).1).2, (h.decisions before hbefore).2⟩
  evidence := by
    intro e he
    obtain ⟨before, hbefore, rfl⟩ := List.mem_map.1 he
    obtain ⟨hentry, hsources⟩ := h.evidence before hbefore
    refine ⟨⟨(ha.record _ hentry.1).2, hentry.2⟩, fun vs hvs v hv => ?_⟩
    obtain ⟨sources, hmem, rfl⟩ := Option.map_eq_some_iff.1 hvs
    obtain ⟨source, hsource, rfl⟩ := List.mem_map.1 hv
    exact (ha.value _ (hsources sources hmem source hsource)).2
  replay := by
    intro r hr
    obtain ⟨before, hbefore, rfl⟩ := List.mem_map.1 hr
    exact ⟨(ha.record _ (h.replay before hbefore).1).2, (h.replay before hbefore).2⟩
  memory := by
    intro m hm
    obtain ⟨before, hbefore, rfl⟩ := List.mem_map.1 hm
    exact ⟨(ha.record _ (h.memory before hbefore).1).2, (h.memory before hbefore).2⟩
  state := by
    intro s hs
    obtain ⟨before, hbefore, rfl⟩ := List.mem_map.1 hs
    exact ⟨(ha.record _ (h.state before hbefore).1).2, (h.state before hbefore).2⟩
  diagnostics := h.diagnostics

end Ir

end AionisCore.AionisDoc
