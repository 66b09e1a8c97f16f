import AionisCore.Memory.ExecutionContract
import AionisCore.Memory.ExecutionNativeSlots

/-!
# Normalizing slots twice

`normalizeExecutionNativeSlots` fills in the kind and the layer of slots from the record that
it has built. The slots it returns are normalized to themselves, unless the kind that is
filled in takes them another way.
-/

namespace AionisCore.Memory

open Lib Lib.JsString Lib.Schema Store

/-- The language with the contract that `deriveExecutionContractFromSlots` derives. -/
def NativeEnv.withContract (env : NativeEnv) : NativeEnv :=
  { env with deriveExecutionContractFromSlots := fun slots provenance =>
      (ExecutionContract.deriveExecutionContractFromSlots slots provenance).map (·.toJson) }

/-- Slots that hold the contract they were given are given the same one. -/
def DerivesAgain (env : NativeEnv) : Prop :=
  ∀ slots provenance contract,
    env.deriveExecutionContractFromSlots slots provenance = some contract →
    env.deriveExecutionContractFromSlots
      (Json.set slots "execution_contract_v1" (.obj contract)) provenance = some contract

theorem NativeEnv.derivesAgain (env : NativeEnv) : DerivesAgain env.withContract := by
  intro slots provenance contract h
  obtain ⟨c, hc, rfl⟩ := Option.map_eq_some_iff.1 h
  exact Option.map_eq_some_iff.2
    ⟨c, ExecutionContract.deriveExecutionContractFromSlots_again hc, rfl⟩

/-! ## A field that is set -/

section Fields

variable {r : Json.Fields} {k k' : String} {v w : Json}

/-- Every field of the name holds the value, and there is one. -/
def Holds (r : Json.Fields) (k : String) (v : Json) : Prop :=
  Json.get r k = some v ∧ ∀ f ∈ r, f.1 = k → f.2 = v

theorem mem_set {f : String × Json} (h : f ∈ Json.set r k v) :
    f.1 = k ∧ f.2 = v ∨ f.1 ≠ k ∧ f ∈ r := by
  rw [Json.set, Json.spread, List.mem_append] at h
  rcases h with h | h
  · obtain ⟨g, hg, rfl⟩ := List.mem_map.1 h
    by_cases hk : g.1 = k
    · exact .inl ⟨hk, by simp [hk]⟩
    · exact .inr ⟨hk, by simpa [hk] using hg⟩
  · obtain rfl := List.mem_singleton.1 (List.mem_filter.1 h).1
    exact .inl ⟨rfl, rfl⟩

theorem holds_set : Holds (Json.set r k v) k v :=
  ⟨Json.get_set_self _ _ _, fun _ hf hk => (mem_set hf).elim (·.2) fun h => absurd hk h.1⟩

theorem Holds.set (h : Holds r k v) (hne : k ≠ k') : Holds (Json.set r k' w) k v := by
  refine ⟨(Json.get_set_of_ne hne).trans h.1, fun f hf hk => ?_⟩
  rcases mem_set hf with hf | hf
  · exact absurd (hk.symm.trans hf.1) hne
  · exact h.2 f hf.2 hk

theorem Holds.set_self (h : Holds r k v) : Json.set r k v = r := by
  rw [Json.set, Json.spread, List.filter_eq_nil_iff.2, List.append_nil]
  · refine (List.map_congr_left fun f hf => ?_).trans (List.map_id r)
    by_cases hk : f.1 = k
    · rw [Json.get_cons, if_pos hk, Option.getD_some, ← h.2 f hf hk]
      rfl
    · rw [Json.get_cons, if_neg hk]
      rfl
  · intro f hf
    rw [List.mem_singleton.1 hf, h.1]
    simp

end Fields

/-! ## Slots with their record -/

section Filled

variable {env : NativeEnv} {slots out parsed native : Json.Fields}
  {title textSummary : Option String}

/-- The slots with a record, and with its kind and its layer where they have none. -/
def withRecord (slots parsed : Json.Fields) : Json.Fields :=
  inherit (inherit (Json.set slots "execution_native_v1" (.obj parsed)) parsed "summary_kind")
    parsed "compression_layer"

/-- The slots with the contract that is derived from them. -/
def withContract (env : NativeEnv) (source : NativeSource) (out : Json.Fields) : Json.Fields :=
  match env.deriveExecutionContractFromSlots out (some (deriveExecutionContractProvenance
      source.summaryKind source.systemKind source.anchor.isSome out)) with
  | some contract => Json.set out "execution_contract_v1" (.obj contract)
  | none => out

theorem normalize_of_none (h : executionNative? env slots title textSummary = none) :
    normalizeExecutionNativeSlots env slots title textSummary =
      .ok (withContract env (nativeSource slots) slots) := by
  unfold normalizeExecutionNativeSlots withContract
  rw [h]
  dsimp only [bind, Except.bind]
  generalize env.deriveExecutionContractFromSlots _ _ = contract
  cases contract <;> rfl

theorem normalize_of_some (h : executionNative? env slots title textSummary = some native)
    (hparsed : safeParse ExecutionNativeV1Schema (some (.obj native)) = some parsed) :
    normalizeExecutionNativeSlots env slots title textSummary =
      .ok (withContract env (nativeSource slots) (withRecord slots parsed)) := by
  unfold normalizeExecutionNativeSlots withContract withRecord
  rw [h]
  dsimp only
  rw [hparsed]
  dsimp only [bind, Except.bind, orThrow, Except.map]
  generalize env.deriveExecutionContractFromSlots _ _ = contract
  cases contract <;> rfl

theorem normalize_cases (h : normalizeExecutionNativeSlots env slots title textSummary = .ok out) :
    executionNative? env slots title textSummary = none ∧
        out = withContract env (nativeSource slots) slots ∨
      ∃ native parsed, executionNative? env slots title textSummary = some native ∧
        safeParse ExecutionNativeV1Schema (some (.obj native)) = some parsed ∧
        out = withContract env (nativeSource slots) (withRecord slots parsed) := by
  cases hnative : executionNative? env slots title textSummary with
  | none =>
    rw [normalize_of_none hnative] at h
    exact .inl ⟨rfl, (Except.ok.inj h).symm⟩
  | some native =>
    obtain ⟨parsed, hparsed, -⟩ := get_normalizeExecutionNativeSlots h hnative
    rw [normalize_of_some hnative hparsed] at h
    exact .inr ⟨native, parsed, rfl, hparsed, (Except.ok.inj h).symm⟩

/-- The fields that normalization writes. -/
def writtenSlots : List String :=
  ["execution_native_v1", "summary_kind", "compression_layer", "execution_contract_v1"]

/-- What a slot holds after it was filled in from the record. -/
def filledIn (slots parsed : Json.Fields) (k : String) : Option Json :=
  if !Json.truthy (Json.get slots k) && Json.truthy (Json.get parsed k) then Json.get parsed k
  else Json.get slots k

/-- The slots as normalization leaves them, but for their contract. -/
structure Filled (slots parsed out : Json.Fields) : Prop where
  other : ∀ k, k ∉ writtenSlots → Json.get out k = Json.get slots k
  record : Holds out "execution_native_v1" (.obj parsed)
  kind : Json.get out "summary_kind" = filledIn slots parsed "summary_kind"
  layer : Json.get out "compression_layer" = filledIn slots parsed "compression_layer"

theorem get_inherit_self {k : String} :
    Json.get (inherit slots parsed k) k = filledIn slots parsed k := by
  unfold inherit filledIn
  cases Json.get parsed k with
  | none => simp [Json.truthy]
  | some v =>
    dsimp only
    split
    · exact Json.get_set_self _ _ _
    · rfl

theorem Holds.inherit {k k' : String} {v : Json} (h : Holds slots k v) (hne : k ≠ k') :
    Holds (inherit slots parsed k') k v := by
  unfold AionisCore.Memory.inherit
  split
  · split
    · exact h.set hne
    · exact h
  · exact h

theorem filled_withRecord : Filled slots parsed (withRecord slots parsed) := by
  refine ⟨fun k hk => ?_, ?_, ?_, ?_⟩
  · unfold withRecord
    rw [get_inherit, get_inherit, Json.get_set_of_ne]
    all_goals
      rintro rfl
      exact hk (by decide)
  · exact (holds_set.inherit (by decide)).inherit (by decide)
  · unfold withRecord
    rw [get_inherit (by decide), get_inherit_self, filledIn, filledIn,
      Json.get_set_of_ne (by decide)]
  · unfold withRecord
    rw [get_inherit_self, filledIn, filledIn, get_inherit (by decide),
      Json.get_set_of_ne (by decide)]

theorem Filled.set_contract {v : Json} (h : Filled slots parsed out) :
    Filled slots parsed (Json.set out "execution_contract_v1" v) := by
  refine ⟨fun k hk => ?_, h.record.set (by decide), ?_, ?_⟩
  · rw [Json.get_set_of_ne, h.other k hk]
    rintro rfl
    exact hk (by decide)
  · rw [Json.get_set_of_ne (by decide), h.kind]
  · rw [Json.get_set_of_ne (by decide), h.layer]

theorem Filled.withContract {source : NativeSource} (h : Filled slots parsed out) :
    Filled slots parsed (withContract env source out) := by
  unfold AionisCore.Memory.withContract
  split
  · exact h.set_contract
  · exact h

/-- Slots that are filled in are left as they are. -/
theorem inherit_filledIn {k : String} (h : Json.get out k = filledIn slots parsed k) :
    inherit out parsed k = out := by
  unfold inherit
  split
  · next v hv =>
    refine if_neg fun hboth => ?_
    rw [Bool.and_eq_true, Bool.not_eq_true'] at hboth
    unfold filledIn at h
    rw [hv] at h
    split at h
    · rw [h] at hboth
      exact absurd (hboth.1.symm.trans hboth.2) (by decide)
    · next hnot =>
      rw [h] at hboth
      exact hnot (by rw [hboth.1, hboth.2]; rfl)
  · rfl

theorem Filled.withRecord (h : Filled slots parsed out) : withRecord out parsed = out := by
  unfold AionisCore.Memory.withRecord
  rw [h.record.set_self, inherit_filledIn h.kind, inherit_filledIn h.layer]

end Filled

/-! ## The record again -/

section Record

variable {env : NativeEnv} {slots out parsed base patch patch' native : Json.Fields}
  {title textSummary : Option String}

/-- A record is read back when each field of the patch is what it was, is left out or is what
was read. -/
theorem record_again
    (h : safeParse ExecutionNativeV1Schema (some (.obj (Json.spread base patch))) = some parsed)
    (hpatch : ∀ k, Json.get patch' k = Json.get patch k ∨ Json.get patch' k = none ∨
      Json.get patch' k = Json.get parsed k) :
    safeParse ExecutionNativeV1Schema (some (.obj (Json.spread parsed patch'))) = some parsed := by
  obtain ⟨r, hr, hparse⟩ := safeParse_object h
  obtain rfl := Json.obj.inj (Option.some.inj hr)
  have hshape : parseShape ExecutionNativeV1Shape (Json.spread parsed patch') =
      parseShape ExecutionNativeV1Shape (Json.spread base patch) := by
    refine parseShape_congr fun f hf => ?_
    obtain ⟨k, s⟩ := f
    have hread := get_parseShape hparse (by decide) hf
    have hagain : parse s (Json.get parsed k) = some (Json.get parsed k) :=
      parse_self (wellFormed_of_mem (by decide) hf) hread
    rw [parseField, parseField, hread, Json.get_spread]
    rcases hpatch k with hk | hk | hk
    · rw [hk]
      cases hv : Json.get patch k with
      | none => exact hagain
      | some v =>
        rw [Json.get_spread, hv] at hread
        exact hread
    · rw [hk]
      exact hagain
    · rw [hk, Option.or_self]
      exact hagain
  unfold safeParse
  rw [ExecutionNativeV1Schema, parse, hshape, hparse]
  rfl

theorem firstString_str {s : String} :
    firstString [some (.str s)] = if trim s = "" then none else some (trim s) := by
  unfold firstString
  rw [List.findSome?_cons, List.findSome?_nil]
  dsimp only
  split <;> next heq => exact heq.symm

theorem firstString_of_not_truthy {v : Option Json} (h : Json.truthy v = false) :
    firstString [v] = none := by
  rcases v with _ | _ | _ | _ | s | _ | _
  · rfl
  · rfl
  · rfl
  · rfl
  · have hs : s = "" := by simpa [Json.truthy] using h
    subst hs
    rfl
  · rfl
  · rfl

theorem firstString_word {s : String} (hs : Plain s) : firstString [some (.str s)] = some s := by
  have htrim : trim s = s := hs.1
  rw [firstString_str, htrim, if_neg hs.2]

theorem layer_plain : ∀ l ∈ ["L0", "L1", "L2", "L3", "L4", "L5"], Plain l := by decide

section

variable (h : Filled slots parsed out)
  (hparsed : safeParse ExecutionNativeV1Schema (some (.obj native)) = some parsed)

include h hparsed

theorem compressionLayer_filled :
    (nativeSource out).compressionLayer = (nativeSource slots).compressionLayer ∨
      ∃ l, Json.get parsed "compression_layer" = some (.str l) ∧
        (nativeSource out).compressionLayer = some l := by
  have hanchor : Json.get out "anchor_v1" = Json.get slots "anchor_v1" := h.other _ (by decide)
  have hlayer := h.layer
  unfold nativeSource
  rw [hanchor]
  dsimp only
  unfold filledIn at hlayer
  split at hlayer
  · next hfill =>
    obtain ⟨r, -, hshape⟩ := safeParse_object hparsed
    have hread := get_parseShape (k := "compression_layer") (s := .optional MemoryLayerId) hshape
      (by decide) (by simp [ExecutionNativeV1Shape])
    cases hv : Json.get parsed "compression_layer" with
    | none =>
      rw [hv] at hfill
      simp [Json.truthy] at hfill
    | some v =>
      rw [hv] at hread hlayer
      have hself := parse_self (by decide) hread
      simp only [parse] at hself
      obtain ⟨l, hl, rfl⟩ := parse_enum hself
      refine .inr ⟨l, rfl, ?_⟩
      rw [hlayer, firstString_word (layer_plain l hl), toLayerId, Option.filter_some,
        if_pos (decide_eq_true hl), Option.some_or]
  · rw [hlayer]
    exact .inl rfl

/-- The kind of the slots after they were filled in. -/
theorem summaryKind_filled : (nativeSource out).summaryKind = (nativeSource slots).summaryKind ∨
      (nativeSource slots).summaryKind = none ∧
        Json.truthy (Json.get slots "summary_kind") = false ∧
        ∃ s, Json.get parsed "summary_kind" = some (.str s) ∧
          (nativeSource out).summaryKind = firstString [some (.str s)] := by
  have hkind := h.kind
  unfold nativeSource
  dsimp only
  unfold filledIn at hkind
  split at hkind
  · next hfill =>
    rw [Bool.and_eq_true, Bool.not_eq_true'] at hfill
    obtain ⟨r, -, hshape⟩ := safeParse_object hparsed
    have hread := get_parseShape (k := "summary_kind") (s := .optional (.nullable (text 128)))
      hshape (by decide) (by simp [ExecutionNativeV1Shape])
    refine .inr ⟨firstString_of_not_truthy hfill.1, hfill.1, ?_⟩
    cases hv : Json.get parsed "summary_kind" with
    | none =>
      rw [hv] at hfill
      simp [Json.truthy] at hfill
    | some v =>
      have hne : v ≠ .null := by
        rintro rfl
        rw [hv] at hfill
        simp [Json.truthy] at hfill
      rw [hv] at hread hkind
      have hself := parse_self (by decide) hread
      rw [parse, parse_nullable hne] at hself
      obtain ⟨s, rfl⟩ := parse_string hself
      exact ⟨s, rfl, by rw [hkind]⟩
  · rw [hkind]
    exact .inl rfl

end

theorem get_summaryKind_of_read {fields : Json.Fields}
    (hparsed : safeParse ExecutionNativeV1Schema (some (.obj fields)) = some parsed) :
    Json.get parsed "summary_kind" = Json.get fields "summary_kind" := by
  obtain ⟨r, hr, hshape⟩ := safeParse_object hparsed
  obtain rfl := Json.obj.inj (Option.some.inj hr)
  have hread := get_parseShape (k := "summary_kind") (s := .optional (.nullable (text 128)))
    hshape (by decide) (by simp [ExecutionNativeV1Shape])
  rcases hv : Json.get fields "summary_kind" with _ | v
  · rw [hv] at hread
    exact (Option.some.inj hread).symm
  · rw [hv, parse] at hread
    cases v with
    | null => exact (Option.some.inj hread).symm
    | str s =>
      simp only [parse, text, Bool.false_eq_true, if_false] at hread
      split at hread
      · exact (Option.some.inj hread).symm
      · cases hread
    | bool | num | arr | obj => simp [parse, text] at hread

theorem get_summaryKind_of_patch {v : Json}
    (hparsed : safeParse ExecutionNativeV1Schema (some (.obj (Json.spread base patch))) =
      some parsed)
    (hv : Json.get patch "summary_kind" = some v) : Json.get parsed "summary_kind" = some v := by
  rw [get_summaryKind_of_read hparsed, Json.get_spread, hv, Option.some_or]

/-! ## The way of the slots -/

/-- The record is built from the anchor, from the distillation, from what the slots carry or from
the record that there is. -/
inductive Way where
  | anchored (anchor : Json.Fields)
  | distilled (kind : String)
  | carried
  | kept
  deriving DecidableEq

/-- How a source builds its record. -/
def NativeSource.way (source : NativeSource) : Way :=
  match source.anchor, source.summaryKind with
  | some anchor, _ => .anchored anchor
  | none, kind =>
    if kind = some "write_distillation_evidence" ∨ kind = some "write_distillation_fact" then
      .distilled (kind.getD "")
    else if kind = some "handoff" ∨ source.systemKind = some "session_event" ∨
        source.systemKind = some "session" then
      .carried
    else .kept

/-- What a source writes to its record. -/
def NativeSource.written (env : NativeEnv) (source : NativeSource)
    (title textSummary : Option String) : Json.Fields :=
  match source.way with
  | .anchored anchor => anchorNative source anchor
  | .distilled kind => distilledNative env source kind title textSummary
  | .carried => carriedNative source
  | .kept => optionalText "compression_layer" source.compressionLayer ++
      optionalText "summary_kind" source.summaryKind

theorem executionNative?_eq :
    executionNative? env slots title textSummary =
      if (nativeSource slots).way = .kept ∧ (nativeSource slots).existing = none then none
      else some (Json.spread ((nativeSource slots).existing.getD [])
        ((nativeSource slots).written env title textSummary)) := by
  unfold executionNative? NativeSource.written NativeSource.way
  dsimp only
  cases (nativeSource slots).anchor with
  | some anchor => simp
  | none =>
    dsimp only
    split
    · simp
    · split
      · simp
      · cases (nativeSource slots).existing <;> simp

end Record

/-! ## The way again -/

section Again

variable {env : NativeEnv} {slots out parsed base : Json.Fields}
  {title textSummary : Option String}

theorem nativeSource_filled (h : Filled slots parsed out) :
    (nativeSource out).anchor = (nativeSource slots).anchor ∧
      (nativeSource out).systemKind = (nativeSource slots).systemKind := by
  unfold nativeSource
  rw [h.other "anchor_v1" (by decide), h.other "system_kind" (by decide)]
  exact ⟨rfl, rfl⟩

/-- What a source writes beside the kind and the layer. -/
theorem get_written_of_ne {k : String} (h : Filled slots parsed out)
    (hway : (nativeSource out).way = (nativeSource slots).way) (hk : k ≠ "summary_kind")
    (hl : k ≠ "compression_layer") :
    Json.get ((nativeSource out).written env title textSummary) k =
      Json.get ((nativeSource slots).written env title textSummary) k := by
  unfold NativeSource.written
  rw [hway]
  cases (nativeSource slots).way with
  | anchored anchor =>
    simp only [anchorNative, optionalText, Json.get_append, Json.get_cons, get_optional,
      Json.get_nil, if_neg hk, if_neg hl]
  | distilled kind =>
    simp only [distilledNative, Json.get_append, Json.get_cons, Json.get_nil, if_neg hk,
      if_neg hl]
  | carried =>
    simp only [carriedNative, Json.get_append, Json.get_cons, Json.get_nil, if_neg hk, if_neg hl]
    dsimp only [nativeSource]
    simp (disch := decide) only [h.other]
  | kept =>
    simp only [optionalText, Json.get_append, get_optional, if_neg hk, if_neg hl]

theorem get_written_layer
    (hway : (nativeSource out).way = (nativeSource slots).way)
    (hlayer : (nativeSource out).compressionLayer = (nativeSource slots).compressionLayer ∨
      ∃ l, Json.get parsed "compression_layer" = some (.str l) ∧
        (nativeSource out).compressionLayer = some l) :
    Json.get ((nativeSource out).written env title textSummary) "compression_layer" =
        Json.get ((nativeSource slots).written env title textSummary) "compression_layer" ∨
      Json.get ((nativeSource out).written env title textSummary) "compression_layer" =
        Json.get parsed "compression_layer" := by
  unfold NativeSource.written
  rw [hway]
  rcases hlayer with hlayer | ⟨l, hl, hlayer⟩
  on_goal 1 => left
  on_goal 2 => right; rw [hl]
  all_goals
    cases (nativeSource slots).way with
    | anchored anchor => simp [anchorNative, optionalText, Json.get_append, get_optional, hlayer]
    | distilled kind => simp [distilledNative, hlayer]
    | carried => simp [carriedNative, hlayer]
    | kept => simp [optionalText, Json.get_append, get_optional, hlayer]

/-- The slots say of which kind they are, or have an anchor or a session that decides how their
record is built, or their record names no kind that builds it in another way: none of a handoff
or a distillation, and none with white space around it. -/
def KindSettled (slots : Json.Fields) : Prop :=
  (nativeSource slots).anchor = none →
  (nativeSource slots).systemKind ∉ [some "session_event", some "session"] →
  Json.truthy (Json.get slots "summary_kind") = false →
  ∀ s, Json.field (nativeSource slots).existing "summary_kind" = some (.str s) →
    trim s = "" ∨ Trimmed s ∧
      s ∉ ["write_distillation_evidence", "write_distillation_fact", "handoff"]

/-- What is the same when slots are normalized again. -/
structure SameWay (env : NativeEnv) (title textSummary : Option String)
    (slots parsed out : Json.Fields) : Prop where
  way : (nativeSource out).way = (nativeSource slots).way
  kind :
    Json.get ((nativeSource out).written env title textSummary) "summary_kind" =
        Json.get ((nativeSource slots).written env title textSummary) "summary_kind" ∨
      Json.get ((nativeSource out).written env title textSummary) "summary_kind" = none ∨
      Json.get ((nativeSource out).written env title textSummary) "summary_kind" =
        Json.get parsed "summary_kind"
  provenance : ∀ o, deriveExecutionContractProvenance (nativeSource out).summaryKind
      (nativeSource out).systemKind (nativeSource out).anchor.isSome o =
    deriveExecutionContractProvenance (nativeSource slots).summaryKind
      (nativeSource slots).systemKind (nativeSource slots).anchor.isSome o

theorem get_written_kind {source : NativeSource} :
    Json.get (source.written env title textSummary) "summary_kind" =
      match source.way with
      | .anchored anchor => some (Json.orNull (source.summaryKind.or
          (if executionKindOfAnchor anchor = "execution_native" then none
            else some (executionKindOfAnchor anchor))))
      | .distilled kind => some (.str kind)
      | .carried => some (Json.orNull (source.summaryKind.or source.systemKind))
      | .kept => source.summaryKind.map .str := by
  unfold NativeSource.written
  cases source.way with
  | anchored anchor => simp [anchorNative]
  | distilled kind => simp [distilledNative]
  | carried => simp [carriedNative]
  | kept => simp [optionalText, Json.get_append, get_optional]

theorem sameWay_of_kind (h : Filled slots parsed out)
    (hkind : (nativeSource out).summaryKind = (nativeSource slots).summaryKind) :
    SameWay env title textSummary slots parsed out := by
  obtain ⟨hanchor, hsystem⟩ := nativeSource_filled h
  have hway : (nativeSource out).way = (nativeSource slots).way := by
    unfold NativeSource.way
    rw [hanchor, hsystem, hkind]
  refine ⟨hway, .inl ?_, fun o => ?_⟩
  · rw [get_written_kind, get_written_kind, hway, hkind, hsystem]
  · rw [hanchor, hsystem, hkind]

theorem executionKindOfAnchor_plain (anchor : Json.Fields) :
    Plain (executionKindOfAnchor anchor) := by
  unfold executionKindOfAnchor
  dsimp only
  split
  · split <;> decide
  · split <;> decide

variable {s session : String}

theorem plain_of_session (h : session = "session_event" ∨ session = "session") : Plain session := by
  rcases h with rfl | rfl <;> decide

/-- A session carries its slots on whether or not it was named as their kind. -/
theorem way_of_session {o : Json.Fields} (hanchor : (nativeSource o).anchor = none)
    (hsession : (nativeSource o).systemKind = some session)
    (hmem : session = "session_event" ∨ session = "session")
    (hkind : (nativeSource o).summaryKind = none ∨ (nativeSource o).summaryKind = some session) :
    (nativeSource o).way = .carried := by
  unfold NativeSource.way
  rw [hanchor, hsession]
  dsimp only
  rw [if_neg, if_pos]
  · exact .inr (by simpa using hmem)
  · rcases hkind with hkind | hkind
    · simp [hkind]
    · rcases hmem with rfl | rfl <;> simp [hkind]

theorem provenance_of_session {o : Json.Fields} {kind : Option String}
    (hmem : session = "session_event" ∨ session = "session")
    (hkind : kind = none ∨ kind = some session) :
    deriveExecutionContractProvenance kind (some session) false o =
      deriveExecutionContractProvenance (some session) (some session) false o := by
  rcases hkind with rfl | rfl
  · rcases hmem with rfl | rfl <;> simp [deriveExecutionContractProvenance]
  · rfl

section Written

variable (hnone : (nativeSource slots).summaryKind = none)
  (hparsed : safeParse ExecutionNativeV1Schema (some (.obj (Json.spread base
    ((nativeSource slots).written env title textSummary)))) = some parsed)
  (hs : Json.get parsed "summary_kind" = some (.str s))
  (hkind : (nativeSource out).summaryKind = firstString [some (.str s)])

include hnone hparsed hs hkind

theorem sameWay_anchored {anchor : Json.Fields} (h : Filled slots parsed out)
    (hanchor : (nativeSource slots).anchor = some anchor) :
    SameWay env title textSummary slots parsed out := by
  obtain ⟨hanchor', hsystem⟩ := nativeSource_filled h
  have hway : ∀ o, (nativeSource o).anchor = some anchor →
      (nativeSource o).way = .anchored anchor := by
    intro o ho
    unfold NativeSource.way
    rw [ho]
  refine ⟨(hway out (hanchor'.trans hanchor)).trans (hway slots hanchor).symm,
    .inr (.inr ?_), fun o => ?_⟩
  · have hwritten := @get_written_kind env title textSummary (nativeSource slots)
    rw [hway slots hanchor, hnone] at hwritten
    have hread := get_summaryKind_of_patch hparsed hwritten
    rw [get_written_kind, hway out (hanchor'.trans hanchor), hkind, hs]
    rw [hs] at hread
    dsimp only at hread ⊢
    split at hread
    · cases Option.some.inj hread
    · next hlabel =>
      have hlabel : s = executionKindOfAnchor anchor :=
        Json.str.inj (Option.some.inj hread)
      rw [hlabel, firstString_word (executionKindOfAnchor_plain anchor)]
      rfl
  · rw [hanchor', hanchor]
    rfl

/-- The kind of a session is filled in from what was written. -/
theorem sameWay_session (h : Filled slots parsed out) (hanchor : (nativeSource slots).anchor = none)
    (hsession : (nativeSource slots).systemKind = some session)
    (hmem : session = "session_event" ∨ session = "session") :
    SameWay env title textSummary slots parsed out := by
  obtain ⟨hanchor', hsystem⟩ := nativeSource_filled h
  rw [hanchor] at hanchor'
  rw [hsession] at hsystem
  have hway := way_of_session hanchor hsession hmem (.inl hnone)
  have hwritten := @get_written_kind env title textSummary (nativeSource slots)
  rw [hway, hnone, hsession] at hwritten
  have hread := hs.symm.trans (get_summaryKind_of_patch hparsed hwritten)
  obtain rfl : s = session := Json.str.inj (Option.some.inj hread)
  rw [firstString_word (plain_of_session hmem)] at hkind
  have hway' := way_of_session hanchor' hsystem hmem (.inr hkind)
  refine ⟨hway'.trans hway.symm, .inr (.inr ?_), fun o => ?_⟩
  · rw [get_written_kind, hway', hkind, hs]
    rfl
  · rw [hkind, hsystem, hanchor', hnone, hsession, hanchor]
    exact (provenance_of_session hmem (.inl rfl)).symm

end Written

/-- The kind of a record that is kept is filled in from the record. -/
theorem sameWay_kept (h : Filled slots parsed out) (hanchor : (nativeSource slots).anchor = none)
    (hsystem : (nativeSource slots).systemKind ∉ [some "session_event", some "session"])
    (hnone : (nativeSource slots).summaryKind = none)
    (hs : Json.get parsed "summary_kind" = some (.str s))
    (hkind : (nativeSource out).summaryKind = firstString [some (.str s)])
    (hsettled : trim s = "" ∨ Trimmed s ∧
      s ∉ ["write_distillation_evidence", "write_distillation_fact", "handoff"]) :
    SameWay env title textSummary slots parsed out := by
  obtain ⟨hanchor', hsystem'⟩ := nativeSource_filled h
  by_cases hblank : trim s = ""
  · rw [firstString_str, if_pos hblank] at hkind
    exact sameWay_of_kind h (hkind.trans hnone.symm)
  obtain ⟨htrim, hother⟩ := hsettled.resolve_left hblank
  have hne : s ≠ "" := by
    rintro rfl
    exact hblank rfl
  rw [firstString_word ⟨htrim, hne⟩] at hkind
  simp only [List.mem_cons, List.not_mem_nil, or_false, not_or] at hsystem hother
  have hkept : ∀ o kind, (nativeSource o).anchor = none →
      (nativeSource o).systemKind = (nativeSource slots).systemKind →
      (nativeSource o).summaryKind = kind → kind ≠ some "write_distillation_evidence" →
      kind ≠ some "write_distillation_fact" → kind ≠ some "handoff" →
      (nativeSource o).way = .kept := by
    intro o kind ho hsame hkind hevidence hfact hhandoff
    unfold NativeSource.way
    rw [ho, hsame, hkind]
    dsimp only
    rw [if_neg (by simp [hevidence, hfact]), if_neg (by simp [hhandoff, hsystem])]
  have hway := hkept slots none hanchor rfl hnone nofun nofun nofun
  have hway' := hkept out (some s) (hanchor'.trans hanchor) hsystem' hkind
    (by simp [hother]) (by simp [hother]) (by simp [hother])
  refine ⟨hway'.trans hway.symm, .inr (.inr ?_), fun o => ?_⟩
  · rw [get_written_kind, hway', hkind, hs]
    rfl
  · rw [hkind, hsystem', hanchor', hnone, hanchor]
    simp [deriveExecutionContractProvenance, hother, hsystem]

/-- Slots whose kind is settled are normalized in the same way again. -/
theorem sameWay_filled (h : Filled slots parsed out) (hsettled : KindSettled slots)
    (hbase : base = (nativeSource slots).existing.getD [])
    (hparsed : safeParse ExecutionNativeV1Schema (some (.obj (Json.spread base
      ((nativeSource slots).written env title textSummary)))) = some parsed) :
    SameWay env title textSummary slots parsed out := by
  rcases summaryKind_filled h hparsed with hsame | ⟨hnone, htruthy, s, hs, hkind⟩
  · exact sameWay_of_kind h hsame
  cases hanchor : (nativeSource slots).anchor with
  | some anchor => exact sameWay_anchored hnone hparsed hs hkind h hanchor
  | none =>
    by_cases hsystem : (nativeSource slots).systemKind ∈ [some "session_event", some "session"]
    · simp only [List.mem_cons, List.not_mem_nil, or_false] at hsystem
      rcases hsystem with hsession | hsession
      · exact sameWay_session hnone hparsed hs hkind h hanchor hsession (.inl rfl)
      · exact sameWay_session hnone hparsed hs hkind h hanchor hsession (.inr rfl)
    · refine sameWay_kept h hanchor hsystem hnone hs hkind ?_
      refine hsettled hanchor hsystem htruthy s ?_
      have hkept : (nativeSource slots).way = .kept := by
        simp only [List.mem_cons, List.not_mem_nil, or_false] at hsystem
        unfold NativeSource.way
        rw [hanchor, hnone]
        simp [hsystem]
      have hread := get_summaryKind_of_read hparsed
      rw [Json.get_spread, get_written_kind, hkept, hnone, hs, hbase] at hread
      cases hexisting : (nativeSource slots).existing with
      | none =>
        rw [hexisting] at hread
        cases hread
      | some existing =>
        rw [hexisting] at hread
        exact hread.symm

theorem executionNative?_eq_none :
    executionNative? env slots title textSummary = none ↔
      (nativeSource slots).way = .kept ∧ (nativeSource slots).existing = none := by
  rw [executionNative?_eq]
  split
  · next hkept => exact iff_of_true rfl hkept
  · next hkept => exact iff_of_false nofun hkept

theorem executionNative?_eq_some {native : Json.Fields}
    (h : executionNative? env slots title textSummary = some native) :
    native = Json.spread ((nativeSource slots).existing.getD [])
      ((nativeSource slots).written env title textSummary) := by
  rw [executionNative?_eq] at h
  by_cases hkept : (nativeSource slots).way = .kept ∧ (nativeSource slots).existing = none
  · rw [if_pos hkept] at h
    cases h
  · rw [if_neg hkept] at h
    exact (Option.some.inj h).symm

/-- Slots that are given their contract again are as they were. -/
theorem withContract_again {source source' : NativeSource} (hagain : DerivesAgain env)
    (hprovenance : ∀ o, deriveExecutionContractProvenance source'.summaryKind source'.systemKind
        source'.anchor.isSome o = deriveExecutionContractProvenance source.summaryKind
        source.systemKind source.anchor.isSome o) :
    withContract env source' (withContract env source slots) = withContract env source slots := by
  have hsame : ∀ contract, deriveExecutionContractProvenance source.summaryKind source.systemKind
      source.anchor.isSome (Json.set slots "execution_contract_v1" contract) =
      deriveExecutionContractProvenance source.summaryKind source.systemKind
        source.anchor.isSome slots := by
    intro contract
    unfold deriveExecutionContractProvenance
    simp (disch := decide) only [Json.get_set_of_ne]
  cases hderived : env.deriveExecutionContractFromSlots slots
      (some (deriveExecutionContractProvenance source.summaryKind source.systemKind
        source.anchor.isSome slots)) with
  | some contract =>
    have hwith : withContract env source slots =
        Json.set slots "execution_contract_v1" (.obj contract) := by
      rw [withContract, hderived]
    rw [hwith, withContract, hprovenance, hsame, hagain _ _ _ hderived]
    exact holds_set.set_self
  | none =>
    have hwith : withContract env source slots = slots := by
      rw [withContract, hderived]
    rw [hwith, withContract, hprovenance, hderived]

/-- Slots whose kind is settled and that normalize are normalized to themselves. -/
theorem normalizeExecutionNativeSlots_again (env : NativeEnv) (hsettled : KindSettled slots)
    (h : normalizeExecutionNativeSlots env.withContract slots title textSummary = .ok out) :
    normalizeExecutionNativeSlots env.withContract out title textSummary = .ok out := by
  rcases normalize_cases h with ⟨hnone, hout⟩ | ⟨native, parsed, hnative, hparsed, hout⟩
  · have hother : ∀ k, k ≠ "execution_contract_v1" → Json.get out k = Json.get slots k := by
      intro k hk
      rw [hout]
      unfold withContract
      split
      · exact Json.get_set_of_ne hk
      · rfl
    have hnone' : executionNative? env.withContract out title textSummary = none := by
      rw [executionNative?_eq_none] at hnone ⊢
      have hkept := hnone
      unfold NativeSource.way nativeSource at hkept ⊢
      simp (disch := decide) only [hother]
      exact hkept
    rw [normalize_of_none hnone', hout, withContract_again env.derivesAgain]
    intro o
    rw [← hout]
    unfold nativeSource
    simp (disch := decide) only [hother]
  · obtain rfl := executionNative?_eq_some hnative
    have hfilled : Filled slots parsed out := hout ▸ filled_withRecord.withContract
    have hsame := sameWay_filled hfilled hsettled rfl hparsed
    have hexisting : (nativeSource out).existing = some parsed := by
      unfold nativeSource
      rw [hfilled.record.1]
      exact safeParse_again (by decide) hparsed
    have hnative' : executionNative? env.withContract out title textSummary =
        some (Json.spread parsed
          ((nativeSource out).written env.withContract title textSummary)) := by
      rw [executionNative?_eq, hexisting, if_neg (by simp)]
      rfl
    have hparsed' : safeParse ExecutionNativeV1Schema (some (.obj (Json.spread parsed
        ((nativeSource out).written env.withContract title textSummary)))) = some parsed := by
      refine record_again hparsed fun k => ?_
      by_cases hk : k = "summary_kind"
      · subst hk
        exact hsame.kind
      by_cases hl : k = "compression_layer"
      · subst hl
        exact (get_written_layer hsame.way (compressionLayer_filled hfilled hparsed)).imp_right
          .inr
      · exact .inl (get_written_of_ne hfilled hsame.way hk hl)
    rw [normalize_of_some hnative' hparsed', hfilled.withRecord, hout]
    rw [hout] at hsame
    rw [withContract_again env.derivesAgain hsame.provenance]

end Again

/-! ## A kind that is filled in -/

/-- No number and no date is read, and letters are lower case. -/
def sampleNativeEnv : NativeEnv where
  toNumber _ := none
  parseDate _ := none
  deriveExecutionContractFromSlots _ _ := none
  toLowerCase s := s

def handoffSlots : Json.Fields := [
  ("summary_kind", .str "handoff"), ("next_action", .str "run the tests"),
  ("target_files", .arr [.str "src/a.ts"])]

theorem normalizeExecutionNativeSlots_again_handoff :
    ∃ out, normalizeExecutionNativeSlots sampleNativeEnv.withContract handoffSlots none none =
        .ok out ∧
      normalizeExecutionNativeSlots sampleNativeEnv.withContract out none none = .ok out := by
  cases h : normalizeExecutionNativeSlots sampleNativeEnv.withContract handoffSlots none none with
  | ok out =>
    refine ⟨out, rfl, normalizeExecutionNativeSlots_again sampleNativeEnv ?_ h⟩
    exact fun _ _ htruthy => absurd htruthy (by decide)
  | error e =>
    have hok : (normalizeExecutionNativeSlots sampleNativeEnv.withContract handoffSlots none
        none).isOk = true := by decide +kernel
    rw [h] at hok
    cases hok

/-- A record of a handoff in slots that do not say so. -/
def recordSlots : Json.Fields := [
  ("execution_native_v1", .obj [("schema_version", .str "execution_native_v1"),
    ("execution_kind", .str "workflow_anchor"), ("summary_kind", .str "handoff")])]

/-- Whether slots normalize to slots that normalize to others. -/
def changesAgain (env : NativeEnv) (slots : Json.Fields) : Bool :=
  match normalizeExecutionNativeSlots env slots none none with
  | .ok out =>
    match normalizeExecutionNativeSlots env out none none with
    | .ok again => again ≠ out
    | .error _ => false
  | .error _ => false

/-- The kind that is filled in makes the record that of a handoff. -/
theorem filled_kind_changes_again :
    ∃ out, normalizeExecutionNativeSlots sampleNativeEnv.withContract recordSlots none none =
        .ok out ∧
      normalizeExecutionNativeSlots sampleNativeEnv.withContract out none none ≠ .ok out := by
  have h : changesAgain sampleNativeEnv.withContract recordSlots = true := by decide +kernel
  unfold changesAgain at h
  split at h
  · next out hout =>
    refine ⟨out, hout, fun hagain => ?_⟩
    rw [hagain] at h
    simp at h
  · cases h

end AionisCore.Memory
