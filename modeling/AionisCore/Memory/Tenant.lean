import AionisCore.Lib.JsString
import AionisCore.Lib.Json
import AionisCore.Lib.Result
import AionisCore.Util.Http
import Mathlib.Data.List.Basic

/-!
# Tenants and scopes

A request names a tenant and a scope. `resolveTenantScope` checks both and
derives the scope key under which the rows of the pair are stored: the scope
itself for the default tenant, `tenant:<id>::scope:<scope>` for every other.
-/

namespace AionisCore.Memory

open Lib Lib.JsString Util

/-- A character of `[a-zA-Z0-9._-]`. -/
def isTenantChar (c : Char) : Bool := c.isAlphanum || c == '.' || c == '_' || c == '-'

/-- `^[a-zA-Z0-9][a-zA-Z0-9._-]{0,63}$`. -/
def tenantIdRe : List Char → Bool
  | [] => false
  | c :: cs => c.isAlphanum && decide (cs.length ≤ 63) && cs.all isTenantChar

@[ext]
structure TenantScope where
  tenantId : String
  scope : String
  scopeKey : String
  deriving DecidableEq, Repr

structure TenantDefaults where
  defaultScope : String
  defaultTenantId : String

/-- The tenant fields of a request. -/
structure TenantRequest where
  tenantId : Option String
  scope : Option String

abbrev RequestError := HttpError (Option Json.Fields)

def normalizeTenantId (raw : Option String) (fallback : String) : Except RequestError String :=
  let v := trim (raw.getD fallback)
  if v = "" then .error (badRequest "invalid_tenant_id" "tenant_id must be non-empty" none)
  else if tenantIdRe v.toList then .ok v
  else .error (badRequest "invalid_tenant_id"
    "tenant_id must match ^[a-zA-Z0-9][a-zA-Z0-9._-]\x7b0,63\x7d$" (some [("tenant_id", .str v)]))

/-- `v` starts with the prefix of derived scope keys. -/
def reserved (v : String) : Bool := "tenant:".toList.isPrefixOf v.toList

def normalizeScope (raw : Option String) (fallback : String) : Except RequestError String :=
  let v := trim (raw.getD fallback)
  if v = "" then .error (badRequest "invalid_scope" "scope must be non-empty" none)
  else if reserved v then .error (badRequest "invalid_scope"
    "scope must not start with reserved prefix 'tenant:'" (some [("scope", .str v)]))
  else .ok v

/-- `tenant:<tenantId>::scope:`. -/
def keyHead (tenantId : String) : String := "tenant:" ++ tenantId ++ "::scope:"

def toTenantScopeKey (scope tenantId defaultTenantId : String) : String :=
  if tenantId = defaultTenantId then scope else keyHead tenantId ++ scope

def fromTenantScopeKey (scopeKey tenantId defaultTenantId : String) : String :=
  if tenantId = defaultTenantId then scopeKey
  else match scopeKey.toList.dropPrefix? (keyHead tenantId).toList with
    | some rest => String.ofList rest
    | none => scopeKey

def resolveTenantScope (req : TenantRequest) (defaults : TenantDefaults) :
    Except RequestError TenantScope := do
  let tenantId ← normalizeTenantId req.tenantId defaults.defaultTenantId
  let scope ← normalizeScope req.scope defaults.defaultScope
  return ⟨tenantId, scope, toTenantScopeKey scope tenantId defaults.defaultTenantId⟩

/-- What `normalizeTenantId` lets through. -/
structure TenantIdOk (t : String) : Prop where
  trimmed : Trimmed t
  nonempty : t ≠ ""
  matches_re : tenantIdRe t.toList = true

/-- What `normalizeScope` lets through. -/
structure ScopeOk (s : String) : Prop where
  trimmed : Trimmed s
  nonempty : s ≠ ""
  not_reserved : reserved s = false

theorem normalizeTenantId_ok {raw : Option String} {fallback t : String} :
    normalizeTenantId raw fallback = .ok t ↔ t = trim (raw.getD fallback) ∧ TenantIdOk t := by
  unfold normalizeTenantId
  constructor
  · intro h
    simp only at h
    split at h
    · cases h
    · next hne =>
      split at h
      · next hre => cases h; exact ⟨rfl, trimmed_trim _, hne, hre⟩
      · cases h
  · rintro ⟨rfl, hok⟩
    simp only [if_neg hok.nonempty, if_pos hok.matches_re]

theorem normalizeScope_ok {raw : Option String} {fallback s : String} :
    normalizeScope raw fallback = .ok s ↔ s = trim (raw.getD fallback) ∧ ScopeOk s := by
  unfold normalizeScope
  constructor
  · intro h
    simp only at h
    split at h
    · cases h
    · next hne =>
      split at h
      · cases h
      · next hr => cases h; exact ⟨rfl, trimmed_trim _, hne, Bool.eq_false_iff.2 hr⟩
  · rintro ⟨rfl, hok⟩
    simp only [if_neg hok.nonempty, hok.not_reserved, Bool.false_eq_true, if_false]

/-- Some request is resolved to `p`. -/
def Accepted (d : TenantDefaults) (p : TenantScope) : Prop :=
  ∃ req, resolveTenantScope req d = .ok p

variable {d : TenantDefaults} {p : TenantScope}

theorem accepted_iff :
    Accepted d p ↔ TenantIdOk p.tenantId ∧ ScopeOk p.scope ∧
      p.scopeKey = toTenantScopeKey p.scope p.tenantId d.defaultTenantId := by
  constructor
  · rintro ⟨req, h⟩
    unfold resolveTenantScope at h
    obtain ⟨t, ht, h⟩ := bind_eq_ok.1 h
    obtain ⟨s, hs, h⟩ := bind_eq_ok.1 h
    cases h
    exact ⟨(normalizeTenantId_ok.1 ht).2, (normalizeScope_ok.1 hs).2, rfl⟩
  · rintro ⟨ht, hs, hk⟩
    obtain ⟨t, s, k⟩ := p
    have ht' : normalizeTenantId (some t) d.defaultTenantId = .ok t :=
      normalizeTenantId_ok.2 ⟨(ht.trimmed : trim _ = _).symm, ht⟩
    have hs' : normalizeScope (some s) d.defaultScope = .ok s :=
      normalizeScope_ok.2 ⟨(hs.trimmed : trim _ = _).symm, hs⟩
    refine ⟨⟨some t, some s⟩, ?_⟩
    simp only [resolveTenantScope, ht', hs'] at hk ⊢
    rw [hk]
    rfl

theorem Accepted.plain_scopeKey (h : Accepted d p) : Plain p.scopeKey := by
  obtain ⟨-, hscope, hkey⟩ := accepted_iff.1 h
  rw [hkey, toTenantScopeKey]
  split
  · exact ⟨hscope.trimmed, hscope.nonempty⟩
  · have hhead : (keyHead p.tenantId).toList =
        't' :: ("enant:".toList ++ (p.tenantId.toList ++ "::scope:".toList)) := by
      simp [keyHead]
    refine ⟨Trimmed.append hhead (by decide) hscope.trimmed hscope.nonempty, ?_⟩
    intro hempty
    have hlist := congrArg String.toList hempty
    simp [keyHead] at hlist

/-! ## Scope keys identify their pairs -/

theorem keyHead_append_toList (t s : String) :
    (keyHead t ++ s).toList =
      "tenant:".toList ++ (t.toList ++ ("::scope:".toList ++ s.toList)) := by
  simp only [keyHead, String.toList_append, List.append_assoc]

theorem isTenantChar_of_alphanum {c : Char} (h : c.isAlphanum = true) : isTenantChar c = true := by
  simp only [isTenantChar, h, Bool.true_or]

theorem TenantIdOk.all {t : String} (h : TenantIdOk t) : ∀ c ∈ t.toList, isTenantChar c = true := by
  have hre := h.matches_re
  cases hl : t.toList with
  | nil => simp
  | cons c cs =>
    rw [hl, tenantIdRe, Bool.and_eq_true, Bool.and_eq_true, List.all_eq_true] at hre
    intro d hd
    rcases List.mem_cons.1 hd with rfl | hd
    · exact isTenantChar_of_alphanum hre.1.1
    · exact hre.2 d hd

theorem TenantIdOk.colon {t : String} (h : TenantIdOk t) : ':' ∉ t.toList := by
  intro hc
  exact absurd (h.all ':' hc) (by decide)

theorem reserved_keyHead (t s : String) : reserved (keyHead t ++ s) = true := by
  rw [reserved, keyHead_append_toList, List.isPrefixOf_iff_prefix]
  exact List.prefix_append _ _

/-- Text up to the first separator determines where it ends. -/
theorem append_sep_inj {c : Char} {u v r r' : List Char} (hu : c ∉ u) (hv : c ∉ v)
    (h : u ++ c :: r = v ++ c :: r') : u = v ∧ r = r' := by
  induction u generalizing v with
  | nil =>
    cases v with
    | nil => exact ⟨rfl, List.tail_eq_of_cons_eq h⟩
    | cons d v => exact absurd (List.head_eq_of_cons_eq h) (List.ne_of_not_mem_cons hv)
  | cons d u ih =>
    cases v with
    | nil => exact absurd (List.head_eq_of_cons_eq h).symm (List.ne_of_not_mem_cons hu)
    | cons e v =>
      obtain ⟨rfl, htail⟩ := List.cons_eq_cons.1 h
      obtain ⟨rfl, hr⟩ := ih (List.not_mem_of_not_mem_cons hu)
        (List.not_mem_of_not_mem_cons hv) htail
      exact ⟨rfl, hr⟩

theorem keyHead_append_inj {t t' s s' : String} (ht : TenantIdOk t) (ht' : TenantIdOk t')
    (h : keyHead t ++ s = keyHead t' ++ s') : t = t' ∧ s = s' := by
  have hl := congrArg String.toList h
  rw [keyHead_append_toList, keyHead_append_toList, List.append_cancel_left_eq,
    show "::scope:".toList = ':' :: ":scope:".toList from rfl, List.cons_append,
    List.cons_append] at hl
  obtain ⟨h1, h2⟩ := append_sep_inj ht.colon ht'.colon hl
  rw [List.append_cancel_left_eq] at h2
  exact ⟨String.toList_injective h1, String.toList_injective h2⟩

/-- Different accepted pairs have different scope keys. -/
theorem Accepted.scopeKey_inj {q : TenantScope} (hp : Accepted d p) (hq : Accepted d q)
    (h : p.scopeKey = q.scopeKey) : p = q := by
  obtain ⟨hpt, hps, hpk⟩ := accepted_iff.1 hp
  obtain ⟨hqt, hqs, hqk⟩ := accepted_iff.1 hq
  suffices hpair : p.tenantId = q.tenantId ∧ p.scope = q.scope by
    exact TenantScope.ext hpair.1 hpair.2 h
  rw [hpk, hqk] at h
  unfold toTenantScopeKey at h
  split at h
  · next hpd =>
    split at h
    · next hqd => exact ⟨hpd.trans hqd.symm, h⟩
    · rw [h] at hps
      exact absurd hps.not_reserved (by simp [reserved_keyHead])
  · split at h
    · rw [← h] at hqs
      exact absurd hqs.not_reserved (by simp [reserved_keyHead])
    · exact keyHead_append_inj hpt hqt h

/-! ## Scope keys give their pairs back -/

theorem dropPrefix?_append_self (u v : List Char) : (u ++ v).dropPrefix? u = some v :=
  List.dropPrefix?_append_of_beq v (beq_self_eq_true u)

theorem fromTenantScopeKey_keyHead {t s d : String} (h : t ≠ d) :
    fromTenantScopeKey (keyHead t ++ s) t d = s := by
  rw [fromTenantScopeKey, if_neg h, String.toList_append, dropPrefix?_append_self]
  exact String.ofList_toList

/-- The key of a pair gives its scope back. -/
theorem fromTenantScopeKey_toTenantScopeKey (scope tenantId defaultTenantId : String) :
    fromTenantScopeKey (toTenantScopeKey scope tenantId defaultTenantId) tenantId
      defaultTenantId = scope := by
  unfold toTenantScopeKey
  split
  · next h => rw [fromTenantScopeKey, if_pos h]
  · next h => exact fromTenantScopeKey_keyHead h

theorem resolveTenantScope_ok {req : TenantRequest} (h : resolveTenantScope req d = .ok p) :
    p.tenantId = trim (req.tenantId.getD d.defaultTenantId) ∧
      p.scope = trim (req.scope.getD d.defaultScope) := by
  unfold resolveTenantScope at h
  obtain ⟨t, ht, h⟩ := bind_eq_ok.1 h
  obtain ⟨s, hs, h⟩ := bind_eq_ok.1 h
  cases h
  exact ⟨(normalizeTenantId_ok.1 ht).1, (normalizeScope_ok.1 hs).1⟩

/-- The default scope plays no role in which pairs are accepted. -/
theorem Accepted.of_defaultScope {defaultScope defaultScope' defaultTenantId : String}
    (h : Accepted ⟨defaultScope', defaultTenantId⟩ p) :
    Accepted ⟨defaultScope, defaultTenantId⟩ p := by
  obtain ⟨htenant, hscope, hkey⟩ := accepted_iff.1 h
  exact accepted_iff.2 ⟨htenant, hscope, hkey⟩

/-- Under one default tenant two requests have one scope key just if they name one tenant and one
scope, and the key gives the scope back. -/
theorem scope_keys_identify {req req' : TenantRequest} {p p' : TenantScope}
    {defaultTenantId defaultScope defaultScope' : String}
    (h : resolveTenantScope req ⟨defaultScope, defaultTenantId⟩ = .ok p)
    (h' : resolveTenantScope req' ⟨defaultScope', defaultTenantId⟩ = .ok p') :
    (p.scopeKey = p'.scopeKey ↔
      trim (req.tenantId.getD defaultTenantId) = trim (req'.tenantId.getD defaultTenantId) ∧
        trim (req.scope.getD defaultScope) = trim (req'.scope.getD defaultScope')) ∧
    p.scopeKey = toTenantScopeKey p.scope p.tenantId defaultTenantId ∧
    fromTenantScopeKey p.scopeKey p.tenantId defaultTenantId = p.scope := by
  have haccepted : Accepted ⟨defaultScope, defaultTenantId⟩ p := ⟨req, h⟩
  have haccepted' : Accepted ⟨defaultScope, defaultTenantId⟩ p' :=
    Accepted.of_defaultScope ⟨req', h'⟩
  have hkey := (accepted_iff.1 haccepted).2.2
  have hkey' := (accepted_iff.1 haccepted').2.2
  have hpair := resolveTenantScope_ok h
  have hpair' := resolveTenantScope_ok h'
  simp only at hkey hkey' hpair hpair'
  refine ⟨?_, hkey, ?_⟩
  · rw [← hpair.1, ← hpair'.1, ← hpair.2, ← hpair'.2]
    constructor
    · intro heq
      have hp := Accepted.scopeKey_inj haccepted haccepted' heq
      exact ⟨congrArg TenantScope.tenantId hp, congrArg TenantScope.scope hp⟩
    · rintro ⟨htenant, hscope⟩
      rw [hkey, hkey', htenant, hscope]
  · rw [hkey]
    exact fromTenantScopeKey_toTenantScopeKey _ _ _

theorem scope_keys_identify_acme :
    ("tenant:acme::scope:s:1" = "s:1" ↔
      trim " acme " = trim "default" ∧ trim "s:1 " = trim "s:1") ∧
    "tenant:acme::scope:s:1" = toTenantScopeKey "s:1" "acme" "default" ∧
    fromTenantScopeKey "tenant:acme::scope:s:1" "acme" "default" = "s:1" :=
  @scope_keys_identify ⟨some " acme ", some "s:1 "⟩ ⟨none, some "s:1"⟩
    ⟨"acme", "s:1", "tenant:acme::scope:s:1"⟩ ⟨"default", "s:1", "s:1"⟩ "default" "main" "main"
    rfl rfl

end AionisCore.Memory
