import AionisCore.Lib.JsString
import AionisCore.Lib.Result
import AionisCore.Lib.Utf16
import AionisCore.Util.Http

/-!
# URIs of objects

`buildAionisUri` and `parseAionisUri` on strings of code units, so with surrogates that are not
paired. `encodeURIComponent` raises an error on such a surrogate.
-/

namespace AionisCore.Memory.Uri

open Lib Lib.Utf16 Util

/-- A string in the source. -/
def text (s : String) : Units := encode s.toList

/-! ## Percent-encoding -/

/-- The characters that `encodeURIComponent` leaves alone. -/
def isUnescaped (c : Char) : Bool := c.isAlphanum || c ∈ "-_.!~*'()".toList

def hexDigit (n : Nat) : UInt16 := UInt16.ofNat (if n < 10 then 48 + n else 55 + n)

def hexValue (u : UInt16) : Option Nat :=
  let n := u.toNat
  if 48 ≤ n ∧ n ≤ 57 then some (n - 48)
  else if 65 ≤ n ∧ n ≤ 70 then some (n - 55)
  else if 97 ≤ n ∧ n ≤ 102 then some (n - 87)
  else none

/-- `%` -/
def percent : UInt16 := 37

def escapeByte (b : UInt8) : Units := [percent, hexDigit (b.toNat / 16), hexDigit (b.toNat % 16)]

def encodeComponentChar (c : Char) : Units :=
  if isUnescaped c then encodeChar c else (Utf8.encodeChar c).flatMap escapeByte

/-- `none` is a `URIError`. -/
def encodeURIComponent (s : Units) : Option Units :=
  (decode s).map (·.flatMap encodeComponentChar)

/-- The characters of some bytes, which must be their encoding. -/
def decodeBytes (bs : List UInt8) : Option Units :=
  if Utf8.encode (Utf8.decode bs) = bs then some (encode (Utf8.decode bs)) else none

/-- Decoding with some bytes read that are not decoded yet. -/
def decodeFrom (bs : List UInt8) : Units → Option Units
  | [] => decodeBytes bs
  | u :: us =>
    if u = percent then
      match us with
      | h :: l :: rest =>
        match hexValue h, hexValue l with
        | some hi, some lo => decodeFrom (bs ++ [UInt8.ofNat (hi * 16 + lo)]) rest
        | _, _ => none
      | _ => none
    else (decodeBytes bs).bind fun pre => (decodeFrom [] us).map (pre ++ u :: ·)

/-- `none` is a `URIError`. -/
def decodeURIComponent (s : Units) : Option Units := decodeFrom [] s

/-! ## URIs -/

def isWhiteUnit (u : UInt16) : Bool := JsString.isWhite (Char.ofNat u.toNat)

def trim (s : Units) : Units := (s.dropWhile isWhiteUnit).rdropWhile isWhiteUnit

def URI_SCHEME : Units := text "aionis://"

/-- `/` -/
def slash : UInt16 := 47

def AIONIS_URI_OBJECT_TYPES : List Units :=
  ["event", "entity", "topic", "rule", "evidence", "concept", "procedure", "self_model", "edge",
    "commit", "decision"].map text

/-- `UUID_RE.test(id)` -/
def isUuid (id : Units) : Bool :=
  id.length == 36 &&
    id.zipIdx.all fun (u, i) => if i ∈ [8, 13, 18, 23] then u == 45 else (hexValue u).isSome

@[ext]
structure AionisUriParts where
  tenantId : Units
  scope : Units
  type : Units
  id : Units
  deriving DecidableEq

abbrev UriRequestError := HttpError (Option (String × Units))

/-- What `buildAionisUri` raises. -/
inductive BuildError where
  | request (error : UriRequestError)
  | uriError
  deriving DecidableEq

def decodeUriSegment (raw : Units) (field : String) : Except UriRequestError Units :=
  match decodeURIComponent raw with
  | none => .error (badRequest "invalid_aionis_uri" s!"URI {field} has invalid encoding" none)
  | some decoded =>
    -- the error raised for a blank segment is caught and replaced
    if trim decoded = [] then
      .error (badRequest "invalid_aionis_uri" s!"URI {field} has invalid encoding" none)
    else .ok (trim decoded)

def parseAionisUri (uri : Units) : Except UriRequestError AionisUriParts :=
  let raw := trim uri
  if ¬ URI_SCHEME <+: raw then
    .error (badRequest "invalid_aionis_uri" "URI must start with aionis://" none)
  else
    match (raw.drop URI_SCHEME.length).splitOn slash with
    | [s₀, s₁, s₂, s₃] => do
      let tenantId ← decodeUriSegment s₀ "tenant_id"
      let scope ← decodeUriSegment s₁ "scope"
      let type ← decodeUriSegment s₂ "type"
      let id ← decodeUriSegment s₃ "id"
      if type ∉ AIONIS_URI_OBJECT_TYPES then
        .error (badRequest "invalid_aionis_uri" "URI type is not supported" (some ("type", type)))
      else if !isUuid id then
        .error (badRequest "invalid_aionis_uri" "URI id must be a UUID" (some ("id", id)))
      else .ok { tenantId, scope, type, id }
    | _ => .error (badRequest "invalid_aionis_uri" "URI must be aionis://tenant/scope/type/id" none)

def AionisUriParts.trimmed (parts : AionisUriParts) : AionisUriParts where
  tenantId := trim parts.tenantId
  scope := trim parts.scope
  type := trim parts.type
  id := trim parts.id

def buildAionisUri (input : AionisUriParts) : Except BuildError Units :=
  let { tenantId, scope, type, id } := input.trimmed
  if tenantId = [] ∨ scope = [] ∨ type = [] ∨ id = [] then
    .error (.request (badRequest "invalid_aionis_uri_parts"
      "tenant_id, scope, type, id are required for URI generation" none))
  else if type ∉ AIONIS_URI_OBJECT_TYPES then
    .error (.request (badRequest "invalid_aionis_uri_parts"
      "type is not supported for URI generation" (some ("type", type))))
  else if !isUuid id then
    .error (.request (badRequest "invalid_aionis_uri_parts"
      "id must be a UUID for URI generation" (some ("id", id))))
  else
    match encodeURIComponent tenantId, encodeURIComponent scope, encodeURIComponent type,
      encodeURIComponent id with
    | some e₀, some e₁, some e₂, some e₃ =>
      .ok (URI_SCHEME ++ [slash].intercalate [e₀, e₁, e₂, e₃])
    | _, _, _, _ => .error .uriError

/-! ## Decoding what was encoded -/

variable {s : Units}

theorem hexValue_hexDigit {n : Nat} (h : n < 16) : hexValue (hexDigit n) = some n := by
  have hall : ∀ n : Fin 16, hexValue (hexDigit n) = some n.1 := by decide
  exact hall ⟨n, h⟩

theorem decodeFrom_escapes (bs bytes : List UInt8) (rest : Units) :
    decodeFrom bs (bytes.flatMap escapeByte ++ rest) = decodeFrom (bs ++ bytes) rest := by
  induction bytes generalizing bs with
  | nil => rw [List.flatMap_nil, List.nil_append, List.append_nil]
  | cons b bytes ih =>
    have hlt : b.toNat < 256 := b.toNat_lt
    have hbyte : UInt8.ofNat (b.toNat / 16 * 16 + b.toNat % 16) = b := by
      rw [Nat.div_add_mod' b.toNat 16, UInt8.ofNat_toNat]
    rw [List.flatMap_cons, List.append_assoc, escapeByte, List.cons_append, List.cons_append,
      List.singleton_append, decodeFrom.eq_def]
    dsimp only
    rw [if_pos rfl, hexValue_hexDigit (by omega), hexValue_hexDigit (by omega)]
    dsimp only
    rw [hbyte, ih, List.append_assoc, List.singleton_append]

theorem toNat_of_isUnescaped {c : Char} (h : isUnescaped c = true) :
    0x21 ≤ c.toNat ∧ c.toNat ≤ 0x7E ∧ c.toNat ≠ 37 ∧ c.toNat ≠ 47 := by
  have hmarks : "-_.!~*'()".toList.all
      fun d => 0x21 ≤ d.toNat ∧ d.toNat ≤ 0x7E ∧ d.toNat ≠ 37 ∧ d.toNat ≠ 47 := by decide
  rw [isUnescaped, Bool.or_eq_true, decide_eq_true_eq] at h
  rcases h with h | h
  · have hrange := JsString.toNat_of_isAlphanum h
    omega
  · exact of_decide_eq_true (List.all_eq_true.1 hmarks c h)

theorem encodeChar_of_isUnescaped {c : Char} (h : isUnescaped c = true) :
    encodeChar c = [UInt16.ofNat c.toNat] ∧ (UInt16.ofNat c.toNat).toNat = c.toNat := by
  have hlt := (toNat_of_isUnescaped h).2.1
  refine ⟨?_, Utf16.toNat_ofNat (by omega)⟩
  unfold encodeChar
  dsimp only
  rw [if_pos (by omega)]

theorem decodeFrom_encoded (ps cs : List Char) :
    decodeFrom (Utf8.encode ps) (cs.flatMap encodeComponentChar) = some (encode (ps ++ cs)) := by
  have hbytes : ∀ ps, decodeBytes (Utf8.encode ps) = some (encode ps) := fun ps => by
    unfold decodeBytes
    rw [Utf8.decode_encode, if_pos rfl]
  induction cs generalizing ps with
  | nil => rw [List.append_nil]; exact hbytes ps
  | cons c cs ih =>
    rw [List.flatMap_cons, encodeComponentChar]
    split
    · next hc =>
      obtain ⟨hunit, hnat⟩ := encodeChar_of_isUnescaped hc
      have hne : UInt16.ofNat c.toNat ≠ percent := fun heq => by
        rw [heq] at hnat
        exact (toNat_of_isUnescaped hc).2.2.1 hnat.symm
      have hrest := ih []
      rw [Utf8.encode_nil, List.nil_append] at hrest
      rw [hunit, List.singleton_append, decodeFrom.eq_def]
      dsimp only
      rw [if_neg hne, hbytes, hrest, encode_append, encode_cons, hunit]
      rfl
    · have hrest := ih (ps ++ [c])
      rw [Utf8.encode_append, Utf8.encode_cons, Utf8.encode_nil, List.append_nil,
        List.append_assoc, List.singleton_append] at hrest
      rw [decodeFrom_escapes]
      exact hrest

theorem decode_encodeURIComponent {e : Units} (h : encodeURIComponent s = some e) :
    decodeURIComponent e = some s := by
  obtain ⟨cs, hcs, rfl⟩ := Option.map_eq_some_iff.1 h
  have hdecoded := decodeFrom_encoded [] cs
  rw [List.nil_append, encode_of_decode hcs] at hdecoded
  exact hdecoded

theorem encodeURIComponent_isSome : (encodeURIComponent s).isSome = true ↔ WellFormed s := by
  unfold encodeURIComponent WellFormed
  rw [Option.isSome_map]

theorem visible_encodeURIComponent {e : Units} (h : encodeURIComponent s = some e) :
    ∀ u ∈ e, u ≠ slash ∧ isWhiteUnit u = false := by
  obtain ⟨cs, -, rfl⟩ := Option.map_eq_some_iff.1 h
  intro u hu
  obtain ⟨c, -, hu⟩ := List.mem_flatMap.1 hu
  unfold encodeComponentChar at hu
  split at hu
  · next hc =>
    obtain ⟨hunit, hnat⟩ := encodeChar_of_isUnescaped hc
    obtain ⟨hlo, hhi, -, hslash⟩ := toNat_of_isUnescaped hc
    rw [hunit, List.mem_singleton] at hu
    subst hu
    refine ⟨fun heq => hslash ?_, ?_⟩
    · rw [← hnat, heq]
      rfl
    · unfold isWhiteUnit
      rw [hnat, Char.ofNat_toNat]
      exact JsString.isWhite_of_printable hlo hhi
  · obtain ⟨b, -, hu⟩ := List.mem_flatMap.1 hu
    have hdigits : ∀ n : Fin 16,
        hexDigit n ≠ slash ∧ isWhiteUnit (hexDigit n) = false := by decide
    have hlt : b.toNat < 256 := b.toNat_lt
    simp only [escapeByte, List.mem_cons, List.not_mem_nil, or_false] at hu
    rcases hu with rfl | rfl | rfl
    · decide
    · exact hdigits ⟨b.toNat / 16, by omega⟩
    · exact hdigits ⟨b.toNat % 16, by omega⟩

/-! ## Trimming -/

theorem trim_trim (s : Units) : trim (trim s) = trim s := by
  have hhead : (trim s).dropWhile isWhiteUnit = trim s := by
    refine List.dropWhile_eq_self_iff.2 fun hl => ?_
    have hprefix : trim s <+: s.dropWhile isWhiteUnit := List.rdropWhile_prefix _ _
    have hget := hprefix.getElem hl
    rw [hget]
    exact List.dropWhile_get_zero_not _ _ _
  have hlast : (trim s).rdropWhile isWhiteUnit = trim s := List.rdropWhile_idempotent _ _
  rw [trim, hhead, hlast]

theorem trim_of_visible (h : ∀ u ∈ s, isWhiteUnit u = false) : trim s = s := by
  have hhead : s.dropWhile isWhiteUnit = s :=
    List.dropWhile_eq_self_iff.2 fun hl => by simp [h _ (List.getElem_mem hl)]
  unfold trim
  rw [hhead]
  exact List.rdropWhile_eq_self_iff.2 fun hl => by simp [h _ (List.getLast_mem hl)]

theorem single_of_white {u : UInt16} (h : isWhiteUnit u = true) : Single u := by
  by_contra hsurrogate
  have hinvalid : ¬ u.toNat.isValidChar := by
    unfold Single at hsurrogate
    unfold Nat.isValidChar
    omega
  unfold isWhiteUnit Char.ofNat at h
  rw [dif_neg hinvalid] at h
  revert h
  decide

theorem wellFormed_trim : WellFormed (trim s) ↔ WellFormed s := by
  have hleft : ∀ u ∈ s.takeWhile isWhiteUnit, Single u := fun u hu =>
    single_of_white (List.mem_takeWhile_imp hu)
  have hright : ∀ u ∈ (s.dropWhile isWhiteUnit).rtakeWhile isWhiteUnit, Single u := fun u hu =>
    single_of_white (List.mem_rtakeWhile_imp hu)
  have hs : s = s.takeWhile isWhiteUnit ++ (trim s ++
      (s.dropWhile isWhiteUnit).rtakeWhile isWhiteUnit) := by
    unfold trim
    rw [List.rdropWhile_append_rtakeWhile, List.takeWhile_append_dropWhile]
  rw [hs, wellFormed_singles_append hleft, wellFormed_append_singles hright, ← hs]

/-! ## Unpaired surrogates -/

variable {bs : List UInt8}

theorem decodeBytes_eq_some {pre : Units} (h : decodeBytes bs = some pre) :
    ∃ cs, pre = encode cs ∧ (bs = [] → pre = []) := by
  unfold decodeBytes at h
  split at h
  · refine ⟨_, (Option.some.inj h).symm, fun hbs => ?_⟩
    rw [← Option.some.inj h, hbs]
    rfl
  · cases h

theorem head?_decodeBytes {pre t : Units} (h : decodeBytes bs = some pre) (hbs : bs ≠ []) :
    ∀ u ∈ (pre ++ t).head?, isLow u = false := by
  unfold decodeBytes at h
  split at h
  · next hencoded =>
    have hne : encode (Utf8.decode bs) ≠ [] := fun hnil => hbs ?_
    · intro u hu
      rw [← Option.some.inj h, List.head?_append_of_ne_nil _ hne] at hu
      exact head?_encode u hu
    · have hchars : Utf8.decode bs = [] := by
        have hdecode := decode_encode (Utf8.decode bs)
        rw [hnil] at hdecode
        exact (Option.some.inj hdecode).symm
      rw [← hencoded, hchars]
      rfl
  · cases h

theorem single_of_hexValue {u : UInt16} {n : Nat} (h : hexValue u = some n) : Single u := by
  unfold hexValue at h
  dsimp only at h
  unfold Single
  split at h
  · omega
  · split at h
    · omega
    · split at h
      · omega
      · cases h

/-- Decoding pairs no surrogate and parts none: what is read is well-formed if what is written
is, behind any units when no byte waits, and otherwise alone. -/
theorem wellFormed_decodeFrom {out : Units} (h : decodeFrom bs s = some out) :
    (bs = [] → ∀ p, WellFormed (p ++ out) ↔ WellFormed (p ++ s)) ∧
      (bs ≠ [] → (∀ u ∈ out.head?, isLow u = false) ∧ (WellFormed out ↔ WellFormed s)) := by
  induction hn : s.length using Nat.strong_induction_on generalizing bs s out with
  | _ n ih =>
    cases s with
    | nil =>
      obtain ⟨cs, rfl, hnil⟩ := decodeBytes_eq_some h
      refine ⟨fun hbs p => by rw [hnil hbs], fun hbs => ⟨?_, ?_⟩⟩
      · have hhead := head?_decodeBytes (t := []) h hbs
        rwa [List.append_nil] at hhead
      · exact iff_of_true (wellFormed_encode cs) rfl
    | cons u us =>
      rw [decodeFrom.eq_def] at h
      dsimp only at h
      rw [List.length_cons] at hn
      split at h
      · next hpercent =>
        split at h
        · next a l rest =>
          split at h
          · next hi lo ha hl =>
            rw [List.length_cons, List.length_cons] at hn
            obtain ⟨hhead, hiff⟩ := (ih rest.length (by omega) h rfl).2 (by simp)
            have hsingles : ∀ x ∈ [u, a, l], Single x := by
              simp only [List.mem_cons, List.not_mem_nil, or_false, forall_eq_or_imp, forall_eq]
              exact ⟨hpercent ▸ .inl (by decide), single_of_hexValue ha, single_of_hexValue hl⟩
            have hescape : WellFormed (u :: a :: l :: rest) ↔ WellFormed rest :=
              wellFormed_singles_append (s := [u, a, l]) hsingles
            refine ⟨fun _ p => ?_, fun _ => ⟨hhead, hiff.trans hescape.symm⟩⟩
            have hlow : ∀ x ∈ (u :: a :: l :: rest).head?, isLow x = false := fun x hx =>
              Option.some.inj hx ▸ Bool.eq_false_iff.2 (hsingles u List.mem_cons_self).not_low
            rw [wellFormed_append hhead, wellFormed_append hlow, hiff, hescape]
          · cases h
        · cases h
      · obtain ⟨pre, hpre, h⟩ := Option.bind_eq_some_iff.1 h
        obtain ⟨rest, hrest, rfl⟩ := Option.map_eq_some_iff.1 h
        have hread := (ih us.length (by omega) hrest rfl).1 rfl
        obtain ⟨cs, hcs, hnil⟩ := decodeBytes_eq_some hpre
        refine ⟨fun hbs p => ?_, fun hbs => ⟨head?_decodeBytes hpre hbs, ?_⟩⟩
        · have hread := hread (p ++ [u])
          rw [hnil hbs, List.nil_append]
          rwa [List.append_assoc, List.append_assoc] at hread
        · rw [hcs, wellFormed_encode_append]
          exact hread [u]

theorem wellFormed_decodeURIComponent {out : Units} (h : decodeURIComponent s = some out) :
    WellFormed out ↔ WellFormed s := (wellFormed_decodeFrom h).1 rfl []

/-! ## The round trip -/

/-- Parts that a URI may have. -/
structure Accepted (parts : AionisUriParts) : Prop where
  tenantId : parts.tenantId ≠ []
  scope : parts.scope ≠ []
  type : parts.type ∈ AIONIS_URI_OBJECT_TYPES
  id : isUuid parts.id = true

section RoundTrip

variable {parts : AionisUriParts} {uri : Units}

theorem wellFormed_of_type {type : Units} (h : type ∈ AIONIS_URI_OBJECT_TYPES) :
    WellFormed type := by
  obtain ⟨name, -, rfl⟩ := List.mem_map.1 h
  exact wellFormed_encode _

theorem wellFormed_of_isUuid {id : Units} (h : isUuid id = true) : WellFormed id := by
  refine wellFormed_singles fun u hu => ?_
  obtain ⟨i, hi, rfl⟩ := List.getElem_of_mem hu
  have hall := List.all_eq_true.1 ((Bool.and_eq_true _ _).mp h).2 (id[i], i)
    (List.mk_mem_zipIdx_iff_getElem?.2 (List.getElem?_eq_getElem hi))
  dsimp only at hall
  split at hall
  · rw [beq_iff_eq.1 hall]
    exact .inl (by decide)
  · obtain ⟨n, hn⟩ := Option.isSome_iff_exists.1 hall
    exact single_of_hexValue hn

theorem Accepted.ne_nil (h : Accepted parts) : parts.type ≠ [] ∧ parts.id ≠ [] := by
  refine ⟨fun hnil => ?_, fun hnil => ?_⟩
  · have htype := h.type
    rw [hnil] at htype
    exact absurd htype (by decide)
  · have hid := h.id
    rw [hnil] at hid
    exact absurd hid (by decide)

/-- Parts that are not accepted are refused, and others raise an error only where a component
cannot be encoded. -/
theorem buildAionisUri_cases (parts : AionisUriParts) :
    ¬ Accepted parts.trimmed ∧ (∃ error, buildAionisUri parts = .error (.request error)) ∨
    Accepted parts.trimmed ∧ (∃ e₀ e₁ e₂ e₃,
      encodeURIComponent parts.trimmed.tenantId = some e₀ ∧
      encodeURIComponent parts.trimmed.scope = some e₁ ∧
      encodeURIComponent parts.trimmed.type = some e₂ ∧
      encodeURIComponent parts.trimmed.id = some e₃ ∧
      buildAionisUri parts = .ok (URI_SCHEME ++ [slash].intercalate [e₀, e₁, e₂, e₃])) ∨
    Accepted parts.trimmed ∧ ¬ (WellFormed parts.tenantId ∧ WellFormed parts.scope) ∧
      buildAionisUri parts = .error .uriError := by
  unfold buildAionisUri
  dsimp only
  split
  · next hempty =>
    refine .inl ⟨fun h => ?_, _, rfl⟩
    exact hempty.elim h.tenantId fun hempty => hempty.elim h.scope fun hempty =>
      hempty.elim h.ne_nil.1 h.ne_nil.2
  · next hempty =>
    simp only [not_or] at hempty
    split
    · next htype => exact .inl ⟨fun h => htype h.type, _, rfl⟩
    · next htype =>
      split
      · next hid => exact .inl ⟨fun h => by simp [h.id] at hid, _, rfl⟩
      · next hid =>
        have haccepted : Accepted parts.trimmed :=
          ⟨hempty.1, hempty.2.1, not_not.1 htype, by simpa using hid⟩
        right
        split
        · next e₀ e₁ e₂ e₃ h₀ h₁ h₂ h₃ =>
          exact .inl ⟨haccepted, e₀, e₁, e₂, e₃, h₀, h₁, h₂, h₃, rfl⟩
        · next hnone =>
          refine .inr ⟨haccepted, fun ⟨htenant, hscope⟩ => ?_, rfl⟩
          obtain ⟨e₀, h₀⟩ := Option.isSome_iff_exists.1
            (encodeURIComponent_isSome.2 (wellFormed_trim.2 htenant))
          obtain ⟨e₁, h₁⟩ := Option.isSome_iff_exists.1
            (encodeURIComponent_isSome.2 (wellFormed_trim.2 hscope))
          obtain ⟨e₂, h₂⟩ := Option.isSome_iff_exists.1
            (encodeURIComponent_isSome.2 (wellFormed_of_type haccepted.type))
          obtain ⟨e₃, h₃⟩ := Option.isSome_iff_exists.1
            (encodeURIComponent_isSome.2 (wellFormed_of_isUuid haccepted.id))
          exact hnone e₀ e₁ e₂ e₃ h₀ h₁ h₂ h₃

theorem decodeUriSegment_encoded {s e : Units} (h : encodeURIComponent (trim s) = some e)
    (hne : trim s ≠ []) (field : String) : decodeUriSegment e field = .ok (trim s) := by
  unfold decodeUriSegment
  rw [decode_encodeURIComponent h]
  dsimp only
  rw [trim_trim, if_neg hne]

/-- A URI that is built parses to the trimmed parts. -/
theorem parseAionisUri_build (h : buildAionisUri parts = .ok uri) :
    parseAionisUri uri = .ok parts.trimmed := by
  rcases buildAionisUri_cases parts with ⟨-, _, hbuild⟩ | ⟨haccepted, e₀, e₁, e₂, e₃, h₀, h₁, h₂,
    h₃, hbuild⟩ | ⟨-, -, hbuild⟩ <;> rw [hbuild] at h
  · cases h
  · obtain rfl := Except.ok.inj h
    have hencoded : ∀ e ∈ [e₀, e₁, e₂, e₃], ∀ u ∈ e, u ≠ slash ∧ isWhiteUnit u = false := by
      simp only [List.mem_cons, List.not_mem_nil, or_false, forall_eq_or_imp, forall_eq]
      exact ⟨visible_encodeURIComponent h₀, visible_encodeURIComponent h₁,
        visible_encodeURIComponent h₂, visible_encodeURIComponent h₃⟩
    have hvisible : ∀ u ∈ URI_SCHEME ++ [slash].intercalate [e₀, e₁, e₂, e₃],
        isWhiteUnit u = false := by
      intro u hu
      rcases List.mem_append.1 hu with hu | hu
      · have hscheme : URI_SCHEME.all (!isWhiteUnit ·) = true := by decide
        simpa using List.all_eq_true.1 hscheme u hu
      · change u ∈ e₀ ++ ([slash] ++ (e₁ ++ ([slash] ++ (e₂ ++ ([slash] ++ (e₃ ++ [])))))) at hu
        have hslash : isWhiteUnit slash = false := by decide
        simp only [List.mem_append, List.mem_singleton, List.not_mem_nil, or_false] at hu
        rcases hu with hu | rfl | hu | rfl | hu | rfl | hu
        · exact (hencoded e₀ (by simp) u hu).2
        · exact hslash
        · exact (hencoded e₁ (by simp) u hu).2
        · exact hslash
        · exact (hencoded e₂ (by simp) u hu).2
        · exact hslash
        · exact (hencoded e₃ (by simp) u hu).2
    have hsplit : ([slash].intercalate [e₀, e₁, e₂, e₃]).splitOn slash = [e₀, e₁, e₂, e₃] :=
      List.splitOn_intercalate slash (fun e he hmem => (hencoded e he slash hmem).1 rfl) nofun
    unfold parseAionisUri
    dsimp only
    rw [trim_of_visible hvisible, if_neg (not_not.2 (List.prefix_append _ _)), List.drop_left,
      hsplit]
    dsimp only
    rw [decodeUriSegment_encoded h₀ haccepted.tenantId, decodeUriSegment_encoded h₁ haccepted.scope,
      decodeUriSegment_encoded h₂ haccepted.ne_nil.1,
      decodeUriSegment_encoded h₃ haccepted.ne_nil.2]
    dsimp only [bind, Except.bind]
    have htype : trim parts.type ∈ AIONIS_URI_OBJECT_TYPES := haccepted.type
    have hid : isUuid (trim parts.id) = true := haccepted.id
    rw [if_neg (not_not.2 htype), hid]
    rfl
  · cases h

theorem decodeUriSegment_ok {s v : Units} {field : String}
    (h : decodeUriSegment s field = .ok v) :
    trim v = v ∧ v ≠ [] ∧ (WellFormed v ↔ WellFormed s) := by
  unfold decodeUriSegment at h
  split at h
  · cases h
  · next decoded hdecoded =>
    split at h
    · cases h
    · next hne =>
      obtain rfl := Except.ok.inj h
      exact ⟨trim_trim decoded, hne, wellFormed_trim.trans (wellFormed_decodeURIComponent hdecoded)⟩

/-- What is parsed is accepted and trimmed, and the URI is well-formed if the parts are. -/
theorem parseAionisUri_ok (h : parseAionisUri uri = .ok parts) :
    Accepted parts ∧ parts.trimmed = parts ∧
      (WellFormed uri ↔ WellFormed parts.tenantId ∧ WellFormed parts.scope) := by
  unfold parseAionisUri at h
  dsimp only at h
  split at h
  · cases h
  · next hscheme =>
    split at h
    · next s₀ s₁ s₂ s₃ hsplit =>
      obtain ⟨tenantId, h₀, h⟩ := bind_eq_ok.1 h
      obtain ⟨scope, h₁, h⟩ := bind_eq_ok.1 h
      obtain ⟨type, h₂, h⟩ := bind_eq_ok.1 h
      obtain ⟨id, h₃, h⟩ := bind_eq_ok.1 h
      obtain ⟨htrim₀, hne₀, hiff₀⟩ := decodeUriSegment_ok h₀
      obtain ⟨htrim₁, hne₁, hiff₁⟩ := decodeUriSegment_ok h₁
      obtain ⟨htrim₂, -, hiff₂⟩ := decodeUriSegment_ok h₂
      obtain ⟨htrim₃, -, hiff₃⟩ := decodeUriSegment_ok h₃
      split at h
      · cases h
      · next htype =>
        split at h
        · cases h
        · next hid =>
          obtain rfl := Except.ok.inj h
          have hid : isUuid id = true := by simpa using hid
          refine ⟨⟨hne₀, hne₁, not_not.1 htype, hid⟩,
            AionisUriParts.ext htrim₀ htrim₁ htrim₂ htrim₃, ?_⟩
          have hraw : trim uri =
              URI_SCHEME ++ (s₀ ++ slash :: (s₁ ++ slash :: (s₂ ++ slash :: s₃))) := by
            obtain ⟨rest, hrest⟩ := not_not.1 hscheme
            rw [← hrest, List.drop_left] at hsplit
            have hjoined := @List.intercalate_splitOn _ rest _ _ slash
            rw [hsplit] at hjoined
            rw [← hrest, ← hjoined]
            simp [List.intercalate]
          have hslash : Single slash := .inl (by decide)
          rw [← wellFormed_trim, hraw, URI_SCHEME, text, wellFormed_encode_append,
            wellFormed_append_cons hslash, wellFormed_append_cons hslash,
            wellFormed_append_cons hslash, ← hiff₀, ← hiff₁, ← hiff₂, ← hiff₃]
          have h₂₃ := And.intro (wellFormed_of_type (not_not.1 htype)) (wellFormed_of_isUuid hid)
          rw [and_iff_left h₂₃]
    · cases h

/-- Building raises nothing but bad requests if and only if no surrogate of the tenant or the
scope of accepted parts is unpaired. A URI that is built parses to the trimmed parts, so no
other parts have it. And what a URI parses to can be built and parsed again if and only if no
surrogate of the URI is unpaired. -/
theorem aionisUri_roundTrip_iff (parts parts' : AionisUriParts) (uri : Units) :
    (buildAionisUri parts ≠ .error .uriError ↔
      (Accepted parts.trimmed → WellFormed parts.tenantId ∧ WellFormed parts.scope)) ∧
    (buildAionisUri parts = .ok uri → parseAionisUri uri = .ok parts.trimmed ∧
      (buildAionisUri parts' = .ok uri → parts'.trimmed = parts.trimmed)) ∧
    (parseAionisUri uri = .ok parts →
      ((∃ uri', buildAionisUri parts = .ok uri' ∧ parseAionisUri uri' = .ok parts) ↔
        WellFormed uri)) := by
  have hraises : ∀ parts : AionisUriParts, buildAionisUri parts ≠ .error .uriError ↔
      (Accepted parts.trimmed → WellFormed parts.tenantId ∧ WellFormed parts.scope) := by
    intro parts
    rcases buildAionisUri_cases parts with ⟨hrefused, _, hbuild⟩ | ⟨-, e₀, e₁, _, _, h₀, h₁, -, -,
      hbuild⟩ | ⟨haccepted, hill, hbuild⟩ <;> rw [hbuild]
    · exact iff_of_true nofun fun h => absurd h hrefused
    · refine iff_of_true nofun fun _ => ⟨?_, ?_⟩
      · exact wellFormed_trim.1 (encodeURIComponent_isSome.1 (Option.isSome_of_eq_some h₀))
      · exact wellFormed_trim.1 (encodeURIComponent_isSome.1 (Option.isSome_of_eq_some h₁))
    · exact iff_of_false (fun h => h rfl) fun h => hill (h haccepted)
  refine ⟨hraises parts, fun hbuild => ⟨parseAionisUri_build hbuild, fun hbuild' => ?_⟩,
    fun hparse => ?_⟩
  · have hsame := (parseAionisUri_build hbuild').symm.trans (parseAionisUri_build hbuild)
    exact Except.ok.inj hsame
  · obtain ⟨haccepted, htrimmed, hiff⟩ := parseAionisUri_ok hparse
    rw [hiff]
    refine ⟨?_, fun hwell => ?_⟩
    · rintro ⟨uri', hbuild, -⟩
      refine (hraises parts).1 (fun herror => ?_) (htrimmed.symm ▸ haccepted)
      rw [hbuild] at herror
      cases herror
    · rcases buildAionisUri_cases parts with ⟨hrefused, -⟩ | ⟨-, _, _, _, _, -, -, -, -, hbuild⟩ |
        ⟨-, hill, -⟩
      · exact absurd (htrimmed.symm ▸ haccepted) hrefused
      · exact ⟨_, hbuild, htrimmed ▸ parseAionisUri_build hbuild⟩
      · exact absurd hwell hill

/-- A scope of one surrogate. -/
theorem unpaired_surrogate_raises :
    buildAionisUri ⟨text "default", [0xD800], text "event",
      text "00000000-0000-4000-8000-000000000000"⟩ = .error .uriError := by
  set_option maxRecDepth 4000 in
  decide +kernel

end RoundTrip

end AionisCore.Memory.Uri
