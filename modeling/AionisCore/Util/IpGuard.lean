import AionisCore.Lib.IpAddress

/-!
# Trusted proxies

Which addresses the guard admits. An address or a rule is first stripped of white space, of
brackets, of the prefix of an IPv4 address in IPv6 and of a port; then `isIpv4InCidr` compares
dotted quads. `toLowerCase` is the function of the language.
-/

namespace AionisCore.Util

open Lib Lib.JsString Lib.IpAddress

section Guard

variable (toLowerCase : String → String)

def normalizeIp (input : String) : String :=
  let raw := (toLowerCase (trim input)).toList
  let raw := if raw.head? = some '[' ∧ ']' ∈ raw then raw.tail.takeWhile (· ≠ ']') else raw
  let raw := (raw.dropPrefix? "::ffff:".toList).getD raw
  String.ofList (if '.' ∈ raw ∧ ':' ∈ raw then raw.takeWhile (· ≠ ':') else raw)

/-- A part of an address, `/^\d+$/` and at most 255. -/
def ipv4Part (part : List Char) : Option Int :=
  if IsDigits part then
    (number (String.ofList part)).integer?.bind fun n => if n < 0 ∨ 255 < n then none else some n
  else none

/-- The loop over the parts; `out` is a signed 32-bit integer. -/
def parseIpv4Int (input : String) : Option (BitVec 32) :=
  let parts := (normalizeIp toLowerCase input).toList.splitOn '.'
  if parts.length ≠ 4 then none
  else (parts.mapM ipv4Part).map fun ns =>
    ns.foldl (fun out n => out <<< 8 ||| BitVec.ofInt 32 n) 0

def isIpv4InCidr (ip cidr : String) : Bool :=
  let parts := cidr.toList.splitOn '/'
  let base := parseIpv4Int toLowerCase (String.ofList (parts.getD 0 []))
  let ipInt := parseIpv4Int toLowerCase ip
  -- `Number(undefined)` is no number
  let length := parts[1]?.bind fun prefixRaw => (number (String.ofList prefixRaw)).integer?
  match base, ipInt, length with
  | some base, some ipInt, some length =>
    if length < 0 ∨ 32 < length then false
    else if length = 0 then true
    else
      let mask := (0xffffffff : BitVec 32) <<< (32 - length).toNat
      base &&& mask = ipInt &&& mask
  | _, _, _ => false

def parseTrustedProxyCidrs (raw : String) : List String :=
  ((raw.toList.splitOn ',').map fun value => normalizeIp toLowerCase (String.ofList value)).filter
    (· ≠ "")

def ipAllowed (ip : String) (allowlist : List String) : Bool :=
  let normalizedIp := normalizeIp toLowerCase ip
  normalizedIp ≠ "" && allowlist.any fun entryRaw =>
    let entry := normalizeIp toLowerCase entryRaw
    entry ≠ "" && if '/' ∈ entry.toList then isIpv4InCidr toLowerCase normalizedIp entry
      else entry = normalizedIp

/-- A header, as a text; of a list of texts the first one. -/
def headerText : Option Json → String
  | some (.str s) => s
  | some (.arr (.str s :: _)) => s
  | _ => ""

def forwardedClientIp (headers : Json.Fields) : String :=
  let xffValue := headerText (headers.lookup "x-forwarded-for")
  let ip :=
    if trim xffValue = "" then ""
    else normalizeIp toLowerCase (String.ofList ((xffValue.toList.splitOn ',').getD 0 []))
  if ip ≠ "" then ip
  else normalizeIp toLowerCase (headerText (headers.lookup "x-real-ip"))

def resolveTrustedClientIp (remoteAddress : Option String) (headers : Json.Fields)
    (trustedProxyCidrs : List String) : String :=
  let remoteIp := normalizeIp toLowerCase (remoteAddress.getD "")
  if remoteIp = "" then ""
  else if ipAllowed toLowerCase remoteIp trustedProxyCidrs then
    let forwarded := forwardedClientIp toLowerCase headers
    if forwarded ≠ "" then forwarded else remoteIp
  else remoteIp

end Guard

/-! ## Dotted quads -/

/-- Four parts in decimal digits, each at most 255, and the address they make up. -/
def DottedQuad (t : List Char) (value : Nat) : Prop :=
  ∃ ps : List (List Char), ps.length = 4 ∧ t = ['.'].intercalate ps ∧
    (∀ p ∈ ps, IsDigits p ∧ readDigits p ≤ 255) ∧ pack 8 (ps.map readDigits) = value

theorem integer?_number_isDigits {p : List Char} (h : IsDigits p) {k : Nat} (hk : k < 2 ^ 52) :
    (number (String.ofList p)).integer? = some (k : Int) ↔ readDigits p = k := by
  have hvisible : ∀ c ∈ p, isWhite c = false := fun c hc =>
    isWhite_of_isAddressChar (isAddressChar_of_isDigit (h.2 c hc))
  have htrim : trimChars p = p := trimChars_eq_self
    (fun c hc => hvisible c (List.mem_of_mem_head? hc))
    fun c hc => hvisible c (List.mem_of_mem_getLast? hc)
  have hnumber := @integer?_number_digits (String.ofList p) k
    (by rwa [String.toList_ofList, htrim]) hk
  rwa [String.toList_ofList, htrim] at hnumber

theorem ipv4Part_eq_some {part : List Char} {n : Int} :
    ipv4Part part = some n ↔ IsDigits part ∧ readDigits part ≤ 255 ∧ n = readDigits part := by
  unfold ipv4Part
  split
  · next hdigits =>
    have hread := fun k hk => @integer?_number_isDigits part hdigits k hk
    simp only [Option.bind_eq_some_iff, true_and, hdigits]
    refine ⟨?_, fun ⟨hle, hn⟩ => ⟨readDigits part, (hread _ (by omega)).2 rfl, ?_⟩⟩
    · rintro ⟨m, hm, hn⟩
      split at hn
      · cases hn
      · next hrange =>
        obtain rfl := Option.some.inj hn
        have hnat : ((m.toNat : Nat) : Int) = m := by omega
        rw [← hnat, hread _ (by omega)] at hm
        omega
    · rw [if_neg (by omega), hn]
  · next hdigits => exact iff_of_false nofun fun h => hdigits h.1

theorem mapM_ipv4Part_eq_some {ps : List (List Char)} {ns : List Int} :
    ps.mapM ipv4Part = some ns ↔
      (∀ p ∈ ps, IsDigits p ∧ readDigits p ≤ 255) ∧ ns = ps.map fun p => (readDigits p : Int) := by
  induction ps generalizing ns with
  | nil => simp [eq_comm]
  | cons p ps ih =>
    simp only [List.mapM_cons, Option.bind_eq_bind, Option.bind_eq_some_iff, Option.pure_def,
      ipv4Part_eq_some, ih, Option.some.injEq, List.forall_mem_cons, List.map_cons]
    refine ⟨?_, fun ⟨⟨⟨hd, hle⟩, hps⟩, hns⟩ => ⟨_, ⟨hd, hle, rfl⟩, _, ⟨hps, rfl⟩, hns.symm⟩⟩
    rintro ⟨n, ⟨hd, hle, rfl⟩, ns, ⟨hps, rfl⟩, rfl⟩
    exact ⟨⟨⟨hd, hle⟩, hps⟩, rfl⟩

/-- One turn of the loop of `parseIpv4Int`. -/
theorem toNat_shift_or {out : BitVec 32} {n : Nat} (hout : out.toNat < 2 ^ 24) (hn : n < 2 ^ 8) :
    (out <<< 8 ||| BitVec.ofInt 32 (n : Int)).toNat = out.toNat * 2 ^ 8 + n := by
  have hshift : (out.toNat <<< 8) % 2 ^ 32 = out.toNat <<< 8 := by
    rw [Nat.shiftLeft_eq]
    omega
  rw [BitVec.toNat_or, BitVec.toNat_shiftLeft, hshift, BitVec.ofInt_natCast, BitVec.toNat_ofNat,
    Nat.mod_eq_of_lt (by omega), ← Nat.shiftLeft_add_eq_or_of_lt hn, Nat.shiftLeft_eq]

theorem toNat_foldl_shift_or {ns : List Nat} {out : BitVec 32} (hlen : ns.length ≤ 4)
    (hns : ∀ n ∈ ns, n < 2 ^ 8) (hout : out.toNat < 2 ^ (8 * (4 - ns.length))) :
    ((ns.map Int.ofNat).foldl (fun (out : BitVec 32) n => out <<< 8 ||| BitVec.ofInt 32 n)
      out).toNat = ns.foldl (fun v n => v * 2 ^ 8 + n) out.toNat := by
  induction ns generalizing out with
  | nil => rfl
  | cons n ns ih =>
    rw [List.length_cons] at hlen hout
    have hn : n < 2 ^ 8 := hns n List.mem_cons_self
    have hpow : 2 ^ (8 * (4 - ns.length)) = 2 ^ (8 * (4 - (ns.length + 1))) * 2 ^ 8 := by
      rw [← Nat.pow_add]
      congr 1
      omega
    have hbound : 2 ^ (8 * (4 - (ns.length + 1))) ≤ 2 ^ 24 :=
      Nat.pow_le_pow_right (by omega) (by omega)
    have hturn := toNat_shift_or (hout.trans_le hbound) hn
    simp only [List.map_cons, List.foldl_cons]
    rw [ih (by omega) (fun m hm => hns m (List.mem_cons_of_mem n hm)), Int.ofNat_eq_natCast,
      hturn]
    rw [Int.ofNat_eq_natCast, hturn]
    omega

variable {toLowerCase : String → String}

theorem DottedQuad.lt {t : List Char} {v : Nat} (h : DottedQuad t v) : v < 2 ^ 32 := by
  obtain ⟨ps, hlen, -, hparts, rfl⟩ := h
  have hpack : pack 8 (ps.map readDigits) < 2 ^ (8 * (ps.map readDigits).length) := by
    refine pack_lt fun n hn => ?_
    obtain ⟨p, hp, rfl⟩ := List.mem_map.1 hn
    have hle := (hparts p hp).2
    omega
  rwa [List.length_map, hlen] at hpack

/-- An address is read as the dotted quad that its normal form is. -/
theorem parseIpv4Int_eq_some {input : String} {out : BitVec 32} :
    parseIpv4Int toLowerCase input = some out ↔
      DottedQuad (normalizeIp toLowerCase input).toList out.toNat := by
  unfold parseIpv4Int DottedQuad
  generalize (normalizeIp toLowerCase input).toList = t
  have hfold : ∀ ps : List (List Char), ps.length = 4 →
      (∀ p ∈ ps, IsDigits p ∧ readDigits p ≤ 255) →
      ((ps.map fun p => (readDigits p : Int)).foldl
        (fun (out : BitVec 32) n => out <<< 8 ||| BitVec.ofInt 32 n) 0).toNat =
        pack 8 (ps.map readDigits) := by
    intro ps hlen hparts
    have hns : ∀ n ∈ ps.map readDigits, n < 2 ^ 8 := by
      intro n hn
      obtain ⟨p, hp, rfl⟩ := List.mem_map.1 hn
      have hle := (hparts p hp).2
      omega
    have hrun := @toNat_foldl_shift_or (ps.map readDigits) 0 (by simp [hlen]) hns (by simp [hlen])
    rwa [List.map_map] at hrun
  dsimp only
  split
  · next hlen =>
    refine iff_of_false nofun ?_
    rintro ⟨ps, hps, rfl, hparts, -⟩
    refine hlen ?_
    rw [List.splitOn_intercalate '.' (fun p hp hdot => ?_) (by rintro rfl; cases hps), hps]
    exact absurd ((hparts p hp).1.2 _ hdot) (by decide)
  · next hlen =>
    rw [not_not] at hlen
    simp only [Option.map_eq_some_iff, mapM_ipv4Part_eq_some]
    refine ⟨?_, ?_⟩
    · rintro ⟨ns, ⟨hparts, rfl⟩, rfl⟩
      exact ⟨_, hlen, (List.intercalate_splitOn '.').symm, hparts, (hfold _ hlen hparts).symm⟩
    · rintro ⟨ps, hps, rfl, hparts, hvalue⟩
      rw [List.splitOn_intercalate '.' (fun p hp hdot => ?_) (by rintro rfl; cases hps)]
      · refine ⟨_, ⟨hparts, rfl⟩, BitVec.eq_of_toNat_eq ?_⟩
        rw [hfold ps hps hparts, hvalue]
      · exact absurd ((hparts p hp).1.2 _ hdot) (by decide)

/-! ## Rules -/

variable (toLowerCase) in
/-- The addresses of the text and of the rule's base agree on as many bits as the number says that
stands behind the slash. -/
def AgreesOn (ip cidr : String) : Prop :=
  ∃ (base p : List Char) (rest : List (List Char)) (length v w : Nat),
    cidr.toList.splitOn '/' = base :: p :: rest ∧
    (number (String.ofList p)).integer? = some (length : Int) ∧ length ≤ 32 ∧
    DottedQuad (normalizeIp toLowerCase (String.ofList base)).toList v ∧
    DottedQuad (normalizeIp toLowerCase ip).toList w ∧
    v / 2 ^ (32 - length) = w / 2 ^ (32 - length)

variable {ip cidr : String}

theorem and_mask_eq_iff {v w : BitVec 32} {s : Nat} :
    v &&& (0xffffffff : BitVec 32) <<< s = w &&& (0xffffffff : BitVec 32) <<< s ↔
      v.toNat / 2 ^ s = w.toNat / 2 ^ s := by
  have hmask : ((0xffffffff : BitVec 32) <<< s).toNat = (2 ^ 32 - 1) <<< s &&& (2 ^ 32 - 1) := by
    rw [BitVec.toNat_shiftLeft, Nat.and_two_pow_sub_one_eq_mod]
    rfl
  rw [← BitVec.toNat_inj, BitVec.toNat_and, BitVec.toNat_and, hmask]
  exact and_topBits_eq_iff w.isLt v.isLt

theorem isIpv4InCidr_iff :
    isIpv4InCidr toLowerCase ip cidr = true ↔ AgreesOn toLowerCase ip cidr := by
  unfold isIpv4InCidr AgreesOn
  dsimp only
  cases hsplit : cidr.toList.splitOn '/' with
  | nil => exact absurd hsplit (List.splitOn_ne_nil '/' _)
  | cons base parts =>
    cases parts with
    | nil =>
      refine iff_of_false ?_ fun ⟨_, _, _, _, _, _, h, _⟩ => by cases h
      simp
    | cons p rest =>
      simp only [List.getD_cons_zero, List.getElem?_cons_succ, List.getElem?_cons_zero,
        Option.bind_some]
      refine ⟨fun h => ?_, ?_⟩
      · split at h
        · next v w n hbase hip hn =>
          rw [parseIpv4Int_eq_some] at hbase hip
          split at h
          · cases h
          · next hrange =>
            obtain ⟨length, rfl⟩ := Int.eq_ofNat_of_zero_le (by omega : 0 ≤ n)
            refine ⟨base, p, rest, length, v.toNat, w.toNat, rfl, hn, by omega, hbase, hip, ?_⟩
            split at h
            · next hzero =>
              rw [show length = 0 by omega, Nat.div_eq_of_lt hbase.lt, Nat.div_eq_of_lt hip.lt]
            · rw [decide_eq_true_iff, and_mask_eq_iff] at h
              rwa [show (32 - (length : Int)).toNat = 32 - length by omega] at h
        · cases h
      · rintro ⟨_, _, _, length, v, w, heq, hn, hle, hbase, hip, hagree⟩
        cases heq
        have hv : (BitVec.ofNat 32 v).toNat = v := Nat.mod_eq_of_lt hbase.lt
        have hw : (BitVec.ofNat 32 w).toNat = w := Nat.mod_eq_of_lt hip.lt
        rw [← hv] at hbase
        rw [← hw] at hip
        rw [parseIpv4Int_eq_some.2 hbase, parseIpv4Int_eq_some.2 hip, hn]
        dsimp only
        rw [if_neg (by omega)]
        split
        · rfl
        · rw [decide_eq_true_iff, and_mask_eq_iff, hv, hw,
            show (32 - (length : Int)).toNat = 32 - length by omega]
          exact hagree

/-- Behind the first slash there are decimal digits and nothing else. -/
def DigitsBehindSlash (cidr : String) : Prop :=
  ∀ base p, cidr.toList = base ++ '/' :: p → '/' ∉ base → IsDigits p

variable (toLowerCase) in
/-- The text is a dotted quad, a slash and a prefix length in decimal digits, and the address
agrees with the quad on the prefix. -/
def Covers (cidr ip : String) : Prop :=
  ∃ base p v w, cidr.toList = base ++ '/' :: p ∧ '/' ∉ base ∧ IsDigits p ∧ readDigits p ≤ 32 ∧
    DottedQuad (normalizeIp toLowerCase (String.ofList base)).toList v ∧
    DottedQuad (normalizeIp toLowerCase ip).toList w ∧
    v / 2 ^ (32 - readDigits p) = w / 2 ^ (32 - readDigits p)

theorem splitOn_slash {base p : List Char} (hbase : '/' ∉ base) (hp : IsDigits p) :
    (base ++ '/' :: p).splitOn '/' = [base, p] := by
  have hjoin : base ++ '/' :: p = ['/'].intercalate [base, p] := by
    rw [List.intercalate_cons_cons, List.intercalate_singleton]
    simp
  rw [hjoin, List.splitOn_intercalate '/' (fun q hq => ?_) (by simp)]
  rcases List.mem_cons.1 hq with rfl | hq
  · exact hbase
  · obtain rfl := List.mem_singleton.1 hq
    exact fun hslash => absurd (hp.2 _ hslash) (by decide)

theorem slash_mem_of_splitOn {t base p : List Char} {rest : List (List Char)}
    (h : t.splitOn '/' = base :: p :: rest) : '/' ∈ t := by
  by_contra hslash
  have hone : t.splitOn '/' = [t] := by
    have hjoin : (['/'].intercalate [t]).splitOn '/' = [t] :=
      List.splitOn_intercalate '/' (by simpa using hslash) (by simp)
    rwa [List.intercalate_singleton] at hjoin
  rw [hone] at h
  cases h

/-- A rule with digits behind its slash admits what it covers. -/
theorem isIpv4InCidr_iff_covers (h : DigitsBehindSlash cidr) :
    isIpv4InCidr toLowerCase ip cidr = true ↔ Covers toLowerCase cidr ip := by
  rw [isIpv4InCidr_iff]
  refine ⟨?_, ?_⟩
  · rintro ⟨base, p, rest, length, v, w, hsplit, hn, hle, hbase, hip, hagree⟩
    obtain ⟨front, back, hcidr, hfront⟩ :=
      List.eq_append_cons_of_mem (slash_mem_of_splitOn hsplit)
    have hback := h front back hcidr hfront
    rw [hcidr, splitOn_slash hfront hback] at hsplit
    cases hsplit
    obtain rfl := (integer?_number_isDigits hback (by omega)).1 hn
    exact ⟨base, p, v, w, hcidr, hfront, hback, hle, hbase, hip, hagree⟩
  · rintro ⟨base, p, v, w, hcidr, hslash, hp, hle, hbase, hip, hagree⟩
    refine ⟨base, p, [], readDigits p, v, w, ?_, ?_, hle, hbase, hip, hagree⟩
    · rw [hcidr, splitOn_slash hslash hp]
    · exact (integer?_number_isDigits hp (by omega)).2 rfl

theorem Covers.slash_mem (h : Covers toLowerCase cidr ip) : '/' ∈ cidr.toList := by
  obtain ⟨base, p, v, w, hcidr, -⟩ := h
  rw [hcidr]
  simp

/-- Headers change the client only where the peer is on the list or agrees with a rule of it. -/
theorem headers_believed {remoteAddress : Option String} {headers headers' : Json.Fields}
    {cidrs : List String}
    (h : resolveTrustedClientIp toLowerCase remoteAddress headers cidrs ≠
      resolveTrustedClientIp toLowerCase remoteAddress headers' cidrs) :
    ∃ peer, peer = normalizeIp toLowerCase (normalizeIp toLowerCase (remoteAddress.getD "")) ∧
      ∃ entry ∈ cidrs, normalizeIp toLowerCase entry = peer ∨
        AgreesOn toLowerCase peer (normalizeIp toLowerCase entry) := by
  refine ⟨_, rfl, ?_⟩
  by_contra hnone
  have hdenied : ipAllowed toLowerCase (normalizeIp toLowerCase (remoteAddress.getD "")) cidrs =
      false := by
    refine Bool.eq_false_iff.2 fun hallowed => hnone ?_
    unfold ipAllowed at hallowed
    simp only [Bool.and_eq_true, List.any_eq_true] at hallowed
    obtain ⟨-, entry, hentry, -, hmatch⟩ := hallowed
    refine ⟨entry, hentry, ?_⟩
    split at hmatch
    · exact .inr (isIpv4InCidr_iff.1 hmatch)
    · exact .inl (of_decide_eq_true hmatch)
  refine h ?_
  simp only [resolveTrustedClientIp, hdenied, Bool.false_eq_true, if_false]

/-- What the guard admits: an admitted address agrees with the rule's on as many bits as the
number behind the slash says, and where digits stand behind the slash, all that a rule covers is
admitted and nothing else. -/
theorem guard_admits (toLowerCase : String → String) (ip cidr : String)
    (allowlist : List String) :
    (isIpv4InCidr toLowerCase ip cidr = true → AgreesOn toLowerCase ip cidr) ∧
    (DigitsBehindSlash cidr →
      (isIpv4InCidr toLowerCase ip cidr = true ↔ Covers toLowerCase cidr ip)) ∧
    ((∀ entry ∈ allowlist, DigitsBehindSlash (normalizeIp toLowerCase entry)) →
      (ipAllowed toLowerCase ip allowlist = true ↔ normalizeIp toLowerCase ip ≠ "" ∧
        ∃ entry ∈ allowlist,
          normalizeIp toLowerCase entry = normalizeIp toLowerCase ip ∧
            '/' ∉ (normalizeIp toLowerCase entry).toList ∨
          Covers toLowerCase (normalizeIp toLowerCase entry) (normalizeIp toLowerCase ip))) := by
  refine ⟨isIpv4InCidr_iff.1, isIpv4InCidr_iff_covers, fun h => ?_⟩
  unfold ipAllowed
  simp only [Bool.and_eq_true, decide_eq_true_iff, List.any_eq_true]
  refine and_congr_right fun hip => exists_congr fun entry => and_congr_right fun hentry => ?_
  by_cases hslash : '/' ∈ (normalizeIp toLowerCase entry).toList
  · have hne : normalizeIp toLowerCase entry ≠ "" := by
      rintro heq
      rw [heq] at hslash
      cases hslash
    simp only [hslash, not_true_eq_false, and_false, false_or, if_true, hne, ne_eq,
      not_false_eq_true, true_and]
    exact isIpv4InCidr_iff_covers (h entry hentry)
  · simp only [hslash, not_false_eq_true, and_true, if_false, decide_eq_true_iff]
    refine ⟨fun heq => .inl heq.2, ?_⟩
    rintro (heq | hcovers)
    · exact ⟨heq ▸ hip, heq⟩
    · exact absurd hcovers.slash_mem hslash

/-- Lower case, for ASCII letters. -/
def lowerAscii (s : String) : String := String.ofList (s.toList.map Char.toLower)

theorem covers_ten : Covers lowerAscii "10.0.0.0/8" "10.1.2.3" := by
  refine ⟨"10.0.0.0".toList, "8".toList, 10 * 2 ^ 24, 10 * 2 ^ 24 + 2 ^ 16 + 2 * 2 ^ 8 + 3, rfl,
    by decide, by decide, by decide, ?_, ?_, by decide⟩
  · exact ⟨[['1', '0'], ['0'], ['0'], ['0']], rfl, by decide, by decide, by decide⟩
  · exact ⟨[['1', '0'], ['1'], ['2'], ['3']], rfl, by decide, by decide, by decide⟩

theorem headers_believed_ten : ∃ peer, peer = "10.1.2.3" ∧ ∃ entry ∈ ["10.0.0.0/8"],
    normalizeIp lowerAscii entry = peer ∨ AgreesOn lowerAscii peer (normalizeIp lowerAscii entry) :=
  @headers_believed lowerAscii (some "10.1.2.3") [("x-real-ip", .str "1.1.1.1")] []
    ["10.0.0.0/8"] (by decide +kernel)

theorem guard_admits_ten : ipAllowed lowerAscii "10.1.2.3" ["10.0.0.0/8"] = true := by
  have hrule : normalizeIp lowerAscii "10.0.0.0/8" = "10.0.0.0/8" := by decide
  have hip : normalizeIp lowerAscii "10.1.2.3" = "10.1.2.3" := by decide
  refine ((guard_admits lowerAscii "10.1.2.3" "" ["10.0.0.0/8"]).2.2 ?_).2 ⟨by decide, _,
    List.mem_singleton.2 rfl, .inr ?_⟩
  · intro entry hentry base p heq hbase
    rw [List.mem_singleton.1 hentry, hrule] at heq
    have hfront : '/' ∉ "10.0.0.0".toList := by decide
    have hback : '/' ∉ "8".toList := by decide
    have hshape : "10.0.0.0".toList ++ '/' :: "8".toList = base ++ '/' :: p := heq
    obtain ⟨-, -, hp⟩ := (List.append_cons_inj_of_notMem hfront hback).1 hshape
    rw [← hp]
    decide
  · rw [hrule, hip]
    exact covers_ten

/-- A port and an empty prefix length. -/
theorem port_and_empty_prefix_admitted :
    isIpv4InCidr lowerAscii "10.0.0.1:80" "10.0.0.0/8" = true ∧
    isIpv4InCidr lowerAscii "8.8.8.8" "10.0.0.0/" = true ∧
    ipAllowed lowerAscii "8.8.8.8" ["10.0.0.0/"] = true := by
  have hten : DottedQuad (normalizeIp lowerAscii "10.0.0.0").toList (10 * 2 ^ 24) :=
    ⟨[['1', '0'], ['0'], ['0'], ['0']], rfl, by decide, by decide, by decide⟩
  have hport : DottedQuad (normalizeIp lowerAscii "10.0.0.1:80").toList (10 * 2 ^ 24 + 1) :=
    ⟨[['1', '0'], ['0'], ['0'], ['1']], rfl, by decide, by decide, by decide⟩
  have height : DottedQuad (normalizeIp lowerAscii "8.8.8.8").toList
      (8 * 2 ^ 24 + 8 * 2 ^ 16 + 8 * 2 ^ 8 + 8) :=
    ⟨[['8'], ['8'], ['8'], ['8']], rfl, by decide, by decide, by decide⟩
  have hlength : (number "8").integer? = some ((8 : Nat) : Int) :=
    (integer?_number_digits (by decide) (by omega)).2 (by decide)
  have hempty : isIpv4InCidr lowerAscii "8.8.8.8" "10.0.0.0/" = true :=
    isIpv4InCidr_iff.2 ⟨_, [], [], 0, _, _, by decide, by decide, by decide, hten, height,
      by decide⟩
  refine ⟨isIpv4InCidr_iff.2 ⟨_, ['8'], [], 8, _, _, by decide, hlength, by decide, hten, hport,
    by decide⟩, hempty, ?_⟩
  have hrule : normalizeIp lowerAscii "10.0.0.0/" = "10.0.0.0/" := by decide
  have hip : normalizeIp lowerAscii "8.8.8.8" = "8.8.8.8" := by decide
  simp [ipAllowed, hrule, hip, hempty]

end AionisCore.Util
