import AionisCore.Lib.IpAddress

/-!
# Addresses of the remote executor

The executor reads addresses and the rules on them from text. `isIP` is the runtime's function
that tells what family a text is a literal of. A literal is read as the address it stands for,
whatever its spelling.
-/

namespace AionisCore.Memory

open Lib Lib.JsString Lib.IpAddress

/-! ## Parsing -/

/-- `/^\d{1,3}$/` and at most 255. -/
def parseOctet (p : List Char) : Option Nat :=
  if IsDigits p ∧ p.length ≤ 3 ∧ readDigits p ≤ 255 then some (readDigits p) else none

def normalizeIpv4 (ip : List Char) : Option (List Char) :=
  let parts := (trimChars ip).splitOn '.'
  if parts.length ≠ 4 then none
  else (parts.mapM parseOctet).map fun octets => ['.'].intercalate (octets.map natText)

/-- `.split(".").map((x) => Number(x))` of a normalized address. -/
def octetsOf (normalized : List Char) : List Nat := (normalized.splitOn '.').map readDigits

/-- What stands before and after the first `::`. -/
def breakDouble : List Char → Option (List Char × List Char)
  | [] => none
  | c :: cs =>
    if c = ':' ∧ cs.head? = some ':' then some ([], cs.tail)
    else (breakDouble cs).map fun (left, right) => (c :: left, right)

def parsePart (part : List Char) : Option (List Nat) :=
  if part = [] then some []
  else if '.' ∈ part then
    (normalizeIpv4 part).map fun normalized =>
      let octet := (octetsOf normalized).getD
      [(octet 0 0 <<< 8 ||| octet 1 0) &&& 0xffff, (octet 2 0 <<< 8 ||| octet 3 0) &&& 0xffff]
  -- `/^[0-9a-f]{1,4}$/i`
  else if 4 < part.length then none
  else (readRadix 16 part).map fun n => [n]

/-- The numbers of one side of a `::`. -/
def parseSide (side : List Char) : Option (List Nat) :=
  ((if side = [] then [] else side.splitOn ':').mapM parsePart).map List.flatten

/-- Only the case of ASCII letters matters to the parser. -/
def parseIpv6ToHextets (raw : List Char) : Option (List Nat) :=
  let input := (trimChars raw).map Char.toLower
  if input = [] then none
  else
    let stripped := input.takeWhile (· ≠ '%')
    match breakDouble stripped with
    | none => (parseSide stripped).bind fun nums => if nums.length ≠ 8 then none else some nums
    | some (leftRaw, rightRaw) =>
      -- a second `::` may overlap the first
      if (breakDouble (':' :: rightRaw)).isSome then none
      else (parseSide leftRaw).bind fun left => (parseSide rightRaw).bind fun right =>
        if 8 < left.length + right.length then none
        else some (left ++ List.replicate (8 - (left.length + right.length)) 0 ++ right)

section IsIP

variable (isIP : String → Option Family)

def ipToBigInt (ipRaw : String) : Option (Family × Nat) :=
  let ip := trim ipRaw
  match isIP ip with
  | some .v4 => (normalizeIpv4 ip.toList).map fun normalized =>
    (.v4, (octetsOf normalized).foldl (fun acc oct => (acc <<< 8) + oct) 0)
  | some .v6 => (parseIpv6ToHextets ip.toList).bind fun hextets =>
    if hextets.length ≠ 8 then none
    else some (.v6, hextets.foldl (fun value h => (value <<< 16) + h) 0)
  | none => none

/-! ## Rules -/

/-- The `prefix` is the `length`. -/
structure ParsedCidr where
  family : Family
  length : Nat
  network : Nat
  mask : Nat
  deriving DecidableEq, Repr

/-- The address and the prefix length of a rule, as texts: what stands before and after the last
slash, if neither is empty. -/
def ruleParts (raw : String) : Option (String × String) :=
  let v := trimChars raw.toList
  let after := v.rtakeWhile (· ≠ '/')
  let before := v.rdropWhile (· ≠ '/')
  if before.length ≤ 1 ∨ after = [] then none
  else some (String.ofList (trimChars before.dropLast), String.ofList (trimChars after))

def maskOf (bits length : Nat) : Nat :=
  let fullMask := (1 <<< bits) - 1
  if length = 0 then 0 else (fullMask <<< (bits - length)) &&& fullMask

def parseCidrRule (raw : String) : Option ParsedCidr :=
  (ruleParts raw).bind fun (ipPart, prefixRaw) =>
    (ipToBigInt isIP ipPart).bind fun (family, value) =>
      (number prefixRaw).integer?.bind fun length =>
        if length < 0 ∨ family.bits < length then none
        else
          let mask := maskOf family.bits length.toNat
          some { family, length := length.toNat, network := value &&& mask, mask }

def ipInCidrs (ip : String) (cidrs : List ParsedCidr) : Bool :=
  match ipToBigInt isIP ip with
  | none => false
  | some (family, value) =>
    cidrs.any fun cidr => cidr.family = family && value &&& cidr.mask = cidr.network

end IsIP

/-! ## Literals are read as their addresses -/

variable {t : List Char}

theorem parseOctet_natText {o : Nat} (h : o < 256) : parseOctet (natText o) = some o := by
  have hlength : (natText o).length ≤ 3 := by
    unfold natText
    split
    · decide
    · rw [digitsText, List.length_map, List.length_reverse,
        Nat.digits_length_le_iff (by omega)]
      omega
  have hdigits : IsDigits (natText o) := by
    refine ⟨?_, fun c hc => isDigit_of_mem_natText hc⟩
    unfold natText
    split
    · simp
    · next hne => exact digitsText_ne_nil hne
  rw [parseOctet, readDigits_natText, if_pos ⟨hdigits, hlength, by omega⟩]

theorem splitOn_quad {os : List Nat} (h : V4 t os) : t.splitOn '.' = os.map natText := by
  rw [h.text]
  refine List.splitOn_intercalate '.' (fun u hu hdot => ?_) fun hnil => ?_
  · obtain ⟨o, -, rfl⟩ := List.mem_map.1 hu
    exact absurd (isDigit_of_mem_natText hdot) (by decide)
  · have hlen := h.length
    rw [List.map_eq_nil_iff.1 hnil] at hlen
    cases hlen

theorem trimChars_of_visible (h : ∀ c ∈ t, isWhite c = false) : trimChars t = t :=
  trimChars_eq_self (fun c hc => h c (List.mem_of_mem_head? hc))
    fun c hc => h c (List.mem_of_mem_getLast? hc)

theorem normalizeIpv4_quad {os : List Nat} (h : V4 t os) :
    normalizeIpv4 t = some t ∧ octetsOf t = os := by
  have hvisible : ∀ c ∈ t, isWhite c = false := fun c hc => by
    rcases h.chars hc with hdigit | rfl
    · exact isWhite_of_isAddressChar (isAddressChar_of_isDigit hdigit)
    · rfl
  have hoctets : (os.map natText).mapM parseOctet = some os :=
    Zod.mapM_eq_some.2 (List.forall₂_map_left_iff.2
      (List.forall₂_same.2 fun o ho => parseOctet_natText (h.octets o ho)))
  refine ⟨?_, ?_⟩
  · unfold normalizeIpv4
    rw [trimChars_of_visible hvisible, splitOn_quad h]
    dsimp only
    rw [List.length_map, h.length, hoctets, if_neg (not_not.2 rfl), h.text]
    rfl
  · rw [octetsOf, splitOn_quad h, List.map_map]
    simp [Function.comp_def]

theorem or_octets {a b : Nat} (hb : b < 256) (ha : a < 256) :
    (a <<< 8 ||| b) &&& 0xffff = a * 256 + b := by
  rw [← Nat.shiftLeft_add_eq_or_of_lt hb, Nat.shiftLeft_eq,
    show 0xffff = 2 ^ 16 - 1 from rfl, Nat.and_two_pow_sub_one_eq_mod, Nat.mod_eq_of_lt (by omega)]

theorem parsePart_quad {a b c d : Nat} (h : V4 t [a, b, c, d]) :
    parsePart t = some [a * 256 + b, c * 256 + d] := by
  have hdot : '.' ∈ t := by
    rw [h.text]
    simp [List.intercalate_cons_cons]
  obtain ⟨hnormal, hoctets⟩ := normalizeIpv4_quad h
  have hlt := h.octets
  simp only [List.forall_mem_cons, List.not_mem_nil, false_imp_iff, implies_true, and_true] at hlt
  obtain ⟨ha, hb, hc, hd⟩ := hlt
  rw [parsePart, if_neg (List.ne_nil_of_mem hdot), if_pos hdot, hnormal, Option.map_some, hoctets]
  simp only [List.getD_cons_zero, List.getD_cons_succ]
  rw [or_octets hb ha, or_octets hd hc]

theorem parsePart_hextet {n : Nat} (h : Hextet t n) : parsePart t = some [n] := by
  rw [parsePart, if_neg h.ne_nil, if_neg h.no_dot, if_neg (not_lt.2 h.short), h.digits]
  rfl

theorem parseSide_groups {ts : List (List Char)} {hs : List Nat} (h : Groups ts hs) :
    parseSide ([':'].intercalate ts) = some hs := by
  have hparts : ∃ ps, ts.mapM parsePart = some ps ∧ ps.flatten = hs := by
    induction h with
    | nil => exact ⟨[], rfl, rfl⟩
    | @quad t a b c d h =>
      refine ⟨[[a * 256 + b, c * 256 + d]], ?_, rfl⟩
      rw [Zod.mapM_eq_some]
      exact .cons (parsePart_quad h) .nil
    | @hextet t n ts hs h _ ih =>
      obtain ⟨ps, hps, rfl⟩ := ih
      refine ⟨[n] :: ps, ?_, rfl⟩
      rw [Zod.mapM_eq_some] at hps ⊢
      exact .cons (parsePart_hextet h) hps
  obtain ⟨ps, hps, rfl⟩ := hparts
  unfold parseSide
  cases ts with
  | nil =>
    rw [List.mapM_nil] at hps
    obtain rfl := Option.some.inj hps
    rfl
  | cons t ts =>
    have hne : [':'].intercalate (t :: ts) ≠ [] := by
      have ht := (h.chars t List.mem_cons_self).2.1
      cases ts with
      | nil => rwa [List.intercalate_singleton]
      | cons u ts =>
        rw [List.intercalate_cons_cons]
        simp
    rw [if_neg hne, List.splitOn_intercalate ':' (fun u hu => (h.chars u hu).1) (by simp), hps]
    rfl

/-! ## Zero compression -/

theorem breakDouble_cons_of_ne {c : Char} {cs : List Char} (h : c ≠ ':') :
    breakDouble (c :: cs) = (breakDouble cs).map fun (left, right) => (c :: left, right) := by
  rw [breakDouble, if_neg fun hc => h hc.1]

theorem breakDouble_colon {cs : List Char} (h : cs.head? ≠ some ':') :
    breakDouble (':' :: cs) = (breakDouble cs).map fun (left, right) => (':' :: left, right) := by
  rw [breakDouble, if_neg fun hc => h hc.2]

theorem breakDouble_append {rest : List Char} (h : ':' ∉ t) :
    breakDouble (t ++ rest) = (breakDouble rest).map fun (left, right) => (t ++ left, right) := by
  induction t with
  | nil => simp
  | cons c t ih =>
    rw [List.mem_cons, not_or] at h
    rw [List.cons_append, breakDouble_cons_of_ne (Ne.symm h.1), ih h.2, Option.map_map]
    rfl

/-- Groups that are not empty hold no `::`. -/
theorem breakDouble_groups {ts : List (List Char)} (hts : ∀ t ∈ ts, ':' ∉ t ∧ t ≠ [])
    (rest : List Char) : breakDouble ([':'].intercalate ts ++ rest) =
      (breakDouble rest).map fun (left, right) => ([':'].intercalate ts ++ left, right) := by
  induction ts with
  | nil => simp
  | cons t ts ih =>
    have ht := hts t List.mem_cons_self
    have htail := ih fun u hu => hts u (List.mem_cons_of_mem t hu)
    cases ts with
    | nil =>
      rw [List.intercalate_singleton]
      exact breakDouble_append ht.1
    | cons u ts =>
      obtain ⟨hu, hne⟩ := hts u (by simp)
      have hhead : ([':'].intercalate (u :: ts) ++ rest).head? ≠ some ':' := by
        cases u with
        | nil => exact absurd rfl hne
        | cons c u =>
          rw [List.intercalate_cons_cons_left, List.cons_append, List.head?_cons]
          exact fun heq => hu (Option.some.inj heq ▸ List.mem_cons_self)
      rw [List.intercalate_cons_cons, List.append_assoc, List.append_assoc, List.singleton_append,
        breakDouble_append ht.1, breakDouble_colon hhead, htail, Option.map_map, Option.map_map]
      refine congrArg (Option.map · _) (funext fun pair => ?_)
      simp

/-- Before and behind a `::` stand groups without another one. -/
theorem breakDouble_compressed {ls rs : List (List Char)} (hls : ∀ t ∈ ls, ':' ∉ t ∧ t ≠ [])
    (hrs : ∀ t ∈ rs, ':' ∉ t ∧ t ≠ []) :
    breakDouble ([':'].intercalate ls ++ ':' :: ':' :: [':'].intercalate rs) =
      some ([':'].intercalate ls, [':'].intercalate rs) ∧
    breakDouble (':' :: [':'].intercalate rs) = none := by
  refine ⟨?_, ?_⟩
  · rw [breakDouble_groups hls]
    simp [breakDouble]
  · have hright := breakDouble_groups hrs []
    rw [List.append_nil] at hright
    rw [breakDouble_colon, hright]
    · rfl
    · cases rs with
      | nil => exact nofun
      | cons t rs =>
        obtain ⟨ht, hne⟩ := hrs t List.mem_cons_self
        cases t with
        | nil => exact absurd rfl hne
        | cons c t =>
          rw [List.intercalate_cons_cons_left, List.head?_cons]
          exact fun heq => ht (Option.some.inj heq ▸ List.mem_cons_self)

/-- The parser reads an address whatever its spelling. -/
theorem parseIpv6ToHextets_literal {hs : List Nat} (h : V6 t hs)
    (hvisible : ∀ c ∈ t, isWhite c = false) : parseIpv6ToHextets t = some hs := by
  obtain ⟨a, z, rfl, ha, hz⟩ := h
  have hlower := ha.toLower
  have hstripped : ((a ++ z).map Char.toLower).takeWhile (· ≠ '%') = a.map Char.toLower := by
    have hpercent : ∀ c ∈ a.map Char.toLower, decide (c ≠ '%') = true := by
      intro c hc
      refine decide_eq_true fun heq => ?_
      have hchar := hlower.chars c hc
      rw [heq] at hchar
      revert hchar
      decide
    rw [List.map_append, List.takeWhile_append_of_pos hpercent]
    rcases hz with rfl | ⟨cs, rfl, -, -⟩
    · simp
    · rw [List.map_cons, List.takeWhile_cons_of_neg (by decide), List.append_nil]
  have hne : (a ++ z).map Char.toLower ≠ [] := by
    rw [List.map_append]
    exact List.append_ne_nil_of_left_ne_nil (List.ne_nil_of_mem hlower.colon_mem) _
  unfold parseIpv6ToHextets
  rw [trimChars_of_visible hvisible]
  dsimp only
  rw [if_neg hne, hstripped]
  generalize a.map Char.toLower = b at hlower
  cases hlower with
  | full hgroups hlen =>
    have hnone := breakDouble_groups
      (fun t ht => ⟨(hgroups.chars t ht).1, (hgroups.chars t ht).2.1⟩) []
    rw [List.append_nil] at hnone
    rw [hnone, parseSide_groups hgroups]
    simp [breakDouble, hlen]
  | compressed hl hr hlen =>
    have hleft := groups_of_forall₂ hl
    obtain ⟨hbreak, hagain⟩ := breakDouble_compressed
      (fun t ht => ⟨(hleft.chars t ht).1, (hleft.chars t ht).2.1⟩)
      (fun t ht => ⟨(hr.chars t ht).1, (hr.chars t ht).2.1⟩)
    rw [hbreak]
    dsimp only
    rw [hagain, parseSide_groups hleft, parseSide_groups hr]
    simp only [Option.isSome_none, Bool.false_eq_true, if_false, Option.bind_some]
    rw [if_neg (by omega)]

section Recognises

variable {isIP : String → Option Family} (hisIP : Recognises isIP)

include hisIP

/-- What the executor reads of a text is the address it is a literal of. -/
theorem ipToBigInt_eq_some {ip : String} {family : Family} {value : Nat} :
    ipToBigInt isIP ip = some (family, value) ↔ Literal (trim ip) family value := by
  have hshift4 : ∀ os : List Nat, os.foldl (fun acc oct => (acc <<< 8) + oct) 0 = pack 8 os :=
    fun os => by simp only [pack, Nat.shiftLeft_eq]
  have hshift6 : ∀ hs : List Nat, hs.foldl (fun value h => (value <<< 16) + h) 0 = pack 16 hs :=
    fun hs => by simp only [pack, Nat.shiftLeft_eq]
  have hv4 : ∀ os, V4 (trim ip).toList os → ipToBigInt isIP ip = some (.v4, pack 8 os) := by
    intro os hos
    obtain ⟨hnormal, hoctets⟩ := normalizeIpv4_quad hos
    unfold ipToBigInt
    dsimp only
    rw [(hisIP.v4 _).2 ⟨os, hos⟩]
    dsimp only
    rw [hnormal, Option.map_some, hoctets, hshift4]
  have hv6 : ∀ hs, V6 (trim ip).toList hs → ipToBigInt isIP ip = some (.v6, pack 16 hs) := by
    intro hs hhs
    have hliteral : Literal (trim ip) .v6 (pack 16 hs) := ⟨hs, hhs, rfl⟩
    have hlen : hs.length = 8 := by
      obtain ⟨a, z, -, ha, -⟩ := hhs
      exact ha.length
    unfold ipToBigInt
    dsimp only
    rw [(hisIP.v6 _).2 ⟨hs, hhs⟩]
    dsimp only
    rw [parseIpv6ToHextets_literal hhs hliteral.visible, Option.bind_some,
      if_neg (not_not.2 hlen), hshift6]
  refine ⟨fun h => ?_, fun h => ?_⟩
  · cases hfamily : isIP (trim ip) with
    | none => simp [ipToBigInt, hfamily] at h
    | some found =>
      cases found with
      | v4 =>
        obtain ⟨os, hos⟩ := (hisIP.v4 _).1 hfamily
        obtain ⟨rfl, rfl⟩ := Prod.mk.inj (Option.some.inj ((hv4 os hos).symm.trans h))
        exact ⟨os, hos, rfl⟩
      | v6 =>
        obtain ⟨hs, hhs⟩ := (hisIP.v6 _).1 hfamily
        obtain ⟨rfl, rfl⟩ := Prod.mk.inj (Option.some.inj ((hv6 hs hhs).symm.trans h))
        exact ⟨hs, hhs, rfl⟩
  · cases family with
    | v4 =>
      obtain ⟨os, hos, rfl⟩ := h
      exact hv4 os hos
    | v6 =>
      obtain ⟨hs, hhs, rfl⟩ := h
      exact hv6 hs hhs

end Recognises

end AionisCore.Memory
