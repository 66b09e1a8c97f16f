import AionisCore.Memory.SandboxAddresses

/-!
# The rules on addresses

`parseCidrRule` reads an address and, with `Number`, a prefix length. An address is in one of
the rules if and only if it agrees with the address of an accepted rule of its family on the
first bits. Whether a rule is accepted only if its length is written in decimal digits depends
on what else `Number` reads.
-/

namespace AionisCore.Memory

open Lib Lib.JsString Lib.IpAddress

/-! ## Masks -/

variable {value length : Nat}

/-- Masking clears the bits behind the prefix. -/
theorem and_maskOf {bits : Nat} (hvalue : value < 2 ^ bits) :
    value &&& maskOf bits length = value / 2 ^ (bits - length) * 2 ^ (bits - length) := by
  unfold maskOf
  dsimp only
  split
  · next hzero =>
    rw [hzero, Nat.sub_zero, Nat.div_eq_of_lt hvalue, Nat.and_zero, Nat.zero_mul]
  · rw [Nat.one_shiftLeft, and_topBits hvalue]

theorem and_maskOf_eq_iff {v w bits : Nat} (hv : v < 2 ^ bits) (hw : w < 2 ^ bits) :
    w &&& maskOf bits length = v &&& maskOf bits length ↔
      w / 2 ^ (bits - length) = v / 2 ^ (bits - length) := by
  rw [and_maskOf hv, and_maskOf hw]
  exact Nat.mul_left_inj (Nat.two_pow_pos _).ne'

/-! ## How a rule is written -/

def White (ws : List Char) : Prop := ∀ c ∈ ws, isWhite c = true

theorem dropWhile_white {ws t : List Char} (hws : White ws)
    (ht : ∀ c ∈ t.head?, isWhite c = false) : (ws ++ t).dropWhile isWhite = t := by
  rw [List.dropWhile_append_of_pos hws]
  cases t with
  | nil => rfl
  | cons c t => exact List.dropWhile_cons_of_neg (by simp [ht c rfl])

/-- Trimming takes away the white space around a text that begins and ends without any. -/
theorem trimChars_pad {w₁ t w₂ : List Char} (h₁ : White w₁) (h₂ : White w₂) (hne : t ≠ [])
    (hhead : ∀ c ∈ t.head?, isWhite c = false) (hlast : ∀ c ∈ t.getLast?, isWhite c = false) :
    trimChars (w₁ ++ t ++ w₂) = t := by
  have hfront : (w₁ ++ t ++ w₂).dropWhile isWhite = t ++ w₂ := by
    rw [List.append_assoc]
    refine dropWhile_white h₁ fun c hc => ?_
    rw [List.head?_append_of_ne_nil _ hne] at hc
    exact hhead c hc
  have hback : (w₂.reverse ++ t.reverse).dropWhile isWhite = t.reverse :=
    dropWhile_white (fun c hc => h₂ c (List.mem_reverse.1 hc)) fun c hc => by
      rw [List.head?_reverse] at hc
      exact hlast c hc
  rw [trimChars, hfront, List.rdropWhile, List.reverse_append, hback, List.reverse_reverse]

theorem exists_trimChars (t : List Char) :
    ∃ w₁ w₂, t = w₁ ++ trimChars t ++ w₂ ∧ White w₁ ∧ White w₂ := by
  refine ⟨t.takeWhile isWhite, (t.dropWhile isWhite).rtakeWhile isWhite, ?_,
    fun c hc => List.mem_takeWhile_imp hc, fun c hc => List.mem_rtakeWhile_imp hc⟩
  rw [List.append_assoc, trimChars, List.rdropWhile_append_rtakeWhile,
    List.takeWhile_append_dropWhile]

/-- An address, a slash and a prefix length in decimal digits, and white space around the parts. -/
def DecimalRule (raw : String) (family : Family) (value length : Nat) : Prop :=
  ∃ w₁ a w₂ w₃ p w₄, raw.toList = w₁ ++ a ++ w₂ ++ '/' :: (w₃ ++ p ++ w₄) ∧
    White w₁ ∧ White w₂ ∧ White w₃ ∧ White w₄ ∧ Literal (String.ofList a) family value ∧
    IsDigits p ∧ readDigits p = length ∧ length ≤ family.bits

theorem splitLast {x y : List Char} (hy : '/' ∉ y) :
    (x ++ '/' :: y).rtakeWhile (· ≠ '/') = y ∧
      (x ++ '/' :: y).rdropWhile (· ≠ '/') = x ++ ['/'] := by
  have hall : ∀ c ∈ y.reverse, decide (c ≠ '/') = true := fun c hc =>
    decide_eq_true fun heq => hy (heq ▸ List.mem_reverse.1 hc)
  have hreverse : (x ++ '/' :: y).reverse = y.reverse ++ '/' :: x.reverse := by simp
  refine ⟨?_, ?_⟩
  · rw [List.rtakeWhile, hreverse, List.takeWhile_append_of_pos hall,
      List.takeWhile_cons_of_neg (by decide), List.append_nil, List.reverse_reverse]
  · rw [List.rdropWhile, hreverse, List.dropWhile_append_of_pos hall,
      List.dropWhile_cons_of_neg (by decide)]
    simp

variable {raw ipPart prefixRaw : String}

/-- The parts of a text of the shape of a rule. -/
theorem ruleParts_of_shape {w₁ a w₂ w₃ p w₄ : List Char}
    (hraw : raw.toList = w₁ ++ a ++ w₂ ++ '/' :: (w₃ ++ p ++ w₄)) (h₁ : White w₁) (h₂ : White w₂)
    (h₃ : White w₃) (h₄ : White w₄) (ha : a ≠ []) (hvisible : ∀ c ∈ a, isWhite c = false)
    (hp : IsDigits p) : ruleParts raw = some (String.ofList a, String.ofList p) := by
  have hpvisible : ∀ c ∈ p, isWhite c = false := fun c hc =>
    isWhite_of_isAddressChar (isAddressChar_of_isDigit (hp.2 c hc))
  have hslash : isWhite '/' = false := rfl
  have htrim : trimChars raw.toList = a ++ w₂ ++ '/' :: (w₃ ++ p) := by
    have hshape : raw.toList = w₁ ++ (a ++ w₂ ++ '/' :: (w₃ ++ p)) ++ w₄ := by
      rw [hraw]
      simp
    rw [hshape]
    refine trimChars_pad h₁ h₄ (by simp) (fun c hc => ?_) fun c hc => ?_
    · rw [List.append_assoc, List.head?_append_of_ne_nil _ ha] at hc
      exact hvisible c (List.mem_of_mem_head? hc)
    · have hlast : (a ++ w₂ ++ '/' :: (w₃ ++ p)).getLast? = p.getLast? := by
        rw [← List.cons_append, ← List.append_assoc, List.getLast?_append_of_ne_nil _ hp.1]
      rw [hlast] at hc
      exact hpvisible c (List.mem_of_mem_getLast? hc)
  have hnoslash : '/' ∉ w₃ ++ p := by
    intro hmem
    rcases List.mem_append.1 hmem with hmem | hmem
    · exact absurd (h₃ _ hmem) (by decide)
    · exact absurd (hp.2 _ hmem) (by decide)
  obtain ⟨hafter, hbefore⟩ := splitLast (x := a ++ w₂) hnoslash
  have hlength : ¬ ((a ++ w₂ ++ ['/']).length ≤ 1 ∨ w₃ ++ p = []) := by
    rintro (hshort | hempty)
    · have hpos := List.length_pos_iff.2 ha
      simp only [List.length_append, List.length_singleton] at hshort
      omega
    · exact hp.1 (List.append_eq_nil_iff.1 hempty).2
  have htrimA : trimChars (a ++ w₂) = a := by
    have hpad : trimChars ([] ++ a ++ w₂) = a := trimChars_pad (List.forall_mem_nil _) h₂ ha
      (fun c hc => hvisible c (List.mem_of_mem_head? hc))
      fun c hc => hvisible c (List.mem_of_mem_getLast? hc)
    rwa [List.nil_append] at hpad
  have htrimP : trimChars (w₃ ++ p) = p := by
    have hpad : trimChars (w₃ ++ p ++ []) = p := trimChars_pad h₃ (List.forall_mem_nil _) hp.1
      (fun c hc => hpvisible c (List.mem_of_mem_head? hc))
      fun c hc => hpvisible c (List.mem_of_mem_getLast? hc)
    rwa [List.append_nil] at hpad
  unfold ruleParts
  rw [htrim]
  dsimp only
  rw [hafter, hbefore, if_neg hlength, List.dropLast_concat, htrimA, htrimP]

/-- A text with parts is of the shape of a rule. -/
theorem shape_of_ruleParts (h : ruleParts raw = some (ipPart, prefixRaw)) : ∃ w₁ w₂ w₃ w₄,
      raw.toList = w₁ ++ ipPart.toList ++ w₂ ++ '/' :: (w₃ ++ prefixRaw.toList ++ w₄) ∧
      White w₁ ∧ White w₂ ∧ White w₃ ∧ White w₄ ∧
      trim ipPart = ipPart ∧ trimChars prefixRaw.toList = prefixRaw.toList := by
  unfold ruleParts at h
  dsimp only at h
  split at h
  · cases h
  next hsome =>
  obtain ⟨rfl, rfl⟩ := Prod.mk.inj (Option.some.inj h)
  rw [String.toList_ofList, String.toList_ofList]
  obtain ⟨hlong, -⟩ := not_or.1 hsome
  generalize hb : (trimChars raw.toList).rdropWhile (· ≠ '/') = before at hlong ⊢
  have hne : before ≠ [] := by
    rintro rfl
    exact hlong (Nat.zero_le _)
  have hslash : before.dropLast ++ ['/'] = before := by
    have hlast : before.getLast hne = '/' := by
      subst hb
      simpa using List.rdropWhile_last_not (· ≠ '/') (trimChars raw.toList) hne
    rw [← hlast]
    exact List.dropLast_append_getLast hne
  have hsplit : (trimChars raw.toList).rdropWhile (· ≠ '/') ++
      (trimChars raw.toList).rtakeWhile (· ≠ '/') = trimChars raw.toList :=
    List.rdropWhile_append_rtakeWhile
  rw [hb] at hsplit
  obtain ⟨w₁, w₄, hraw, h₁, h₄⟩ := exists_trimChars raw.toList
  obtain ⟨u₁, w₂, hfront, hu₁, h₂⟩ := exists_trimChars before.dropLast
  obtain ⟨w₃, u₄, hback, h₃, hu₄⟩ :=
    exists_trimChars ((trimChars raw.toList).rtakeWhile (· ≠ '/'))
  refine ⟨w₁ ++ u₁, w₂, w₃, u₄ ++ w₄, ?_, ?_, h₂, h₃, ?_, ?_, trimChars_trimChars _⟩
  · calc raw.toList = w₁ ++ trimChars raw.toList ++ w₄ := hraw
      _ = w₁ ++ (before.dropLast ++ ['/'] ++
            (trimChars raw.toList).rtakeWhile (· ≠ '/')) ++ w₄ := by rw [hslash, hsplit]
      _ = w₁ ++ (u₁ ++ trimChars before.dropLast ++ w₂ ++ ['/'] ++ (w₃ ++ trimChars
            ((trimChars raw.toList).rtakeWhile (· ≠ '/')) ++ u₄)) ++ w₄ := by
          rw [← hfront, ← hback]
      _ = _ := by simp
  · exact fun c hc => (List.mem_append.1 hc).elim (h₁ c) (hu₁ c)
  · exact fun c hc => (List.mem_append.1 hc).elim (hu₄ c) (h₄ c)
  · rw [trim, String.toList_ofList, trimChars_trimChars]

theorem trim_ipPart (h : ruleParts raw = some (ipPart, prefixRaw)) : trim ipPart = ipPart := by
  obtain ⟨-, -, -, -, -, -, -, -, -, htrim, -⟩ := shape_of_ruleParts h
  exact htrim

/-! ## AcceptedRule rules -/

/-- The rule has the address `value`, and `Number` reads the prefix length. -/
def AcceptedRule (raw : String) (family : Family) (value length : Nat) : Prop :=
  ∃ ipPart prefixRaw, ruleParts raw = some (ipPart, prefixRaw) ∧
    Literal ipPart family value ∧ (number prefixRaw).integer? = some (length : Int) ∧
    length ≤ family.bits

/-- What is kept of a rule. -/
def cidrOf (family : Family) (value length : Nat) : ParsedCidr where
  family := family
  length := length
  network := value &&& maskOf family.bits length
  mask := maskOf family.bits length

/-- An address is covered by a rule that was accepted. -/
def Covers (raw : String) (family : Family) (value : Nat) : Prop :=
  ∃ network length, AcceptedRule raw family network length ∧
    value / 2 ^ (family.bits - length) = network / 2 ^ (family.bits - length)

/-- The text behind the last slash is in decimal digits, or `Number` does not read it as a prefix
length of the address in front. -/
def ReadsDecimal (raw : String) : Prop :=
  ∀ ipPart prefixRaw, ruleParts raw = some (ipPart, prefixRaw) → ∀ family value,
    Literal ipPart family value →
    IsDigits prefixRaw.toList ∨
      ¬ ∃ length : Nat, (number prefixRaw).integer? = some (length : Int) ∧ length ≤ family.bits

section Recognises

variable {isIP : String → Option Family} (hisIP : Recognises isIP)

include hisIP

theorem parseCidrRule_eq_some {raw : String} {cidr : ParsedCidr} :
    parseCidrRule isIP raw = some cidr ↔
      ∃ family value length, AcceptedRule raw family value length ∧
        cidr = cidrOf family value length := by
  unfold parseCidrRule AcceptedRule
  simp only [Option.bind_eq_some_iff, Prod.exists]
  refine ⟨?_, ?_⟩
  · rintro ⟨ipPart, prefixRaw, hparts, family, value, hvalue, length, hlength, h⟩
    split at h
    · cases h
    · next hrange =>
      have hnat : ((length.toNat : Nat) : Int) = length := by omega
      rw [ipToBigInt_eq_some hisIP, trim_ipPart hparts] at hvalue
      exact ⟨family, value, length.toNat, ⟨ipPart, prefixRaw, hparts, hvalue,
        hlength.trans (congrArg some hnat.symm), by omega⟩, (Option.some.inj h).symm⟩
  · rintro ⟨family, value, length, ⟨ipPart, prefixRaw, hparts, hvalue, hlength, hle⟩, rfl⟩
    rw [← trim_ipPart hparts, ← ipToBigInt_eq_some hisIP] at hvalue
    refine ⟨ipPart, prefixRaw, hparts, family, value, hvalue, (length : Int), hlength, ?_⟩
    rw [if_neg (by omega)]
    rfl

/-- An address is in the rules if and only if an accepted one covers it. -/
theorem ipInCidrs_iff {ip : String} {family : Family} {value : Nat}
    (hip : Literal ip family value) (raws : List String) :
    ipInCidrs isIP ip (raws.filterMap (parseCidrRule isIP)) = true ↔
      ∃ raw ∈ raws, Covers raw family value := by
  have htrim : trim ip = ip := trimmed_of_visible hip.visible
  have hagree : ∀ {raw : String} {network length : Nat}, AcceptedRule raw family network length →
      (value &&& maskOf family.bits length = network &&& maskOf family.bits length ↔
        value / 2 ^ (family.bits - length) = network / 2 ^ (family.bits - length)) := by
    rintro raw network length ⟨ipPart, prefixRaw, -, hliteral, -, -⟩
    exact and_maskOf_eq_iff hliteral.lt hip.lt
  unfold ipInCidrs
  rw [(ipToBigInt_eq_some hisIP).2 (htrim.symm ▸ hip)]
  simp only [List.any_eq_true, List.mem_filterMap, Bool.and_eq_true, decide_eq_true_iff]
  refine ⟨?_, ?_⟩
  · rintro ⟨cidr, ⟨raw, hraw, hparse⟩, hfamily, hmasked⟩
    obtain ⟨_, network, length, haccepted, rfl⟩ := (parseCidrRule_eq_some hisIP).1 hparse
    obtain rfl := hfamily
    exact ⟨raw, hraw, network, length, haccepted, (hagree haccepted).1 hmasked⟩
  · rintro ⟨raw, hraw, network, length, haccepted, hbits⟩
    exact ⟨cidrOf family network length, ⟨raw, hraw, (parseCidrRule_eq_some hisIP).2
      ⟨family, network, length, haccepted, rfl⟩⟩, rfl, (hagree haccepted).2 hbits⟩

end Recognises

theorem DecimalRule.isDigits {family : Family} (h : DecimalRule raw family value length)
    (hparts : ruleParts raw = some (ipPart, prefixRaw)) : IsDigits prefixRaw.toList := by
  obtain ⟨w₁, a, w₂, w₃, p, w₄, hraw, h₁, h₂, h₃, h₄, hliteral, hp, -, -⟩ := h
  have hne := hliteral.ne_nil
  have hvisible := hliteral.visible
  rw [String.toList_ofList] at hne hvisible
  have hshape := ruleParts_of_shape hraw h₁ h₂ h₃ h₄ hne hvisible hp
  obtain ⟨-, rfl⟩ := Prod.mk.inj (Option.some.inj (hparts.symm.trans hshape))
  rwa [String.toList_ofList]

theorem AcceptedRule.decimalRule {family : Family} (h : AcceptedRule raw family value length)
    (hreads : ReadsDecimal raw) : DecimalRule raw family value length := by
  obtain ⟨ipPart, prefixRaw, hparts, hliteral, hlength, hle⟩ := h
  have hp := (hreads ipPart prefixRaw hparts family value hliteral).resolve_right
    (not_not.2 ⟨length, hlength, hle⟩)
  obtain ⟨w₁, w₂, w₃, w₄, hraw, h₁, h₂, h₃, h₄, -, htrim⟩ := shape_of_ruleParts hparts
  have hbits : family.bits ≤ 128 := by cases family <;> decide
  rw [integer?_number_digits (htrim.symm ▸ hp) (by omega), htrim] at hlength
  exact ⟨w₁, ipPart.toList, w₂, w₃, prefixRaw.toList, w₄, hraw, h₁, h₂, h₃, h₄,
    String.ofList_toList.symm ▸ hliteral, hp, hlength, hle⟩

/-- A rule is accepted only with a decimal prefix length if and only if its text reads so; and an
address, however it is spelt, is in the rules if and only if an accepted one covers it. -/
theorem parseCidrRule_decimal_iff {isIP : String → Option Family} (hisIP : Recognises isIP) :
    (∀ raw, (∀ cidr, parseCidrRule isIP raw = some cidr →
      ∃ value, DecimalRule raw cidr.family value cidr.length) ↔ ReadsDecimal raw) ∧
    (∀ (raws : List String) (ip : String) (family : Family) (value : Nat),
      Literal ip family value →
      (ipInCidrs isIP ip (raws.filterMap (parseCidrRule isIP)) = true ↔
        ∃ raw ∈ raws, Covers raw family value)) ∧
    ∀ (raws : List String) (ip other : String) (family : Family) (value : Nat),
      Literal ip family value → Literal other family value →
      ipInCidrs isIP ip (raws.filterMap (parseCidrRule isIP)) =
        ipInCidrs isIP other (raws.filterMap (parseCidrRule isIP)) := by
  refine ⟨fun raw => ⟨fun hall ipPart prefixRaw hparts family value hliteral => ?_,
    fun hreads cidr hparse => ?_⟩, fun raws ip family value hip => ipInCidrs_iff hisIP hip raws,
    fun raws ip other family value hip hother => ?_⟩
  · by_contra hnot
    obtain ⟨hnondecimal, hlength⟩ := not_or.1 hnot
    obtain ⟨length, hlength, hle⟩ := not_not.1 hlength
    have hparse := (parseCidrRule_eq_some hisIP).2
      ⟨family, value, length, ⟨ipPart, prefixRaw, hparts, hliteral, hlength, hle⟩, rfl⟩
    obtain ⟨v, hdecimal⟩ := hall _ hparse
    exact hnondecimal (hdecimal.isDigits hparts)
  · obtain ⟨family, value, length, haccepted, rfl⟩ := (parseCidrRule_eq_some hisIP).1 hparse
    exact ⟨value, haccepted.decimalRule hreads⟩
  · rw [Bool.eq_iff_iff, ipInCidrs_iff hisIP hip, ipInCidrs_iff hisIP hother]

theorem parseCidrRule_decimal_iff_familyOf :
    (∀ cidr, parseCidrRule familyOf "10.0.0.0/8" = some cidr →
      ∃ value, DecimalRule "10.0.0.0/8" cidr.family value cidr.length) ↔
    ReadsDecimal "10.0.0.0/8" :=
  (parseCidrRule_decimal_iff recognises_familyOf).1 "10.0.0.0/8"

theorem literal_ten : Literal "10.0.0.0" .v4 (10 * 2 ^ 24) :=
  ⟨[10, 0, 0, 0], ⟨rfl, by decide, by decide⟩, by decide⟩

/-- A prefix length in base sixteen is accepted. -/
theorem hexadecimal_prefix_accepted :
    ∃ cidr, parseCidrRule familyOf "10.0.0.0/0x8" = some cidr ∧
      ¬ ∃ value, DecimalRule "10.0.0.0/0x8" cidr.family value cidr.length := by
  have hparts : ruleParts "10.0.0.0/0x8" = some ("10.0.0.0", "0x8") := by decide
  have hlength : (number "0x8").integer? = some ((8 : Nat) : Int) :=
    (Double.integer?_round_natCast (n := 8) (by omega)).2 rfl
  have haccepted : AcceptedRule "10.0.0.0/0x8" .v4 (10 * 2 ^ 24) 8 :=
    ⟨_, _, hparts, literal_ten, hlength, by decide⟩
  refine ⟨cidrOf .v4 (10 * 2 ^ 24) 8,
    (parseCidrRule_eq_some recognises_familyOf).2 ⟨_, _, _, haccepted, rfl⟩,
    fun ⟨value, hdecimal⟩ => ?_⟩
  exact absurd ((hdecimal.isDigits hparts).2 'x' (by decide)) (by decide)

end AionisCore.Memory
