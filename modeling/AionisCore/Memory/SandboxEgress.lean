import AionisCore.Memory.SandboxCidrs
import AionisCore.Memory.SandboxOutcomes

/-!
# Private addresses and the egress rules

`isPrivateOrLocalIp` flags private, local and multicast addresses, but of the multicast
addresses of IPv6 only those that begin with `ff00`. The executor connects to an address only if
the egress rules cover it, and asks for the flag only of addresses they do not cover.
-/

namespace AionisCore.Memory

open Lib Lib.JsString Lib.IpAddress

section IsIP

variable (isIP : String → Option Family)

def quadString (os : List Nat) : String := String.ofList (['.'].intercalate (os.map natText))

/-- One level of the recursion; `again` is the recursive call. -/
def privateOrLocal (again : String → Bool) (ipRaw : String) : Bool :=
  match ipToBigInt isIP ipRaw with
  | none => true
  | some (.v4, n) =>
    let b1 := (n >>> 24) &&& 0xff
    let b2 := (n >>> 16) &&& 0xff
    b1 = 10 || b1 = 127 || b1 = 0 || (b1 = 169 && b2 = 254) ||
      (b1 = 172 && b2 ≥ 16 && b2 ≤ 31) || (b1 = 192 && b2 = 168) || b1 ≥ 224
  | some (.v6, _) =>
    match parseIpv6ToHextets ipRaw.toList with
    | none => true
    | some ip =>
      let h := ip.getD
      if ip.length ≠ 8 then true
      else if ip.all (· = 0) then true
      else if (ip.take 7).all (· = 0) && h 7 0 = 1 then true
      else if (h 0 0 &&& 0xfe00) = 0xfc00 then true
      else if (h 0 0 &&& 0xffc0) = 0xfe80 then true
      else if h 0 0 = 0xff00 then true
      else if (ip.take 5).all (· = 0) && h 5 0 = 0xffff then
        again (quadString [(h 6 0 >>> 8) &&& 0xff, h 6 0 &&& 0xff, (h 7 0 >>> 8) &&& 0xff,
          h 7 0 &&& 0xff])
      else false

/-- The recursive call is on a dotted quad, which has no recursive call of its own. -/
def isPrivateOrLocalIp (ipRaw : String) : Bool :=
  privateOrLocal isIP (privateOrLocal isIP fun _ => true) ipRaw

/-- The network of the executor, on the addresses as they are read here. -/
def addressNetwork (network : SandboxNetwork ParsedCidr) : SandboxNetwork ParsedCidr :=
  { network with
    isIP := fun ip => (isIP ip).isSome
    ipInCidrs := ipInCidrs isIP
    isPrivateOrLocalIp := isPrivateOrLocalIp isIP }

end IsIP

/-! ## Private and local addresses -/

/-- The blocks of private, local and multicast addresses: the lengths of the prefixes, and what
stands in them. -/
def privateBlocks : Family → List (Nat × Nat)
  | .v4 => [(8, 0), (8, 10), (8, 127), (16, 169 * 256 + 254), (12, 172 * 16 + 1),
      (16, 192 * 256 + 168), (3, 7)]
  | .v6 => [(128, 0), (128, 1), (7, 0x7e), (10, 0x3fa), (8, 0xff)]

/-- The address is in one of the blocks, or is the IPv6 form of an IPv4 address that is. -/
def PrivateOrLocal (family : Family) (value : Nat) : Prop :=
  (∃ block ∈ privateBlocks family, value / 2 ^ (family.bits - block.1) = block.2) ∨
  family = .v6 ∧ value / 2 ^ 32 = 0xffff ∧
    ∃ block ∈ privateBlocks .v4, value % 2 ^ 32 / 2 ^ (32 - block.1) = block.2

theorem privateOrLocal_v4 {value : Nat} : PrivateOrLocal .v4 value ↔
    value / 2 ^ 24 = 0 ∨ value / 2 ^ 24 = 10 ∨ value / 2 ^ 24 = 127 ∨ value / 2 ^ 16 = 43518 ∨
      value / 2 ^ 20 = 2753 ∨ value / 2 ^ 16 = 49320 ∨ value / 2 ^ 29 = 7 := by
  simp [PrivateOrLocal, privateBlocks, Family.bits]

theorem privateOrLocal_v6 {value : Nat} : PrivateOrLocal .v6 value ↔
    (value = 0 ∨ value = 1 ∨ value / 2 ^ 121 = 0x7e ∨ value / 2 ^ 118 = 0x3fa ∨
      value / 2 ^ 120 = 0xff) ∨ value / 2 ^ 32 = 0xffff ∧ PrivateOrLocal .v4 (value % 2 ^ 32) := by
  simp [PrivateOrLocal, privateBlocks, Family.bits]

section Recognises

variable {isIP : String → Option Family} (hisIP : Recognises isIP)

include hisIP

theorem privateOrLocal_v4_eq {again : String → Bool} {ip : String} {value : Nat}
    (hip : Literal ip .v4 value) :
    privateOrLocal isIP again ip = true ↔ PrivateOrLocal .v4 value := by
  have htrim : trim ip = ip := trimmed_of_visible hip.visible
  have hlt : value < 2 ^ 32 := hip.lt
  unfold privateOrLocal
  rw [(ipToBigInt_eq_some hisIP).2 (htrim.symm ▸ hip), privateOrLocal_v4]
  dsimp only
  rw [Nat.shiftRight_eq_div_pow, Nat.shiftRight_eq_div_pow, show 0xff = 2 ^ 8 - 1 from rfl,
    Nat.and_two_pow_sub_one_eq_mod, Nat.and_two_pow_sub_one_eq_mod]
  simp only [Bool.or_eq_true, Bool.and_eq_true, decide_eq_true_iff]
  omega

end Recognises

theorem and_top {h : Nat} (hlt : h < 2 ^ 16) (length x : Nat) :
    h &&& maskOf 16 length = x * 2 ^ (16 - length) ↔ h / 2 ^ (16 - length) = x := by
  rw [and_maskOf hlt]
  exact Nat.mul_left_inj (Nat.two_pow_pos _).ne'

theorem first_hextet {h : Nat} (hlt : h < 2 ^ 16) :
    ((h &&& 0xfe00) = 0xfc00 ↔ h / 2 ^ 9 = 0x7e) ∧ ((h &&& 0xffc0) = 0xfe80 ↔ h / 2 ^ 6 = 0x3fa) :=
  ⟨and_top hlt 7 0x7e, and_top hlt 10 0x3fa⟩

theorem mapped_quad {x y : Nat} (hx : x < 2 ^ 16) (hy : y < 2 ^ 16) :
    let os := [(x >>> 8) &&& 0xff, x &&& 0xff, (y >>> 8) &&& 0xff, y &&& 0xff]
    V4 (quadString os).toList os ∧ pack 8 os = x * 2 ^ 16 + y := by
  dsimp only
  rw [Nat.shiftRight_eq_div_pow, Nat.shiftRight_eq_div_pow, show 0xff = 2 ^ 8 - 1 from rfl,
    Nat.and_two_pow_sub_one_eq_mod, Nat.and_two_pow_sub_one_eq_mod,
    Nat.and_two_pow_sub_one_eq_mod, Nat.and_two_pow_sub_one_eq_mod]
  refine ⟨⟨rfl, ?_, String.toList_ofList⟩, ?_⟩
  · simp only [List.forall_mem_cons, List.not_mem_nil, false_imp_iff, implies_true, and_true]
    omega
  · simp only [pack, List.foldl_cons, List.foldl_nil]
    omega

section Recognises

variable {isIP : String → Option Family} (hisIP : Recognises isIP)

include hisIP

/-- The flag of an IPv6 literal, for a recursive call that is right on dotted quads. -/
theorem privateOrLocal_v6_eq {again : String → Bool} (hagain : ∀ os, V4 (quadString os).toList os →
      (again (quadString os) = true ↔ PrivateOrLocal .v4 (pack 8 os))) {ip : String} {value : Nat}
    (hip : Literal ip .v6 value) : privateOrLocal isIP again ip = true ↔
      (value = 0 ∨ value = 1 ∨ value / 2 ^ 121 = 0x7e ∨ value / 2 ^ 118 = 0x3fa ∨
        value / 2 ^ 112 = 0xff00) ∨
      value / 2 ^ 32 = 0xffff ∧ PrivateOrLocal .v4 (value % 2 ^ 32) := by
  have htrim : trim ip = ip := trimmed_of_visible hip.visible
  have hread := (ipToBigInt_eq_some hisIP).2 (htrim.symm ▸ hip)
  have hvisible := hip.visible
  obtain ⟨hs, hhs, rfl⟩ := hip
  have hparse := parseIpv6ToHextets_literal hhs hvisible
  obtain ⟨a, z, -, ha, -⟩ := hhs
  have hlt := ha.lt
  have hlen := ha.length
  obtain ⟨h0, h1, h2, h3, h4, h5, h6, h7, rfl⟩ : ∃ h0 h1 h2 h3 h4 h5 h6 h7,
      hs = [h0, h1, h2, h3, h4, h5, h6, h7] := by
    match hs, hlen with
    | [h0, h1, h2, h3, h4, h5, h6, h7], _ => exact ⟨h0, h1, h2, h3, h4, h5, h6, h7, rfl⟩
  simp only [List.forall_mem_cons, List.not_mem_nil, false_imp_iff, implies_true, and_true] at hlt
  obtain ⟨hlt0, hlt1, hlt2, hlt3, hlt4, hlt5, hlt6, hlt7⟩ := hlt
  obtain ⟨hquad, hpacked⟩ := mapped_quad hlt6 hlt7
  have hinner := hagain _ hquad
  rw [hpacked] at hinner
  obtain ⟨hunique, hlink⟩ := first_hextet hlt0
  have hvalue : pack 16 [h0, h1, h2, h3, h4, h5, h6, h7] = h0 * 2 ^ 112 + (h1 * 2 ^ 96 +
      h2 * 2 ^ 80 + h3 * 2 ^ 64 + h4 * 2 ^ 48 + h5 * 2 ^ 32 + h6 * 2 ^ 16 + h7) := by
    simp only [pack, List.foldl_cons, List.foldl_nil]
    omega
  have hlow : pack 16 [h0, h1, h2, h3, h4, h5, h6, h7] % 2 ^ 32 = h6 * 2 ^ 16 + h7 := by
    omega
  unfold privateOrLocal
  rw [hread]
  dsimp only
  rw [hparse, hlow]
  generalize pack 16 [h0, h1, h2, h3, h4, h5, h6, h7] = value at hvalue
  simp only [List.length_cons, List.length_nil, List.getD_cons_zero, List.getD_cons_succ,
    List.all_cons, List.all_nil, List.take_succ_cons, List.take_zero, Bool.and_eq_true,
    decide_eq_true_iff, and_true, hunique, hlink]
  rw [if_neg (by omega)]
  split
  · next h => exact iff_of_true rfl (.inl (.inl (by omega)))
  split
  · next h => exact iff_of_true rfl (.inl (.inr (.inl (by omega))))
  split
  · next h => exact iff_of_true rfl (.inl (by omega))
  split
  · next h => exact iff_of_true rfl (.inl (by omega))
  split
  · next h => exact iff_of_true rfl (.inl (by omega))
  split
  · next h =>
    have hmapped : value / 2 ^ 32 = 0xffff := by omega
    rw [hinner]
    exact ⟨fun hp => .inr ⟨hmapped, hp⟩, fun hp => hp.elim (fun hp => by omega) And.right⟩
  · refine iff_of_false (by decide) ?_
    rintro (h | ⟨h, -⟩)
    · omega
    · omega

theorem quad_flagged (again : String → Bool) (os : List Nat) (hos : V4 (quadString os).toList os) :
    privateOrLocal isIP again (quadString os) = true ↔ PrivateOrLocal .v4 (pack 8 os) :=
  privateOrLocal_v4_eq hisIP ⟨os, hos, rfl⟩

/-- The flag is missing from the multicast addresses that do not begin with `ff00`. -/
theorem isPrivateOrLocalIp_iff {ip : String} {family : Family} {value : Nat}
    (hip : Literal ip family value) (hprivate : PrivateOrLocal family value) :
    isPrivateOrLocalIp isIP ip = true ↔
      ¬ (family = .v6 ∧ value / 2 ^ 120 = 0xff ∧ value / 2 ^ 112 ≠ 0xff00) := by
  cases family with
  | v4 => exact iff_of_true ((privateOrLocal_v4_eq hisIP hip).2 hprivate) (by simp)
  | v6 =>
    rw [isPrivateOrLocalIp, privateOrLocal_v6_eq hisIP (quad_flagged hisIP _) hip]
    rcases privateOrLocal_v6.1 hprivate with h | ⟨hmapped, hv4⟩
    · simp only [true_and, not_and_or, not_not]
      omega
    · refine iff_of_true (.inr ⟨hmapped, hv4⟩) ?_
      omega

/-! ## Connections -/

section Network

variable {config : SandboxExecutorConfig ParsedCidr} {network : SandboxNetwork ParsedCidr}
  {host : String} {entries ips : List String}

omit hisIP in
/-- The addresses that are connected to are covered by the rules, with or without the guard. -/
theorem resolvedIps_eq_ok : resolvedIps config network host (some entries) = .ok ips ↔
    ips = (entries.map trim).filter network.isIP ∧ ips ≠ [] ∧
      config.remote.allowedEgressCidrs ≠ [] ∧
      ∀ ip ∈ ips, network.ipInCidrs ip config.remote.allowedEgressCidrs = true := by
  unfold resolvedIps egressAllowed
  dsimp only
  generalize (entries.map trim).filter network.isIP = found
  by_cases hnone : found = []
  · rw [if_pos (by simp [hnone])]
    refine iff_of_false nofun ?_
    rintro ⟨rfl, hne, -⟩
    exact hne hnone
  rw [if_neg (by simp [hnone])]
  by_cases hallowed : config.remote.allowedEgressCidrs ≠ [] ∧
      ∀ ip ∈ found, network.ipInCidrs ip config.remote.allowedEgressCidrs = true
  · obtain ⟨hcidrs, hall⟩ := hallowed
    have hblocked : (found.filter fun ip => network.isPrivateOrLocalIp ip &&
        !network.ipInCidrs ip config.remote.allowedEgressCidrs) = [] :=
      List.filter_eq_nil_iff.2 fun ip hip => by simp [hall ip hip]
    have hpass : (found.all fun ip => network.ipInCidrs ip config.remote.allowedEgressCidrs) =
        true := List.all_eq_true.2 hall
    rw [if_neg (by simp [hcidrs, hnone, hpass]), hblocked, if_neg (by simp), Except.ok.injEq]
    refine ⟨?_, fun h => h.1.symm⟩
    rintro rfl
    exact ⟨rfl, hnone, hcidrs, hall⟩
  · rw [if_pos]
    · refine iff_of_false nofun ?_
      rintro ⟨rfl, -, hcidrs, hall⟩
      exact hallowed ⟨hcidrs, hall⟩
    · rw [not_and_or, not_not] at hallowed
      rcases hallowed with hcidrs | hall
      · simp [hcidrs]
      · have hfail : (found.all fun ip =>
            network.ipInCidrs ip config.remote.allowedEgressCidrs) = false := by
          simpa using hall
        simp [hfail]

/-- The executor connects to no private address, whatever the lookup answers. -/
def NeverConnects (config : SandboxExecutorConfig ParsedCidr)
    (network : SandboxNetwork ParsedCidr) : Prop :=
  ∀ host entries ips, resolvedIps config network host (some entries) = .ok ips →
    ∀ connectIp ∈ ips.head?, ∀ family value,
      Literal connectIp family value → ¬ PrivateOrLocal family value

theorem neverConnects_iff {raws : List String}
    (hcidrs : config.remote.allowedEgressCidrs = raws.filterMap (parseCidrRule isIP)) :
    NeverConnects config (addressNetwork isIP network) ↔
      ∀ ip family value, Literal ip family value → PrivateOrLocal family value →
        ∀ raw ∈ raws, ¬ Covers raw family value := by
  refine ⟨fun h ip family value hip hprivate raw hraw hcovers => ?_,
    fun h host entries ips hips connectIp hconnect family value hip hprivate => ?_⟩
  · have hin := (ipInCidrs_iff hisIP hip raws).2 ⟨raw, hraw, hcovers⟩
    have hfamily : (isIP ip).isSome = true := by
      cases family with
      | v4 =>
        obtain ⟨os, hos, -⟩ := hip
        rw [(hisIP.v4 ip).2 ⟨os, hos⟩]
        rfl
      | v6 =>
        obtain ⟨hs, hhs, -⟩ := hip
        rw [(hisIP.v6 ip).2 ⟨hs, hhs⟩]
        rfl
    have htrim : trim ip = ip := trimmed_of_visible hip.visible
    have hresolved : resolvedIps config (addressNetwork isIP network) "" (some [ip]) =
        .ok [ip] := by
      refine resolvedIps_eq_ok.2 ⟨?_, by simp, fun hnil => ?_, fun other hother => ?_⟩
      · simp [addressNetwork, htrim, hfamily]
      · rw [← hcidrs, hnil] at hin
        simp [ipInCidrs, (ipToBigInt_eq_some hisIP).2 (htrim.symm ▸ hip)] at hin
      · rw [List.mem_singleton.1 hother, hcidrs]
        exact hin
    exact h "" [ip] [ip] hresolved ip rfl family value hip hprivate
  · obtain ⟨-, -, -, hall⟩ := resolvedIps_eq_ok.1 hips
    have hin := hall connectIp (List.mem_of_mem_head? hconnect)
    rw [hcidrs] at hin
    obtain ⟨raw, hraw, hcovers⟩ := (ipInCidrs_iff hisIP hip raws).1 hin
    exact h connectIp family value hip hprivate raw hraw hcovers

end Network

end Recognises

/-- The flag is right on every spelling of an address unless it is a multicast address of IPv6
that does not begin with `ff00`; and the executor never connects to a private address, whatever
the lookup answers, if and only if no egress rule covers one. -/
theorem private_addresses_iff {isIP : String → Option Family} (hisIP : Recognises isIP) :
    (∀ ip family value, Literal ip family value → PrivateOrLocal family value →
      (isPrivateOrLocalIp isIP ip = true ↔
        ¬ (family = .v6 ∧ value / 2 ^ 120 = 0xff ∧ value / 2 ^ 112 ≠ 0xff00))) ∧
    ∀ (config : SandboxExecutorConfig ParsedCidr) (network : SandboxNetwork ParsedCidr)
      (raws : List String), config.remote.denyPrivateIps = true →
      config.remote.allowedEgressCidrs = raws.filterMap (parseCidrRule isIP) →
      (NeverConnects config (addressNetwork isIP network) ↔
        ∀ ip family value, Literal ip family value → PrivateOrLocal family value →
          ∀ raw ∈ raws, ¬ Covers raw family value) :=
  ⟨fun _ _ _ hip hprivate => isPrivateOrLocalIp_iff hisIP hip hprivate,
    fun _ _ _ _ hcidrs => neverConnects_iff hisIP hcidrs⟩

/-- The private network 10/8 is an allowed egress, and private addresses are denied. -/
noncomputable def guardedConfig : SandboxExecutorConfig ParsedCidr where
  mode := .httpRemote
  maxConcurrency := 1
  allowedCommands := ["npm"]
  remote := {
    allowedEgressCidrs := ["10.0.0.0/8"].filterMap (parseCidrRule familyOf)
    denyPrivateIps := true }
  staleAfterMs := 0
  recoveryPollIntervalMs := 0
  recoveryBatchSize := 0

def plainNetwork : SandboxNetwork ParsedCidr where
  hostname url := some url
  sandboxRemoteHostAllowed _ _ := true
  isIP _ := false
  ipInCidrs _ _ := false
  isPrivateOrLocalIp _ := false
  tailText s _ := s
  number _ := none

theorem private_addresses_iff_guarded :
    (isPrivateOrLocalIp familyOf "10.0.0.0" = true ↔
      ¬ (Family.v4 = .v6 ∧ 10 * 2 ^ 24 / 2 ^ 120 = 0xff ∧ 10 * 2 ^ 24 / 2 ^ 112 ≠ 0xff00)) ∧
    (NeverConnects guardedConfig (addressNetwork familyOf plainNetwork) ↔
      ∀ ip family value, Literal ip family value → PrivateOrLocal family value →
        ∀ raw ∈ ["10.0.0.0/8"], ¬ Covers raw family value) := by
  obtain ⟨hflag, hconnect⟩ := private_addresses_iff recognises_familyOf
  exact ⟨hflag "10.0.0.0" .v4 (10 * 2 ^ 24) literal_ten (privateOrLocal_v4.2 (by omega)),
    hconnect guardedConfig plainNetwork ["10.0.0.0/8"] rfl rfl⟩

theorem covers_ten : Covers "10.0.0.0/8" .v4 (10 * 2 ^ 24) := by
  have hparts : ruleParts "10.0.0.0/8" = some ("10.0.0.0", "8") := by decide
  have hlength : (number "8").integer? = some ((8 : Nat) : Int) :=
    (integer?_number_digits (by decide) (by omega)).2 (by decide)
  exact ⟨_, 8, ⟨_, _, hparts, literal_ten, hlength, by decide⟩, rfl⟩

theorem literal_multicast : Literal "ff02::1" .v6 (0xff02 * 2 ^ 112 + 1) := by
  have hleft : Hextet "ff02".toList 0xff02 := ⟨by decide, by decide, by decide⟩
  have hright : Hextet "1".toList 1 := ⟨by decide, by decide, by decide⟩
  refine ⟨_, ⟨_, [], ?_, .compressed (.cons hleft .nil) (.hextet hright .nil) (by decide),
    .inl rfl⟩, ?_⟩
  · decide
  · decide

/-- The multicast address `ff02::1` is not flagged, and a private address that is covered by an
egress rule is connected to although private addresses are denied. -/
theorem multicast_and_covered_private :
    isPrivateOrLocalIp familyOf "ff02::1" = false ∧
    guardedConfig.remote.denyPrivateIps = true ∧
    ¬ NeverConnects guardedConfig (addressNetwork familyOf plainNetwork) := by
  refine ⟨?_, rfl, fun hnever => ?_⟩
  · have hprivate : PrivateOrLocal .v6 (0xff02 * 2 ^ 112 + 1) :=
      privateOrLocal_v6.2 (.inl (by omega))
    have hflag := isPrivateOrLocalIp_iff recognises_familyOf literal_multicast hprivate
    exact Bool.eq_false_iff.2 fun htrue => hflag.1 htrue ⟨rfl, by omega, by omega⟩
  · have hnone := (neverConnects_iff recognises_familyOf (by rfl)).1 hnever
    exact hnone "10.0.0.0" .v4 _ literal_ten (privateOrLocal_v4.2 (by omega)) _
      List.mem_cons_self covers_ten

end AionisCore.Memory
