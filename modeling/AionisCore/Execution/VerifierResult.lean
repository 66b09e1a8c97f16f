import AionisCore.Execution.VerificationSurface

/-!
# What the verifier returns

The evidence of a request names the command behind a prefix of twenty-five characters, in a list
whose entries are bounded by 512. The request itself admits commands of up to 4096 characters.
-/

namespace AionisCore.Execution

open Lib Lib.JsString Lib.Zod

/-! ## The run of a command -/

/-- How the child process ended: its exit code, `null` after a signal, or a failed spawn. -/
inductive ChildEnd where
  | close (code : Option Int)
  | error
  deriving DecidableEq, Repr

/-- What a run of the child process leaves behind. -/
structure ChildRun where
  ended : ChildEnd
  timedOut : Bool
  stdoutTail : String
  stderrTail : String
  durationMs : Nat

def ChildRun.commandResult (run : ChildRun) : RuntimeVerificationCommandResultV1 where
  exitCode := match run.ended with
    | .close code => if run.timedOut then none else code
    | .error => none
  timedOut := run.timedOut
  stdoutTail := run.stdoutTail
  stderrTail := run.stderrTail
  durationMs := run.durationMs
  success := match run.ended with
    | .close code => !run.timedOut && decide (code = some 0)
    | .error => false

/-! ## The references -/

variable {q r : RuntimeVerificationRequestV1} {result : RuntimeVerificationCommandResultV1}
  {claimed : Bool} {reason : Option String}

theorem uniqueStrings_clean {values : List String} {n : Nat} :
    ∀ r ∈ uniqueStrings values n, Trimmed r ∧ r ≠ "" := by
  intro r hr
  obtain ⟨⟨y, -, rfl⟩, hne⟩ := mem_distinctStrings.1 (List.mem_of_mem_take hr)
  exact ⟨trimmed_trim y, hne⟩

/-- A parsed request has trimmed texts within the bounds of its schema. -/
theorem parsed_request (h : q.parse = some r) :
    (Trimmed r.verifierId ∧ r.verifierId ≠ "" ∧ length r.verifierId ≤ 128) ∧
      (Trimmed r.command ∧ r.command ≠ "") ∧
      ∀ ref ∈ r.evidenceRefs, Trimmed ref ∧ ref ≠ "" ∧ length ref ≤ 512 := by
  have htext : ∀ {n : Nat} {s t : String}, trimmed (some n) s = some t →
      Trimmed t ∧ t ≠ "" ∧ length t ≤ n := by
    intro n s t ht
    obtain ⟨rfl, hne, hlen⟩ := trimmed_eq_some.1 ht
    exact ⟨trimmed_trim s, hne, hlen n rfl⟩
  obtain ⟨hv, hc, -, -, he, -⟩ := RuntimeVerificationRequestV1.parse_eq_some.1 h
  refine ⟨htext hv, ⟨(htext hc).1, (htext hc).2.1⟩, fun ref href => ?_⟩
  obtain ⟨x, -, hx⟩ := exists_left_of_forall₂ (trimmedList_eq_some.1 he).2 href
  exact htext hx

/-- The references of one request are short when its command and its own references are. -/
theorem requestRefs_length_le (h : q.parse = some r) {n : Nat} (hn : 145 ≤ n) :
    (∀ ref ∈ distinctStrings (requestRefs r), length ref ≤ n) ↔
      length r.command + 25 ≤ n ∧ ∀ ref ∈ r.evidenceRefs, length ref ≤ n := by
  obtain ⟨⟨hid, hidne, hidlen⟩, ⟨hcmd, hcmdne⟩, hrefs⟩ := parsed_request h
  have hidT : Trimmed ("runtime_verifier:" ++ r.verifierId) := hid.append rfl rfl hidne
  have hcmdT : Trimmed ("runtime_verifier_command:" ++ r.command) := hcmd.append rfl rfl hcmdne
  have hcmdL : length ("runtime_verifier_command:" ++ r.command) = 25 + length r.command := by
    rw [length_append]; rfl
  constructor
  · intro hall
    constructor
    · have hmem : "runtime_verifier_command:" ++ r.command ∈ distinctStrings (requestRefs r) :=
        mem_distinctStrings.2 ⟨⟨_, by simp [requestRefs], hcmdT⟩, by
          intro h0
          rw [h0, length_empty] at hcmdL
          omega⟩
      have := hall _ hmem
      omega
    · intro ref href
      obtain ⟨ht, hne, -⟩ := hrefs ref href
      exact hall ref (mem_distinctStrings.2 ⟨⟨ref, by simp [requestRefs, href], ht⟩, hne⟩)
  · rintro ⟨hlen, hown⟩ ref href
    obtain ⟨⟨y, hy, rfl⟩, hne⟩ := mem_distinctStrings.1 href
    have hconst : ∀ (b : Bool) (s : String), Trimmed s → length s ≤ 145 →
        length (trim (if b then s else "")) ≤ n := by
      intro b s hs hl
      cases b
      · rw [if_neg Bool.false_ne_true, trim_empty, length_empty]
        omega
      · rw [if_pos rfl, hs]
        omega
    rw [requestRefs, List.mem_append] at hy
    simp only [List.mem_cons, List.not_mem_nil, or_false] at hy
    rcases hy with (rfl | rfl | rfl | rfl | rfl) | hy
    · rw [hidT, length_append]
      have : length "runtime_verifier:" = 17 := by rfl
      omega
    · rw [hcmdT, hcmdL]; omega
    · exact hconst _ _ (by decide) (by decide)
    · exact hconst _ _ (by decide) (by decide)
    · exact hconst _ _ (by decide) (by decide)
    · rw [(hrefs y hy).1]
      exact hown y hy

theorem second_mem_take {x y : String} {xs : List String} {n : Nat} :
    y ∈ (x :: y :: xs).eraseDups.take (n + 2) := by
  rw [List.eraseDups_cons, List.take_succ_cons]
  by_cases heq : y = x
  · rw [heq]
    exact List.mem_cons_self
  · rw [List.filter_cons_of_pos (by simpa using heq), List.eraseDups_cons, List.take_succ_cons]
    exact List.mem_cons_of_mem _ List.mem_cons_self

/-- The command is named in second place, so no cut removes it. -/
theorem commandRef_mem (h : q.parse = some r) :
    "runtime_verifier_command:" ++ r.command ∈ uniqueStrings (requestRefs r) 64 := by
  obtain ⟨⟨hid, hidne, -⟩, ⟨hcmd, hcmdne⟩, -⟩ := parsed_request h
  have hidT : trim ("runtime_verifier:" ++ r.verifierId) = "runtime_verifier:" ++ r.verifierId :=
    hid.append rfl rfl hidne
  have hcmdT : trim ("runtime_verifier_command:" ++ r.command) =
      "runtime_verifier_command:" ++ r.command := hcmd.append rfl rfl hcmdne
  rw [uniqueStrings, distinctStrings, requestRefs, List.cons_append, List.cons_append,
    List.map_cons, List.map_cons, hidT, hcmdT,
    List.filter_cons_of_pos (by simp [hidne]),
    List.filter_cons_of_pos (by simp [hcmdne])]
  exact second_mem_take

theorem length_commandRef (r : RuntimeVerificationRequestV1) :
    length ("runtime_verifier_command:" ++ r.command) = length r.command + 25 := by
  rw [length_append, Nat.add_comm]
  rfl

/-- The list bound of 512 characters leaves 487 for the command. -/
theorem stringList_requestRefs (h : q.parse = some r) :
    (∃ refs, stringList (uniqueStrings (requestRefs r) 64) = some refs) ↔
      length r.command ≤ 487 := by
  constructor
  · rintro ⟨refs, hrefs⟩
    have hfits := ((trimmedList_of_clean uniqueStrings_clean).1 hrefs).1.2 _ (commandRef_mem h)
    rw [length_commandRef] at hfits
    omega
  · intro hcmd
    have hshort : ∀ ref ∈ distinctStrings (requestRefs r), length ref ≤ 512 :=
      (requestRefs_length_le h (by omega)).2
        ⟨by omega, fun ref href => ((parsed_request h).2.2 ref href).2.2⟩
    have hcount : (uniqueStrings (requestRefs r) 64).length ≤ 64 := by
      rw [uniqueStrings, List.length_take]
      omega
    exact ⟨_, (trimmedList_of_clean uniqueStrings_clean).2
      ⟨⟨hcount, fun ref href => hshort ref (List.mem_of_mem_take href)⟩, rfl⟩⟩

theorem buildRuntimeVerifierExecutionEvidenceV1_iff {q r : RuntimeVerificationRequestV1}
    {result : RuntimeVerificationCommandResultV1} {claimed : Bool} {reason : Option String}
    (hq : q.parse = some r) :
    (∃ e, buildRuntimeVerifierExecutionEvidenceV1 q result claimed reason = some e) ↔
      (∃ text, nullableText (some 256) (reason <|> failureReasonFor result) = some text) ∧
        length r.command ≤ 487 := by
  rw [← stringList_requestRefs hq, buildRuntimeVerifierExecutionEvidenceV1, hq,
    Option.bind_eq_bind, Option.bind_some]
  generalize uniqueStrings (requestRefs r) 64 = refs
  constructor
  · rintro ⟨e, he⟩
    obtain ⟨hreason, hrefs, -⟩ := RuntimeVerifierExecutionEvidenceV1.parse_eq_some.1 he
    exact ⟨⟨_, hreason⟩, ⟨_, hrefs⟩⟩
  · rintro ⟨hreason, hrefs⟩
    exact RuntimeVerifierExecutionEvidenceV1.exists_parse hreason hrefs

/-- The verifier accepts its own evidence when the command leaves room for its prefix. -/
theorem buildEvidence_of_short {text : Option String} (hq : q.parse = some r)
    (hreason : nullableText (some 256) (reason <|> failureReasonFor result) = some text)
    (hcmd : length r.command ≤ 487) :
    ∃ e, buildRuntimeVerifierExecutionEvidenceV1 q result claimed reason = some e :=
  (buildRuntimeVerifierExecutionEvidenceV1_iff hq).2 ⟨⟨text, hreason⟩, hcmd⟩

theorem buildRuntimeVerifierExecutionEvidenceV1_parse {e : RuntimeVerifierExecutionEvidenceV1}
    (h : buildRuntimeVerifierExecutionEvidenceV1 q result claimed reason = some e) :
    e.parse = some e := by
  unfold buildRuntimeVerifierExecutionEvidenceV1 at h
  obtain ⟨r, -, h⟩ := Option.bind_eq_some_iff.1 h
  exact RuntimeVerifierExecutionEvidenceV1.parse_parse h

/-! ## Failure reasons -/

/-- An integral number of the runtime: it is finite and prints at most seventeen digits. -/
structure IsNumber (n : Int) : Prop where
  inRange : (exitCodeDecimal n).InRange
  digits : (exitCodeDecimal n).digits < 10 ^ 17

instance (n : Int) : Decidable (IsNumber n) :=
  decidable_of_iff ((exitCodeDecimal n).InRange ∧ (exitCodeDecimal n).digits < 10 ^ 17)
    ⟨fun h => ⟨h.1, h.2⟩, fun h => ⟨h.inRange, h.digits⟩⟩

theorem length_ofList_le (cs : List Char) : length (String.ofList cs) ≤ 2 * cs.length := by
  rw [length, String.toList_ofList]
  induction cs with
  | nil => exact Nat.zero_le _
  | cons c cs ih =>
    have hwidth : width c ≤ 2 := by
      unfold width
      split <;> omega
    rw [List.map_cons, List.sum_cons, List.length_cons]
    omega

theorem nullableText_some_iff {s : String} :
    (∃ text, nullableText (some 256) (some s) = some text) ↔
      trim s ≠ "" ∧ length (trim s) ≤ 256 := by
  constructor
  · rintro ⟨text, htext⟩
    obtain ⟨t, ht, -⟩ := Option.map_eq_some_iff.1 htext
    obtain ⟨rfl, hne, hlength⟩ := trimmed_eq_some.1 ht
    exact ⟨hne, hlength 256 rfl⟩
  · rintro ⟨hne, hlength⟩
    have ht : trimmed (some 256) s = some (trim s) :=
      trimmed_eq_some.2 ⟨rfl, hne, fun n hn => by cases hn; exact hlength⟩
    exact ⟨some (trim s), Option.map_eq_some_iff.2 ⟨_, ht, rfl⟩⟩

/-- A text of at most 256 characters that shows something is a failure reason. -/
theorem nullableText_of_visible {s : String} {c : Char} (hmem : c ∈ s.toList)
    (hc : isWhite c = false) (hlength : length s ≤ 256) :
    ∃ text, nullableText (some 256) (some s) = some text := by
  refine nullableText_some_iff.2 ⟨?_, (length_trim_le s).trans hlength⟩
  intro hempty
  have hvisible := mem_trim hmem hc
  rw [hempty] at hvisible
  cases hvisible

theorem failureReasonFor_fits (hexit : ∀ n ∈ result.exitCode, IsNumber n) :
    ∃ text, nullableText (some 256) (failureReasonFor result) = some text := by
  unfold failureReasonFor
  split
  · exact ⟨none, rfl⟩
  · split
    · exact @nullableText_of_visible _ 'r' (by decide) (by decide) (by decide)
    · refine @nullableText_of_visible _ 'r' ?_ (by decide) ?_
      · rw [String.toList_append]
        exact List.mem_append_left _ (by decide)
      · rw [length_append]
        have hhead : length "runtime_verifier_exit_code_" = 27 := rfl
        cases hcode : result.exitCode with
        | none =>
          have hnull : length "null" = 4 := rfl
          simp only
          omega
        | some n =>
          obtain ⟨hrange, hdigits⟩ := hexit n hcode
          have htext := Decimal.length_text_le hrange hdigits
          have := length_ofList_le (exitCodeDecimal n).text
          simp only
          omega

/-! ## Long commands -/

/-- A text of `n` visible characters. -/
def xs (n : Nat) : String := String.ofList (List.replicate n 'x')

theorem xs_length (n : Nat) : length (xs n) = n := by
  rw [length, xs, String.toList_ofList, List.map_replicate, List.sum_replicate]
  exact Nat.mul_one n

theorem xs_trimmed (n : Nat) : Trimmed (xs n) := by
  have hends : trimChars (List.replicate n 'x') = List.replicate n 'x' := by
    refine trimChars_eq_self ?_ ?_
    · intro c hc
      obtain rfl := List.eq_of_mem_replicate (List.mem_of_mem_head? hc)
      rfl
    · intro c hc
      obtain rfl := List.eq_of_mem_replicate (List.mem_of_mem_getLast? hc)
      rfl
  rw [Trimmed, trim, xs, String.toList_ofList, hends]

theorem xs_parse {n : Nat} (hpos : 1 ≤ n) (hmax : n ≤ 4096) :
    RuntimeVerificationRequestV1.parse { verifierId := "v", command := xs n } =
      some { verifierId := "v", command := xs n } := by
  have hid : trimmed (some 128) "v" = some "v" := by decide
  have htimeout : 0 < 30000 ∧ 30000 ≤ 300000 := by decide
  refine RuntimeVerificationRequestV1.parse_eq_some.2 ⟨hid, ?_, rfl, htimeout, rfl, rfl⟩
  refine trimmed_eq_some.2 ⟨(xs_trimmed n).symm, fun hempty => ?_, fun m hm => ?_⟩
  · have hlength := xs_length n
    rw [show xs n = "" from hempty, length_empty] at hlength
    omega
  · obtain rfl := Option.some.inj hm
    exact (xs_length n).trans_le hmax

/-! ## The result -/

theorem buildRuntimeVerificationResultV1_iff {outcome : RuntimeVerificationCommandResultV1}
    (hq : q.parse = some r) :
    (∃ result, buildRuntimeVerificationResultV1 q outcome claimed reason = some result ∧
      result.parse = some result) ↔
      (∃ text, nullableText (some 256) (reason <|> failureReasonFor outcome) = some text) ∧
        length r.command ≤ 487 := by
  have hr := RuntimeVerificationRequestV1.parse_parse hq
  rw [← @buildRuntimeVerifierExecutionEvidenceV1_iff r r outcome claimed reason hr,
    buildRuntimeVerificationResultV1, hq, Option.bind_eq_bind, Option.bind_some]
  constructor
  · rintro ⟨result, hresult, -⟩
    obtain ⟨e, he, -⟩ := Option.bind_eq_some_iff.1 hresult
    exact ⟨e, he⟩
  · rintro ⟨e, he⟩
    have hparse : RuntimeVerificationResultV1.parse ⟨r, outcome, e⟩ = some ⟨r, outcome, e⟩ :=
      RuntimeVerificationResultV1.parse_eq_some.2
        ⟨hr, buildRuntimeVerifierExecutionEvidenceV1_parse he, rfl⟩
    exact ⟨_, Option.bind_eq_some_iff.2 ⟨e, he, hparse⟩, hparse⟩

theorem runRuntimeVerifierCommandV1_iff {outcome : RuntimeVerificationCommandResultV1}
    {control : RuntimeVerificationControlV1} (hq : q.parse = some r) :
    (∃ result, runRuntimeVerifierCommandV1 control outcome q = some result ∧
      result.parse = some result) ↔
      (∃ text, nullableText (some 256) (failureReasonFor outcome) = some text) ∧
        length r.command ≤ 487 := by
  rw [runRuntimeVerifierCommandV1, hq, Option.bind_eq_bind, Option.bind_some,
    buildRuntimeVerificationResultV1_iff (RuntimeVerificationRequestV1.parse_parse hq)]
  rfl

/-- A request and an outcome that their schemas admit yield a result just if the command leaves
room for its prefix and the failure reason of the caller, if there is one, fits; the run of the
command brings no reason. -/
theorem result_returned_iff {requestIn request : RuntimeVerificationRequestV1}
    {outcome : RuntimeVerificationCommandResultV1} {agentClaimedSuccess : Bool}
    {failureReason : Option String} {control : RuntimeVerificationControlV1} {run : ChildRun}
    (hrequest : requestIn.parse = some request)
    (hexit : ∀ n ∈ outcome.exitCode, IsNumber n)
    (hrun : ∀ n ∈ run.commandResult.exitCode, IsNumber n) :
    ((∃ result, buildRuntimeVerificationResultV1 requestIn outcome agentClaimedSuccess
        failureReason = some result ∧ result.parse = some result) ↔
      length request.command ≤ 487 ∧
        ∀ reason ∈ failureReason, trim reason ≠ "" ∧ length (trim reason) ≤ 256) ∧
    ((∃ result, runRuntimeVerifierCommandV1 control run.commandResult requestIn = some result ∧
        result.parse = some result) ↔
      length request.command ≤ 487) := by
  constructor
  · rw [buildRuntimeVerificationResultV1_iff hrequest, and_comm]
    refine and_congr_right fun _ => ?_
    cases failureReason with
    | none => exact iff_of_true (failureReasonFor_fits hexit) (by simp)
    | some reason =>
      simp only [Option.mem_some_iff, forall_eq']
      exact @nullableText_some_iff reason
  · rw [runRuntimeVerifierCommandV1_iff hrequest]
    exact and_iff_right (failureReasonFor_fits hrun)

def testRequest (verifierId : String) : RuntimeVerificationRequestV1 where
  verifierId := verifierId
  command := "npm test"

def failedRun : ChildRun := ⟨.close (some 1), false, "", "", 5⟩

theorem result_returned_short :
    ((∃ result, buildRuntimeVerificationResultV1 (testRequest " v ") failedRun.commandResult true
        (some "lint") = some result ∧ result.parse = some result) ↔
      length "npm test" ≤ 487 ∧
        ∀ reason ∈ some "lint", trim reason ≠ "" ∧ length (trim reason) ≤ 256) ∧
    ((∃ result, runRuntimeVerifierCommandV1 {} failedRun.commandResult (testRequest " v ") =
        some result ∧ result.parse = some result) ↔
      length "npm test" ≤ 487) :=
  @result_returned_iff (testRequest " v ") (testRequest "v") failedRun.commandResult true
    (some "lint") {} failedRun (by decide +kernel) (by decide +kernel) (by decide +kernel)

/-- A command of 488 characters runs to its end, and its result is lost. -/
theorem long_command_raises :
    RuntimeVerificationRequestV1.parse { verifierId := "v", command := xs 488 } =
      some { verifierId := "v", command := xs 488 } ∧
    runRuntimeVerifierCommandV1 {} (ChildRun.mk (.close (some 0)) false "ok" "" 5).commandResult
      { verifierId := "v", command := xs 488 } = none := by
  have hparsed := @xs_parse 488 (by omega) (by omega)
  refine ⟨hparsed, ?_⟩
  by_contra hsome
  obtain ⟨result, hresult⟩ := Option.ne_none_iff_exists'.1 hsome
  have hparse := (runRuntimeVerifierCommandV1_eq_some hparsed hresult).2
  have hshort := ((runRuntimeVerifierCommandV1_iff hparsed).1 ⟨result, hresult, hparse⟩).2
  rw [xs_length] at hshort
  omega

end AionisCore.Execution
