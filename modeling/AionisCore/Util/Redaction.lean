import AionisCore.Lib.JsNumber
import AionisCore.Lib.Json
import AionisCore.Lib.OrderedMap
import AionisCore.Lib.Regex

/-!
# Redaction of personal data

Four passes replace email addresses, social security numbers, IPv4 addresses and phone numbers by
tags with a digest. The pattern of the last pass does not ask for a word boundary in front of a
phone number. So its tag may give a boundary to digits that had none before, and they can be what
an earlier pass would have replaced.
-/

namespace AionisCore.Util.Redaction

open Lib Lib.JsString Lib.Regex

/-! ## Patterns -/

def literal (c : Char) : Re := .chars (· == c) 1 (some 1)

def digitRun (lo hi : Nat) : Re := .chars isDigit lo (some hi)

/-- `[A-Z0-9._%+-]+@[A-Z0-9.-]+\.[A-Z]{2,}`, in either case. -/
def email : Pattern where
  left := false
  re := .seq (.chars (fun c => c.isAlphanum || c ∈ ['.', '_', '%', '+', '-']) 1 none) <|
    .seq (literal '@') <|
    .seq (.chars (fun c => c.isAlphanum || c ∈ ['.', '-']) 1 none) <|
    .seq (literal '.') (.chars Char.isAlpha 2 none)
  right := false
  pos := by decide

/-- `\b\d{3}-\d{2}-\d{4}\b`. -/
def ssn : Pattern where
  left := true
  re := .seq (digitRun 3 3) <| .seq (literal '-') <| .seq (digitRun 2 2) <|
    .seq (literal '-') (digitRun 4 4)
  right := true
  pos := by decide

/-- `\b(?:\d{1,3}\.){3}\d{1,3}\b`. -/
def ipv4 : Pattern where
  left := true
  re := .seq (.seq (digitRun 1 3) (literal '.')) <| .seq (.seq (digitRun 1 3) (literal '.')) <|
    .seq (.seq (digitRun 1 3) (literal '.')) (digitRun 1 3)
  right := true
  pos := by decide

/-- `[\s-]?`. -/
def separator : Re := .chars (fun c => isWhite c || c == '-') 0 (some 1)

/-- `(?:\+?1[\s-]?)?(?:\(\s*\d{3}\s*\)|\d{3})[\s-]?\d{3}[\s-]?\d{4}\b`. -/
def phone : Pattern where
  left := false
  re :=
    .seq (.opt (.seq (.chars (· == '+') 0 (some 1)) (.seq (literal '1') separator))) <|
    .seq (.alt
      (.seq (literal '(') <| .seq (.chars isWhite 0 none) <| .seq (digitRun 3 3) <|
        .seq (.chars isWhite 0 none) (literal ')'))
      (digitRun 3 3)) <|
    .seq separator <| .seq (digitRun 3 3) <| .seq separator (digitRun 4 4)
  right := true
  pos := by decide

/-! ## Redaction -/

abbrev Counts := List (String × Nat)

/-- `counts[k] = (counts[k] ?? 0) + n`. -/
def Counts.add (counts : Counts) (k : String) (n : Nat) : Counts :=
  OrderedMap.setEntry k ((OrderedMap.getEntry k counts).getD 0 + n) counts

structure RedactionResult where
  text : String
  counts : Counts
  deriving DecidableEq, Repr

section Redact

variable (sha256Hex : String → String)

def tag (kind value : String) : String :=
  let h := String.ofList ((sha256Hex value).toList.take 8)
  "[" ++ kind ++ "#" ++ h ++ "]"

/-- `text.replace(pat, …)` with a tag for each match, which is counted. -/
def redactPass (key kind : String) (pat : Pattern) (r : RedactionResult) : RedactionResult where
  text := String.ofList
    (pat.replace (fun m => (tag sha256Hex kind (String.ofList m)).toList) r.text.toList)
  counts := (pat.pieces r.text.toList).foldl (fun counts p =>
    match p with
    | .found _ => counts.add key 1
    | .plain _ => counts) r.counts

/-- The first three passes. -/
def beforePhones (input : String) : RedactionResult :=
  redactPass sha256Hex "ip" "IP" ipv4 <| redactPass sha256Hex "ssn" "SSN" ssn <|
    redactPass sha256Hex "email" "EMAIL" email { text := input, counts := [] }

def redactPII (input : String) : RedactionResult :=
  redactPass sha256Hex "phone" "PHONE" phone (beforePhones sha256Hex input)

def mergeCounts (counts c : Counts) : Counts :=
  c.foldl (fun counts kv => counts.add kv.1 kv.2) counts

mutual

def walk : Json → Counts → Json × Counts
  | .str s, counts =>
    let r := redactPII sha256Hex s
    (.str r.text, mergeCounts counts r.counts)
  | .arr xs, counts => (.arr (walkList xs counts).1, (walkList xs counts).2)
  | .obj fields, counts =>
    -- an assignment to `__proto__` makes no field
    (.obj ((walkFields fields counts).1.filter (·.1 ≠ "__proto__")), (walkFields fields counts).2)
  | v, counts => (v, counts)

def walkList : List Json → Counts → List Json × Counts
  | [], counts => ([], counts)
  | x :: xs, counts =>
    let r := walk x counts
    let rs := walkList xs r.2
    (r.1 :: rs.1, rs.2)

def walkFields : List (String × Json) → Counts → List (String × Json) × Counts
  | [], counts => ([], counts)
  | f :: fs, counts =>
    let r := walkField f counts
    let rs := walkFields fs r.2
    (r.1 :: rs.1, rs.2)

def walkField : String × Json → Counts → (String × Json) × Counts
  | (k, v), counts =>
    let r := walk v counts
    ((k, r.1), r.2)

end

def redactJsonStrings (value : Json) : Json × Counts := walk sha256Hex value []

end Redact

/-! ## What the patterns read -/

variable {m : List Char} {c : Char} {pat : Pattern}

theorem lang_literal (h : (literal c).Lang m) : m = [c] := by
  obtain ⟨hall, hlo, hhi⟩ := h
  have hlen : m.length = 1 := le_antisymm (hhi 1 rfl) hlo
  obtain ⟨d, rfl⟩ := List.length_eq_one_iff.1 hlen
  rw [beq_iff_eq.1 (hall d List.mem_cons_self)]

/-- A non-empty run of digits begins and ends with a character of a word. -/
theorem digitRun_ends {lo hi : Nat} (hlo : 0 < lo) (h : (digitRun lo hi).Lang m) :
    (∃ c u, m = c :: u ∧ isDigit c = true) ∧ ∃ u c, m = u ++ [c] ∧ isDigit c = true := by
  obtain ⟨hall, hlen, -⟩ := h
  have hne : m ≠ [] := List.length_pos_iff.1 (by omega)
  refine ⟨?_, ?_⟩
  · obtain ⟨c, u, rfl⟩ := List.exists_cons_of_ne_nil hne
    exact ⟨c, u, rfl, hall c List.mem_cons_self⟩
  · obtain rfl | ⟨u, c, rfl⟩ := m.eq_nil_or_concat'
    · exact absurd rfl hne
    · exact ⟨u, c, rfl, hall c (by simp)⟩

theorem isWord_of_isDigit (h : isDigit c = true) : isWord c = true := by
  have hdigit : c.isDigit = true := h
  simp [isWord, Char.isAlphanum, hdigit]

theorem email_reads_at (h : email.re.Lang m) : '@' ∈ m := by
  obtain ⟨x, y, rfl, -, u, v, rfl, hu, -⟩ := h
  simp [lang_literal hu]

theorem ssn_shape (h : ssn.re.Lang m) : '-' ∈ m ∧ ∃ c u, m = c :: u ∧ isDigit c = true := by
  obtain ⟨x, y, rfl, hx, u, v, rfl, hu, -⟩ := h
  obtain ⟨⟨c, w, rfl, hc⟩, -⟩ := digitRun_ends (by omega) hx
  exact ⟨by simp [lang_literal hu], c, _, rfl, hc⟩

theorem ipv4_shape (h : ipv4.re.Lang m) : '.' ∈ m ∧ ∃ c u, m = c :: u ∧ isDigit c = true := by
  obtain ⟨x, y, rfl, ⟨u, v, rfl, hu, hv⟩, -⟩ := h
  obtain ⟨⟨c, w, rfl, hc⟩, -⟩ := digitRun_ends (by omega) hu
  exact ⟨by simp [lang_literal hv], c, _, rfl, hc⟩

theorem ends_with_digit (hpat : pat ∈ [ssn, ipv4, phone]) (h : pat.re.Lang m) :
    ∃ u c, m = u ++ [c] ∧ isDigit c = true := by
  have hrun : ∃ x y lo hi, m = x ++ y ∧ 0 < lo ∧ (digitRun lo hi).Lang y := by
    simp only [List.mem_cons, List.not_mem_nil, or_false] at hpat
    rcases hpat with rfl | rfl | rfl
    · obtain ⟨a, -, rfl, -, b, -, rfl, -, c, -, rfl, -, d, e, rfl, -, he⟩ := h
      exact ⟨a ++ (b ++ (c ++ d)), e, 4, 4, by simp, by omega, he⟩
    · obtain ⟨a, -, rfl, -, b, -, rfl, -, c, e, rfl, -, he⟩ := h
      exact ⟨a ++ (b ++ c), e, 1, 3, by simp, by omega, he⟩
    · obtain ⟨a, -, rfl, -, b, -, rfl, -, c, -, rfl, -, d, -, rfl, -, f, e, rfl, -, he⟩ := h
      exact ⟨a ++ (b ++ (c ++ (d ++ f))), e, 4, 4, by simp, by omega, he⟩
  obtain ⟨x, y, lo, hi, rfl, hlo, hy⟩ := hrun
  obtain ⟨-, u, c, rfl, hc⟩ := digitRun_ends hlo hy
  exact ⟨x ++ u, c, (List.append_assoc _ _ _).symm, hc⟩

/-! ## Tags are inert -/

def isHexDigit (c : Char) : Bool := isDigit c || ('a' ≤ c && c ≤ 'f')

/-- The digests are hexadecimal. -/
def HexDigest (sha256Hex : String → String) : Prop :=
  ∀ value, ∀ c ∈ (sha256Hex value).toList, isHexDigit c = true

variable {sha256Hex : String → String}

theorem tag_toList (kind value : String) : (tag sha256Hex kind value).toList =
    '[' :: (kind.toList ++ '#' :: ((sha256Hex value).toList.take 8 ++ [']'])) := by
  simp [tag]

/-- The kinds of tags. -/
def kinds : List String := ["EMAIL", "SSN", "IP", "PHONE"]

variable {kind key : String}

theorem not_mem_tag (hsha : HexDigest sha256Hex) {value : String} (hkind : kind ∈ kinds)
    (hc : c ∈ ['@', '-', '.']) : c ∉ (tag sha256Hex kind value).toList := by
  have hletters : ∀ kind ∈ kinds, '@' ∉ kind.toList ∧ '-' ∉ kind.toList ∧ '.' ∉ kind.toList := by
    decide
  have hkinds := hletters kind hkind
  have hother : c ∉ kind.toList ∧ c ≠ '[' ∧ c ≠ '#' ∧ c ≠ ']' ∧ isHexDigit c = false := by
    simp only [List.mem_cons, List.not_mem_nil, or_false] at hc
    rcases hc with rfl | rfl | rfl
    · exact ⟨hkinds.1, by decide⟩
    · exact ⟨hkinds.2.1, by decide⟩
    · exact ⟨hkinds.2.2, by decide⟩
  obtain ⟨hletter, hopen, hhash, hclose, hhex⟩ := hother
  rw [tag_toList, List.mem_cons, List.mem_append, List.mem_cons, List.mem_append,
    List.mem_singleton]
  rintro (h | h | h | h | h)
  · exact hopen h
  · exact hletter h
  · exact hhash h
  · rw [hsha value c (List.mem_of_mem_take h)] at hhex
    cases hhex
  · exact hclose h

theorem inert_tag (hsha : HexDigest sha256Hex) {value : String} (hkind : kind ∈ kinds)
    (hpat : pat ∈ [email, ssn, ipv4, phone]) :
    Pattern.Inert pat.re.Lang (tag sha256Hex kind value).toList := by
  have hbrackets : ∀ m, pat.re.Lang m → '[' ∉ m ∧ ']' ∉ m := by
    intro m hm
    have hreads : pat.re.reads '[' = false ∧ pat.re.reads ']' = false := by
      simp only [List.mem_cons, List.not_mem_nil, or_false] at hpat
      rcases hpat with rfl | rfl | rfl | rfl <;> decide
    refine ⟨fun hmem => ?_, fun hmem => ?_⟩
    · rw [hm.reads _ hmem] at hreads
      cases hreads.1
    · rw [hm.reads _ hmem] at hreads
      cases hreads.2
  refine ⟨⟨'[', _, tag_toList kind value, fun m hm => (hbrackets m hm).1⟩,
    ⟨'[' :: (kind.toList ++ '#' :: (sha256Hex value).toList.take 8), ']', ?_,
      fun m hm => (hbrackets m hm).2⟩, ?_⟩
  · rw [tag_toList]
    simp
  · intro a m b htag hm
    have hin : ∀ c ∈ m, c ∈ (tag sha256Hex kind value).toList := by
      intro c hc
      rw [htag]
      simp [hc]
    simp only [List.mem_cons, List.not_mem_nil, or_false] at hpat
    rcases hpat with rfl | rfl | rfl | rfl
    · exact not_mem_tag hsha hkind (by decide) (hin _ (email_reads_at hm))
    · exact not_mem_tag hsha hkind (by decide) (hin _ (ssn_shape hm).1)
    · exact not_mem_tag hsha hkind (by decide) (hin _ (ipv4_shape hm).1)
    -- a phone number has ten characters, and only the digest has some that it may have
    · have hlen : 10 ≤ m.length := hm.least_le
      have hcount : m.countP phone.re.reads = m.length :=
        List.countP_eq_length.2 fun c hc => hm.reads c hc
      have hle : m.countP phone.re.reads ≤
          (tag sha256Hex kind value).toList.countP phone.re.reads := by
        rw [htag, List.countP_append, List.countP_append]
        omega
      have hletters : ∀ kind ∈ kinds, kind.toList.countP phone.re.reads = 0 := by decide
      have hdigest := List.countP_le_length (p := phone.re.reads)
        (l := (sha256Hex value).toList.take 8)
      rw [tag_toList, List.countP_cons, List.countP_append, hletters kind hkind, List.countP_cons,
        List.countP_append] at hle
      have htake := List.length_take_le 8 (sha256Hex value).toList
      have hopen : phone.re.reads '[' = false := by decide
      have hhash : phone.re.reads '#' = false := by decide
      have hclose : [']'].countP phone.re.reads = 0 := by decide
      rw [hopen, hhash, hclose] at hle
      simp only [Bool.false_eq_true, if_false] at hle
      omega

/-! ## What a redacted text still has -/

def patterns : List Pattern := [email, ssn, ipv4, phone]

/-- No pattern occurs in the text. -/
def Clean (text : String) : Prop := ∀ pat ∈ patterns, ¬ pat.Occurs text.toList

/-- The last pass finds a phone number directly behind a social security number or an IPv4
address at a word boundary, or behind a phone number. -/
def PhoneBehindMatch (text : String) : Prop :=
  ∃ qs m w rs, phone.pieces text.toList = qs ++ m.map .plain ++ .found w :: rs ∧
    ∃ pat ∈ [ssn, ipv4, phone], pat.re.Lang m ∧
      (pat.left = true → boundary (Pattern.render id qs).getLast? m.head? = true)

variable {r : RedactionResult}

theorem redactPass_toList :
    (redactPass sha256Hex key kind pat r).text.toList =
      pat.replace (fun m => (tag sha256Hex kind (String.ofList m)).toList) r.text.toList :=
  String.toList_ofList

/-- A pass does not bring in what its pattern is at least as strict at both ends as. -/
theorem not_occurs_redactPass (hsha : HexDigest sha256Hex) (hkind : kind ∈ kinds) {Q : Pattern}
    (hQ : Q ∈ patterns) (h : ¬ Q.Occurs r.text.toList) (hleft : Q.left = true → pat.right = true)
    (hright : Q.right = true → pat.left = true) :
    ¬ Q.Occurs (redactPass sha256Hex key kind pat r).text.toList := by
  rw [redactPass_toList]
  exact Pattern.not_occurs_replace h hleft hright fun w _ => inert_tag hsha hkind hQ

theorem not_occurs_redactPass_self (hsha : HexDigest sha256Hex) (hkind : kind ∈ kinds)
    (hpat : pat ∈ patterns) (hflags : pat.left = pat.right) :
    ¬ pat.Occurs (redactPass sha256Hex key kind pat r).text.toList := by
  rw [redactPass_toList]
  exact Pattern.not_occurs_replace_self hflags fun w _ => inert_tag hsha hkind hpat

/-- Before the last pass nothing is left that the others look for. -/
theorem beforePhones_clean (hsha : HexDigest sha256Hex) (input : String) :
    ∀ pat ∈ [email, ssn, ipv4], ¬ pat.Occurs (beforePhones sha256Hex input).text.toList := by
  intro pat hpat
  simp only [List.mem_cons, List.not_mem_nil, or_false] at hpat
  unfold beforePhones
  rcases hpat with rfl | rfl | rfl
  · refine not_occurs_redactPass hsha (by decide) (by simp [patterns]) ?_ nofun nofun
    refine not_occurs_redactPass hsha (by decide) (by simp [patterns]) ?_ nofun nofun
    exact not_occurs_redactPass_self hsha (by decide) (by simp [patterns]) rfl
  · refine not_occurs_redactPass hsha (by decide) (by simp [patterns]) ?_ (fun _ => rfl)
      fun _ => rfl
    exact not_occurs_redactPass_self hsha (by decide) (by simp [patterns]) rfl
  · exact not_occurs_redactPass_self hsha (by decide) (by simp [patterns]) rfl

/-- A boundary in front of what begins with a digit stays one behind a tag. -/
theorem boundary_render {tag : List Char → List Char} {qs : List Pattern.Piece} {u : List Char}
    (hc : isDigit c = true) (htag : ∀ w, ∃ v, tag w = v ++ [']'])
    (h : boundary (Pattern.render id qs).getLast? (c :: u).head? = true) :
    boundary (Pattern.render tag qs).getLast? (c :: u).head? = true := by
  obtain rfl | ⟨qs, p, rfl⟩ := qs.eq_nil_or_concat'
  · exact h
  cases p with
  | plain d =>
    rw [Pattern.render_append, Pattern.render_plain, Pattern.render_nil,
      List.getLast?_concat] at h ⊢
    exact h
  | found w =>
    obtain ⟨v, hv⟩ := htag w
    rw [Pattern.render_append, Pattern.render_found, Pattern.render_nil, List.append_nil, hv,
      ← List.append_assoc, List.getLast?_concat]
    simp only [boundary, List.head?_cons, Option.any_some, isWord_of_isDigit hc]
    rfl

theorem left_digit (hpat : pat ∈ [ssn, ipv4, phone]) (hleft : pat.left = true) (h : pat.re.Lang m) :
    ∃ c u, m = c :: u ∧ isDigit c = true := by
  simp only [List.mem_cons, List.not_mem_nil, or_false] at hpat
  rcases hpat with rfl | rfl | rfl
  · exact (ssn_shape h).2
  · exact (ipv4_shape h).2
  · cases hleft

theorem tag_back (kind value : String) : ∃ u, (tag sha256Hex kind value).toList = u ++ [']'] :=
  ⟨'[' :: (kind.toList ++ '#' :: (sha256Hex value).toList.take 8), by rw [tag_toList]; simp⟩

/-- A redacted text is clean exactly if the last pass found no phone number behind such a match. -/
theorem clean_redactPII_iff (hsha : HexDigest sha256Hex) (input : String) :
    Clean (redactPII sha256Hex input).text ↔
      ¬ PhoneBehindMatch (beforePhones sha256Hex input).text := by
  have hbefore := beforePhones_clean hsha input
  unfold Clean redactPII
  generalize beforePhones sha256Hex input = r at hbefore
  rw [redactPass_toList]
  refine ⟨?_, ?_⟩
  · rintro hclean ⟨qs, m, w, rs, hpieces, pat, hpat, hlang, hleft⟩
    let f := fun m => (tag sha256Hex "PHONE" (String.ofList m)).toList
    have hat : pat.At (Pattern.render f qs) m (Pattern.render f (.found w :: rs)) := by
      refine ⟨hlang, fun hflag => ?_, fun _ => ?_⟩
      · obtain ⟨c, u, rfl, hc⟩ := left_digit hpat hflag hlang
        exact boundary_render hc (fun v => tag_back "PHONE" _) (hleft hflag)
      · obtain ⟨u, c, rfl, hc⟩ := ends_with_digit hpat hlang
        simp only [f]
        rw [Pattern.render_found, tag_toList, List.getLast?_concat]
        simp only [boundary, List.cons_append, List.head?_cons, Option.any_some,
          isWord_of_isDigit hc]
        rfl
    refine hclean pat (List.mem_cons_of_mem _ hpat) ⟨_, m, _, ?_, hat⟩
    rw [Pattern.replace, hpieces, Pattern.render_append, Pattern.render_append,
      Pattern.render_run]
  · rintro hphone pat hpat ⟨a, m, b, htext, hat⟩
    obtain ⟨qs, rs, hpieces, hrun | ⟨hright, -, hleft, w, rs, rfl⟩⟩ := hat.exists_run htext
      (fun _ => rfl) fun w _ => inert_tag hsha (by decide) hpat
    · have hoccurs : pat.Occurs r.text.toList := by
        refine ⟨_, m, _, ?_, hrun⟩
        rw [← Pattern.render_id_pieces phone r.text.toList, hpieces, Pattern.render_append,
          Pattern.render_append, Pattern.render_run]
      simp only [patterns, List.mem_cons, List.not_mem_nil, or_false] at hpat
      rcases hpat with rfl | rfl | rfl | rfl
      · exact hbefore email (by simp) hoccurs
      · exact hbefore ssn (by simp) hoccurs
      · exact hbefore ipv4 (by simp) hoccurs
      · exact Pattern.not_at_run hpieces hrun
    · refine hphone ⟨qs, m, w, rs, hpieces, pat, ?_, hat.lang, hleft⟩
      rcases List.mem_cons.1 hpat with rfl | hpat
      · cases hright
      · exact hpat

theorem redactPII_of_clean {text : String} (h : Clean text) :
    redactPII sha256Hex text = { text, counts := [] } := by
  have hpass : ∀ key kind, ∀ pat ∈ patterns, redactPass sha256Hex key kind pat
      { text, counts := [] } = { text, counts := [] } := by
    intro key kind pat hpat
    have hpieces := Pattern.pieces_eq_self (h pat hpat)
    unfold redactPass
    simp only [Pattern.replace, hpieces, Pattern.render_run, String.ofList_toList, List.foldl_map]
    congr 1
    exact List.foldl_fixed _
  unfold redactPII beforePhones
  rw [hpass _ _ email (by simp [patterns]), hpass _ _ ssn (by simp [patterns]),
    hpass _ _ ipv4 (by simp [patterns]), hpass _ _ phone (by simp [patterns])]

/-! ## JSON values -/

mutual

/-- The strings of a value at any depth, in the fields whose names are kept. -/
def stringsIn (keep : String → Bool) : Json → List String
  | .str s => [s]
  | .arr xs => stringsInList keep xs
  | .obj fields => stringsInFields keep fields
  | _ => []

def stringsInList (keep : String → Bool) : List Json → List String
  | [] => []
  | x :: xs => stringsIn keep x ++ stringsInList keep xs

def stringsInFields (keep : String → Bool) : List (String × Json) → List String
  | [] => []
  | f :: fs => stringsInField keep f ++ stringsInFields keep fs

def stringsInField (keep : String → Bool) : String × Json → List String
  | (k, v) => if keep k then stringsIn keep v else []

end

def strings : Json → List String := stringsIn fun _ => true

/-- The strings that `walk` comes to and whose place in the value stays. -/
def keptStrings : Json → List String := stringsIn (· ≠ "__proto__")

theorem stringsInFields_filter {fields : List (String × Json)} :
    stringsInFields (fun _ => true) (fields.filter (·.1 ≠ "__proto__")) =
      (fields.filter (·.1 ≠ "__proto__")).flatMap fun f => strings f.2 := by
  generalize fields.filter (·.1 ≠ "__proto__") = fs
  induction fs with
  | nil => rfl
  | cons f fs ih =>
    rw [stringsInFields, ih, List.flatMap_cons, stringsInField, if_pos rfl, strings]

mutual

theorem strings_walk : (v : Json) → (counts : Counts) →
    strings (walk sha256Hex v counts).1 =
      (keptStrings v).map fun s => (redactPII sha256Hex s).text
  | .null, _ | .bool _, _ | .num _, _ | .str _, _ => rfl
  | .arr xs, counts => strings_walkList xs counts
  | .obj fields, counts => by
    rw [walk]
    exact stringsInFields_filter.trans (strings_walkFields fields counts)

theorem strings_walkList : (xs : List Json) → (counts : Counts) →
    stringsInList (fun _ => true) (walkList sha256Hex xs counts).1 =
      (stringsInList (· ≠ "__proto__") xs).map fun s => (redactPII sha256Hex s).text
  | [], _ => rfl
  | x :: xs, counts => by
    have hx := strings_walk x counts
    have hxs := strings_walkList xs (walk sha256Hex x counts).2
    rw [walkList, stringsInList, stringsInList, List.map_append]
    exact congrArg₂ _ hx hxs

theorem strings_walkFields : (fields : List (String × Json)) → (counts : Counts) →
    ((walkFields sha256Hex fields counts).1.filter (·.1 ≠ "__proto__")).flatMap
        (fun f => strings f.2) =
      (stringsInFields (· ≠ "__proto__") fields).map fun s => (redactPII sha256Hex s).text
  | [], _ => rfl
  | (k, v) :: fields, counts => by
    have hv := strings_walk v counts
    have hfields := strings_walkFields fields (walk sha256Hex v counts).2
    rw [walkFields, stringsInFields, List.map_append, ← hfields, walkField, stringsInField]
    by_cases hk : k = "__proto__"
    · simp [hk]
    · simp only [ne_eq, hk, not_false_eq_true, decide_true, List.filter_cons_of_pos,
        List.flatMap_cons, if_true]
      exact congrArg₂ _ hv rfl

end

/-- Whether texts come out clean. Of one text: it holds no match and is left as it is by another
redaction, exactly if the last pass found no phone number behind a match. Of the texts of a value:
exactly if that holds of each. -/
theorem redaction_clean_iff (hsha : HexDigest sha256Hex) (input : String) (value : Json) :
    (Clean (redactPII sha256Hex input).text ↔
      ¬ PhoneBehindMatch (beforePhones sha256Hex input).text) ∧
    (¬ PhoneBehindMatch (beforePhones sha256Hex input).text →
      redactPII sha256Hex (redactPII sha256Hex input).text =
        { text := (redactPII sha256Hex input).text, counts := [] }) ∧
    ((∀ s ∈ strings (redactJsonStrings sha256Hex value).1, Clean s) ↔
      ∀ s ∈ keptStrings value, ¬ PhoneBehindMatch (beforePhones sha256Hex s).text) := by
  refine ⟨clean_redactPII_iff hsha input,
    fun h => redactPII_of_clean ((clean_redactPII_iff hsha input).2 h), ?_⟩
  unfold redactJsonStrings
  rw [strings_walk, List.forall_mem_map]
  exact forall₂_congr fun s _ => clean_redactPII_iff hsha s

/-- The digest of `1234567890`. -/
def digestOf (_ : String) : String :=
  "c775e7b757ede630cd0aa1113bd102661ab38829ca52a6422ab782862f268646"

theorem hexDigest_digestOf : HexDigest digestOf := fun value =>
  List.all_eq_true.1 (by decide : (digestOf "").toList.all isHexDigit = true)

/-- A number alone is redacted for good. -/
theorem redaction_clean_alone : Clean (redactPII digestOf "1234567890").text := by
  have htext : (beforePhones digestOf "1234567890").text = "1234567890" := by decide
  have hpieces : phone.pieces "1234567890".toList = [.found "1234567890".toList] := by decide
  refine (redaction_clean_iff hexDigest_digestOf "1234567890" .null).1.2 ?_
  rintro ⟨qs, m, w, rs, hsplit, pat, -, hlang, -⟩
  rw [htext, hpieces, List.append_assoc] at hsplit
  have hlen := congrArg List.length hsplit
  simp only [List.length_append, List.length_map, List.length_cons, List.length_nil] at hlen
  have hm := List.length_pos_iff.2 (pat.ne_nil_of_lang hlang)
  omega

/-- Digits before a phone number end as a social security number before a tag. -/
theorem ssn_before_phone_stays :
    (redactPII digestOf "123-45-67891234567890").text = "123-45-6789[PHONE#c775e7b7]" ∧
    ssn.Occurs "123-45-6789[PHONE#c775e7b7]".toList ∧
    ¬ Clean (redactPII digestOf "123-45-67891234567890").text := by
  have htext : (redactPII digestOf "123-45-67891234567890").text =
      "123-45-6789[PHONE#c775e7b7]" := by decide
  have hlang : ssn.re.Lang "123-45-6789".toList := by
    refine ⟨"123".toList, "-45-6789".toList, rfl, ?_, "-".toList, "45-6789".toList, rfl, ?_,
      "45".toList, "-6789".toList, rfl, ?_, "-".toList, "6789".toList, rfl, ?_, ?_⟩
    all_goals exact ⟨List.all_eq_true.1 (by decide), by decide, by decide⟩
  have hoccurs : ssn.Occurs "123-45-6789[PHONE#c775e7b7]".toList :=
    ⟨[], "123-45-6789".toList, "[PHONE#c775e7b7]".toList, rfl, hlang, fun _ => by decide,
      fun _ => by decide⟩
  refine ⟨htext, hoccurs, fun hclean => ?_⟩
  rw [htext] at hclean
  exact hclean ssn (by simp [patterns]) hoccurs

end AionisCore.Util.Redaction
