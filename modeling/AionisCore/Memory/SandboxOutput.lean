import AionisCore.Lib.Utf8

/-!
# The output of a sandboxed process

The executor collects what a process writes chunk by chunk, up to a limit. After every chunk the
bytes are decoded, and before the next one the text is encoded again. So a character that is cut
in two is replaced, and the replacements count as three bytes each.
-/

namespace AionisCore.Memory

open Lib.Utf8

/-! ## Collecting -/

def tailText (input : String) (maxBytes : Int) : String :=
  if maxBytes ≤ 0 then ""
  else
    let buf := encode input.toList
    if (buf.length : Int) ≤ maxBytes then input
    else String.ofList (decode (buf.drop (buf.length - maxBytes.toNat)))

structure ClampedOutput where
  next : String
  truncated : Bool
  deriving DecidableEq, Repr

def clampOutputAppend (current : String) (chunk : List UInt8) (maxBytes : Int) : ClampedOutput :=
  if maxBytes ≤ 0 then { next := "", truncated := true }
  else
    let cur := encode current.toList
    if maxBytes ≤ cur.length then { next := String.ofList (decode cur), truncated := true }
    else
      let remaining := maxBytes.toNat - cur.length
      let take := if chunk.length ≤ remaining then chunk else chunk.take remaining
      let merged := (cur ++ take).take (min maxBytes.toNat (cur.length + take.length))
      { next := String.ofList (decode merged), truncated := remaining < chunk.length }

/-- What a chunk does to the output and the flag. -/
def onData (maxBytes : Int) (out : ClampedOutput) (chunk : List UInt8) : ClampedOutput :=
  let clamped := clampOutputAppend out.next chunk maxBytes
  { next := clamped.next, truncated := out.truncated || clamped.truncated }

def collectOutput (maxBytes : Int) (chunks : List (List UInt8)) : ClampedOutput :=
  chunks.foldl (onData maxBytes) { next := "", truncated := false }

/-! ## What is asked of it -/

/-- `Buffer.byteLength(text, "utf8")`. -/
def byteLength (text : String) : Nat := (encode text.toList).length

/-- The decoding of the bytes, with an incomplete last character or without. -/
def DecodesUpToLast (text : String) (bytes : List UInt8) : Prop :=
  text = String.ofList (decode bytes) ∨
    ∃ front last c more, bytes = front ++ last ∧ encodeChar c = last ++ more ∧ more ≠ [] ∧
      text = String.ofList (decode front)

/-- The output is a faithful one of the stream; a limit below zero counts as zero. -/
structure Faithful (stream : List UInt8) (maxBytes : Int) (out : ClampedOutput) : Prop where
  short : byteLength out.next ≤ maxBytes.toNat
  text : DecodesUpToLast out.next (stream.take maxBytes.toNat)
  truncated : out.truncated = true ↔ maxBytes.toNat < stream.length

/-- However the stream is cut into chunks of a kind, the output is faithful and the same. -/
structure CollectsFaithfully (Chunk : List UInt8 → Prop) (stream : List UInt8)
    (maxBytes : Int) : Prop where
  faithful : ∀ chunks, (∀ chunk ∈ chunks, Chunk chunk) → chunks.flatten = stream →
    Faithful stream maxBytes (collectOutput maxBytes chunks)
  independent : ∀ chunks chunks', (∀ chunk ∈ chunks, Chunk chunk) →
    (∀ chunk ∈ chunks', Chunk chunk) → chunks.flatten = stream → chunks'.flatten = stream →
    (collectOutput maxBytes chunks).next = (collectOutput maxBytes chunks').next

/-- The length of bytes that are decoded one by one: those outside ASCII count three. -/
def loneLength (bytes : List UInt8) : Nat :=
  bytes.length + 2 * bytes.countP fun b => 0x80 ≤ b.toNat

/-- A stream that fits has no character of several bytes, and fits with its replacements. Of a
longer one the first bytes up to the limit are ASCII, or all but three that are replaced
together. -/
def Undisturbed (stream : List UInt8) (max : Nat) : Prop :=
  (stream.length ≤ max ∧ Lone stream ∧ loneLength stream ≤ max) ∨
  (max < stream.length ∧ (Ascii (stream.take max) ∨
    ∃ front last, stream.take max = front ++ last ∧ Ascii front ∧ last.length = 3 ∧
      decode last = [replacement]))

/-! ## One chunk -/

variable {maxBytes : Int} {max : Nat} {t : List Char} {chunk bytes read rest front : List UInt8}

theorem clamp_zero (h : maxBytes ≤ 0) (current : String) :
    clampOutputAppend current chunk maxBytes = { next := "", truncated := true } := by
  rw [clampOutputAppend, if_pos h]

theorem clamp_full (hpos : 0 < max) (h : max ≤ (encode t).length) :
    clampOutputAppend (String.ofList t) chunk max =
      { next := String.ofList t, truncated := true } := by
  unfold clampOutputAppend
  rw [String.toList_ofList, if_neg (by omega), if_pos (by omega), decode_encode]

theorem clamp_room (h : (encode t).length < max) :
    clampOutputAppend (String.ofList t) chunk max =
      { next := String.ofList (t ++ decode (chunk.take (max - (encode t).length)))
        truncated := max - (encode t).length < chunk.length } := by
  unfold clampOutputAppend
  rw [String.toList_ofList, if_neg (by omega), if_neg (by omega)]
  have htake : (if chunk.length ≤ max - (encode t).length then chunk
      else chunk.take (max - (encode t).length)) = chunk.take (max - (encode t).length) := by
    split
    · next hle => exact (List.take_of_length_le hle).symm
    · rfl
  simp only [Int.toNat_natCast]
  have hmerged : (encode t ++ chunk.take (max - (encode t).length)).take
      (min max ((encode t).length + (chunk.take (max - (encode t).length)).length)) =
        encode t ++ chunk.take (max - (encode t).length) := by
    refine List.take_of_length_le ?_
    rw [List.length_append, List.length_take]
    omega
  rw [htake, hmerged, decode_encode_append]

theorem collect_concat (chunks : List (List UInt8)) :
    collectOutput maxBytes (chunks ++ [chunk]) =
      onData maxBytes (collectOutput maxBytes chunks) chunk :=
  List.foldl_concat _ _ _ _

theorem length_encode_lone (h : Lone bytes) :
    (encode (decode bytes)).length = loneLength bytes := by
  rw [decode_eq_flatMap_iff.2 h]
  clear h
  induction bytes with
  | nil => rfl
  | cons b bytes ih =>
    rw [List.flatMap_cons, encode_append, List.length_append, ih, loneLength, loneLength,
      List.countP_cons, List.length_cons]
    by_cases hb : b.toNat < 0x80
    · have hone : (encode (decode [b])).length = 1 := by
        rw [encode_decode_ascii (by simpa [Ascii] using hb)]
        rfl
      rw [hone, if_neg (by simpa using hb)]
      omega
    · have hthree : (encode (decode [b])).length = 3 := by
        rw [decode_single (by omega)]
        exact length_encodeChar_replacement
      rw [hthree, if_pos (by simpa using hb)]
      omega

/-- Three bytes that are replaced together are so from the first one on. -/
theorem decode_take_replaced {last : List UInt8} (hlen : last.length = 3)
    (h : decode last = [replacement]) {k : Nat} (hk : 0 < k) :
    decode (last.take k) = [replacement] := by
  obtain ⟨b, c, d, rfl⟩ := List.length_eq_three.1 hlen
  have hunits : accepted (continuations b) [c, d] = 2 := by
    have hrest := congrArg List.length h
    rw [decode_cons, List.length_cons, List.length_singleton] at hrest
    have hle := (accepted_le (continuations b) [c, d]).2
    have hnil : ([c, d].drop (accepted (continuations b) [c, d])) = [] := by
      cases hdrop : [c, d].drop (accepted (continuations b) [c, d]) with
      | nil => rfl
      | cons e more =>
        rw [hdrop, decode_cons, List.length_cons] at hrest
        omega
    rw [List.drop_eq_nil_iff] at hnil
    simp only [List.length_cons, List.length_nil] at hnil hle
    omega
  have hranges := (accepted_le (continuations b) [c, d]).1
  have hb : 0xC2 ≤ b.toNat := by
    by_contra hlow
    rw [continuations_of_lt (by omega)] at hunits
    cases hunits
  match k, hk with
  | 1, _ => exact decode_single (by omega)
  | 2, _ =>
    have hone : accepted (continuations b) [c] = 1 := by
      by_contra hno
      have hzero := @accepted_eq_zero b c [d]
      rw [hzero.2 hno] at hunits
      cases hunits
    have hshort : ¬ ([c] ≠ [] ∧ [c].length = (continuations b).length) := by
      rintro ⟨-, heq⟩
      rw [List.length_singleton] at heq
      omega
    rw [List.take_succ_cons, List.take_succ_cons, List.take_zero, decode_cons, hone,
      List.take_succ_cons, List.take_zero, unitChar, if_neg (by omega), if_neg hshort]
    rfl
  | k + 3, _ => rwa [List.take_of_length_le (by simp)]

/-! ## An undisturbed stream -/

variable {stream : List UInt8}

/-- What the next chunk does after a part of the stream: a full output stays as it is, another one
goes on with what there is room for. -/
structure Adds (stream : List UInt8) (max : Nat) (read chunk : List UInt8) : Prop where
  full : max ≤ (encode (decode (read.take max))).length →
    decode ((read ++ chunk).take max) = decode (read.take max) ∧
      (stream.length ≤ max → chunk = [] ∧ max ≤ loneLength stream)
  room : (encode (decode (read.take max))).length < max →
    decode ((read ++ chunk).take max) = decode (read.take max) ++
      decode (chunk.take (max - (encode (decode (read.take max))).length)) ∧
    (max - (encode (decode (read.take max))).length < chunk.length → max < stream.length)

theorem adds_of_fits (hstream : stream = read ++ chunk ++ rest) (hfits : stream.length ≤ max)
    (hlone : Lone stream) (hle : loneLength stream ≤ max) : Adds stream max read chunk := by
  have hlength : stream.length = read.length + chunk.length + rest.length := by
    rw [hstream, List.length_append, List.length_append]
  have hread : read.take max = read := List.take_of_length_le (by omega)
  have hboth : (read ++ chunk).take max = read ++ chunk :=
    List.take_of_length_le (by rw [List.length_append]; omega)
  rw [hstream] at hlone
  have happend : decode (read ++ chunk) = decode read ++ decode chunk :=
    Lone.decode_append (List.IsChain.left_of_append hlone)
  have htotal : (encode (decode stream)).length = (encode (decode read)).length +
      (encode (decode chunk)).length + (encode (decode rest)).length := by
    rw [hstream, hlone.decode_append, happend, encode_append, encode_append, List.length_append,
      List.length_append]
  rw [length_encode_lone (hstream ▸ hlone)] at htotal
  have hchunk := length_le_encode_decode chunk
  constructor
  · intro hfull
    rw [hread] at hfull
    have hnil : chunk = [] := List.length_eq_zero_iff.1 (by omega)
    subst hnil
    rw [List.append_nil]
    exact ⟨rfl, fun _ => ⟨rfl, by omega⟩⟩
  · intro hroom
    rw [hread] at hroom ⊢
    rw [hboth, happend, List.take_of_length_le (by omega)]
    exact ⟨rfl, fun hcut => by omega⟩

theorem adds_of_ascii (hlong : max < stream.length) (hascii : Ascii (read.take max)) :
    Adds stream max read chunk := by
  have hencode := encode_decode_ascii hascii
  constructor
  · intro hfull
    rw [hencode, List.length_take] at hfull
    rw [List.take_append_of_le_length (by omega)]
    exact ⟨rfl, fun hfits => by omega⟩
  · intro hroom
    rw [hencode, List.length_take] at hroom
    have hall : read.take max = read := List.take_of_length_le (by omega)
    rw [hall] at hascii ⊢
    rw [encode_decode_ascii hascii, List.take_append, hall, decode_ascii_append hascii]
    exact ⟨rfl, fun _ => hlong⟩

/-- The replacement has filled the output. -/
theorem adds_of_replaced {last : List UInt8} (hstream : stream = read ++ chunk ++ rest)
    (hlong : max < stream.length) (hsplit : stream.take max = front ++ last) (hfront : Ascii front)
    (hlast : last.length = 3) (hreplaced : decode last = [replacement])
    (hread : front.length < read.length) : Adds stream max read chunk := by
  have hmax : max = front.length + 3 := by
    have hlen := congrArg List.length hsplit
    rw [List.length_take, List.length_append, hlast] at hlen
    omega
  have hdecode : ∀ part more, stream = part ++ more → front.length < part.length →
      decode (part.take max) = decode front ++ [replacement] := by
    intro part more heq hlen
    have hpart : part.take max = (stream.take max).take part.length := by
      rw [List.take_take, Nat.min_comm, ← List.take_take, heq, List.take_left]
    rw [hpart, hsplit, List.take_append, List.take_of_length_le (by omega),
      decode_ascii_append hfront, decode_take_replaced hlast hreplaced (by omega)]
  have hbefore := hdecode read (chunk ++ rest) (by rw [hstream, List.append_assoc]) hread
  have hafter := hdecode (read ++ chunk) rest hstream (by rw [List.length_append]; omega)
  have hfull : (encode (decode front ++ [replacement])).length = max := by
    rw [encode_append, List.length_append, encode_decode_ascii hfront, hmax]
    rfl
  constructor
  · intro _
    rw [hbefore, hafter]
    exact ⟨rfl, fun hfits => by omega⟩
  · intro hroom
    rw [hbefore, hfull] at hroom
    exact absurd hroom (lt_irrefl _)

theorem undisturbed_adds (h : Undisturbed stream max) (hstream : stream = read ++ chunk ++ rest) :
    Adds stream max read chunk := by
  obtain ⟨hfits, hlone, hle⟩ | ⟨hlong, hprefix⟩ := h
  · exact adds_of_fits hstream hfits hlone hle
  have hread : read.take max = (stream.take max).take read.length := by
    rw [List.take_take, Nat.min_comm, ← List.take_take, hstream, List.append_assoc, List.take_left]
  obtain hascii | ⟨front, last, hsplit, hfront, hlast, hreplaced⟩ := hprefix
  · refine adds_of_ascii hlong fun b hb => hascii b ?_
    rw [hread] at hb
    exact List.mem_of_mem_take hb
  by_cases hshort : read.length ≤ front.length
  · refine adds_of_ascii hlong fun b hb => hfront b ?_
    rw [hread, hsplit, List.take_append_of_le_length hshort] at hb
    exact List.mem_of_mem_take hb
  · exact adds_of_replaced hstream hlong hsplit hfront hlast hreplaced (by omega)

/-- The stream is longer than the limit, or an empty chunk does not find the output full. -/
def NeverFull (stream : List UInt8) (max : Nat) : Prop :=
  max < stream.length ∨ loneLength stream < max

/-- The output after a part of an undisturbed stream that has been read in chunks. -/
theorem collect_undisturbed (h : Undisturbed stream max) (hpos : 0 < max)
    {chunks : List (List UInt8)} {rest : List UInt8} (hstream : stream = chunks.flatten ++ rest) :
    (collectOutput max chunks).next = String.ofList (decode (chunks.flatten.take max)) ∧
    (max < chunks.flatten.length → (collectOutput max chunks).truncated = true) ∧
    ((∀ chunk ∈ chunks, chunk ≠ []) ∨ NeverFull stream max →
      (collectOutput max chunks).truncated = true → max < stream.length) := by
  induction chunks using List.reverseRecOn generalizing rest with
  | nil =>
    exact ⟨by simp [collectOutput], fun hlt => absurd hlt (Nat.not_lt_zero _), fun _ => nofun⟩
  | append_singleton chunks chunk ih =>
    rw [List.flatten_append, List.flatten_singleton] at hstream ⊢
    obtain ⟨hnext, hlong, hshort⟩ := @ih (chunk ++ rest) (by rw [hstream, List.append_assoc])
    have hadds := undisturbed_adds h hstream
    have hread := length_le_encode_decode (chunks.flatten.take max)
    rw [List.length_take] at hread
    rw [collect_concat, onData, hnext, List.length_append]
    by_cases hfull : max ≤ (encode (decode (chunks.flatten.take max))).length
    · obtain ⟨hsame, hfits⟩ := hadds.full hfull
      rw [clamp_full hpos hfull, hsame]
      refine ⟨rfl, fun _ => by simp, fun hkind _ => ?_⟩
      by_contra hle
      obtain ⟨hnil, hlone⟩ := hfits (by omega)
      obtain hchunks | hlonger | hless := hkind
      · exact hchunks chunk (by simp) hnil
      · exact hle hlonger
      · omega
    · obtain ⟨hmore, hcut⟩ := hadds.room (by omega)
      rw [clamp_room (by omega), hmore]
      refine ⟨rfl, fun hlt => ?_, fun hkind htruncated => ?_⟩
      · rw [Bool.or_eq_true, decide_eq_true_iff]
        by_cases hbefore : max < chunks.flatten.length
        · exact .inl (hlong hbefore)
        · exact .inr (by omega)
      · rw [Bool.or_eq_true, decide_eq_true_iff] at htruncated
        obtain hbefore | hnow := htruncated
        · exact hshort (hkind.imp_left fun hall c hc => hall c (by simp [hc])) hbefore
        · exact hcut hnow

theorem collect_zero (h : maxBytes ≤ 0) (chunks : List (List UInt8)) :
    (collectOutput maxBytes chunks).next = "" ∧
      ((collectOutput maxBytes chunks).truncated = true ↔ chunks ≠ []) := by
  obtain rfl | ⟨chunks, chunk, rfl⟩ := chunks.eq_nil_or_concat'
  · exact ⟨rfl, iff_of_false nofun fun hne => hne rfl⟩
  · rw [collect_concat, onData, clamp_zero h]
    exact ⟨rfl, iff_of_true (Bool.or_true _) (by simp)⟩

theorem byteLength_ofList (s : List Char) : byteLength (String.ofList s) = (encode s).length := by
  rw [byteLength, String.toList_ofList]

theorem undisturbed_short (h : Undisturbed stream max) :
    (encode (decode (stream.take max))).length ≤ max := by
  obtain ⟨hfits, hlone, hle⟩ | ⟨hlong, hascii | ⟨front, last, hsplit, hfront, hlast, hreplaced⟩⟩ :=
    h
  · rwa [List.take_of_length_le hfits, length_encode_lone hlone]
  · rw [encode_decode_ascii hascii, List.length_take]
    omega
  · have hlen := congrArg List.length hsplit
    rw [List.length_take, List.length_append, hlast] at hlen
    rw [hsplit, decode_ascii_append hfront, hreplaced, encode_append, List.length_append,
      encode_decode_ascii hfront]
    have hthree := length_encodeChar_replacement
    rw [encode_cons, encode_nil, List.append_nil, hthree]
    omega

theorem collectsFaithfully_of_undisturbed {Chunk : List UInt8 → Prop}
    (h : Undisturbed stream maxBytes.toNat)
    (hkind : (∀ chunk, Chunk chunk → chunk ≠ []) ∨ NeverFull stream maxBytes.toNat) :
    CollectsFaithfully Chunk stream maxBytes := by
  by_cases hpos : maxBytes ≤ 0
  · have hzero : maxBytes.toNat = 0 := by omega
    have hnext := fun chunks => (collect_zero hpos chunks).1
    refine ⟨fun chunks hchunks hflat => ⟨?_, .inl ?_, ?_⟩, fun chunks chunks' _ _ _ _ => ?_⟩
    · rw [hnext, hzero]
      exact Nat.le_refl 0
    · rw [hnext, hzero]
      rfl
    · rw [(collect_zero hpos chunks).2, hzero, List.length_pos_iff]
      refine ⟨fun hne hnil => ?_, ?_⟩
      · obtain hall | hlonger | hless := hkind
        · obtain ⟨chunk, more, rfl⟩ := List.exists_cons_of_ne_nil hne
          rw [← hflat, List.flatten_cons, List.append_eq_nil_iff] at hnil
          exact hall chunk (hchunks chunk List.mem_cons_self) hnil.1
        · rw [hnil, hzero] at hlonger
          exact absurd hlonger (lt_irrefl _)
        · rw [hzero] at hless
          exact absurd hless (Nat.not_lt_zero _)
      · rintro hne rfl
        exact hne hflat.symm
    · rw [hnext, hnext]
  · obtain ⟨max, rfl⟩ := Int.eq_ofNat_of_zero_le (by omega : 0 ≤ maxBytes)
    rw [Int.toNat_natCast] at h hkind
    have hrun := fun chunks (hflat : chunks.flatten = stream) =>
      @collect_undisturbed max stream h (by omega) chunks [] (by rw [List.append_nil, hflat])
    refine ⟨fun chunks hchunks hflat => ⟨?_, .inl ?_, ?_⟩,
      fun chunks chunks' _ _ hflat hflat' => ?_⟩
    · rw [(hrun chunks hflat).1, hflat, byteLength_ofList]
      exact undisturbed_short h
    · rw [(hrun chunks hflat).1, hflat]
      rfl
    · refine ⟨(hrun chunks hflat).2.2 (hkind.imp_left fun hall c hc => hall c (hchunks c hc)), ?_⟩
      have hlong := (hrun chunks hflat).2.1
      rwa [hflat] at hlong
    · rw [(hrun chunks hflat).1, (hrun chunks' hflat').1, hflat, hflat']

/-! ## Only an undisturbed stream -/

/-- Where nothing was cut off, each chunk has been decoded by itself. -/
theorem collect_whole (hpos : 0 < max) {chunks : List (List UInt8)}
    (h : (collectOutput max chunks).truncated = false) :
    (collectOutput max chunks).next = String.ofList (chunks.flatMap decode) := by
  induction chunks using List.reverseRecOn with
  | nil => rfl
  | append_singleton chunks chunk ih =>
    rw [collect_concat, onData, Bool.or_eq_false_iff] at h
    have hnext := ih h.1
    rw [hnext] at h
    by_cases hfull : max ≤ (encode (chunks.flatMap decode)).length
    · rw [clamp_full hpos hfull] at h
      cases h.2
    · have hroom := @clamp_room max (chunks.flatMap decode) chunk (by omega)
      rw [hroom, decide_eq_false_iff_not] at h
      rw [collect_concat, onData, hnext, hroom, List.take_of_length_le (by omega),
        List.flatMap_append, List.flatMap_singleton]

theorem collect_single (hpos : 0 < max) (bytes : List UInt8) :
    (collectOutput max [bytes]).next = String.ofList (decode (bytes.take max)) := by
  have hroom := @clamp_room max [] bytes (by simpa using hpos)
  simp only [encode_nil, List.length_nil, Nat.sub_zero, List.nil_append] at hroom
  have hempty : String.ofList [] = "" := rfl
  rw [hempty] at hroom
  simp only [collectOutput, List.foldl_cons, List.foldl_nil, onData, hroom]

theorem exists_of_not_ascii (h : ¬ Ascii bytes) :
    ∃ front b more, bytes = front ++ b :: more ∧ Ascii front ∧ 0x80 ≤ b.toNat := by
  induction bytes with
  | nil => exact absurd nofun h
  | cons b bytes ih =>
    by_cases hb : b.toNat < 0x80
    · obtain ⟨front, c, more, rfl, hfront, hc⟩ :=
        ih fun hall => h (List.forall_mem_cons.2 ⟨hb, hall⟩)
      exact ⟨b :: front, c, more, rfl, List.forall_mem_cons.2 ⟨hb, hfront⟩, hc⟩
    · exact ⟨[], b, bytes, rfl, nofun, by omega⟩

/-- The output of a stream that is cut behind its first byte outside ASCII. -/
theorem collect_cut {b : UInt8} (hfront : Ascii front) (hb : 0x80 ≤ b.toNat)
    (hlen : front.length < max) :
    (collectOutput max [front ++ [b], rest]).next = String.ofList (decode front ++ [replacement] ++
      decode (rest.take (max - (front.length + 3)))) := by
  have hfirst : collectOutput max [front ++ [b]] =
      { next := String.ofList (decode front ++ [replacement]), truncated := false } := by
    have hroom := @clamp_room max [] (front ++ [b]) (by simp; omega)
    have hempty : String.ofList [] = "" := rfl
    simp only [encode_nil, List.length_nil, Nat.sub_zero, List.nil_append, hempty] at hroom
    rw [List.take_of_length_le (by rw [List.length_append, List.length_singleton]; omega),
      decode_ascii_append hfront, decode_single hb] at hroom
    simp only [collectOutput, List.foldl_cons, List.foldl_nil, onData, hroom, Bool.false_or,
      List.length_append, List.length_singleton]
    simp
    omega
  have hlength : (encode (decode front ++ [replacement])).length = front.length + 3 := by
    rw [encode_append, List.length_append, encode_decode_ascii hfront]
    rfl
  have hsecond : collectOutput max [front ++ [b], rest] =
      onData max (collectOutput max [front ++ [b]]) rest := rfl
  rw [hsecond, hfirst, onData]
  by_cases hfull : max ≤ front.length + 3
  · rw [clamp_full (by omega) (by rwa [hlength]), Nat.sub_eq_zero_of_le hfull, List.take_zero,
      decode_nil, List.append_nil]
  · rw [clamp_room (by rw [hlength]; omega), hlength]

theorem inner_of_accepted {b c : UInt8} (h : accepted (continuations b) (c :: bytes) ≠ 0) :
    InnerByte c := by
  obtain hshape | ⟨-, -, hshape⟩ | ⟨lo, hi, -, -, hshape, hlo, hhi, -⟩ |
    ⟨lo, hi, -, -, hshape, hlo, hhi, -⟩ := continuations_shape b
  · rw [hshape] at h
    exact absurd rfl h
  all_goals
    rw [hshape, accepted] at h
    split at h
    · next hin =>
      unfold InnerByte
      omega
    · exact absurd rfl h

/-- A stream beyond the limit with a byte outside ASCII before it. -/
theorem replaced_of_collects (h : CollectsFaithfully (· ≠ []) stream max)
    (hlong : max < stream.length) {more : List UInt8} {b : UInt8}
    (hsplit : stream.take max = front ++ b :: more) (hfront : Ascii front) (hb : 0x80 ≤ b.toNat) :
    (b :: more).length = 3 ∧ decode (b :: more) = [replacement] := by
  have hlen := congrArg List.length hsplit
  rw [List.length_take, List.length_append, List.length_cons] at hlen
  have hstream : stream = front ++ b :: (more ++ stream.drop max) := by
    rw [← List.cons_append, ← List.append_assoc, ← hsplit, List.take_append_drop]
  have hrest : more ++ stream.drop max ≠ [] := by
    rw [← List.length_pos_iff, List.length_append, List.length_drop]
    omega
  have hflat : [front ++ [b], more ++ stream.drop max].flatten = stream := by
    rw [List.flatten_cons, List.flatten_singleton, List.append_assoc, List.singleton_append,
      ← hstream]
  have hne : stream ≠ [] := List.length_pos_iff.1 (by omega)
  have hpos : 0 < max := by omega
  -- read at once and cut behind the byte, the stream comes out the same
  have hsame := h.independent [stream] [front ++ [b], more ++ stream.drop max] (by simpa using hne)
    (by simpa using hrest) (by simp) hflat
  have hshort := (h.faithful [stream] (by simpa using hne) (by simp)).short
  rw [collect_single hpos] at hsame hshort
  rw [collect_cut hfront hb (by omega), String.ofList_inj, hsplit, decode_ascii_append hfront,
    List.append_assoc] at hsame
  have hunit := List.append_cancel_left hsame
  rw [byteLength_ofList, hsplit, decode_ascii_append hfront, encode_append, List.length_append,
    encode_decode_ascii hfront, hunit, Int.toNat_natCast, List.singleton_append, encode_cons,
    List.length_append, length_encodeChar_replacement] at hshort
  have hparts := hunit
  rw [decode_cons, List.singleton_append] at hparts
  obtain ⟨hchar, htail⟩ := List.cons.inj hparts
  have hmore := (accepted_le (continuations b) more).2
  have hle := length_le_encode_decode (more.drop (accepted (continuations b) more))
  rw [htail, List.length_drop] at hle
  have htwo : accepted (continuations b) more = 2 := by
    obtain ⟨hlow, -⟩ | ⟨-, htwo, -⟩ | ⟨-, hthree⟩ := unit_cases b more
    · omega
    · omega
    · rw [hchar, length_encodeChar_replacement] at hthree
      omega
  by_cases hfull : front.length + 3 = max
  · refine ⟨by rw [List.length_cons]; omega, ?_⟩
    rw [hunit, Nat.sub_eq_zero_of_le (by omega), List.take_zero, decode_nil, List.append_nil]
  -- otherwise the second byte would be replaced by itself, which takes too much room
  · exfalso
    obtain ⟨c, more, rfl⟩ := List.exists_cons_of_ne_nil (List.length_pos_iff.1
      (by omega : 0 < more.length))
    have hinner := inner_of_accepted (by omega : accepted (continuations b) (c :: more) ≠ 0)
    obtain ⟨k, hk⟩ := Nat.exists_eq_succ_of_ne_zero (by omega : max - (front.length + 3) ≠ 0)
    have hrun := length_le_encode_decode ((more ++ stream.drop max).take k)
    rw [List.length_take, List.length_append] at hrun
    rw [hk, List.cons_append, List.take_succ_cons, decode_inner_cons hinner, encode_cons,
      List.length_append, length_encodeChar_replacement] at hshort
    rw [List.length_cons] at hlen hmore
    omega

theorem undisturbed_of_collects (h : CollectsFaithfully (· ≠ []) stream maxBytes) :
    Undisturbed stream maxBytes.toNat := by
  obtain rfl | hne := eq_or_ne stream []
  · exact .inl ⟨Nat.zero_le _, .nil, Nat.zero_le _⟩
  by_cases hpos : maxBytes ≤ 0
  · have hzero : maxBytes.toNat = 0 := by omega
    rw [hzero]
    exact .inr ⟨List.length_pos_iff.2 hne, .inl nofun⟩
  obtain ⟨max, rfl⟩ := Int.eq_ofNat_of_zero_le (by omega : 0 ≤ maxBytes)
  rw [Int.toNat_natCast]
  by_cases hfits : stream.length ≤ max
  · -- read at once and byte by byte, the stream comes out the same
    have hbytes : (stream.map ([·])).flatten = stream := by
      rw [← List.flatMap_def]
      exact List.flatMap_singleton' stream
    have hwhole := h.faithful [stream] (by simpa using hne) (by simp)
    have hsingle := h.faithful (stream.map ([·])) (by simp) hbytes
    have hsame := h.independent [stream] (stream.map ([·])) (by simpa using hne) (by simp) (by simp)
      hbytes
    have hshort := hwhole.short
    have hflag : (collectOutput max (stream.map ([·]))).truncated = false := by
      rw [Bool.eq_false_iff, ne_eq, hsingle.truncated, Int.toNat_natCast]
      omega
    rw [collect_single (by omega), List.take_of_length_le hfits] at hsame hshort
    rw [collect_whole (by omega) hflag, String.ofList_inj, List.flatMap_map] at hsame
    have hlone := decode_eq_flatMap_iff.1 hsame
    rw [byteLength_ofList, length_encode_lone hlone, Int.toNat_natCast] at hshort
    exact .inl ⟨hfits, hlone, hshort⟩
  · refine .inr ⟨by omega, ?_⟩
    by_cases hascii : Ascii (stream.take max)
    · exact .inl hascii
    · obtain ⟨front, b, more, hsplit, hfront, hb⟩ := exists_of_not_ascii hascii
      obtain ⟨hlen, hdecode⟩ := replaced_of_collects h (by omega) hsplit hfront hb
      exact .inr ⟨front, b :: more, hsplit, hfront, hlen, hdecode⟩

theorem CollectsFaithfully.mono {Chunk Chunk' : List UInt8 → Prop}
    (h : CollectsFaithfully Chunk stream maxBytes) (hsub : ∀ chunk, Chunk' chunk → Chunk chunk) :
    CollectsFaithfully Chunk' stream maxBytes :=
  ⟨fun chunks hchunks => h.faithful chunks fun c hc => hsub c (hchunks c hc),
    fun chunks chunks' hchunks hchunks' => h.independent chunks chunks'
      (fun c hc => hsub c (hchunks c hc)) fun c hc => hsub c (hchunks' c hc)⟩

/-- An empty chunk sets the flag where it finds the output full. -/
theorem neverFull_of_collects (h : CollectsFaithfully (fun _ => True) stream maxBytes) :
    NeverFull stream maxBytes.toNat := by
  by_contra hno
  rw [NeverFull, not_or] at hno
  have hflag := (h.faithful [stream, []] (by simp) (by simp)).truncated
  by_cases hpos : maxBytes ≤ 0
  · rw [(collect_zero hpos _).2] at hflag
    exact hno.1 (hflag.1 (by simp))
  obtain ⟨max, rfl⟩ := Int.eq_ofNat_of_zero_le (by omega : 0 ≤ maxBytes)
  rw [Int.toNat_natCast] at hno hflag
  have hlone : Lone stream := by
    obtain ⟨-, hlone, -⟩ | ⟨hlong, -⟩ := undisturbed_of_collects (h.mono fun _ _ => trivial)
    · exact hlone
    · exact absurd hlong hno.1
  have hnext := @collect_single max (by omega) stream
  rw [List.take_of_length_le (by omega)] at hnext
  have hsecond : collectOutput max [stream, []] = onData max (collectOutput max [stream]) [] := rfl
  refine hno.1 (hflag.1 ?_)
  rw [hsecond, onData, hnext, clamp_full (by omega) (by rw [length_encode_lone hlone]; omega)]
  exact Bool.or_true _

/-! ## The tail of a text -/

/-- The tail is short enough, and a suffix of the text up to replaced bytes of one character. -/
structure TailFaithful (text : String) (maxBytes : Int) : Prop where
  short : byteLength (tailText text maxBytes) ≤ maxBytes.toNat
  suffix : ∃ front back k, text.toList = front ++ back ∧ k ≤ 3 ∧
    (tailText text maxBytes).toList = List.replicate k replacement ++ back

theorem tailText_of_fits {text : String} (hpos : 0 < maxBytes)
    (h : (byteLength text : Int) ≤ maxBytes) : tailText text maxBytes = text := by
  unfold tailText
  rw [if_neg (by omega)]
  exact if_pos h

theorem tailText_of_long {text : String} (hpos : 0 < maxBytes)
    (h : maxBytes < byteLength text) : tailText text maxBytes = String.ofList
      (decode ((encode text.toList).drop ((encode text.toList).length - maxBytes.toNat))) := by
  unfold tailText
  rw [if_neg (by omega)]
  exact if_neg (by unfold byteLength at h; omega)

theorem tailText_suffix (text : String) (maxBytes : Int) :
    ∃ front back k, text.toList = front ++ back ∧ k ≤ 3 ∧
      (tailText text maxBytes).toList = List.replicate k replacement ++ back ∧
      (0 < maxBytes → maxBytes < byteLength text →
        (encode back).length + k = maxBytes.toNat) := by
  by_cases hpos : maxBytes ≤ 0
  · exact ⟨text.toList, [], 0, by simp, by omega, by rw [tailText, if_pos hpos]; rfl, by omega⟩
  by_cases hfits : (byteLength text : Int) ≤ maxBytes
  · refine ⟨[], text.toList, 0, rfl, by omega, ?_, by omega⟩
    rw [tailText_of_fits (by omega) hfits]
    rfl
  · obtain ⟨inner, front, back, hdrop, htext, hthree, hinner⟩ := exists_drop_encode text.toList
      ((encode text.toList).length - maxBytes.toNat) (Nat.sub_le _ _)
    refine ⟨front, back, inner.length, htext, hthree, ?_, fun _ _ => ?_⟩
    · rw [tailText_of_long (by omega) (by omega), hdrop, String.toList_ofList,
        decode_inner_append hinner, decode_encode]
    · have hlen := congrArg List.length hdrop
      rw [List.length_drop, List.length_append] at hlen
      unfold byteLength at hfits
      omega

theorem tailFaithful_iff (text : String) (maxBytes : Int) :
    TailFaithful text maxBytes ↔ maxBytes ≤ 0 ∨ byteLength text ≤ maxBytes ∨
      ∃ front back, text.toList = front ++ back ∧ (encode back).length = maxBytes.toNat := by
  obtain ⟨front, back, k, htext, hthree, htail, hlength⟩ := tailText_suffix text maxBytes
  have hshort : byteLength (tailText text maxBytes) = 3 * k + (encode back).length := by
    rw [byteLength, htail, encode_append, List.length_append]
    congr 1
    clear hthree htail hlength
    induction k with
    | zero => rfl
    | succ k ih => rw [List.replicate_succ, encode_cons, List.length_append, ih,
        length_encodeChar_replacement]; omega
  refine ⟨fun h => ?_, fun h => ⟨?_, front, back, k, htext, hthree, htail⟩⟩
  · have hle := h.short
    rw [hshort] at hle
    by_cases hpos : maxBytes ≤ 0
    · exact .inl hpos
    by_cases hfits : (byteLength text : Int) ≤ maxBytes
    · exact .inr (.inl hfits)
    · have hroom := hlength (by omega) (by omega)
      exact .inr (.inr ⟨front, back, htext, by omega⟩)
  · by_cases hpos : maxBytes ≤ 0
    · rw [tailText, if_pos hpos]
      exact Nat.zero_le _
    by_cases hfits : (byteLength text : Int) ≤ maxBytes
    · rw [tailText_of_fits (by omega) hfits]
      omega
    obtain hzero | hle | ⟨front', back', htext', hback'⟩ := h
    · exact absurd hzero hpos
    · exact absurd hle hfits
    -- the cut is between two characters
    · rw [tailText_of_long (by omega) (by omega), htext', encode_append, List.length_append, hback',
        Nat.add_sub_cancel, List.drop_left, decode_encode, byteLength_ofList, hback']

/-- What the executor makes of an output. With chunks that are not empty the collected text is
faithful and independent of the chunks exactly if the stream is undisturbed; with any chunks, if
besides it never fills the output up to the limit without being longer. The tail of a text is
faithful exactly if the limit is zero or below, the text is short enough or the cut is between two
characters. -/
theorem output_faithful_iff (stream : List UInt8) (maxBytes : Int) (text : String) :
    (CollectsFaithfully (· ≠ []) stream maxBytes ↔ Undisturbed stream maxBytes.toNat) ∧
    (CollectsFaithfully (fun _ => True) stream maxBytes ↔
      Undisturbed stream maxBytes.toNat ∧ NeverFull stream maxBytes.toNat) ∧
    (TailFaithful text maxBytes ↔ maxBytes ≤ 0 ∨ byteLength text ≤ maxBytes ∨
      ∃ front back, text.toList = front ++ back ∧ (encode back).length = maxBytes.toNat) :=
  ⟨⟨undisturbed_of_collects, fun h => collectsFaithfully_of_undisturbed h (.inl fun _ hne => hne)⟩,
    ⟨fun h => ⟨undisturbed_of_collects (h.mono fun _ _ => trivial), neverFull_of_collects h⟩,
      fun ⟨h, hfull⟩ => collectsFaithfully_of_undisturbed h (.inr hfull)⟩,
    tailFaithful_iff text maxBytes⟩

/-- The two bytes of an umlaut in one chunk and in two, and a tail that begins in its middle. -/
theorem umlaut_cut :
    (collectOutput 16 [[0xC3, 0xA4]]).next = "ä" ∧
    (collectOutput 16 [[0xC3], [0xA4]]).next = "\uFFFD\uFFFD" ∧
    (collectOutput 1 [[0xC3, 0xA4]]).next = "\uFFFD" ∧ byteLength "\uFFFD" = 3 ∧
    ¬ CollectsFaithfully (· ≠ []) [0xC3, 0xA4] 16 ∧ ¬ TailFaithful "ä" 1 := by
  have hone : (collectOutput 16 [[0xC3, 0xA4]]).next = "ä" := by decide
  have htwo : (collectOutput 16 [[0xC3], [0xA4]]).next = "\uFFFD\uFFFD" := by decide
  refine ⟨hone, htwo, by decide, by decide, fun h => ?_, fun h => ?_⟩
  · have hsame := h.independent [[0xC3, 0xA4]] [[0xC3], [0xA4]] (by simp) (by simp) rfl rfl
    rw [hone, htwo] at hsame
    exact absurd hsame (by decide)
  · exact absurd h.short (by decide)

end AionisCore.Memory
