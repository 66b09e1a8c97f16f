import AionisCore.Lib.JsonText
import AionisCore.AionisDoc.Payload

/-!
# Payloads printed as JSON

`parse` reads back every text that `JSON.stringify` prints. Of the escapes it knows the short
ones for the quote, the backslash and the line breaks only, so a string with another control
character comes back changed, as `reread` says. A payload is read back unchanged exactly when
it is `Plain`.
-/

namespace AionisCore.AionisDoc

open Lib Lib.JsString Lib.JsonData PayloadParser

/-! ## What is read back -/

/-- What an escape printed for the character is read as. -/
def rereadChar (c : Char) : List Char :=
  if c = '\n' ∨ c = '\r' ∨ c = '\t' then [c]
  else if c.toNat = 8 then ['b']
  else if c.toNat = 12 then ['f']
  else if c.toNat < 32 then ['u', '0', '0', hexDigit (c.toNat / 16), hexDigit (c.toNat % 16)]
  else [c]

def rereadText (s : String) : String := String.ofList (s.toList.flatMap rereadChar)

mutual

def reread : JsonData → AionisValue
  | .null => .null
  | .bool b => .bool b
  | .num d _ => .num d.literal.value
  | .str s => .str (rereadText s)
  | .arr items => .arr (rereadItems items)
  | .obj fields => .ofObject (rereadFields {} fields)

def rereadItems : List JsonData → List AionisValue
  | [] => []
  | x :: xs => reread x :: rereadItems xs

/-- The fields are assigned one after another. -/
def rereadFields (out : AionisObject) : List (String × JsonData) → AionisObject
  | [] => out
  | f :: fs => rereadFields (out.set (rereadText f.1) (rereadField f)) fs

def rereadField : String × JsonData → AionisValue
  | (_, v) => reread v

end

mutual

/-- The number of values, fields and items in the data. -/
def weight : JsonData → Nat
  | .arr items => 1 + weightItems items
  | .obj fields => 1 + weightFields fields
  | _ => 1

def weightItems : List JsonData → Nat
  | [] => 0
  | x :: xs => 1 + weight x + weightItems xs

def weightFields : List (String × JsonData) → Nat
  | [] => 0
  | f :: fs => 1 + weightField f + weightFields fs

def weightField : String × JsonData → Nat
  | (_, v) => weight v

end

/-! ## Characters -/

variable {c : Char}

theorem skipWhitespace_cons (h : isWhite c = false) (cs : List Char) :
    skipWhitespace (c :: cs) = c :: cs := by
  unfold skipWhitespace
  exact List.dropWhile_cons_of_neg (by simp [h])

theorem skipWhitespace_append {ws : List Char} (h : ∀ c ∈ ws, isWhite c = true)
    (cs : List Char) : skipWhitespace (ws ++ cs) = skipWhitespace cs :=
  List.dropWhile_append_of_pos h

/-- A value that ends at a name or a number ends here. -/
def EndsValue (rest : List Char) : Prop := ∀ c ∈ rest.head?, isIdentifierPart c = false

theorem endsValue_nil : EndsValue [] := nofun

theorem endsValue_cons (h : isIdentifierPart c = false) (cs : List Char) : EndsValue (c :: cs) := by
  intro d hd
  obtain rfl : c = d := by simpa using hd
  exact h

theorem isDigit_eq (c : Char) : isDigit c = c.isDigit := by
  rw [isDigit, Char.isDigit]
  rfl

theorem EndsValue.endsNumber {rest : List Char} (h : EndsValue rest) : EndsNumber rest := by
  intro c hc
  have hpart := h c hc
  rw [isIdentifierPart, Bool.or_eq_false_iff, Bool.or_eq_false_iff, Bool.or_eq_false_iff,
    Char.isAlphanum, Bool.or_eq_false_iff] at hpart
  obtain ⟨⟨⟨⟨halpha, hdigit⟩, -⟩, hdot⟩, -⟩ := hpart
  refine ⟨(isDigit_eq c).trans hdigit, by simpa using hdot, ?_, ?_⟩
  · rintro rfl
    exact absurd halpha (by decide)
  · rintro rfl
    exact absurd halpha (by decide)

/-! ## Strings -/

theorem stringBody_cons {quote : Char} (h : c ≠ '\\') (cs : List Char) :
    stringBody quote (c :: cs) =
      if c = quote then .ok ([], cs)
      else (stringBody quote cs).map fun p => (c :: p.1, p.2) := by
  rw [stringBody]
  · intro hc
    exact absurd hc h
  · intro next cs' hc
    exact absurd hc h

theorem stringBody_escaped (next : Char) (cs : List Char) :
    stringBody '"' ('\\' :: next :: cs) =
      (stringBody '"' cs).map fun p => (unescape next :: p.1, p.2) := by
  rw [stringBody]

theorem hexDigit_lt {n : Nat} (h : n < 16) :
    hexDigit n ≠ '\\' ∧ hexDigit n ≠ '"' := by
  interval_cases n <;> decide

theorem stringBody_escape (c : Char) (cs : List Char) :
    stringBody '"' (escapeChar c ++ cs) =
      (stringBody '"' cs).map fun p => (rereadChar c ++ p.1, p.2) := by
  unfold escapeChar
  split
  · next h =>
    subst h
    exact stringBody_escaped '"' cs
  split
  · next h =>
    subst h
    exact stringBody_escaped '\\' cs
  split
  · next h =>
    subst h
    exact stringBody_escaped 'n' cs
  split
  · next h =>
    subst h
    exact stringBody_escaped 'r' cs
  split
  · next h =>
    subst h
    exact stringBody_escaped 't' cs
  next hquote hback hn hr ht =>
  have hshort : ¬ (c = '\n' ∨ c = '\r' ∨ c = '\t') := by
    rintro (h | h | h)
    · exact hn h
    · exact hr h
    · exact ht h
  unfold rereadChar
  rw [if_neg hshort]
  split
  · exact stringBody_escaped 'b' cs
  split
  · exact stringBody_escaped 'f' cs
  split
  · next hlt =>
    obtain ⟨hback₁, hquote₁⟩ := hexDigit_lt (show c.toNat / 16 < 16 by omega)
    obtain ⟨hback₂, hquote₂⟩ := hexDigit_lt (show c.toNat % 16 < 16 by omega)
    simp only [List.cons_append, List.nil_append]
    rw [stringBody_escaped, stringBody_cons (by decide), if_neg (by decide),
      stringBody_cons (by decide), if_neg (by decide), stringBody_cons hback₁, if_neg hquote₁,
      stringBody_cons hback₂, if_neg hquote₂]
    cases stringBody '"' cs <;> rfl
  · rw [List.singleton_append, stringBody_cons hback, if_neg hquote]
    rfl

theorem stringBody_escapes (s cs : List Char) :
    stringBody '"' (s.flatMap escapeChar ++ '"' :: cs) = .ok (s.flatMap rereadChar, cs) := by
  induction s with
  | nil =>
    rw [List.flatMap_nil, List.nil_append, stringBody_cons (by decide), if_pos rfl]
    rfl
  | cons c s ih =>
    rw [List.flatMap_cons, List.append_assoc, stringBody_escape, ih, List.flatMap_cons]
    rfl

theorem parseString_quoteText (s : String) (cs : List Char) :
    parseString (quoteText s ++ cs) = .ok (rereadText s, cs) := by
  have hquote : quoteText s ++ cs = '"' :: (s.toList.flatMap escapeChar ++ '"' :: cs) := by
    simp [quoteText]
  rw [hquote, parseString, if_pos (Or.inl rfl), stringBody_escapes]
  rfl

theorem parseKey_quoteText (s : String) (cs : List Char) :
    parseKey (quoteText s ++ cs) = .ok (rereadText s, cs) := by
  have hquote : quoteText s ++ cs = '"' :: (s.toList.flatMap escapeChar ++ '"' :: cs) := by
    simp [quoteText]
  rw [← parseString_quoteText, hquote, parseKey, if_pos (Or.inl rfl)]

/-! ## Values -/

section Values

variable (gap : List Char)

/-- A character that no value starts with can stand behind one. -/
def StartsValue (cs : List Char) : Prop :=
  ∃ c rest, cs = c :: rest ∧ isWhite c = false ∧ c ≠ '}' ∧ c ≠ ']'

variable {c : Char}

theorem startsValue_cons (h : isWhite c = false ∧ c ≠ '}' ∧ c ≠ ']') (cs : List Char) :
    StartsValue (c :: cs) := ⟨c, cs, rfl, h⟩

variable {cs indent rest : List Char}

theorem StartsValue.append (h : StartsValue cs) (ds : List Char) : StartsValue (cs ++ ds) := by
  obtain ⟨c, rest, rfl, hc⟩ := h
  exact ⟨c, rest ++ ds, rfl, hc⟩

theorem StartsValue.skip (h : StartsValue cs) : skipWhitespace cs = cs := by
  obtain ⟨c, rest, rfl, hc, -⟩ := h
  exact skipWhitespace_cons hc rest

theorem text_head (d : Decimal) :
    ∃ c cs, d.text = c :: cs ∧ (c = '-' ∨ isDigit c = true) := by
  have hwell := d.literal_wellFormed
  unfold Decimal.text NumberLiteral.text
  split
  · exact ⟨'-', _, rfl, Or.inl rfl⟩
  · have hwhole : ∃ c cs, d.literal.whole = c :: cs ∧ isDigit c = true := by
      obtain h | ⟨hne, hdigits, -⟩ := hwell.whole
      · exact ⟨'0', [], h, rfl⟩
      · obtain ⟨c, cs, hcons⟩ := List.exists_cons_of_ne_nil hne
        exact ⟨c, cs, hcons, hdigits c (hcons ▸ List.mem_cons_self)⟩
    obtain ⟨c, cs, hcons, hdigit⟩ := hwhole
    rw [hcons]
    exact ⟨c, _, rfl, Or.inr hdigit⟩

theorem numberStart (h : c = '-' ∨ isDigit c = true) :
    isWhite c = false ∧ c ≠ '}' ∧ c ≠ ']' ∧ c ≠ '{' ∧ c ≠ '[' ∧ c ≠ '"' ∧ c ≠ '\'' := by
  obtain rfl | h := h
  · decide
  · rw [isDigit_iff] at h
    refine ⟨isWhite_of_printable (by omega) (by omega), ?_⟩
    refine ⟨?_, ?_, ?_, ?_, ?_, ?_⟩
    all_goals
      rintro rfl
      revert h
      decide

theorem stringify_startsValue (indent : List Char) (v : JsonData) :
    StartsValue (stringify gap indent v) := by
  cases v with
  | null => exact startsValue_cons (by decide) _
  | bool b => cases b <;> exact startsValue_cons (by decide) _
  | num d _ =>
    obtain ⟨c, cs, htext, hc⟩ := text_head d
    have hstart := numberStart hc
    rw [stringify, htext]
    exact startsValue_cons ⟨hstart.1, hstart.2.1, hstart.2.2.1⟩ cs
  | str s => exact startsValue_cons (by decide) _
  | arr items =>
    rw [stringify]
    exact startsValue_cons (by decide) _
  | obj fields =>
    rw [stringify]
    exact startsValue_cons (by decide) _

theorem skipWhitespace_newline (hindent : ∀ c ∈ indent, isWhite c = true) (cs : List Char) :
    skipWhitespace (newline gap indent ++ cs) = skipWhitespace cs := by
  refine skipWhitespace_append (fun c hc => ?_) cs
  unfold newline at hc
  split at hc
  · cases hc
  · obtain rfl | hc := List.mem_cons.1 hc
    · decide
    · exact hindent c hc

theorem endsValue_newline (h : EndsValue cs) : EndsValue (newline gap indent ++ cs) := by
  unfold newline
  split
  · exact h
  · exact endsValue_cons (by decide) _

theorem parseValue_scalar (fuel : Nat) (hbrace : c ≠ '{') (hbracket : c ≠ '[') (cs : List Char) :
    parseValue (fuel + 1) (c :: cs) =
      if c = '"' ∨ c = '\'' then (parseString (c :: cs)).map fun p => (.str p.1, p.2)
      else if c = '-' ∨ isDigit c then parseNumber (c :: cs)
      else if isIdentifierStart c then parseLiteral c cs
      else .error s!"Unexpected token '{peekText (c :: cs)}' in payload." := by
  rw [parseValue]
  · exact hbrace
  · exact hbracket

theorem identifierPart_ends (hcs : ∀ c ∈ cs, isIdentifierPart c = true) (hrest : EndsValue rest) :
    (cs ++ rest).takeWhile isIdentifierPart = cs ∧
      (cs ++ rest).dropWhile isIdentifierPart = rest := by
  rw [List.takeWhile_append_of_pos hcs, List.dropWhile_append_of_pos hcs]
  cases rest with
  | nil => exact ⟨List.append_nil cs, rfl⟩
  | cons c rest =>
    have hc : ¬ isIdentifierPart c = true := by simp [hrest c rfl]
    rw [List.takeWhile_cons_of_neg hc, List.dropWhile_cons_of_neg hc, List.append_nil]
    exact ⟨rfl, rfl⟩

/-- A word is read up to the end of the identifier. -/
theorem parseValue_word (fuel : Nat) {v : AionisValue}
    (hstart : c ≠ '{' ∧ c ≠ '[' ∧ ¬ (c = '"' ∨ c = '\'') ∧ ¬ (c = '-' ∨ isDigit c = true) ∧
      isIdentifierStart c = true) (hpart : ∀ d ∈ cs, isIdentifierPart d = true)
    (hliteral : parseLiteral c cs = .ok (v, [])) (hrest : EndsValue rest) :
    parseValue (fuel + 1) (c :: cs ++ rest) = .ok (v, rest) := by
  obtain ⟨hbrace, hbracket, hquote, hnumber, hident⟩ := hstart
  obtain ⟨htake, hdrop⟩ := identifierPart_ends hpart hrest
  obtain ⟨htake', hdrop'⟩ := identifierPart_ends hpart endsValue_nil
  rw [List.append_nil] at htake' hdrop'
  rw [List.cons_append, parseValue_scalar fuel hbrace hbracket, if_neg hquote, if_neg hnumber,
    if_pos hident]
  have hrest' : parseLiteral c (cs ++ rest) = (parseLiteral c cs).map fun p => (p.1, rest) := by
    unfold parseLiteral
    rw [htake, hdrop, htake', hdrop']
    dsimp only
    split_ifs <;> rfl
  rw [hrest', hliteral]
  rfl

theorem parseValue_num (fuel : Nat) (d : Decimal) (hrest : EndsValue rest) :
    parseValue (fuel + 1) (d.text ++ rest) = .ok (.num d.literal.value, rest) := by
  obtain ⟨c, cs, htext, hc⟩ := text_head d
  obtain ⟨-, -, -, hbrace, hbracket, hquote, hsingle⟩ := numberStart hc
  have hscan := scanNumber_text d.literal_wellFormed hrest.endsNumber
  rw [← Decimal.text, htext, List.cons_append] at hscan
  rw [htext, List.cons_append, parseValue_scalar fuel hbrace hbracket,
    if_neg (not_or.2 ⟨hquote, hsingle⟩), if_pos hc, parseNumber, hscan]

theorem parseValue_str (fuel : Nat) (s : String) (rest : List Char) :
    parseValue (fuel + 1) (quoteText s ++ rest) = .ok (.str (rereadText s), rest) := by
  have hparse := parseString_quoteText s rest
  have hquote : quoteText s ++ rest = '"' :: (s.toList.flatMap escapeChar ++ '"' :: rest) := by
    simp [quoteText]
  rw [hquote] at hparse ⊢
  rw [parseValue_scalar fuel (by decide) (by decide), if_pos (Or.inl rfl), hparse]
  rfl

/-- The items from the first one on, up to the closing bracket. -/
def itemsText (gap indent : List Char) : List JsonData → List Char
  | [] => []
  | x :: xs => stringify gap (indent ++ gap) x ++ moreItems gap indent xs

def fieldsText (gap indent : List Char) : List (String × JsonData) → List Char
  | [] => []
  | f :: fs => stringifyField gap indent f ++ moreFields gap indent fs

theorem moreItems_cons (indent : List Char) (x : JsonData) (xs : List JsonData) :
    moreItems gap indent (x :: xs) =
      ',' :: (newline gap (indent ++ gap) ++ itemsText gap indent (x :: xs)) := by
  rw [moreItems, itemsText]
  simp only [List.cons_append, List.append_assoc]

theorem moreFields_cons (indent : List Char) (f : String × JsonData)
    (fs : List (String × JsonData)) :
    moreFields gap indent (f :: fs) =
      ',' :: (newline gap (indent ++ gap) ++ fieldsText gap indent (f :: fs)) := by
  rw [moreFields, fieldsText]
  simp only [List.cons_append, List.append_assoc]

theorem endsValue_moreItems (indent : List Char) (xs : List JsonData) (rest : List Char) :
    EndsValue (moreItems gap indent xs ++ ']' :: rest) := by
  cases xs with
  | nil => exact endsValue_newline gap (endsValue_cons (by decide) _)
  | cons x xs =>
    rw [moreItems_cons]
    exact endsValue_cons (by decide) _

theorem endsValue_moreFields (indent : List Char) (fs : List (String × JsonData))
    (rest : List Char) : EndsValue (moreFields gap indent fs ++ '}' :: rest) := by
  cases fs with
  | nil => exact endsValue_newline gap (endsValue_cons (by decide) _)
  | cons f fs =>
    rw [moreFields_cons]
    exact endsValue_cons (by decide) _

theorem itemsText_startsValue (indent : List Char) (x : JsonData) (xs : List JsonData) :
    StartsValue (itemsText gap indent (x :: xs)) :=
  (stringify_startsValue gap _ x).append _

theorem fieldsText_startsValue (indent : List Char) (f : String × JsonData)
    (fs : List (String × JsonData)) : StartsValue (fieldsText gap indent (f :: fs)) := by
  obtain ⟨k, v⟩ := f
  rw [fieldsText, stringifyField, quoteText]
  exact startsValue_cons (by decide) _

variable {gap} in
theorem append_gap (hgap : ∀ c ∈ gap, isWhite c = true) (hindent : ∀ c ∈ indent, isWhite c = true) :
    ∀ c ∈ indent ++ gap, isWhite c = true :=
  fun c hc => (List.mem_append.1 hc).elim (hindent c) (hgap c)

theorem expect_colon (cs : List Char) :
    ∃ ds, expect ':' (skipWhitespace (colon gap ++ cs)) = .ok ds ∧
      skipWhitespace ds = skipWhitespace cs := by
  refine ⟨(colon gap ++ cs).drop 1, ?_, ?_⟩
  · unfold colon
    split
    · rw [List.singleton_append, skipWhitespace_cons (by decide), expect]
      rfl
    · rw [List.cons_append, skipWhitespace_cons (by decide), expect]
      rfl
  · unfold colon
    split
    · rfl
    · exact @skipWhitespace_append [' '] (List.forall_mem_singleton.2 rfl) cs

variable {gap}

mutual

/-- The text of a value is read as the value with its strings reread. -/
theorem parseValue_stringify (hgap : ∀ c ∈ gap, isWhite c = true) :
    (v : JsonData) → ∀ {fuel : Nat}, weight v ≤ fuel → ∀ {indent : List Char},
      (∀ c ∈ indent, isWhite c = true) → ∀ {rest : List Char}, EndsValue rest →
      parseValue fuel (stringify gap indent v ++ rest) = .ok (reread v, rest)
  | .null, fuel + 1, _, _, _, _, hrest =>
    parseValue_word fuel (by decide) (List.all_eq_true.1 rfl) rfl hrest
  | .bool true, fuel + 1, _, _, _, _, hrest =>
    parseValue_word fuel (by decide) (List.all_eq_true.1 rfl) rfl hrest
  | .bool false, fuel + 1, _, _, _, _, hrest =>
    parseValue_word fuel (by decide) (List.all_eq_true.1 rfl) rfl hrest
  | .num d _, fuel + 1, _, _, _, _, hrest => parseValue_num fuel d hrest
  | .str s, fuel + 1, _, _, _, rest, _ => parseValue_str fuel s rest
  | .arr [], fuel + 1, _, _, _, rest, _ => rfl
  | .arr (x :: xs), fuel, hfuel, indent, hindent, rest, _ => by
    rw [weight] at hfuel
    obtain ⟨fuel, rfl⟩ := Nat.exists_eq_add_of_le' (show 1 ≤ fuel by omega)
    have hitems := parseItems_stringify hgap (x :: xs) (List.cons_ne_nil _ _)
      (show weightItems (x :: xs) ≤ fuel by omega) hindent [] rest
    have htext : stringify gap indent (.arr (x :: xs)) ++ rest =
        '[' :: (newline gap (indent ++ gap) ++
          (itemsText gap indent (x :: xs) ++ ']' :: rest)) := by
      rw [stringify, openItems, itemsText]
      simp only [List.cons_append, List.append_assoc, List.nil_append]
    have hstart := (itemsText_startsValue gap indent x xs).append (']' :: rest)
    obtain ⟨c, cs, hcons, hwhite, -, hbracket⟩ := hstart
    rw [htext, parseValue, skipWhitespace_newline gap (append_gap hgap hindent), hcons,
      skipWhitespace_cons hwhite]
    rw [hcons] at hitems
    split
    · next heq =>
      exact absurd (List.cons.inj heq).1 hbracket
    · rw [hitems, reread, List.nil_append]
  | .obj [], fuel + 1, _, _, _, rest, _ => rfl
  | .obj (f :: fs), fuel, hfuel, indent, hindent, rest, _ => by
    rw [weight] at hfuel
    obtain ⟨fuel, rfl⟩ := Nat.exists_eq_add_of_le' (show 1 ≤ fuel by omega)
    have hfields := parseFields_stringify hgap (f :: fs) (List.cons_ne_nil _ _)
      (show weightFields (f :: fs) ≤ fuel by omega) hindent {} rest
    have htext : stringify gap indent (.obj (f :: fs)) ++ rest =
        '{' :: (newline gap (indent ++ gap) ++
          (fieldsText gap indent (f :: fs) ++ '}' :: rest)) := by
      rw [stringify, openFields, fieldsText]
      simp only [List.cons_append, List.append_assoc, List.nil_append]
    have hstart := (fieldsText_startsValue gap indent f fs).append ('}' :: rest)
    obtain ⟨c, cs, hcons, hwhite, hbrace, -⟩ := hstart
    rw [htext, parseValue, skipWhitespace_newline gap (append_gap hgap hindent), hcons,
      skipWhitespace_cons hwhite]
    rw [hcons] at hfields
    split
    · next heq =>
      exact absurd (List.cons.inj heq).1 hbrace
    · rw [hfields, reread]

theorem parseItems_stringify (hgap : ∀ c ∈ gap, isWhite c = true) :
    (items : List JsonData) → items ≠ [] → ∀ {fuel : Nat}, weightItems items ≤ fuel →
      ∀ {indent : List Char}, (∀ c ∈ indent, isWhite c = true) →
      ∀ (out : List AionisValue) (rest : List Char),
      parseItems fuel out (itemsText gap indent items ++ ']' :: rest) =
        .ok (.arr (out ++ rereadItems items), rest)
  | [], hne, _, _, _, _, _, _ => absurd rfl hne
  | x :: xs, _, fuel, hfuel, indent, hindent, out, rest => by
    rw [weightItems] at hfuel
    obtain ⟨fuel, rfl⟩ := Nat.exists_eq_add_of_le' (show 1 ≤ fuel by omega)
    have hvalue := parseValue_stringify hgap x (show weight x ≤ fuel by omega)
      (append_gap hgap hindent) (endsValue_moreItems gap indent xs rest)
    have hstart := (stringify_startsValue gap (indent ++ gap) x).append
      (moreItems gap indent xs ++ ']' :: rest)
    have hne : stringify gap (indent ++ gap) x ++ (moreItems gap indent xs ++ ']' :: rest) ≠
        [] := by
      obtain ⟨c, cs, hcons, -⟩ := hstart
      rw [hcons]
      exact List.cons_ne_nil _ _
    rw [itemsText, List.append_assoc, parseItems, if_neg hne, hvalue]
    cases xs with
    | nil =>
      have hclose : skipWhitespace (moreItems gap indent [] ++ ']' :: rest) = ']' :: rest := by
        rw [moreItems, skipWhitespace_newline gap hindent, skipWhitespace_cons (by decide)]
      simp only [bind, Except.bind, hclose]
      rfl
    | cons y ys =>
      have hitems := parseItems_stringify hgap (y :: ys) (List.cons_ne_nil _ _)
        (show weightItems (y :: ys) ≤ fuel by omega) hindent (out ++ [reread x]) rest
      have hcomma : skipWhitespace (moreItems gap indent (y :: ys) ++ ']' :: rest) =
          ',' :: (newline gap (indent ++ gap) ++
            (itemsText gap indent (y :: ys) ++ ']' :: rest)) := by
        rw [moreItems_cons, List.cons_append, skipWhitespace_cons (by decide), List.append_assoc]
      have hnext := ((itemsText_startsValue gap indent y ys).append (']' :: rest)).skip
      simp only [bind, Except.bind, hcomma]
      rw [skipWhitespace_newline gap (append_gap hgap hindent), hnext, hitems, List.append_assoc]
      rfl

theorem parseFields_stringify (hgap : ∀ c ∈ gap, isWhite c = true) :
    (fields : List (String × JsonData)) → fields ≠ [] →
      ∀ {fuel : Nat}, weightFields fields ≤ fuel →
      ∀ {indent : List Char}, (∀ c ∈ indent, isWhite c = true) →
      ∀ (out : AionisObject) (rest : List Char),
      parseFields fuel out (fieldsText gap indent fields ++ '}' :: rest) =
        .ok (.ofObject (rereadFields out fields), rest)
  | [], hne, _, _, _, _, _, _ => absurd rfl hne
  | (k, v) :: fs, _, fuel, hfuel, indent, hindent, out, rest => by
    rw [weightFields, weightField] at hfuel
    obtain ⟨fuel, rfl⟩ := Nat.exists_eq_add_of_le' (show 1 ≤ fuel by omega)
    have hvalue := parseValue_stringify hgap v (show weight v ≤ fuel by omega)
      (append_gap hgap hindent) (endsValue_moreFields gap indent fs rest)
    have hskip := ((stringify_startsValue gap (indent ++ gap) v).append
      (moreFields gap indent fs ++ '}' :: rest)).skip
    have htext : fieldsText gap indent ((k, v) :: fs) ++ '}' :: rest =
        quoteText k ++ (colon gap ++ (stringify gap (indent ++ gap) v ++
          (moreFields gap indent fs ++ '}' :: rest))) := by
      rw [fieldsText, stringifyField]
      simp only [List.append_assoc]
    have hne : quoteText k ++ (colon gap ++ (stringify gap (indent ++ gap) v ++
        (moreFields gap indent fs ++ '}' :: rest))) ≠ [] := by
      rw [quoteText]
      exact List.cons_ne_nil _ _
    obtain ⟨ds, hcolon, hds⟩ := expect_colon gap (stringify gap (indent ++ gap) v ++
      (moreFields gap indent fs ++ '}' :: rest))
    rw [htext, parseFields, if_neg hne, parseKey_quoteText]
    simp only [bind, Except.bind, hcolon, hds, hskip, hvalue]
    cases fs with
    | nil =>
      have hclose : skipComma (skipWhitespace (moreFields gap indent [] ++ '}' :: rest)) =
          '}' :: rest := by
        rw [moreFields, skipWhitespace_newline gap hindent, skipWhitespace_cons (by decide)]
        rfl
      rw [hclose]
      rfl
    | cons g gs =>
      have hfields := parseFields_stringify hgap (g :: gs) (List.cons_ne_nil _ _)
        (show weightFields (g :: gs) ≤ fuel by omega) hindent
        (out.set (rereadText k) (reread v)) rest
      have hstart := (fieldsText_startsValue gap indent g gs).append ('}' :: rest)
      have hcomma : skipComma (skipWhitespace (moreFields gap indent (g :: gs) ++ '}' :: rest)) =
          fieldsText gap indent (g :: gs) ++ '}' :: rest := by
        rw [moreFields_cons, List.cons_append, skipWhitespace_cons (by decide), skipComma,
          List.append_assoc, skipWhitespace_newline gap (append_gap hgap hindent), hstart.skip]
      obtain ⟨c, cs, hcons, -, hbrace, -⟩ := hstart
      rw [hcomma, hcons]
      rw [hcons] at hfields
      split
      · next heq =>
        exact absurd (List.cons.inj heq).1 hbrace
      · rw [hfields]
        rfl

end

end Values

/-! ## Enough fuel -/

section Weight

variable (gap : List Char)

theorem length_quoteText (s : String) : 2 ≤ (quoteText s).length := by
  simp [quoteText]

mutual

/-- A text has a character for every value in it. -/
theorem weight_le (indent : List Char) :
    (v : JsonData) → weight v ≤ (stringify gap indent v).length
  | .null | .bool true | .bool false => by simp [weight, stringify]
  | .num d _ => by
    obtain ⟨c, cs, htext, -⟩ := text_head d
    simp [weight, stringify, htext]
  | .str s => by
    have := length_quoteText s
    show 1 ≤ (quoteText s).length
    omega
  | .arr items => by
    have := weightItems_le_open indent items
    simp only [weight, stringify, List.length_cons, List.length_append, List.length_nil,
      List.cons_append]
    omega
  | .obj fields => by
    have := weightFields_le_open indent fields
    simp only [weight, stringify, List.length_cons, List.length_append, List.length_nil,
      List.cons_append]
    omega

theorem weightItems_le_open (indent : List Char) :
    (items : List JsonData) → weightItems items ≤ (openItems gap indent items).length + 1
  | [] => by simp [weightItems]
  | x :: xs => by
    have := weight_le (indent ++ gap) x
    have := weightItems_le_more indent xs
    simp only [weightItems, openItems, List.length_append]
    omega

theorem weightItems_le_more (indent : List Char) :
    (items : List JsonData) → weightItems items ≤ (moreItems gap indent items).length
  | [] => by simp [weightItems]
  | x :: xs => by
    have := weight_le (indent ++ gap) x
    have := weightItems_le_more indent xs
    simp only [weightItems, moreItems, List.length_append, List.length_cons, List.cons_append]
    omega

theorem weightFields_le_open (indent : List Char) :
    (fields : List (String × JsonData)) →
      weightFields fields ≤ (openFields gap indent fields).length
  | [] => by simp [weightFields]
  | f :: fs => by
    have := weightField_lt indent f
    have := weightFields_le_more indent fs
    simp only [weightFields, openFields, List.length_append]
    omega

theorem weightFields_le_more (indent : List Char) :
    (fields : List (String × JsonData)) →
      weightFields fields ≤ (moreFields gap indent fields).length
  | [] => by simp [weightFields]
  | f :: fs => by
    have := weightField_lt indent f
    have := weightFields_le_more indent fs
    simp only [weightFields, moreFields, List.length_append, List.length_cons, List.cons_append]
    omega

theorem weightField_lt (indent : List Char) :
    (f : String × JsonData) → weightField f < (stringifyField gap indent f).length
  | (k, v) => by
    have := weight_le (indent ++ gap) v
    have := length_quoteText k
    simp only [weightField, stringifyField, List.length_append]
    omega

end

end Weight

/-- A printed payload is read, with its strings reread. -/
theorem parse_stringify {gap : List Char} (hgap : ∀ c ∈ gap, isWhite c = true) (v : JsonData) :
    parse (stringify gap [] v) = .ok (reread v) := by
  have hskip := (stringify_startsValue gap [] v).skip
  have hvalue := parseValue_stringify hgap v
    (show weight v ≤ (stringify gap [] v).length + 1 from (weight_le gap [] v).trans (by omega))
    (fun c hc => absurd hc List.not_mem_nil) endsValue_nil
  rw [List.append_nil] at hvalue
  rw [parse, hskip, hvalue]
  rfl

/-! ## Plain payloads -/

mutual

/-- JSON data as the value it is. -/
def toValue : JsonData → AionisValue
  | .null => .null
  | .bool b => .bool b
  | .num d h => .num (.finite d h)
  | .str s => .str s
  | .arr items => .arr (toValues items)
  | .obj fields => .obj (toFields fields) .objectPrototype

def toValues : List JsonData → List AionisValue
  | [] => []
  | x :: xs => toValue x :: toValues xs

def toFields : List (String × JsonData) → List (String × AionisValue)
  | [] => []
  | f :: fs => toField f :: toFields fs

def toField : String × JsonData → String × AionisValue
  | (k, v) => (k, toValue v)

end

/-- The character is printed as itself or as an escape that the parser knows. -/
def PlainChar (c : Char) : Prop := 32 ≤ c.toNat ∨ c = '\n' ∨ c = '\r' ∨ c = '\t'

def PlainText (s : String) : Prop := ∀ c ∈ s.toList, PlainChar c

instance : DecidablePred PlainChar :=
  fun c => inferInstanceAs (Decidable (32 ≤ c.toNat ∨ c = '\n' ∨ c = '\r' ∨ c = '\t'))

instance : DecidablePred PlainText := fun s => List.decidableBAll PlainChar s.toList

mutual

/-- The strings and keys are plain, no key is `__proto__` and no number is `-0`. -/
def Plain : JsonData → Prop
  | .null | .bool _ => True
  | .num d _ => d.NotNegativeZero
  | .str s => PlainText s
  | .arr items => PlainItems items
  | .obj fields => PlainFields fields

def PlainItems : List JsonData → Prop
  | [] => True
  | x :: xs => Plain x ∧ PlainItems xs

def PlainFields : List (String × JsonData) → Prop
  | [] => True
  | f :: fs => PlainField f ∧ PlainFields fs

def PlainField : String × JsonData → Prop
  | (k, v) => (PlainText k ∧ k ≠ "__proto__") ∧ Plain v

end

mutual

/-- No object has two fields of one name. -/
def Distinct : JsonData → Prop
  | .arr items => DistinctItems items
  | .obj fields => (fields.map (·.1)).Nodup ∧ DistinctFields fields
  | _ => True

def DistinctItems : List JsonData → Prop
  | [] => True
  | x :: xs => Distinct x ∧ DistinctItems xs

def DistinctFields : List (String × JsonData) → Prop
  | [] => True
  | f :: fs => DistinctField f ∧ DistinctFields fs

def DistinctField : String × JsonData → Prop
  | (_, v) => Distinct v

end

theorem rereadChar_plain (h : PlainChar c) : rereadChar c = [c] := by
  unfold rereadChar
  split
  · rfl
  · next hshort =>
    obtain h | h := h
    · rw [if_neg (by omega), if_neg (by omega), if_neg (by omega)]
    · exact absurd h hshort

theorem plainChar_hexDigit {n : Nat} (h : n < 16) : PlainChar (hexDigit n) := by
  left
  interval_cases n <;> decide

theorem plainChar_of_mem_rereadChar {d : Char} (h : d ∈ rereadChar c) : PlainChar d := by
  unfold rereadChar at h
  split at h
  · next hc =>
    obtain rfl := List.mem_singleton.1 h
    exact Or.inr hc
  split at h
  · obtain rfl := List.mem_singleton.1 h
    left
    decide
  split at h
  · obtain rfl := List.mem_singleton.1 h
    left
    decide
  split at h
  · simp only [List.mem_cons, List.not_mem_nil, or_false] at h
    obtain rfl | rfl | rfl | rfl | rfl := h
    · exact Or.inl (by decide)
    · exact Or.inl (by decide)
    · exact Or.inl (by decide)
    · exact plainChar_hexDigit (by omega)
    · exact plainChar_hexDigit (by omega)
  · obtain rfl := List.mem_singleton.1 h
    left
    omega

theorem plainText_rereadText (s : String) : PlainText (rereadText s) := by
  intro c hc
  rw [rereadText, String.toList_ofList] at hc
  obtain ⟨d, -, hd⟩ := List.mem_flatMap.1 hc
  exact plainChar_of_mem_rereadChar hd

theorem rereadText_plain {s : String} (h : PlainText s) : rereadText s = s := by
  have hchars : ∀ cs : List Char, (∀ c ∈ cs, PlainChar c) → cs.flatMap rereadChar = cs := by
    intro cs hcs
    induction cs with
    | nil => rfl
    | cons c cs ih =>
      rw [List.flatMap_cons, rereadChar_plain (hcs c List.mem_cons_self),
        ih fun d hd => hcs d (List.mem_cons_of_mem c hd), List.singleton_append]
  rw [rereadText, hchars s.toList h, String.ofList_toList]

theorem rereadText_eq_self {s : String} : rereadText s = s ↔ PlainText s :=
  ⟨fun h => h ▸ plainText_rereadText s, rereadText_plain⟩

/-! ## Assigning the fields -/

section Assign

variable {out : AionisObject} {k : String} {v : AionisValue}

/-- The prototype is the default one, and no field is called `__proto__`. -/
structure AionisObject.Ordinary (o : AionisObject) : Prop where
  proto : o.proto = .objectPrototype
  own : OrderedMap.getEntry "__proto__" o.own = none

theorem ordinary_empty : AionisObject.Ordinary {} := ⟨rfl, rfl⟩

theorem AionisObject.Ordinary.set (h : out.Ordinary) (hk : k ≠ "__proto__")
    (v : AionisValue) : (out.set k v).Ordinary := by
  rw [AionisObject.set_of_ne hk]
  refine ⟨h.proto, ?_⟩
  rw [OrderedMap.getEntry_setEntry, if_neg hk.symm]
  exact h.own

theorem own_set_proto (h : out.Ordinary) : (out.set "__proto__" v).own = out.own := by
  have haccessor : out.proto.reachesAccessor = true := by
    rw [h.proto]
    rfl
  rw [AionisObject.set, if_pos ⟨rfl, h.own, haccessor⟩]
  split <;> rfl

theorem keys_own_set :
    ∀ x ∈ (out.set k v).own.map (·.1), x = k ∨ x ∈ out.own.map (·.1) := by
  intro x hx
  unfold AionisObject.set at hx
  split at hx
  · split at hx
    · exact Or.inr hx
    · exact Or.inr hx
  · dsimp only at hx
    rw [OrderedMap.keys_setEntry] at hx
    split at hx
    · exact Or.inr hx
    · rw [List.mem_append, List.mem_singleton] at hx
      exact hx.symm

theorem length_own_set_le (out : AionisObject) (k : String) (v : AionisValue) :
    (out.set k v).own.length ≤ out.own.length + 1 := by
  unfold AionisObject.set
  split
  · split
    · exact Nat.le_succ _
    · exact Nat.le_succ _
  · have hkeys := congrArg List.length (OrderedMap.keys_setEntry k v out.own)
    rw [List.length_map] at hkeys
    dsimp only
    rw [hkeys]
    split
    · rw [List.length_map]
      omega
    · simp

theorem length_rereadFields_le (out : AionisObject) (fs : List (String × JsonData)) :
    (rereadFields out fs).own.length ≤ out.own.length + fs.length := by
  induction fs generalizing out with
  | nil => exact le_rfl
  | cons f fs ih =>
    have hset := length_own_set_le out (rereadText f.1) (rereadField f)
    have := ih (out.set (rereadText f.1) (rereadField f))
    rw [rereadFields, List.length_cons]
    omega

theorem length_rereadFields_lt (h : out.Ordinary) {fs : List (String × JsonData)}
    (hproto : ∃ f ∈ fs, rereadText f.1 = "__proto__") :
    (rereadFields out fs).own.length < out.own.length + fs.length := by
  induction fs generalizing out with
  | nil =>
    obtain ⟨f, hf, -⟩ := hproto
    cases hf
  | cons f fs ih =>
    rw [rereadFields, List.length_cons]
    by_cases hf : rereadText f.1 = "__proto__"
    · have hle := length_rereadFields_le (out.set "__proto__" (rereadField f)) fs
      rw [own_set_proto h] at hle
      rw [hf]
      omega
    · obtain ⟨g, hg, hname⟩ := hproto
      obtain rfl | hg := List.mem_cons.1 hg
      · exact absurd hname hf
      · have hset := length_own_set_le out (rereadText f.1) (rereadField f)
        have := ih (h.set hf (rereadField f)) ⟨g, hg, hname⟩
        omega

theorem keys_rereadFields (fs : List (String × JsonData)) :
    ∀ x ∈ (rereadFields out fs).own.map (·.1),
      x ∈ out.own.map (·.1) ∨ ∃ f ∈ fs, x = rereadText f.1 := by
  induction fs generalizing out with
  | nil => exact fun x hx => Or.inl hx
  | cons f fs ih =>
    intro x hx
    obtain hx | ⟨g, hg, rfl⟩ := ih x hx
    · obtain rfl | hx := keys_own_set x hx
      · exact Or.inr ⟨f, List.mem_cons_self, rfl⟩
      · exact Or.inl hx
    · exact Or.inr ⟨g, List.mem_cons_of_mem f hg, rfl⟩

/-- Plain names that differ are assigned one behind the other. -/
theorem rereadFields_plain (h : out.proto = .objectPrototype) {fs : List (String × JsonData)}
    (hplain : ∀ f ∈ fs, PlainText f.1 ∧ f.1 ≠ "__proto__") (hnodup : (fs.map (·.1)).Nodup)
    (hfresh : ∀ f ∈ fs, OrderedMap.getEntry f.1 out.own = none) :
    rereadFields out fs =
      ⟨out.own ++ fs.map fun f => (f.1, rereadField f), .objectPrototype⟩ := by
  induction fs generalizing out with
  | nil =>
    rw [rereadFields, List.map_nil, List.append_nil, ← h]
  | cons f fs ih =>
    obtain ⟨hf, hproto⟩ := hplain f List.mem_cons_self
    rw [List.map_cons, List.nodup_cons] at hnodup
    have hentry := OrderedMap.setEntry_of_none (a := rereadField f) (hfresh f List.mem_cons_self)
    have hnext : ∀ g ∈ fs, OrderedMap.getEntry g.1
        (OrderedMap.setEntry f.1 (rereadField f) out.own) = none := by
      intro g hg
      have hne : g.1 ≠ f.1 := fun heq => hnodup.1 (heq ▸ List.mem_map_of_mem hg)
      rw [OrderedMap.getEntry_setEntry, if_neg hne]
      exact hfresh g (List.mem_cons_of_mem f hg)
    have hout : ({ out with own := OrderedMap.setEntry f.1 (rereadField f) out.own } :
        AionisObject).proto = .objectPrototype := h
    rw [rereadFields, rereadText_plain hf, AionisObject.set_of_ne hproto,
      ih hout (fun g hg => hplain g (List.mem_cons_of_mem f hg)) hnodup.2 hnext, hentry,
      List.append_assoc, List.map_cons]
    rfl

end Assign

/-! ## What comes back unchanged -/

theorem toFields_eq_map (fs : List (String × JsonData)) :
    toFields fs = fs.map fun f => (f.1, toValue f.2) := by
  induction fs with
  | nil => rfl
  | cons f fs ih => rw [toFields, ih, List.map_cons, toField]

theorem plain_of_mem_fields {fs : List (String × JsonData)} (h : PlainFields fs) :
    ∀ f ∈ fs, PlainText f.1 ∧ f.1 ≠ "__proto__" := by
  induction fs with
  | nil => exact fun f hf => absurd hf List.not_mem_nil
  | cons g gs ih =>
    rw [PlainFields, PlainField] at h
    intro f hf
    obtain rfl | hf := List.mem_cons.1 hf
    · exact h.1.1
    · exact ih h.2 f hf

/-- The names of an object that comes back unchanged. -/
theorem names_plain {fs : List (String × JsonData)}
    (h : rereadFields {} fs = ⟨toFields fs, .objectPrototype⟩) :
    ∀ f ∈ fs, PlainText f.1 ∧ f.1 ≠ "__proto__" := by
  have hown : (rereadFields {} fs).own = fs.map fun f => (f.1, toValue f.2) := by
    rw [h, toFields_eq_map]
  have hlength : (rereadFields {} fs).own.length = fs.length := by
    rw [hown, List.length_map]
  intro f hf
  have hkey : f.1 ∈ (rereadFields {} fs).own.map (·.1) := by
    rw [hown, List.map_map]
    exact List.mem_map.2 ⟨f, hf, rfl⟩
  have hplain : PlainText f.1 := by
    obtain hnone | ⟨g, -, hg⟩ := keys_rereadFields fs f.1 hkey
    · exact absurd hnone List.not_mem_nil
    · rw [hg]
      exact plainText_rereadText g.1
  refine ⟨hplain, fun hproto => ?_⟩
  have hlt := length_rereadFields_lt ordinary_empty
    ⟨f, hf, (rereadText_plain hplain).trans hproto⟩
  have hempty : ({} : AionisObject).own.length = 0 := rfl
  omega

mutual

/-- A payload is read back unchanged exactly when it is plain. -/
theorem reread_eq_toValue : (v : JsonData) → Distinct v → (reread v = toValue v ↔ Plain v)
  | .null, _ | .bool _, _ => iff_of_true rfl trivial
  | .num d h, _ => by
    rw [reread, toValue, AionisValue.num.injEq, d.literal_value h, Plain]
  | .str s, _ => by
    rw [reread, toValue, AionisValue.str.injEq, rereadText_eq_self, Plain]
  | .arr items, h => by
    rw [Distinct] at h
    rw [reread, toValue, AionisValue.arr.injEq, rereadItems_eq_toValues items h, Plain]
  | .obj fields, h => by
    rw [Distinct] at h
    obtain ⟨hnodup, hfields⟩ := h
    have hassign : (∀ f ∈ fields, PlainText f.1 ∧ f.1 ≠ "__proto__") →
        (rereadFields {} fields = ⟨toFields fields, .objectPrototype⟩ ↔
          ∀ f ∈ fields, rereadField f = toValue f.2) := by
      intro hnames
      rw [rereadFields_plain rfl hnames hnodup fun _ _ => rfl, toFields_eq_map,
        AionisObject.mk.injEq, List.nil_append, List.map_inj_left]
      simp
    rw [reread, toValue, AionisValue.ofObject, AionisValue.obj.injEq, Plain]
    have hobject : ((rereadFields {} fields).own = toFields fields ∧
        (rereadFields {} fields).proto = .objectPrototype) ↔
        rereadFields {} fields = ⟨toFields fields, .objectPrototype⟩ := by
      constructor
      · exact fun h => AionisObject.ext h.1 h.2
      · intro heq
        rw [heq]
        exact ⟨rfl, rfl⟩
    rw [hobject]
    constructor
    · intro heq
      have hnames := names_plain heq
      exact (rereadFields_eq_toValues fields hfields hnames).1 ((hassign hnames).1 heq)
    · intro hplain
      have hnames := plain_of_mem_fields hplain
      exact (hassign hnames).2 ((rereadFields_eq_toValues fields hfields hnames).2 hplain)

theorem rereadItems_eq_toValues :
    (items : List JsonData) → DistinctItems items →
      (rereadItems items = toValues items ↔ PlainItems items)
  | [], _ => iff_of_true rfl trivial
  | x :: xs, h => by
    rw [DistinctItems] at h
    rw [rereadItems, toValues, List.cons.injEq, reread_eq_toValue x h.1,
      rereadItems_eq_toValues xs h.2, PlainItems]

theorem rereadFields_eq_toValues :
    (fs : List (String × JsonData)) → DistinctFields fs →
      (∀ f ∈ fs, PlainText f.1 ∧ f.1 ≠ "__proto__") →
      ((∀ f ∈ fs, rereadField f = toValue f.2) ↔ PlainFields fs)
  | [], _, _ => iff_of_true (fun _ hf => absurd hf List.not_mem_nil) trivial
  | (k, v) :: fs, h, hnames => by
    rw [DistinctFields, DistinctField] at h
    rw [List.forall_mem_cons] at hnames
    rw [List.forall_mem_cons, rereadFields_eq_toValues fs h.2 hnames.2, PlainFields, PlainField,
      rereadField, reread_eq_toValue v h.1]
    exact and_congr_left fun _ => (and_iff_right hnames.1).symm

end

end AionisCore.AionisDoc
