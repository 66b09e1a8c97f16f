import AionisCore.Lib.Zod
import AionisCore.AionisDoc.Contracts

/-!
# Values and schemas

The value schema accepts every value without builtin objects, and makes of it one of ordinary
objects only; such a value it takes as it is. JSON keeps an ordinary value just if it has no
infinite number and no negative zero.
-/

namespace AionisCore.AionisDoc

open Lib

mutual

/-- No builtin object is inside, other than at the end of a prototype chain. -/
def Clean : AionisValue → Prop
  | .arr items => CleanItems items
  | .obj own proto => CleanFields own ∧ CleanProto proto
  | .objectPrototype => False
  | .method _ => False
  | _ => True

def CleanProto : AionisValue → Prop
  | .arr items => CleanItems items
  | .obj own proto => CleanFields own ∧ CleanProto proto
  | .method _ => False
  | _ => True

def CleanItems : List AionisValue → Prop
  | [] => True
  | v :: vs => Clean v ∧ CleanItems vs

def CleanFields : List (String × AionisValue) → Prop
  | [] => True
  | f :: fs => CleanField f ∧ CleanFields fs

def CleanField : String × AionisValue → Prop
  | (_, v) => Clean v

end

mutual

/-- Only ordinary objects are inside. -/
def PlainValue : AionisValue → Prop
  | .arr items => PlainValues items
  | .obj own proto => PlainEntries own ∧ proto = .objectPrototype
  | .objectPrototype => False
  | .method _ => False
  | _ => True

def PlainValues : List AionisValue → Prop
  | [] => True
  | v :: vs => PlainValue v ∧ PlainValues vs

def PlainEntries : List (String × AionisValue) → Prop
  | [] => True
  | f :: fs => PlainEntry f ∧ PlainEntries fs

def PlainEntry : String × AionisValue → Prop
  | (k, v) => k ≠ "__proto__" ∧ PlainValue v

end

mutual

/-- No infinite number and no negative zero is inside. -/
def JsonSafe : AionisValue → Prop
  | .num (.finite d _) => d.digits = 0 → d.negative = false
  | .num (.infinity _) => False
  | .arr items => JsonSafeItems items
  | .obj own _ => JsonSafeFields own
  | _ => True

def JsonSafeItems : List AionisValue → Prop
  | [] => True
  | v :: vs => JsonSafe v ∧ JsonSafeItems vs

def JsonSafeFields : List (String × AionisValue) → Prop
  | [] => True
  | f :: fs => JsonSafeField f ∧ JsonSafeFields fs

def JsonSafeField : String × AionisValue → Prop
  | (_, v) => JsonSafe v

end

def AionisObject.CleanObject (o : AionisObject) : Prop := CleanFields o.own ∧ CleanProto o.proto

def AionisObject.PlainObject (o : AionisObject) : Prop :=
  PlainEntries o.own ∧ o.proto = .objectPrototype

theorem Clean.proto {v : AionisValue} (h : Clean v) : CleanProto v := by
  cases v with
  | obj own proto => exact h
  | arr items => exact h
  | objectPrototype => exact h.elim
  | method name => exact h.elim
  | _ => trivial

/-! ## Lists -/

theorem cleanItems_iff {items : List AionisValue} : CleanItems items ↔ ∀ v ∈ items, Clean v := by
  induction items with
  | nil => simp [CleanItems]
  | cons v vs ih => simp [CleanItems, ih]

theorem cleanFields_iff {fields : List (String × AionisValue)} :
    CleanFields fields ↔ ∀ f ∈ fields, Clean f.2 := by
  induction fields with
  | nil => simp [CleanFields]
  | cons f fs ih =>
    obtain ⟨k, v⟩ := f
    simp [CleanFields, CleanField, ih]

theorem plainEntries_iff {fields : List (String × AionisValue)} :
    PlainEntries fields ↔ ∀ f ∈ fields, f.1 ≠ "__proto__" ∧ PlainValue f.2 := by
  induction fields with
  | nil => simp [PlainEntries]
  | cons f fs ih =>
    obtain ⟨k, v⟩ := f
    simp [PlainEntries, PlainEntry, ih]

theorem parseEach_eq (items : List AionisValue) : parseEach items = items.map parseAionisValue := by
  induction items with
  | nil => rfl
  | cons v vs ih => rw [parseEach, ih, List.map_cons]

theorem parseOwn_eq (fields : List (String × AionisValue)) :
    parseOwn fields = fields.map fun f => (f.1, parseAionisValue f.2) := by
  induction fields with
  | nil => rfl
  | cons f fs ih =>
    obtain ⟨k, v⟩ := f
    rw [parseOwn, ih, parseOwnField, List.map_cons]

/-! ## Records -/

section Record

/-- The values are all accepted, as ordinary ones. -/
def Accepted (fields : List (String × Option AionisValue)) : Prop :=
  ∀ f ∈ fields, ∃ v, f.2 = some v ∧ PlainValue v

variable {fields own inherited : List (String × Option AionisValue)}

theorem Accepted.shadow (hown : Accepted own) (hinherited : Accepted inherited) :
    Accepted (shadow own inherited) := by
  intro f hf
  obtain hf | hf := List.mem_append.1 hf
  · exact hown f hf
  · exact hinherited f (List.mem_of_mem_filter hf)

theorem Accepted.build (h : Accepted fields) :
    ∃ built, buildRecord fields = some built ∧ PlainEntries built := by
  have hsome : ∃ built : List (String × AionisValue),
      (fields.mapM fun f : String × Option AionisValue => f.2.map fun v => (f.1, v)) = some built ∧
        ∀ f ∈ built, PlainValue f.2 := by
    induction fields with
    | nil => exact ⟨[], rfl, nofun⟩
    | cons f fs ih =>
      obtain ⟨v, hv, hplain⟩ := h f List.mem_cons_self
      obtain ⟨built, hbuilt, hall⟩ := ih fun g hg => h g (List.mem_cons_of_mem f hg)
      refine ⟨(f.1, v) :: built, ?_, ?_⟩
      · rw [List.mapM_cons, hv, hbuilt]
        rfl
      · rintro g hg
        obtain rfl | hg := List.mem_cons.1 hg
        · exact hplain
        · exact hall g hg
  obtain ⟨built, hbuilt, hall⟩ := hsome
  refine ⟨built.filter (·.1 ≠ "__proto__"), by rw [buildRecord, hbuilt]; rfl, ?_⟩
  rw [plainEntries_iff]
  intro f hf
  obtain ⟨hmem, hkey⟩ := List.mem_filter.1 hf
  exact ⟨by simpa using hkey, hall f hmem⟩

theorem buildRecord_plain {fields : List (String × AionisValue)}
    (h : ∀ f ∈ fields, f.1 ≠ "__proto__" ∧ parseAionisValue f.2 = some f.2) :
    buildRecord (AionisDoc.shadow (parseOwn fields) []) = some fields := by
  have hparsed : parseOwn fields = fields.map fun f => (f.1, some f.2) := by
    rw [parseOwn_eq]
    exact List.map_congr_left fun f hf => by rw [(h f hf).2]
  have hsome : ((fields.map fun f => (f.1, some f.2)).mapM
      fun f : String × Option AionisValue => f.2.map fun v => (f.1, v)) = some fields := by
    rw [List.mapM_map]
    exact Zod.mapM_eq_self fun f _ => rfl
  rw [AionisDoc.shadow, List.filter_nil, List.append_nil, hparsed, buildRecord, hsome,
    Option.map_some, Option.some.injEq, List.filter_eq_self]
  intro f hf
  simpa using (h f hf).1

end Record

/-! ## The value schema -/

mutual

theorem parse_clean : (v : AionisValue) → Clean v → ∃ w, parseAionisValue v = some w ∧ PlainValue w
  | .null, _ => ⟨_, rfl, trivial⟩
  | .bool _, _ => ⟨_, rfl, trivial⟩
  | .num _, _ => ⟨_, rfl, trivial⟩
  | .str _, _ => ⟨_, rfl, trivial⟩
  | .arr items, h => by
    have hitems := parseEach_clean items h
    obtain ⟨values, hvalues, hplain⟩ : ∃ values, (parseEach items).mapM id = some values ∧
        PlainValues values := by
      generalize parseEach items = parsed at hitems
      induction parsed with
      | nil => exact ⟨[], rfl, trivial⟩
      | cons p ps ih =>
        obtain ⟨w, rfl, hw⟩ := hitems p List.mem_cons_self
        obtain ⟨ws, hws, hplain⟩ := ih fun q hq => hitems q (List.mem_cons_of_mem _ hq)
        refine ⟨w :: ws, ?_, hw, hplain⟩
        rw [List.mapM_cons, hws]
        rfl
    exact ⟨.arr values, by rw [parseAionisValue, hvalues]; rfl, hplain⟩
  | .obj own proto, h => by
    obtain ⟨built, hbuilt, hplain⟩ :=
      ((parseOwn_clean own h.1).shadow (inherited_clean proto h.2)).build
    exact ⟨.obj built .objectPrototype, by rw [parseAionisValue, hbuilt]; rfl, hplain, rfl⟩
  | .objectPrototype, h => h.elim
  | .method _, h => h.elim

theorem parseEach_clean : (items : List AionisValue) → CleanItems items →
    ∀ p ∈ parseEach items, ∃ w, p = some w ∧ PlainValue w
  | [], _ => nofun
  | v :: vs, h => by
    intro p hp
    obtain rfl | hp := List.mem_cons.1 hp
    · exact parse_clean v h.1
    · exact parseEach_clean vs h.2 p hp

theorem parseOwn_clean : (fields : List (String × AionisValue)) → CleanFields fields →
    Accepted (parseOwn fields)
  | [], _ => nofun
  | f :: fs, h => by
    intro p hp
    obtain rfl | hp := List.mem_cons.1 hp
    · exact parseOwnField_clean f h.1
    · exact parseOwn_clean fs h.2 p hp

theorem parseOwnField_clean : (f : String × AionisValue) → CleanField f →
    ∃ w, (parseOwnField f).2 = some w ∧ PlainValue w
  | (_, v), h => parse_clean v h

theorem inherited_clean : (v : AionisValue) → CleanProto v → Accepted (inheritedFields v)
  | .obj own proto, h => (parseOwn_clean own h.1).shadow (inherited_clean proto h.2)
  | .arr items, h => by
    intro p hp
    obtain ⟨i, hi, rfl⟩ := List.mem_mapIdx.1 hp
    exact parseEach_clean items h _ (List.getElem_mem hi)
  | .null, _ => nofun
  | .bool _, _ => nofun
  | .num _, _ => nofun
  | .str _, _ => nofun
  | .objectPrototype, _ => nofun
  | .method _, _ => nofun

end

mutual

theorem parse_plain : (v : AionisValue) → PlainValue v → parseAionisValue v = some v
  | .null, _ => rfl
  | .bool _, _ => rfl
  | .num _, _ => rfl
  | .str _, _ => rfl
  | .arr items, h => by
    have hitems : (parseEach items).mapM id = some items := by
      rw [parseEach_eq, List.mapM_map]
      exact Zod.mapM_eq_self (parseEach_plain items h)
    rw [parseAionisValue, hitems]
    rfl
  | .obj own proto, h => by
    obtain ⟨hown, rfl⟩ := h
    have hfields := parseOwn_plain own hown
    have hkeys := plainEntries_iff.1 hown
    have hbuilt := buildRecord_plain fun f hf => ⟨(hkeys f hf).1, hfields f hf⟩
    have hnone : inheritedFields .objectPrototype = [] := rfl
    rw [parseAionisValue, hnone, hbuilt]
    rfl
  | .objectPrototype, h => h.elim
  | .method _, h => h.elim

theorem parseEach_plain : (items : List AionisValue) → PlainValues items →
    ∀ v ∈ items, parseAionisValue v = some v
  | [], _ => nofun
  | v :: vs, h => List.forall_mem_cons.2 ⟨parse_plain v h.1, parseEach_plain vs h.2⟩

theorem parseOwn_plain : (fields : List (String × AionisValue)) → PlainEntries fields →
    ∀ f ∈ fields, parseAionisValue f.2 = some f.2
  | [], _ => nofun
  | f :: fs, h => List.forall_mem_cons.2 ⟨parseOwnField_plain f h.1, parseOwn_plain fs h.2⟩

theorem parseOwnField_plain : (f : String × AionisValue) → PlainEntry f →
    parseAionisValue f.2 = some f.2
  | (_, v), h => parse_plain v h.2

end

/-! ## JSON -/

mutual

theorem json_plain : (v : AionisValue) → PlainValue v → PlainValue (jsonValue v)
  | .null, _ => trivial
  | .bool _, _ => trivial
  | .num (.finite d h), _ => by
    rw [jsonValue]
    split
    · trivial
    · trivial
  | .num (.infinity _), _ => trivial
  | .str _, _ => trivial
  | .arr items, h => jsonItems_plain items h
  | .obj own _, h => ⟨jsonFields_plain own h.1, rfl⟩
  | .objectPrototype, h => h.elim
  | .method _, h => h.elim

theorem jsonItems_plain : (items : List AionisValue) → PlainValues items →
    PlainValues (jsonItems items)
  | [], _ => trivial
  | v :: vs, h => ⟨json_plain v h.1, jsonItems_plain vs h.2⟩

theorem jsonFields_plain : (fields : List (String × AionisValue)) → PlainEntries fields →
    PlainEntries (jsonFields fields)
  | [], _ => trivial
  | f :: fs, h => ⟨jsonField_plain f h.1, jsonFields_plain fs h.2⟩

theorem jsonField_plain : (f : String × AionisValue) → PlainEntry f → PlainEntry (jsonField f)
  | (_, v), h => ⟨h.1, json_plain v h.2⟩

end

mutual

/-- JSON keeps an ordinary value just if its numbers are safe. -/
theorem json_eq_self : (v : AionisValue) → PlainValue v → (jsonValue v = v ↔ JsonSafe v)
  | .null, _ => iff_of_true rfl trivial
  | .bool _, _ => iff_of_true rfl trivial
  | .num (.finite d h), _ => by
    rw [jsonValue, JsonSafe]
    split
    · next hd =>
      obtain ⟨negative, digits, exponent, normal⟩ := d
      obtain rfl : digits = 0 := hd
      obtain rfl : exponent = 0 := (normal.resolve_left fun hn => hn rfl).2
      constructor
      · intro heq _
        exact (congrArg Decimal.negative (JsNumber.finite.inj (AionisValue.num.inj heq))).symm
      · intro hpositive
        obtain rfl : negative = false := hpositive rfl
        rfl
    · next hd => exact iff_of_true rfl fun h => absurd h hd
  | .num (.infinity _), _ => iff_of_false nofun id
  | .str _, _ => iff_of_true rfl trivial
  | .arr items, h => by
    rw [jsonValue, AionisValue.arr.injEq]
    exact jsonItems_eq_self items h
  | .obj own proto, h => by
    obtain ⟨hown, rfl⟩ := h
    rw [jsonValue, AionisValue.obj.injEq]
    exact (and_iff_left rfl).trans (jsonFields_eq_self own hown)
  | .objectPrototype, h => h.elim
  | .method _, h => h.elim

theorem jsonItems_eq_self : (items : List AionisValue) → PlainValues items →
    (jsonItems items = items ↔ JsonSafeItems items)
  | [], _ => iff_of_true rfl trivial
  | v :: vs, h => by
    rw [jsonItems, List.cons.injEq]
    exact and_congr (json_eq_self v h.1) (jsonItems_eq_self vs h.2)

theorem jsonFields_eq_self : (fields : List (String × AionisValue)) → PlainEntries fields →
    (jsonFields fields = fields ↔ JsonSafeFields fields)
  | [], _ => iff_of_true rfl trivial
  | f :: fs, h => by
    rw [jsonFields, List.cons.injEq]
    exact and_congr (jsonField_eq_self f h.1) (jsonFields_eq_self fs h.2)

theorem jsonField_eq_self : (f : String × AionisValue) → PlainEntry f →
    (jsonField f = f ↔ JsonSafeField f)
  | (k, v), h => by
    rw [jsonField, Prod.mk.injEq]
    exact (and_iff_right rfl).trans (json_eq_self v h.2)

end

/-! ## Objects -/

section Objects

variable {o o' : AionisObject}

theorem parseRecord_clean (h : o.CleanObject) :
    ∃ o', parseRecord o = some o' ∧ o'.PlainObject := by
  obtain ⟨built, hbuilt, hplain⟩ :=
    ((parseOwn_clean o.own h.1).shadow (inherited_clean o.proto h.2)).build
  exact ⟨{ own := built }, by rw [parseRecord, hbuilt]; rfl, hplain, rfl⟩

theorem parseRecord_plain (h : o.PlainObject) : parseRecord o = some o := by
  obtain ⟨own, proto⟩ := o
  obtain ⟨hown, rfl⟩ := h
  have hkeys := plainEntries_iff.1 hown
  have hbuilt := buildRecord_plain fun f hf => ⟨(hkeys f hf).1, parseOwn_plain own hown f hf⟩
  have hnone : inheritedFields .objectPrototype = [] := rfl
  rw [parseRecord, hnone, hbuilt]
  rfl

theorem jsonObject_plain (h : o.PlainObject) : (jsonObject o).PlainObject :=
  ⟨jsonFields_plain o.own h.1, rfl⟩

theorem fromJson_record (h : o.PlainObject) : Arrival.fromJson.record o = some (jsonObject o) :=
  parseRecord_plain (jsonObject_plain h)

theorem jsonObject_eq_self (h : o.PlainObject) : jsonObject o = o ↔ JsonSafeFields o.own := by
  obtain ⟨own, proto⟩ := o
  obtain ⟨hown, rfl⟩ := h
  rw [jsonObject, AionisObject.mk.injEq]
  exact (and_iff_left rfl).trans (jsonFields_eq_self own hown)

end Objects

end AionisCore.AionisDoc
