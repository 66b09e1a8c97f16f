import Mathlib.Logic.Function.Basic

/-!
# A file system

Names of files and what the files hold. A rename is atomic; a file that is opened for
writing is emptied, and its writer goes on with the same file whatever becomes of the name.
No file has two names.
-/

namespace Lib

open Function

structure FileSystem (Path : Type) where
  /-- The number of the file of a name. -/
  file : Path → Option Nat
  bytes : Nat → List UInt8
  /-- From here on no number is used. -/
  free : Nat
  used : ∀ p i, file p = some i → i < free
  inj : ∀ p q i, file p = some i → file q = some i → p = q

namespace FileSystem

variable {Path : Type}

def empty : FileSystem Path where
  file _ := none
  bytes _ := []
  free := 0
  used _ _ h := nomatch h
  inj _ _ _ h := nomatch h

def read (fs : FileSystem Path) (p : Path) : Option (List UInt8) := (fs.file p).map fs.bytes

/-- A write at an offset; what was cut off before it reads as zeros. -/
def writeAt (bytes : List UInt8) (offset : Nat) (chunk : List UInt8) : List UInt8 :=
  bytes.take offset ++ List.replicate (offset - bytes.length) 0 ++ chunk ++
    bytes.drop (offset + chunk.length)

def write (fs : FileSystem Path) (i offset : Nat) (chunk : List UInt8) : FileSystem Path :=
  { fs with bytes := update fs.bytes i (writeAt (fs.bytes i) offset chunk) }

section Write

variable {fs : FileSystem Path} {r : Path} {i : Nat}

theorem read_write_of_ne {offset : Nat} {chunk : List UInt8} (h : fs.file r ≠ some i) :
    (fs.write i offset chunk).read r = fs.read r := by
  unfold read write
  dsimp only
  cases hr : fs.file r with
  | none => rfl
  | some j =>
    have hne : j ≠ i := fun hij => h (hij ▸ hr)
    rw [Option.map_some, Option.map_some, update_of_ne hne]

theorem bytes_write_end {chunk : List UInt8} :
    (fs.write i (fs.bytes i).length chunk).bytes i = fs.bytes i ++ chunk := by
  unfold write writeAt
  dsimp only
  rw [update_self, List.take_length, Nat.sub_self, List.replicate_zero, List.append_nil,
    List.drop_eq_nil_of_le (Nat.le_add_right _ _), List.append_nil]

end Write

variable [DecidableEq Path]

/-- The name is given to a file that no other name has, or to none. -/
def setFile (fs : FileSystem Path) (p : Path) (target : Option Nat) (free : Nat)
    (hfree : fs.free ≤ free)
    (htarget : ∀ i, target = some i → i < free ∧ ∀ q, fs.file q = some i → q = p) :
    FileSystem Path where
  file := update fs.file p target
  bytes := fs.bytes
  free := free
  used := by
    intro q i h
    by_cases hq : q = p
    · subst hq
      rw [update_self] at h
      exact (htarget i h).1
    · rw [update_of_ne hq] at h
      exact Nat.lt_of_lt_of_le (fs.used q i h) hfree
  inj := by
    have hsame : ∀ q r i, q = p → update fs.file p target q = some i →
        update fs.file p target r = some i → q = r := by
      intro q r i hq hi hr
      subst hq
      rw [update_self] at hi
      by_cases hrq : r = q
      · exact hrq.symm
      · rw [update_of_ne hrq] at hr
        exact absurd ((htarget i hi).2 r hr) hrq
    intro q r i hq hr
    by_cases hqp : q = p
    · exact hsame q r i hqp hq hr
    · by_cases hrp : r = p
      · exact (hsame r q i hrp hr hq).symm
      · rw [update_of_ne hqp] at hq
        rw [update_of_ne hrp] at hr
        exact fs.inj q r i hq hr

def remove (fs : FileSystem Path) (p : Path) : FileSystem Path :=
  fs.setFile p none fs.free (Nat.le_refl _) nofun

/-- `rename`, which fails without a file of the name. -/
def rename (fs : FileSystem Path) (p q : Path) : Option (FileSystem Path) :=
  match h : fs.file p with
  | none => none
  | some i => some ((fs.remove p).setFile q (some i) fs.free (Nat.le_refl _) (by
      intro j hj
      obtain rfl := Option.some.inj hj
      refine ⟨fs.used p i h, fun r hr => ?_⟩
      have hr : update fs.file p none r = some i := hr
      by_cases hrp : r = p
      · rw [hrp, update_self] at hr
        cases hr
      · rw [update_of_ne hrp] at hr
        exact absurd (fs.inj r p i hr h) hrp))

/-- The file is opened for writing, and empty. -/
def create (fs : FileSystem Path) (p : Path) : FileSystem Path × Nat :=
  match fs.file p with
  | some i => ({ fs with bytes := update fs.bytes i [] }, i)
  | none =>
    ({ fs with bytes := update fs.bytes fs.free [] }.setFile p (some fs.free) (fs.free + 1)
      (Nat.le_succ _) (by
        intro i hi
        obtain rfl := Option.some.inj hi
        exact ⟨Nat.lt_succ_self _, fun q hq => absurd (fs.used q _ hq) (Nat.lt_irrefl _)⟩), fs.free)

variable {fs fs' : FileSystem Path} {p q r : Path} {i : Nat}

/-! ## What the operations leave alone -/

theorem file_remove_of_ne (h : r ≠ p) : (fs.remove p).file r = fs.file r := update_of_ne h ..

theorem file_create_self : (fs.create p).1.file p = some (fs.create p).2 := by
  unfold create
  split
  · next h => exact h
  · exact update_self ..

theorem bytes_create_self : (fs.create p).1.bytes (fs.create p).2 = [] := by
  unfold create
  split <;> exact update_self ..

theorem file_create_of_ne (h : r ≠ p) : (fs.create p).1.file r = fs.file r := by
  unfold create
  split
  · rfl
  · exact update_of_ne h ..

theorem read_create_of_ne (h : r ≠ p) : (fs.create p).1.read r = fs.read r := by
  have hfile := @file_create_of_ne _ _ fs _ _ h
  unfold read
  rw [hfile]
  cases hr : fs.file r with
  | none => rfl
  | some j =>
    rw [Option.map_some, Option.map_some]
    congr 1
    unfold create
    split
    · next i hp =>
      exact update_of_ne (fun hji : j = i => h (fs.inj r p i (hji ▸ hr) hp)) ..
    · exact update_of_ne (Nat.ne_of_lt (fs.used r j hr)) ..

theorem rename_spec (hpq : p ≠ q) (h : fs.rename p q = some fs') :
    (∀ i, fs.file p = some i → fs'.file q = some i) ∧ fs'.file p = none ∧
      fs'.bytes = fs.bytes ∧ ∀ r, r ≠ p → r ≠ q → fs'.file r = fs.file r := by
  unfold rename at h
  split at h
  · cases h
  · next i hi =>
    obtain rfl := Option.some.inj h
    refine ⟨fun j hj => ?_, ?_, rfl, fun r hrp hrq => ?_⟩
    · obtain rfl := Option.some.inj (hi.symm.trans hj)
      exact update_self ..
    · show update (update fs.file p none) q (some i) p = none
      rw [update_of_ne hpq, update_self]
    · show update (update fs.file p none) q (some i) r = fs.file r
      rw [update_of_ne hrq, update_of_ne hrp]

theorem rename_eq_none : fs.rename p q = none ↔ fs.file p = none := by
  unfold rename
  split
  · next h => exact iff_of_true rfl h
  · next i h => exact iff_of_false nofun (fun hnone => by rw [h] at hnone; cases hnone)

theorem rename_getD_spec (hpq : p ≠ q) : ((fs.rename p q).getD fs).file p = none ∧
    ((fs.rename p q).getD fs).bytes = fs.bytes ∧
    ∀ r, r ≠ p → r ≠ q → ((fs.rename p q).getD fs).file r = fs.file r := by
  cases h : fs.rename p q with
  | none => exact ⟨rename_eq_none.1 h, rfl, fun _ _ _ => rfl⟩
  | some fs' =>
    obtain ⟨-, hp, hbytes, hrest⟩ := rename_spec hpq h
    exact ⟨hp, hbytes, hrest⟩

end FileSystem

end Lib
