import Mathlib.Algebra.Group.Nat.Defs
import AionisCore.Lib.Json

/-!
# Hashes and identifiers

`sha256Hex`, the canonical JSON text and `stableUuid` come from libraries; the
development holds for any functions in their place.
-/

namespace AionisCore.Util

open Lib

structure Crypto where
  sha256Hex : String → String
  stableStringify : Json → String
  stableUuid : String → String

/-! ## A sample

Digests that evaluate; the texts of the examples have different ones.
-/

def mixDigest (n m : Nat) : Nat := (n * 257 + m) % 281474976710597

def textDigest (s : String) : Nat := s.toList.foldl (fun n c => mixDigest n c.toNat) 1

mutual

def jsonDigest : Json → Nat
  | .null => 2
  | .bool b => if b then 3 else 4
  | .num q => mixDigest (mixDigest 5 q.num.natAbs) q.den
  | .str s => mixDigest 6 (textDigest s)
  | .arr xs => mixDigest 7 (listDigest xs)
  | .obj fields => mixDigest 8 (fieldsDigest fields)

def listDigest : List Json → Nat
  | [] => 9
  | x :: xs => mixDigest (jsonDigest x) (listDigest xs)

def fieldsDigest : List (String × Json) → Nat
  | [] => 10
  | field :: fields => mixDigest (fieldDigest field) (fieldsDigest fields)

def fieldDigest : String × Json → Nat
  | (k, v) => mixDigest (textDigest k) (jsonDigest v)

end

def digits (n : Nat) : String :=
  String.ofList ((List.range 12).map fun i =>
    "0123456789abcdef".toList.getD (n / 16 ^ i % 16) '0')

def sampleCrypto : Crypto where
  sha256Hex s := s
  stableStringify v := digits (jsonDigest v)
  stableUuid s := "00000000-0000-5000-8000-" ++ digits (textDigest s)

end AionisCore.Util
