import AionisCore.Lib.Zod

/-!
# Contract trust

The trust levels of a contract, and `ContractTrustSchema`.
-/

namespace AionisCore.Memory

open Lib

inductive ContractTrust where
  | authoritative
  | advisory
  | observational
  deriving DecidableEq, Repr

def ContractTrust.name : ContractTrust → String
  | authoritative => "authoritative"
  | advisory => "advisory"
  | observational => "observational"

def contractTrustSchema : Zod.Schema ContractTrust :=
  Zod.enum [("authoritative", .authoritative), ("advisory", .advisory),
    ("observational", .observational)]

end AionisCore.Memory
