import AionisCore.Lib.Table
import AionisCore.Memory.AutomationGraph

/-!
# The Lite store of automation definitions

Every creation adds a version; what a version holds is never written again.
-/

namespace AionisCore.Store

open Lib Lib.Table Memory

inductive LiteAutomationStatus where
  | draft
  | shadow
  | active
  | disabled
  deriving DecidableEq, Repr

structure AutomationKey where
  tenantId : String
  scope : String
  automationId : String
  deriving DecidableEq, Repr

structure LiteAutomationVersionRecord where
  automation : AutomationKey
  version : Nat
  status : LiteAutomationStatus
  graph : AutomationGraph

structure LiteAutomationDefinitionRecord where
  automation : AutomationKey
  name : String
  status : LiteAutomationStatus
  latestVersion : Nat

/-- What `getDefinition` returns. -/
structure LiteAutomationDefinitionView where
  definition : LiteAutomationDefinitionRecord
  version : LiteAutomationVersionRecord

structure LiteAutomationStore where
  versions : List LiteAutomationVersionRecord := []
  definitions : List LiteAutomationDefinitionRecord := []

namespace LiteAutomationStore

variable {store store' : LiteAutomationStore} {automation key : AutomationKey}

def definition? (store : LiteAutomationStore) (automation : AutomationKey) :
    Option LiteAutomationDefinitionRecord := row? (·.automation) store.definitions automation

/-- `loadVersionRow`. -/
def version? (store : LiteAutomationStore) (automation : AutomationKey) (version : Nat) :
    Option LiteAutomationVersionRecord :=
  row? (fun row => (row.automation, row.version)) store.versions (automation, version)

def getDefinition (store : LiteAutomationStore) (automation : AutomationKey)
    (version : Option Nat) : Option LiteAutomationDefinitionView :=
  (store.definition? automation).bind fun definition =>
    (store.version? automation (version.getD definition.latestVersion)).map fun version =>
      { definition, version }

/-- `createDefinition`, which fails on a version that is already there. -/
def createDefinition (store : LiteAutomationStore) (automation : AutomationKey) (name : String)
    (status : LiteAutomationStatus) (graph : AutomationGraph) : Option LiteAutomationStore :=
  let existing := store.definition? automation
  let version := (existing.map (·.latestVersion)).getD 0 + 1
  if (store.version? automation version).isSome then none
  else
    let definition := { automation, name, status, latestVersion := version }
    some {
      versions := store.versions ++ [{ automation, version, status, graph }]
      definitions := if existing.isSome then
          Table.update (·.automation) automation (fun _ => true) (fun _ => definition)
            store.definitions
        else store.definitions ++ [definition] }

/-- A version stays as it is. -/
theorem version?_createDefinition {name : String} {status : LiteAutomationStatus}
    {graph : AutomationGraph} {version : Nat} {row : LiteAutomationVersionRecord}
    (h : store.createDefinition automation name status graph = some store')
    (hrow : store.version? key version = some row) : store'.version? key version = some row := by
  unfold createDefinition at h
  dsimp only at h
  split at h
  · cases h
  · obtain rfl := Option.some.inj h
    unfold version? at hrow ⊢
    dsimp only
    rw [row?_concat, hrow]
    rfl

/-- And every new version has the graph of its creation. -/
theorem mem_versions_createDefinition {name : String} {status : LiteAutomationStatus}
    {graph : AutomationGraph} {row : LiteAutomationVersionRecord}
    (h : store.createDefinition automation name status graph = some store')
    (hrow : row ∈ store'.versions) : row ∈ store.versions ∨ row.graph = graph := by
  unfold createDefinition at h
  dsimp only at h
  split at h
  · cases h
  · obtain rfl := Option.some.inj h
    refine (List.mem_append.1 hrow).imp_right fun hmem => ?_
    rw [List.mem_singleton.1 hmem]

end LiteAutomationStore

end AionisCore.Store
