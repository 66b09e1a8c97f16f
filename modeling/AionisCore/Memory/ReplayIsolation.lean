import AionisCore.Lib.Zod
import AionisCore.Memory.Replay

/-!
# Isolation of replay calls

Every call is a list of lookups that all have to answer, each from the first
spelling of the caller's scope that answers it. The spellings of a pair are its
own key and, for a tenant other than the default one, its raw scope, which is
the key of the default tenant's scope of that name.
-/

namespace AionisCore.Memory

open Lib Store Util

/-- The ids a spelling of the scope answers with. -/
abbrev Lookup := String → Option (List String)

/-- The answer of the first spelling that has one. -/
def resolve (key : String) (L : Lookup) : Option (List String) := (scopeVariants key).findSome? L

/-- All answers, where every lookup has one. -/
def resolveAll (key : String) (Ls : List Lookup) : Option (List String) :=
  (Ls.mapM (resolve key)).map List.flatten

/-- A lookup answers with rows of the spelling it was asked for. -/
def Sound (db : LiteReplayDb) (L : Lookup) : Prop :=
  ∀ variant ids, L variant = some ids → ids ≠ [] ∧ ∀ id ∈ ids, StoredUnder db id variant

section Lookups

variable (db : LiteReplayDb) (visibility : ReplayVisibilityArgs)

def runLookup (runId : String) : Lookup := fun variant =>
  (runNodeIn db visibility runId variant).map fun n => [n.id]

def stepLookup (runId : String) (stepIndex : Int) : Lookup := fun variant =>
  (stepNodeIn db visibility runId stepIndex variant).map fun n => [n.id]

def runNodesLookup (runId : String) : Lookup := fun variant =>
  (runNodesIn db visibility runId variant).map (·.map (·.id))

def versionsLookup (playbookId : String) : Lookup := fun variant =>
  (playbooksIn db visibility playbookId variant).map (·.map (·.id))

/-- The newest version alone. -/
def latestLookup (playbookId : String) : Lookup := fun variant =>
  (playbooksIn db visibility playbookId variant).map fun ns => ns.head?.toList.map (·.id)

def versionLookup (playbookId : String) (version : Int) : Lookup := fun variant =>
  (playbookIn db visibility playbookId version variant).map fun n => [n.id]

def rowLookup (playbookId : String) : Option Int → Lookup
  | some v => versionLookup db visibility playbookId v
  | none => latestLookup db visibility playbookId

/-- The lookups a call makes; one that names no step is refused. -/
def ReplayCall.lookups : ReplayCall → List Lookup
  | findRunNodeByRunId r => [runLookup db visibility r]
  | findStepNodeById _ => []
  | findLatestStepNodeByIndex r i => [stepLookup db visibility r i]
  | listReplayNodesByRunId r => [runNodesLookup db visibility r]
  | listReplayPlaybookVersions p => [versionsLookup db visibility p]
  | getReplayPlaybookVersion p v => [versionLookup db visibility p v]
  | replayStepBefore r => [runLookup db visibility r]
  | replayStepAfter r (some _) _ => [runLookup db visibility r]
  | replayStepAfter r none (some i) => [runLookup db visibility r, stepLookup db visibility r i]
  | replayStepAfter _ none none => [fun _ => none]
  | replayRunEnd r => [runLookup db visibility r]
  | replayRunGet r => [runNodesLookup db visibility r]
  | replayPlaybookCompileFromRun r => [runNodesLookup db visibility r]
  | replayPlaybookGet p => [latestLookup db visibility p]
  | replayPlaybookCandidate p v => [rowLookup db visibility p v]
  | replayPlaybookRun p v _ => [rowLookup db visibility p v]
  | replayPlaybookPromote p v => [latestLookup db visibility p, rowLookup db visibility p v]
  | replayPlaybookRepair p v => [latestLookup db visibility p, rowLookup db visibility p v]
  | replayPlaybookRepairReview p v => [latestLookup db visibility p, rowLookup db visibility p v]

end Lookups

section Sound

variable {db : LiteReplayDb} {visibility : ReplayVisibilityArgs}

theorem sound_one {α : Type} {f : String → Option α} {id : α → String}
    (h : ∀ {variant n}, f variant = some n → StoredUnder db (id n) variant) :
    Sound db fun variant => (f variant).map fun n => [id n] := by
  intro variant ids hids
  obtain ⟨n, hn, rfl⟩ := Option.map_eq_some_iff.1 hids
  refine ⟨by simp, fun i hi => ?_⟩
  obtain rfl := List.mem_singleton.1 hi
  exact h hn

/-- A lookup of a non-empty list, kept in part. -/
theorem sound_list {α : Type} {f : String → Option (List α)} {id : α → String}
    {keep : List α → List α} (hkeep : ∀ ns, keep ns = [] → ns = [])
    (hsub : ∀ ns, ∀ n ∈ keep ns, n ∈ ns)
    (h : ∀ {variant ns}, f variant = some ns → ns ≠ [] ∧ ∀ n ∈ ns, StoredUnder db (id n) variant) :
    Sound db fun variant => (f variant).map fun ns => (keep ns).map id := by
  intro variant ids hids
  obtain ⟨ns, hns, rfl⟩ := Option.map_eq_some_iff.1 hids
  obtain ⟨hne, hall⟩ := h hns
  refine ⟨fun hnil => hne (hkeep ns (List.map_eq_nil_iff.1 hnil)), fun i hi => ?_⟩
  obtain ⟨n, hn, rfl⟩ := List.mem_map.1 hi
  exact hall n (hsub ns n hn)

theorem sound_latestLookup (p : String) : Sound db (latestLookup db visibility p) := by
  refine sound_list (fun ns hns => ?_) (fun ns n hn => ?_) playbooksIn_stored
  · cases ns with
    | nil => rfl
    | cons n ns => simp at hns
  · exact List.mem_of_head? (Option.mem_toList.1 hn)

theorem sound_rowLookup (p : String) (version : Option Int) :
    Sound db (rowLookup db visibility p version) := by
  cases version with
  | some v => exact sound_one playbookIn_stored
  | none => exact sound_latestLookup p

theorem sound_runNodesLookup (r : String) : Sound db (runNodesLookup db visibility r) :=
  sound_list (fun _ h => h) (fun _ _ h => h) runNodesIn_stored

theorem sound_lookups (call : ReplayCall) : ∀ L ∈ call.lookups db visibility, Sound db L := by
  have hrun : ∀ r, Sound db (runLookup db visibility r) := fun r => sound_one runNodeIn_stored
  have hstep : ∀ r i, Sound db (stepLookup db visibility r i) :=
    fun r i => sound_one stepNodeIn_stored
  cases call with
  | replayStepAfter r s i =>
    cases s <;> cases i <;>
      simp [ReplayCall.lookups, hrun, hstep,
        show Sound db fun _ => none from fun _ _ h => nomatch h]
  | listReplayPlaybookVersions p =>
    simp only [ReplayCall.lookups, List.forall_mem_singleton]
    exact sound_list (fun _ h => h) (fun _ _ h => h) playbooksIn_stored
  | getReplayPlaybookVersion p v =>
    simp only [ReplayCall.lookups, List.forall_mem_singleton]
    exact sound_one playbookIn_stored
  | _ =>
    simp [ReplayCall.lookups, hrun, hstep, sound_latestLookup, sound_rowLookup,
      sound_runNodesLookup]

end Sound

/-! ## What a call is served -/

section Served

variable (db : LiteReplayDb) (t : TenantScope) (visibility : ReplayVisibilityArgs) {α : Type}

theorem resolve_map (key : String) (f : String → Option α) (g : α → List String) :
    resolve key (fun variant => (f variant).map g) = ((scopeVariants key).findSome? f).map g :=
  List.map_findSome?.symm

theorem resolve_run (r : String) : resolve t.scopeKey (runLookup db visibility r) =
    (findRunNodeByRunId db visibility t.scopeKey r).map fun n => [n.id] := resolve_map _ _ _

theorem resolve_step (r : String) (i : Int) : resolve t.scopeKey (stepLookup db visibility r i) =
    (findLatestStepNodeByIndex db visibility t.scopeKey r i).map fun n => [n.id] :=
  resolve_map _ _ _

theorem resolve_version (p : String) (v : Int) :
    resolve t.scopeKey (versionLookup db visibility p v) =
      (getReplayPlaybookVersion db visibility t.scopeKey p v).map fun n => [n.id] :=
  resolve_map _ _ _

theorem resolve_latest (p : String) : resolve t.scopeKey (latestLookup db visibility p) =
    (listReplayPlaybookVersions db visibility t.scopeKey p).head?.map fun n => [n.id] := by
  unfold latestLookup listReplayPlaybookVersions
  rw [resolve_map]
  cases h : (scopeVariants t.scopeKey).findSome? (playbooksIn db visibility p) with
  | none => rfl
  | some ns =>
    obtain ⟨variant, -, hv⟩ := List.exists_of_findSome?_eq_some h
    obtain ⟨n, ns, rfl⟩ := List.exists_cons_of_ne_nil (playbooksIn_stored hv).1
    rfl

/-- The answer of a list lookup, where the empty list stands for none. -/
theorem resolve_list {f : String → Option (List α)} {id : α → String} {key : String}
    (hf : ∀ {variant ns}, f variant = some ns → ns ≠ []) :
    resolve key (fun variant => (f variant).map (·.map id)) =
      if ((scopeVariants key).findSome? f).getD [] = [] then none
      else some ((((scopeVariants key).findSome? f).getD []).map id) := by
  rw [resolve_map]
  cases h : (scopeVariants key).findSome? f with
  | none => rfl
  | some ns =>
    obtain ⟨variant, -, hv⟩ := List.exists_of_findSome?_eq_some h
    rw [Option.getD_some, if_neg (hf hv), Option.map_some]

theorem resolve_runNodes (r : String) : resolve t.scopeKey (runNodesLookup db visibility r) =
    if listReplayNodesByRunId db visibility t.scopeKey r = [] then none
    else some ((listReplayNodesByRunId db visibility t.scopeKey r).map (·.id)) :=
  resolve_list fun h => (runNodesIn_stored h).1

theorem resolve_versions (p : String) : resolve t.scopeKey (versionsLookup db visibility p) =
    if listReplayPlaybookVersions db visibility t.scopeKey p = [] then none
    else some ((listReplayPlaybookVersions db visibility t.scopeKey p).map (·.id)) :=
  resolve_list fun h => (playbooksIn_stored h).1

theorem resolveAll_one (key : String) (L : Lookup) : resolveAll key [L] = resolve key L := by
  unfold resolveAll
  cases h : resolve key L <;> simp [h]

theorem resolveAll_two (key : String) (L M : Lookup) : resolveAll key [L, M] =
    (resolve key L).bind fun ids => (resolve key M).map fun ids' => ids ++ ids' := by
  unfold resolveAll
  cases h : resolve key L <;> cases h' : resolve key M <;> simp [h, h']

/-- A call is served the answers of its lookups, when all of them answer, and rows of its own
key. -/
structure Serves (ids : Option (List String)) (out : Except RequestError (List String)) : Prop where
  found : ∀ is, ids = some is → ∃ own, (∀ id ∈ own, StoredUnder db id t.scopeKey) ∧
    out = .ok (is ++ own)
  nothing : ids = none → ∀ is, out = .ok is → is = []

variable {db t}

theorem Serves.exact {is : List String} : Serves db t (some is) (.ok is) :=
  ⟨fun js h => ⟨[], by simp, by rw [List.append_nil, Option.some.inj h]⟩, nofun⟩

theorem Serves.empty : Serves db t none (.ok []) :=
  ⟨nofun, fun _ _ h => (Except.ok.inj h).symm⟩

theorem Serves.error {e : RequestError} : Serves db t none (.error e) :=
  ⟨nofun, fun _ _ h => nomatch h⟩

variable {visibility}

theorem serves_orThrow {o : Option α} {e : RequestError} {f : α → List String} :
    Serves db t (o.map f) ((orThrow o e).map f) := by
  cases o with
  | none => exact .error
  | some a => exact .exact

theorem serves_runRows (r : String) : Serves db t
    (resolve t.scopeKey (runNodesLookup db visibility r))
    ((replayRunRows db t visibility r).map (·.map (·.id))) := by
  rw [resolve_runNodes, replayRunRows]
  simp only [List.isEmpty_iff]
  split
  · exact .error
  · exact .exact

theorem resolve_row (p : String) (version : Option Int) :
    resolve t.scopeKey (rowLookup db visibility p version) =
      (pickVersion db t visibility p version).map fun n => [n.id] := by
  cases version with
  | some v => exact resolve_version db t visibility p v
  | none => exact resolve_latest db t visibility p

theorem serves_row (p : String) (version : Option Int) :
    Serves db t (resolve t.scopeKey (rowLookup db visibility p version))
      ((replayPlaybookRow db t visibility p version).map fun n => [n.id]) := by
  rw [resolve_row]
  exact serves_orThrow

theorem serves_source (field p : String) (version : Option Int) :
    Serves db t
      (resolveAll t.scopeKey [latestLookup db visibility p, rowLookup db visibility p version])
      ((replayPlaybookSource db t visibility field p version).map PlaybookSource.ids) := by
  rw [resolveAll_two, resolve_latest, resolve_row]
  unfold replayPlaybookSource replayPlaybookLatest
  cases version with
  | none =>
    rw [pickVersion]
    cases (listReplayPlaybookVersions db visibility t.scopeKey p).head? with
    | none => exact .error
    | some latest => exact .exact
  | some v =>
    cases (listReplayPlaybookVersions db visibility t.scopeKey p).head? with
    | none => exact .error
    | some latest =>
      dsimp only [pickVersion, orThrow, bind, Except.bind]
      cases getReplayPlaybookVersion db visibility t.scopeKey p v with
      | none => exact .error
      | some byVersion => exact .exact

theorem serves_stepById {is : List String} (s : String) : Serves db t (some is)
    (.ok (is ++ (findStepNodeById db visibility t.scopeKey s).toList.map (·.id))) := by
  refine ⟨fun js hjs => ⟨_, fun id hid => ?_, by rw [Option.some.inj hjs]⟩, nofun⟩
  obtain ⟨n, hn, rfl⟩ := List.mem_map.1 hid
  exact findStepNodeById_stored (Option.mem_toList.1 hn)

theorem serves_stepAfter (r : String) (s : Option String) (i : Option Int) :
    Serves db t
      (resolveAll t.scopeKey ((ReplayCall.replayStepAfter r s i).lookups db visibility))
      ((replayStepAfterNodes db t visibility r s i).map StepAfterNodes.ids) := by
  unfold replayStepAfterNodes
  cases s with
  | some s =>
    rw [ReplayCall.lookups, resolveAll_one, resolve_run]
    cases findRunNodeByRunId db visibility t.scopeKey r with
    | none => exact .error
    | some run => exact serves_stepById s
  | none =>
    cases i with
    | some i =>
      rw [ReplayCall.lookups, resolveAll_two, resolve_run, resolve_step]
      cases findRunNodeByRunId db visibility t.scopeKey r with
      | none => exact .error
      | some run =>
        dsimp only [orThrow, bind, Except.bind]
        cases findLatestStepNodeByIndex db visibility t.scopeKey r i with
        | none => exact .error
        | some step => exact .exact
    | none =>
      rw [ReplayCall.lookups, resolveAll_one]
      have hnone : resolve t.scopeKey (fun _ => none) = none := by
        simp [resolve, List.findSome?_eq_none_iff]
      rw [hnone]
      cases findRunNodeByRunId db visibility t.scopeKey r with
      | none => exact .error
      | some run => exact .error

theorem serves_lookup (o : Option α) (id : α → String) :
    Serves db t (o.map fun n => [id n]) (.ok (o.toList.map id)) := by
  cases o with
  | none => exact .empty
  | some a => exact .exact

theorem serves_lookupList (ns : List α) (id : α → String) :
    Serves db t (if ns = [] then none else some (ns.map id)) (.ok (ns.map id)) := by
  split
  · next h => rw [h]; exact .empty
  · exact .exact

variable (db t visibility) in
theorem served_spec (call : ReplayCall) :
    Serves db t (resolveAll t.scopeKey (call.lookups db visibility))
      (call.served db t visibility) := by
  cases call with
  | findStepNodeById s => exact serves_stepById s
  | replayStepAfter r s i => exact serves_stepAfter r s i
  | findRunNodeByRunId r =>
    rw [ReplayCall.lookups, resolveAll_one, resolve_run]
    exact serves_lookup _ _
  | findLatestStepNodeByIndex r i =>
    rw [ReplayCall.lookups, resolveAll_one, resolve_step]
    exact serves_lookup _ _
  | getReplayPlaybookVersion p v =>
    rw [ReplayCall.lookups, resolveAll_one, resolve_version]
    exact serves_lookup _ _
  | listReplayNodesByRunId r =>
    rw [ReplayCall.lookups, resolveAll_one, resolve_runNodes]
    exact serves_lookupList _ _
  | listReplayPlaybookVersions p =>
    rw [ReplayCall.lookups, resolveAll_one, resolve_versions]
    exact serves_lookupList _ _
  | replayStepBefore r | replayRunEnd r =>
    rw [ReplayCall.lookups, resolveAll_one, resolve_run]
    exact serves_orThrow
  | replayRunGet r | replayPlaybookCompileFromRun r =>
    rw [ReplayCall.lookups, resolveAll_one]
    exact serves_runRows r
  | replayPlaybookGet p =>
    rw [ReplayCall.lookups, resolveAll_one, resolve_latest]
    exact serves_orThrow
  | replayPlaybookCandidate p v =>
    rw [ReplayCall.lookups, resolveAll_one]
    exact serves_row p v
  | replayPlaybookRun p v k =>
    rw [ReplayCall.lookups, resolveAll_one, resolve_row]
    simp only [ReplayCall.served, Memory.replayPlaybookRun, replayPlaybookRow]
    cases pickVersion db t visibility p v with
    | none => exact .error
    | some row => exact .exact
  | replayPlaybookPromote p v | replayPlaybookRepair p v | replayPlaybookRepairReview p v =>
    exact serves_source _ p v

end Served

/-! ## Isolation -/

/-- No row stored under the key of `q` is served. -/
def NeverServes (db : LiteReplayDb) (visibility : ReplayVisibilityArgs) (call : ReplayCall)
    (p q : TenantScope) : Prop :=
  ∀ ids, call.served db p visibility = .ok ids → ∀ id ∈ ids, ¬ StoredUnder db id q.scopeKey

/-- The caller's raw scope is never tried, or is the key of no accepted pair, or is not what
decides: some lookup answers under neither spelling, or all of them under the caller's own key. -/
def KeepsApart (d : TenantDefaults) (p : TenantScope) (Ls : List Lookup) : Prop :=
  ¬ TriesRawScope d p ∨ ¬ TenantIdOk d.defaultTenantId ∨
    (∃ L ∈ Ls, L p.scopeKey = none ∧ L p.scope = none) ∨ ∀ L ∈ Ls, (L p.scopeKey).isSome

section Isolation

variable {d : TenantDefaults} {p q : TenantScope} {L : Lookup} {Ls : List Lookup}

theorem resolve_own (hp : Accepted d p) (h : ¬ TriesRawScope d p) :
    resolve p.scopeKey L = L p.scopeKey := by
  rw [resolve, (scopeVariants_accepted hp).2 h, List.findSome?_singleton]

theorem resolve_raw (hp : Accepted d p) (h : TriesRawScope d p) :
    resolve p.scopeKey L = (L p.scopeKey).or (L p.scope) := by
  rw [resolve, (scopeVariants_accepted hp).1 h, List.findSome?_cons, List.findSome?_singleton]
  cases L p.scopeKey <;> rfl

theorem resolveAll_isSome {key : String} :
    (resolveAll key Ls).isSome ↔ ∀ L ∈ Ls, (resolve key L).isSome := by
  unfold resolveAll
  rw [Option.isSome_map]
  induction Ls with
  | nil => simp
  | cons L Ls ih =>
    rw [List.mapM_cons, List.forall_mem_cons, ← ih]
    cases resolve key L <;> cases Ls.mapM (resolve key) <;> simp

theorem mem_resolveAll {key : String} {ids : List String} (h : resolveAll key Ls = some ids)
    {id : String} : id ∈ ids ↔ ∃ L ∈ Ls, ∃ is, resolve key L = some is ∧ id ∈ is := by
  obtain ⟨xss, hxss, rfl⟩ := Option.map_eq_some_iff.1 h
  rw [List.mem_flatten]
  have hall := Zod.mapM_eq_some.1 hxss
  constructor
  · rintro ⟨is, his, hid⟩
    obtain ⟨L, hL, hr⟩ := Zod.exists_left_of_forall₂ hall his
    exact ⟨L, hL, is, hr, hid⟩
  · rintro ⟨L, hL, is, hr, hid⟩
    obtain ⟨is', his', hr'⟩ := Zod.exists_right_of_forall₂ hall hL
    obtain rfl := Option.some.inj (hr.symm.trans hr')
    exact ⟨is, his', hid⟩

/-- The pair whose key is the raw scope of `p`. -/
theorem accepted_default (hp : Accepted d p) (hd : TenantIdOk d.defaultTenantId) :
    Accepted d ⟨d.defaultTenantId, p.scope, p.scope⟩ :=
  accepted_iff.2 ⟨hd, (accepted_iff.1 hp).2.1, (if_pos rfl).symm⟩

theorem tenantIdOk_of_scopeKey (hp : Accepted d p) (hq : Accepted d q)
    (h : q.scopeKey = p.scope) : TenantIdOk d.defaultTenantId := by
  obtain ⟨-, hs, -⟩ := accepted_iff.1 hp
  obtain ⟨hqt, -, hqk⟩ := accepted_iff.1 hq
  by_cases hd : q.tenantId = d.defaultTenantId
  · exact hd ▸ hqt
  · rw [h, toTenantScopeKey, if_neg hd] at hqk
    rw [hqk] at hs
    exact absurd hs.not_reserved (by simp [reserved_keyHead])

variable {db : LiteReplayDb} {visibility : ReplayVisibilityArgs} {call : ReplayCall}

/-- A row a call is served is stored under the caller's key, or its raw scope answered for a
lookup that its key did not answer. -/
theorem storedUnder_of_served (hp : Accepted d p) {ids : List String}
    (h : call.served db p visibility = .ok ids) {id : String} (hid : id ∈ ids) :
    StoredUnder db id p.scopeKey ∨ TriesRawScope d p ∧ StoredUnder db id p.scope ∧
      (∀ L ∈ call.lookups db visibility, (resolve p.scopeKey L).isSome) ∧
        ∃ L ∈ call.lookups db visibility, L p.scopeKey = none := by
  have hspec := served_spec db p visibility call
  cases hr : resolveAll p.scopeKey (call.lookups db visibility) with
  | none =>
    rw [hspec.nothing hr ids h] at hid
    cases hid
  | some is =>
    obtain ⟨own, hown, hok⟩ := hspec.found is hr
    obtain rfl := Except.ok.inj (h.symm.trans hok)
    rcases List.mem_append.1 hid with hid | hid
    · obtain ⟨L, hL, js, hjs, hmem⟩ := (mem_resolveAll hr).1 hid
      have hsound := sound_lookups call L hL
      by_cases htry : TriesRawScope d p
      · rw [resolve_raw hp htry] at hjs
        rcases Option.or_eq_some_iff.1 hjs with hjs | ⟨hnone, hjs⟩
        · exact .inl ((hsound _ _ hjs).2 id hmem)
        · refine .inr ⟨htry, (hsound _ _ hjs).2 id hmem, ?_, L, hL, hnone⟩
          exact resolveAll_isSome.1 (by rw [hr]; rfl)
      · rw [resolve_own hp htry] at hjs
        exact .inl ((hsound _ _ hjs).2 id hmem)
    · exact .inl (hown id hid)

/-- Where the raw scope decides, a row of the default tenant is served. -/
theorem leaks (hp : Accepted d p) (htry : TriesRawScope d p)
    (hans : ∀ L ∈ call.lookups db visibility, (resolve p.scopeKey L).isSome)
    (hL : L ∈ call.lookups db visibility) (hnone : L p.scopeKey = none) :
    ∃ ids, call.served db p visibility = .ok ids ∧ ∃ id ∈ ids, StoredUnder db id p.scope := by
  obtain ⟨is, his⟩ := Option.isSome_iff_exists.1 (resolveAll_isSome.2 hans)
  obtain ⟨own, -, hok⟩ := (served_spec db p visibility call).found is his
  obtain ⟨js, hjs⟩ := Option.isSome_iff_exists.1 (hans L hL)
  have hraw : L p.scope = some js := by
    rw [resolve_raw hp htry, hnone, Option.none_or] at hjs
    exact hjs
  obtain ⟨hne, hstored⟩ := sound_lookups call L hL _ _ hraw
  obtain ⟨id, hid⟩ := List.exists_mem_of_ne_nil js hne
  exact ⟨is ++ own, hok, id, List.mem_append_left _ ((mem_resolveAll his).2 ⟨L, hL, js, hjs, hid⟩),
    hstored id hid⟩

/-- A call is never served rows of another accepted pair exactly when its raw scope does not
decide. -/
theorem replayCall_isolated_iff (hp : Accepted d p) :
    (∀ q, Accepted d q → q ≠ p → NeverServes db visibility call p q) ↔
      KeepsApart d p (call.lookups db visibility) := by
  constructor
  · intro h
    by_contra hk
    simp only [KeepsApart, not_or, not_not] at hk
    obtain ⟨htry, hd, hsome, hown⟩ := hk
    push Not at hsome hown
    obtain ⟨L, hL, hnone⟩ := hown
    have hnone : L p.scopeKey = none := by simpa using hnone
    have hans : ∀ L ∈ call.lookups db visibility, (resolve p.scopeKey L).isSome := by
      intro M hM
      rw [resolve_raw hp htry]
      cases hMk : M p.scopeKey with
      | some is => rfl
      | none => exact Option.isSome_iff_ne_none.2 (hsome M hM hMk)
    obtain ⟨ids, hok, id, hid, hst⟩ := leaks hp htry hans hL hnone
    refine h ⟨d.defaultTenantId, p.scope, p.scope⟩ (accepted_default hp hd) ?_ ids hok id hid hst
    intro heq
    exact htry.1 (congrArg TenantScope.tenantId heq).symm
  · intro hk q hq hne ids hok id hid hst
    rcases storedUnder_of_served hp hok hid with hkey | ⟨htry, hraw, hans, L, hL, hnone⟩
    · exact hne (Accepted.scopeKey_inj hq hp (hst.unique hkey))
    · rcases hk with hk | hk | ⟨M, hM, hMk, hMs⟩ | hk
      · exact hk htry
      · exact hk (tenantIdOk_of_scopeKey hp hq (hst.unique hraw))
      · have hM' := hans M hM
        rw [resolve_raw hp htry, hMk, hMs] at hM'
        cases hM'
      · have := hk L hL
        rw [hnone] at this
        cases this

end Isolation

/-! ## A playbook of the default tenant -/

def liteDefaults : TenantDefaults := ⟨"default", "default"⟩

/-- The scope `ops` of the default tenant. -/
def defaultOps : TenantScope := ⟨"default", "ops", "ops"⟩

/-- The scope `ops` of another tenant. -/
def acmeOps : TenantScope := ⟨"acme", "ops", "tenant:acme::scope:ops"⟩

def anyone : ReplayVisibilityArgs := ⟨none, none⟩

/-- A store that holds one shared playbook, of the default tenant. -/
def deployStore : LiteReplayDb where
  rows := [
    { nodeId := "n1", scope := "ops", replayKind := "playbook", playbookId := some "deploy",
      versionNum := some 1, playbookStatus := some "active", nodeType := "procedure",
      slotsJson := .obj [("steps_template", .arr [.obj [("tool_name", .str "sh")]])],
      memoryLane := .sharedLane, createdAt := "2026-01-01", updatedAt := "2026-01-01" }]
  primaryKey := by decide

theorem accepted_defaultOps : Accepted liteDefaults defaultOps :=
  ⟨⟨none, some "ops"⟩, by rfl⟩

theorem accepted_acmeOps : Accepted liteDefaults acmeOps :=
  ⟨⟨some "acme", some "ops"⟩, by rfl⟩

/-- Running the playbook for the other tenant executes the default tenant's row. -/
theorem acme_runs_default_playbook : ¬ ∀ (db : LiteReplayDb) (d : TenantDefaults)
    (p q : TenantScope) (visibility : ReplayVisibilityArgs) (call : ReplayCall),
    Accepted d p → Accepted d q → q ≠ p → NeverServes db visibility call p q := by
  intro h
  refine h deployStore liteDefaults acmeOps defaultOps anyone (.replayPlaybookRun "deploy" none 200)
    accepted_acmeOps accepted_defaultOps (by decide) ["n1"] (by rfl) "n1" (by simp) ?_
  exact ⟨_, List.mem_singleton.2 rfl, rfl, rfl⟩

/-- The default tenant itself is kept apart from all others. -/
theorem replayCall_isolated_iff_defaultOps :
    (∀ q, Accepted liteDefaults q → q ≠ defaultOps →
        NeverServes deployStore anyone (.replayPlaybookRun "deploy" none 200) defaultOps q) ↔
      KeepsApart liteDefaults defaultOps
        (ReplayCall.lookups deployStore anyone (.replayPlaybookRun "deploy" none 200)) :=
  replayCall_isolated_iff accepted_defaultOps

end AionisCore.Memory
