import AionisCore.Lib.FileSystem
import AionisCore.Lib.Trace

/-!
# The files of the embedded snapshot

`persistSnapshot` rotates the backups, writes a temporary file and renames it. Nothing
keeps two calls apart, and between any two file operations of a call others may come, or a
crash, after which `loadSnapshot` finds what the live file holds.
-/

namespace AionisCore.Store

open Lib

/-- `snapshotPath`, with the suffix of a backup (`.1` of backup 0) or with `.tmp`. -/
inductive SnapshotFile where
  | live
  | backup (i : Nat)
  | tmp
  deriving DecidableEq, Repr

/-- Before which file operation a call of `persistSnapshot` stands. -/
inductive PersistStage where
  | mkdir
  | access (i : Nat)
  | rm (i : Nat)
  | rotate (i : Nat)
  | openTmp
  | writeTmp (file written : Nat)
  | renameTmp
  | completed
  | failed
  deriving DecidableEq, Repr

/-- A call, with the body that it built from the runtime when it was made. -/
structure Persist where
  body : List UInt8
  stage : PersistStage
  deriving DecidableEq, Repr

/-- The file that the rotation moves to backup `i`. -/
def rotationSource : Nat → SnapshotFile
  | 0 => .live
  | i + 1 => .backup i

/-- The rotation of the backups below `i`. -/
def rotateBelow : Nat → PersistStage
  | 0 => .openTmp
  | i + 1 => .access i

/-- The next file operation of a call; a write may write less than what is left. -/
def Persist.next (p : Persist) (maxBackups chunk : Nat) (fs : FileSystem SnapshotFile) :
    Option (FileSystem SnapshotFile × PersistStage) :=
  match p.stage with
  | .mkdir => some (fs, rotateBelow maxBackups)
  | .access i => some (fs, if (fs.file (rotationSource i)).isSome then .rm i else rotateBelow i)
  | .rm i => some (fs.remove (.backup i), .rotate i)
  | .rotate i => some ((fs.rename (rotationSource i) (.backup i)).getD fs, rotateBelow i)
  | .openTmp => some ((fs.create .tmp).1, .writeTmp (fs.create .tmp).2 0)
  | .writeTmp file written =>
    let left := p.body.drop written
    if left = [] then some (fs, .renameTmp)
    else
      let piece := left.take (chunk + 1)
      some (fs.write file written piece, .writeTmp file (written + piece.length))
  | .renameTmp => some (match fs.rename .tmp .live with
    | some fs => (fs, .completed)
    | none => (fs, .failed))
  | .completed | .failed => none

structure SnapshotSystem where
  fs : FileSystem SnapshotFile
  persists : List Persist := []
  /-- The live file was moved to a backup, and no temporary file was renamed since. -/
  moved : Bool := false
  crashed : Bool := false

inductive SnapshotEvent where
  | persist (body : List UInt8)
  /-- The next file operation of a call. -/
  | op (k chunk : Nat)
  | crash

namespace SnapshotSystem

variable (s : SnapshotSystem)

/-- Whether the live file was moved, after an operation of a call. -/
def movedAfter (p : Persist) (stage : PersistStage) : Bool :=
  if p.stage = .rotate 0 then s.moved || (s.fs.file .live).isSome
  else if stage = .completed then false
  else s.moved

def step (maxBackups : Nat) (s : SnapshotSystem) (event : SnapshotEvent) : Option SnapshotSystem :=
  if s.crashed then none
  else match event with
  | .persist body => some { s with persists := s.persists ++ [⟨body, .mkdir⟩] }
  | .op k chunk =>
    s.persists[k]?.bind fun p => (p.next maxBackups chunk s.fs).map fun out => { s with
      fs := out.1
      persists := s.persists.set k { p with stage := out.2 }
      moved := s.movedAfter p out.2 }
  | .crash => some { s with crashed := true }

/-- What `loadSnapshot` reads; without the file the runtime stays empty. -/
def loadSnapshot : Option (List UInt8) := s.fs.read .live

def Completed (k : Nat) : Prop := ∃ p, s.persists[k]? = some p ∧ p.stage = .completed

/-- The snapshot of a call that came no earlier than any completed one. -/
def Recent (content : List UInt8) : Prop :=
  ∃ k p, s.persists[k]? = some p ∧ p.body = content ∧ ∀ j, s.Completed j → j ≤ k

/-- The call has the temporary file open, or written. -/
def UsesTmp (p : Persist) : Prop :=
  match p.stage with
  | .writeTmp .. | .renameTmp => True
  | _ => False

/-- A call opens the temporary file when no other uses it and renames it when no later call has
completed; and no crash comes after a call has completed while the live file is moved away. -/
def Orderly : SnapshotEvent → Prop
  | .persist _ => True
  | .op k _ => ∀ p, s.persists[k]? = some p →
    (p.stage = .openTmp → ∀ q ∈ s.persists, ¬ UsesTmp q) ∧
      (p.stage = .renameTmp → ∀ j, s.Completed j → j ≤ k)
  | .crash => s.moved = true → ∀ j, ¬ s.Completed j

/-- Once a call has completed, a load finds no older snapshot, and after a crash it finds one. -/
def Restores : Prop := ∀ j, s.Completed j →
  (∀ content ∈ s.loadSnapshot, s.Recent content) ∧ (s.crashed = true → s.loadSnapshot ≠ none)

instance (p : Persist) : Decidable (UsesTmp p) :=
  match hstage : p.stage with
  | .writeTmp .. | .renameTmp => isTrue (by unfold UsesTmp; rw [hstage]; trivial)
  | .mkdir | .access _ | .rm _ | .rotate _ | .openTmp | .completed | .failed =>
    isFalse (by unfold UsesTmp; rw [hstage]; exact id)

instance (k : Nat) : Decidable (s.Completed k) :=
  decidable_of_iff (∃ p ∈ s.persists[k]?, p.stage = .completed) Iff.rfl

theorem completed_lt {k : Nat} (h : s.Completed k) : k < s.persists.length := by
  obtain ⟨p, hk, -⟩ := h
  exact (List.getElem?_eq_some_iff.1 hk).1

/-- What is said of the completed calls can be checked. -/
instance (P : Nat → Prop) [DecidablePred P] : Decidable (∀ j, s.Completed j → P j) :=
  decidable_of_iff (∀ j < s.persists.length, s.Completed j → P j)
    ⟨fun h j hj => h j (s.completed_lt hj) hj, fun h j _ => h j⟩

instance (content : List UInt8) : Decidable (s.Recent content) :=
  decidable_of_iff (∃ k, k < s.persists.length ∧ ∃ p ∈ s.persists[k]?, p.body = content ∧
      ∀ j, s.Completed j → j ≤ k) (by
    constructor
    · rintro ⟨k, -, p, hk, h⟩
      exact ⟨k, p, hk, h⟩
    · rintro ⟨k, p, hk, h⟩
      exact ⟨k, (List.getElem?_eq_some_iff.1 hk).1, p, hk, h⟩)

instance : Decidable s.Restores := by
  unfold Restores
  infer_instance

instance (event : SnapshotEvent) : Decidable (s.Orderly event) :=
  match event with
  | .persist _ => isTrue trivial
  | .op k _ => decidable_of_iff (∀ p ∈ s.persists[k]?,
      (p.stage = .openTmp → ∀ q ∈ s.persists, ¬ UsesTmp q) ∧
        (p.stage = .renameTmp → ∀ j, s.Completed j → j ≤ k)) Iff.rfl
  | .crash => inferInstanceAs (Decidable (s.moved = true → ∀ j, s.Completed j → False))

/-! ## One file operation -/

/-- What the temporary file holds for a call that uses it. -/
def TmpHolds (fs : FileSystem SnapshotFile) (p : Persist) : Prop :=
  match p.stage with
  | .writeTmp file written => fs.file .tmp = some file ∧ fs.bytes file = p.body.take written ∧
    written ≤ p.body.length
  | .renameTmp => fs.read .tmp = some p.body
  | _ => True

variable {maxBackups chunk : Nat} {p q : Persist} {fs fs' : FileSystem SnapshotFile}
  {stage : PersistStage}

theorem rotationSource_ne (i : Nat) : rotationSource i ≠ .backup i := by
  cases i with
  | zero => nofun
  | succ i => exact fun h => absurd (SnapshotFile.backup.inj h) (Nat.succ_ne_self i).symm

theorem rotationSource_ne_tmp (i : Nat) : rotationSource i ≠ .tmp := by
  cases i <;> nofun

theorem not_usesTmp_rotateBelow (i : Nat) : ¬ UsesTmp { p with stage := rotateBelow i } := by
  cases i <;> exact id

theorem tmpHolds_of_not_usesTmp (h : ¬ UsesTmp p) : TmpHolds fs p := by
  unfold TmpHolds
  unfold UsesTmp at h
  split
  · next hstage =>
    rw [hstage] at h
    exact absurd trivial h
  · next hstage =>
    rw [hstage] at h
    exact absurd trivial h
  · trivial

theorem next_tmp (h : p.next maxBackups chunk fs = some (fs', stage)) (htmp : ¬ UsesTmp p)
    (hopen : p.stage ≠ .openTmp) : fs'.file .tmp = fs.file .tmp ∧ fs'.bytes = fs.bytes ∧
      ¬ UsesTmp { p with stage } := by
  unfold Persist.next at h
  unfold UsesTmp at htmp
  split at h
  · obtain ⟨rfl, rfl⟩ := Prod.mk.inj (Option.some.inj h)
    exact ⟨rfl, rfl, not_usesTmp_rotateBelow _⟩
  · obtain ⟨rfl, rfl⟩ := Prod.mk.inj (Option.some.inj h)
    refine ⟨rfl, rfl, ?_⟩
    split
    · exact id
    · exact not_usesTmp_rotateBelow _
  · obtain ⟨rfl, rfl⟩ := Prod.mk.inj (Option.some.inj h)
    exact ⟨FileSystem.file_remove_of_ne nofun, rfl, id⟩
  · next i hstage =>
    obtain ⟨rfl, rfl⟩ := Prod.mk.inj (Option.some.inj h)
    obtain ⟨-, hbytes, hfile⟩ := @FileSystem.rename_getD_spec _ _ fs _ _ (rotationSource_ne i)
    exact ⟨hfile .tmp (rotationSource_ne_tmp i).symm nofun, hbytes, not_usesTmp_rotateBelow _⟩
  · next hstage => exact absurd hstage hopen
  · next hstage =>
    rw [hstage] at htmp
    exact absurd trivial htmp
  · next hstage =>
    rw [hstage] at htmp
    exact absurd trivial htmp
  · cases h
  · cases h

theorem next_holds (h : p.next maxBackups chunk fs = some (fs', stage)) (hp : TmpHolds fs p) :
    TmpHolds fs' { p with stage } := by
  by_cases hopen : p.stage = .openTmp
  · unfold Persist.next at h
    rw [hopen] at h
    obtain ⟨rfl, rfl⟩ := Prod.mk.inj (Option.some.inj h)
    exact ⟨FileSystem.file_create_self, FileSystem.bytes_create_self, Nat.zero_le _⟩
  · by_cases htmp : UsesTmp p
    · unfold TmpHolds at hp
      unfold UsesTmp at htmp
      unfold Persist.next at h
      split at htmp
      · next file written hstage =>
        rw [hstage] at h hp
        obtain ⟨hfile, hbytes, hle⟩ := hp
        dsimp only at h
        split at h
        · next hleft =>
          obtain ⟨rfl, rfl⟩ := Prod.mk.inj (Option.some.inj h)
          show fs.read .tmp = some p.body
          unfold FileSystem.read
          rw [hfile, Option.map_some, hbytes, List.take_of_length_le (List.drop_eq_nil_iff.1 hleft)]
        · obtain ⟨rfl, rfl⟩ := Prod.mk.inj (Option.some.inj h)
          have hlength : (fs.bytes file).length = written := by
            rw [hbytes, List.length_take, Nat.min_eq_left hle]
          have hprefix := List.take_prefix (chunk + 1) (p.body.drop written)
          generalize (p.body.drop written).take (chunk + 1) = piece at hprefix ⊢
          have hwrite := @FileSystem.bytes_write_end _ fs file piece
          rw [hlength, hbytes] at hwrite
          refine ⟨hfile, ?_, ?_⟩
          · dsimp only
            rw [hwrite, List.take_add, ← List.prefix_iff_eq_take.1 hprefix]
          · have hpiece := hprefix.length_le
            rw [List.length_drop] at hpiece
            dsimp only
            omega
      · next hstage =>
        rw [hstage] at h
        have h := Option.some.inj h
        split at h
        · obtain ⟨rfl, rfl⟩ := Prod.mk.inj h
          trivial
        · obtain ⟨rfl, rfl⟩ := Prod.mk.inj h
          trivial
      · exact htmp.elim
    · exact tmpHolds_of_not_usesTmp (next_tmp h htmp hopen).2.2

/-- The live file is moved to a backup by the rotation, replaced by the last rename, and else
left alone. -/
inductive LiveChange (p : Persist) (fs fs' : FileSystem SnapshotFile) (stage : PersistStage) : Prop
  | kept (hrotate : p.stage ≠ .rotate 0) (hstage : stage ≠ .completed)
    (h : fs'.read .live = fs.read .live)
  | moved (hrotate : p.stage = .rotate 0) (hstage : stage ≠ .completed)
    (h : fs'.read .live = none)
  | replaced (hrename : p.stage = .renameTmp) (hstage : stage = .completed)
    (h : fs'.read .live = some p.body)

theorem next_live (h : p.next maxBackups chunk fs = some (fs', stage)) (hp : TmpHolds fs p) :
    LiveChange p fs fs' stage := by
  have hbelow : ∀ i, rotateBelow i ≠ .completed := by
    intro i
    cases i <;> nofun
  unfold Persist.next at h
  split at h
  · next hstage =>
    obtain ⟨rfl, rfl⟩ := Prod.mk.inj (Option.some.inj h)
    exact .kept (by rw [hstage]; nofun) (hbelow _) rfl
  · next i hstage =>
    obtain ⟨rfl, rfl⟩ := Prod.mk.inj (Option.some.inj h)
    refine .kept (by rw [hstage]; nofun) ?_ rfl
    split
    · nofun
    · exact hbelow _
  · next i hstage =>
    obtain ⟨rfl, rfl⟩ := Prod.mk.inj (Option.some.inj h)
    refine .kept (by rw [hstage]; nofun) nofun ?_
    unfold FileSystem.read
    rw [FileSystem.file_remove_of_ne (show SnapshotFile.live ≠ .backup i from nofun)]
    rfl
  · next i hstage =>
    obtain ⟨rfl, rfl⟩ := Prod.mk.inj (Option.some.inj h)
    obtain ⟨hsource, hbytes, hfile⟩ := @FileSystem.rename_getD_spec _ _ fs _ _ (rotationSource_ne i)
    cases i with
    | zero =>
      refine .moved hstage nofun ?_
      unfold FileSystem.read
      exact congrArg (Option.map _) hsource
    | succ i =>
      refine .kept (by rw [hstage]; nofun) nofun ?_
      unfold FileSystem.read
      rw [hfile .live nofun nofun, hbytes]
  · next hstage =>
    obtain ⟨rfl, rfl⟩ := Prod.mk.inj (Option.some.inj h)
    exact .kept (by rw [hstage]; nofun) nofun (FileSystem.read_create_of_ne nofun)
  · next file written hstage =>
    unfold TmpHolds at hp
    rw [hstage] at hp
    dsimp only at h
    split at h
    · obtain ⟨rfl, rfl⟩ := Prod.mk.inj (Option.some.inj h)
      exact .kept (by rw [hstage]; nofun) nofun rfl
    · obtain ⟨rfl, rfl⟩ := Prod.mk.inj (Option.some.inj h)
      refine .kept (by rw [hstage]; nofun) nofun (FileSystem.read_write_of_ne fun hlive => ?_)
      cases fs.inj _ _ _ hlive hp.1
  · next hstage =>
    unfold TmpHolds at hp
    rw [hstage] at hp
    have h := Option.some.inj h
    split at h
    · next renamed hrename =>
      obtain ⟨rfl, rfl⟩ := Prod.mk.inj h
      obtain ⟨hfile, -, hbytes, -⟩ :=
        FileSystem.rename_spec (show SnapshotFile.tmp ≠ .live from nofun) hrename
      obtain ⟨file, htmp, hbody⟩ := Option.map_eq_some_iff.1 hp
      refine .replaced hstage rfl ?_
      unfold FileSystem.read
      rw [hfile file htmp, Option.map_some, hbytes, hbody]
    · obtain ⟨rfl, rfl⟩ := Prod.mk.inj h
      exact .kept (by rw [hstage]; nofun) nofun rfl
  · cases h
  · cases h

/-! ## Runs -/

structure Sound (s : SnapshotSystem) : Prop where
  single : ∀ (j k : Nat) (p q : Persist), s.persists[j]? = some p → s.persists[k]? = some q →
    UsesTmp p → UsesTmp q → j = k
  holds : ∀ p ∈ s.persists, TmpHolds s.fs p
  recent : ∀ j, s.Completed j → ∀ content, s.loadSnapshot = some content → s.Recent content
  there : ∀ j, s.Completed j → s.moved = false → ∃ content, s.loadSnapshot = some content
  crashed : s.crashed = true → s.moved = true → ∀ j, ¬ s.Completed j

variable {s s' : SnapshotSystem} {event : SnapshotEvent}

theorem UsesTmp.stage_ne (h : UsesTmp p) : p.stage ≠ .mkdir := by
  intro hstage
  unfold UsesTmp at h
  rw [hstage] at h
  exact h

theorem Sound.persist {body : List UInt8} (hs : s.Sound) :
    Sound { s with persists := s.persists ++ [⟨body, .mkdir⟩] } := by
  have hold : ∀ {j : Nat} {q : Persist}, (s.persists ++ [⟨body, .mkdir⟩])[j]? = some q →
      q.stage ≠ .mkdir → s.persists[j]? = some q := by
    intro j q hj hq
    rw [List.getElem?_append] at hj
    split at hj
    · exact hj
    · obtain rfl := List.mem_singleton.1 (List.mem_of_getElem? hj)
      exact absurd rfl hq
  have hdone : ∀ {j : Nat}, Completed { s with persists := s.persists ++ [⟨body, .mkdir⟩] } j →
      s.Completed j := by
    rintro j ⟨q, hj, hq⟩
    exact ⟨q, hold hj (by rw [hq]; nofun), hq⟩
  refine ⟨fun j k q r hj hk hq hr => ?_, fun q hq => ?_, fun j hj content hcontent => ?_,
    fun j hj => hs.there j (hdone hj),
    fun hcrashed hmoved j hj => hs.crashed hcrashed hmoved j (hdone hj)⟩
  · exact hs.single j k q r (hold hj hq.stage_ne) (hold hk hr.stage_ne) hq hr
  · rcases List.mem_append.1 hq with hq | hq
    · exact hs.holds q hq
    · obtain rfl := List.mem_singleton.1 hq
      trivial
  · obtain ⟨k, q, hk, hbody, hlate⟩ := hs.recent j (hdone hj) content hcontent
    exact ⟨k, q, by rw [List.getElem?_append_left (List.getElem?_eq_some_iff.1 hk).1, hk], hbody,
      fun j hj => hlate j (hdone hj)⟩

theorem next_holds_other (h : p.next maxBackups chunk fs = some (fs', stage))
    (hp : ¬ UsesTmp p) (hopen : p.stage ≠ .openTmp) (hq : TmpHolds fs q) : TmpHolds fs' q := by
  obtain ⟨hfile, hbytes, -⟩ := next_tmp h hp hopen
  unfold TmpHolds FileSystem.read at hq ⊢
  rw [hfile, hbytes]
  exact hq

theorem Sound.op {k chunk : Nat} {p : Persist} {fs' : FileSystem SnapshotFile}
    {stage : PersistStage} (hs : s.Sound) (hrun : s.crashed = false)
    (hk : s.persists[k]? = some p) (horderly : s.Orderly (.op k chunk))
    (h : p.next maxBackups chunk s.fs = some (fs', stage)) :
    Sound { s with
      fs := fs'
      persists := s.persists.set k { p with stage }
      moved := s.movedAfter p stage } := by
  obtain ⟨hfree, hlate⟩ := horderly p hk
  have hlt := (List.getElem?_eq_some_iff.1 hk).1
  have hself : (s.persists.set k { p with stage })[k]? = some { p with stage } :=
    List.getElem?_set_self hlt
  have hother : ∀ {j : Nat}, j ≠ k →
      (s.persists.set k { p with stage })[j]? = s.persists[j]? := fun hj =>
    List.getElem?_set_ne (Ne.symm hj)
  -- only the call itself comes to use the temporary file, and then it is alone
  have hfrom : UsesTmp { p with stage } → UsesTmp p ∨ ∀ q ∈ s.persists, ¬ UsesTmp q := by
    intro huse
    by_cases hp : UsesTmp p
    · exact .inl hp
    · by_cases hopen : p.stage = .openTmp
      · exact .inr (hfree hopen)
      · exact absurd huse (next_tmp h hp hopen).2.2
  have halone : ∀ {j : Nat} {q : Persist}, j ≠ k → s.persists[j]? = some q → UsesTmp q →
      ¬ UsesTmp { p with stage } := by
    intro j q hjk hj hq huse
    rcases hfrom huse with hp | hnone
    · exact hjk (hs.single j k q p hj hk hq hp)
    · exact hnone q (List.mem_of_getElem? hj) hq
  have hdone : ∀ {j : Nat}, Completed { s with
      fs := fs'
      persists := s.persists.set k { p with stage }
      moved := s.movedAfter p stage } j → s.Completed j ∨ j = k ∧ stage = .completed := by
    rintro j ⟨q, hj, hq⟩
    by_cases hjk : j = k
    · subst hjk
      obtain rfl := Option.some.inj (hself.symm.trans hj)
      exact .inr ⟨rfl, hq⟩
    · exact .inl ⟨q, (hother hjk).symm.trans hj, hq⟩
  have hlive := next_live h (hs.holds p (List.mem_of_getElem? hk))
  refine ⟨fun i j q r hi hj hq hr => ?_, fun q hq => ?_, fun j hj content hcontent => ?_,
    fun j hj hmoved => ?_, fun hcrash => absurd (hrun.symm.trans hcrash) nofun⟩
  · by_cases hik : i = k
    · by_cases hjk : j = k
      · exact hik.trans hjk.symm
      · subst hik
        obtain rfl := Option.some.inj (hself.symm.trans hi)
        exact absurd hq (halone hjk ((hother hjk).symm.trans hj) hr)
    · have hbefore := (hother hik).symm.trans hi
      by_cases hjk : j = k
      · subst hjk
        obtain rfl := Option.some.inj (hself.symm.trans hj)
        exact absurd hr (halone hik hbefore hq)
      · exact hs.single i j q r hbefore ((hother hjk).symm.trans hj) hq hr
  · obtain ⟨j, hj⟩ := List.mem_iff_getElem?.1 hq
    by_cases hjk : j = k
    · subst hjk
      obtain rfl := Option.some.inj (hself.symm.trans hj)
      exact next_holds h (hs.holds p (List.mem_of_getElem? hk))
    · have hj := (hother hjk).symm.trans hj
      have hq := List.mem_of_getElem? hj
      by_cases huse : UsesTmp q
      · have hnot : ¬ UsesTmp p := fun hp => hjk (hs.single j k q p hj hk huse hp)
        exact next_holds_other h hnot (fun hopen => hfree hopen q hq huse) (hs.holds q hq)
      · exact tmpHolds_of_not_usesTmp huse
  · cases hlive with
    | kept _ hstage hread =>
      have hcompleted : s.Completed j := (hdone hj).resolve_right fun h => hstage h.2
      obtain ⟨i, q, hi, hbody, hlast⟩ := hs.recent j hcompleted content (hread.symm.trans hcontent)
      have hlast : ∀ j, Completed { s with
          fs := fs'
          persists := s.persists.set k { p with stage }
          moved := s.movedAfter p stage } j → j ≤ i := fun j hj =>
        hlast j ((hdone hj).resolve_right fun h => hstage h.2)
      by_cases hik : i = k
      · subst hik
        obtain rfl := Option.some.inj (hk.symm.trans hi)
        exact ⟨i, _, hself, hbody, hlast⟩
      · exact ⟨i, q, (hother hik).trans hi, hbody, hlast⟩
    | moved _ _ hread => cases hread.symm.trans hcontent
    | replaced hrename _ hread =>
      obtain rfl := Option.some.inj (hread.symm.trans hcontent)
      refine ⟨k, _, hself, rfl, fun j hj => ?_⟩
      rcases hdone hj with hj | ⟨rfl, -⟩
      · exact hlate hrename j hj
      · exact Nat.le_refl _
  · cases hlive with
    | kept hrotate hstage hread =>
      have hmoved : s.movedAfter p stage = false := hmoved
      unfold movedAfter at hmoved
      rw [if_neg hrotate, if_neg hstage] at hmoved
      obtain ⟨content, hcontent⟩ := hs.there j ((hdone hj).resolve_right fun h => hstage h.2) hmoved
      exact ⟨content, hread.trans hcontent⟩
    | moved hrotate hstage hread =>
      have hmoved : s.movedAfter p stage = false := hmoved
      unfold movedAfter at hmoved
      rw [if_pos hrotate, Bool.or_eq_false_iff] at hmoved
      obtain ⟨content, hcontent⟩ :=
        hs.there j ((hdone hj).resolve_right fun h => hstage h.2) hmoved.1
      obtain ⟨file, hfile, -⟩ := Option.map_eq_some_iff.1 hcontent
      rw [hfile] at hmoved
      exact absurd hmoved.2 nofun
    | replaced _ _ hread => exact ⟨_, hread⟩

theorem Sound.step (hs : s.Sound) (horderly : s.Orderly event)
    (h : s.step maxBackups event = some s') : s'.Sound := by
  unfold SnapshotSystem.step at h
  split at h
  · cases h
  · next hrun =>
    cases event with
    | persist body =>
      obtain rfl := Option.some.inj h
      exact hs.persist
    | op k chunk =>
      obtain ⟨p, hk, h⟩ := Option.bind_eq_some_iff.1 h
      obtain ⟨⟨fs', stage⟩, hnext, rfl⟩ := Option.map_eq_some_iff.1 h
      exact hs.op (eq_false_of_ne_true hrun) hk horderly hnext
    | crash =>
      obtain rfl := Option.some.inj h
      exact ⟨hs.single, hs.holds, hs.recent, hs.there, fun _ => horderly⟩

theorem sound_empty (fs : FileSystem SnapshotFile) : Sound { fs } :=
  ⟨fun _ _ _ _ h => (nomatch h), fun _ h => (nomatch h), fun _ ⟨_, h, _⟩ => (nomatch h),
    fun _ ⟨_, h, _⟩ => (nomatch h), nofun⟩

theorem Sound.restores (hs : s.Sound) : s.Restores := by
  intro j hj
  refine ⟨hs.recent j hj, fun hcrashed hnone => ?_⟩
  have hmoved : s.moved = false :=
    eq_false_of_ne_true fun hmoved => hs.crashed hcrashed hmoved j hj
  obtain ⟨content, hcontent⟩ := hs.there j hj hmoved
  cases hnone.symm.trans hcontent

/-- In an orderly run every load after a completed call restores no older snapshot than that
call's, and finds one after a crash. -/
theorem orderly_restores {maxBackups : Nat} {fs : FileSystem SnapshotFile}
    {σ : Trace (SnapshotSystem.step maxBackups)} (h0 : σ.state 0 = { fs })
    (horderly : σ.Always Orderly) (n : Nat) : (σ.state n).Restores := by
  have hsound : (σ.state n).Sound := by
    refine horderly.stable ?_ (n := 0) (h0 ▸ sound_empty fs) (Nat.zero_le n)
    exact fun s event s' hs horderly h => hs.step horderly h
  exact hsound.restores

/-! ## Four runs -/

/-- A call whose file operations, from the first, come `n` times in a row. -/
def opsOf (k n : Nat) : List SnapshotEvent := List.replicate n (.op k 7)

/-- One snapshot after the other, with three backups, and a crash. -/
def inTurn : List SnapshotEvent :=
  .persist [65] :: opsOf 0 8 ++ .persist [66] :: opsOf 1 10 ++ [.crash]

/-- The crash comes before the second snapshot is in place. -/
def crashedBetween : List SnapshotEvent :=
  .persist [65] :: opsOf 0 8 ++ .persist [66] :: opsOf 1 6 ++ [.crash]

/-- The first of two calls is the last to open, to write and to rename the temporary file. -/
def overtaken : List SnapshotEvent :=
  [.persist [65], .persist [66]] ++ opsOf 1 8 ++ opsOf 0 10

/-- One call opens the temporary file between the other's write and rename. -/
def truncated : List SnapshotEvent :=
  [.persist [65], .persist [66]] ++ opsOf 0 7 ++ opsOf 1 5 ++ opsOf 0 1

theorem isSome_inTurn : (run (step 3) { fs := .empty } inTurn).isSome := by decide +kernel

def inTurnTrace : Trace (SnapshotSystem.step 3) := .ofRun { fs := .empty } inTurn isSome_inTurn

theorem orderly_restores_in_turn : (inTurnTrace.state 21).Completed 1 ∧
    (inTurnTrace.state 21).crashed = true ∧ (inTurnTrace.state 21).Restores :=
  ⟨by decide +kernel, by decide +kernel,
    orderly_restores rfl (Trace.always_ofRun (by decide +kernel)) 21⟩

/-- After a crash between the rotation and the rename nothing is found; an older call's snapshot
comes over a later one; and a completed call leaves an empty file. -/
theorem snapshot_lost :
    (∃ s, run (step 3) { fs := .empty } crashedBetween = some s ∧ s.Completed 0 ∧
      s.crashed = true ∧ s.loadSnapshot = none ∧ ¬ s.Restores) ∧
    (∃ s, run (step 3) { fs := .empty } overtaken = some s ∧ s.Completed 1 ∧
      s.loadSnapshot = some [65] ∧ ¬ s.Restores) ∧
    ∃ s, run (step 3) { fs := .empty } truncated = some s ∧ s.Completed 0 ∧
      s.loadSnapshot = some [] ∧ ¬ s.Restores := by
  refine ⟨⟨_, rfl, ?_⟩, ⟨_, rfl, ?_⟩, ⟨_, rfl, ?_⟩⟩
  · decide +kernel
  · decide +kernel
  · decide +kernel

end SnapshotSystem

end AionisCore.Store
