import FlockDb.Core.Recovery
import FlockDb.Core.World

/-!
# Where a fork can stop

A fork makes a directory, opens a store in it and records its head there, and each call on
the way may be refused or be the last one before the process dies. A refused call has no
effect, so what it leaves is also what a process leaves that dies before it. The directory
is what a later fork or open takes for the database, and until the head is recorded that
database is empty.
-/

namespace FlockDb

open Paging

variable {S : Substrate} {E : Engine}

/-- The page size of a store: its pool's, or its own. -/
def Store.pageSize (pool : Pool S) : Store S → ℕ
  | .local _ => pool.pageSize
  | .tiered pager => pager.pageSize

/-- Opening a name yields a snapshot: the store opens at it, its pages are those of the
file that was snapshotted, and a database that opens has the head and the content. -/
structure YieldsSnapshot (pool : Pool S) (name : String) (m : S.ManifestId) (file : ByteVec)
    (content : E.Content) : Prop where
  opens_at : (openStore (E := E) .none pool name "open the durable store" "replay the log").1 =
    .ok m
  stores : S.Stores pool.cas m (chunkMap pool.pageSize file)
  content_eq : ∀ env opts child, (Flock.openWith env pool name opts).1 = .ok child →
    child.head = m ∧ E.content child.kernel.conn = content

namespace Db

/-- A fork that is all or nothing: of a free name it makes nothing, or the parent's
snapshot; a taken name it leaves alone; and if it returns an error there are the databases
there were. `dies` says that the process dies in the call, which then returns nothing. -/
structure AllOrNothing (dies : Bool) (snapshotEnv env : Env S E) (db : Db S E) (pool : Pool S)
    (name : String) : Prop where
  created : pool.dbs name = none → (db.fork snapshotEnv env pool name).2.2.dbs name = none ∨
    ∃ file, E.mainFile (db.fork snapshotEnv env pool name).2.1.kernel.conn = .ok file ∧
      YieldsSnapshot (db.fork snapshotEnv env pool name).2.2 name
        (db.fork snapshotEnv env pool name).2.1.head file (E.content db.kernel.conn)
  taken : (pool.dbs name).isSome → (db.fork snapshotEnv env pool name).2.2 = pool
  refused : dies = false → (∃ e, (db.fork snapshotEnv env pool name).1 = .error e) →
    ∀ n, ((db.fork snapshotEnv env pool name).2.2.dbs n).isSome = (pool.dbs n).isSome

/-- The call gets as far as the new database's directory. -/
structure MakesDir (snapshotEnv env : Env S E) (db : Db S E) (pool : Pool S) (name : String) :
    Prop where
  validName : validateName (S := S) (E := E) name = .ok ()
  free : pool.dbs name = none
  snapshot : ∃ m, (db.snapshot snapshotEnv pool).1 = .ok m
  createShared : ∀ sub, env.pool (.createShared sub) = none
  createDb : env.pool .createDb = none

/-- Every call goes through that links the directory, opens a store in it and replays its
log. -/
structure OpensStore (env : Env S E) (pageSize : ℕ) : Prop where
  inspect : ∀ sub, env.pool (.inspect sub) = none
  link : ∀ sub, env.pool (.link sub) = none
  «open» : env.store .open = none
  root : ∃ root, S.emptyRoot pageSize = .ok root
  recover : env.store .recover = none

/-- Every call goes through from the new directory to the recorded head. -/
structure RecordsHead (env : Env S E) (pageSize : ℕ) : Prop extends OpensStore env pageSize where
  setHeadTo : env.store .setHeadTo = none
  checkpoint : env.store .checkpoint = none

/-- The pool has the pages of the parent's snapshot. A database of the pool itself puts
them there; a woken one has a store of its own. -/
def SharesSnapshot (snapshotEnv : Env S E) (db : Db S E) (pool : Pool S) : Prop :=
  db.Local ∨ ∃ m file, (db.snapshot snapshotEnv pool).1 = .ok m ∧
    E.mainFile (db.snapshot snapshotEnv pool).2.1.kernel.conn = .ok file ∧
    S.Stores pool.cas m (chunkMap pool.pageSize file)

/-- The new database's kernel opens on the parent's file. -/
def KernelOpens (snapshotEnv env : Env S E) (db : Db S E) (pool : Pool S) : Prop :=
  ∃ file kernel, E.mainFile (db.snapshot snapshotEnv pool).2.1.kernel.conn = .ok file ∧
    (DuckDbKernel.openFile db.opts env.kernel file.bytes :
      Except (KernelError S E.Error) (DuckDbKernel E)) = .ok kernel

end Db

namespace Pool

/-- Creating the shared directories goes through unless one of them is refused. -/
theorem createShared_ok_iff {faults : PoolFaults} {pool : Pool S} {subs : List CasSub} :
    (createShared faults pool subs : Except (FlockError S E) Unit) = .ok () ↔
      ∀ sub ∈ subs, faults (.createShared sub) = none := by
  induction subs with
  | nil => simp [createShared]
  | cons sub subs ih =>
    rw [createShared, List.forall_mem_cons]
    cases hfault : faults (.createShared sub) with
    | some source => simp
    | none => simpa using ih

/-- Linking goes through unless a call is refused. -/
theorem linkSubs_ok {faults : PoolFaults} {name : String} {subs : List CasSub} {pool : Pool S}
    (hinspect : ∀ sub ∈ subs, faults (.inspect sub) = none)
    (hlink : ∀ sub ∈ subs, faults (.link sub) = none) :
    (linkSubs (E := E) faults name subs pool).1 = .ok () := by
  induction subs generalizing pool with
  | nil => rfl
  | cons sub subs ih =>
    rw [List.forall_mem_cons] at hinspect hlink
    rw [linkSubs, hinspect.1, hlink.1]
    simp only
    split
    · exact ih hinspect.2 hlink.2
    · exact ih hinspect.2 hlink.2

/-- Linking a directory that has no links goes through only if no call is refused. -/
theorem linkSubs_ok_iff (faults : PoolFaults) (name : String) {subs : List CasSub}
    {pool : Pool S} {dir : DbDir S} (hdir : pool.dbs name = some dir) (hnodup : subs.Nodup)
    (hunlinked : ∀ sub ∈ subs, dir.linked sub = false) :
    (linkSubs (E := E) faults name subs pool).1 = .ok () ↔
      (∀ sub ∈ subs, faults (.inspect sub) = none) ∧ ∀ sub ∈ subs, faults (.link sub) = none := by
  refine ⟨fun hok => ?_, fun h => linkSubs_ok h.1 h.2⟩
  induction subs generalizing pool dir with
  | nil => simp
  | cons sub subs ih =>
    rw [List.forall_mem_cons] at hunlinked
    obtain ⟨hfresh, hnodup⟩ := List.nodup_cons.mp hnodup
    rw [linkSubs] at hok
    cases hinspect : faults (.inspect sub) with
    | some source =>
      rw [hinspect] at hok
      cases hok
    | none =>
      have hnot : ¬(pool.dbs name).map (fun dir => dir.linked sub) = some true := by
        simp [hdir, hunlinked.1]
      simp only [hinspect, if_neg hnot] at hok
      cases hlink : faults (.link sub) with
      | some source =>
        rw [hlink] at hok
        cases hok
      | none =>
        simp only [hlink] at hok
        have hdir' : (pool.updateDir name fun dir =>
            { dir with linked := Function.update dir.linked sub true }).dbs name =
            some { dir with linked := Function.update dir.linked sub true } := by
          rw [updateDir_dbs, hdir]
          rfl
        have hstill : ∀ other ∈ subs, Function.update dir.linked sub true other = false := by
          intro other hother
          have hne : other ≠ sub := by
            rintro rfl
            exact hfresh hother
          rw [Function.update_of_ne hne]
          exact hunlinked.2 other hother
        obtain ⟨hinspects, hlinks⟩ := ih hdir' hnodup hstill hok
        exact ⟨List.forall_mem_cons.mpr ⟨hinspect, hinspects⟩,
          List.forall_mem_cons.mpr ⟨hlink, hlinks⟩⟩

/-- Both directories of a store. -/
theorem forall_casSub_iff {p : CasSub → Prop} :
    (∀ sub ∈ [CasSub.pages, .manifests], p sub) ↔ ∀ sub, p sub := by
  constructor
  · intro h sub
    cases sub with
    | pages => exact h _ (by simp)
    | manifests => exact h _ (by simp)
  · exact fun h sub _ => h sub

/-- A database's directory is only made once the shared store is there. -/
theorem linkDbToSharedCas_refused {faults : PoolFaults}
    (h : ¬((∀ sub, faults (.createShared sub) = none) ∧ faults .createDb = none))
    (pool : Pool S) (name : String) :
    ∃ e, pool.linkDbToSharedCas (E := E) faults name = (.error e, pool) := by
  rw [linkDbToSharedCas]
  cases hshared : (createShared faults pool [.pages, .manifests] :
      Except (FlockError S E) Unit) with
  | error e => exact ⟨e, rfl⟩
  | ok _ =>
    have hall : ∀ sub, faults (.createShared sub) = none :=
      forall_casSub_iff.mp (createShared_ok_iff.mp hshared)
    cases hcreateDb : faults .createDb with
    | some source => exact ⟨_, rfl⟩
    | none => exact absurd ⟨hall, hcreateDb⟩ h

/-- Linking a database whose directory can be made is creating it and linking it. -/
theorem linkDbToSharedCas_eq {faults : PoolFaults} (pool : Pool S) (name : String)
    (hshared : ∀ sub, faults (.createShared sub) = none) (hcreateDb : faults .createDb = none) :
    pool.linkDbToSharedCas (E := E) faults name =
      linkSubs faults name [.pages, .manifests] (pool.createDb name) := by
  rw [linkDbToSharedCas, createShared_ok_iff.mpr fun sub _ => hshared sub]
  simp only [hcreateDb]

/-- Opening a durable store goes through unless it is refused. -/
theorem openDurable_ok_iff (faults : Faults S) (pool : Pool S) (name : String) :
    (∃ root, (pool.openDurable faults name).1 = .ok root) ↔
      faults .open = none ∧ ∃ root, S.emptyRoot pool.pageSize = .ok root := by
  rw [openDurable]
  cases faults .open with
  | some e => simp
  | none => cases S.emptyRoot pool.pageSize <;> simp

/-- Replaying a log goes through unless it is refused. -/
theorem recover_ok_iff (faults : Faults S) (pool : Pool S) (name : String)
    (head : S.ManifestId) :
    (∃ head', (pool.recover faults name head).1 = .ok head') ↔ faults .recover = none := by
  rw [recover]
  cases faults .recover <;> simp

/-- Replaying a log that has just been created adds nothing to the shared store. -/
theorem cas_recover (hP : S.Positions) (faults : Faults S) {pool : Pool S} {name : String}
    (hwal : pool.wal name = S.freshWal) (head : S.ManifestId) :
    (pool.recover faults name head).2.cas = pool.cas := by
  rw [recover]
  cases faults .recover with
  | some e => rfl
  | none =>
    have hcas := hP.cas_recover_freshWal pool.pageSize pool.cas
    rw [← hwal] at hcas
    exact hcas

end Pool

/-- Opening the store of a database goes through if linking, opening and replaying do. -/
theorem openStore_ok_iff (env : Env S E) (pool : Pool S) (name openOp replayOp : String) :
    (∃ head, (openStore env pool name openOp replayOp).1 = .ok head) ↔
      (pool.linkDbToSharedCas (E := E) env.pool name).1 = .ok () ∧ env.store .open = none ∧
        (∃ root, S.emptyRoot pool.pageSize = .ok root) ∧ env.store .recover = none := by
  obtain ⟨hlink, -⟩ := Pool.beside_linkDbToSharedCas (E := E) env.pool pool name
  rcases openStore_cases env pool name openOp replayOp with
    ⟨e, hrefused, hopened⟩ | ⟨pool₁, hlinked, h⟩
  · rw [hopened, hrefused]
    simp
  · rw [hlinked] at hlink
    have hopen := Pool.openDurable_ok_iff env.store pool₁ name
    rw [hlink.pageSize_eq] at hopen
    rw [hlinked]
    rcases h with ⟨e, hrefused, hopened⟩ | ⟨root, pool₂, hdurable, h⟩
    · rw [hrefused] at hopen
      rw [hopened]
      constructor
      · rintro ⟨head, hok⟩
        cases hok
      · rintro ⟨-, hstore, hroot, -⟩
        simpa using hopen.mpr ⟨hstore, hroot⟩
    · rw [hdurable] at hopen
      obtain ⟨hstore, hroot⟩ := hopen.mp ⟨root, rfl⟩
      have hrecover := Pool.recover_ok_iff env.store pool₂ name root
      rcases h with ⟨e, hrefused, hopened⟩ | ⟨head, hok, hopened⟩
      · rw [hrefused] at hrecover
        rw [hopened]
        constructor
        · rintro ⟨head, hok⟩
          cases hok
        · rintro ⟨-, -, -, hnone⟩
          simpa using hrecover.mpr hnone
      · rw [hopened]
        exact ⟨fun _ => ⟨rfl, hstore, hroot, hrecover.mp ⟨head, hok⟩⟩, fun _ => ⟨head, rfl⟩⟩

/-- When nothing fails, a database opens at the head its log records. -/
theorem openStore_none_eq (hS : S.Recovers) {pool : Pool S}
    (hroot : ∃ root, S.emptyRoot pool.pageSize = .ok root) (name openOp replayOp : String) :
    (openStore (E := E) .none pool name openOp replayOp).1 = .ok (pool.recoveredHead name) := by
  have hlink : (pool.linkDbToSharedCas (E := E) .none name).1 = .ok () := by
    rw [Pool.linkDbToSharedCas_eq pool name (fun _ => rfl) rfl]
    exact Pool.linkSubs_ok (fun _ _ => rfl) fun _ _ => rfl
  obtain ⟨head, hok⟩ := (openStore_ok_iff (E := E) .none pool name openOp replayOp).mpr
    ⟨hlink, rfl, hroot, rfl⟩
  obtain ⟨-, hhead⟩ := openStore_recoveredHead (E := E) hS .none pool name openOp replayOp
  rw [hok, hhead head hok]

/-- The store of a new database opens if every call goes through. Its directory is there in
any case, and the shared store has nothing more. -/
theorem openStore_of_free (hS : S.Recovers) (hP : S.Positions) {env : Env S E} {pool : Pool S}
    {name : String} (hfree : pool.dbs name = none)
    (hshared : ∀ sub, env.pool (.createShared sub) = none)
    (hcreateDb : env.pool .createDb = none) (openOp replayOp : String) :
    ((openStore env pool name openOp replayOp).2.dbs name).isSome ∧
      (openStore env pool name openOp replayOp).2.cas = pool.cas ∧
      ((∃ root, (openStore env pool name openOp replayOp).1 = .ok root) ↔
        Db.OpensStore env pool.pageSize) := by
  have hlinkEq := Pool.linkDbToSharedCas_eq (E := E) pool name hshared hcreateDb
  have hdir : (pool.createDb name).dbs name = some ⟨fun _ => false, none⟩ := by
    rw [Pool.createDb_dbs, hfree]
    rfl
  have hsome : ((pool.linkDbToSharedCas (E := E) env.pool name).2.dbs name).isSome := by
    rw [hlinkEq]
    exact (Pool.beside_linkSubs env.pool name _ _).isSome (by rw [hdir]; rfl)
  obtain ⟨hlinkWal, hlinkCas⟩ := Pool.linkDbToSharedCas_kept (E := E) env.pool pool name
  have hfresh : pool.wal name = S.freshWal := by
    rw [Pool.wal, hfree]
    rfl
  have hiff : (∃ root, (openStore env pool name openOp replayOp).1 = .ok root) ↔
      Db.OpensStore env pool.pageSize := by
    have hlinkOk := Pool.linkSubs_ok_iff (E := E) env.pool name hdir
      (by decide : [CasSub.pages, .manifests].Nodup) fun _ _ => rfl
    rw [Pool.forall_casSub_iff, Pool.forall_casSub_iff, ← hlinkEq] at hlinkOk
    rw [openStore_ok_iff, hlinkOk]
    constructor
    · rintro ⟨⟨hinspect, hlink⟩, hopen, hroot, hrecover⟩
      exact ⟨hinspect, hlink, hopen, hroot, hrecover⟩
    · intro h
      exact ⟨⟨h.inspect, h.link⟩, h.open, h.root, h.recover⟩
  rcases openStore_cases env pool name openOp replayOp with
    ⟨e, -, hopened⟩ | ⟨pool₁, hlinked, h⟩
  · rw [hopened] at hiff ⊢
    exact ⟨hsome, hlinkCas, hiff⟩
  · rw [hlinked] at hsome hlinkWal hlinkCas
    have hopen := Pool.beside_openDurable env.store pool₁ name
    obtain ⟨hopenWal, hopenCas⟩ := Pool.openDurable_kept env.store pool₁ name
    rcases h with ⟨e, -, hopened⟩ | ⟨root, pool₂, hdurable, h⟩
    · rw [hopened] at hiff ⊢
      exact ⟨hopen.isSome hsome, hopenCas.trans hlinkCas, hiff⟩
    · rw [hdurable] at hopen hopenWal hopenCas
      have hrecover := Pool.beside_recover hS env.store pool₂ name root
      have hcas : (pool₂.recover env.store name root).2.cas = pool.cas := by
        rw [Pool.cas_recover hP env.store ((hopenWal.trans hlinkWal).trans hfresh)]
        exact hopenCas.trans hlinkCas
      have hexists := hrecover.isSome (hopen.isSome hsome)
      rcases h with ⟨e, -, hopened⟩ | ⟨head, -, hopened⟩
      · rw [hopened] at hiff ⊢
        exact ⟨hexists, hcas, hiff⟩
      · rw [hopened] at hiff ⊢
        exact ⟨hexists, hcas, hiff⟩

namespace Db

/-- Positioning a fork goes through if the store accepts the manifest and neither call is
refused. The log then records the manifest; otherwise it records what it did. -/
theorem positionFork_spec (hS : S.Recovers) (env : Env S E) {pool : Pool S} {name : String}
    (hname : (pool.dbs name).isSome) (root m : S.ManifestId) :
    (positionFork env pool name root m).2.cas = pool.cas ∧
      (((positionFork env pool name root m).1 = .ok () ∧ env.store .setHeadTo = none ∧
          S.setHeadTo pool.cas m = .ok () ∧ env.store .checkpoint = none ∧
          (positionFork env pool name root m).2.recoveredHead name = m) ∨
        (∃ e, (positionFork env pool name root m).1 = .error e) ∧
          ¬(env.store .setHeadTo = none ∧ S.setHeadTo pool.cas m = .ok () ∧
            env.store .checkpoint = none) ∧
          (positionFork env pool name root m).2.recoveredHead name = pool.recoveredHead name) := by
  have hcas : (pool.durable name root).pager.cas = pool.cas := rfl
  simp only [positionFork, Pager.setHeadTo, Faults.guard, hcas]
  cases hfault : env.store .setHeadTo with
  | some e => exact ⟨rfl, .inr ⟨⟨_, rfl⟩, by simp, rfl⟩⟩
  | none =>
    simp only
    cases haccepts : S.setHeadTo pool.cas m with
    | error e => exact ⟨rfl, .inr ⟨⟨_, rfl⟩, by simp, rfl⟩⟩
    | ok _ =>
      simp only [DurableStore.checkpoint]
      cases hcheckpoint : env.store .checkpoint with
      | some e =>
        refine ⟨rfl, .inr ⟨⟨_, rfl⟩, by simp, ?_⟩⟩
        rw [Pool.recoveredHead, Pool.wal_keep hname]
        rfl
      | none =>
        refine ⟨rfl, .inl ⟨rfl, trivial, trivial, rfl, ?_⟩⟩
        rw [Pool.recoveredHead, Pool.wal_keep hname]
        exact hS.recovered_checkpoint _ _ _ _

/-- A fork that cannot make its directory leaves the pool as it was. -/
theorem forkFrom_refused {env : Env S E} {pool : Pool S} {name : String}
    (h : ¬((∀ sub, env.pool (.createShared sub) = none) ∧ env.pool .createDb = none))
    (db : Db S E) (m : S.ManifestId) : ∃ e, forkFrom env db pool name m = (.error e, pool) := by
  obtain ⟨e, hlink⟩ := Pool.linkDbToSharedCas_refused (E := E) h pool name
  exact ⟨e, by simp only [forkFrom, openStore, hlink]⟩

/-- The calls of a fork from its new directory to its recorded head go through. -/
def Records (env : Env S E) (pool : Pool S) (m : S.ManifestId) : Prop :=
  RecordsHead env pool.pageSize ∧ S.setHeadTo pool.cas m = .ok ()

/-- What a fork leaves that can make its directory: a database at the head that the log of
a new database records, and an error; or, if every call goes through until the head is
recorded, a database at that head, and what opening its kernel returns. -/
theorem forkFrom_spec (hS : S.Recovers) (hP : S.Positions) {env : Env S E} {pool : Pool S}
    {name : String} (hfree : pool.dbs name = none)
    (hshared : ∀ sub, env.pool (.createShared sub) = none)
    (hcreateDb : env.pool .createDb = none) (db : Db S E) (m : S.ManifestId) :
    ((forkFrom env db pool name m).2.dbs name).isSome ∧
      (forkFrom env db pool name m).2.cas = pool.cas ∧
      ((¬Records env pool m ∧ (∃ e, (forkFrom env db pool name m).1 = .error e) ∧
          (forkFrom env db pool name m).2.recoveredHead name = pool.recoveredHead name) ∨
        Records env pool m ∧ (forkFrom env db pool name m).2.recoveredHead name = m ∧
          (forkFrom env db pool name m).1 =
            match Store.openKernel env (forkFrom env db pool name m).2 name db.opts (.local m) with
            | .error source => .error (.kernel source)
            | .ok kernel => .ok ⟨name, .local m, kernel, db.opts⟩) := by
  obtain ⟨hexists, hcas, hopens⟩ := openStore_of_free hS hP hfree hshared hcreateDb
    "open the fork's durable store" "replay the fork's log"
  obtain ⟨hrecovered, -⟩ := openStore_recoveredHead hS env pool name
    "open the fork's durable store" "replay the fork's log"
  rw [forkFrom]
  rcases hopened : openStore env pool name "open the fork's durable store"
      "replay the fork's log" with ⟨e | root, pool₁⟩
  · rw [hopened] at hexists hcas hopens hrecovered
    have hnot : ¬Records env pool m := fun h => by simpa using hopens.mpr h.1.toOpensStore
    exact ⟨hexists, hcas, .inl ⟨hnot, ⟨e, rfl⟩, hrecovered⟩⟩
  · rw [hopened] at hexists hcas hopens hrecovered
    have hopensStore : OpensStore env pool.pageSize := hopens.mp ⟨root, rfl⟩
    have hbeside := beside_positionFork env pool₁ name root m
    obtain ⟨hpositionCas, hposition⟩ := positionFork_spec hS env hexists root m
    rw [hcas] at hposition
    simp only
    rcases hposition with ⟨hok, hsetHead, haccepts, hcheckpoint, hhead⟩ | ⟨⟨e, herror⟩, hnot, hhead⟩
    · rcases hpositioned : positionFork env pool₁ name root m with ⟨result, pool₂⟩
      rw [hpositioned] at hok hhead hbeside hpositionCas
      obtain rfl : result = .ok () := hok
      refine ⟨?_, ?_, .inr ⟨⟨⟨hopensStore, hsetHead, hcheckpoint⟩, haccepts⟩, ?_⟩⟩
      all_goals simp only
      · cases Store.openKernel env pool₂ name db.opts (.local m) <;> exact hbeside.isSome hexists
      · cases Store.openKernel env pool₂ name db.opts (.local m) <;>
          exact hpositionCas.trans hcas
      · cases hkernel : Store.openKernel env pool₂ name db.opts (.local m) with
        | error source => exact ⟨hhead, by simp only [hkernel]⟩
        | ok kernel => exact ⟨hhead, by simp only [hkernel]⟩
    · rcases hpositioned : positionFork env pool₁ name root m with ⟨result, pool₂⟩
      rw [hpositioned] at herror hhead hbeside hpositionCas
      obtain rfl : result = .error e := herror
      refine ⟨hbeside.isSome hexists, hpositionCas.trans hcas, .inl ⟨fun h => ?_, ⟨e, rfl⟩, ?_⟩⟩
      · exact hnot ⟨h.1.setHeadTo, h.2, h.1.checkpoint⟩
      · exact hhead.trans hrecovered

/-- A fork that returns has recorded the head it was given. -/
theorem forkFrom_recoveredHead (hS : S.Recovers) (hP : S.Positions) {env : Env S E}
    {db child : Db S E} {pool : Pool S} {name : String} (hfree : pool.dbs name = none)
    {m : S.ManifestId} (h : (forkFrom env db pool name m).1 = .ok child) :
    (forkFrom env db pool name m).2.recoveredHead name = m := by
  by_cases hdir : (∀ sub, env.pool (.createShared sub) = none) ∧ env.pool .createDb = none
  · obtain ⟨-, -, ⟨-, ⟨e, herror⟩, -⟩ | ⟨-, hhead, -⟩⟩ :=
      forkFrom_spec hS hP hfree hdir.1 hdir.2 db m
    · rw [h] at herror
      cases herror
    · exact hhead
  · obtain ⟨e, hrefused⟩ := forkFrom_refused hdir db m
    rw [hrefused] at h
    cases h

end Db

/-- A manifest that names the chunks of a file with something in it has pages. -/
theorem pageMap_ne_empty (hS : S.ContentAddressed) {cas : S.Cas} {m : S.ManifestId}
    {pageSize : ℕ} {file : ByteVec} (hsize : 0 < pageSize) (hne : file.bytes ≠ [])
    (h : S.Stores cas m (chunkMap pageSize file)) : S.pageMap m ≠ ∅ := by
  obtain ⟨pages, hresolve, hpages⟩ := h
  have hlength : 0 < file.bytes.length := List.length_pos_of_ne_nil hne
  have hfirst : (chunkMap pageSize file 0).isSome := by
    rw [chunkMap_eq, if_pos ((Chunks.lt_chunkCount_iff hsize).mpr (by rwa [Nat.zero_mul]))]
    rfl
  have hmem : 0 ∈ pages := (hpages 0).1.mpr hfirst
  intro hempty
  rw [hS.eq_pageMap_of_resolve hresolve, hempty] at hmem
  simp at hmem

/-- A database whose log records a captured manifest yields the snapshot. -/
theorem yieldsSnapshot_of_captures (hS : S.Laws) {pool : Pool S} {name : String}
    {m : S.ManifestId} {file : ByteVec} {content : E.Content} (hsize : 0 < pool.pageSize)
    (hroot : ∃ root, S.emptyRoot pool.pageSize = .ok root)
    (hcaptures : Captures pool m file content) (hhead : pool.recoveredHead name = m) :
    YieldsSnapshot pool name m file content where
  opens_at := by
    rw [openStore_none_eq hS.toRecovers hroot, hhead]
  stores := hcaptures.stores
  content_eq := by
    intro env opts child hchild
    rcases hopen : Flock.openWith env pool name opts with ⟨result, pool'⟩
    rw [hopen] at hchild
    obtain rfl : result = .ok child := hchild
    obtain ⟨hstore, hbeside, -, hkernel⟩ := openWith_recoveredHead hS.toRecovers hopen
    rw [hhead] at hstore hkernel
    have hsize' : 0 < pool'.pageSize := hbeside.pageSize_eq ▸ hsize
    refine ⟨?_, (hcaptures.beside hS.toContentAddressed hbeside).content_of_openKernel hsize'
      hkernel⟩
    rw [Db.head, hstore]
    rfl

/-- What a snapshot of a database leaves, wherever its store is, when it is taken. -/
structure Taken (db db' : Db S E) (pool pool' : Pool S) (m : S.ManifestId) (file : ByteVec) :
    Prop where
  head_eq : db'.head = m
  opts_eq : db'.opts = db.opts
  main : E.mainFile db'.kernel.conn = .ok file
  ne_nil : file.bytes ≠ []
  content_open : ∀ config conn, E.openWithFlags (some file.bytes) config = .ok conn →
    E.content conn = E.content db.kernel.conn
  pageMap_ne : S.pageMap m ≠ ∅
  stores : db.Local → S.Stores pool'.cas m (chunkMap pool'.pageSize file)
  pool_eq : ¬db.Local → pool' = pool

/-- A snapshot that is taken names the chunks of the main file. -/
theorem taken_of_ok (hS : S.Laws) (hE : E.Laws) {env : Env S E} {db db' : Db S E}
    {pool pool' : Pool S} {m : S.ManifestId} (hsize : 0 < db.store.pageSize pool)
    (h : db.snapshot env pool = (.ok m, db', pool')) : ∃ file, Taken db db' pool pool' m file := by
  cases hstore : db.store with
  | «local» head =>
    have hlocal : db.Local := ⟨head, hstore⟩
    have hsnapshotted := snapshotted_of_ok hS hE hlocal h
    obtain ⟨file, hmain, hcaptures⟩ := hsnapshotted.captures
    obtain ⟨hbeside, -, -⟩ := Db.beside_snapshot hS env db pool
    rw [h] at hbeside
    have hsize' : 0 < pool'.pageSize := by
      rw [hbeside.pageSize_eq]
      rwa [hstore] at hsize
    refine ⟨file, ⟨?_, hsnapshotted.opts_eq, hmain, hcaptures.ne_nil, hcaptures.content_eq,
      pageMap_ne_empty hS.toContentAddressed hsize' hcaptures.ne_nil hcaptures.stores,
      fun _ => hcaptures.stores, fun hnot => absurd hlocal hnot⟩⟩
    rw [Db.head, hsnapshotted.store_eq]
    rfl
  | tiered pager =>
    have hnotLocal : ¬db.Local := by
      rintro ⟨head, hlocal⟩
      rw [hstore] at hlocal
      cases hlocal
    rw [hstore] at hsize
    rw [Db.snapshot, hstore] at h
    simp only at h
    rcases hcheckpoint : db.kernel.checkpoint (tieredHandle env.store env.nowMs) env.kernel pager
      with ⟨source | m', kernel, pager'⟩
    · rw [hcheckpoint] at h
      cases h
    · rw [hcheckpoint] at h
      rcases DuckDbKernel.checkpoint_spec hE (tieredHandle_applies hS env.store env.nowMs)
          db.kernel env.kernel pager hcheckpoint with
        ⟨e, herror, -⟩ | ⟨m'', file, hok, hpageSize, hpersisted⟩
      · cases herror
      · obtain rfl : m' = m'' := Except.ok.inj hok
        cases h
        have hpageSize : pager'.pageSize = pager.pageSize := hpageSize
        have hsize' : 0 < pager'.pageSize := by
          rw [hpageSize]
          exact hsize
        have hreads : S.Stores pager'.cas m (chunkMap pager'.pageSize file) := hpersisted.reads
        exact ⟨file, ⟨hpersisted.head_eq, rfl, hpersisted.main, hpersisted.ne_nil,
          hpersisted.content_open,
          pageMap_ne_empty hS.toContentAddressed hsize' hpersisted.ne_nil hreads,
          fun hlocal => absurd hlocal hnotLocal, fun _ => rfl⟩⟩

namespace Db

/-- A fork that makes no directory is all or nothing if it leaves the pool without one. -/
theorem allOrNothing_of_refused {dies : Bool} {snapshotEnv env : Env S E} {db : Db S E}
    {pool : Pool S} {name : String}
    (h : ∀ n, ((db.fork snapshotEnv env pool name).2.2.dbs n).isSome = (pool.dbs n).isSome)
    (htaken : (pool.dbs name).isSome → (db.fork snapshotEnv env pool name).2.2 = pool) :
    AllOrNothing dies snapshotEnv env db pool name := by
  refine ⟨fun hfree => .inl ?_, htaken, fun _ _ => h⟩
  have hname := h name
  rw [hfree] at hname
  exact Option.not_isSome_iff_eq_none.mp (by simp [hname])

/-- A fork that stops after its directory is made and before its head is recorded leaves a
database of its name that opens empty. -/
theorem not_yieldsSnapshot_of_unrecorded (hS : S.Laws) {pool : Pool S} {name : String}
    {m : S.ManifestId} {file : ByteVec} {content : E.Content} (hpages : S.pageMap m ≠ ∅)
    (hhead : ∀ root, S.emptyRoot pool.pageSize = .ok root → pool.recoveredHead name = root) :
    ¬YieldsSnapshot pool name m file content := by
  intro hyields
  have hopens := hyields.opens_at
  obtain ⟨-, -, ⟨root, hroot⟩, -⟩ := (openStore_ok_iff (E := E) .none pool name
    "open the durable store" "replay the log").mp ⟨m, hopens⟩
  rw [openStore_none_eq hS.toRecovers ⟨root, hroot⟩, hhead root hroot] at hopens
  obtain rfl := Except.ok.inj hopens
  exact hpages (hS.pageMap_emptyRoot hroot)

/-- What a fork leaves that makes its directory yields the snapshot exactly if the head is
recorded and the pool has the pages. -/
theorem yieldsSnapshot_forkFrom_iff (hS : S.Laws) (hP : S.Positions) {env : Env S E}
    {pool : Pool S} {name : String} (hsize : 0 < pool.pageSize) (hfree : pool.dbs name = none)
    (hshared : ∀ sub, env.pool (.createShared sub) = none)
    (hcreateDb : env.pool .createDb = none) (db : Db S E) {m : S.ManifestId} {file : ByteVec}
    {content : E.Content} (hne : file.bytes ≠ []) (hpages : S.pageMap m ≠ ∅)
    (hcontent : ∀ config conn, E.openWithFlags (some file.bytes) config = .ok conn →
      E.content conn = content) :
    YieldsSnapshot (forkFrom env db pool name m).2 name m file content ↔
      RecordsHead env pool.pageSize ∧ S.Stores pool.cas m (chunkMap pool.pageSize file) := by
  obtain ⟨hbeside, -⟩ := beside_forkFrom hS.toRecovers env db pool name m
  obtain ⟨-, hcas, hspec⟩ := forkFrom_spec hS.toRecovers hP hfree hshared hcreateDb db m
  constructor
  · intro hyields
    have hstores := hyields.stores
    rw [hcas, hbeside.pageSize_eq] at hstores
    rcases hspec with ⟨-, -, hhead⟩ | ⟨hrecords, -, -⟩
    · refine absurd hyields (not_yieldsSnapshot_of_unrecorded hS hpages fun root hroot => ?_)
      rw [hbeside.pageSize_eq] at hroot
      rw [hhead, Pool.recoveredHead, Pool.wal, hfree]
      exact hS.recovered_freshWal hroot
    · exact ⟨hrecords.1, hstores⟩
  · rintro ⟨hrecordsHead, hstores⟩
    obtain ⟨pages, hresolve, -⟩ := id hstores
    have hrecords : Records env pool m := ⟨hrecordsHead, hP.setHeadTo_ok hresolve⟩
    rcases hspec with ⟨hnot, -, -⟩ | ⟨-, hhead, -⟩
    · exact absurd hrecords hnot
    · have hcaptures : Captures pool m file content := ⟨hstores, hne, hcontent⟩
      refine yieldsSnapshot_of_captures hS ?_ ?_ (hcaptures.beside hS.toContentAddressed hbeside)
        hhead
      · rwa [hbeside.pageSize_eq]
      · rw [hbeside.pageSize_eq]
        exact hrecordsHead.root

/-- A fork whose head is recorded returns the new database exactly if its kernel opens. -/
theorem forkFrom_isOk_iff (hS : S.Laws) (hP : S.Positions) {env : Env S E} {pool : Pool S}
    {name : String} (hsize : 0 < pool.pageSize) (hfree : pool.dbs name = none)
    (hshared : ∀ sub, env.pool (.createShared sub) = none)
    (hcreateDb : env.pool .createDb = none) {db : Db S E} {m : S.ManifestId} {file : ByteVec}
    {content : E.Content} (hrecordsHead : RecordsHead env pool.pageSize)
    (hcaptures : Captures pool m file content) :
    (∃ child, (forkFrom env db pool name m).1 = .ok child) ↔
      ∃ kernel, (DuckDbKernel.openFile db.opts env.kernel file.bytes :
        Except (KernelError S E.Error) (DuckDbKernel E)) = .ok kernel := by
  obtain ⟨hbeside, -⟩ := beside_forkFrom hS.toRecovers env db pool name m
  obtain ⟨-, -, hspec⟩ := forkFrom_spec hS.toRecovers hP hfree hshared hcreateDb db m
  obtain ⟨pages, hresolve, -⟩ := hcaptures.stores
  have hrecords : Records env pool m := ⟨hrecordsHead, hP.setHeadTo_ok hresolve⟩
  rcases hspec with ⟨hnot, -, -⟩ | ⟨-, -, hresult⟩
  · exact absurd hrecords hnot
  · rw [(hcaptures.beside hS.toContentAddressed hbeside).openKernel_eq
      (by rwa [hbeside.pageSize_eq])] at hresult
    rw [hresult]
    cases (DuckDbKernel.openFile db.opts env.kernel file.bytes :
      Except (KernelError S E.Error) (DuckDbKernel E)) <;> simp

/-- **What a fork can leave behind.** A fork is all or nothing exactly if it stops before
it makes a directory, or goes through until the head is recorded, at a snapshot whose pages
the pool has, and its kernel then opens or the process dies. -/
theorem allOrNothing_iff (hS : S.Laws) (hP : S.Positions) (hE : E.Laws) {db : Db S E}
    {pool : Pool S} (hsize : 0 < pool.pageSize) (hparent : 0 < db.store.pageSize pool)
    (dies : Bool) (snapshotEnv env : Env S E) (name : String) :
    AllOrNothing dies snapshotEnv env db pool name ↔
      ¬MakesDir snapshotEnv env db pool name ∨
        RecordsHead env pool.pageSize ∧ SharesSnapshot snapshotEnv db pool ∧
          (dies = true ∨ KernelOpens snapshotEnv env db pool) := by
  rcases fork_cases snapshotEnv env db pool name with
    ⟨hname, e, hfork⟩ |
    ⟨hname, hfree, ⟨e, db', pool', hsnapshot, hfork⟩ | ⟨m, db', pool', hsnapshot, hfork⟩⟩
  · have hnot : ¬MakesDir snapshotEnv env db pool name := by
      intro h
      rcases hname with ⟨e', hinvalid⟩ | htaken
      · rw [h.validName] at hinvalid
        cases hinvalid
      · rw [h.free] at htaken
        cases htaken
    refine ⟨fun _ => .inl hnot, fun _ => allOrNothing_of_refused (fun n => ?_) fun _ => ?_⟩
    all_goals rw [hfork]
  · have hnot : ¬MakesDir snapshotEnv env db pool name := by
      intro h
      obtain ⟨m, hok⟩ := h.snapshot
      rw [hsnapshot] at hok
      cases hok
    refine ⟨fun _ => .inl hnot, fun _ => allOrNothing_of_refused (fun n => ?_) fun htaken => ?_⟩
    · have hdbs := snapshot_dbs_isSome snapshotEnv db pool n
      rw [hsnapshot] at hdbs
      rw [hfork]
      exact hdbs
    · rw [hfree] at htaken
      cases htaken
  · obtain ⟨hbeside, -, -⟩ := beside_snapshot hS snapshotEnv db pool
    have hdbs (n : String) := snapshot_dbs_isSome snapshotEnv db pool n
    rw [hsnapshot] at hbeside hdbs
    have hfree' : pool'.dbs name = none := by
      have hname' := hdbs name
      rw [hfree] at hname'
      exact Option.not_isSome_iff_eq_none.mp (by simp [hname'])
    have hsize' : 0 < pool'.pageSize := hbeside.pageSize_eq ▸ hsize
    obtain ⟨file, htaken⟩ := taken_of_ok hS hE hparent hsnapshot
    have hmain {file' : ByteVec} (h : E.mainFile db'.kernel.conn = .ok file') : file' = file :=
      Except.ok.inj (h.symm.trans htaken.main)
    have hshares : SharesSnapshot snapshotEnv db pool ↔
        S.Stores pool'.cas m (chunkMap pool'.pageSize file) := by
      rw [SharesSnapshot, hsnapshot]
      constructor
      · rintro (hlocal | ⟨m', file', hm', hfile', hstores⟩)
        · exact htaken.stores hlocal
        · obtain rfl := Except.ok.inj hm'
          obtain rfl := hmain hfile'
          rw [← hbeside.pageSize_eq] at hstores
          exact hstores.grows hS.toContentAddressed hbeside.grows
      · intro hstores
        by_cases hlocal : db.Local
        · exact .inl hlocal
        · obtain rfl := htaken.pool_eq hlocal
          exact .inr ⟨m, file, rfl, htaken.main, hstores⟩
    by_cases hdir : (∀ sub, env.pool (.createShared sub) = none) ∧ env.pool .createDb = none
    · have hmakes : MakesDir snapshotEnv env db pool name :=
        ⟨hname, hfree, ⟨m, by rw [hsnapshot]⟩, hdir.1, hdir.2⟩
      have hyields := yieldsSnapshot_forkFrom_iff hS hP hsize' hfree' hdir.1 hdir.2 db'
        htaken.ne_nil htaken.pageMap_ne htaken.content_open
      rw [← hshares, hbeside.pageSize_eq] at hyields
      obtain ⟨hexists, -, -⟩ := forkFrom_spec hS.toRecovers hP hfree' hdir.1 hdir.2 db' m
      have hkernel (hrecordsHead : RecordsHead env pool.pageSize)
          (hstores : SharesSnapshot snapshotEnv db pool) :
          (∃ child, (forkFrom env db' pool' name m).1 = .ok child) ↔
            KernelOpens snapshotEnv env db pool := by
        rw [← hbeside.pageSize_eq] at hrecordsHead
        rw [forkFrom_isOk_iff hS hP hsize' hfree' hdir.1 hdir.2 hrecordsHead
          ⟨hshares.mp hstores, htaken.ne_nil, htaken.content_open⟩, KernelOpens, hsnapshot,
          htaken.opts_eq]
        constructor
        · rintro ⟨kernel, hopens⟩
          exact ⟨file, kernel, htaken.main, hopens⟩
        · rintro ⟨file', kernel, hfile', hopens⟩
          obtain rfl := hmain hfile'
          exact ⟨kernel, hopens⟩
      constructor
      · intro h
        refine .inr ?_
        rcases h.created hfree with hnone | ⟨file', hfile', hyields'⟩
        · rw [hfork] at hnone
          rw [hnone] at hexists
          cases hexists
        · rw [hfork] at hfile' hyields'
          obtain rfl := hmain hfile'
          rw [htaken.head_eq] at hyields'
          obtain ⟨hrecordsHead, hstores⟩ := hyields.mp hyields'
          refine ⟨hrecordsHead, hstores, ?_⟩
          by_cases hdies : dies = true
          · exact .inl hdies
          · refine .inr ((hkernel hrecordsHead hstores).mp ?_)
            -- an error here would leave one database more than there were
            cases hresult : (forkFrom env db' pool' name m).1 with
            | ok child => exact ⟨child, rfl⟩
            | error e =>
              have hsame := h.refused (by simpa using hdies)
                (by rw [hfork, hresult]; exact ⟨e, rfl⟩) name
              rw [hfork, hexists, hfree] at hsame
              cases hsame
      · rintro (hnot | ⟨hrecordsHead, hstores, hreturns⟩)
        · exact absurd hmakes hnot
        · refine ⟨fun _ => .inr ⟨file, ?_, ?_⟩, fun htaken' => ?_, fun hdies herror => ?_⟩
          · rw [hfork]
            exact htaken.main
          · rw [hfork, htaken.head_eq]
            exact hyields.mpr ⟨hrecordsHead, hstores⟩
          · rw [hfree] at htaken'
            cases htaken'
          · obtain ⟨e, herror⟩ := herror
            rcases hreturns with hdies' | hopens
            · rw [hdies] at hdies'
              cases hdies'
            · obtain ⟨child, hchild⟩ := (hkernel hrecordsHead hstores).mpr hopens
              rw [hfork, hchild] at herror
              cases herror
    · have hnot : ¬MakesDir snapshotEnv env db pool name :=
        fun h => hdir ⟨h.createShared, h.createDb⟩
      obtain ⟨e, hrefused⟩ := forkFrom_refused hdir db' m
      refine ⟨fun _ => .inl hnot, fun _ => allOrNothing_of_refused (fun n => ?_) fun htaken' => ?_⟩
      · rw [hfork, hrefused]
        exact hdbs n
      · rw [hfree] at htaken'
        cases htaken'

/-- The world in which a database was opened and written to. -/
def salesWorld : World (memory []) memoryEngine :=
  (Runs.run World.step (World.start World.emptyPool) (World.salesAndFork.take 2)).2

/-- A fork that goes through makes the parent's snapshot. -/
theorem allOrNothing_sales : ∃ db, salesWorld.handles "sales" = some db ∧
    AllOrNothing false .none .none db salesWorld.pool "experiment" := by
  refine ⟨_, rfl, (allOrNothing_iff (Memory.laws []) (Memory.positions []) memoryEngine_laws
    (by decide) (by decide) false .none .none "experiment").mpr (.inr ⟨⟨⟨fun _ => rfl, fun _ => rfl,
      rfl, ⟨_, rfl⟩, rfl⟩, rfl, rfl⟩, .inl ⟨_, rfl⟩, .inr ⟨_, _, rfl, rfl⟩⟩)⟩

/-- The environment in which a store cannot record its head. -/
def cannotRecord : Env (memory []) memoryEngine :=
  ⟨.none, fun call => if call = .checkpoint then some .refused else none, .none, 0⟩

/-- A fork that cannot record its head leaves a database that opens empty. -/
theorem fork_leaves_empty : ∃ db, salesWorld.handles "sales" = some db ∧
    ¬AllOrNothing false .none cannotRecord db salesWorld.pool "experiment" := by
  refine ⟨_, rfl, fun h => ?_⟩
  rcases h.created rfl with hnone | ⟨file, -, hyields⟩
  · exact absurd (congrArg Option.isSome hnone) (by decide)
  · have hhead : ([] : Memory.ManifestId) = _ := Except.ok.inj hyields.opens_at
    exact absurd (congrArg List.isEmpty hhead) (by decide)

end Db

end FlockDb
