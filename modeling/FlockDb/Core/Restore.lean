import FlockDb.Core.Recovery
import FlockDb.Core.World

/-!
# What a restore moves

A restore moves the head in memory, records it in the log and rebuilds the kernel, in that
order, and each of the three may be refused. Nothing that was moved is moved back, so a
refusal on the way leaves an error and a database that has moved.
-/

namespace FlockDb

open Paging

variable {S : Substrate} {E : Engine}

namespace Store

/-- The shared store that a database reads. -/
def cas (pool : Pool S) : Store S → S.Cas
  | .local _ => pool.cas
  | .tiered pager => pager.cas

/-- The store with its head moved. -/
def movedTo (m : S.ManifestId) : Store S → Store S
  | .local _ => .local m
  | .tiered pager => .tiered { pager with head := m }

@[simp] theorem head_movedTo (store : Store S) (m : S.ManifestId) :
    (store.movedTo m).head = m := by
  cases store <;> rfl

/-- A kernel is connected to the file of a store's head. -/
def Hydrates (pool : Pool S) (name : String) (kernel : DuckDbKernel E) : Store S → Prop
  | .local head => DuckDbKernel.HydratedFrom (durableHandle .none 0) (pool.durable name head) head
      kernel.conn
  | .tiered pager => DuckDbKernel.HydratedFrom (tieredHandle .none 0) pager pager.head kernel.conn

/-- A kernel that opened on a store is connected to the file of its head. -/
theorem hydrates_of_openKernel {env : Env S E} {pool : Pool S} {name : String}
    {opts : KernelOpts} {store : Store S} {kernel : DuckDbKernel E}
    (h : store.openKernel env pool name opts = .ok kernel) : store.Hydrates pool name kernel := by
  cases store with
  | «local» head =>
    have hopen := DuckDbKernel.open_congr (durableHandle env.store env.nowMs)
      (pool.durable name head) (durableHandle .none 0) (pool.durable name head) rfl rfl rfl
      (fun _ => rfl) opts env.kernel
    exact DuckDbKernel.hydratedFrom_of_open (hopen.symm.trans h)
  | tiered pager =>
    have hopen := DuckDbKernel.open_congr (tieredHandle env.store env.nowMs) pager
      (tieredHandle .none 0) pager rfl rfl rfl (fun _ => rfl) opts env.kernel
    exact DuckDbKernel.hydratedFrom_of_open (hopen.symm.trans h)

/-- A kernel opens at a head of a database as in any pool with the same shared store. -/
theorem openKernel_local_congr {pool pool' : Pool S} (hcas : pool'.cas = pool.cas)
    (hsize : pool'.pageSize = pool.pageSize) (env : Env S E) (name : String)
    (opts : KernelOpts) (head : S.ManifestId) :
    Store.openKernel env pool' name opts (.local head) =
      Store.openKernel env pool name opts (.local head) := by
  have hresolve : S.resolve pool'.cas head = S.resolve pool.cas head := by rw [hcas]
  have hread (p : PageNo) : S.read pool'.cas head p = S.read pool.cas head p := by rw [hcas]
  exact DuckDbKernel.open_congr (durableHandle env.store env.nowMs) (pool'.durable name head)
    (durableHandle env.store env.nowMs) (pool.durable name head) rfl hsize hresolve hread opts
    env.kernel

/-- A reopen recovers what it did, wherever the head moved, if the log records what it did. -/
theorem recovered_movedTo_iff {pool pool' : Pool S} {name : String} {store : Store S}
    {m : S.ManifestId} :
    (store.movedTo m).recovered pool' name = store.recovered pool name ↔
      ∀ head, store = .local head → pool'.recoveredHead name = pool.recoveredHead name := by
  cases store with
  | «local» head => simp [movedTo, recovered, Pool.recoveredHead]
  | tiered pager => simp [movedTo, recovered]

end Store

namespace Db

/-- A restore that is all or nothing. If it is refused, the head, which the next snapshot
builds on, the kernel, which answers the queries, and the head that a reopen recovers are
what they were; if it returns, they are the restored manifest's. -/
structure RestoresWhole (env : Env S E) (db : Db S E) (pool : Pool S) (m : S.ManifestId) :
    Prop where
  refused : ∀ e, (db.restore env pool m).1 = .error e →
    (db.restore env pool m).2.1.head = db.head ∧
      (db.restore env pool m).2.1.kernel = db.kernel ∧
      (db.restore env pool m).2.1.store.recovered (db.restore env pool m).2.2 db.name =
        db.store.recovered pool db.name
  restored : (db.restore env pool m).1 = .ok () →
    (db.restore env pool m).2.1.head = m ∧
      (db.restore env pool m).2.1.store.Hydrates (db.restore env pool m).2.2 db.name
        (db.restore env pool m).2.1.kernel ∧
      (db.Local → (db.restore env pool m).2.1.store.recovered (db.restore env pool m).2.2 db.name =
        some m)

/-- The manifest is unknown, or the store refuses to rewind to it. -/
def RefusesRewind (env : Env S E) (db : Db S E) (pool : Pool S) (m : S.ManifestId) : Prop :=
  (∃ e, S.manifest (db.store.cas pool) m = .error e) ∨
    ∃ e, env.store.guard .rewind (S.rewind (db.store.cas pool) m) = .error e

/-- The log of a database of the pool takes its new head. A woken one has no log. -/
def TakesHead (env : Env S E) (db : Db S E) : Prop :=
  db.Local → env.store .checkpoint = none

/-- A kernel opens at the manifest. -/
def KernelOpensAt (env : Env S E) (db : Db S E) (pool : Pool S) (m : S.ManifestId) : Prop :=
  ∃ kernel, (db.store.movedTo m).openKernel env pool db.name db.opts = .ok kernel

/-- What a rewind can do: be refused and move nothing, move the head that the log does not
take, or move both. -/
theorem rewindTo_cases (hS : S.Recovers) (env : Env S E) {db : Db S E} {pool : Pool S}
    (hexists : db.Local → (pool.dbs db.name).isSome) (m : S.ManifestId) :
    (RefusesRewind env db pool m ∧ ∃ e, db.rewindTo env pool m = (.error e, db, pool)) ∨
    ¬RefusesRewind env db pool m ∧ ∃ pool', pool'.cas = pool.cas ∧
      pool'.pageSize = pool.pageSize ∧
      ((¬TakesHead env db ∧ pool'.recoveredHead db.name = pool.recoveredHead db.name ∧
          ∃ e, db.rewindTo env pool m =
            (.error e, { db with store := db.store.movedTo m }, pool')) ∨
        TakesHead env db ∧ (db.Local → pool'.recoveredHead db.name = m) ∧
          db.rewindTo env pool m = (.ok (), { db with store := db.store.movedTo m }, pool')) := by
  cases hstore : db.store with
  | «local» head =>
    have hlocal : db.Local := ⟨head, hstore⟩
    have hcas : (pool.durable db.name head).pager.cas = pool.cas := rfl
    simp only [rewindTo, RefusesRewind, hstore, Store.cas, Store.movedTo, Pager.rewind, hcas]
    cases hmanifest : S.manifest pool.cas m with
    | error e => exact .inl ⟨.inl ⟨e, rfl⟩, _, rfl⟩
    | ok edges =>
      simp only
      cases hrewind : env.store.guard .rewind (S.rewind pool.cas m) with
      | error e => exact .inl ⟨.inr ⟨e, rfl⟩, _, rfl⟩
      | ok _ =>
        simp only [DurableStore.checkpoint]
        refine .inr ⟨by simp, ?_⟩
        cases hcheckpoint : env.store .checkpoint with
        | some e =>
          have hnot : ¬TakesHead env db := fun h => by simpa [hcheckpoint] using h hlocal
          refine ⟨_, ?_, ?_, .inl ⟨hnot, ?_, ⟨_, rfl⟩⟩⟩
          · rfl
          · rfl
          · rw [Pool.recoveredHead, Pool.wal_keep (hexists hlocal)]
            rfl
        | none =>
          refine ⟨_, ?_, ?_, .inr ⟨fun _ => hcheckpoint, fun _ => ?_, rfl⟩⟩
          · rfl
          · rfl
          · rw [Pool.recoveredHead, Pool.wal_keep (hexists hlocal)]
            exact hS.recovered_checkpoint _ _ _ _
  | tiered pager =>
    have hnotLocal : ¬db.Local := by
      rintro ⟨head, hlocal⟩
      rw [hstore] at hlocal
      cases hlocal
    simp only [rewindTo, RefusesRewind, hstore, Store.cas, Store.movedTo, Pager.rewind]
    cases hmanifest : S.manifest pager.cas m with
    | error e => exact .inl ⟨.inl ⟨e, rfl⟩, _, rfl⟩
    | ok edges =>
      simp only
      cases hrewind : env.store.guard .rewind (S.rewind pager.cas m) with
      | error e => exact .inl ⟨.inr ⟨e, rfl⟩, _, rfl⟩
      | ok _ =>
        exact .inr ⟨by simp, pool, rfl, rfl, .inr ⟨fun h => absurd h hnotLocal,
          fun h => absurd h hnotLocal, rfl⟩⟩

/-- **When a restore is all or nothing.** Exactly if it is refused before anything moves, or
the log takes the head and the kernel opens, or the manifest is where the database stands
already, in memory and, if the log is written, in the log. -/
theorem restoresWhole_iff (hS : S.Recovers) (env : Env S E) {db : Db S E} {pool : Pool S}
    (hexists : db.Local → (pool.dbs db.name).isSome) (m : S.ManifestId) :
    RestoresWhole env db pool m ↔
      RefusesRewind env db pool m ∨ (TakesHead env db ∧ KernelOpensAt env db pool m) ∨
        (m = db.head ∧ (TakesHead env db → db.Local → pool.recoveredHead db.name = m)) := by
  rcases rewindTo_cases hS env hexists m with
    ⟨hrefuses, e, hrewind⟩ |
    ⟨hmoves, pool', hcas, hsize, ⟨hnot, hrecovered, e, hrewind⟩ | ⟨htakes, hrecovered, hrewind⟩⟩
  · have hrestore : db.restore env pool m = (.error e, db, pool) := by simp only [restore, hrewind]
    refine iff_of_true ⟨fun e' _ => ?_, fun hok => ?_⟩ (.inl hrefuses)
    · rw [hrestore]
      exact ⟨rfl, rfl, rfl⟩
    · rw [hrestore] at hok
      cases hok
  · have hrestore : db.restore env pool m =
        (.error e, { db with store := db.store.movedTo m }, pool') := by
      simp only [restore, hrewind]
    constructor
    · intro h
      obtain ⟨hhead, -, -⟩ := h.refused e (by rw [hrestore])
      rw [hrestore, head, Store.head_movedTo] at hhead
      exact .inr (.inr ⟨hhead, fun htakes => absurd htakes hnot⟩)
    · rintro (hrefuses | ⟨htakes, -⟩ | ⟨hhead, -⟩)
      · exact absurd hrefuses hmoves
      · exact absurd htakes hnot
      · refine ⟨fun e' _ => ?_, fun hok => ?_⟩
        · rw [hrestore, head, Store.head_movedTo, Store.recovered_movedTo_iff]
          exact ⟨hhead, rfl, fun _ _ => hrecovered⟩
        · rw [hrestore] at hok
          cases hok
  · have hopen : (db.store.movedTo m).openKernel env pool' db.name db.opts =
        (db.store.movedTo m).openKernel env pool db.name db.opts := by
      cases db.store with
      | «local» head => exact Store.openKernel_local_congr hcas hsize env db.name db.opts m
      | tiered pager => rfl
    cases hkernel : (db.store.movedTo m).openKernel env pool db.name db.opts with
    | ok kernel =>
      have hrestore : db.restore env pool m =
          (.ok (), { db with kernel, store := db.store.movedTo m }, pool') := by
        simp only [restore, hrewind, hopen, hkernel]
      refine iff_of_true ⟨fun e herror => ?_, fun _ => ?_⟩ (.inr (.inl ⟨htakes, kernel, hkernel⟩))
      · rw [hrestore] at herror
        cases herror
      · rw [hrestore, head, Store.head_movedTo]
        refine ⟨rfl, Store.hydrates_of_openKernel (hopen.trans hkernel), fun hlocal => ?_⟩
        obtain ⟨head, hstore⟩ := id hlocal
        rw [hstore]
        exact congrArg some (hrecovered hlocal)
    | error source =>
      have hrestore : db.restore env pool m =
          (.error (.kernel source), { db with store := db.store.movedTo m }, pool') := by
        simp only [restore, hrewind, hopen, hkernel]
      have hrecoveredIff : (∀ head, db.store = .local head →
          pool'.recoveredHead db.name = pool.recoveredHead db.name) ↔
          (db.Local → pool.recoveredHead db.name = m) := by
        constructor
        · rintro h ⟨head, hstore⟩
          rw [← h head hstore, hrecovered ⟨head, hstore⟩]
        · rintro h head hstore
          rw [hrecovered ⟨head, hstore⟩, h ⟨head, hstore⟩]
      constructor
      · intro h
        obtain ⟨hhead, -, hsame⟩ := h.refused _ (by rw [hrestore])
        rw [hrestore, head, Store.head_movedTo] at hhead
        rw [hrestore, Store.recovered_movedTo_iff, hrecoveredIff] at hsame
        exact .inr (.inr ⟨hhead, fun _ => hsame⟩)
      · rintro (hrefuses | ⟨-, kernel, hopens⟩ | ⟨hhead, hsame⟩)
        · exact absurd hrefuses hmoves
        · rw [hkernel] at hopens
          cases hopens
        · refine ⟨fun e' _ => ?_, fun hok => ?_⟩
          · rw [hrestore, head, Store.head_movedTo, Store.recovered_movedTo_iff, hrecoveredIff]
            exact ⟨hhead, rfl, hsame htakes⟩
          · rw [hrestore] at hok
            cases hok

/-- A run that takes two snapshots of a database. -/
def twoSnapshots : List (Op (memory []) memoryEngine) :=
  [.open .none "sales" World.noOpts, .execute "sales" "INSERT", .snapshot .none "sales",
    .execute "sales" "INSERT 2", .snapshot .none "sales"]

/-- A world in which two snapshots were taken. -/
def snapshotWorld (n : ℕ) : World (memory []) memoryEngine :=
  (Runs.run World.step (World.start World.emptyPool) (twoSnapshots.take n)).2

/-- A restore to the first of two snapshots that goes through is whole. -/
theorem restoresWhole_sales : ∃ first db, (snapshotWorld 3).handles "sales" = some first ∧
    (snapshotWorld 5).handles "sales" = some db ∧ db.head ≠ first.head ∧
    RestoresWhole .none db (snapshotWorld 5).pool first.head := by
  refine ⟨_, _, rfl, rfl, ?_, (restoresWhole_iff (Memory.laws []).toRecovers .none (fun _ => ?_)
    _).mpr (.inr (.inl ⟨fun _ => rfl, _, rfl⟩))⟩
  · exact fun h => absurd (congrArg List.length h) (by decide)
  · rfl

/-- The environment in which DuckDB does not connect. -/
def cannotConnect : Env (memory []) memoryEngine :=
  ⟨.none, .none, { KernelFaults.none with connect := some "out of memory" }, 0⟩

/-- A restore whose kernel does not open leaves an error and the restored head. -/
theorem restore_moves_head : ∃ first db, (snapshotWorld 3).handles "sales" = some first ∧
    (snapshotWorld 5).handles "sales" = some db ∧
    ¬RestoresWhole cannotConnect db (snapshotWorld 5).pool first.head := by
  refine ⟨_, _, rfl, rfl, fun h => ?_⟩
  obtain ⟨hhead, -, -⟩ := h.refused _ rfl
  exact absurd (congrArg List.length hhead) (by decide)

end Db

end FlockDb
