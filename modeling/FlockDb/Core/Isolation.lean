import FlockDb.Core.Snapshot
import FlockDb.Core.World

/-!
# Fork isolation

What can be observed of a database is its head, the pages of its head, the head its log
records and the rows its handle sees. A run on other databases changes none of them, and a
fork starts with what its parent held at the call, snapshotted or not.
-/

namespace FlockDb

open Runs

variable {S : Substrate} {E : Engine}

namespace World

/-- What can be observed of a database is the same in two worlds. -/
structure Untouched (n : String) (w w' : World S E) : Prop where
  head_eq : (w'.handles n).map Db.head = (w.handles n).map Db.head
  rows_eq : ∀ sql, (w'.handles n).map (fun db => (db.query sql).1) =
    (w.handles n).map fun db => (db.query sql).1
  recovered_eq : S.recovered w'.pool.pageSize (w'.pool.wal n) =
    S.recovered w.pool.pageSize (w.pool.wal n)
  resolve_eq : ∀ m pages, S.resolve w.pool.cas m = .ok pages →
    S.resolve w'.pool.cas m = .ok pages
  read_eq : ∀ m p bytes, S.read w.pool.cas m p = .ok bytes → S.read w'.pool.cas m p = .ok bytes

/-- A database that was left alone is untouched. -/
theorem Aside.untouched (hS : S.ContentAddressed) {n : String} {w w' : World S E}
    (h : Aside n w w') : Untouched n w w' where
  head_eq := by rw [h.handle_eq]
  rows_eq := fun sql => by rw [h.handle_eq]
  recovered_eq := by rw [h.pageSize_eq, Pool.wal, Pool.wal, h.dir_eq]
  resolve_eq := fun _ _ hpages => h.grows.resolve hpages
  read_eq := fun _ _ _ hread => hS.read_grows h.grows hread

/-- What a fork that returns leaves: a handle on the new database with the content that the
parent had at the call, at the head where the parent now stands. -/
theorem fork_content (hS : S.Laws) (hE : E.Laws) {w : World S E} (hfiled : Filed w)
    (hsize : 0 < w.pool.pageSize) {snapshotEnv env : Env S E} {parent name : String}
    {db : Db S E} (hdb : w.handles parent = some db)
    (hdone : (w.step (.fork snapshotEnv env parent name)).1 = .done) :
    ∃ db' child, (w.step (.fork snapshotEnv env parent name)).2.handles parent = some db' ∧
      (w.step (.fork snapshotEnv env parent name)).2.handles name = some child ∧
      E.content child.kernel.conn = E.content db.kernel.conn ∧
      E.content db'.kernel.conn = E.content db.kernel.conn ∧ child.head = db'.head := by
  obtain ⟨hname, hlocal, hexists⟩ := hfiled parent db hdb
  simp only [step, hdb] at hdone ⊢
  rcases Db.fork_cases snapshotEnv env db w.pool name with
    ⟨-, e, hfork⟩ |
    ⟨-, hfree, ⟨e, db', pool', hsnapshot, hfork⟩ | ⟨m, db', pool', hsnapshot, hfork⟩⟩
  · rw [hfork] at hdone
    cases hdone
  · rw [hfork] at hdone
    cases hdone
  · have hne : parent ≠ name := by
      rintro rfl
      rw [hfree] at hexists
      cases hexists
    rw [hfork] at hdone ⊢
    cases hchild : (Db.forkFrom env db' pool' name m).1 with
    | error e =>
      rw [hchild] at hdone
      cases hdone
    | ok child =>
      obtain ⟨hbeside, -, -⟩ := Db.beside_snapshot hS snapshotEnv db w.pool
      rw [hsnapshot] at hbeside
      have hsnapshotted := snapshotted_of_ok hS hE hlocal hsnapshot
      obtain ⟨file, -, hcaptures⟩ := hsnapshotted.captures
      have hsize' : 0 < pool'.pageSize := hbeside.pageSize_eq ▸ hsize
      have hcontent := forkFrom_content hS hsize' hcaptures hchild
      obtain ⟨-, hfiledChild⟩ := Db.beside_forkFrom hS.toRecovers env db' pool' name m
      obtain ⟨-, hstore, -⟩ := hfiledChild child hchild
      refine ⟨db', child, ?_, setHandle_self _ _ _, hcontent, hsnapshotted.content_eq, ?_⟩
      · exact (setHandle_of_ne _ hne _).trans (setHandle_self _ _ _)
      · rw [Db.head, Db.head, hstore, hsnapshotted.store_eq]

/-- **Fork isolation.** After any run on a pool, any further run none of whose operations
is on a database leaves all that can be observed of it as it was; and a fork that returns
has the content its parent had at the call. -/
theorem fork_isolation (hS : S.Laws) (hE : E.Laws) {pool : Pool S} (hsize : 0 < pool.pageSize)
    (before : List (Op S E)) :
    let w := (run step (start pool) before).2
    (∀ (after : List (Op S E)) (n : String), (w.pool.dbs n).isSome →
      (∀ op ∈ after, op.subject ≠ n) → Untouched n w (run step w after).2) ∧
    ∀ snapshotEnv env parent name db, w.handles parent = some db →
      (w.step (.fork snapshotEnv env parent name)).1 = .done →
      ∃ db' child, (w.step (.fork snapshotEnv env parent name)).2.handles parent = some db' ∧
        (w.step (.fork snapshotEnv env parent name)).2.handles name = some child ∧
        E.content child.kernel.conn = E.content db.kernel.conn ∧
        E.content db'.kernel.conn = E.content db.kernel.conn ∧ child.head = db'.head := by
  intro w
  have hfiled : Filed w := filed_run hS (filed_start pool) before
  have hsize' : 0 < w.pool.pageSize := by
    rw [(onward_run hS (start pool) before).pageSize_eq]
    exact hsize
  exact ⟨fun after n hexists hafter =>
      (aside_run hS hfiled hexists hafter).untouched hS.toContentAddressed,
    fun _ _ _ _ _ hdb hdone => fork_content hS hE hfiled hsize' hdb hdone⟩

/-- A fork sees its parent's last insert, and its own deletes are not seen by the parent. -/
theorem fork_isolation_sales :
    let opened := (run step (start emptyPool) (salesAndFork.take 2)).2
    let w := (run step (start emptyPool) salesAndFork).2
    let w' := (run step w [.execute "experiment" "DELETE", .snapshot .none "experiment"]).2
    (w.handles "experiment").map (fun child => memoryEngine.content child.kernel.conn) =
        some [6] ∧
      (opened.handles "sales").map (fun db => memoryEngine.content db.kernel.conn) = some [6] ∧
      Untouched "sales" w w' := by
  obtain ⟨-, hfork⟩ := fork_isolation (Memory.laws []) memoryEngine_laws
    (by decide : 0 < emptyPool.pageSize) (salesAndFork.take 2)
  obtain ⟨huntouched, -⟩ := fork_isolation (Memory.laws []) memoryEngine_laws
    (by decide : 0 < emptyPool.pageSize) salesAndFork
  obtain ⟨db', child, -, hchild, hcontent, -⟩ :=
    hfork .none .none "sales" "experiment" _ rfl rfl
  refine ⟨?_, rfl, ?_⟩
  · exact (congrArg (Option.map fun db => memoryEngine.content db.kernel.conn) hchild).trans
      (congrArg some hcontent)
  · refine huntouched _ "sales" (by decide) fun op hop => ?_
    rcases List.mem_cons.mp hop with rfl | hop
    · decide
    · rw [List.mem_singleton.mp hop]
      decide

end World

end FlockDb
