import FlockDb.Core.Reopen

/-!
# A database that stands

A database stands in its pool when the head that its log records opens. What is done to it
up to its sleep, and what is done to others, leaves it standing with the content that it had,
whichever call fails on the way. What its log recorded before opens as well, so that even a
part of the log is worth something.
-/

namespace FlockDb

open Paging

variable {S : Substrate} {E : Engine}

namespace Pool

/-- The head that a database's log records opens with this content. -/
def Stands (pool : Pool S) (name : String) (content : E.Content) : Prop :=
  ∃ conn : E.Connection, HeadOpens pool.cas pool.pageSize (pool.recoveredHead name) conn ∧
    E.content conn = content

/-- A database stands with one content. -/
theorem Stands.unique {pool : Pool S} {name : String} {content content' : E.Content}
    (h : pool.Stands (E := E) name content) (h' : pool.Stands (E := E) name content') :
    content = content' := by
  obtain ⟨conn, hopens, rfl⟩ := h
  obtain ⟨conn', hopens', rfl⟩ := h'
  rw [hopens.unique hopens']

/-- A database stands in a pool that grew, if its log records the head that it did. -/
theorem Stands.grows (hS : S.ContentAddressed) {pool pool' : Pool S} {name : String}
    {content : E.Content} (h : pool.Stands (E := E) name content)
    (hgrows : S.Grows pool.cas pool'.cas) (hsize : pool'.pageSize = pool.pageSize)
    (hhead : pool'.recoveredHead name = pool.recoveredHead name) :
    pool'.Stands (E := E) name content := by
  obtain ⟨conn, hopens, hcontent⟩ := h
  exact ⟨conn, hhead ▸ hsize ▸ hopens.grows hS hgrows, hcontent⟩

/-- A database stands while another one is worked on. -/
theorem Stands.beside (hS : S.ContentAddressed) {pool pool' : Pool S} {name other : String}
    {content : E.Content} (h : pool.Stands (E := E) name content)
    (hbeside : pool.Beside other pool') (hother : name ≠ other) :
    pool'.Stands (E := E) name content :=
  h.grows hS hbeside.grows hbeside.pageSize_eq (hbeside.recoveredHead_eq hother)

/-- A database stands whether or not it was opened. -/
theorem Stands.openWith (hS : S.Laws) {pool : Pool S} {name : String} {content : E.Content}
    (h : pool.Stands (E := E) name content) (env : Env S E) (opts : KernelOpts) :
    (Flock.openWith env pool name opts).2.Stands (E := E) name content := by
  obtain ⟨hbeside, -⟩ := Db.beside_openWith hS.toRecovers env pool name opts
  exact h.grows hS.toContentAddressed hbeside.grows hbeside.pageSize_eq
    (openWith_leaves_recoveredHead hS.toRecovers env pool name opts)

/-- A handle on a database that stands has its content, and the head that its log records. -/
theorem Stands.of_openWith (hS : S.Laws) {pool pool' : Pool S} {name : String}
    {content : E.Content} (h : pool.Stands (E := E) name content) {env : Env S E} {db : Db S E}
    (hopen : Flock.openWith env pool name ⟨none, none⟩ = (.ok db, pool')) :
    E.content db.kernel.conn = content ∧ db.store = .local (pool'.recoveredHead name) := by
  obtain ⟨conn, hopens, rfl⟩ := h
  obtain ⟨hstore, hbeside, hrecovered, hkernel⟩ := openWith_recoveredHead hS.toRecovers hopen
  have hopened : HeadOpens pool'.cas pool'.pageSize (pool.recoveredHead name) db.kernel.conn :=
    headOpens_of_openKernel hkernel
  have hgrown : HeadOpens pool'.cas pool'.pageSize (pool.recoveredHead name) conn :=
    hbeside.pageSize_eq.symm ▸ hopens.grows hS.toContentAddressed hbeside.grows
  exact ⟨congrArg E.content (hopened.unique hgrown), hrecovered.symm ▸ hstore⟩

/-- A database stands with its content whether or not a snapshot of it was taken. -/
theorem Stands.snapshot (hS : S.Laws) (hE : E.Laws) (hR : E.Reopens) {pool : Pool S}
    (hsize : 0 < pool.pageSize) {db : Db S E} {content : E.Content}
    (h : pool.Stands (E := E) db.name content) (hexists : (pool.dbs db.name).isSome)
    (hstore : db.store = .local (pool.recoveredHead db.name))
    (hcontent : E.content db.kernel.conn = content) (env : Env S E) :
    (db.snapshot env pool).2.2.Stands (E := E) db.name content := by
  obtain ⟨-, htaken, hrefused⟩ := Db.snapshot_recoveredHead hS hE env hexists hstore
  obtain ⟨hbeside, -⟩ := Db.beside_snapshot hS env db pool
  rcases hsnapshot : db.snapshot env pool with ⟨e | m, db', pool'⟩
  all_goals rw [hsnapshot] at htaken hrefused hbeside
  · exact h.grows hS.toContentAddressed hbeside.grows hbeside.pageSize_eq (hrefused e rfl)
  · have hsize' : 0 < pool'.pageSize := hbeside.pageSize_eq ▸ hsize
    obtain ⟨conn, hopens, hcaptured⟩ :=
      headOpens_of_snapshot hS hE hR hsize' ⟨_, hstore⟩ hsnapshot
    exact ⟨conn, (htaken m rfl).symm ▸ hopens, hcaptured.trans hcontent⟩

end Pool

/-- What the code relies on of a log directory, for which heads a log `records`: replaying a log
lands on one of them or on the empty root and leaves them, and a commit records its own. -/
structure Substrate.Records (S : Substrate) (records : S.Wal → S.ManifestId → Prop) : Prop where
  recovered : ∀ pageSize wal, records wal (S.recovered pageSize wal) ∨
    S.emptyRoot pageSize = .ok (S.recovered pageSize wal)
  recover : ∀ pageSize cas wal, records (S.recover pageSize cas wal).2.2 = records wal
  commit : ∀ {cas wal head txn now m}, records (S.commit cas wal head txn now).2.2 m →
    records wal m ∨ m = (S.commit cas wal head txn now).1
  freshWal : ∀ m, ¬records S.freshWal m

/-- Every head that the log of a database records opens. -/
def Pool.OpensRecorded (E : Engine) (records : S.Wal → S.ManifestId → Prop) (pool : Pool S)
    (name : String) : Prop :=
  ∀ m, records (pool.wal name) m →
    ∃ conn : E.Connection, HeadOpens pool.cas pool.pageSize m conn

namespace Pool.OpensRecorded

variable {records : S.Wal → S.ManifestId → Prop}

/-- What a log records opens in a pool that grew, as far as it was recorded before. -/
theorem grows (hS : S.ContentAddressed) {pool pool' : Pool S} {name : String}
    (h : pool.OpensRecorded E records name) (hgrows : S.Grows pool.cas pool'.cas)
    (hsize : pool'.pageSize = pool.pageSize)
    (hrecords : ∀ m, records (pool'.wal name) m → records (pool.wal name) m ∨
      ∃ conn : E.Connection, HeadOpens pool'.cas pool'.pageSize m conn) :
    pool'.OpensRecorded E records name := by
  intro m hm
  rcases hrecords m hm with hold | hopens
  · obtain ⟨conn, hopens⟩ := h m hold
    exact ⟨conn, hsize ▸ hopens.grows hS hgrows⟩
  · exact hopens

/-- Opening a database records nothing. -/
theorem openWith (hS : S.Laws) (hrec : S.Records records) {pool : Pool S} {name : String}
    (h : pool.OpensRecorded E records name) (env : Env S E) (opts : KernelOpts) :
    (Flock.openWith env pool name opts).2.OpensRecorded E records name := by
  obtain ⟨hbeside, -⟩ := Db.beside_openWith hS.toRecovers env pool name opts
  have hkept : records ((Flock.openWith env pool name opts).2.wal name) = records (pool.wal name) :=
    openWith_keeps (hrec.recover pool.pageSize) env name opts
  exact h.grows hS.toContentAddressed hbeside.grows hbeside.pageSize_eq fun m hm =>
    .inl (hkept ▸ hm)

/-- A commit through a durable handle records at most the head that it leaves. -/
theorem commit_records (hrec : S.Records records) (faults : Faults S) (nowMs : ℕ)
    (store : DurableStore S) (txn : S.Txn) {m : S.ManifestId}
    (hm : records ((durableHandle faults nowMs).commit store txn).2.wal m) :
    records store.wal m ∨ m = ((durableHandle faults nowMs).commit store txn).2.head := by
  rw [durableHandle_commit_snd, DurableStore.commit] at hm ⊢
  cases hfault : faults .commit with
  | some e =>
    simp only [hfault] at hm
    exact .inl hm
  | none =>
    simp only [hfault] at hm
    exact hrec.commit hm

/-- A checkpoint records at most the head that it leaves. -/
theorem checkpoint_records (hS : S.Laws) (hrec : S.Records records) (env : Env S E)
    (kernel : DuckDbKernel E) (store : DurableStore S) (m : S.ManifestId)
    (hm : records
      (kernel.checkpoint (durableHandle env.store env.nowMs) env.kernel store).2.2.wal m) :
    records store.wal m ∨
      m = (kernel.checkpoint (durableHandle env.store env.nowMs) env.kernel store).2.2.head := by
  have hrule := @DuckDbKernel.checkpoint_rule S E _ (durableHandle env.store env.nowMs)
    (fun st st' => st'.wal = st.wal)
    (fun st' => ∀ m, records st'.wal m → records store.wal m ∨ m = st'.head) (fun _ => rfl)
    (fun h h' => h'.trans h)
    (fun st txn p bytes => (DurableStore.write_grows hS.toStages env.store st txn p bytes).2.1)
    store (fun st' hwal m hm => .inl (hwal ▸ hm)) (fun st' txn hwal m hm => ?_) kernel env.kernel
  · exact hrule m hm
  · exact (commit_records hrec env.store env.nowMs st' txn hm).imp_left (hwal ▸ ·)

/-- A snapshot records at most the head that it leaves, which opens if the database stands. -/
theorem snapshot (hS : S.Laws) (hE : E.Laws) (hrec : S.Records records) {pool : Pool S}
    {db : Db S E} (h : pool.OpensRecorded E records db.name)
    (hexists : (pool.dbs db.name).isSome)
    (hstore : db.store = .local (pool.recoveredHead db.name)) (env : Env S E)
    {content : E.Content}
    (hstands : (db.snapshot env pool).2.2.Stands (E := E) db.name content) :
    (db.snapshot env pool).2.2.OpensRecorded E records db.name := by
  obtain ⟨hbeside, -⟩ := Db.beside_snapshot hS env db pool
  obtain ⟨hstore', -, -⟩ := Db.snapshot_recoveredHead hS hE env hexists hstore
  refine h.grows hS.toContentAddressed hbeside.grows hbeside.pageSize_eq fun m hm => ?_
  obtain ⟨conn, hopens, -⟩ := hstands
  have hrecorded := checkpoint_records hS hrec env db.kernel
    (pool.durable db.name (pool.recoveredHead db.name)) m
  have hleft : m = (db.snapshot env pool).2.2.recoveredHead db.name ∨
      records (pool.wal db.name) m := by
    rw [Db.snapshot, hstore] at hm hstore' ⊢
    rcases hcheckpoint : db.kernel.checkpoint (durableHandle env.store env.nowMs) env.kernel
        (pool.durable db.name (pool.recoveredHead db.name)) with ⟨e | m', kernel, store⟩
    all_goals
      simp only [hcheckpoint, Pool.wal_keep hexists] at hm hstore' hrecorded ⊢
      rw [← Store.local.inj hstore']
      exact (hrecorded hm).symm
  rcases hleft with rfl | hold
  · exact .inr ⟨conn, hopens⟩
  · exact .inl hold

end Pool.OpensRecorded

end FlockDb
