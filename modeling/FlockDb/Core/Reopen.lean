import FlockDb.Core.Wake

/-!
# What opens again

Opening and restoring go through where nothing on the way fails: the name is valid, the log
is replayed, and the pages of the head make up a file that DuckDB opens. Whether they do
depends on the shared store alone, and a store that grows only opens more.
-/

namespace FlockDb

open Paging

variable {S : Substrate} {E : Engine}

/-- Every call goes through that opens a database or restores it. -/
structure Env.Clear (env : Env S E) : Prop where
  pool : env.pool = .none
  store : env.store = .none
  tempDir : env.kernel.tempDir = Option.none
  scratch : env.kernel.scratch.write = Option.none
  connect : env.kernel.connect = Option.none

/-- The environment in which every call goes through is clear. -/
theorem Env.clear_none : (Env.none : Env S E).Clear := ⟨rfl, rfl, rfl, rfl, rfl⟩

/-- The pages that a store has of a head make up a file, and this is a connection to it. -/
def HeadOpens (cas : S.Cas) (pageSize : ℕ) (m : S.ManifestId) (conn : E.Connection) : Prop :=
  DuckDbKernel.Hydrates (tieredHandle .none 0) (⟨cas, m, pageSize⟩ : Pager S) ⟨none, none⟩ m conn

namespace HeadOpens

/-- A store that grew opens what it did. -/
theorem grows (hS : S.ContentAddressed) {cas cas' : S.Cas} {pageSize : ℕ} {m : S.ManifestId}
    {conn : E.Connection} (h : HeadOpens cas pageSize m conn) (hgrows : S.Grows cas cas') :
    HeadOpens cas' pageSize m conn :=
  DuckDbKernel.Hydrates.mono h rfl (fun _ => hgrows.resolve) fun _ _ => hS.read_grows hgrows

/-- A store that has what another one resolves and reads at a head opens there as it does. -/
theorem of_reads {cas cas' : S.Cas} {pageSize : ℕ} {m : S.ManifestId} {conn : E.Connection}
    (h : HeadOpens cas pageSize m conn)
    (hresolve : ∀ pages, S.resolve cas m = .ok pages → S.resolve cas' m = .ok pages)
    (hread : ∀ p bytes, S.read cas m p = .ok bytes → S.read cas' m p = .ok bytes) :
    HeadOpens cas' pageSize m conn := DuckDbKernel.Hydrates.mono h rfl hresolve hread

/-- A head has one connection. -/
theorem unique {cas : S.Cas} {pageSize : ℕ} {m : S.ManifestId} {conn conn' : E.Connection}
    (h : HeadOpens cas pageSize m conn) (h' : HeadOpens cas pageSize m conn') : conn = conn' :=
  DuckDbKernel.Hydrates.unique h h'

/-- A head that opens resolves. -/
theorem resolve {cas : S.Cas} {pageSize : ℕ} {m : S.ManifestId} {conn : E.Connection}
    (h : HeadOpens cas pageSize m conn) : ∃ pages, S.resolve cas m = .ok pages := by
  obtain ⟨pages, file, path, built, hresolve, -⟩ := h
  exact ⟨pages, hresolve⟩

end HeadOpens

/-- A kernel that opened on a database of a pool opened its head. -/
theorem headOpens_of_openKernel {env : Env S E} {pool : Pool S} {name : String}
    {head : S.ManifestId} {kernel : DuckDbKernel E}
    (h : Store.openKernel env pool name ⟨none, none⟩ (.local head) = .ok kernel) :
    HeadOpens pool.cas pool.pageSize head kernel.conn :=
  DuckDbKernel.Hydrates.mono (DuckDbKernel.hydrates_of_open h) rfl (fun _ => id) fun _ _ => id

/-- A head that opens has a kernel, if nothing on the way fails. -/
theorem openKernel_of_headOpens {env : Env S E} (henv : env.Clear) {pool : Pool S} (name : String)
    {head : S.ManifestId} {conn : E.Connection}
    (h : HeadOpens pool.cas pool.pageSize head conn) :
    ∃ kernel : DuckDbKernel E,
      Store.openKernel env pool name ⟨none, none⟩ (.local head) = .ok kernel ∧
        kernel.conn = conn := by
  have hhydrates : DuckDbKernel.Hydrates (durableHandle env.store env.nowMs)
      (pool.durable name head) ⟨none, none⟩ head conn :=
    DuckDbKernel.Hydrates.mono h rfl (fun _ => id) fun _ _ => id
  exact DuckDbKernel.open_of_hydrates hhydrates henv.tempDir henv.scratch henv.connect

/-- A manifest whose pages are the chunks of a file opens, if the file does. -/
theorem headOpens_of_captures {pool : Pool S} {m : S.ManifestId} {file : ByteVec}
    {content : E.Content} (hsize : 0 < pool.pageSize) (h : Captures pool m file content)
    {conn : E.Connection} (hconn : E.openWithFlags (some file.bytes) E.defaultConfig = .ok conn) :
    HeadOpens pool.cas pool.pageSize m conn := by
  have hreads : (tieredHandle .none 0 : PageStore S (Pager S)).Reads ⟨pool.cas, m, pool.pageSize⟩ m
      (chunkMap pool.pageSize file) := h.stores
  have hopen := @DuckDbKernel.open_eq S E (Pager S) (tieredHandle .none 0)
    ⟨pool.cas, m, pool.pageSize⟩ file hsize hreads h.ne_nil ⟨none, none⟩ .none
  have hfile : (DuckDbKernel.openFile ⟨none, none⟩ .none file.bytes :
      Except (KernelError S E.Error) (DuckDbKernel E)) = .ok ⟨conn, "/tmp/flock.duckdb"⟩ := by
    simp only [DuckDbKernel.openFile, KernelFaults.none, ScratchFaults.none, DuckDbKernel.connect,
      DuckDbKernel.config, hconn]
    rfl
  exact DuckDbKernel.hydrates_of_open (hopen.trans hfile)

/-- A snapshot that is taken opens, with the content of the database at the call. -/
theorem headOpens_of_snapshot (hS : S.Laws) (hE : E.Laws) (hR : E.Reopens) {env : Env S E}
    {db db' : Db S E} {pool pool' : Pool S} {m : S.ManifestId} (hsize : 0 < pool'.pageSize)
    (hlocal : db.Local) (h : db.snapshot env pool = (.ok m, db', pool')) :
    ∃ conn : E.Connection, HeadOpens pool'.cas pool'.pageSize m conn ∧
      E.content conn = E.content db.kernel.conn := by
  obtain ⟨file, hmain, hcaptures⟩ := (snapshotted_of_ok hS hE hlocal h).captures
  obtain ⟨head, hstore⟩ := hlocal
  rw [Db.snapshot, hstore] at h
  simp only at h
  rcases hcheckpoint : db.kernel.checkpoint (durableHandle env.store env.nowMs) env.kernel
      (pool.durable db.name head) with ⟨source | m', kernel, store⟩
  all_goals
    rw [hcheckpoint] at h
    cases h
  obtain ⟨hbatch, hwal⟩ := DuckDbKernel.checkpoint_ok hcheckpoint
  obtain ⟨conn, hconn⟩ := hR.openWithFlags hbatch hwal hmain
  exact ⟨conn, headOpens_of_captures hsize hcaptures hconn, hcaptures.content_eq _ conn hconn⟩

/-- A woken database's head opened. -/
theorem headOpens_of_wakeWith {wake : Uploaded S → S.Cas} {env : Env S E} {faults : WakeFaults S}
    {root name : String} {uploaded : Uploaded S} {db : Db S E}
    (h : Flock.wakeWith wake env faults root name uploaded ⟨none, none⟩ = .ok db) :
    HeadOpens (wake uploaded) uploaded.token.pageSize uploaded.token.manifest db.kernel.conn ∧
      validateName (S := S) (E := E) name = .ok () := by
  rw [Flock.wakeWith] at h
  cases hname : (validateName name : Except (FlockError S E) Unit) with
  | error e => simp [hname] at h
  | ok _ =>
    simp only [hname] at h
    cases hroot : faults.createRoot with
    | some source => simp [hroot] at h
    | none =>
      simp only [hroot] at h
      cases hwake : faults.wake with
      | some source => simp [hwake] at h
      | none =>
        simp only [hwake] at h
        cases hkernel : (DuckDbKernel.open (tieredHandle env.store env.nowMs)
            ⟨wake uploaded, uploaded.token.manifest, uploaded.token.pageSize⟩ ⟨none, none⟩
            env.kernel : Except (KernelError S E.Error) (DuckDbKernel E)) with
        | error source => simp [hkernel] at h
        | ok kernel =>
          simp only [hkernel] at h
          obtain rfl := Except.ok.inj h
          exact ⟨DuckDbKernel.Hydrates.mono (DuckDbKernel.hydrates_of_open hkernel) rfl
            (fun _ => id) fun _ _ => id, rfl⟩

/-- A database is woken under a valid name, if its head opens and nothing on the way fails. -/
theorem wakeWith_of_headOpens {wake : Uploaded S → S.Cas} {env : Env S E} (henv : env.Clear)
    {faults : WakeFaults S} (hfaults : faults = ⟨none, none⟩) {root name : String}
    (hvalid : validateName (S := S) (E := E) name = .ok ()) {uploaded : Uploaded S}
    {conn : E.Connection}
    (h : HeadOpens (wake uploaded) uploaded.token.pageSize uploaded.token.manifest conn) :
    ∃ db : Db S E, Flock.wakeWith wake env faults root name uploaded ⟨none, none⟩ = .ok db := by
  let pager : Pager S := ⟨wake uploaded, uploaded.token.manifest, uploaded.token.pageSize⟩
  have hhydrates : DuckDbKernel.Hydrates (tieredHandle env.store env.nowMs) pager ⟨none, none⟩
      uploaded.token.manifest conn :=
    DuckDbKernel.Hydrates.mono h rfl (fun _ => id) fun _ _ => id
  obtain ⟨kernel, hkernel, -⟩ :=
    DuckDbKernel.open_of_hydrates hhydrates henv.tempDir henv.scratch henv.connect
  subst hfaults
  refine ⟨⟨name, .tiered pager, kernel, ⟨none, none⟩⟩, ?_⟩
  simp only [Flock.wakeWith, hvalid]
  simp only [pager] at hkernel ⊢
  rw [hkernel]

/-- The store of a database opens at the head that its log records, if nothing fails. -/
theorem openStore_of_clear (hS : S.Recovers) {env : Env S E} (henv : env.Clear) {pool : Pool S}
    (hroot : ∃ root, S.emptyRoot pool.pageSize = .ok root) (name openOp replayOp : String) :
    (openStore env pool name openOp replayOp).1 = .ok (pool.recoveredHead name) := by
  have hsame : openStore env pool name openOp replayOp =
      openStore (E := E) .none pool name openOp replayOp := by
    unfold openStore
    rw [henv.pool, henv.store]
    rfl
  rw [hsame]
  exact openStore_none_eq hS hroot name openOp replayOp

/-- **A database opens** under a valid name, if its head opens and nothing on the way fails. -/
theorem openWith_of_headOpens (hS : S.Laws) {env : Env S E} (henv : env.Clear) {pool : Pool S}
    {name : String} (hvalid : validateName (S := S) (E := E) name = .ok ())
    (hroot : ∃ root, S.emptyRoot pool.pageSize = .ok root) {conn : E.Connection}
    (hopens : HeadOpens pool.cas pool.pageSize (pool.recoveredHead name) conn) :
    ∃ kernel : DuckDbKernel E, (Flock.openWith env pool name ⟨none, none⟩).1 =
      .ok ⟨name, .local (pool.recoveredHead name), kernel, ⟨none, none⟩⟩ ∧ kernel.conn = conn := by
  obtain ⟨hbeside, -⟩ := beside_openStore hS.toRecovers env pool name "open the durable store"
    "replay the log"
  have hok := openStore_of_clear hS.toRecovers henv hroot name "open the durable store"
    "replay the log"
  rw [Flock.openWith, hvalid]
  rcases hopened : openStore env pool name "open the durable store" "replay the log" with
    ⟨e | head, pool'⟩
  all_goals rw [hopened] at hbeside hok
  · cases hok
  · obtain rfl : head = pool.recoveredHead name := Except.ok.inj hok
    have hopens' : HeadOpens pool'.cas pool'.pageSize (pool.recoveredHead name) conn :=
      hbeside.pageSize_eq.symm ▸ hopens.grows hS.toContentAddressed hbeside.grows
    obtain ⟨kernel, hkernel, hconn⟩ := openKernel_of_headOpens henv name hopens'
    exact ⟨kernel, by simp only [hkernel], hconn⟩

/-- **A database of the pool is restored** to a manifest that the pool knows and opens, if
nothing on the way fails. -/
theorem restore_of_headOpens (hS : S.Laws) (hP : S.Positions) {env : Env S E} (henv : env.Clear)
    (db : Db S E) {head : S.ManifestId} (hstore : db.store = .local head)
    (hopts : db.opts = ⟨none, none⟩) {pool : Pool S} (hexists : (pool.dbs db.name).isSome)
    {m : S.ManifestId} {conn : E.Connection} (hopens : HeadOpens pool.cas pool.pageSize m conn)
    (hknown : ∃ edges, S.manifest pool.cas m = .ok edges) :
    (db.restore env pool m).1 = .ok () ∧
      (db.restore env pool m).2.2.recoveredHead db.name = m := by
  have hlocal : db.Local := ⟨head, hstore⟩
  obtain ⟨edges, hmanifest⟩ := hknown
  obtain ⟨pages, hresolve⟩ := hopens.resolve
  have hstands : ¬Db.RefusesRewind env db pool m := by
    rintro (⟨e, he⟩ | ⟨e, he⟩)
    · rw [hstore] at he
      have hrefused : S.manifest pool.cas m = .error e := he
      rw [hmanifest] at hrefused
      cases hrefused
    · rw [hstore, henv.store, Faults.guard_none] at he
      have hrefused : S.rewind pool.cas m = .error e := he
      rw [hP.rewind_ok hresolve] at hrefused
      cases hrefused
  have htakes : Db.TakesHead env db := fun _ => by rw [henv.store]; rfl
  rw [Db.restore]
  rcases Db.rewindTo_cases hS.toRecovers env (fun _ => hexists) m with
    ⟨hrefused, -⟩ | ⟨-, pool', hcas, hsize, ⟨hnot, -⟩ | ⟨-, hrecovered, hrewind⟩⟩
  · exact absurd hrefused hstands
  · exact absurd htakes hnot
  · rw [hrewind]
    have hopens' : HeadOpens pool'.cas pool'.pageSize m conn := by rwa [hcas, hsize]
    obtain ⟨kernel, hkernel, -⟩ := openKernel_of_headOpens henv db.name hopens'
    simp only [hstore, Store.movedTo, hopts, hkernel]
    exact ⟨trivial, hrecovered hlocal⟩

end FlockDb
