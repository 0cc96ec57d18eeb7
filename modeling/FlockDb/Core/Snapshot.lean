import FlockDb.Core.Frame

/-!
# What a snapshot and a fork carry

A snapshot names the chunks of the main file, and that file alone is the whole database.
A kernel that opens at a manifest of such chunks, in this database or in another one of the
pool, therefore has the content that was snapshotted.
-/

namespace FlockDb

open Paging

variable {S : Substrate} {E : Engine}

/-- A manifest whose pages, in a pool, are the chunks of a file, from which any kernel
that connects has some content. -/
structure Captures (pool : Pool S) (m : S.ManifestId) (file : ByteVec) (content : E.Content) :
    Prop where
  stores : S.Stores pool.cas m (chunkMap pool.pageSize file)
  ne_nil : file.bytes ≠ []
  content_eq : ∀ config conn, E.openWithFlags (some file.bytes) config = .ok conn →
    E.content conn = content

/-- A pool whose shared store grew still captures what it captured. -/
theorem Captures.grows (hS : S.ContentAddressed) {pool pool' : Pool S} {m : S.ManifestId}
    {file : ByteVec} {content : E.Content} (h : Captures pool m file content)
    (hsize : pool'.pageSize = pool.pageSize) (hgrows : S.Grows pool.cas pool'.cas) :
    Captures pool' m file content := by
  refine ⟨?_, h.ne_nil, h.content_eq⟩
  rw [hsize]
  exact h.stores.grows hS hgrows

/-- A pool that went on still captures what it captured. -/
theorem Captures.beside (hS : S.ContentAddressed) {pool pool' : Pool S} {name : String}
    {m : S.ManifestId} {file : ByteVec} {content : E.Content}
    (h : Captures pool m file content) (hbeside : pool.Beside name pool') :
    Captures pool' m file content :=
  h.grows hS hbeside.pageSize_eq hbeside.grows

/-- A kernel that opens at a captured manifest opens on its file. -/
theorem Captures.openKernel_eq {pool : Pool S} {m : S.ManifestId} {file : ByteVec}
    {content : E.Content} (h : Captures pool m file content) (hsize : 0 < pool.pageSize)
    (env : Env S E) (name : String) (opts : KernelOpts) :
    Store.openKernel env pool name opts (.local m) =
      DuckDbKernel.openFile opts env.kernel file.bytes :=
  DuckDbKernel.open_eq hsize (durableHandle_reads_iff.mpr h.stores) h.ne_nil opts env.kernel

/-- A kernel that opened at a captured manifest has the captured content. -/
theorem Captures.content_of_openKernel {pool : Pool S} {m : S.ManifestId} {file : ByteVec}
    {content : E.Content} (h : Captures pool m file content) (hsize : 0 < pool.pageSize)
    {env : Env S E} {name : String} {opts : KernelOpts} {kernel : DuckDbKernel E}
    (hopen : Store.openKernel env pool name opts (.local m) = .ok kernel) :
    E.content kernel.conn = content := by
  rw [h.openKernel_eq hsize] at hopen
  obtain ⟨config, hconn⟩ := DuckDbKernel.openWithFlags_of_openFile hopen
  exact h.content_eq config kernel.conn hconn

/-- What a snapshot of a database of the pool leaves, when it is taken. -/
structure Snapshotted (db db' : Db S E) (pool' : Pool S) (m : S.ManifestId) : Prop where
  name_eq : db'.name = db.name
  opts_eq : db'.opts = db.opts
  store_eq : db'.store = .local m
  content_eq : E.content db'.kernel.conn = E.content db.kernel.conn
  captures : ∃ file, E.mainFile db'.kernel.conn = .ok file ∧
    Captures pool' m file (E.content db.kernel.conn)

/-- A snapshot that is taken captures the content of the database at the call. -/
theorem snapshotted_of_ok (hS : S.Laws) (hE : E.Laws) {env : Env S E} {db db' : Db S E}
    {pool pool' : Pool S} {m : S.ManifestId} (hlocal : db.Local)
    (h : db.snapshot env pool = (.ok m, db', pool')) : Snapshotted db db' pool' m := by
  obtain ⟨head, hstore⟩ := hlocal
  rw [Db.snapshot, hstore] at h
  simp only at h
  rcases hcheckpoint : db.kernel.checkpoint (durableHandle env.store env.nowMs) env.kernel
      (pool.durable db.name head) with ⟨source | m', kernel, store⟩
  · rw [hcheckpoint] at h
    cases h
  · rw [hcheckpoint] at h
    rcases DuckDbKernel.checkpoint_spec hE (durableHandle_applies hS env.store env.nowMs)
        db.kernel env.kernel (pool.durable db.name head) hcheckpoint with
      ⟨e, herror, -⟩ | ⟨m'', file, hok, hsize, hpersisted⟩
    · cases herror
    · obtain rfl : m' = m'' := Except.ok.inj hok
      cases h
      have hhead : store.head = m := hpersisted.head_eq
      have hsize' : store.pager.pageSize = pool.pageSize := hsize
      have hreads : S.Stores store.pager.cas m (chunkMap store.pager.pageSize file) :=
        hpersisted.reads
      rw [hsize'] at hreads
      exact ⟨rfl, rfl, by rw [hhead], hpersisted.content_eq, file, hpersisted.main, hreads,
        hpersisted.ne_nil, hpersisted.content_open⟩

/-- A fork that goes on from a captured manifest, and returns, has the captured content. -/
theorem forkFrom_content (hS : S.Laws) {env : Env S E} {db child : Db S E} {pool : Pool S}
    {name : String} {m : S.ManifestId} {file : ByteVec} {content : E.Content}
    (hsize : 0 < pool.pageSize) (hcaptures : Captures pool m file content)
    (h : (Db.forkFrom env db pool name m).1 = .ok child) :
    E.content child.kernel.conn = content := by
  rw [Db.forkFrom] at h
  obtain ⟨hopen, -⟩ := beside_openStore hS.toRecovers env pool name
    "open the fork's durable store" "replay the fork's log"
  rcases hopened : openStore env pool name "open the fork's durable store"
      "replay the fork's log" with ⟨e | root, pool₁⟩
  · simp only [hopened] at h
    cases h
  · rw [hopened] at hopen
    have hposition := hopen.trans (Db.beside_positionFork env pool₁ name root m)
    simp only [hopened] at h
    rcases hpositioned : Db.positionFork env pool₁ name root m with ⟨e | ⟨⟩, pool₂⟩
    · simp only [hpositioned] at h
      cases h
    · rw [hpositioned] at hposition
      simp only [hpositioned] at h
      cases hkernel : Store.openKernel env pool₂ name db.opts (.local m) with
      | error source =>
        simp only [hkernel] at h
        cases h
      | ok kernel =>
        simp only [hkernel] at h
        cases h
        have hsize₂ : 0 < pool₂.pageSize := hposition.pageSize_eq ▸ hsize
        exact (hcaptures.beside hS.toContentAddressed hposition).content_of_openKernel hsize₂
          hkernel

end FlockDb
