import FlockDb.Core.Ancestry
import FlockDb.Core.Standing
import FlockDb.Kernel.Minimal

/-!
# A database at rest, and a store that was trimmed

A database is at rest when its head is a file that a `CHECKPOINT` left: one more snapshot commits
nothing and returns the head. A store is trimmed to a head when it has the overlay chain of the
head and the pages of the head and nothing else. What can be reached from the head otherwise,
over parents, survives that exactly if it is on the chain and has no page of its own.
-/

namespace FlockDb

open Relation Paging Worklist

variable {S : Substrate} {E : Engine}

namespace Substrate

/-- One manifest is another's overlay base. -/
def Base (S : Substrate) (cas : S.Cas) (m m' : S.ManifestId) : Prop :=
  ∃ manifest, S.manifest cas m = .ok manifest ∧ manifest.overlayBase = some m'

/-- What the code relies on of manifests: their ids name their edges, and what resolves is known. -/
structure Immutable (S : Substrate) : Prop where
  manifest_eq : ∀ {cas cas' m manifest manifest'}, S.manifest cas m = .ok manifest →
    S.manifest cas' m = .ok manifest' → manifest = manifest'
  known_of_resolve : ∀ {cas m pages}, S.resolve cas m = .ok pages →
    ∃ manifest, S.manifest cas m = .ok manifest

/-- A store knows a manifest and can resolve it. -/
def Resolves (S : Substrate) (cas : S.Cas) (m : S.ManifestId) : Prop :=
  (∃ manifest, S.manifest cas m = .ok manifest) ∧ ∃ pages, S.resolve cas m = .ok pages

variable {pageSize : ℕ} {cas cas' cas'' : S.Cas} {head m m' : S.ManifestId}

/-- An overlay base is an edge. -/
theorem Base.edge (h : S.Base cas m m') : S.Edge cas m m' := by
  obtain ⟨manifest, hmanifest, hbase⟩ := h
  exact ⟨manifest, hmanifest, .inl hbase⟩

/-- What is on the overlay chain of a head can be reached from it. -/
theorem reach_of_chain (h : ReflTransGen (S.Base cas) head m) :
    ReflTransGen (S.Edge cas) head m := by
  induction h with
  | refl => exact .refl
  | tail _ hbase ih => exact ih.tail hbase.edge

/-- Two stores that know a manifest know the same edges of it. -/
theorem Immutable.edges_iff (hI : S.Immutable)
    (h : ∃ manifest, S.manifest cas m = .ok manifest)
    (h' : ∃ manifest, S.manifest cas' m = .ok manifest) :
    (S.Edge cas m m' ↔ S.Edge cas' m m') ∧ (S.Base cas m m' ↔ S.Base cas' m m') := by
  obtain ⟨manifest, hmanifest⟩ := h
  obtain ⟨manifest', hmanifest'⟩ := h'
  obtain rfl := hI.manifest_eq hmanifest hmanifest'
  simp [Edge, Base, hmanifest, hmanifest']

/-- Two stores that know all that can be reached from a head in one of them reach the same from
it, and over the same chain. -/
theorem Immutable.reach_iff (hI : S.Immutable)
    (h : ∀ m, ReflTransGen (S.Edge cas) head m → ∃ manifest, S.manifest cas m = .ok manifest)
    (h' : ∀ m, ReflTransGen (S.Edge cas) head m → ∃ manifest, S.manifest cas' m = .ok manifest)
    (m : S.ManifestId) :
    (ReflTransGen (S.Edge cas) head m ↔ ReflTransGen (S.Edge cas') head m) ∧
      (ReflTransGen (S.Base cas) head m ↔ ReflTransGen (S.Base cas') head m) := by
  refine ⟨reach_congr (fun b hb c => ?_) m, reach_congr (fun b hb c => ?_) m⟩
  · exact (hI.edges_iff (h b hb) (h' b hb)).1
  · have hreach := reach_of_chain hb
    exact (hI.edges_iff (h b hreach) (h' b hreach)).2

/-- What a store of this page size has of a manifest that it knows: it is on the overlay chain of
the head, or it is the empty root. -/
def Kept (S : Substrate) (pageSize : ℕ) (cas : S.Cas) (head m : S.ManifestId) : Prop :=
  ReflTransGen (S.Base cas) head m ∨ S.emptyRoot pageSize = .ok m

/-- What a hydration of a head fetches of another store: the overlay chain of the head and the
pages of the head, and at most the empty root besides. -/
structure Hydrated (S : Substrate) (pageSize : ℕ) (cas : S.Cas) (head : S.ManifestId)
    (cas' : S.Cas) : Prop where
  kept : ∀ {m manifest}, S.manifest cas' m = .ok manifest → S.Kept pageSize cas head m
  chain : ∀ m, ReflTransGen (S.Base cas) head m → S.Resolves cas' m
  get : ∀ id, (∃ page, S.get cas' id = .ok page) ↔ ∃ p : PageNo, (S.pageMap head)[p]? = some id

/-- A store that was trimmed to a head of another one: it has what a hydration of the head
fetches, and the empty root. -/
structure Trimmed (S : Substrate) (pageSize : ℕ) (cas : S.Cas) (head : S.ManifestId)
    (cas' : S.Cas) : Prop extends S.Hydrated pageSize cas head cas' where
  root : ∀ m, S.emptyRoot pageSize = .ok m → S.Resolves cas' m

/-- What can be reached from a head is on its overlay chain, but for the empty root, and has no
page that the head does not have. -/
def SelfContained (S : Substrate) (pageSize : ℕ) (cas : S.Cas) (head : S.ManifestId) : Prop :=
  ∀ m, ReflTransGen (S.Edge cas) head m → S.Kept pageSize cas head m ∧
    ∀ (p : PageNo) (id : S.PageId), (S.pageMap m)[p]? = some id →
      ∃ q : PageNo, (S.pageMap head)[q]? = some id

/-- A trimmed store resolves what it keeps. -/
theorem Trimmed.resolves (h : S.Trimmed pageSize cas head cas') (hm : S.Kept pageSize cas head m) :
    S.Resolves cas' m := hm.elim (h.chain m) (h.root m)

/-- A trimmed store holds what it keeps if the pages of that are pages of the head. -/
theorem Trimmed.holds (hS : S.ContentAddressed) (h : S.Trimmed pageSize cas head cas')
    (hm : S.Kept pageSize cas head m)
    (hpages : ∀ (p : PageNo) (id : S.PageId), (S.pageMap m)[p]? = some id →
      ∃ q : PageNo, (S.pageMap head)[q]? = some id) : S.Holds cas' m := by
  refine ⟨?_, fun {p id} hp => (h.get id).mpr (hpages p id hp)⟩
  obtain ⟨-, pages, hresolve⟩ := h.resolves hm
  rwa [hS.eq_pageMap_of_resolve hresolve] at hresolve

/-- What can be reached from a head survives in the store that was trimmed to it exactly if the
head is self-contained. -/
theorem Trimmed.holds_iff (hS : S.ContentAddressed) (hI : S.Immutable)
    (h : S.Trimmed pageSize cas head cas') :
    (∀ m, ReflTransGen (S.Edge cas) head m → S.Holds cas' m) ↔
      S.SelfContained pageSize cas head := by
  refine forall₂_congr fun m _ => ⟨fun hholds => ⟨?_, fun p id hp => ?_⟩, fun hself => ?_⟩
  · obtain ⟨manifest, hmanifest⟩ := hI.known_of_resolve hholds.resolve
    exact h.kept hmanifest
  · exact (h.get id).mp (hholds.page hp)
  · exact h.holds hS hself.1 hself.2

/-- What a hydration fetches of one store it fetches of any other that knows as much of the
head. -/
theorem Hydrated.congr (hI : S.Immutable) (h : S.Hydrated pageSize cas head cas')
    (hknown : ∀ m, ReflTransGen (S.Edge cas'') head m →
      ∃ manifest, S.manifest cas'' m = .ok manifest)
    (hknown' : ∀ m, ReflTransGen (S.Edge cas'') head m →
      ∃ manifest, S.manifest cas m = .ok manifest) :
    S.Hydrated pageSize cas'' head cas' := by
  have hreach := hI.reach_iff hknown hknown'
  refine ⟨fun {m manifest} hmanifest => ?_, fun m hm => h.chain m ((hreach m).2.mp hm), h.get⟩
  exact (h.kept hmanifest).imp_left (hreach m).2.mpr

/-- A self-contained head that can be read is as much in the store that was trimmed to it. -/
theorem Trimmed.keeps (hS : S.ContentAddressed) (hI : S.Immutable)
    (h : S.Trimmed pageSize cas head cas') (hreadable : S.Readable cas head)
    (hself : S.SelfContained pageSize cas head) :
    (∀ m, ReflTransGen (S.Edge cas) head m ↔ ReflTransGen (S.Edge cas') head m) ∧
      S.Readable cas' head ∧ S.SelfContained pageSize cas' head := by
  have hreach := hI.reach_iff (fun m hm => (hreadable m hm).1) fun m hm =>
    (h.resolves (hself m hm).1).1
  refine ⟨fun m => (hreach m).1, fun m hm => ?_, fun m hm => ?_⟩
  · have hm' := (hreach m).1.mpr hm
    have hholds := (h.holds_iff hS hI).mpr hself m hm'
    exact ⟨(h.resolves (hself m hm').1).1, _, hholds.resolve, fun p id => hholds.page⟩
  · obtain ⟨hchain, hpages⟩ := hself m ((hreach m).1.mpr hm)
    exact ⟨hchain.imp_left (hreach m).2.mp, hpages⟩

/-- What can be read from a head can be read in a store that grew, and nothing else is reached. -/
theorem Readable.grows (hI : S.Immutable) (h : S.Readable cas head) (hgrows : S.Grows cas cas') :
    S.Readable cas' head ∧
      ∀ m, ReflTransGen (S.Edge cas) head m ↔ ReflTransGen (S.Edge cas') head m := by
  have hknown (m : S.ManifestId) (hm : ReflTransGen (S.Edge cas) head m) :
      ∃ manifest, S.manifest cas' m = .ok manifest := by
    obtain ⟨⟨manifest, hmanifest⟩, -⟩ := h m hm
    exact ⟨manifest, hgrows.manifest hmanifest⟩
  have hreach := hI.reach_iff (fun m hm => (h m hm).1) hknown
  refine ⟨fun m hm => ?_, fun m => (hreach m).1⟩
  have hm' := (hreach m).1.mpr hm
  obtain ⟨-, pages, hresolve, hpages⟩ := h m hm'
  refine ⟨hknown m hm', pages, hgrows.resolve hresolve, fun p id hp => ?_⟩
  obtain ⟨page, hget⟩ := hpages p id hp
  exact ⟨page, hgrows.get hget⟩

/-- A store with nothing in it but the empty root. -/
structure Emptied (S : Substrate) (pageSize : ℕ) (cas : S.Cas) : Prop where
  root : ∀ m, S.emptyRoot pageSize = .ok m → S.Resolves cas m
  manifest : ∀ {m manifest}, S.manifest cas m = .ok manifest → S.emptyRoot pageSize = .ok m
  get : ∀ id page, S.get cas id ≠ .ok page

end Substrate

/-- A file that a `CHECKPOINT` left, with no log beside it. -/
def Engine.Checkpointed (E : Engine) (file : ByteVec) : Prop :=
  ∃ conn conn', E.executeBatch conn "CHECKPOINT" = (.ok (), conn') ∧
    (E.walLen conn').getD 0 = 0 ∧ E.mainFile conn' = .ok file

/-- What the kernel relies on of DuckDB besides: a `CHECKPOINT` right after a file was opened that
another one left changes nothing on disk. -/
structure Engine.Settles (E : Engine) : Prop where
  checkpoint : ∀ {file config conn}, E.Checkpointed file →
    E.openWithFlags (some file.bytes) config = .ok conn →
    ∃ conn', E.executeBatch conn "CHECKPOINT" = (.ok (), conn') ∧
      (E.walLen conn').getD 0 = 0 ∧ E.mainFile conn' = .ok file

/-- Every call of a snapshot goes through. -/
structure Env.Saves (env : Env S E) : Prop where
  store : env.store = .none
  checkpoint : env.kernel.checkpoint = Option.none
  stat : env.kernel.stat = Option.none
  readMain : env.kernel.readMain = Option.none

/-- A database at rest: its log records a head, and the head is a file that a `CHECKPOINT` left. -/
structure Pool.AtRest (E : Engine) (pool : Pool S) (name : String) (head : S.ManifestId)
    (file : ByteVec) : Prop where
  dir : (pool.dbs name).isSome
  pageSize_pos : 0 < pool.pageSize
  recovered : pool.recoveredHead name = head
  stores : S.Stores pool.cas head (chunkMap pool.pageSize file)
  checkpointed : E.Checkpointed file

namespace Pool.AtRest

variable {pool pool' : Pool S} {name : String} {head : S.ManifestId} {file : ByteVec}

/-- A snapshot that is taken leaves its database at rest. -/
theorem of_snapshot (hS : S.Laws) (hE : E.Laws) {env : Env S E} {db db' : Db S E}
    (hsize : 0 < pool.pageSize) (hexists : (pool.dbs db.name).isSome)
    (hstore : db.store = .local (pool.recoveredHead db.name))
    (h : db.snapshot env pool = (.ok head, db', pool')) :
    ∃ file, pool'.AtRest E db.name head file := by
  obtain ⟨file, hmain, hcaptures⟩ := (snapshotted_of_ok hS hE ⟨_, hstore⟩ h).captures
  obtain ⟨-, htaken, -⟩ := Db.snapshot_recoveredHead hS hE env hexists hstore
  obtain ⟨hbeside, -⟩ := Db.beside_snapshot hS env db pool
  rw [h] at htaken hbeside
  have hchecked : E.Checkpointed file := by
    rw [Db.snapshot, hstore] at h
    simp only at h
    rcases hcheckpoint : db.kernel.checkpoint (durableHandle env.store env.nowMs) env.kernel
        (pool.durable db.name (pool.recoveredHead db.name)) with ⟨source | m, kernel, store⟩
    all_goals
      rw [hcheckpoint] at h
      cases h
    obtain ⟨hbatch, hwal⟩ := DuckDbKernel.checkpoint_ok hcheckpoint
    exact ⟨_, _, hbatch, hwal, hmain⟩
  exact ⟨file, hbeside.isSome hexists, hbeside.pageSize_eq ▸ hsize, htaken head rfl,
    hcaptures.stores, hchecked⟩

/-- A database is at rest in a pool that grew, if it is there and its log records what it did. -/
theorem grows (hS : S.ContentAddressed) (h : pool.AtRest E name head file)
    (hbeside : pool.Beside name pool')
    (hhead : pool'.recoveredHead name = pool.recoveredHead name) :
    pool'.AtRest E name head file where
  dir := hbeside.isSome h.dir
  pageSize_pos := hbeside.pageSize_eq ▸ h.pageSize_pos
  recovered := hhead.trans h.recovered
  stores := hbeside.pageSize_eq.symm ▸ h.stores.grows hS hbeside.grows
  checkpointed := h.checkpointed

/-- The file of a database at rest is not empty. -/
theorem ne_nil (hE : E.Laws) (h : pool.AtRest E name head file) : file.bytes ≠ [] := by
  obtain ⟨conn, conn', hbatch, -, hmain⟩ := h.checkpointed
  exact hE.mainFile_ne_nil hbatch hmain

/-- The head of a database at rest opens, on its file. -/
theorem headOpens (hE : E.Laws) (hR : E.Reopens) (h : pool.AtRest E name head file) :
    ∃ conn : E.Connection, HeadOpens pool.cas pool.pageSize head conn ∧
      E.openWithFlags (some file.bytes) E.defaultConfig = .ok conn := by
  obtain ⟨conn, conn', hbatch, hwal, hmain⟩ := h.checkpointed
  obtain ⟨opened, hopened⟩ := hR.openWithFlags hbatch hwal hmain
  have hcaptures : Captures pool head file (E.content conn') :=
    ⟨h.stores, h.ne_nil hE, fun config conn'' => hE.content_open hbatch hwal hmain⟩
  exact ⟨opened, headOpens_of_captures h.pageSize_pos hcaptures hopened, hopened⟩

/-- **A snapshot of a database at rest** commits nothing and returns its head. -/
theorem snapshot (hS : S.Laws) (hidles : S.Idles) (hT : E.Settles) {db : Db S E}
    (h : pool.AtRest E db.name head file) (hstore : db.store = .local head)
    {config : E.Config} (hconn : E.openWithFlags (some file.bytes) config = .ok db.kernel.conn)
    {env : Env S E} (henv : env.Saves) : (db.snapshot env pool).1 = .ok head := by
  obtain ⟨conn, hbatch, hwal, hmain⟩ := hT.checkpoint h.checkpointed hconn
  have hfold : (DuckDbKernel.foldWalIntoMainFile db.kernel env.kernel :
      Except (KernelError S E.Error) Unit × DuckDbKernel E) = (.ok (), ⟨conn, db.kernel.path⟩) := by
    simp only [DuckDbKernel.foldWalIntoMainFile, henv.checkpoint, DuckDbKernel.executeBatch, hbatch,
      henv.stat]
    cases hlen : E.walLen conn with
    | none => rfl
    | some len =>
      rw [hlen] at hwal
      obtain rfl : len = 0 := hwal
      rfl
  have hread : DuckDbKernel.readMain ⟨conn, db.kernel.path⟩ env.kernel = .ok file := by
    simp only [DuckDbKernel.readMain, henv.readMain, hmain]
  have hshares := durableHandle_shares hS hidles env.store env.nowMs
  have hreads : (durableHandle env.store env.nowMs).Reads (pool.durable db.name head) head
      (chunkMap pool.pageSize file) := durableHandle_reads_iff.mpr h.stores
  have hnever : (durableHandle (S := S) env.store env.nowMs).NeverFails :=
    henv.store ▸ durableHandle_neverFails env.nowMs
  obtain ⟨m, hm⟩ := persist_isOk (D := E.Error) hshares.toApplies hnever hreads db.kernel.path file
  rcases hpersist : (persist (durableHandle env.store env.nowMs) (pool.durable db.name head)
      db.kernel.path (.ok file) : Except (KernelError S E.Error) S.ManifestId × DurableStore S) with
    ⟨result, store⟩
  rw [hpersist] at hm
  subst hm
  obtain rfl : m = head := persist_again hshares rfl hreads hpersist
  simp only [Db.snapshot, hstore, DuckDbKernel.checkpoint, hfold, hread, hpersist]

/-- A database at rest is at rest after a snapshot. -/
theorem after_snapshot (hS : S.Laws) (hE : E.Laws) {db : Db S E}
    (h : pool.AtRest E db.name head file) (hstore : db.store = .local head) (env : Env S E)
    (hsnapshot : (db.snapshot env pool).1 = .ok head) :
    (db.snapshot env pool).2.2.AtRest E db.name head file := by
  obtain ⟨hbeside, -⟩ := Db.beside_snapshot hS env db pool
  have hstore' : db.store = .local (pool.recoveredHead db.name) := by rw [h.recovered, hstore]
  obtain ⟨-, htaken, -⟩ := Db.snapshot_recoveredHead hS hE env h.dir hstore'
  exact h.grows hS.toContentAddressed hbeside ((htaken head hsnapshot).trans h.recovered.symm)

end Pool.AtRest

namespace Db

/-- A walk is done once it had a step for each entry of its stack and two for each manifest that
can be reached and that it has not seen. -/
theorem walkAncestry_done_of_reached {faults : SleepFaults S} {cas : S.Cas} {root : S.ManifestId}
    {reached : Finset S.ManifestId} (hreached : ∀ m, ReflTransGen (S.Edge cas) root m → m ∈ reached)
    (fuel : ℕ) {stack : List S.ManifestId} {walk : Walk S}
    (hwalking : Walking (S.Edge cas) root walk.seen stack)
    (hfuel : 2 * unseen reached walk.seen + stack.length ≤ fuel) :
    (walkAncestry faults cas fuel stack walk :
      Except (FlockError S E) (Option (Walk S))) ≠ .ok none := by
  induction fuel generalizing stack walk with
  | zero =>
    cases stack with
    | nil =>
      rw [walkAncestry]
      simp
    | cons id stack =>
      rw [List.length_cons] at hfuel
      omega
  | succ fuel ih =>
    cases stack with
    | nil =>
      rw [walkAncestry]
      simp
    | cons id stack =>
      rw [List.length_cons] at hfuel
      rw [walkAncestry]
      by_cases hseen : id ∈ walk.seen
      · rw [if_pos hseen]
        exact ih (hwalking.skip hseen) (by omega)
      · rw [if_neg hseen]
        cases hmanifest : S.manifest cas id with
        | error source => simp
        | ok manifest =>
          simp only
          cases S.resolve cas id with
          | error source => simp
          | ok pages =>
            simp only
            cases faults.putManifest id with
            | some source => simp
            | none =>
              have hid := hreached id (hwalking.stack_reached id List.mem_cons_self)
              have hlt := unseen_cons_lt hid hseen
              have hparent : manifest.parent.toList.length ≤ 1 := by
                cases manifest.parent <;> simp
              have hbase : manifest.overlayBase.toList.length ≤ 1 := by
                cases manifest.overlayBase <;> simp
              have hvisit := hwalking.visit fun m' => mem_walkEdges_iff hmanifest
              refine ih hvisit ?_
              rw [walkEdges, List.length_append, List.length_append]
              simp only
              omega

/-- An upload goes through where everything that can be reached can be read, if its calls do and
the walk has steps enough. -/
theorem upload_of_readable {cas : S.Cas} {head : S.ManifestId} (hreadable : S.Readable cas head)
    {reached : Finset S.ManifestId} (hreached : ∀ m, ReflTransGen (S.Edge cas) head m → m ∈ reached)
    {fuel : ℕ} (hfuel : 2 * reached.card + 1 ≤ fuel) (root remotePool : String) (pageSize : ℕ) :
    ∃ uploaded, (upload .none cas fuel root remotePool pageSize head :
      Except (FlockError S E) (Option (Uploaded S))) = .ok (some uploaded) := by
  have hunseen : unseen reached [] = reached.card := by simp [unseen]
  have hdone : (walkAncestry .none cas fuel [head] ⟨[], [], []⟩ :
      Except (FlockError S E) (Option (Walk S))) ≠ .ok none := by
    refine walkAncestry_done_of_reached hreached fuel (walking_start _ head) ?_
    change 2 * unseen reached [] + 1 ≤ fuel
    omega
  obtain ⟨hok, herror⟩ := walkAncestry_rule (I := Thrifty cas head) (E := E) .none Thrifty.skip
    Thrifty.visit fuel (thrifty_start cas head)
  rcases hwalk : (walkAncestry .none cas fuel [head] ⟨[], [], []⟩ :
      Except (FlockError S E) (Option (Walk S))) with e | _ | walk
  · obtain ⟨id, stack, walk, hthrifty, hstuck⟩ := herror e hwalk
    exact absurd hstuck (not_stuck_of_readable hreadable
      (hthrifty.walking.stack_reached id List.mem_cons_self))
  · exact absurd hwalk hdone
  · have hthrifty := hok walk hwalk
    rcases upload_of_walk hwalk root remotePool pageSize with
      ⟨pages, hupload⟩ | ⟨e, -, hfaults | ⟨pageId, hpageId, source, herror⟩⟩
    · exact ⟨_, hupload⟩
    · exact absurd rfl hfaults
    · obtain ⟨m, hseen, pages, hresolve, p, hp⟩ := hthrifty.pageIds pageId hpageId
      obtain ⟨-, pages', hresolve', hpages⟩ :=
        hreadable m (hthrifty.walking.mem_seen_iff.mp hseen)
      obtain rfl : pages = pages' := Except.ok.inj (hresolve.symm.trans hresolve')
      obtain ⟨page, hget⟩ := hpages p pageId hp
      rw [hget] at herror
      cases herror

end Db

/-- Opening the store of a database whose log is a new one leaves the shared store. -/
theorem openStore_cas (hP : S.Positions) (env : Env S E) {pool : Pool S} {name : String}
    (hwal : pool.wal name = S.freshWal) (openOp replayOp : String) :
    (openStore env pool name openOp replayOp).2.cas = pool.cas := by
  obtain ⟨hlinkWal, hlinkCas⟩ := Pool.linkDbToSharedCas_kept (E := E) env.pool pool name
  rcases openStore_cases env pool name openOp replayOp with
    ⟨e, -, hopened⟩ | ⟨pool₁, hlinked, h⟩
  · rw [hopened]
    exact hlinkCas
  rw [hlinked] at hlinkWal hlinkCas
  obtain ⟨hopenWal, hopenCas⟩ := Pool.openDurable_kept env.store pool₁ name
  rcases h with ⟨e, -, hopened⟩ | ⟨root, pool₂, hdurable, h⟩
  · rw [hopened]
    exact hopenCas.trans hlinkCas
  rw [hdurable] at hopenWal hopenCas
  have hfresh : pool₂.wal name = S.freshWal := hopenWal.trans (hlinkWal.trans hwal)
  have hrecovered : (pool₂.recover env.store name root).2.cas = pool.cas := by
    rw [Pool.recover]
    cases env.store .recover with
    | some e => exact hopenCas.trans hlinkCas
    | none =>
      have hcas := hP.cas_recover_freshWal pool₂.pageSize pool₂.cas
      rw [← hfresh] at hcas
      exact hcas.trans (hopenCas.trans hlinkCas)
  rcases h with ⟨e, -, hopened⟩ | ⟨head, -, hopened⟩
  all_goals
    rw [hopened]
    exact hrecovered

/-- Opening a database whose log is a new one leaves the shared store. -/
theorem openWith_cas (hP : S.Positions) (env : Env S E) {pool : Pool S} {name : String}
    (hwal : pool.wal name = S.freshWal) (opts : KernelOpts) :
    (Flock.openWith env pool name opts).2.cas = pool.cas := by
  have hstore := openStore_cas hP env hwal "open the durable store" "replay the log"
  rw [Flock.openWith]
  cases validateName (S := S) (E := E) name with
  | error e => rfl
  | ok _ =>
    simp only
    rcases hopened : openStore env pool name "open the durable store" "replay the log" with
      ⟨e | head, pool₁⟩
    all_goals rw [hopened] at hstore
    · exact hstore
    · simp only
      cases Store.openKernel env pool₁ name opts (.local head) <;> exact hstore

/-- A restore leaves the shared store. -/
theorem Db.restore_cas (hS : S.Recovers) (env : Env S E) {db : Db S E} {pool : Pool S}
    (hexists : db.Local → (pool.dbs db.name).isSome) (m : S.ManifestId) :
    (db.restore env pool m).2.2.cas = pool.cas := by
  rw [restore]
  rcases rewindTo_cases hS env hexists m with
    ⟨-, e, hrewind⟩ | ⟨-, pool', hcas, -, ⟨-, -, e, hrewind⟩ | ⟨-, -, hrewind⟩⟩
  · rw [hrewind]
  · rw [hrewind]
    exact hcas
  · simp only [hrewind]
    cases (db.store.movedTo m).openKernel env pool' db.name db.opts <;> exact hcas

/-- A `CHECKPOINT` in memory changes nothing. -/
theorem memoryEngine_settles : memoryEngine.Settles where
  checkpoint := by
    rintro file config conn ⟨written, written', -, -, hmain⟩ hopen
    have hmain : MemoryEngine.toFile written' = .ok file := hmain
    have hopen : MemoryEngine.ofFile (some file.bytes) = .ok conn := hopen
    rw [MemoryEngine.bytes_of_toFile hmain] at hopen
    obtain rfl : written' = conn := Except.ok.inj hopen
    exact ⟨written', rfl, rfl, hmain⟩

namespace Memory

/-- A manifest in memory is known if it resolves, and its edges lead to the one before. -/
theorem manifest_eq_ok_iff {cas : Cas} {m : ManifestId} {edges : Manifest ManifestId} :
    manifest cas m = .ok edges ↔ (m = [] ∨ m ∈ cas.manifests) ∧ edges = ⟨m.tail?, m.tail?⟩ := by
  unfold manifest resolve
  by_cases hm : m = [] ∨ m ∈ cas.manifests
  · rw [if_pos hm]
    simp only [Except.map, Except.ok.injEq, hm, true_and]
    exact eq_comm
  · rw [if_neg hm]
    simp [Except.map, hm]

/-- A manifest in memory resolves if it is known. -/
theorem resolve_eq_ok_iff {cas : Cas} {m : ManifestId} {pages : PageMap Bytes} :
    resolve cas m = .ok pages ↔ (m = [] ∨ m ∈ cas.manifests) ∧ pages = pageMap m := by
  unfold resolve
  by_cases hm : m = [] ∨ m ∈ cas.manifests
  · rw [if_pos hm]
    simp only [Except.ok.injEq, hm, true_and]
    exact eq_comm
  · simp [hm]

/-- A page in memory is known under its own bytes. -/
theorem get_eq_ok_iff {cas : Cas} {id page : Bytes} :
    get cas id = .ok page ↔ id ∈ cas.pages ∧ page = id := by
  unfold get
  by_cases hid : id ∈ cas.pages
  · simp [hid, eq_comm]
  · simp [hid]

/-- Manifests in memory name their edges. -/
theorem immutable : (memory []).Immutable where
  manifest_eq := by
    intro cas cas' m edges edges' h h'
    obtain ⟨-, rfl⟩ := manifest_eq_ok_iff.mp h
    obtain ⟨-, rfl⟩ := manifest_eq_ok_iff.mp h'
    rfl
  known_of_resolve := by
    intro cas m pages h
    exact ⟨_, manifest_eq_ok_iff.mpr ⟨(resolve_eq_ok_iff.mp h).1, rfl⟩⟩

/-- The overlay chain in memory goes down the commits. -/
theorem suffix_of_chain {cas : Cas} {head m : ManifestId}
    (h : ReflTransGen ((memory []).Base cas) head m) : m <:+ head := by
  induction h with
  | refl => exact List.suffix_refl head
  | @tail m' m _ hbase ih =>
    obtain ⟨edges, hmanifest, hbase⟩ := hbase
    obtain ⟨-, rfl⟩ := manifest_eq_ok_iff.mp hmanifest
    cases m' with
    | nil => cases hbase
    | cons change base =>
      obtain rfl : base = m := Option.some.inj hbase
      exact (List.suffix_cons change base).trans ih

/-- All the commits below a head are on its overlay chain, if what can be reached is known. -/
theorem chain_of_suffix {cas : Cas} {head m : ManifestId}
    (hknown : ∀ m, ReflTransGen ((memory []).Edge cas) head m →
      ∃ edges, (memory []).manifest cas m = .ok edges) (h : m <:+ head) :
    ReflTransGen ((memory []).Base cas) head m := by
  induction head with
  | nil =>
    obtain rfl : m = [] := List.suffix_nil.mp h
    exact .refl
  | cons change head ih =>
    rcases List.suffix_cons_iff.mp h with rfl | hsuffix
    · exact .refl
    · obtain ⟨edges, hmanifest⟩ := hknown _ .refl
      obtain ⟨-, rfl⟩ := manifest_eq_ok_iff.mp hmanifest
      have hbase : (memory []).Base cas (change :: head) head := ⟨_, hmanifest, rfl⟩
      exact .head hbase (ih (fun m hm => hknown m (.head hbase.edge hm)) hsuffix)

/-- An empty store in memory is emptied. -/
theorem emptied (pageSize : ℕ) : (memory []).Emptied pageSize (⟨[], []⟩ : Cas) where
  root := by
    intro m hm
    obtain rfl : [] = m := Except.ok.inj hm
    exact ⟨⟨_, rfl⟩, _, rfl⟩
  manifest := by
    intro m edges hmanifest
    obtain ⟨rfl | hmem, -⟩ := manifest_eq_ok_iff.mp hmanifest
    · rfl
    · cases hmem
  get := by
    intro id page hget
    have hget : get ⟨[], []⟩ id = .ok page := hget
    cases (get_eq_ok_iff.mp hget).1

/-- What can be reached in memory is what is below. -/
theorem suffix_of_reach {cas : Cas} {head m : ManifestId}
    (h : ReflTransGen ((memory []).Edge cas) head m) : m <:+ head := by
  have hbase : ∀ a b, (memory []).Edge cas a b → (memory []).Base cas a b := by
    rintro a b ⟨edges, hmanifest, hedge⟩
    obtain ⟨-, rfl⟩ := manifest_eq_ok_iff.mp hmanifest
    exact ⟨_, hmanifest, hedge.elim id id⟩
  exact suffix_of_chain (ReflTransGen.mono hbase _ _ h)

/-- A head in memory can be read if all that is below it was stored, with its pages. -/
theorem readable_of_stored {cas : Cas} {head : ManifestId}
    (h : ∀ m ∈ head.tails, (m = [] ∨ m ∈ cas.manifests) ∧ (pageMap m).values ⊆ cas.pages) :
    (memory []).Readable cas head := by
  intro m hm
  obtain ⟨hknown, hpages⟩ := h m ((List.mem_tails m head).mpr (suffix_of_reach hm))
  refine ⟨⟨_, manifest_eq_ok_iff.mpr ⟨hknown, rfl⟩⟩, _, resolve_eq_ok_iff.mpr ⟨hknown, rfl⟩, ?_⟩
  exact fun p id hp => ⟨id, get_eq_ok_iff.mpr ⟨hpages (Overlay.mem_values_iff.mpr ⟨p, hp⟩), rfl⟩⟩

end Memory

end FlockDb
