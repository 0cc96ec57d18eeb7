import FlockDb.Core.Durability
import FlockDb.Library.Worklist

/-!
# Waking a database, and what came along

A database that went to sleep is woken from what its sleep uploaded. The walk uploads what
can be reached from the head over parents and overlay bases. A snapshot that a restore moved
away from cannot be reached from there, although its id was still good before the sleep.
-/

namespace FlockDb

open Relation Runs Paging Worklist

variable {S : Substrate} {E : Engine}

/-- One manifest is another's overlay base or parent. -/
def Substrate.Edge (S : Substrate) (cas : S.Cas) (m m' : S.ManifestId) : Prop :=
  ∃ manifest, S.manifest cas m = .ok manifest ∧
    (manifest.overlayBase = some m' ∨ manifest.parent = some m')

/-- What the code relies on of `TieredStore::wake`, as the store it leaves: the manifests that
were uploaded are known and no others, one whose overlay chain was uploaded resolves, and the
pages that were uploaded are there. -/
structure Substrate.Wakes (S : Substrate) (wake : Uploaded S → S.Cas) : Prop where
  knows : ∀ {uploaded m manifest}, (m, manifest) ∈ uploaded.manifests →
    ∃ manifest', S.manifest (wake uploaded) m = .ok manifest'
  unknown : ∀ {uploaded m manifest}, S.manifest (wake uploaded) m = .ok manifest →
    (∃ manifest', (m, manifest') ∈ uploaded.manifests) ∨ ∃ pageSize, S.emptyRoot pageSize = .ok m
  resolves : ∀ {uploaded m manifest}, (m, manifest) ∈ uploaded.manifests →
    (∀ id edges base, (id, edges) ∈ uploaded.manifests → edges.overlayBase = some base →
      ∃ edges', (base, edges') ∈ uploaded.manifests) →
    S.resolve (wake uploaded) m = .ok (S.pageMap m)
  get : ∀ {uploaded page}, page ∈ uploaded.pages →
    S.get (wake uploaded) (S.pageHash page) = .ok page

/-- Which calls of a wake fail, besides the kernel's. -/
structure WakeFaults (S : Substrate) where
  createRoot : Option IoError
  wake : Option S.Error

/-- `Flock::wake_with`: a woken database has a store of its own, at the head it slept at. -/
def Flock.wakeWith (wake : Uploaded S → S.Cas) (env : Env S E) (faults : WakeFaults S)
    (root name : String) (uploaded : Uploaded S) (opts : KernelOpts) :
    Except (FlockError S E) (Db S E) :=
  match (validateName name : Except (FlockError S E) Unit) with
  | .error e => .error e
  | .ok () =>
    match faults.createRoot with
    | some source => .error (.pool "create cache root" root source)
    | none =>
      match faults.wake with
      | some source => .error (.tier "wake" source)
      | none =>
        let pager : Pager S := ⟨wake uploaded, uploaded.token.manifest, uploaded.token.pageSize⟩
        match DuckDbKernel.open (tieredHandle env.store env.nowMs) pager opts env.kernel with
        | .error source => .error (.kernel source)
        | .ok kernel => .ok ⟨name, .tiered pager, kernel, opts⟩

namespace Db

/-- What a walk has staged: it is a walk over edges, it staged what it has seen, and it knows
the pages of that. -/
structure Staging (cas : S.Cas) (root : S.ManifestId) (walk : Walk S)
    (stack : List S.ManifestId) : Prop where
  walking : Walking (S.Edge cas) root walk.seen stack
  staged_iff : ∀ m, (∃ manifest, (m, manifest) ∈ walk.manifests) ↔ m ∈ walk.seen
  manifest_eq : ∀ m manifest, (m, manifest) ∈ walk.manifests → S.manifest cas m = .ok manifest
  pages : ∀ m ∈ walk.seen, ∃ pages, S.resolve cas m = .ok pages ∧
    ∀ (p : PageNo) (id : S.PageId), pages[p]? = some id → id ∈ walk.pageIds

/-- The edges that the walk follows are the edges of the manifest. -/
theorem mem_walkEdges_iff {cas : S.Cas} {m m' : S.ManifestId} {manifest : Manifest S.ManifestId}
    (h : S.manifest cas m = .ok manifest) :
    m' ∈ manifest.parent.toList ++ manifest.overlayBase.toList ↔ S.Edge cas m m' := by
  rw [List.mem_append, Option.mem_toList, Option.mem_toList]
  constructor
  · intro hedge
    exact ⟨manifest, h, hedge.symm⟩
  · rintro ⟨manifest', hmanifest', hedge⟩
    obtain rfl : manifest = manifest' := Except.ok.inj (h.symm.trans hmanifest')
    exact hedge.symm

/-- A manifest is staged when the walk visits it. -/
theorem Staging.visit {cas : S.Cas} {root id : S.ManifestId} {walk : Walk S}
    {stack : List S.ManifestId} (h : Staging cas root walk (id :: stack))
    {manifest : Manifest S.ManifestId} (hmanifest : S.manifest cas id = .ok manifest)
    {pages : PageMap S.PageId} (hpages : S.resolve cas id = .ok pages) :
    Staging cas root
      { seen := id :: walk.seen
        manifests := walk.manifests ++ [(id, manifest)]
        pageIds := (walk.pageIds ++ pages.values).dedup } (walkEdges manifest stack) where
  walking := by
    have hvisit := h.walking.visit fun m' => mem_walkEdges_iff hmanifest
    exact hvisit
  staged_iff := by
    intro m
    rw [List.mem_cons, ← h.staged_iff m]
    constructor
    · rintro ⟨manifest', hmem⟩
      rcases List.mem_append.mp hmem with hold | hnew
      · exact .inr ⟨manifest', hold⟩
      · exact .inl (Prod.mk.inj (List.mem_singleton.mp hnew)).1
    · rintro (rfl | ⟨manifest', hold⟩)
      · exact ⟨manifest, List.mem_append_right _ (List.mem_singleton_self _)⟩
      · exact ⟨manifest', List.mem_append_left _ hold⟩
  manifest_eq := by
    intro m manifest' hmem
    rcases List.mem_append.mp hmem with hold | hnew
    · exact h.manifest_eq m manifest' hold
    · obtain ⟨rfl, rfl⟩ := Prod.mk.inj (List.mem_singleton.mp hnew)
      exact hmanifest
  pages := by
    intro m hm
    simp only [List.mem_dedup, List.mem_append]
    rcases List.mem_cons.mp hm with rfl | hold
    · exact ⟨pages, hpages, fun p pageId hp => .inr (Overlay.mem_values_iff.mpr ⟨p, hp⟩)⟩
    · obtain ⟨pages', hpages', hmem⟩ := h.pages m hold
      exact ⟨pages', hpages', fun p pageId hp => .inl (hmem p pageId hp)⟩

/-- A walk that is done has staged exactly what can be reached. -/
theorem walkAncestry_spec {faults : SleepFaults S} {cas : S.Cas} {root : S.ManifestId} {fuel : ℕ}
    {stack : List S.ManifestId} {walk result : Walk S} (h : Staging cas root walk stack)
    (hresult : (walkAncestry faults cas fuel stack walk :
      Except (FlockError S E) (Option (Walk S))) = .ok (some result)) :
    Staging cas root result [] := by
  induction fuel generalizing stack walk with
  | zero =>
    cases stack with
    | nil =>
      simp only [walkAncestry, Except.ok.injEq, Option.some.injEq] at hresult
      exact hresult ▸ h
    | cons id stack => simp [walkAncestry] at hresult
  | succ fuel ih =>
    cases stack with
    | nil =>
      simp only [walkAncestry, Except.ok.injEq, Option.some.injEq] at hresult
      exact hresult ▸ h
    | cons id stack =>
      rw [walkAncestry] at hresult
      split at hresult
      · next hseen =>
        exact ih ⟨h.walking.skip hseen, h.staged_iff, h.manifest_eq, h.pages⟩ hresult
      · cases hmanifest : S.manifest cas id with
        | error source => simp [hmanifest] at hresult
        | ok manifest =>
          simp only [hmanifest] at hresult
          cases hpages : S.resolve cas id with
          | error source => simp [hpages] at hresult
          | ok pages =>
            simp only [hpages] at hresult
            cases hput : faults.putManifest id with
            | some source => simp [hput] at hresult
            | none =>
              simp only [hput] at hresult
              exact ih (h.visit hmanifest hpages) hresult

/-- The pages that were staged are the pages of the store. -/
theorem stagePages_spec {faults : SleepFaults S} {cas : S.Cas} {ids : List S.PageId}
    {staged pages : List Bytes}
    (h : (stagePages faults cas ids staged : Except (FlockError S E) (List Bytes)) = .ok pages) :
    (∀ page ∈ staged, page ∈ pages) ∧ ∀ id ∈ ids, ∃ page ∈ pages, S.get cas id = .ok page := by
  induction ids generalizing staged with
  | nil =>
    obtain rfl := Except.ok.inj h
    simp
  | cons id ids ih =>
    rw [stagePages] at h
    cases hget : S.get cas id with
    | error source => simp [hget] at h
    | ok page =>
      simp only [hget] at h
      cases hput : faults.putPage id with
      | some source => simp [hput] at h
      | none =>
        simp only [hput] at h
        obtain ⟨hkept, hids⟩ := ih h
        refine ⟨fun page' hpage' => hkept page' (List.mem_append_left _ hpage'), ?_⟩
        rw [List.forall_mem_cons]
        exact ⟨⟨page, hkept page (List.mem_append_right _ (List.mem_singleton_self _)), hget⟩, hids⟩

/-- What a sleep uploads: exactly the manifests that can be reached from the head, and their
pages. -/
structure Carries (cas : S.Cas) (head : S.ManifestId) (uploaded : Uploaded S) : Prop where
  manifest_iff : ∀ m, (∃ manifest, (m, manifest) ∈ uploaded.manifests) ↔
    ReflTransGen (S.Edge cas) head m
  manifest_eq : ∀ m manifest, (m, manifest) ∈ uploaded.manifests → S.manifest cas m = .ok manifest
  pages : ∀ m, ReflTransGen (S.Edge cas) head m → ∃ pages, S.resolve cas m = .ok pages ∧
    ∀ (p : PageNo) (id : S.PageId), pages[p]? = some id →
      ∃ page ∈ uploaded.pages, S.get cas id = .ok page

/-- An upload that goes through carries what can be reached from the head. -/
theorem carries_of_upload {faults : SleepFaults S} {cas : S.Cas} {fuel : ℕ}
    {root remotePool : String} {pageSize : ℕ} {head : S.ManifestId} {uploaded : Uploaded S}
    (h : (upload faults cas fuel root remotePool pageSize head :
      Except (FlockError S E) (Option (Uploaded S))) = .ok (some uploaded)) :
    uploaded.token = ⟨remotePool, head, pageSize⟩ ∧ Carries cas head uploaded := by
  rw [upload] at h
  cases hstage : faults.stage with
  | some source => simp [hstage] at h
  | none =>
    simp only [hstage] at h
    cases hopen : faults.openStaging with
    | some source => simp [hopen] at h
    | none =>
      simp only [hopen] at h
      rcases hwalk : (walkAncestry faults cas fuel [head] ⟨[], [], []⟩ :
          Except (FlockError S E) (Option (Walk S))) with e | _ | walk
      · simp [hwalk] at h
      · simp [hwalk] at h
      · simp only [hwalk] at h
        rcases hpages : (stagePages faults cas walk.pageIds [] :
            Except (FlockError S E) (List Bytes)) with e | pages
        · simp [hpages] at h
        · simp only [hpages] at h
          cases hposition : faults.position with
          | some source => simp [hposition] at h
          | none =>
            simp only [hposition] at h
            cases hupload : faults.upload with
            | some source => simp [hupload] at h
            | none =>
              simp only [hupload] at h
              obtain rfl := Option.some.inj (Except.ok.inj h)
              have hstart : Staging cas head ⟨[], [], []⟩ [head] :=
                ⟨walking_start _ head, by simp, by simp, by simp⟩
              have hstaging := walkAncestry_spec hstart hwalk
              obtain ⟨-, hids⟩ := stagePages_spec hpages
              have hseen (m : S.ManifestId) : m ∈ walk.seen ↔ ReflTransGen (S.Edge cas) head m :=
                hstaging.walking.mem_seen_iff
              refine ⟨rfl, fun m => (hstaging.staged_iff m).trans (hseen m),
                hstaging.manifest_eq, fun m hreach => ?_⟩
              obtain ⟨pages', hresolve, hmem⟩ := hstaging.pages m ((hseen m).mpr hreach)
              exact ⟨pages', hresolve, fun p id hp => hids id (hmem p id hp)⟩

/-- A manifest that came along is there after the wake, with its pages. -/
theorem Carries.holds (hS : S.ContentAddressed) {wake : Uploaded S → S.Cas}
    (hwake : S.Wakes wake) {cas : S.Cas} {head m : S.ManifestId} {uploaded : Uploaded S}
    (h : Carries cas head uploaded) (hreach : ReflTransGen (S.Edge cas) head m) :
    S.Holds (wake uploaded) m := by
  obtain ⟨manifest, hmanifest⟩ := (h.manifest_iff m).mpr hreach
  refine ⟨hwake.resolves hmanifest fun id edges base hid hbase => ?_, fun {p pageId} hp => ?_⟩
  · have hedge : S.Edge cas id base := ⟨edges, h.manifest_eq id edges hid, .inl hbase⟩
    exact (h.manifest_iff base).mpr (((h.manifest_iff id).mp ⟨edges, hid⟩).tail hedge)
  · obtain ⟨pages, hresolve, hpages⟩ := h.pages m hreach
    rw [← hS.eq_pageMap_of_resolve hresolve] at hp
    obtain ⟨page, hpage, hget⟩ := hpages p pageId hp
    rw [← hS.pageHash_of_get hget]
    exact ⟨page, hwake.get hpage⟩

/-- A sleep that goes through carries what can be reached from the snapshot that it takes. -/
theorem carries_of_sleep (hS : S.Laws) {env : Env S E} {faults : SleepFaults S} {fuel : ℕ}
    {db : Db S E} {pool pool' : Pool S} {remotePool : String} {uploaded : Uploaded S}
    (hlocal : db.Local)
    (h : db.sleep env faults fuel pool remotePool = (.ok (some uploaded), pool')) :
    ∃ head, (db.snapshot env pool).1 = .ok head ∧
      uploaded.token = ⟨remotePool, head, pool.pageSize⟩ ∧
      Carries (db.snapshot env pool).2.2.cas head uploaded := by
  obtain ⟨hbeside, -, hlocal'⟩ := beside_snapshot hS env db pool
  rw [sleep] at h
  rcases hsnapshot : db.snapshot env pool with ⟨e | head, db₁, pool₁⟩
  · simp [hsnapshot] at h
  · rw [hsnapshot] at hbeside hlocal'
    obtain ⟨head', hlocal₁⟩ := hlocal' hlocal
    have hstore : db₁.store = .local head' := hlocal₁
    have hsize : pool₁.pageSize = pool.pageSize := hbeside.pageSize_eq
    simp only [hsnapshot, hstore, Prod.mk.injEq] at h
    obtain ⟨htoken, hcarries⟩ := carries_of_upload h.1
    rw [hsize] at htoken
    exact ⟨head, rfl, htoken, hcarries⟩

/-- The store of a woken database. -/
theorem store_of_wakeWith {wake : Uploaded S → S.Cas} {env : Env S E} {faults : WakeFaults S}
    {root name : String} {uploaded : Uploaded S} {opts : KernelOpts} {db : Db S E}
    (h : Flock.wakeWith wake env faults root name uploaded opts = .ok db) :
    db.store = .tiered ⟨wake uploaded, uploaded.token.manifest, uploaded.token.pageSize⟩ := by
  rw [Flock.wakeWith] at h
  cases hname : (validateName name : Except (FlockError S E) Unit) with
  | error e => simp [hname] at h
  | ok _ =>
    simp only [hname] at h
    cases hroot : faults.createRoot with
    | some source => simp [hroot] at h
    | none =>
      simp only [hroot] at h
      cases hwake : faults.wake with
      | some source => simp [hwake] at h
      | none =>
        simp only [hwake] at h
        cases hkernel : (DuckDbKernel.open (tieredHandle env.store env.nowMs)
            ⟨wake uploaded, uploaded.token.manifest, uploaded.token.pageSize⟩ opts env.kernel :
            Except (KernelError S E.Error) (DuckDbKernel E)) with
        | error source => simp [hkernel] at h
        | ok kernel =>
          simp only [hkernel] at h
          obtain rfl := Except.ok.inj h
          rfl

/-- `restore` accepts an id: the store knows it and moves its head to it. -/
def Accepts (db : Db S E) (pool : Pool S) (m : S.ManifestId) : Prop :=
  (db.rewindTo .none pool m).1 = .ok ()

/-- A woken database knows what it accepts. -/
theorem known_of_accepts {db : Db S E} {pager : Pager S} (hstore : db.store = .tiered pager)
    {pool : Pool S} {m : S.ManifestId} (h : db.Accepts pool m) :
    ∃ manifest, S.manifest pager.cas m = .ok manifest := by
  simp only [Accepts, rewindTo, hstore] at h
  cases hmanifest : S.manifest pager.cas m with
  | error e => simp [hmanifest] at h
  | ok manifest => exact ⟨manifest, rfl⟩

/-- A database gives a snapshot back: it accepts the id, all its pages are there, and a
restore that returns leaves the state it named. -/
structure GivesBack (db : Db S E) (pool : Pool S) (m : S.ManifestId) (content : E.Content) :
    Prop where
  accepts : db.Accepts pool m
  holds : S.Holds (db.store.cas pool) m
  state : ∀ env db' pool', db.restore env pool m = (.ok (), db', pool') →
    db'.head = m ∧ E.content db'.kernel.conn = content

/-- A store that holds a manifest has the pages that another store has for it. -/
theorem stores_of_holds (hS : S.ContentAddressed) {cas cas' : S.Cas} {m : S.ManifestId}
    {contents : Contents} (h : S.Stores cas m contents) (hholds : S.Holds cas' m) :
    S.Stores cas' m contents := by
  obtain ⟨pages, hresolve, hpages⟩ := h
  obtain rfl := hS.eq_pageMap_of_resolve hresolve
  refine ⟨S.pageMap m, hholds.resolve, fun p => ⟨(hpages p).1, fun bytes hbytes => ?_⟩⟩
  exact (hS.read_ok_iff_names hholds p bytes).mpr (hS.names_of_read ((hpages p).2 bytes hbytes))

/-- A woken database whose store holds a captured manifest gives it back. -/
theorem givesBack_of_holds (hS : S.Laws) (hP : S.Positions) {db : Db S E} {pager : Pager S}
    (hstore : db.store = .tiered pager) {pool : Pool S} (hsize : 0 < pool.pageSize)
    (hpageSize : pager.pageSize = pool.pageSize) {m : S.ManifestId} {file : ByteVec}
    {content : E.Content} (hcaptures : Captures pool m file content)
    (hknown : ∃ manifest, S.manifest pager.cas m = .ok manifest)
    (hholds : S.Holds pager.cas m) (cache : Pool S) : GivesBack db cache m content := by
  obtain ⟨manifest, hmanifest⟩ := hknown
  have hrewind : S.rewind pager.cas m = .ok () := hP.rewind_ok hholds.resolve
  have hnotLocal : ¬db.Local := by
    rintro ⟨head, hlocal⟩
    rw [hstore] at hlocal
    cases hlocal
  refine ⟨?_, by rwa [hstore], fun env db' cache' hrestore => ?_⟩
  · simp [Accepts, rewindTo, hstore, hmanifest, Pager.rewind, hrewind, Env.none]
  · rw [restore] at hrestore
    rcases rewindTo_cases hS.toRecovers env (fun hlocal => absurd hlocal hnotLocal) m with
      ⟨-, e, hmoved⟩ | ⟨-, pool', -, -, ⟨hnot, -, -⟩ | ⟨-, -, hmoved⟩⟩
    · rw [hmoved] at hrestore
      cases hrestore
    · exact absurd (fun hlocal => absurd hlocal hnotLocal) hnot
    · simp only [hmoved, hstore, Store.movedTo, Store.openKernel] at hrestore
      have hreads : (tieredHandle env.store env.nowMs).Reads { pager with head := m } m
          (chunkMap pager.pageSize file) := by
        rw [hpageSize]
        exact stores_of_holds hS.toContentAddressed hcaptures.stores hholds
      have hsize' : 0 < pager.pageSize := by rwa [hpageSize]
      have hopen : (DuckDbKernel.open (tieredHandle env.store env.nowMs) { pager with head := m }
          db.opts env.kernel : Except (KernelError S E.Error) (DuckDbKernel E)) =
            DuckDbKernel.openFile db.opts env.kernel file.bytes :=
        DuckDbKernel.open_eq hsize' hreads hcaptures.ne_nil db.opts env.kernel
      rw [hopen] at hrestore
      cases hkernel : (DuckDbKernel.openFile db.opts env.kernel file.bytes :
          Except (KernelError S E.Error) (DuckDbKernel E)) with
      | error source =>
        rw [hkernel] at hrestore
        cases hrestore
      | ok kernel =>
        rw [hkernel] at hrestore
        obtain ⟨config, hconn⟩ := DuckDbKernel.openWithFlags_of_openFile hkernel
        cases hrestore
        exact ⟨rfl, hcaptures.content_eq config kernel.conn hconn⟩

end Db

namespace World

/-- `snapshot()` of a database returned an id in the run, when the database had some content. -/
def SnapshotReturned (pool : Pool S) (ops : List (Op S E)) (name : String) (m : S.ManifestId)
    (content : E.Content) : Prop :=
  ∃ before env after db, ops = before ++ .snapshot env name :: after ∧
    (run step (start pool) before).2.handles name = some db ∧
    (db.snapshot env (run step (start pool) before).2.pool).1 = .ok m ∧
    E.content db.kernel.conn = content

/-- What a snapshot returned in a run is captured at its end. -/
theorem captures_of_returned (hS : S.Laws) (hE : E.Laws) {pool : Pool S} {ops : List (Op S E)}
    {name : String} {m : S.ManifestId} {content : E.Content}
    (h : SnapshotReturned pool ops name m content) :
    ∃ file, Captures (run step (start pool) ops).2.pool m file content := by
  obtain ⟨before, env, after, db, rfl, hdb, hok, rfl⟩ := h
  have hfiled : Filed (run step (start (E := E) pool) before).2 :=
    filed_run hS (filed_start pool) before
  have hsnapshot : (run step (start pool) before).2.snapshotOf env name =
      some (m, E.content db.kernel.conn) := by
    rw [snapshotOf_eq hdb, hok]
    rfl
  obtain ⟨file, hcaptures⟩ := captures_of_snapshotOf hS hE hfiled hdb hsnapshot
  refine ⟨file, ?_⟩
  rw [run_append, run_cons]
  have hstep : ((run step (start pool) before).2.step (.snapshot env name)).2.pool =
      (db.snapshot env (run step (start pool) before).2.pool).2.2 := by
    simp only [step, onHandle, hdb]
    rfl
  have honward := onward_run hS
    ((run step (start pool) before).2.step (.snapshot env name)).2 after
  rw [← hstep] at hcaptures
  exact hcaptures.grows hS.toContentAddressed honward.pageSize_eq honward.grows

/-- **What survives a sleep.** After any run on a pool, a sleep and a wake elsewhere, every
snapshot id that was returned in the run and was good before the sleep is given back exactly
if each of them can be reached, over parents and overlay bases, from the snapshot that the
sleep takes. -/
theorem survives_iff (hS : S.Laws) (hP : S.Positions) (hE : E.Laws) {wake : Uploaded S → S.Cas}
    (hwake : S.Wakes wake) {pool : Pool S} (hsize : 0 < pool.pageSize) (ops : List (Op S E))
    {name : String} {db : Db S E} (hdb : (run step (start pool) ops).2.handles name = some db)
    {env : Env S E} {faults : SleepFaults S} {fuel : ℕ} {remotePool : String}
    {uploaded : Uploaded S} {left : Pool S}
    (hslept : db.sleep env faults fuel (run step (start pool) ops).2.pool remotePool =
      (.ok (some uploaded), left))
    {wakeEnv : Env S E} {wakeFaults : WakeFaults S} {root name' : String} {opts : KernelOpts}
    {woken : Db S E}
    (hwoken : Flock.wakeWith wake wakeEnv wakeFaults root name' uploaded opts = .ok woken)
    (cache : Pool S) :
    (∀ m content, SnapshotReturned pool ops name m content →
        db.Accepts (run step (start pool) ops).2.pool m → woken.GivesBack cache m content) ↔
      ∀ m content, SnapshotReturned pool ops name m content →
        db.Accepts (run step (start pool) ops).2.pool m →
          ∀ head, (db.snapshot env (run step (start pool) ops).2.pool).1 = .ok head →
            ReflTransGen
              (S.Edge (db.snapshot env (run step (start pool) ops).2.pool).2.2.cas) head m := by
  have hsize' : 0 < (run step (start pool) ops).2.pool.pageSize := by
    rw [(onward_run hS (start pool) ops).pageSize_eq]
    exact hsize
  obtain ⟨-, hlocal, -⟩ := filed_run hS (filed_start pool) ops name db hdb
  obtain ⟨head, hhead, htoken, hcarries⟩ := Db.carries_of_sleep hS hlocal hslept
  have hstore := Db.store_of_wakeWith hwoken
  refine forall₄_congr fun m content hreturned hgood => ?_
  obtain ⟨file, hcaptures⟩ := captures_of_returned hS hE hreturned
  constructor
  · intro hback head' hhead'
    obtain rfl : head = head' := Except.ok.inj (hhead.symm.trans hhead')
    obtain ⟨manifest, hmanifest⟩ := Db.known_of_accepts hstore hback.accepts
    rcases hwake.unknown hmanifest with hstaged | ⟨pageSize, hroot⟩
    · exact (hcarries.manifest_iff m).mp hstaged
    · exact absurd (hS.pageMap_emptyRoot hroot)
        (pageMap_ne_empty hS.toContentAddressed hsize' hcaptures.ne_nil hcaptures.stores)
  · intro hreach
    have hreach' := hreach head hhead
    obtain ⟨manifest, hmanifest⟩ := (hcarries.manifest_iff m).mpr hreach'
    refine Db.givesBack_of_holds hS hP hstore hsize' ?_ hcaptures (hwake.knows hmanifest)
      (hcarries.holds hS.toContentAddressed hwake hreach') cache
    rw [htoken]

end World

namespace Memory

/-- A woken in-memory store has what was uploaded. -/
def wake {frames : List (Record Bytes ManifestId)} (uploaded : Uploaded (memory frames)) : Cas :=
  ⟨uploaded.pages, uploaded.manifests.map Prod.fst⟩

/-- The in-memory substrate wakes what was uploaded. -/
theorem wakes (frames : List (Record Bytes ManifestId)) : (memory frames).Wakes wake where
  knows := by
    intro uploaded m manifest hmem
    have hstaged : m ∈ uploaded.manifests.map Prod.fst := List.mem_map_of_mem hmem
    refine ⟨⟨m.tail?, m.tail?⟩, ?_⟩
    change (resolve (wake uploaded) m).map _ = _
    unfold resolve
    rw [if_pos (.inr hstaged)]
    rfl
  unknown := by
    intro uploaded m manifest hmanifest
    change (resolve (wake uploaded) m).map _ = _ at hmanifest
    unfold resolve at hmanifest
    split at hmanifest
    · next hknown =>
      rcases hknown with rfl | hstaged
      · exact .inr ⟨0, rfl⟩
      · obtain ⟨⟨id, manifest'⟩, hmem, rfl⟩ := List.mem_map.mp hstaged
        exact .inl ⟨manifest', hmem⟩
    · cases hmanifest
  resolves := by
    intro uploaded m manifest hmem _
    have hstaged : m ∈ uploaded.manifests.map Prod.fst := List.mem_map_of_mem hmem
    exact if_pos (.inr hstaged)
  get := fun hpage => if_pos hpage

end Memory

namespace World

/-- The first snapshot of the run that takes two. -/
def firstSnapshot : Memory.ManifestId := [⟨[(0, some [0, 6])], 0⟩]

/-- A run that takes two snapshots and goes back to the first. -/
def backToFirst : List (Op (memory []) memoryEngine) :=
  Db.twoSnapshots ++ [.restore .none "sales" firstSnapshot]

/-- The plan under which every call of a sleep goes through. -/
def sleepFaults : SleepFaults (memory []) :=
  ⟨none, none, fun _ => none, fun _ => none, none, none⟩

/-- The database of that run goes to sleep and wakes elsewhere. -/
def Wakes (db woken : Db (memory []) memoryEngine) : Prop :=
  (run step (start emptyPool) backToFirst).2.handles "sales" = some db ∧ ∃ uploaded left,
    db.sleep .none sleepFaults 9 (run step (start emptyPool) backToFirst).2.pool "bucket" =
        (.ok (some uploaded), left) ∧
      Flock.wakeWith Memory.wake .none ⟨none, none⟩ "/cache" "sales" uploaded noOpts = .ok woken

/-- A run, a sleep and a wake in memory: what is given back is what can be reached. -/
theorem survives_sales : ∃ db woken, Wakes db woken ∧
    ((∀ m content, SnapshotReturned emptyPool backToFirst "sales" m content →
        db.Accepts (run step (start emptyPool) backToFirst).2.pool m →
          woken.GivesBack emptyPool m content) ↔
      ∀ m content, SnapshotReturned (E := memoryEngine) emptyPool backToFirst "sales" m content →
        db.Accepts (run step (start emptyPool) backToFirst).2.pool m →
          ∀ head, (db.snapshot .none (run step (start emptyPool) backToFirst).2.pool).1 = .ok head →
            ReflTransGen ((memory []).Edge
              (db.snapshot .none (run step (start emptyPool) backToFirst).2.pool).2.2.cas)
              head m) := by
  obtain ⟨db, woken, hwakes⟩ : ∃ db woken, Wakes db woken := ⟨_, _, rfl, _, _, rfl, rfl⟩
  obtain ⟨hdb, uploaded, left, hslept, hwoken⟩ := id hwakes
  exact ⟨db, woken, hwakes, survives_iff (Memory.laws []) (Memory.positions []) memoryEngine_laws
    (Memory.wakes []) (by decide : 0 < emptyPool.pageSize) backToFirst hdb hslept hwoken emptyPool⟩

/-- The snapshot that the restore moved away from was good before the sleep, and is refused
after it. -/
theorem second_snapshot_is_lost : ∃ db woken m content, Wakes db woken ∧
    SnapshotReturned (E := memoryEngine) emptyPool backToFirst "sales" m content ∧
    db.Accepts (run step (start emptyPool) backToFirst).2.pool m ∧
    ¬woken.GivesBack emptyPool m content := by
  refine ⟨_, _, _, _, ⟨rfl, _, _, rfl, rfl⟩,
    ⟨Db.twoSnapshots.take 4, .none, [.restore .none "sales" firstSnapshot], _, rfl, rfl, rfl, rfl⟩,
    rfl, fun h => ?_⟩
  cases h.accepts

end World

end FlockDb
