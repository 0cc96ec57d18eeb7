import FlockDb.Core.Recorded
import FlockDb.Core.Trimmed
import FlockDb.Kernel.Mirror

/-!
# A woken database is the one that slept

A local database and a woken one differ in their store: one commits to its log and to a store that
its pool shares, the other to a tiered store of its own. Statements, queries, snapshots and restores
do not tell them apart. What a sleep uploaded, woken anywhere, goes on as the same database would
have that was opened again where it slept.
-/

namespace FlockDb

open Fallible Relation Runs

variable {S : Substrate} {E : Engine}

/-- Two pagers at one head, each with everything there is of it and of some other manifests. -/
structure Pager.Twin (known : List S.ManifestId) (pager pager' : Pager S) : Prop where
  head_eq : pager'.head = pager.head
  pageSize_eq : pager'.pageSize = pager.pageSize
  holds : ∀ m ∈ pager.head :: known, S.Holds pager.cas m ∧ S.Holds pager'.cas m

namespace Pager.Twin

variable {known : List S.ManifestId} {pager pager' : Pager S}

/-- Twins whose stores grew and whose heads stayed are twins. -/
theorem grown (h : Pager.Twin known pager pager') {grown grown' : Pager S}
    (hhead : grown.head = pager.head) (hhead' : grown'.head = pager'.head)
    (hsize : grown.pageSize = pager.pageSize) (hsize' : grown'.pageSize = pager'.pageSize)
    (hgrows : S.Grows pager.cas grown.cas) (hgrows' : S.Grows pager'.cas grown'.cas) :
    Pager.Twin known grown grown' where
  head_eq := hhead'.trans (h.head_eq.trans hhead.symm)
  pageSize_eq := hsize'.trans (h.pageSize_eq.trans hsize.symm)
  holds := by
    intro m hm
    rw [hhead] at hm
    obtain ⟨hholds, hholds'⟩ := h.holds m hm
    exact ⟨hholds.grows hgrows, hholds'.grows hgrows'⟩

/-- Twins have their head. -/
theorem learned (h : Pager.Twin known pager pager') :
    Pager.Twin (pager.head :: known) pager pager' := by
  refine ⟨h.head_eq, h.pageSize_eq, fun m hm => h.holds m ?_⟩
  rcases List.mem_cons.mp hm with rfl | hold
  · exact List.mem_cons_self
  · exact hold

/-- Twins that move to a manifest which both have are twins. -/
theorem moved (h : Pager.Twin known pager pager') {m : S.ManifestId} (hm : m ∈ known) :
    Pager.Twin known { pager with head := m } { pager' with head := m } where
  head_eq := rfl
  pageSize_eq := h.pageSize_eq
  holds := by
    intro m' hm'
    rcases List.mem_cons.mp hm' with rfl | hold
    · exact h.holds m' (List.mem_cons_of_mem _ hm)
    · exact h.holds m' (List.mem_cons_of_mem _ hold)

end Pager.Twin

/-- Twins with the same changes in a transaction, whose bytes both have. -/
def Pager.Staged (known : List S.ManifestId) (pager : Pager S) (txn : S.Txn) (pager' : Pager S)
    (txn' : S.Txn) : Prop :=
  Pager.Twin known pager pager' ∧
    ∃ edits, HoldsEdits pager txn edits ∧ HoldsEdits pager' txn' edits

/-- A commit leaves everything there is of the manifest that it makes. -/
theorem holds_committed (hS : S.ContentAddressed) {pager : Pager S} {txn : S.Txn} {edits : Edits}
    (hholds : S.Holds pager.cas pager.head) (hedits : HoldsEdits pager txn edits) {cas : S.Cas}
    {m : S.ManifestId} (hgrows : S.Grows pager.cas cas)
    (hresolve : S.resolve cas m =
      .ok (Overlay.overlay (S.pageMap pager.head) (S.staged txn))) : S.Holds cas m := by
  have hpages := hS.eq_pageMap_of_resolve hresolve
  refine ⟨hresolve.trans (congrArg Except.ok hpages), fun {p id} hp => ?_⟩
  rw [← hpages, Overlay.getElem?_overlay, hedits.staged p] at hp
  cases hedit : edits p with
  | none =>
    rw [hedit] at hp
    obtain ⟨bytes, hget⟩ := hholds.page hp
    exact ⟨bytes, hgrows.get hget⟩
  | some page =>
    rw [hedit] at hp
    cases page with
    | none => cases hp
    | some bytes =>
      obtain rfl : S.pageHash bytes = id := Option.some.inj hp
      exact ⟨bytes, hgrows.get (hedits.stored p bytes hedit)⟩

namespace Pager.Staged

variable {known : List S.ManifestId} {pager pager' : Pager S} {txn txn' : S.Txn}

/-- A transaction begins with no changes, on both or on neither. -/
theorem begin (hS : S.Stages) (h : Pager.Twin known pager pager') (faults : Faults S) :
    Alike (fun txn txn' => Pager.Staged known pager txn pager' txn') (pager.begin faults)
      (pager'.begin faults) := by
  have hempty (head : S.ManifestId) (pg : Pager S) : HoldsEdits pg (S.begin head) fun _ => none :=
    ⟨fun p => by simp [hS.staged_begin], fun p bytes hp => by cases hp⟩
  rw [Pager.begin, Pager.begin]
  cases hfault : faults .begin with
  | some e =>
    simp only [Faults.guard, hfault]
    exact .error e e
  | none =>
    simp only [Faults.guard, hfault]
    exact .ok ⟨h, _, hempty _ _, hempty _ _⟩

/-- A page is staged on both or on neither. -/
theorem write (hS : S.Stages) (h : Pager.Staged known pager txn pager' txn') (faults : Faults S)
    (p : PageNo) (bytes : Bytes) :
    Pager.Twin known (pager.write faults txn p bytes).2 (pager'.write faults txn' p bytes).2 ∧
      Alike (fun r r' => Pager.Staged known (pager.write faults txn p bytes).2 r.2
        (pager'.write faults txn' p bytes).2 r'.2)
        (pager.write faults txn p bytes).1 (pager'.write faults txn' p bytes).1 := by
  obtain ⟨htwin, edits, hedits, hedits'⟩ := h
  obtain ⟨hhead, hsize, hgrows, hok⟩ := holdsEdits_write hS hedits faults p bytes
  obtain ⟨hhead', hsize', hgrows', hok'⟩ := holdsEdits_write hS hedits' faults p bytes
  have htwin₁ := htwin.grown hhead hhead' hsize hsize' hgrows hgrows'
  refine ⟨htwin₁, ?_⟩
  have hwritten : (pager.write faults txn p bytes).1.toOption.isSome =
      (pager'.write faults txn' p bytes).1.toOption.isSome := by
    rw [Pager.write, Pager.write]
    cases faults (.write p) <;> rfl
  rcases hresult : (pager.write faults txn p bytes).1 with e | ⟨id, txn₁⟩
  all_goals
    rcases hresult' : (pager'.write faults txn' p bytes).1 with e' | ⟨id', txn₁'⟩
  all_goals rw [hresult, hresult'] at hwritten
  · exact .error e e'
  · cases hwritten
  · cases hwritten
  · exact .ok ⟨htwin₁, _, hok id txn₁ hresult, hok' id' txn₁' hresult'⟩

/-- A removal is staged on both or on neither. -/
theorem remove (hS : S.Stages) (h : Pager.Staged known pager txn pager' txn') (faults : Faults S)
    (p : PageNo) :
    Alike (fun t t' => Pager.Staged known pager t pager' t') (Pager.remove faults txn p)
      (Pager.remove faults txn' p) := by
  obtain ⟨htwin, edits, hedits, hedits'⟩ := h
  rw [Pager.remove, Pager.remove]
  cases hfault : faults (.remove p) with
  | some e =>
    simp only [Faults.guard, hfault]
    exact .error e e
  | none =>
    simp only [Faults.guard, hfault]
    exact .ok ⟨htwin, _, hedits.remove hS p, hedits'.remove hS p⟩

/-- A commit of the same changes goes through on both or on neither, and leaves twins. -/
theorem commit (hS : S.ContentAddressed) {σ τ : Type} {pagerOf : σ → Pager S}
    {pagerOf' : τ → Pager S} {st : σ} {st' : τ}
    (h : Pager.Staged known (pagerOf st) txn (pagerOf' st') txn')
    {result : Except S.Error S.ManifestId × σ} {result' : Except S.Error S.ManifestId × τ}
    (houtcome : CommitOutcome pagerOf st txn result)
    (houtcome' : CommitOutcome pagerOf' st' txn' result') (halike : Alike Eq result.1 result'.1) :
    Pager.Twin known (pagerOf result.2) (pagerOf' result'.2) := by
  obtain ⟨htwin, edits, hedits, hedits'⟩ := h
  cases houtcome with
  | refused e =>
    cases houtcome' with
    | refused e' => exact htwin
    | moved _ _ _ _ => cases halike
  | moved hhead hsize hgrows hresolve =>
    cases houtcome' with
    | refused e' => cases halike
    | moved hhead' hsize' hgrows' hresolve' =>
      cases halike with
      | ok heq =>
        obtain ⟨hholds, hholds'⟩ := htwin.holds _ List.mem_cons_self
        rw [← htwin.head_eq] at hholds'
        refine ⟨hhead'.trans (heq.symm.trans hhead.symm),
          hsize'.trans (htwin.pageSize_eq.trans hsize.symm), fun m hm => ?_⟩
        rcases List.mem_cons.mp hm with rfl | hold
        · have hmade := holds_committed hS hholds hedits hgrows (hresolve hholds.resolve)
          have hmade' := holds_committed hS hholds' hedits' hgrows' (hresolve' hholds'.resolve)
          rw [hhead]
          exact ⟨hmade, heq ▸ hmade'⟩
        · obtain ⟨hkept, hkept'⟩ := htwin.holds m (List.mem_cons_of_mem _ hold)
          exact ⟨hkept.grows hgrows, hkept'.grows hgrows'⟩

end Pager.Staged

/-- Two handles that delegate to their pagers mirror each other, if what they commit has the same
name. -/
theorem delegateToPager_mirrors (hS : S.Laws) {σ τ : Type} {pager : σ → Pager S}
    {setPager : σ → Pager S → σ} (hset : ∀ st pg, pager (setPager st pg) = pg)
    {pager' : τ → Pager S} {setPager' : τ → Pager S → τ}
    (hset' : ∀ st pg, pager' (setPager' st pg) = pg) (known : List S.ManifestId)
    (faults : Faults S) {commit : σ → S.Txn → Except S.Error S.ManifestId × σ}
    {commit' : τ → S.Txn → Except S.Error S.ManifestId × τ}
    (hcommit : ∀ st txn, CommitOutcome pager st txn (commit st txn))
    (hcommit' : ∀ st txn, CommitOutcome pager' st txn (commit' st txn))
    (hname : ∀ st txn st' txn', (pager' st').head = (pager st).head →
      S.staged txn' = S.staged txn → Alike Eq (commit st txn).1 (commit' st' txn').1) :
    (delegateToPager pager setPager faults commit).Mirrors
      (delegateToPager pager' setPager' faults commit')
      (fun st st' => Pager.Twin known (pager st) (pager' st'))
      (fun st txn st' txn' => Pager.Staged known (pager st) txn (pager' st') txn') where
  head_eq := fun htwin => htwin.head_eq
  pageSize_eq := fun htwin => htwin.pageSize_eq
  resolve := by
    intro st st' htwin
    obtain ⟨hholds, hholds'⟩ := htwin.holds _ List.mem_cons_self
    exact ⟨_, hholds.resolve, hholds'.resolve⟩
  read := by
    intro st st' htwin pages hpages p hp
    obtain ⟨hholds, hholds'⟩ := htwin.holds _ List.mem_cons_self
    obtain rfl := hS.eq_pageMap_of_resolve hpages
    obtain ⟨id, hid⟩ := Option.isSome_iff_exists.mp (Std.ExtTreeMap.mem_iff_isSome_getElem?.mp hp)
    obtain ⟨bytes, hget⟩ := hholds.page hid
    have hread : S.read (pager st).cas (pager st).head p = .ok bytes :=
      hS.read_ok_iff.mpr ⟨_, id, hpages, hid, hget⟩
    exact ⟨bytes, hread, (hS.read_ok_iff_names hholds' p bytes).mpr (hS.names_of_read hread)⟩
  same := fun hstaged => hstaged.1
  begin := fun htwin => Pager.Staged.begin hS.toStages htwin faults
  write := by
    intro st txn st' txn' hstaged p bytes
    obtain ⟨edits, hedits, -⟩ := hstaged.2
    obtain ⟨hundisturbed, -⟩ :=
      (delegateToPager_applies hS hset faults hcommit).write hedits p bytes
    have hwritten := hstaged.write hS.toStages faults p bytes
    refine ⟨hundisturbed, ?_⟩
    change Pager.Twin known (pager (setPager st _)) (pager' (setPager' st' _)) ∧
      Alike (fun (r r' : S.PageId × S.Txn) => Pager.Staged known (pager (setPager st _)) r.2
        (pager' (setPager' st' _)) r'.2) _ _
    rw [hset, hset']
    exact hwritten
  remove := fun hstaged p => hstaged.remove hS.toStages faults p
  commit := by
    intro st txn st' txn' hstaged
    obtain ⟨htwin, edits, hedits, hedits'⟩ := id hstaged
    have hchanges : S.staged txn' = S.staged txn :=
      Std.ExtTreeMap.ext_getElem? fun p => (hedits'.staged p).trans (hedits.staged p).symm
    have halike := hname st txn st' txn' htwin.head_eq hchanges
    exact ⟨halike, hstaged.commit hS.toContentAddressed (hcommit st txn) (hcommit' st' txn') halike⟩

/-- A tiered handle mirrors a durable one. -/
theorem handles_mirror (hS : S.Laws) (known : List S.ManifestId) (faults : Faults S) (nowMs : ℕ) :
    (durableHandle faults nowMs).Mirrors (tieredHandle faults nowMs)
      (fun store pager => Pager.Twin known store.pager pager)
      (fun store txn pager txn' => Pager.Staged known store.pager txn pager txn') := by
  refine delegateToPager_mirrors hS (fun _ _ => rfl) (fun _ _ => rfl) known faults
    (durableHandle_outcome hS.toCommits faults nowMs)
    (tieredHandle_outcome hS.toInstalls faults nowMs) fun store txn pager txn' hhead hstaged => ?_
  simp only [DurableStore.commit, Pager.commit]
  cases faults .commit with
  | some e => exact .error _ _
  | none =>
    refine .ok ?_
    change (S.commit store.pager.cas store.wal store.pager.head txn nowMs).1 =
      (S.install pager.cas pager.head txn' nowMs).1
    rw [hS.commit_id, hS.install_id, hstaged]
    exact congrArg (fun head => S.deriveNext head (S.staged txn) nowMs) hhead.symm

/-- A call on the handle of a database. -/
inductive Use (S : Substrate) (E : Engine) where
  | execute (sql : String)
  | executeBatch (sql : String)
  | query (sql : String)
  | snapshot (env : Env S E)
  | restore (env : Env S E) (m : S.ManifestId)

/-- Two answers are alike: they are the same, or both calls failed. -/
inductive Answer.Alike : Answer S E → Answer S E → Prop
  | same (answer : Answer S E) : Answer.Alike answer answer
  | failed (e e' : FlockError S E) : Answer.Alike (.failed e) (.failed e')

namespace Db

/-- One call. -/
def use (st : Db S E × Pool S) : Use S E → Answer S E × Db S E × Pool S
  | .execute sql =>
    let (result, db) := st.1.execute sql
    (.of .changed result, db, st.2)
  | .executeBatch sql =>
    let (result, db) := st.1.executeBatch sql
    (.of (fun _ => .done) result, db, st.2)
  | .query sql =>
    let (result, db) := st.1.query sql
    (.of .batches result, db, st.2)
  | .snapshot env =>
    let (result, db, pool) := st.1.snapshot env st.2
    (.of .manifest result, db, pool)
  | .restore env m =>
    let (result, db, pool) := st.1.restore env st.2 m
    (.of (fun _ => .done) result, db, pool)

/-- The snapshots that there are to go back to, after an answer. -/
def learned (known : List S.ManifestId) : Answer S E → List S.ManifestId
  | .manifest m => m :: known
  | _ => known

/-- One call, and the snapshots that there are to go back to. -/
def useLearned (st : (Db S E × Pool S) × List S.ManifestId) (u : Use S E) :
    Answer S E × (Db S E × Pool S) × List S.ManifestId :=
  ((use st.1 u).1, (use st.1 u).2, learned st.2 (use st.1 u).1)

/-- A run answers and ends as it does without the snapshots. -/
theorem run_useLearned (st : (Db S E × Pool S) × List S.ManifestId) (uses : List (Use S E)) :
    (run useLearned st uses).1 = (run use st.1 uses).1 ∧
      (run useLearned st uses).2.1 = (run use st.1 uses).2 := by
  induction uses generalizing st with
  | nil => exact ⟨rfl, rfl⟩
  | cons u uses ih =>
    obtain ⟨hanswers, hends⟩ := ih (useLearned st u).2
    exact ⟨congrArg _ hanswers, hends⟩

/-- A restore goes back to one of these snapshots, and if the database has a log, that takes the
head. -/
def GoesBack (known : List S.ManifestId) : Use S E → Prop
  | .restore env m => m ∈ known ∧ env.store .checkpoint = none
  | _ => True

/-- A local database and a woken one with one head, one connection and one set of options. -/
structure Twin (known : List S.ManifestId) (here there : Db S E × Pool S) : Prop where
  stores : ∃ pager, there.1.store = .tiered pager ∧ here.1.store = .local pager.head ∧
    Pager.Twin known ⟨here.2.cas, pager.head, here.2.pageSize⟩ pager
  conn_eq : there.1.kernel.conn = here.1.kernel.conn
  opts_eq : there.1.opts = here.1.opts

namespace Twin

variable {known : List S.ManifestId} {here there : Db S E × Pool S}

/-- Twins stand at one head. -/
theorem head_eq (h : Twin known here there) : there.1.head = here.1.head := by
  obtain ⟨pager, hthere, hhere, -⟩ := h.stores
  rw [Db.head, Db.head, hthere, hhere]
  rfl

/-- Twins whose kernels went on alike are twins. -/
theorem spoken (h : Twin known here there) {kernel kernel' : DuckDbKernel E}
    (hconn : kernel'.conn = kernel.conn) :
    Twin known ({ here.1 with kernel }, here.2) ({ there.1 with kernel := kernel' }, there.2) :=
  ⟨h.stores, hconn, h.opts_eq⟩

/-- A snapshot of twins. -/
theorem snapshot (hS : S.Laws) (h : Twin known here there) (env : Env S E) :
    Answer.Alike (use here (.snapshot env)).1 (use there (.snapshot env)).1 ∧
      Twin (learned known (use here (.snapshot env)).1) (use here (.snapshot env)).2
        (use there (.snapshot env)).2 := by
  obtain ⟨pager, hthere, hhere, htwin⟩ := h.stores
  have htwin : Pager.Twin known (here.2.durable here.1.name pager.head).pager pager := htwin
  rcases hresult : here.1.kernel.checkpoint (durableHandle env.store env.nowMs) env.kernel
    (here.2.durable here.1.name pager.head) with ⟨answer, kernel, store⟩
  rcases hresult' : there.1.kernel.checkpoint (tieredHandle env.store env.nowMs) env.kernel pager
    with ⟨answer', kernel', pager'⟩
  obtain ⟨hsame, hconn, halike⟩ := DuckDbKernel.checkpoint_mirrors
    (handles_mirror hS known env.store env.nowMs) htwin h.conn_eq env.kernel hresult hresult'
  have hsame : Pager.Twin known store.pager pager' := hsame
  have honward : (here.2.durable here.1.name pager.head).Onward store := by
    have hrelated := DuckDbKernel.checkpoint_related (R := DurableStore.Onward)
      (fun _ => ⟨.refl _, rfl⟩) .trans (durableHandle_write_onward hS.toStages env.store env.nowMs)
      (durableHandle_commit_onward hS.toCommits env.store env.nowMs) here.1.kernel env.kernel
      (here.2.durable here.1.name pager.head)
    rwa [hresult] at hrelated
  have hstore : ⟨store.pager.cas, pager'.head, here.2.pageSize⟩ = store.pager := by
    rw [hsame.head_eq]
    exact congrArg (Pager.mk store.pager.cas store.pager.head) honward.pageSize_eq.symm
  have hlearned (known' : List S.ManifestId) (htwin' : Pager.Twin known' store.pager pager') :
      Twin known' ({ here.1 with kernel, store := .local store.head },
        here.2.keep here.1.name store)
        ({ there.1 with kernel := kernel', store := .tiered pager' }, there.2) := by
    refine ⟨⟨pager', rfl, congrArg Store.local hsame.head_eq.symm, ?_⟩, hconn, h.opts_eq⟩
    change Pager.Twin known' ⟨store.pager.cas, pager'.head, here.2.pageSize⟩ pager'
    rw [hstore]
    exact htwin'
  simp only [use, Db.snapshot, hhere, hthere, hresult, hresult']
  cases halike with
  | error e e' => exact ⟨.failed _ _, hlearned known hsame⟩
  | @ok m m' heq =>
    subst heq
    have hm : store.pager.head = m :=
      DuckDbKernel.checkpoint_head (durableHandle_applies hS env.store env.nowMs) hresult
    exact ⟨.same _, hlearned (m :: known) (hm ▸ hsame.learned)⟩

/-- A rewind of twins to a snapshot that both have fails on both, or moves both. -/
theorem rewindTo (hP : S.Positions) (hI : S.Immutable) (h : Twin known here there)
    {env : Env S E} {m : S.ManifestId} (hm : m ∈ known)
    (hcheckpoint : env.store .checkpoint = none) :
    (∃ e e', here.1.rewindTo env here.2 m = (.error e, here) ∧
        there.1.rewindTo env there.2 m = (.error e', there)) ∨
      ∃ pool db', here.1.rewindTo env here.2 m = (.ok (), { here.1 with store := .local m }, pool) ∧
        there.1.rewindTo env there.2 m = (.ok (), db', there.2) ∧
          Twin known ({ here.1 with store := .local m }, pool) (db', there.2) := by
  obtain ⟨pager, hthere, hhere, htwin⟩ := h.stores
  obtain ⟨hholds, hholds'⟩ := htwin.holds m (List.mem_cons_of_mem _ hm)
  obtain ⟨manifest, hmanifest⟩ := hI.known_of_resolve hholds.resolve
  obtain ⟨manifest', hmanifest'⟩ := hI.known_of_resolve hholds'.resolve
  have hmanifest : S.manifest here.2.cas m = .ok manifest := hmanifest
  have hrewind : S.rewind here.2.cas m = .ok () := hP.rewind_ok hholds.resolve
  have hrewind' : S.rewind pager.cas m = .ok () := hP.rewind_ok hholds'.resolve
  simp only [Db.rewindTo, hhere, hthere, Pool.durable, hmanifest, hmanifest', Pager.rewind]
  cases hfault : env.store .rewind with
  | some e =>
    left
    simp only [Faults.guard, hfault]
    exact ⟨_, _, rfl, rfl⟩
  | none =>
    -- The local database also records the head in its log.
    right
    simp only [Faults.guard, hfault, hrewind, hrewind', DurableStore.checkpoint, hcheckpoint]
    exact ⟨_, _, rfl, rfl, ⟨_, rfl, rfl, htwin.moved hm⟩, h.conn_eq, h.opts_eq⟩

/-- The kernel of a store opens on twins alike. -/
theorem openKernel (hS : S.Laws) (h : Twin known here there) (env : Env S E) :
    here.1.store.openKernel env here.2 here.1.name here.1.opts =
      there.1.store.openKernel env there.2 there.1.name there.1.opts := by
  obtain ⟨pager, hthere, hhere, htwin⟩ := h.stores
  rw [hhere, hthere, h.opts_eq, Store.openKernel, Store.openKernel]
  exact DuckDbKernel.open_mirrors (handles_mirror hS known env.store env.nowMs) htwin here.1.opts
    env.kernel

/-- A restore of twins. -/
theorem restore (hS : S.Laws) (hP : S.Positions) (hI : S.Immutable) (h : Twin known here there)
    {env : Env S E} {m : S.ManifestId} (hm : m ∈ known)
    (hcheckpoint : env.store .checkpoint = none) :
    Answer.Alike (use here (.restore env m)).1 (use there (.restore env m)).1 ∧
      Twin known (use here (.restore env m)).2 (use there (.restore env m)).2 := by
  rcases h.rewindTo hP hI hm hcheckpoint with
    ⟨e, e', hrefused, hrefused'⟩ | ⟨pool, db', hmoved, hmoved', htwin⟩
  · simp only [use, Db.restore, hrefused, hrefused']
    exact ⟨.failed _ _, h⟩
  · have hkernel := htwin.openKernel hS env
    simp only at hkernel
    simp only [use, Db.restore, hmoved, hmoved', hkernel]
    cases db'.store.openKernel env there.2 db'.name db'.opts with
    | error source => exact ⟨.failed _ _, htwin⟩
    | ok kernel =>
      have hspoken : Twin known ({ here.1 with store := .local m, kernel }, pool)
          ({ db' with kernel }, there.2) := htwin.spoken rfl
      exact ⟨.same _, hspoken⟩

/-- A call on twins is answered alike, and leaves twins. -/
theorem use (hS : S.Laws) (hP : S.Positions) (hI : S.Immutable) (h : Twin known here there)
    {u : Use S E} (hgoesBack : GoesBack known u) :
    Answer.Alike (Db.use here u).1 (Db.use there u).1 ∧
      Twin (learned known (Db.use here u).1) (Db.use here u).2 (Db.use there u).2 := by
  have hconn := h.conn_eq
  cases u with
  | execute sql =>
    simp only [Db.use, Db.execute, DuckDbKernel.execute, hconn]
    rcases E.execute here.1.kernel.conn sql with ⟨source | n, conn⟩
    · exact ⟨.failed _ _, h.spoken rfl⟩
    · exact ⟨.same _, h.spoken rfl⟩
  | executeBatch sql =>
    simp only [Db.use, Db.executeBatch, DuckDbKernel.executeBatch, hconn]
    rcases E.executeBatch here.1.kernel.conn sql with ⟨source | ⟨⟩, conn⟩
    · exact ⟨.failed _ _, h.spoken rfl⟩
    · exact ⟨.same _, h.spoken rfl⟩
  | query sql =>
    simp only [Db.use, Db.query, DuckDbKernel.query, hconn]
    rcases E.queryArrow here.1.kernel.conn sql with ⟨source | batches, conn⟩
    · exact ⟨.failed _ _, h.spoken rfl⟩
    · exact ⟨.same _, h.spoken rfl⟩
  | snapshot env => exact h.snapshot hS env
  | restore env m =>
    obtain ⟨hanswer, htwin⟩ := h.restore hS hP hI hgoesBack.1 hgoesBack.2
    refine ⟨hanswer, ?_⟩
    have hknown : learned known (Db.use here (.restore env m)).1 = known := by
      simp only [Db.use]
      rcases (here.1.restore env here.2 m).1 with e | ⟨⟩ <;> rfl
    rw [hknown]
    exact htwin

end Twin

/-- The kernel and the options of a woken database. -/
theorem kernel_of_wakeWith {wake : Uploaded S → S.Cas} {env : Env S E} {faults : WakeFaults S}
    {root name : String} {uploaded : Uploaded S} {opts : KernelOpts} {db : Db S E}
    (h : Flock.wakeWith wake env faults root name uploaded opts = .ok db) :
    db.opts = opts ∧ DuckDbKernel.Hydrates (tieredHandle env.store env.nowMs)
      ⟨wake uploaded, uploaded.token.manifest, uploaded.token.pageSize⟩ opts
      uploaded.token.manifest db.kernel.conn := by
  rw [Flock.wakeWith] at h
  cases hname : (validateName name : Except (FlockError S E) Unit) with
  | error e => simp [hname] at h
  | ok _ =>
    simp only [hname] at h
    cases hroot : faults.createRoot with
    | some source => simp [hroot] at h
    | none =>
      simp only [hroot] at h
      cases hwake : faults.wake with
      | some source => simp [hwake] at h
      | none =>
        simp only [hwake] at h
        cases hkernel : (DuckDbKernel.open (tieredHandle env.store env.nowMs)
            ⟨wake uploaded, uploaded.token.manifest, uploaded.token.pageSize⟩ opts env.kernel :
            Except (KernelError S E.Error) (DuckDbKernel E)) with
        | error source => simp [hkernel] at h
        | ok kernel =>
          simp only [hkernel] at h
          obtain rfl := Except.ok.inj h
          exact ⟨rfl, DuckDbKernel.hydrates_of_open hkernel⟩

/-- What a sleep uploaded, woken, is the twin of the database that is opened again where it
slept. -/
theorem twin_of_sleep (hS : S.Laws) (hE : E.Laws) {wake : Uploaded S → S.Cas}
    (hwake : S.Wakes wake) {db : Db S E} {pool left : Pool S} (hheld : pool.Holds db)
    {env : Env S E} {faults : SleepFaults S} {fuel : ℕ} {remotePool : String}
    {uploaded : Uploaded S}
    (hslept : db.sleep env faults fuel pool remotePool = (.ok (some uploaded), left))
    {openEnv : Env S E} {opts : KernelOpts} {here : Db S E} {pool' : Pool S}
    (hopened : Flock.openWith openEnv left db.name opts = (.ok here, pool'))
    {wakeEnv : Env S E} {wakeFaults : WakeFaults S} {root name : String} {there : Db S E}
    (hwoken : Flock.wakeWith wake wakeEnv wakeFaults root name uploaded opts = .ok there)
    (cache : Pool S) :
    Twin (uploaded.manifests.map Prod.fst) (here, pool') (there, cache) := by
  obtain ⟨head, hsnapshot, htoken, hcarries⟩ := carries_of_sleep hS ⟨_, hheld.store_eq⟩ hslept
  have hleft : (db.snapshot env pool).2.2 = left := by
    rw [← World.sleep_pool env faults fuel db pool remotePool, hslept]
  obtain ⟨-, htaken, -⟩ := snapshot_recoveredHead hS hE env hheld.isSome hheld.store_eq
  obtain ⟨hbeside, -⟩ := beside_snapshot hS env db pool
  rw [hleft] at hcarries htaken hbeside
  have hrecovered : left.recoveredHead db.name = head := htaken head hsnapshot
  obtain ⟨hhere, hbeside', -, hkernel⟩ := openWith_recoveredHead hS.toRecovers hopened
  rw [hrecovered] at hhere hkernel
  have hthere := store_of_wakeWith hwoken
  rw [htoken] at hthere
  have hsize : pool'.pageSize = pool.pageSize := hbeside'.pageSize_eq.trans hbeside.pageSize_eq
  have hholds (m : S.ManifestId) (hreach : ReflTransGen (S.Edge left.cas) head m) :
      S.Holds pool'.cas m ∧ S.Holds (wake uploaded) m := by
    refine ⟨Substrate.Holds.grows ?_ hbeside'.grows,
      hcarries.holds hS.toContentAddressed hwake hreach⟩
    obtain ⟨pages, hresolve, hpages⟩ := hcarries.pages m hreach
    obtain rfl := hS.eq_pageMap_of_resolve hresolve
    refine ⟨hresolve, fun {p id} hp => ?_⟩
    obtain ⟨page, -, hget⟩ := hpages p id hp
    exact ⟨page, hget⟩
  have htwin : Pager.Twin (uploaded.manifests.map Prod.fst)
      ⟨pool'.cas, head, pool'.pageSize⟩ ⟨wake uploaded, head, pool.pageSize⟩ := by
    refine ⟨rfl, hsize.symm, fun m hm => hholds m ?_⟩
    rcases List.mem_cons.mp hm with rfl | hold
    · exact .refl
    · obtain ⟨⟨id, manifest⟩, hmem, rfl⟩ := List.mem_map.mp hold
      exact (hcarries.manifest_iff id).mp ⟨manifest, hmem⟩
  -- Both kernels were hydrated from the same file.
  obtain ⟨hopts', hhydrates'⟩ := kernel_of_wakeWith hwoken
  rw [htoken] at hhydrates'
  have hhydrates : DuckDbKernel.Hydrates (tieredHandle wakeEnv.store wakeEnv.nowMs)
      ⟨wake uploaded, head, pool.pageSize⟩ opts head here.kernel.conn := by
    obtain ⟨hhere', hthere'⟩ := hholds head .refl
    refine DuckDbKernel.Hydrates.mono (DuckDbKernel.hydrates_of_open hkernel) hsize.symm
      (fun pages hpages => ?_) fun p bytes hread => ?_
    · obtain rfl := hS.eq_pageMap_of_resolve hpages
      exact hthere'.resolve
    · exact (hS.read_ok_iff_names hthere' p bytes).mpr (hS.names_of_read hread)
  exact ⟨⟨_, hthere, hhere, htwin⟩, hhydrates'.unique hhydrates,
    hopts'.trans (openWith_opts hopened).symm⟩

/-- **A woken database is the one that slept.** A handle that is where its log is goes to sleep. The
database is opened again in its pool, and what was uploaded is woken anywhere, with the same
options. Whatever statements, queries, snapshots and restores follow, with whatever calls failing
and by one clock, both answer alike, as long as the restores are to snapshots that came along or
that were taken since; and they end with the same head and the same connection. -/
theorem wakes_as_it_slept (hS : S.Laws) (hP : S.Positions) (hI : S.Immutable) (hE : E.Laws)
    {wake : Uploaded S → S.Cas} (hwake : S.Wakes wake) {db : Db S E} {pool left : Pool S}
    (hheld : pool.Holds db) {env : Env S E} {faults : SleepFaults S} {fuel : ℕ}
    {remotePool : String} {uploaded : Uploaded S}
    (hslept : db.sleep env faults fuel pool remotePool = (.ok (some uploaded), left))
    {openEnv : Env S E} {opts : KernelOpts} {here : Db S E} {pool' : Pool S}
    (hopened : Flock.openWith openEnv left db.name opts = (.ok here, pool'))
    {wakeEnv : Env S E} {wakeFaults : WakeFaults S} {root name : String} {there : Db S E}
    (hwoken : Flock.wakeWith wake wakeEnv wakeFaults root name uploaded opts = .ok there)
    (cache : Pool S) {uses : List (Use S E)}
    (hgoesBack : Along useLearned (fun st u => GoesBack st.2 u)
      ((here, pool'), uploaded.manifests.map Prod.fst) uses) :
    let (answers, here', _) := run use (here, pool') uses
    let (answers', there', _) := run use (there, cache) uses
    List.Forall₂ Answer.Alike answers answers' ∧ there'.head = here'.head ∧
      there'.kernel.conn = here'.kernel.conn := by
  have htwin := twin_of_sleep hS hE hwake hheld hslept hopened hwoken cache
  have hstep : ∀ (st : (Db S E × Pool S) × List S.ManifestId) (there : Db S E × Pool S) u,
      GoesBack st.2 u → Twin st.2 st.1 there → Answer.Alike (useLearned st u).1 (use there u).1 ∧
        Twin (useLearned st u).2.2 (useLearned st u).2.1 (use there u).2 :=
    fun st there u hu h => h.use hS hP hI hu
  obtain ⟨halike, htwin'⟩ := run_related hstep hgoesBack htwin
  obtain ⟨hanswers, hends⟩ := run_useLearned ((here, pool'), uploaded.manifests.map Prod.fst) uses
  rw [hanswers] at halike
  rw [hends] at htwin'
  exact ⟨halike, htwin'.head_eq, htwin'.conn_eq⟩

/-- The snapshot of a second statement. -/
def secondSnapshot : Memory.ManifestId := [⟨[(0, some [0, 6, 8])], 0⟩, ⟨[(0, some [0, 6])], 0⟩]

/-- A database with one snapshot. -/
def oneSnapshot : Db (memory []) memoryEngine :=
  ⟨"sales", .local World.firstSnapshot, ⟨([6] : Bytes), "/tmp/flock.duckdb"⟩, World.noOpts⟩

/-- What the sleep of a database with one snapshot uploads. -/
def salesUploaded : Uploaded (memory []) :=
  ⟨⟨"bucket", World.firstSnapshot, 4⟩,
    [(World.firstSnapshot, ⟨some [], some []⟩), ([], ⟨none, none⟩)], [([0, 6] : Bytes)]⟩

/-- A second statement and its snapshot, then back to the first snapshot, and to the second. -/
def thereAndBack : List (Use (memory []) memoryEngine) :=
  [.execute "INSERT 2", .snapshot .none, .restore .none World.firstSnapshot, .query "SELECT",
    .restore .none secondSnapshot, .query "SELECT"]

/-- A database with one snapshot is woken, and goes on as it would have. -/
theorem wakes_as_it_slept_sales : ∃ here there pool',
    (run use (here, pool') thereAndBack).1 = [.changed 1, .manifest secondSnapshot, .done,
      .batches ([6] : Bytes), .done, .batches ([6, 8] : Bytes)] ∧
    List.Forall₂ Answer.Alike (run use (here, pool') thereAndBack).1
      (run use (there, World.emptyPool) thereAndBack).1 ∧
    (run use (there, World.emptyPool) thereAndBack).2.1.head = secondSnapshot := by
  obtain ⟨left, here, pool', hheld, hslept, hopened, hgoesBack, hanswers, hhead⟩ :
      ∃ left here pool', (snapshotWorld 3).pool.Holds oneSnapshot ∧
        oneSnapshot.sleep .none World.sleepFaults 9 (snapshotWorld 3).pool "bucket" =
            (.ok (some salesUploaded), left) ∧
          Flock.openWith .none left "sales" World.noOpts = (.ok here, pool') ∧
            Along useLearned (fun st u => GoesBack st.2 u)
              ((here, pool'), salesUploaded.manifests.map Prod.fst) thereAndBack ∧
              (run use (here, pool') thereAndBack).1 =
                  [.changed 1, .manifest secondSnapshot, .done, .batches ([6] : Bytes), .done,
                    .batches ([6, 8] : Bytes)] ∧
                (run use (here, pool') thereAndBack).2.1.head = secondSnapshot := by
    refine ⟨_, _, _, ⟨rfl, rfl⟩, rfl, rfl, ?_, ?_, ?_⟩
    · exact ⟨trivial, trivial, ⟨.tail _ (.head _), rfl⟩, trivial, ⟨.head _, rfl⟩, trivial, trivial⟩
    · rfl
    · rfl
  obtain ⟨there, hwoken⟩ : ∃ there : Db (memory []) memoryEngine,
      Flock.wakeWith Memory.wake .none ⟨none, none⟩ "/cache" "sales" salesUploaded World.noOpts =
        .ok there := ⟨_, rfl⟩
  obtain ⟨halike, hend, -⟩ := wakes_as_it_slept (Memory.laws []) (Memory.positions [])
    Memory.immutable memoryEngine_laws (Memory.wakes []) hheld hslept hopened hwoken
    World.emptyPool hgoesBack
  exact ⟨here, there, pool', hanswers, halike, hend.trans hhead⟩

end Db

end FlockDb
