import FlockDb.Core.Durability
import FlockDb.Sync.LiveLog

/-!
# What the log of a database ships

The log of a database is a directory of files, and a `WalSource` reads records and a marker back
from it. Opening a database and replaying its log change nothing that is read back. A snapshot
that moves the head appends one transaction, and a fork's first checkpoint leaves a marker. So
the commits past the marker lead from where a follower with nothing applied would stand to the
head that the log records.
-/

namespace FlockDb

variable {S : Substrate} {E : Engine}

/-- What the files of a log directory read back as: the marker, if there is one, and the
records. -/
structure LogView (S : Substrate) where
  marker : Option (S.ManifestId × Lsn)
  records : List (Record S.PageId S.ManifestId)

/-- The log directories of a substrate: their files, and what these read back as. -/
structure Logs (S : Substrate) where
  files : S.Wal → WalFiles
  view : S.Wal → LogView S

/-- A log with one transaction more, past its marker: the changes in page order, and the
commit. -/
structure LogView.Appended (v v' : LogView S) (changes : Changes S.PageId)
    (manifest : S.ManifestId) (createdAtMs : ℕ) : Prop where
  marker_eq : v'.marker = v.marker
  records_eq : ∃ writes lsn, v'.records = v.records ++ transaction writes lsn manifest createdAtMs ∧
    writes.map Record.kind = changes.toList.map (fun change => .write change.1 change.2) ∧
    ∀ r ∈ transaction writes lsn manifest createdAtMs, ¬CoveredBy v.marker r.lsn

/-- What substrate's log directories read back as, call by call: a new one is empty, a replay
changes nothing, a commit that moves the head appends its transaction, and a checkpoint leaves a
marker for the head that covers whatever records it keeps. -/
structure Logs.Laws (L : Logs S) : Prop where
  readCheckpoint_eq : ∀ wal walDir cas pageSize,
    (WalSource.mk (L.files wal) walDir cas pageSize : WalSource S).readCheckpoint =
      .ok (L.view wal).marker
  records_eq : ∀ wal walDir cas pageSize,
    (WalSource.mk (L.files wal) walDir cas pageSize : WalSource S).records =
      .ok (L.view wal).records
  view_freshWal : L.view S.freshWal = ⟨none, []⟩
  view_recover : ∀ pageSize cas wal, L.view (S.recover pageSize cas wal).2.2 = L.view wal
  view_commit : ∀ {cas wal head txn now}, (S.commit cas wal head txn now).1 ≠ head →
    (L.view wal).Appended (L.view (S.commit cas wal head txn now).2.2) (S.staged txn)
      (S.commit cas wal head txn now).1 now
  view_checkpoint : ∀ cas wal head, ∃ lsn,
    (L.view (S.checkpoint cas wal head)).marker = some (head, lsn) ∧
      ∀ r ∈ (L.view (S.checkpoint cas wal head)).records, r ∈ (L.view wal).records ∧ r.lsn ≤ lsn

/-- The changes that the write records of a transaction make. -/
theorem committed_transaction {base manifest : S.ManifestId} {lsn : Lsn} {createdAtMs : ℕ}
    {writes : List (Record S.PageId S.ManifestId)} {entries : List (PageNo × Option S.PageId)}
    (h : writes.map Record.kind = entries.map (fun change => .write change.1 change.2))
    (pending : Changes S.PageId) :
    committed base pending (transaction writes lsn manifest createdAtMs) =
      [⟨base, manifest, lsn, createdAtMs,
        entries.foldl (fun changes change => changes.insert change.1 change.2) pending⟩] := by
  induction writes generalizing entries pending with
  | nil =>
    obtain rfl : entries = [] := by simpa using h.symm
    rfl
  | cons r writes ih =>
    cases entries with
    | nil => cases h
    | cons change entries =>
      obtain ⟨rlsn, kind⟩ := r
      rw [List.map_cons, List.map_cons, List.cons.injEq] at h
      obtain ⟨hkind, hrest⟩ := h
      obtain rfl : kind = .write change.1 change.2 := hkind
      exact ih hrest (pending.insert change.1 change.2)

/-- A record sequence with no transaction left open. -/
def Closed (records : List (Record S.PageId S.ManifestId)) : Prop :=
  records = [] ∨ ∃ before lsn manifest createdAtMs,
    records = before ++ [⟨lsn, .commit manifest createdAtMs⟩]

/-- The head after some commits, from a base. -/
def headAfter (base : S.ManifestId) (commits : List (Commit S)) : S.ManifestId :=
  (commits.getLast?.map Commit.manifest).getD base

/-- The last commit of a record sequence that ends in one. -/
theorem headAfter_committed (base start : S.ManifestId) (pending : Changes S.PageId)
    (records : List (Record S.PageId S.ManifestId)) (lsn : Lsn) (manifest : S.ManifestId)
    (createdAtMs : ℕ) :
    headAfter start (committed base pending (records ++ [⟨lsn, .commit manifest createdAtMs⟩])) =
      manifest := by
  induction records generalizing base start pending with
  | nil => rfl
  | cons r records ih =>
    obtain ⟨rlsn, kind⟩ := r
    cases kind with
    | write pageNo page => exact ih base start _
    | checkpoint m => exact ih m start ∅
    | commit m t =>
      refine Eq.trans ?_ (ih m m ∅)
      rw [List.cons_append, committed, headAfter, headAfter, List.getLast?_cons]
      cases (committed m ∅ (records ++ [⟨lsn, .commit manifest createdAtMs⟩])).getLast? <;> rfl

/-- Records that follow closed ones start from the head that these reach. -/
theorem Closed.committed_append {records : List (Record S.PageId S.ManifestId)}
    (h : Closed records) (base : S.ManifestId) (more : List (Record S.PageId S.ManifestId)) :
    committed base ∅ (records ++ more) = committed base ∅ records ++
      committed (headAfter base (committed base ∅ records)) ∅ more := by
  rcases h with rfl | ⟨before, lsn, manifest, createdAtMs, rfl⟩
  · rfl
  · rw [headAfter_committed, List.append_assoc, List.singleton_append]
    exact committed_append_of_commit

namespace LogView

/-- Where a follower with nothing applied stands: at the marker's manifest, or at the root. -/
def startHead (root : S.ManifestId) (v : LogView S) : S.ManifestId :=
  (v.marker.map Prod.fst).getD root

/-- The records that the marker does not cover. -/
def past (v : LogView S) : List (Record S.PageId S.ManifestId) :=
  aboveMarker (v.marker.map Prod.snd) v.records

/-- The commits that a follower can be shipped. -/
def commits (root : S.ManifestId) (v : LogView S) : List (Commit S) :=
  committed (v.startHead root) ∅ v.past

/-- A log whose commits lead to a head, each derived from the state before it. -/
structure Leads (root : S.ManifestId) (v : LogView S) (head : S.ManifestId) : Prop where
  closed : Closed v.past
  linked : Chain.Linked (v.startHead root) ((v.commits root).map Commit.link)
  derived : ∀ c ∈ v.commits root, c.Derived
  head_eq : headAfter (v.startHead root) (v.commits root) = head

/-- A log without records leads to where it starts. -/
theorem leads_of_nil {root : S.ManifestId} {v : LogView S} (h : v.past = []) :
    v.Leads root (v.startHead root) := by
  have hcommits : v.commits root = [] := by
    rw [commits, h]
    rfl
  exact ⟨.inl h, by rw [hcommits]; trivial, by simp [hcommits], by rw [hcommits]; rfl⟩

/-- One transaction more is one commit more, from the head that the log leads to. -/
theorem Leads.commits_append {root head manifest : S.ManifestId} {v v' : LogView S}
    (h : v.Leads root head) {changes : Changes S.PageId} {createdAtMs : ℕ}
    (happended : v.Appended v' changes manifest createdAtMs) :
    Closed v'.past ∧ v'.startHead root = v.startHead root ∧
      ∃ lsn, v'.commits root = v.commits root ++ [⟨head, manifest, lsn, createdAtMs, changes⟩] := by
  obtain ⟨writes, lsn, hrecords, hwrites, habove⟩ := happended.records_eq
  have hkept : aboveMarker (v.marker.map Prod.snd) (transaction writes lsn manifest createdAtMs) =
      transaction writes lsn manifest createdAtMs := by
    refine List.filter_eq_self.mpr fun r hr => ?_
    cases hmarker : v.marker with
    | none => rfl
    | some marker =>
      have hlt : marker.2 < r.lsn := by
        by_contra hle
        exact habove r hr ⟨marker.1, marker.2, hmarker, not_lt.mp hle⟩
      simpa using hlt
  have hpast : v'.past = v.past ++ transaction writes lsn manifest createdAtMs := by
    have hfilter := List.filter_append (p := fun r : Record S.PageId S.ManifestId =>
      !(v.marker.map Prod.snd).any fun cp => r.lsn ≤ cp) v.records
      (transaction writes lsn manifest createdAtMs)
    rw [past, happended.marker_eq, hrecords]
    exact hfilter.trans (congrArg (v.past ++ ·) hkept)
  have hstart : v'.startHead root = v.startHead root := by
    rw [startHead, startHead, happended.marker_eq]
  refine ⟨.inr ⟨v.past ++ writes, lsn, manifest, createdAtMs, ?_⟩, hstart, lsn, ?_⟩
  · rw [hpast, transaction, List.append_assoc]
  · have hchanges : changes.toList.foldl (fun changes change => changes.insert change.1 change.2)
        (∅ : Changes S.PageId) = changes := Overlay.ofEntries_toList changes
    rw [commits, hstart, hpast, h.closed.committed_append, committed_transaction hwrites, hchanges]
    have hhead : headAfter (v.startHead root) (committed (v.startHead root) ∅ v.past) = head :=
      h.head_eq
    rw [hhead]
    rfl

/-- A log that leads to a head leads, with one derived transaction more, to its manifest. -/
theorem Leads.append {root head manifest : S.ManifestId} {v v' : LogView S}
    (h : v.Leads root head) {changes : Changes S.PageId} {createdAtMs : ℕ}
    (happended : v.Appended v' changes manifest createdAtMs)
    (hderived : manifest = S.deriveNext head changes createdAtMs) : v'.Leads root manifest := by
  obtain ⟨hclosed, hstart, lsn, hcommits⟩ := h.commits_append happended
  refine ⟨hclosed, ?_, ?_, ?_⟩
  · rw [hstart, hcommits, List.map_append]
    refine h.linked.concat ?_
    have hhead := h.head_eq
    rw [headAfter] at hhead
    rw [List.getLast?_map, Option.map_map]
    exact hhead.symm
  · rw [hcommits]
    intro c hc
    rcases List.mem_append.mp hc with hc | hc
    · exact h.derived c hc
    · obtain rfl := List.mem_singleton.mp hc
      exact hderived
  · rw [hcommits, headAfter, List.getLast?_append]
    rfl

end LogView

namespace Pool

/-- What the log of a database reads back as. -/
def logView (L : Logs S) (pool : Pool S) (name : String) : LogView S := L.view (pool.wal name)

/-- The log of a database leads to the head it records, and every commit that it ships has its
pages in the shared store and names a database that is not empty. -/
structure Recorded (L : Logs S) (root : S.ManifestId) (pool : Pool S) (name : String) : Prop where
  leads : (pool.logView L name).Leads root (pool.recoveredHead name)
  pages : ∀ c ∈ (pool.logView L name).commits root, c.PagesIn pool.cas
  ne_root : ∀ c ∈ (pool.logView L name).commits root, c.manifest ≠ root

/-- A pool in the hands of a database whose log, if it was recorded, still is, and starts where
it started. -/
structure Continues (L : Logs S) (root : S.ManifestId) (name : String) (pool pool' : Pool S) :
    Prop where
  beside : pool.Beside name pool'
  recorded : pool.Recorded L root name → pool'.Recorded L root name
  startHead_eq : (pool'.logView L name).startHead root = (pool.logView L name).startHead root

/-- Nothing happened to the log. -/
theorem Continues.refl (L : Logs S) (root : S.ManifestId) (name : String) (pool : Pool S) :
    pool.Continues L root name pool := ⟨.refl name pool, id, rfl⟩

/-- A log that is recorded stays so while the shared store grows. -/
theorem Recorded.of_eq {L : Logs S} {root : S.ManifestId} {pool pool' : Pool S} {name : String}
    (h : pool.Recorded L root name) (hgrows : S.Grows pool.cas pool'.cas)
    (hview : pool'.logView L name = pool.logView L name)
    (hhead : pool'.recoveredHead name = pool.recoveredHead name) :
    pool'.Recorded L root name := by
  refine ⟨?_, fun c hc p id hp => ?_, ?_⟩
  · rw [hview, hhead]
    exact h.leads
  · rw [hview] at hc
    obtain ⟨bytes, hbytes⟩ := h.pages c hc p id hp
    exact ⟨bytes, hgrows.get hbytes⟩
  · rw [hview]
    exact h.ne_root

/-- A pool in which a database's log reads back as before. -/
theorem continues_of_eq {L : Logs S} {root : S.ManifestId} {pool pool' : Pool S} {name : String}
    (hbeside : pool.Beside name pool') (hview : pool'.logView L name = pool.logView L name)
    (hhead : pool'.recoveredHead name = pool.recoveredHead name) :
    pool.Continues L root name pool' :=
  ⟨hbeside, fun h => h.of_eq hbeside.grows hview hhead, by rw [hview]⟩

/-- Another database's log is left as it was. -/
theorem Beside.logView_eq {L : Logs S} {pool pool' : Pool S} {name n : String}
    (h : pool.Beside name pool') (hn : n ≠ name) : pool'.logView L n = pool.logView L n := by
  rw [logView, logView, wal, wal, h.dbs_eq n hn]

/-- The log of a database that does not exist is a new one, which leads to the root. -/
theorem recorded_of_free {L : Logs S} (hL : L.Laws) (hS : S.Recovers) {root : S.ManifestId}
    {pool : Pool S} (hroot : S.emptyRoot pool.pageSize = .ok root) {name : String}
    (hfree : pool.dbs name = none) :
    pool.logView L name = ⟨none, []⟩ ∧ pool.Recorded L root name := by
  have hwal : pool.wal name = S.freshWal := by
    rw [wal, hfree]
    rfl
  have hview : pool.logView L name = ⟨none, []⟩ := by
    rw [logView, hwal, hL.view_freshWal]
  have hhead : pool.recoveredHead name = root := by
    rw [recoveredHead, hwal, hS.recovered_freshWal hroot]
  have hcommits : (pool.logView L name).commits root = [] := by
    rw [hview]
    rfl
  refine ⟨hview, ?_, by simp [hcommits], by simp [hcommits]⟩
  rw [hview, hhead]
  exact LogView.leads_of_nil rfl

end Pool

/-- A store in which a manifest resolves and reads has the pages of the commit it names. -/
theorem pagesIn_of_stores (hS : S.ContentAddressed) {cas : S.Cas} {c : Commit S}
    (hderived : c.Derived) {contents : Contents} (h : S.Stores cas c.manifest contents) :
    c.PagesIn cas := by
  intro p id hp
  obtain ⟨pages, hresolve, hpages⟩ := h
  have hmap : S.pageMap c.manifest = Overlay.overlay (S.pageMap c.base) c.changes := by
    rw [hderived, hS.pageMap_deriveNext]
  have hlookup : pages[p]? = some id := by
    rw [hS.eq_pageMap_of_resolve hresolve, hmap, Overlay.getElem?_overlay, hp, Option.getD_some]
  have hmem : p ∈ pages := by
    rw [Std.ExtTreeMap.mem_iff_isSome_getElem?, hlookup]
    rfl
  obtain ⟨bytes, hbytes⟩ := Option.isSome_iff_exists.mp ((hpages p).1.mp hmem)
  obtain ⟨pages', id', hresolve', hid', hget⟩ := hS.read_ok_iff.mp ((hpages p).2 bytes hbytes)
  obtain rfl : pages' = pages := Except.ok.inj (hresolve'.symm.trans hresolve)
  obtain rfl : id' = id := Option.some.inj (hid'.symm.trans hlookup)
  exact ⟨bytes, hget⟩

namespace Db

/-- A durable store whose head and log are those of another one, or those and a transaction. -/
def Logged (L : Logs S) (nowMs : ℕ) (store store' : DurableStore S) : Prop :=
  (store'.head = store.head ∧ store'.wal = store.wal) ∨
    ∃ changes, store'.head ≠ store.head ∧ store'.head = S.deriveNext store.head changes nowMs ∧
      (L.view store.wal).Appended (L.view store'.wal) changes store'.head nowMs

/-- A kernel's checkpoint leaves the head and the log, or commits one transaction. -/
theorem checkpoint_logged {L : Logs S} (hL : L.Laws) (hS : S.Commits) (env : Env S E)
    (kernel : DuckDbKernel E) (store : DurableStore S) :
    Logged L env.nowMs store
      (kernel.checkpoint (durableHandle env.store env.nowMs) env.kernel store).2.2 := by
  let Staged (st st' : DurableStore S) : Prop := st'.head = st.head ∧ st'.wal = st.wal
  have htrans : ∀ {st st' st''}, Staged st st' → Staged st' st'' → Staged st st'' :=
    fun h h' => ⟨h'.1.trans h.1, h'.2.trans h.2⟩
  have hwrite : ∀ st txn p bytes,
      Staged st ((durableHandle env.store env.nowMs).write st txn p bytes).2 := by
    intro st txn p bytes
    change Staged st { st with pager := (st.pager.write env.store txn p bytes).2 }
    rw [Pager.write]
    cases env.store (.write p) with
    | some e => exact ⟨rfl, rfl⟩
    | none => exact ⟨rfl, rfl⟩
  have hcommit : ∀ st' txn, Staged store st' → Logged L env.nowMs store
      ((durableHandle env.store env.nowMs).commit st' txn).2 := fun st' txn hstaged => ?_
  · exact DuckDbKernel.checkpoint_rule (W := Staged) (fun _ => ⟨rfl, rfl⟩) htrans hwrite
      (fun _ h => .inl h) hcommit kernel env.kernel
  obtain ⟨hhead, hwal⟩ := hstaged
  rw [durableHandle_commit_snd, DurableStore.commit]
  cases env.store .commit with
  | some e => exact .inl ⟨hhead, hwal⟩
  | none =>
    by_cases hsame : (S.commit st'.pager.cas st'.wal st'.pager.head txn env.nowMs).1 =
        st'.pager.head
    · exact .inl ⟨hsame.trans hhead, (hS.wal_commit_of_unchanged hsame).trans hwal⟩
    · have happended := hL.view_commit hsame
      have hderived := hS.commit_id st'.pager.cas st'.wal st'.pager.head txn env.nowMs
      refine .inr ⟨S.staged txn, fun heq => hsame (heq.trans hhead.symm), ?_, ?_⟩
      · rw [← hhead]
        exact hderived
      · rw [← hwal]
        exact happended

/-- A snapshot of a local database leaves the store that the kernel's checkpoint left. -/
theorem snapshot_store (env : Env S E) {db : Db S E} {pool : Pool S}
    (hexists : (pool.dbs db.name).isSome) {head : S.ManifestId} (hstore : db.store = .local head) :
    (db.snapshot env pool).2.1.store = .local (db.kernel.checkpoint
        (durableHandle env.store env.nowMs) env.kernel (pool.durable db.name head)).2.2.head ∧
      (db.snapshot env pool).2.2.wal db.name = (db.kernel.checkpoint
        (durableHandle env.store env.nowMs) env.kernel (pool.durable db.name head)).2.2.wal := by
  rw [snapshot, hstore]
  simp only
  rcases db.kernel.checkpoint (durableHandle env.store env.nowMs) env.kernel
    (pool.durable db.name head) with ⟨e | m, kernel, store⟩
  · exact ⟨rfl, Pool.wal_keep hexists store⟩
  · exact ⟨rfl, Pool.wal_keep hexists store⟩

/-- A snapshot of a database that stands where its log records continues the log. -/
theorem continues_snapshot {L : Logs S} (hL : L.Laws) (hS : S.Laws) (hE : E.Laws)
    {root : S.ManifestId} {pool : Pool S} (hroot : S.emptyRoot pool.pageSize = .ok root)
    (hsize : 0 < pool.pageSize) (env : Env S E) {db : Db S E}
    (hexists : (pool.dbs db.name).isSome)
    (hstore : db.store = .local (pool.recoveredHead db.name)) :
    pool.Continues L root db.name (db.snapshot env pool).2.2 := by
  obtain ⟨hbeside, -, -⟩ := beside_snapshot hS env db pool
  obtain ⟨hleft, -, herror⟩ := snapshot_recoveredHead hS hE env hexists hstore
  obtain ⟨hstore', hwal⟩ := snapshot_store env hexists hstore
  have hlogged := checkpoint_logged hL hS.toCommits env db.kernel
    (pool.durable db.name (pool.recoveredHead db.name))
  generalize (db.kernel.checkpoint (durableHandle env.store env.nowMs) env.kernel
    (pool.durable db.name (pool.recoveredHead db.name))).2.2 = store' at hstore' hwal hlogged
  have hhead : (db.snapshot env pool).2.2.recoveredHead db.name = store'.head := by
    have hsame := hleft.symm.trans hstore'
    injection hsame
  rcases hlogged with ⟨hsame, hsameWal⟩ | ⟨changes, hmoved, hderived, happended⟩
  · refine Pool.continues_of_eq hbeside ?_ (hhead.trans hsame)
    rw [Pool.logView, hwal, hsameWal]
    rfl
  · have hview : (db.snapshot env pool).2.2.logView L db.name = L.view store'.wal := by
      rw [Pool.logView, hwal]
    have happended' : (pool.logView L db.name).Appended
        ((db.snapshot env pool).2.2.logView L db.name) changes store'.head env.nowMs := by
      rw [hview]
      exact happended
    -- a snapshot that failed would have left the head where it was
    obtain ⟨file, hcaptures⟩ : ∃ file, Captures (db.snapshot env pool).2.2 store'.head file
        (E.content db.kernel.conn) := by
      rcases hsnapshot : db.snapshot env pool with ⟨e | m, db', pool'⟩
      · refine absurd (hhead.symm.trans (herror e ?_)) hmoved
        rw [hsnapshot]
      · have htaken := snapshotted_of_ok hS hE ⟨_, hstore⟩ hsnapshot
        rw [hsnapshot] at hstore'
        have hm : store'.head = m := by
          have hsame := hstore'.symm.trans htaken.store_eq
          injection hsame
        obtain ⟨file, -, hcaptures⟩ := htaken.captures
        exact ⟨file, hm ▸ hcaptures⟩
    have hne : store'.head ≠ root := by
      rintro rfl
      have hsize' : 0 < (db.snapshot env pool).2.2.pageSize := hbeside.pageSize_eq ▸ hsize
      exact pageMap_ne_empty hS.toContentAddressed hsize' hcaptures.ne_nil hcaptures.stores
        (hS.pageMap_emptyRoot hroot)
    refine ⟨hbeside, fun h => ?_, ?_⟩
    · obtain ⟨-, hstart, lsn, hcommits⟩ := h.leads.commits_append happended'
      refine ⟨?_, fun c hc => ?_, fun c hc => ?_⟩
      · rw [hhead]
        exact h.leads.append happended' hderived
      · rw [hcommits] at hc
        rcases List.mem_append.mp hc with hc | hc
        · intro p id hp
          obtain ⟨bytes, hbytes⟩ := h.pages c hc p id hp
          exact ⟨bytes, hbeside.grows.get hbytes⟩
        · obtain rfl := List.mem_singleton.mp hc
          exact pagesIn_of_stores hS.toContentAddressed hderived hcaptures.stores
      · rw [hcommits] at hc
        rcases List.mem_append.mp hc with hc | hc
        · exact h.ne_root c hc
        · obtain rfl := List.mem_singleton.mp hc
          exact hne
    · rw [LogView.startHead, LogView.startHead, happended'.marker_eq]

/-- Positioning a fork whose log is a new one leaves a marker at the parent's snapshot, or a log
that is still a new one. -/
theorem positionFork_logView {L : Logs S} (hL : L.Laws) (hS : S.Recovers) (env : Env S E)
    {pool : Pool S} {name : String} (hexists : (pool.dbs name).isSome)
    (hnew : pool.logView L name = ⟨none, []⟩) (root m : S.ManifestId) :
    ((positionFork env pool name root m).1 = .ok () ∧
        (positionFork env pool name root m).2.recoveredHead name = m ∧
        ∃ lsn, (positionFork env pool name root m).2.logView L name = ⟨some (m, lsn), []⟩) ∨
      (∃ e, (positionFork env pool name root m).1 = .error e) ∧
        (positionFork env pool name root m).2.recoveredHead name = pool.recoveredHead name ∧
        (positionFork env pool name root m).2.logView L name = ⟨none, []⟩ := by
  simp only [positionFork, Pager.setHeadTo]
  cases env.store.guard .setHeadTo (S.setHeadTo (pool.durable name root).pager.cas m) with
  | error e => exact .inr ⟨⟨_, rfl⟩, rfl, hnew⟩
  | ok _ =>
    simp only [DurableStore.checkpoint]
    cases env.store .checkpoint with
    | some e =>
      refine .inr ⟨⟨_, rfl⟩, ?_, ?_⟩
      · rw [Pool.recoveredHead, Pool.wal_keep hexists]
        rfl
      · rw [Pool.logView, Pool.wal_keep hexists]
        exact hnew
    | none =>
      obtain ⟨lsn, hmarker, hrecords⟩ := hL.view_checkpoint pool.cas (pool.wal name) m
      have hnil : (L.view (S.checkpoint pool.cas (pool.wal name) m)).records = [] := by
        refine List.eq_nil_iff_forall_not_mem.mpr fun r hr => ?_
        have hold : r ∈ (pool.logView L name).records := (hrecords r hr).1
        rw [hnew] at hold
        cases hold
      refine .inl ⟨rfl, ?_, lsn, ?_⟩
      · rw [Pool.recoveredHead, Pool.wal_keep hexists]
        exact hS.recovered_checkpoint _ _ _ _
      · rw [Pool.logView, Pool.wal_keep hexists, ← hmarker, ← hnil]
        rfl

/-- A fork's calls go through until its first checkpoint: the directory, the new log, the head
and the marker. -/
def Marks (env : Env S E) (pool : Pool S) (name : String) (m : S.ManifestId) : Prop :=
  ∃ root pool', openStore env pool name "open the fork's durable store"
      "replay the fork's log" = (.ok root, pool') ∧
    (positionFork env pool' name root m).1 = .ok ()

/-- A fork that returns got past its first checkpoint. -/
theorem marks_of_forkFrom {env : Env S E} {db child : Db S E} {pool : Pool S} {name : String}
    {m : S.ManifestId} (h : (forkFrom env db pool name m).1 = .ok child) :
    Marks env pool name m := by
  rw [forkFrom] at h
  rcases hopened : openStore env pool name "open the fork's durable store"
      "replay the fork's log" with ⟨e | root, pool₁⟩
  · simp only [hopened] at h
    cases h
  · simp only [hopened] at h
    rcases hpositioned : positionFork env pool₁ name root m with ⟨e | ⟨⟩, pool₂⟩
    · simp only [hpositioned] at h
      cases h
    · exact ⟨root, pool₁, hopened, congrArg Prod.fst hpositioned⟩

/-- The rest of a fork, into a name whose log is a new one: its first checkpoint leaves a marker
at the parent's snapshot, or the log is still a new one. -/
theorem forkFrom_logView {L : Logs S} (hL : L.Laws) (hS : S.Recovers) (env : Env S E)
    (db : Db S E) {pool : Pool S} {name : String} (hnew : pool.logView L name = ⟨none, []⟩)
    (m : S.ManifestId) :
    (Marks env pool name m ∧ (forkFrom env db pool name m).2.recoveredHead name = m ∧
        ∃ lsn, (forkFrom env db pool name m).2.logView L name = ⟨some (m, lsn), []⟩) ∨
      ¬Marks env pool name m ∧
        (forkFrom env db pool name m).2.recoveredHead name = pool.recoveredHead name ∧
        (forkFrom env db pool name m).2.logView L name = ⟨none, []⟩ := by
  have hopenView : (openStore env pool name "open the fork's durable store"
      "replay the fork's log").2.logView L name = pool.logView L name :=
    openStore_keeps (hL.view_recover pool.pageSize) env name _ _
  obtain ⟨hopenHead, -⟩ := openStore_recoveredHead hS env pool name
    "open the fork's durable store" "replay the fork's log"
  obtain ⟨-, hsome⟩ := beside_openStore hS env pool name
    "open the fork's durable store" "replay the fork's log"
  rw [hnew] at hopenView
  rw [forkFrom]
  rcases hopened : openStore env pool name "open the fork's durable store"
      "replay the fork's log" with ⟨e | root, pool₁⟩
  · rw [hopened] at hopenView hopenHead
    refine .inr ⟨?_, hopenHead, hopenView⟩
    rintro ⟨root, pool', hmarks, -⟩
    rw [hopened] at hmarks
    cases hmarks
  · rw [hopened] at hopenView hopenHead hsome
    have hmarks : Marks env pool name m ↔ (positionFork env pool₁ name root m).1 = .ok () := by
      constructor
      · rintro ⟨root', pool', hopened', hok⟩
        rw [hopened] at hopened'
        cases hopened'
        exact hok
      · exact fun hok => ⟨root, pool₁, hopened, hok⟩
    have hposition := positionFork_logView hL hS env (hsome root rfl) hopenView root m
    rw [hmarks]
    rcases hpositioned : positionFork env pool₁ name root m with ⟨e | ⟨⟩, pool₂⟩
    · rw [hpositioned] at hposition
      rcases hposition with ⟨hok, -⟩ | ⟨-, hhead, hview⟩
      · cases hok
      · simp only [hpositioned]
        exact .inr ⟨by simp, hhead.trans hopenHead, hview⟩
    · rw [hpositioned] at hposition
      rcases hposition with ⟨-, hhead, lsn, hview⟩ | ⟨⟨e, herror⟩, -⟩
      · simp only [hpositioned]
        refine .inl ⟨trivial, ?_, lsn, ?_⟩
        · cases Store.openKernel env pool₂ name db.opts (.local m) <;> exact hhead
        · cases Store.openKernel env pool₂ name db.opts (.local m) <;> exact hview
      · cases herror

end Db

end FlockDb
