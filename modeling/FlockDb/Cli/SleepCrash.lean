import FlockDb.Cli.Contained
import FlockDb.Cli.Names
import FlockDb.Core.Standing

/-!
# A sleep that is cut off

A process that dies while it puts a branch to sleep leaves the workspace at the call where it
died. The branch is awake until its record is there, and from then on it is asleep, whatever is
left of its directory. Only a record that is there and not whole is neither.
-/

namespace FlockDb

open Relation

variable {S : Substrate} {E : Engine}

/-- What the commands rely on of `TieredStore::wake` over a tier that many sleeps have stored in: a
manifest resolves if its overlay chain is there, and the pages that are there can be had. -/
structure Outside.Fetches (out : Outside S E) : Prop where
  resolves : ∀ {uploaded m} (chain : S.ManifestId → Prop), chain m →
    (∀ id, chain id → ∃ edges, (id, edges) ∈ uploaded.manifests ∧
      ∀ base, edges.overlayBase = some base → chain base) →
    S.resolve (out.wakeCas uploaded) m = .ok (S.pageMap m)
  get : ∀ {uploaded page}, page ∈ uploaded.pages →
    S.get (out.wakeCas uploaded) (S.pageHash page) = .ok page

/-- A head that a sleep has uploaded opens from the tier as it opens in the pool. -/
theorem Outside.Fetches.headOpens (hS : S.ContentAddressed) {out : Outside S E}
    (hfetch : out.Fetches) {cas : S.Cas} {head : S.ManifestId} {uploaded stored : Uploaded S}
    (hcarries : Db.Carries cas head uploaded) (hmanifests : uploaded.manifests ⊆ stored.manifests)
    (hpages : uploaded.pages ⊆ stored.pages) {pageSize : ℕ} {conn : E.Connection}
    (hopens : HeadOpens cas pageSize head conn) :
    HeadOpens (out.wakeCas stored) pageSize head conn := by
  have hresolve : S.resolve (out.wakeCas stored) head = .ok (S.pageMap head) := by
    refine hfetch.resolves (ReflTransGen (S.Edge cas) head) .refl fun id hreach => ?_
    obtain ⟨edges, hmem⟩ := (hcarries.manifest_iff id).mpr hreach
    refine ⟨edges, hmanifests hmem, fun base hbase => hreach.tail ?_⟩
    exact ⟨edges, hcarries.manifest_eq id edges hmem, .inl hbase⟩
  refine hopens.of_reads (fun pages hpool => ?_) fun p bytes hread => ?_
  · rw [hS.eq_pageMap_of_resolve hpool]
    exact hresolve
  · obtain ⟨pages, id, hpool, hpage, hget⟩ := hS.read_ok_iff.mp hread
    obtain ⟨pages', hpool', hstored⟩ := hcarries.pages head .refl
    obtain rfl : pages = pages' := Except.ok.inj (hpool.symm.trans hpool')
    obtain ⟨page, hmem, hget'⟩ := hstored p id hpage
    obtain rfl : bytes = page := Except.ok.inj (hget.symm.trans hget')
    rw [hS.eq_pageMap_of_resolve hpool] at hpage
    have hfound : S.get (out.wakeCas stored) (S.pageHash bytes) = .ok bytes :=
      hfetch.get (hpages hmem)
    rw [hS.pageHash_of_get hget] at hfound
    exact hS.read_ok_iff.mpr ⟨_, id, hresolve, hpage, hfound⟩

/-- Every call of a wake goes through. -/
structure CliEnv.WakesClear (env : CliEnv S E) : Prop where
  io : env.io = .none
  opening : env.opening.Clear
  hydrating : env.hydrating.Clear
  waking : env.waking = ⟨none, none⟩
  restoring : env.restoring.Clear

namespace Workspace

/-- A branch is awake: a command finds it, and it opens with this content if nothing fails. -/
structure Usable (ws : Workspace S) (name : String) (content : E.Content) : Prop where
  resolves : (ws.resolve .none (some name) : Except (CliError S E) String) = .ok name
  opens : ∀ env : CliEnv S E, env.opening.Clear → ∃ db : Db S E,
    (ws.openBranch env name).1 = .ok db ∧ E.content db.kernel.conn = content

/-- A wake goes through if nothing fails, and brings a branch back with this content. -/
def Wakeable (out : Outside S E) (ws : Workspace S) (name : String) (content : E.Content) : Prop :=
  ∀ env : CliEnv S E, env.WakesClear → (∃ lines, (ws.wake out env name).1 = .ok lines) ∧
    (ws.wake out env name).2.Usable name content

/-- A branch that is not lost: it is awake with its content, or a wake brings it back. -/
def Safe (out : Outside S E) (ws : Workspace S) (name : String) (content : E.Content) : Prop :=
  ws.Usable name content ∨ ws.Wakeable out name content

/-- A branch that stands in its pool, with all that its log recorded. -/
structure Standing (E : Engine) (records : S.Wal → S.ManifestId → Prop) (ws : Workspace S)
    (name : String) (content : E.Content) : Prop where
  «exists» : ws.exists = true
  listed : ws.Listed
  known : name ∈ branchNames ws.dbs ws.asleep.keys
  awake : ws.isAsleep name = false
  valid : validateName (S := S) (E := E) name = .ok ()
  dir : (ws.pool.dbs name).isSome
  pageSize_pos : 0 < ws.pool.pageSize
  stands : ws.pool.Stands (E := E) name content
  recorded : ws.pool.OpensRecorded E records name

variable {records : S.Wal → S.ManifestId → Prop} {name : String} {content : E.Content}

/-- A branch that stands is awake with its content. -/
theorem Standing.usable (hS : S.Laws) {ws : Workspace S}
    (hnew : NewDatabase S E ws.pool.pageSize) (h : Standing E records ws name content) :
    ws.Usable name content := by
  refine ⟨resolve_of_listed h.exists h.known h.awake, fun env henv => ?_⟩
  obtain ⟨conn, hopens, rfl⟩ := h.stands
  obtain ⟨kernel, hok, rfl⟩ := openBranch_of_headOpens hS henv h.valid hnew.root hopens
  exact ⟨_, hok, rfl⟩

/-- Work on the branch that leaves it standing. -/
theorem Standing.active {ws ws' : Workspace S} (h : Standing E records ws name content)
    (hactive : ws.Active name ws') (hstands : ws'.pool.Stands (E := E) name content)
    (hrecorded : ws'.pool.OpensRecorded E records name) : Standing E records ws' name content where
  «exists» := exists_of_head_eq hactive.head_eq h.exists
  listed := hactive.listed h.listed
  known := by
    obtain ⟨entry, hentry, hstrip⟩ := mem_branchNames_iff.mp h.known
    refine mem_branchNames_iff.mpr ⟨entry, ?_, hstrip⟩
    rw [hactive.asleep_eq]
    refine (List.mem_append.mp hentry).elim (fun hdb => List.mem_append_left _ ?_)
      (List.mem_append_right _)
    have hsome := hactive.beside.isSome_of ((h.listed.mem_iff entry).mp hdb)
    exact ((hactive.listed h.listed).mem_iff entry).mpr hsome
  awake := by rw [isAsleep, hactive.asleep_eq]; exact h.awake
  valid := h.valid
  dir := hactive.beside.isSome h.dir
  pageSize_pos := hactive.beside.pageSize_eq ▸ h.pageSize_pos
  stands := hstands
  recorded := hrecorded

/-- A branch stands while nothing is done to any branch. -/
theorem Standing.aside (hS : S.ContentAddressed) {ws ws' : Workspace S}
    (h : Standing E records ws name content) (hactive : ∀ n, ws.Active n ws') :
    Standing E records ws' name content := by
  obtain ⟨other, hother⟩ := exists_ne name
  have hbeside := (hactive other).beside
  have hwal : ws'.pool.wal name = ws.pool.wal name := by
    rw [Pool.wal, hbeside.dbs_eq name hother.symm]
    rfl
  exact h.active (hactive name) (h.stands.beside hS hbeside hother.symm)
    (h.recorded.grows hS hbeside.grows hbeside.pageSize_eq fun m hm => .inl (hwal ▸ hm))

/-- A branch stands whether or not it was opened, and opens with its content. -/
theorem Standing.openBranch (hS : S.Laws) (hrec : S.Records records) {ws : Workspace S}
    (h : Standing E records ws name content) (env : CliEnv S E) :
    Standing E records (ws.openBranch env name).2 name content ∧
      ∀ db, (ws.openBranch env name).1 = .ok db → db.name = name ∧
        E.content db.kernel.conn = content ∧
        db.store = .local ((ws.openBranch env name).2.pool.recoveredHead name) := by
  obtain ⟨hactive, hdb⟩ := openBranch_active hS.toRecovers env ws name
  have hpool : (ws.openBranch env name).2.pool =
      (Flock.openWith env.opening ws.pool name ⟨none, none⟩).2 := by
    unfold Workspace.openBranch
    rcases Flock.openWith env.opening ws.pool name ⟨none, none⟩ with ⟨e | db, pool⟩ <;> rfl
  refine ⟨h.active hactive ?_ ?_, fun db hok => ⟨(hdb db hok).1, ?_⟩⟩
  · rw [hpool]
    exact h.stands.openWith hS env.opening ⟨none, none⟩
  · rw [hpool]
    exact h.recorded.openWith hS hrec env.opening ⟨none, none⟩
  · have hopen : Flock.openWith env.opening ws.pool name ⟨none, none⟩ =
        (.ok db, (ws.openBranch env name).2.pool) := by
      rw [hpool]
      unfold Workspace.openBranch at hok
      rcases hopened : Flock.openWith env.opening ws.pool name ⟨none, none⟩ with ⟨e | db', pool⟩
      all_goals rw [hopened] at hok
      · cases hok
      · rw [Except.ok.inj hok]
    exact h.stands.of_openWith hS hopen

/-- What a record says is in the tier opens there with this content. -/
def TierOpens (out : Outside S E) (ws : Workspace S) (record : SleepRecord S)
    (content : E.Content) : Prop :=
  record.token.pageSize = ws.pool.pageSize ∧ ∃ conn : E.Connection,
    HeadOpens (out.wakeCas (ws.stored record)) record.token.pageSize record.token.manifest conn ∧
      E.content conn = content

/-- A branch stands whether or not it was uploaded, and what was uploaded opens. -/
theorem Standing.upload (hS : S.Laws) (hE : E.Laws) (hR : E.Reopens) (hrec : S.Records records)
    {out : Outside S E} (hfetch : out.Fetches) {ws : Workspace S} {db : Db S E}
    (h : Standing E records ws db.name content) (hcontent : E.content db.kernel.conn = content)
    (hstore : db.store = .local (ws.pool.recoveredHead db.name)) (env : CliEnv S E)
    (dir pool : String) :
    Standing E records (ws.upload env db dir pool).2 db.name content ∧
      ∀ token, (ws.upload env db dir pool).1 = .ok token →
        TierOpens out (ws.upload env db dir pool).2 ⟨dir, pool, token⟩ content := by
  obtain ⟨hactive, htoken⟩ := upload_active hS env ws db dir pool
  have hpool : (ws.upload env db dir pool).2.pool = (db.snapshot env.working ws.pool).2.2 := by
    rw [← World.sleep_pool env.working env.sleeping env.fuel db ws.pool pool]
    unfold Workspace.upload
    rcases db.sleep env.working env.sleeping env.fuel ws.pool pool with
      ⟨e | _ | uploaded, after⟩ <;> rfl
  have hstands : (db.snapshot env.working ws.pool).2.2.Stands (E := E) db.name content :=
    h.stands.snapshot hS hE hR h.pageSize_pos h.dir hstore hcontent env.working
  have hrecorded : (db.snapshot env.working ws.pool).2.2.OpensRecorded E records db.name :=
    h.recorded.snapshot hS hE hrec h.dir hstore env.working hstands
  refine ⟨h.active hactive (hpool ▸ hstands) (hpool ▸ hrecorded), fun token hok => ?_⟩
  obtain ⟨uploaded, hby⟩ := htoken token hok
  obtain ⟨head, hhead, htoken', hcarries⟩ := Db.carries_of_sleep hS ⟨_, hstore⟩ hby.slept
  obtain ⟨-, htaken, -⟩ := Db.snapshot_recoveredHead hS hE env.working h.dir hstore
  obtain ⟨conn, hopens, hconn⟩ := hstands
  have htoken'' : token = ⟨pool, head, ws.pool.pageSize⟩ := hby.token_eq.trans htoken'
  have hsize : (db.snapshot env.working ws.pool).2.2.pageSize = ws.pool.pageSize :=
    (Db.beside_snapshot hS env.working db ws.pool).1.pageSize_eq
  rw [htaken head hhead, hsize] at hopens
  subst htoken''
  refine ⟨hactive.beside.pageSize_eq.symm, conn, ?_, hconn⟩
  -- What the tier held before stays beside what this sleep has stored.
  have hstored : ((ws.upload env db dir pool).2.tiers dir pool) =
      ⟨(ws.tiers dir pool).manifests ++ uploaded.manifests,
        (ws.tiers dir pool).pages ++ uploaded.pages⟩ := by
    rw [hby.tiers_eq, Tiers.store, Function.update_self, Function.update_self]
  refine hfetch.headOpens hS.toContentAddressed hcarries ?_ ?_ hopens
  · simp only [Workspace.stored, hstored]
    exact List.subset_append_right _ _
  · simp only [Workspace.stored, hstored]
    exact List.subset_append_right _ _

/-- A branch that is asleep with a whole record, the head of which the tier opens. Whatever is
left of its directory opens as well. -/
structure Filed (out : Outside S E) (ws : Workspace S) (name : String) (record : SleepRecord S)
    (content : E.Content) : Prop where
  «exists» : ws.exists = true
  listed : ws.Listed
  /-- It is still listed when its record is gone and its directory is there. -/
  entry : ∃ entry, stripJson entry = name ∧ (entry = name ∨ entry ∈ ws.dbs ∨
    entry ∈ ws.asleep.keys ∧ entry ≠ sleepRecordFile name)
  file : ws.asleep.lookup (sleepRecordFile name) = some (.whole record)
  valid : validateName (S := S) (E := E) name = .ok ()
  tier : TierOpens out ws record content
  dir : ∃ conn : E.Connection,
    HeadOpens ws.pool.cas ws.pool.pageSize (ws.pool.recoveredHead name) conn

/-- A wake finds the record of a branch that is asleep. -/
theorem Filed.wakeRecord {out : Outside S E} {ws : Workspace S} {record : SleepRecord S}
    (h : Filed out ws name record content) {env : CliEnv S E} (henv : env.WakesClear) :
    ws.wakeRecord env name = .ok record := by
  have hasleep : ws.isAsleep name = true := by rw [isAsleep, h.file]; rfl
  have hlisted : name ∈ branchNames ws.dbs ws.asleep.keys :=
    mem_branchNames_iff.mpr ⟨_, List.mem_append_right _ (isAsleep_iff.mp hasleep),
      stripJson_sleepRecordFile name⟩
  have hnames : (ws.branches .none : Except (CliError S E) (List String)) =
      .ok (branchNames ws.dbs ws.asleep.keys) := rfl
  have hknown : (ws.known env name : Except (CliError S E) Unit) = .ok () := by
    simp [Workspace.known, h.exists, henv.io, hnames, bind, Except.bind, hlisted]
  have hread : (ws.readSleepRecord env.io name : Except (CliError S E) (SleepRecord S)) =
      .ok record := by
    simp [readSleepRecord, henv.io, CliFaults.none, h.file]
  have htier : (remoteTier env.io record.tier : Except (CliError S E) Unit) = .ok () := by
    simp [remoteTier, henv.io, CliFaults.none]
  simp [Workspace.wakeRecord, hknown, hasleep, hread, htier, bind, Except.bind]

/-- A head that opens from the tier is fetched, if nothing fails. -/
theorem fetch_of_headOpens {out : Outside S E} {env : CliEnv S E} (henv : env.WakesClear)
    (hvalid : validateName (S := S) (E := E) name = .ok ()) {uploaded : Uploaded S}
    {conn : E.Connection}
    (hopens : HeadOpens (out.wakeCas uploaded) uploaded.token.pageSize uploaded.token.manifest
      conn) : fetch out env name uploaded = .ok uploaded.token.manifest := by
  obtain ⟨db, hwake⟩ : ∃ db : Db S E, Flock.wakeWith out.wakeCas env.hydrating env.waking
      env.cacheRoot name uploaded ⟨none, none⟩ = .ok db :=
    wakeWith_of_headOpens henv.hydrating henv.waking hvalid hopens
  have hstore := Db.store_of_wakeWith hwake
  have hcache : (createCache env.io : Except (CliError S E) Unit) = .ok () := by
    simp [createCache, henv.io, CliFaults.none]
  have hruntime : (runtime env.io : Except (CliError S E) Unit) = .ok () := by
    simp [runtime, henv.io, CliFaults.none]
  simp only [fetch, hcache, hruntime, hwake, bind, Except.bind]
  rw [Db.head, hstore]
  rfl

/-- **A branch that is asleep with a whole record wakes** with its content, if nothing fails. -/
theorem Filed.wakeable (hS : S.Laws) (hP : S.Positions) {out : Outside S E} (hcopies : out.Copies)
    (hcaches : out.Caches) {ws : Workspace S} (hnew : NewDatabase S E ws.pool.pageSize)
    {record : SleepRecord S} (h : Filed out ws name record content) :
    ws.Wakeable out name content := by
  intro env henv
  obtain ⟨hsize, conn, hopens, rfl⟩ := h.tier
  have hfetch := fetch_of_headOpens henv h.valid hopens
  have hadopted : ((ws.touch [.temp]).adopt out env (ws.stored record)).1 =
      .ok (out.copyTree ws.pool.cas (out.cached (ws.stored record))).1 := by
    simp [adopt, henv.io, CliFaults.none, Workspace.touch]
  have hactive := (active_touch name ws [.temp]).trans
    (adopt_active hcopies env (ws.touch [.temp]) (ws.stored record) name)
  have hcasless :
      ((ws.touch [.temp]).adopt out env (ws.stored record)).2.pool.dbs = ws.pool.dbs := by
    simp [adopt, henv.io, CliFaults.none, Workspace.touch]
  unfold Workspace.wake
  simp only [h.wakeRecord henv, hfetch]
  rcases hadopt : (ws.touch [.temp]).adopt out env (ws.stored record) with ⟨e | pages, ws₁⟩
  all_goals rw [hadopt] at hadopted hactive hcasless
  · cases hadopted
  obtain ⟨hopens₁, hknown⟩ := adopt_ok hS hcopies hcaches hadopt hopens
  rw [hsize, ← hactive.beside.pageSize_eq] at hopens₁
  -- The directory is as it was, over a store that has more.
  have hrecovered : ws₁.pool.recoveredHead name = ws.pool.recoveredHead name := by
    rw [Pool.recoveredHead, Pool.wal, hcasless, hactive.beside.pageSize_eq]
    rfl
  obtain ⟨conn', hdir⟩ := h.dir
  have hdir₁ : HeadOpens ws₁.pool.cas ws₁.pool.pageSize (ws₁.pool.recoveredHead name) conn' := by
    rw [hrecovered, hactive.beside.pageSize_eq]
    exact hdir.grows hS.toContentAddressed hactive.beside.grows
  have hroot : ∃ root, S.emptyRoot ws₁.pool.pageSize = .ok root :=
    hactive.beside.pageSize_eq.symm ▸ hnew.root
  have hclear : EndsClear env := ⟨henv.opening, henv.restoring, by rw [henv.io]; rfl⟩
  obtain ⟨hlines, hhead, ws₂, hactive₂, hback⟩ := bringBack_of_headOpens hS hP hclear h.valid
    hroot hdir₁ hopens₁ hknown record pages
  refine ⟨hlines, resolve_of_listed ?_ ?_ ?_, fun env' henv' => ?_⟩
  · exact exists_of_head_eq ((hback.head_eq.trans hactive₂.head_eq).trans hactive.head_eq) h.exists
  · -- The name is listed: its directory is there, and so is every other entry.
    have hlisted₂ : ws₂.Listed := hactive₂.listed (hactive.listed h.listed)
    obtain ⟨entry, hstrip, hentry⟩ := h.entry
    refine mem_branchNames_iff.mpr ⟨entry, ?_, hstrip⟩
    rw [hback.dbs_eq, hback.asleep_eq]
    rcases hentry with rfl | hdb | ⟨hfile, hother⟩
    · refine List.mem_append_left _ ((hlisted₂.mem_iff entry).mpr ?_)
      exact hback.pool_eq ▸ hback.isSome
    · refine List.mem_append_left _ ((hlisted₂.mem_iff entry).mpr ?_)
      exact hactive₂.beside.isSome_of (hactive.beside.isSome_of ((h.listed.mem_iff entry).mp hdb))
    · refine List.mem_append_right _ ?_
      rw [AList.keys_erase, hactive₂.asleep_eq, hactive.asleep_eq]
      exact (List.mem_erase_of_ne hother).mpr hfile
  · rw [isAsleep, hback.asleep_eq, AList.lookup_erase]
    rfl
  · have hgrows : S.Grows ws₁.pool.cas
        (ws₁.bringBack env name record (ws.stored record).token.manifest pages).2.pool.cas :=
      hback.pool_eq ▸ hactive₂.beside.grows
    have hsize₂ : (ws₁.bringBack env name record (ws.stored record).token.manifest
        pages).2.pool.pageSize = ws₁.pool.pageSize :=
      hback.pool_eq ▸ hactive₂.beside.pageSize_eq
    have hopens₂ := hopens₁.grows hS.toContentAddressed hgrows
    rw [← hsize₂] at hopens₂ hroot
    obtain ⟨kernel, hok, hconn⟩ := openBranch_of_headOpens hS henv' h.valid hroot
      (by rw [hhead]; exact hopens₂)
    exact ⟨_, hok, congrArg E.content hconn⟩

/-- What a removal of a branch's directory that is cut off may leave: a log that records nothing
that the whole one did not, or none. -/
def LeavesPart (records : S.Wal → S.ManifestId → Prop) (leftover : DbDir S → DbDir S) : Prop :=
  ∀ dir m, records ((leftover dir).wal.getD S.freshWal) m → records (dir.wal.getD S.freshWal) m

/-- What a part of a log recovers opens, if all that the log recorded does. -/
theorem Standing.headOpens_of_part (hS : S.Laws) (hrec : S.Records records) {ws : Workspace S}
    (hnew : NewDatabase S E ws.pool.pageSize) (h : Standing E records ws name content)
    {leftover : DbDir S → DbDir S} (hleft : LeavesPart records leftover) :
    ∃ conn : E.Connection, HeadOpens ws.pool.cas ws.pool.pageSize
      ((ws.pool.updateDir name leftover).recoveredHead name) conn := by
  obtain ⟨dir, hdir⟩ := Option.isSome_iff_exists.mp h.dir
  have hwal : (ws.pool.updateDir name leftover).wal name =
      (leftover dir).wal.getD S.freshWal := by
    rw [Pool.wal, Pool.updateDir_dbs, hdir]
    rfl
  have hwal' : ws.pool.wal name = dir.wal.getD S.freshWal := by
    rw [Pool.wal, hdir]
    rfl
  rw [Pool.recoveredHead, hwal]
  rcases hrec.recovered ws.pool.pageSize ((leftover dir).wal.getD S.freshWal) with
    hrecorded | hroot
  · refine h.recorded _ ?_
    rw [hwal']
    exact hleft dir _ hrecorded
  · exact hnew.headOpens hS.toContentAddressed hroot ws.pool.cas

/-- An entry that keeps a branch in the listing that stands. -/
theorem Standing.entry {ws : Workspace S} (h : Standing E records ws name content) :
    ∃ entry, stripJson entry = name ∧ (entry = name ∨ entry ∈ ws.dbs.erase name ∨
      entry ∈ ws.asleep.keys ∧ entry ≠ sleepRecordFile name) := by
  obtain ⟨entry, hentry, hstrip⟩ := mem_branchNames_iff.mp h.known
  refine ⟨entry, hstrip, ?_⟩
  by_cases hself : entry = name
  · exact .inl hself
  · rcases List.mem_append.mp hentry with hdb | hfile
    · exact .inr (.inl ((List.mem_erase_of_ne hself).mpr hdb))
    · refine .inr (.inr ⟨hfile, fun hrecord => ?_⟩)
      have hasleep : ws.isAsleep name = true := isAsleep_iff.mpr (hrecord ▸ hfile)
      rw [h.awake] at hasleep
      cases hasleep

/-- A branch that stands is safe once the end of its sleep was tried, unless the record was cut
short. -/
theorem Standing.fileAway (hS : S.Laws) (hP : S.Positions) (hrec : S.Records records)
    {out : Outside S E} (hcopies : out.Copies) (hcaches : out.Caches) {ws : Workspace S}
    (hnew : NewDatabase S E ws.pool.pageSize) (h : Standing E records ws name content)
    {record : SleepRecord S} (htier : TierOpens out ws record content) (env : CliEnv S E)
    (hleft : LeavesPart records env.leftover) (hwrite : env.io .writeRecord = none) :
    (ws.fileAway env name record).2.Safe out name content := by
  obtain ⟨entry, hstrip, hentry⟩ := h.entry
  have hkeys (ws' : Workspace S)
      (hasleep : ws'.asleep = ws.asleep.insert (sleepRecordFile name) (.whole record))
      (hdbs : ∀ n ∈ ws.dbs.erase name, n ∈ ws'.dbs) :
      ∃ entry, stripJson entry = name ∧ (entry = name ∨ entry ∈ ws'.dbs ∨
        entry ∈ ws'.asleep.keys ∧ entry ≠ sleepRecordFile name) := by
    refine ⟨entry, hstrip, hentry.imp_right (Or.imp (hdbs entry) fun ⟨hfile, hother⟩ => ?_)⟩
    rw [hasleep, ← AList.mem_keys, AList.mem_insert]
    exact ⟨.inr (AList.mem_keys.mpr hfile), hother⟩
  rcases fileAway_cases env ws name record with
    hactive | ⟨hfault⟩ | ⟨-, hpool, hdbs, hhead, htiers, hasleep⟩ |
      ⟨hpool, hdbs, hhead, htiers, hasleep⟩
  · have hstanding := h.aside hS.toContentAddressed hactive
    exact .inl (hstanding.usable hS ((hactive name).beside.pageSize_eq.symm ▸ hnew))
  · exact absurd hwrite hfault
  all_goals
    have hsize : (ws.fileAway env name record).2.pool.pageSize = ws.pool.pageSize :=
      (congrArg Pool.pageSize hpool).trans rfl
    have hnew' : NewDatabase S E (ws.fileAway env name record).2.pool.pageSize := hsize.symm ▸ hnew
    have htier' : TierOpens out (ws.fileAway env name record).2 record content := by
      rw [TierOpens, hsize, Workspace.stored, htiers]
      exact htier
    have hfile : (ws.fileAway env name record).2.asleep.lookup (sleepRecordFile name) =
        some (.whole record) := by rw [hasleep, AList.lookup_insert]
  · obtain ⟨conn, hopens⟩ := h.headOpens_of_part hS hrec hnew hleft
    have hfiled : Filed out (ws.fileAway env name record).2 name record content :=
      ⟨exists_of_head_eq hhead h.exists, h.listed.updateDir hpool hdbs,
        hkeys _ hasleep fun n hn => hdbs ▸ List.mem_of_mem_erase hn, hfile, h.valid, htier', conn,
        by rw [hpool]; exact hopens⟩
    exact .inr (hfiled.wakeable hS hP hcopies hcaches hnew')
  · have hfree : (ws.fileAway env name record).2.pool.dbs name = none := by
      rw [hpool]
      exact Function.update_self _ _ _
    have hfiled : Filed out (ws.fileAway env name record).2 name record content :=
      ⟨exists_of_head_eq hhead h.exists, h.listed.gone hpool hdbs,
        hkeys _ hasleep fun n hn => hdbs ▸ hn, hfile, h.valid, htier',
        hnew'.headOpens_of_free hS hfree⟩
    exact .inr (hfiled.wakeable hS hP hcopies hcaches hnew')

/-- A branch that stands is safe after a sleep was tried, whichever call failed or was the last
one, unless that was the write of the record. -/
theorem Standing.sleep (hS : S.Laws) (hP : S.Positions) (hE : E.Laws) (hR : E.Reopens)
    (hrec : S.Records records) {out : Outside S E} (hcopies : out.Copies) (hcaches : out.Caches)
    (hfetch : out.Fetches) {ws : Workspace S} (hnew : NewDatabase S E ws.pool.pageSize)
    (h : Standing E records ws name content) {branch : Option String} (env : CliEnv S E)
    (hresolve : ∀ n, (ws.resolve env.io branch : Except (CliError S E) String) = .ok n → n = name)
    (tier : Option String) (hleft : LeavesPart records env.leftover)
    (hwrite : env.io .writeRecord = none) :
    (ws.sleep out env branch tier).2.Safe out name content := by
  have husable {ws' : Workspace S} (h' : Standing E records ws' name content)
      (hsize : ws'.pool.pageSize = ws.pool.pageSize) : ws'.Safe out name content :=
    .inl (h'.usable hS (hsize.symm ▸ hnew))
  unfold Workspace.sleep
  rcases hresolved : (ws.resolve env.io branch : Except (CliError S E) String) with e | n
  · exact husable h rfl
  obtain rfl : n = name := hresolve n hresolved
  have hprepare := prepareTierDir_active out env.io ws (tier.getD (ws.pool.root ++ "/cold"))
  simp only
  rcases hprepared : ws.prepareTierDir out env.io (tier.getD (ws.pool.root ++ "/cold")) with
    ⟨e | dir, ws₀⟩
  all_goals
    rw [hprepared] at hprepare
    have h₀ := h.aside hS.toContentAddressed hprepare
    have hsize₀ := (hprepare n).beside.pageSize_eq
  · exact husable h₀ hsize₀
  simp only
  rcases (remoteTier env.io dir : Except (CliError S E) Unit) with e | ⟨⟩
  · exact husable h₀ hsize₀
  obtain ⟨h₁, hdb⟩ := h₀.openBranch hS hrec env
  have hactive₁ := (openBranch_active hS.toRecovers env ws₀ n).1
  simp only
  rcases hopened : ws₀.openBranch env n with ⟨e | db, ws₁⟩
  all_goals
    rw [hopened] at h₁ hdb hactive₁
    have hsize₁ := hactive₁.beside.pageSize_eq.trans hsize₀
  · exact husable h₁ hsize₁
  obtain ⟨rfl, hcontent, hstore⟩ := hdb db rfl
  simp only
  rcases (runtime env.io : Except (CliError S E) Unit) with e | ⟨⟩
  · exact husable h₁ hsize₁
  obtain ⟨h₂, htoken⟩ := h₁.upload hS hE hR hrec hfetch hcontent hstore env dir
    (poolName out.canonicalRoot)
  have hactive₂ := (upload_active hS env ws₁ db dir (poolName out.canonicalRoot)).1
  simp only
  rcases huploaded : ws₁.upload env db dir (poolName out.canonicalRoot) with ⟨e | token, ws₂⟩
  all_goals
    rw [huploaded] at h₂ htoken hactive₂
    have hsize₂ := hactive₂.beside.pageSize_eq.trans hsize₁
  · exact husable h₂ hsize₂
  · exact h₂.fileAway hS hP hrec hcopies hcaches (hsize₂.symm ▸ hnew) (htoken token rfl) env hleft
      hwrite

end Workspace

/-- A point at which the process of a sleep can die: at one of the command line's own calls, in
the opening of the branch or its last snapshot, in the upload, or in the removal of the directory;
or it comes to its end. What a removal that is cut off leaves is part of the point. -/
inductive CrashPoint (S : Substrate) (E : Engine) where
  | call (call : CliCall) (source : IoError)
  | opening (env : Env S E)
  | snapshot (env : Env S E)
  | upload (faults : SleepFaults S) (strayed : Bucket S)
  | removal (leftover : DbDir S → DbDir S) (source : IoError)
  | done

namespace CrashPoint

/-- What a sleep meets whose process dies at a point. -/
def env (base : CliEnv S E) : CrashPoint S E → CliEnv S E
  | .call failing source => { base with io := Function.update base.io failing (some source) }
  | .opening env => { base with opening := env }
  | .snapshot env => { base with working := env }
  | .upload faults strayed => { base with sleeping := faults, strayed }
  | .removal leftover source =>
    { base with io := Function.update base.io .removeBranchDir (some source), leftover }
  | .done => base

end CrashPoint

namespace Workspace

variable {records : S.Wal → S.ManifestId → Prop} {name : String} {content : E.Content}

end Workspace

namespace Memory

/-- A woken in-memory store has what the tier has. -/
theorem outside_fetches : outside.Fetches where
  resolves := by
    intro uploaded m chain hm hchain
    obtain ⟨edges, hmem, -⟩ := hchain m hm
    exact if_pos (.inr (List.mem_map_of_mem hmem))
  get := fun hpage => if_pos hpage

/-- An in-memory log records its last head. -/
def records (wal : Option ManifestId) (m : ManifestId) : Prop := wal = some m

/-- What an in-memory log records is what it recovers. -/
theorem memory_records : (memory []).Records records where
  recovered := by
    intro pageSize wal
    cases wal with
    | none => exact .inr rfl
    | some m => exact .inl rfl
  recover := fun _ _ _ => rfl
  commit := by
    intro cas wal head txn now m h
    by_cases hsame : ((memory []).commit cas wal head txn now).1 = head
    · rw [(laws []).wal_commit_of_unchanged hsame] at h
      exact .inl h
    · have hrecovered := (laws []).recovered_commit 0 hsame
      have hlog : ((memory []).commit cas wal head txn now).2.2 = some m := h
      rw [hlog] at hrecovered
      exact .inr hrecovered
  freshWal := fun m h => by cases h

/-- The pool after a first import. -/
def imported : Workspace (memory []) :=
  (emptyWorkspace.run outside (importTrades none)).2

/-- The branch of the import stands in that pool. -/
theorem standing_imported :
    Workspace.Standing memoryEngine records imported "main" ([64, 66, 29] : Bytes) := by
  have hopens : @HeadOpens (memory []) memoryEngine imported.pool.cas imported.pool.pageSize
      (imported.pool.recoveredHead "main") ([64, 66, 29] : Bytes) :=
    ⟨pageMap _, [0, 64, 66, 29], "", (), rfl, rfl, rfl, rfl⟩
  have hempty : emptyWorkspace.Listed := ⟨List.nodup_nil, fun n => by
    change n ∈ [] ↔ _
    simp [emptyWorkspace, Workspace.start]⟩
  have hlisted : imported.Listed := by
    have hrun := Workspace.import_cases (laws []) outside cliEnv emptyWorkspace none trades none
    rcases hrun with ⟨e, herror, -⟩ | ⟨name, reader, table, -, ws₁, hactive, hmoved, -⟩
    · cases herror
    · rcases hmoved with hsame | ⟨-, -, hmoved⟩
      · have hsame : imported = ws₁ := hsame
        exact hsame ▸ hactive.listed hempty
      · exact (hactive.listed hempty).of_isSome hmoved.dbs_eq fun n =>
          congrArg (fun pool => (pool.dbs n).isSome) hmoved.pool_eq
  have hrecorded : imported.pool.OpensRecorded memoryEngine records "main" := by
    intro m hm
    have hlog : imported.pool.wal "main" = some m := hm
    have hhead : imported.pool.recoveredHead "main" = m := by
      rw [Pool.recoveredHead, hlog]
      rfl
    exact ⟨_, hhead ▸ hopens⟩
  exact ⟨rfl, hlisted, by decide, rfl, rfl, rfl, by decide, ⟨_, hopens, rfl⟩, hrecorded⟩

end Memory

namespace Workspace

end Workspace

end FlockDb
