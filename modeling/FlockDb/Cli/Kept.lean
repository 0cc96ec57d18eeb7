import FlockDb.Cli.Resting
import FlockDb.Core.Recorded

/-!
# What a workspace keeps of a branch

A workspace keeps a branch with a content if its directory stands with that, or a whole record
names a head in the tiers that opens with it. Each move of a command spares what the workspace
keeps: of all branches, or of all but the one that the command writes to.
-/

namespace FlockDb

variable {S : Substrate} {E : Engine}

/-- The tiers have what they had. -/
def Tiers.Grow (tiers tiers' : Tiers S) : Prop :=
  ∀ dir pool, (tiers dir pool).manifests ⊆ (tiers' dir pool).manifests ∧
    (tiers dir pool).pages ⊆ (tiers' dir pool).pages

/-- Tiers that nothing was stored in. -/
theorem Tiers.Grow.refl (tiers : Tiers S) : tiers.Grow tiers := fun _ _ =>
  ⟨List.Subset.refl _, List.Subset.refl _⟩

/-- Storing composes. -/
theorem Tiers.Grow.trans {tiers tiers' tiers'' : Tiers S} (h : tiers.Grow tiers')
    (h' : tiers'.Grow tiers'') : tiers.Grow tiers'' := fun dir pool =>
  ⟨List.Subset.trans (h dir pool).1 (h' dir pool).1,
    List.Subset.trans (h dir pool).2 (h' dir pool).2⟩

/-- What a sleep stores is stored beside what was there. -/
theorem Tiers.grow_store (tiers : Tiers S) (dir pool : String) (uploaded : Bucket S) :
    tiers.Grow (tiers.store dir pool uploaded) := by
  intro dir' pool'
  rw [store]
  by_cases hdir : dir' = dir
  · subst hdir
    rw [Function.update_self]
    by_cases hpool : pool' = pool
    · subst hpool
      rw [Function.update_self]
      exact ⟨List.subset_append_left _ _, List.subset_append_left _ _⟩
    · rw [Function.update_of_ne hpool]
      exact ⟨List.Subset.refl _, List.Subset.refl _⟩
  · rw [Function.update_of_ne hdir]
    exact ⟨List.Subset.refl _, List.Subset.refl _⟩

/-- What the commands rely on of a tier over time: the store over one that has more has what the
store had. -/
def Outside.Accumulates (out : Outside S E) : Prop :=
  ∀ {uploaded uploaded' : Uploaded S}, uploaded'.token = uploaded.token →
    uploaded.manifests ⊆ uploaded'.manifests → uploaded.pages ⊆ uploaded'.pages →
      S.Grows (out.wakeCas uploaded) (out.wakeCas uploaded')

/-- What the commands rely on over whole runs: of substrate and its logs, of DuckDB, and of the
tiers, the cache and the copy. -/
structure Outside.Reliable (out : Outside S E) (records : S.Wal → S.ManifestId → Prop) : Prop where
  substrate : S.Laws
  positions : S.Positions
  engine : E.Laws
  reopens : E.Reopens
  logs : S.Records records
  marks : S.Marks records
  copies : out.Copies
  caches : out.Caches
  fetches : out.Fetches
  accumulates : out.Accumulates

namespace Workspace

/-- What is kept of a branch: its directory stands with the content, or a whole record names a head
that opens from the tiers with it. -/
structure Kept (out : Outside S E) (ws : Workspace S) (name : String) (content : E.Content) :
    Prop where
  «exists» : ws.exists = true
  valid : validateName (S := S) (E := E) name = .ok ()
  has : (ws.isAsleep name = false ∧ (ws.pool.dbs name).isSome ∧
      ws.pool.Stands (E := E) name content) ∨
    ∃ record, ws.asleep.lookup (sleepRecordFile name) = some (.whole record) ∧
      TierOpens out ws record content

/-- A workspace in order: its directories are listed, every head that a log records opens, and
every record is of the pool's page size. -/
structure Sound (E : Engine) (records : S.Wal → S.ManifestId → Prop) (pageSize : ℕ)
    (ws : Workspace S) : Prop where
  listed : ws.Listed
  pageSize_eq : ws.pool.pageSize = pageSize
  recorded : ∀ n, ws.pool.OpensRecorded E records n
  sized : ∀ {file record}, ws.asleep.lookup file = some (.whole record) →
    record.token.pageSize = pageSize

/-- A step into a workspace in order that keeps every branch as it was, or every one but one. -/
structure Spares (out : Outside S E) (records : S.Wal → S.ManifestId → Prop) (pageSize : ℕ)
    (but : Option String) (ws ws' : Workspace S) : Prop where
  sound : ws'.Sound E records pageSize
  kept : ∀ {n content}, some n ≠ but → ws.Kept out n content → ws'.Kept out n content
  grow : ws.tiers.Grow ws'.tiers

variable {out : Outside S E} {records : S.Wal → S.ManifestId → Prop} {pageSize : ℕ}
  {name : String} {content : E.Content}

/-- To do nothing spares every branch. -/
theorem Spares.refl {ws : Workspace S} (h : ws.Sound E records pageSize) :
    ws.Spares out records pageSize none ws :=
  ⟨h, fun _ hkept => hkept, .refl _⟩

/-- Steps that spare every branch but one compose. -/
theorem Spares.trans {but : Option String} {ws ws' ws'' : Workspace S}
    (h : ws.Spares out records pageSize but ws') (h' : ws'.Spares out records pageSize but ws'') :
    ws.Spares out records pageSize but ws'' :=
  ⟨h'.sound, fun hn hkept => h'.kept hn (h.kept hn hkept), h.grow.trans h'.grow⟩

/-- A step that spares every branch keeps each of them. -/
theorem Spares.keeps {ws ws' : Workspace S} (h : ws.Spares out records pageSize none ws')
    (hkept : ws.Kept out name content) : ws'.Kept out name content :=
  h.kept (Option.some_ne_none name) hkept

/-- A step that spares every branch spares every one but one. -/
theorem Spares.weaken {ws ws' : Workspace S} (h : ws.Spares out records pageSize none ws')
    (but : Option String) : ws.Spares out records pageSize but ws' :=
  ⟨h.sound, fun _ hkept => h.keeps hkept, h.grow⟩

/-- A head in the tiers opens with its content when the tiers have more. -/
theorem TierOpens.grows (hS : S.ContentAddressed) (hout : out.Accumulates) {ws ws' : Workspace S}
    {record : SleepRecord S} (h : TierOpens out ws record content)
    (hsize : ws'.pool.pageSize = ws.pool.pageSize) (hgrow : ws.tiers.Grow ws'.tiers) :
    TierOpens out ws' record content := by
  obtain ⟨htoken, conn, hopens, hcontent⟩ := h
  obtain ⟨hmanifests, hpages⟩ := hgrow record.tier record.pool
  have hgrows : S.Grows (out.wakeCas (ws.stored record)) (out.wakeCas (ws'.stored record)) :=
    hout rfl hmanifests hpages
  exact ⟨htoken.trans hsize.symm, conn, hopens.grows hS hgrows, hcontent⟩

/-- What is kept of a branch whose directory and record nothing is done to. -/
theorem Kept.frame (hS : S.ContentAddressed) (hout : out.Accumulates) {ws ws' : Workspace S}
    (h : ws.Kept out name content) (hexists : ws.exists = true → ws'.exists = true)
    (hgrows : S.Grows ws.pool.cas ws'.pool.cas) (hsize : ws'.pool.pageSize = ws.pool.pageSize)
    (hdir : ws'.pool.dbs name = ws.pool.dbs name)
    (hfile : ws'.asleep.lookup (sleepRecordFile name) = ws.asleep.lookup (sleepRecordFile name))
    (hgrow : ws.tiers.Grow ws'.tiers) : ws'.Kept out name content := by
  refine ⟨hexists h.exists, h.valid, ?_⟩
  rcases h.has with ⟨hawake, hsome, hstands⟩ | ⟨record, hrecord, htier⟩
  · have hhead : ws'.pool.recoveredHead name = ws.pool.recoveredHead name := by
      rw [Pool.recoveredHead, Pool.wal, hdir, hsize]
      rfl
    refine .inl ⟨?_, hdir ▸ hsome, hstands.grows hS hgrows hsize hhead⟩
    rw [isAsleep, hfile]
    exact hawake
  · exact .inr ⟨record, hfile.trans hrecord, htier.grows hS hout hsize hgrow⟩

/-- Work on a branch spares what is kept of the others, and of the branch itself if its directory
stands as before whenever it is awake. -/
theorem spares_of_active (hout : out.Reliable records) {ws ws' : Workspace S}
    (h : ws.Sound E records pageSize) (hactive : ws.Active name ws')
    (hgrow : ws.tiers.Grow ws'.tiers) (hrecorded : ws'.pool.OpensRecorded E records name)
    {but : Option String}
    (hself : some name ≠ but → ∀ content : E.Content, ws.isAsleep name = false →
      (ws.pool.dbs name).isSome → ws.pool.Stands (E := E) name content →
        ws'.pool.Stands (E := E) name content) :
    ws.Spares out records pageSize but ws' := by
  have hS := hout.substrate.toContentAddressed
  have hsize := hactive.beside.pageSize_eq
  refine ⟨⟨hactive.listed h.listed, hsize.trans h.pageSize_eq, fun n => ?_, fun hrecord => ?_⟩,
    fun {n content} hn hkept => ?_, hgrow⟩
  · by_cases hname : n = name
    · exact hname ▸ hrecorded
    · exact (h.recorded n).beside hS hactive.beside hname
  · rw [hactive.asleep_eq] at hrecord
    exact h.sized hrecord
  · have hexists := exists_of_head_eq hactive.head_eq
    by_cases hname : n = name
    · subst hname
      refine ⟨hexists hkept.exists, hkept.valid, ?_⟩
      rcases hkept.has with ⟨hawake, hsome, hstands⟩ | ⟨record, hrecord, htier⟩
      · refine .inl ⟨?_, hactive.beside.isSome hsome, hself hn content hawake hsome hstands⟩
        rw [isAsleep, hactive.asleep_eq]
        exact hawake
      · exact .inr ⟨record, hactive.asleep_eq ▸ hrecord,
          htier.grows hS hout.accumulates hsize hgrow⟩
    · exact hkept.frame hS hout.accumulates hexists hactive.beside.grows hsize
        (hactive.beside.dbs_eq n hname) (hactive.asleep_eq ▸ rfl) hgrow

/-- Work on no branch in particular spares every branch. -/
theorem spares_of_aside (hout : out.Reliable records) {ws ws' : Workspace S}
    (h : ws.Sound E records pageSize) (hactive : ∀ n, ws.Active n ws')
    (hgrow : ws.tiers.Grow ws'.tiers) : ws.Spares out records pageSize none ws' := by
  have hS := hout.substrate.toContentAddressed
  have hbeside (n : String) : ∃ other, n ≠ other ∧ ws.pool.Beside other ws'.pool := by
    obtain ⟨other, hother⟩ := exists_ne n
    exact ⟨other, hother.symm, (hactive other).beside⟩
  obtain ⟨other, hother, hpool⟩ := hbeside ""
  refine spares_of_active hout h (hactive "") hgrow ((h.recorded "").beside hS hpool hother) ?_
  exact fun _ content _ _ hstands => hstands.beside hS hpool hother

/-- Whether `HEAD` was moved or not, every branch is spared. -/
theorem spares_setHead (hout : out.Reliable records) {ws : Workspace S}
    (h : ws.Sound E records pageSize) (io : CliFaults) (name : String) :
    ws.Spares out records pageSize none
      (ws.setHead io name : Except (CliError S E) Unit × Workspace S).2 := by
  have hS := hout.substrate.toContentAddressed
  have htiers : (ws.setHead io name : Except (CliError S E) Unit × Workspace S).2.tiers =
      ws.tiers := by
    unfold setHead
    cases io .createPool with
    | some source => rfl
    | none => cases io .writeHead <;> rfl
  have hgrow : ws.tiers.Grow
      (ws.setHead io name : Except (CliError S E) Unit × Workspace S).2.tiers :=
    htiers ▸ .refl _
  rcases setHead_cases (E := E) ws io name with ⟨-, -, hactive⟩ | ⟨-, hmoved⟩
  · exact spares_of_aside hout h hactive hgrow
  · obtain ⟨hpool, hhead, hasleep, hdbs⟩ := hmoved
    refine ⟨⟨h.listed.of_isSome hdbs fun n => hpool ▸ rfl, hpool ▸ h.pageSize_eq,
      fun n => hpool ▸ h.recorded n, fun hrecord => h.sized (hasleep ▸ hrecord)⟩,
      fun _ hkept => ?_, hgrow⟩
    refine hkept.frame hS hout.accumulates (fun _ => ?_) (hpool ▸ .refl _) (hpool ▸ rfl)
      (hpool ▸ rfl) (hasleep ▸ rfl) hgrow
    rw [Workspace.exists, hhead]
    rfl

/-- Opening a branch spares every branch. A handle that it returns is where the log is, and the
branch stands with its content. -/
theorem spares_openBranch (hout : out.Reliable records) {ws : Workspace S}
    (h : ws.Sound E records pageSize) (env : CliEnv S E) (name : String) :
    ws.Spares out records pageSize none (ws.openBranch env name).2 ∧
      ∀ db, (ws.openBranch env name).1 = .ok db →
        db.name = name ∧ (ws.openBranch env name).2.pool.Holds db ∧
          (ws.openBranch env name).2.pool.Stands (E := E) name (E.content db.kernel.conn) := by
  have hS := hout.substrate
  obtain ⟨hactive, -⟩ := openBranch_active hS.toRecovers env ws name
  have hpool := openBranch_pool env ws name
  have htiers : (ws.openBranch env name).2.tiers = ws.tiers := by
    unfold openBranch
    rcases Flock.openWith env.opening ws.pool name ⟨none, none⟩ with ⟨e | db, pool⟩ <;> rfl
  have hrecorded : (ws.openBranch env name).2.pool.OpensRecorded E records name :=
    hpool ▸ (h.recorded name).openWith hS hout.logs env.opening ⟨none, none⟩
  refine ⟨spares_of_active hout h hactive (htiers ▸ .refl _) hrecorded
    fun _ content _ _ hstands => hpool ▸ hstands.openWith hS env.opening ⟨none, none⟩, ?_⟩
  intro db hok
  have hopened : Flock.openWith env.opening ws.pool name ⟨none, none⟩ =
      (.ok db, (ws.openBranch env name).2.pool) := by
    rw [hpool]
    unfold openBranch at hok
    rcases hopened : Flock.openWith env.opening ws.pool name ⟨none, none⟩ with ⟨e | db', pool⟩
    all_goals rw [hopened] at hok
    · cases hok
    · rw [Except.ok.inj hok]
  exact Pool.holds_of_openWith hS hopened

/-- A commit spares every branch but its own, and that one too if it fails. If it goes through, the
branch stands with the content of the handle. -/
theorem spares_commit (hout : out.Reliable records) (hpos : 0 < pageSize) {ws : Workspace S}
    (h : ws.Sound E records pageSize) {db : Db S E} (hholds : ws.pool.Holds db)
    {content : E.Content} (hstands : ws.pool.Stands (E := E) db.name content)
    (env : CliEnv S E) :
    ((∃ e, (ws.commit env db).1 = .error e) ∧
        ws.Spares out records pageSize none (ws.commit env db).2) ∨
    (ws.commit env db).1 = .ok () ∧
      ws.Spares out records pageSize (some db.name) (ws.commit env db).2 ∧
      (ws.commit env db).2.pool.Stands (E := E) db.name (E.content db.kernel.conn) := by
  have hS := hout.substrate
  have hactive := commit_active hS env ws db
  obtain ⟨hrecorded, htaken, hrefused⟩ := Pool.stands_snapshot hS hout.engine hout.reopens
    hout.logs (h.pageSize_eq ▸ hpos) hholds hstands (h.recorded db.name) env.working
  unfold commit at hactive ⊢
  rcases hsnapshot : db.snapshot env.working ws.pool with ⟨e | m, db', pool⟩
  all_goals
    simp only [hsnapshot] at hactive
    rw [hsnapshot] at hrecorded htaken hrefused
  · refine .inl ⟨⟨_, rfl⟩, spares_of_active hout h hactive (.refl _) hrecorded ?_⟩
    intro _ content' _ _ hstands'
    exact hstands.unique hstands' ▸ hrefused e rfl
  · exact .inr ⟨rfl, spares_of_active hout h hactive (.refl _) hrecorded
      fun hne => absurd rfl hne, (htaken m rfl).1⟩

/-- A branch that a command resolved and opened stands with the content of its handle. -/
theorem standing_of_opened {ws ws₁ : Workspace S} (hlisted : ws.Listed)
    (hsound : ws₁.Sound E records pageSize) (hpos : 0 < pageSize) (hactive : ws.Active name ws₁)
    {io : CliFaults} {branch : Option String}
    (hresolve : (ws.resolve io branch : Except (CliError S E) String) = .ok name)
    (hvalid : validateName (S := S) (E := E) name = .ok ()) (hsome : (ws₁.pool.dbs name).isSome)
    (hstands : ws₁.pool.Stands (E := E) name content) :
    Standing E records ws₁ name content := by
  obtain ⟨-, hexists, hknown, hawake⟩ := resolve_ok hresolve
  exact ⟨exists_of_head_eq hactive.head_eq hexists, hsound.listed,
    hactive.listed_name hlisted hknown, by rw [isAsleep, hactive.asleep_eq]; exact hawake, hvalid,
    hsome, hsound.pageSize_eq.symm ▸ hpos, hstands, hsound.recorded name⟩

/-- An upload spares every branch, whether or not it goes through. What it stored opens with the
content of the branch. -/
theorem spares_upload (hout : out.Reliable records) {ws : Workspace S}
    (h : ws.Sound E records pageSize) {db : Db S E} (hholds : ws.pool.Holds db)
    (hstanding : Standing E records ws db.name (E.content db.kernel.conn)) (env : CliEnv S E)
    (dir pool : String) :
    ws.Spares out records pageSize none (ws.upload env db dir pool).2 ∧
      ∀ token, (ws.upload env db dir pool).1 = .ok token →
        Standing E records (ws.upload env db dir pool).2 db.name (E.content db.kernel.conn) ∧
          TierOpens out (ws.upload env db dir pool).2 ⟨dir, pool, token⟩
            (E.content db.kernel.conn) := by
  have hS := hout.substrate
  obtain ⟨hactive, -⟩ := upload_active hS env ws db dir pool
  have hgrow : ws.tiers.Grow (ws.upload env db dir pool).2.tiers := by
    unfold upload
    rcases db.sleep env.working env.sleeping env.fuel ws.pool pool with ⟨e | _ | uploaded, after⟩
    all_goals exact ws.tiers.grow_store dir pool _
  obtain ⟨hstanding', htier⟩ := hstanding.upload hS hout.engine hout.reopens hout.logs
    hout.fetches rfl hholds.store_eq env dir pool
  refine ⟨spares_of_active hout h hactive hgrow hstanding'.recorded ?_, fun token hok =>
    ⟨hstanding', htier token hok⟩⟩
  intro _ content' _ _ hstands
  exact hstanding.stands.unique hstands ▸ hstanding'.stands

/-- The end of a sleep leaves a record in place of what was there. -/
theorem spares_recorded (hout : out.Reliable records) {ws ws' : Workspace S}
    (h : ws.Sound E records pageSize) (hstanding : Standing E records ws name content)
    {record : SleepRecord S} (htier : TierOpens out ws record content) (hlisted : ws'.Listed)
    (hrecorded : ws'.pool.OpensRecorded E records name) (hcas : ws'.pool.cas = ws.pool.cas)
    (hsize : ws'.pool.pageSize = ws.pool.pageSize)
    (hdbs : ∀ n, n ≠ name → ws'.pool.dbs n = ws.pool.dbs n) (hhead : ws'.head = ws.head)
    (htiers : ws'.tiers = ws.tiers)
    (hasleep : ws'.asleep = ws.asleep.insert (sleepRecordFile name) (.whole record)) :
    ws.Spares out records pageSize none ws' := by
  have hS := hout.substrate.toContentAddressed
  have hexists := exists_of_head_eq hhead
  have hgrow : ws.tiers.Grow ws'.tiers := htiers ▸ .refl _
  refine ⟨⟨hlisted, hsize.trans h.pageSize_eq, fun n => ?_, fun {file record'} hrecord => ?_⟩,
    fun {n content'} _ hkept => ?_, hgrow⟩
  · by_cases hname : n = name
    · exact hname ▸ hrecorded
    · have hwal : ws'.pool.wal n = ws.pool.wal n := by
        rw [Pool.wal, hdbs n hname]
        rfl
      exact (h.recorded n).grows hS (hcas ▸ .refl _) hsize fun m hm => .inl (hwal ▸ hm)
  · by_cases hfile : file = sleepRecordFile name
    · rw [hasleep, hfile, AList.lookup_insert] at hrecord
      cases hrecord
      exact htier.1.trans h.pageSize_eq
    · rw [hasleep, AList.lookup_insert_ne hfile] at hrecord
      exact h.sized hrecord
  · by_cases hname : n = name
    · subst hname
      refine ⟨hexists hkept.exists, hkept.valid, .inr ⟨record, ?_, ?_⟩⟩
      · rw [hasleep, AList.lookup_insert]
      · rcases hkept.has with ⟨-, -, hstands⟩ | ⟨record', hrecord, -⟩
        · exact hstanding.stands.unique hstands ▸ htier.grows hS hout.accumulates hsize hgrow
        · -- It was awake, so that there was no record.
          have hawake := hstanding.awake
          rw [isAsleep, hrecord] at hawake
          cases hawake
    · refine hkept.frame hS hout.accumulates hexists (hcas ▸ .refl _) hsize (hdbs n hname) ?_ hgrow
      rw [hasleep, AList.lookup_insert_ne fun hfile => hname (sleepRecordFile_injective hfile)]

/-- The end of a sleep spares every branch, whichever call of it fails, if the record is not cut
short and a removal that fails leaves a part of the log. -/
theorem spares_fileAway (hout : out.Reliable records) {ws : Workspace S}
    (h : ws.Sound E records pageSize) (hstanding : Standing E records ws name content)
    {record : SleepRecord S} (htier : TierOpens out ws record content) {env : CliEnv S E}
    (hleft : LeavesPart records env.leftover) (hwrite : env.io .writeRecord = none) :
    ws.Spares out records pageSize none (ws.fileAway env name record).2 := by
  have htiers : (ws.fileAway env name record).2.tiers = ws.tiers := by
    unfold fileAway writeSleepRecord
    cases env.io .createAsleep with
    | some source => rfl
    | none =>
      cases env.io .createRecord with
      | some source => rfl
      | none =>
        simp only [hwrite, removeBranchDir]
        cases env.io .removeBranchDir <;> rfl
  rcases fileAway_cases env ws name record with
    hactive | ⟨hfault⟩ | ⟨-, hpool, hdbs, hhead, -, hasleep⟩ | ⟨hpool, hdbs, hhead, -, hasleep⟩
  · exact spares_of_aside hout h hactive (htiers ▸ .refl _)
  · exact absurd hwrite hfault
  · obtain ⟨dir, hdir⟩ := Option.isSome_iff_exists.mp hstanding.dir
    have hwal : (ws.fileAway env name record).2.pool.wal name =
        (env.leftover dir).wal.getD S.freshWal := by
      rw [hpool, Pool.wal, Pool.updateDir_dbs, hdir]
      rfl
    have hwal' : ws.pool.wal name = dir.wal.getD S.freshWal := by
      rw [Pool.wal, hdir]
      rfl
    refine spares_recorded hout h hstanding htier (h.listed.updateDir hpool hdbs) ?_ (hpool ▸ rfl)
      (hpool ▸ rfl) (fun n hn => ?_) hhead htiers hasleep
    · intro m hm
      rw [hwal] at hm
      have hopens := h.recorded name m (hwal' ▸ hleft dir m hm)
      rw [hpool]
      exact hopens
    · rw [hpool]
      exact Function.update_of_ne hn _ _
  · refine spares_recorded hout h hstanding htier (h.listed.gone hpool hdbs) ?_ (hpool ▸ rfl)
      (hpool ▸ rfl) (fun n hn => ?_) hhead htiers hasleep
    · intro m hm
      have hwal : (ws.fileAway env name record).2.pool.wal name = S.freshWal := by
        rw [hpool, Pool.wal]
        simp
      rw [hwal] at hm
      exact absurd hm (hout.logs.freshWal m)
    · rw [hpool]
      exact Function.update_of_ne hn _ _

/-- A record that is gone leaves the branch to its directory, which stands with what the record
named. -/
theorem spares_awoken (hout : out.Reliable records) {ws ws' : Workspace S}
    (h : ws.Sound E records pageSize) {record : SleepRecord S}
    (hrecord : ws.asleep.lookup (sleepRecordFile name) = some (.whole record))
    (hsome : (ws.pool.dbs name).isSome)
    (hstands : ∀ content : E.Content, TierOpens out ws record content →
      ws.pool.Stands (E := E) name content)
    (hpool : ws'.pool = ws.pool) (hdbs : ws'.dbs = ws.dbs) (hhead : ws'.head = ws.head)
    (htiers : ws'.tiers = ws.tiers)
    (hasleep : ws'.asleep = ws.asleep.erase (sleepRecordFile name)) :
    ws.Spares out records pageSize none ws' := by
  have hS := hout.substrate.toContentAddressed
  have hexists := exists_of_head_eq hhead
  have hgrow : ws.tiers.Grow ws'.tiers := htiers ▸ .refl _
  refine ⟨⟨h.listed.of_isSome hdbs fun n => hpool ▸ rfl, hpool ▸ h.pageSize_eq,
    fun n => hpool ▸ h.recorded n, fun {file record'} hfile => ?_⟩, fun {n content'} _ hkept => ?_,
    hgrow⟩
  · by_cases hself : file = sleepRecordFile name
    · rw [hasleep, hself, AList.lookup_erase] at hfile
      cases hfile
    · rw [hasleep, AList.lookup_erase_ne hself] at hfile
      exact h.sized hfile
  · by_cases hname : n = name
    · subst hname
      refine ⟨hexists hkept.exists, hkept.valid, .inl ⟨?_, hpool ▸ hsome, hpool ▸ ?_⟩⟩
      · rw [isAsleep, hasleep, AList.lookup_erase]
        rfl
      · rcases hkept.has with ⟨hawake, -, -⟩ | ⟨record', hrecord', htier⟩
        · rw [isAsleep, hrecord] at hawake
          cases hawake
        · obtain rfl : record = record' := by simpa using hrecord.symm.trans hrecord'
          exact hstands content' htier
    · refine hkept.frame hS hout.accumulates hexists (hpool ▸ .refl _) (hpool ▸ rfl) (hpool ▸ rfl)
        ?_ hgrow
      rw [hasleep, AList.lookup_erase_ne fun hfile => hname (sleepRecordFile_injective hfile)]

/-- Adopting what was fetched spares every branch. -/
theorem spares_adopt (hout : out.Reliable records) {ws : Workspace S}
    (h : ws.Sound E records pageSize) (env : CliEnv S E) (uploaded : Uploaded S) :
    ws.Spares out records pageSize none (ws.adopt out env uploaded).2 := by
  have htiers : (ws.adopt out env uploaded).2.tiers = ws.tiers := by
    unfold adopt
    cases env.io .adopt <;> rfl
  exact spares_of_aside hout h (adopt_active hout.copies env ws uploaded) (htiers ▸ .refl _)

/-- The end of a wake spares every branch, whichever call of it fails, if the pool opens the head
that the record names as the tiers do. -/
theorem spares_bringBack (hout : out.Reliable records) {ws : Workspace S}
    (h : ws.Sound E records pageSize) {record : SleepRecord S}
    (hrecord : ws.asleep.lookup (sleepRecordFile name) = some (.whole record))
    {conn : E.Connection}
    (htier : HeadOpens (out.wakeCas (ws.stored record)) pageSize record.token.manifest conn)
    (hpool : HeadOpens ws.pool.cas pageSize record.token.manifest conn) (env : CliEnv S E)
    (pages : ℕ) :
    ws.Spares out records pageSize none
      (ws.bringBack env name record record.token.manifest pages).2 := by
  have hS := hout.substrate
  obtain ⟨hspares, hopen⟩ := spares_openBranch hout h env name
  obtain ⟨hactive, -⟩ := openBranch_active hS.toRecovers env ws name
  have htiers : (ws.openBranch env name).2.tiers = ws.tiers := by
    unfold openBranch
    rcases Flock.openWith env.opening ws.pool name ⟨none, none⟩ with ⟨e | db, pool⟩ <;> rfl
  unfold bringBack
  rcases hopened : ws.openBranch env name with ⟨e | db, ws₁⟩
  all_goals rw [hopened] at hspares hopen hactive htiers
  · exact hspares
  obtain ⟨rfl, hholds, -⟩ := hopen db rfl
  have hrecord₁ : ws₁.asleep.lookup (sleepRecordFile db.name) = some (.whole record) :=
    hactive.asleep_eq ▸ hrecord
  have hpool₁ : HeadOpens ws₁.pool.cas ws₁.pool.pageSize record.token.manifest conn :=
    hspares.sound.pageSize_eq.symm ▸ hpool.grows hS.toContentAddressed hactive.beside.grows
  obtain ⟨hbeside, -⟩ := Db.beside_restore env.restoring db ws₁.pool record.token.manifest
  have hsome := restore_dbs_isSome env.restoring db ws₁.pool record.token.manifest
  have hrecorded := (hspares.sound.recorded db.name).restore hS hout.marks hholds.isSome hpool₁
    env.restoring
  have hhead (hok : (db.restore env.restoring ws₁.pool record.token.manifest).1 = .ok ()) :=
    Db.recoveredHead_of_restore hS.toRecovers ⟨_, hholds.store_eq⟩ hholds.isSome hok
  simp only
  rcases hrestored : db.restore env.restoring ws₁.pool record.token.manifest with
    ⟨result, db', pool⟩
  rw [hrestored] at hbeside hsome hrecorded hhead
  have hmoved : ws₁.Active db.name { ws₁ with pool } := active_pool hbeside hsome
  have hrestoring : ws.Spares out records pageSize none { ws₁ with pool } := by
    refine hspares.trans (spares_of_active hout hspares.sound hmoved (.refl _) hrecorded ?_)
    -- A branch that is asleep is kept by its record.
    intro _ content' hawake
    rw [isAsleep, hrecord₁] at hawake
    cases hawake
  rcases result with e | ⟨⟩
  · exact hrestoring
  simp only [removeSleepRecord]
  cases env.io .removeRecord with
  | some source => exact hrestoring
  | none =>
    refine hrestoring.trans (spares_awoken hout hrestoring.sound hrecord₁ ?_ ?_ rfl rfl rfl rfl rfl)
    · exact (hsome db.name).symm ▸ hholds.isSome
    · rintro content' ⟨-, conn', hopens', rfl⟩
      have htiers₁ : ws₁.tiers = ws.tiers := htiers
      have hstored : ({ ws₁ with pool } : Workspace S).stored record = ws.stored record := by
        simp only [Workspace.stored, htiers₁]
      rw [hstored, h.sized hrecord] at hopens'
      refine ⟨conn, ?_, congrArg E.content (htier.unique hopens')⟩
      rw [hhead rfl]
      exact hbeside.pageSize_eq.symm ▸ hpool₁.grows hS.toContentAddressed hbeside.grows

/-- The end of a fork spares every branch, as nothing is kept of one without a directory or a
record. If it goes through, the new branch stands with the content of its parent. -/
theorem spares_forkFrom (hout : out.Reliable records) {ws : Workspace S}
    (h : ws.Sound E records pageSize) (hfree : ws.pool.dbs name = none) {m : S.ManifestId}
    {conn : E.Connection} (hopens : HeadOpens ws.pool.cas ws.pool.pageSize m conn)
    (env : CliEnv S E) (db : Db S E) :
    ws.Spares out records pageSize none
        (ws.opened (E := E) name (Db.forkFrom env.forking db ws.pool name m).2) ∧
      ∀ child, (Db.forkFrom env.forking db ws.pool name m).1 = .ok child →
        ((Db.forkFrom env.forking db ws.pool name m).2.dbs name).isSome ∧
          (Db.forkFrom env.forking db ws.pool name m).2.Stands (E := E) name
            (E.content conn) := by
  have hS := hout.substrate
  obtain ⟨hbeside, hmade⟩ := Db.beside_forkFrom hS.toRecovers env.forking db ws.pool name m
  have hactive : ws.Active name
      (ws.opened (E := E) name (Db.forkFrom env.forking db ws.pool name m).2) :=
    active_opened hbeside
  have hrecorded := (h.recorded name).forkFrom hS hout.logs hout.marks hopens env.forking db
  refine ⟨spares_of_active hout h hactive (.refl _) hrecorded ?_, fun child hok =>
    ⟨(hmade child hok).2.2, conn, ?_, rfl⟩⟩
  · intro _ content' _ hsome
    rw [hfree] at hsome
    cases hsome
  · rw [Db.forkFrom_recoveredHead hS.toRecovers hout.positions hfree hok]
    exact hbeside.pageSize_eq.symm ▸ hopens.grows hS.toContentAddressed hbeside.grows

end Workspace

end FlockDb
