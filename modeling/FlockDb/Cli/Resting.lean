import FlockDb.Cli.SleepCrash
import FlockDb.Core.Trimmed

/-!
# A branch at rest

A branch is at rest once a statement was committed on it: its head is a file that a `CHECKPOINT`
left, so that the snapshot which a sleep starts with commits nothing. What the sleep uploads is
then the ancestry of the head that was there before.
-/

namespace FlockDb

open Relation

variable {S : Substrate} {E : Engine}

/-- Every call of a sleep goes through, and its walk has steps enough. -/
structure CliEnv.SleepsClear (env : CliEnv S E) (bound : ℕ) : Prop where
  io : env.io = .none
  opening : env.opening.Clear
  working : env.working.Saves
  sleeping : env.sleeping = .none
  fuel : bound ≤ env.fuel

namespace Workspace

/-- A branch at rest: it is awake, and its database is at rest. -/
structure Rested (E : Engine) (ws : Workspace S) (name : String) (head : S.ManifestId)
    (file : ByteVec) : Prop where
  «exists» : ws.exists = true
  listed : ws.Listed
  known : name ∈ branchNames ws.dbs ws.asleep.keys
  awake : ws.isAsleep name = false
  valid : validateName (S := S) (E := E) name = .ok ()
  database : ws.pool.AtRest E name head file

variable {name : String} {head : S.ManifestId} {file : ByteVec}

/-- A branch at rest stands with the content of its file. -/
theorem Rested.standing (hE : E.Laws) (hR : E.Reopens) {ws : Workspace S}
    (h : ws.Rested E name head file) {conn : E.Connection}
    (hconn : E.openWithFlags (some file.bytes) E.defaultConfig = .ok conn) :
    Standing E (fun _ _ => False) ws name (E.content conn) := by
  obtain ⟨conn', hopens, hconn'⟩ := h.database.headOpens hE hR
  obtain rfl : conn' = conn := Except.ok.inj (hconn'.symm.trans hconn)
  exact ⟨h.exists, h.listed, h.known, h.awake, h.valid, h.database.dir, h.database.pageSize_pos,
    ⟨conn', h.database.recovered.symm ▸ hopens, rfl⟩, fun m hm => hm.elim⟩

/-- Work on a branch that leaves its database at rest. -/
theorem Rested.active (hE : E.Laws) (hR : E.Reopens) {ws ws' : Workspace S}
    (h : ws.Rested E name head file) (hactive : ws.Active name ws')
    (hrest : ws'.pool.AtRest E name head file) : ws'.Rested E name head file := by
  obtain ⟨conn, hopens, hconn⟩ := hrest.headOpens hE hR
  obtain ⟨hexists, hlisted, hknown, hawake, hvalid, -⟩ := (h.standing hE hR hconn).active hactive
    ⟨conn, hrest.recovered.symm ▸ hopens, rfl⟩ fun m hm => hm.elim
  exact ⟨hexists, hlisted, hknown, hawake, hvalid, hrest⟩

/-- A branch that is listed is listed after work on any branch. -/
theorem Active.listed_name {ws ws' : Workspace S} {worked : String} (h : ws.Active worked ws')
    (hlisted : ws.Listed) (hname : name ∈ branchNames ws.dbs ws.asleep.keys) :
    name ∈ branchNames ws'.dbs ws'.asleep.keys := by
  obtain ⟨entry, hentry, hstrip⟩ := mem_branchNames_iff.mp hname
  refine mem_branchNames_iff.mpr ⟨entry, ?_, hstrip⟩
  rw [h.asleep_eq]
  refine (List.mem_append.mp hentry).elim (fun hdb => List.mem_append_left _ ?_)
    (List.mem_append_right _)
  have hsome := h.beside.isSome_of ((hlisted.mem_iff entry).mp hdb)
  exact ((h.listed hlisted).mem_iff entry).mpr hsome

/-- A branch that opens has an accepted name. -/
theorem accepted_of_openBranch {env : CliEnv S E} {ws : Workspace S} {db : Db S E}
    (h : (ws.openBranch env name).1 = .ok db) :
    validateName (S := S) (E := E) name = .ok () := by
  cases hname : validateName (S := S) (E := E) name with
  | ok _ => rfl
  | error e =>
    have hbad : Flock.openWith env.opening ws.pool name ⟨none, none⟩ = (.error e, ws.pool) := by
      rw [Flock.openWith, hname]
    unfold openBranch at h
    rw [hbad] at h
    cases h

/-- **A committed statement leaves its branch at rest**, whatever the history of the branch. -/
theorem rested_of_sql (hS : S.Laws) (hE : E.Laws) (out : Outside S E) {env : CliEnv S E}
    {ws : Workspace S} (hlisted : ws.Listed) (hsize : 0 < ws.pool.pageSize)
    {branch : Option String} {query : String} {lines : List String}
    (hresolve : (ws.resolve env.io branch : Except (CliError S E) String) = .ok name)
    (h : (ws.sql out env branch query).1 = .ok lines) :
    ∃ head file, (ws.sql out env branch query).2.Rested E name head file := by
  obtain ⟨-, hexists, hknown, hawake⟩ := resolve_ok hresolve
  obtain ⟨hopen, hdb⟩ := openBranch_active hS.toRecovers env ws name
  have hvalid : ∀ db : Db S E, (ws.openBranch env name).1 = .ok db →
      validateName (S := S) (E := E) name = .ok () := fun db => accepted_of_openBranch
  have hrecovered : ∀ db, (ws.openBranch env name).1 = .ok db →
      db.store = .local ((ws.openBranch env name).2.pool.recoveredHead name) := by
    intro db hok
    unfold openBranch at hok ⊢
    rcases hopened : Flock.openWith env.opening ws.pool name ⟨none, none⟩ with ⟨e | db', pool⟩
    all_goals rw [hopened] at hok
    · cases hok
    · obtain rfl : db' = db := Except.ok.inj hok
      obtain ⟨hstore, -, hleft, -⟩ := openWith_recoveredHead hS.toRecovers hopened
      exact hstore.trans (congrArg Store.local hleft.symm)
  unfold sql at h ⊢
  simp only [hresolve] at h ⊢
  rcases hopened : ws.openBranch env name with ⟨e | db, ws₁⟩
  all_goals rw [hopened] at hopen hdb hvalid hrecovered h
  · cases h
  obtain ⟨rfl, -, hsome⟩ := hdb db rfl
  obtain ⟨hkept, hstored⟩ := World.query_kept db query
  simp only at h ⊢
  rcases hrows : db.query query with ⟨e | rows, db₁⟩
  all_goals rw [hrows] at hkept hstored h
  · cases h
  have hcommit := commit_active hS env ws₁ db₁
  have hstore₁ : db₁.store = .local (ws₁.pool.recoveredHead db₁.name) := by
    rw [hkept]
    exact hstored.trans (hrecovered db rfl)
  have hrest : ∀ ws₂, ws₁.commit env db₁ = (.ok (), ws₂) →
      ∃ head file, ws₂.pool.AtRest E db₁.name head file := by
    intro ws₂ hcommitted
    unfold commit at hcommitted
    rcases hsnapshot : db₁.snapshot env.working ws₁.pool with ⟨e | m, db₂, pool⟩
    all_goals rw [hsnapshot] at hcommitted
    · cases hcommitted
    · obtain rfl := (Prod.mk.inj hcommitted).2
      exact ⟨m, Pool.AtRest.of_snapshot hS hE (hopen.beside.pageSize_eq ▸ hsize)
        (hkept.symm ▸ hsome) hstore₁ hsnapshot⟩
  simp only at h ⊢
  rcases hcommitted : ws₁.commit env db₁ with ⟨e | ⟨⟩, ws₂⟩
  all_goals rw [hcommitted] at hcommit h
  · cases h
  obtain ⟨head, file, hatRest⟩ := hrest ws₂ hcommitted
  rw [hkept] at hcommit hatRest
  have hactive := hopen.trans hcommit
  have hrested : ws₂.Rested E db.name head file :=
    ⟨exists_of_head_eq hactive.head_eq hexists, hactive.listed hlisted,
      hactive.listed_name hlisted hknown, by rw [isAsleep, hactive.asleep_eq]; exact hawake,
      hvalid db rfl, hatRest⟩
  simp only at h ⊢
  cases htable : out.table rows with
  | error source =>
    rw [htable] at h
    cases h
  | ok text => exact ⟨head, file, hrested⟩

/-- What a sleep of a branch at rest comes to: the branch is as it was, all that can be reached
from its head is in the tier, and the record is still to be written. -/
structure Uploading (E : Engine) (ws : Workspace S) (name : String) (head : S.ManifestId)
    (file : ByteVec) (ws' : Workspace S) (record : SleepRecord S) : Prop where
  rested : ws'.Rested E name head file
  grows : S.Grows ws.pool.cas ws'.pool.cas
  pageSize_eq : ws'.pool.pageSize = ws.pool.pageSize
  manifest_eq : record.token.manifest = head
  token_pageSize : record.token.pageSize = ws.pool.pageSize
  carried : ∃ uploaded, Db.Carries ws'.pool.cas head uploaded ∧
    uploaded.manifests ⊆ (ws'.stored record).manifests ∧
    uploaded.pages ⊆ (ws'.stored record).pages

/-- Opening a branch does to the pool what opening its database does. -/
theorem openBranch_pool (env : CliEnv S E) (ws : Workspace S) (name : String) :
    (ws.openBranch env name).2.pool =
      (Flock.openWith (E := E) env.opening ws.pool name ⟨none, none⟩).2 := by
  unfold openBranch
  rcases Flock.openWith env.opening ws.pool name ⟨none, none⟩ with ⟨e | db, pool⟩ <;> rfl

/-- An upload of a branch at rest goes through, if everything that can be reached from its head
can be read and nothing fails. -/
theorem Rested.upload (hS : S.Laws) (hI : S.Immutable) (hidles : S.Idles) (hE : E.Laws)
    (hR : E.Reopens) (hT : E.Settles) {ws : Workspace S} {db : Db S E}
    (h : ws.Rested E db.name head file) (hstore : db.store = .local head)
    (hconn : E.openWithFlags (some file.bytes) E.defaultConfig = .ok db.kernel.conn)
    (hreadable : S.Readable ws.pool.cas head) {reached : Finset S.ManifestId}
    (hreached : ∀ m, ReflTransGen (S.Edge ws.pool.cas) head m → m ∈ reached) {env : CliEnv S E}
    (hclear : env.SleepsClear (2 * reached.card + 1)) (dir pool : String) :
    ∃ token, (ws.upload env db dir pool).1 = .ok token ∧
      ws.Uploading E db.name head file (ws.upload env db dir pool).2 ⟨dir, pool, token⟩ := by
  have hsnapshot := h.database.snapshot hS hidles hT hstore hconn hclear.working
  have hrest := h.database.after_snapshot hS hE hstore env.working hsnapshot
  obtain ⟨hbeside, -, hlocal⟩ := Db.beside_snapshot hS env.working db ws.pool
  obtain ⟨hreadable', hreach⟩ := hreadable.grows hI hbeside.grows
  rcases hsnapshotted : db.snapshot env.working ws.pool with ⟨result, db', pool'⟩
  rw [hsnapshotted] at hsnapshot hrest hbeside hreadable' hreach hlocal
  subst hsnapshot
  obtain ⟨head', hstore'⟩ := hlocal ⟨head, hstore⟩
  have hcas : db'.store.cas pool' = pool'.cas := by rw [hstore']; rfl
  obtain ⟨pageSize, hsleep⟩ := Db.sleep_eq hsnapshotted env.sleeping
  obtain ⟨uploaded, huploaded⟩ := Db.upload_of_readable (E := E) hreadable'
    (fun m hm => hreached m ((hreach m).mpr hm)) hclear.fuel pool'.root pool pageSize
  have hslept : db.sleep env.working env.sleeping env.fuel ws.pool pool =
      (.ok (some uploaded), pool') := by
    rw [hsleep, hcas, hclear.sleeping, huploaded]
  obtain ⟨head'', hhead'', htoken, hcarries⟩ := Db.carries_of_sleep hS ⟨_, hstore⟩ hslept
  rw [hsnapshotted] at hhead'' hcarries
  obtain rfl : head = head'' := Except.ok.inj hhead''
  obtain ⟨hactive, hby⟩ := upload_active hS env ws db dir pool
  have hok : (ws.upload env db dir pool).1 = .ok uploaded.token := by
    simp only [Workspace.upload, hslept]
  have hpool : (ws.upload env db dir pool).2.pool = pool' := by
    simp only [Workspace.upload, hslept]
    rfl
  have htiers : (ws.upload env db dir pool).2.tiers dir pool =
      ⟨(ws.tiers dir pool).manifests ++ uploaded.manifests,
        (ws.tiers dir pool).pages ++ uploaded.pages⟩ := by
    simp only [Workspace.upload, hslept]
    change (ws.tiers.store dir pool _) dir pool = _
    rw [Tiers.store, Function.update_self, Function.update_self]
  refine ⟨uploaded.token, hok, h.active hE hR hactive (hpool ▸ hrest), hactive.beside.grows,
    hactive.beside.pageSize_eq, by rw [htoken], by rw [htoken], uploaded, hpool ▸ hcarries, ?_, ?_⟩
  · simp only [Workspace.stored, htiers]
    exact List.subset_append_right _ _
  · simp only [Workspace.stored, htiers]
    exact List.subset_append_right _ _

end Workspace

end FlockDb
