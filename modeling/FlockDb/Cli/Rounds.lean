import FlockDb.Cli.Resting

/-!
# Sleeping and waking, over and over

A sleep reads all that can be reached from its head, and a wake adopts what one hydration of the
head fetched. If the pool's store is deleted in between, what is left of the ancestry is the
overlay chain and the pages of the head. The next sleep walks the same edges and finds the rest
gone, unless there was nothing else.
-/

namespace FlockDb

open Relation Runs

variable {S : Substrate} {E : Engine}

/-- What the commands rely on of a tier, of the cache of a wake and of the copy of that: a manifest
that was stored is known, a cache has what the hydration of the head fetched and nothing else, and
a copy adds nothing else. -/
structure Outside.Trims (out : Outside S E) : Prop where
  knows : ∀ {uploaded m manifest}, (m, manifest) ∈ uploaded.manifests →
    ∃ manifest', S.manifest (out.wakeCas uploaded) m = .ok manifest'
  cached : ∀ {uploaded}, S.Readable (out.wakeCas uploaded) uploaded.token.manifest →
    S.Hydrated uploaded.token.pageSize (out.wakeCas uploaded) uploaded.token.manifest
      (out.cached uploaded)
  manifest : ∀ {cas fetched m manifest},
    S.manifest (out.copyTree cas fetched).2 m = .ok manifest →
      (∃ manifest, S.manifest cas m = .ok manifest) ∨
        ∃ manifest, S.manifest fetched m = .ok manifest
  get : ∀ {cas fetched id page}, S.get (out.copyTree cas fetched).2 id = .ok page →
    (∃ page, S.get cas id = .ok page) ∨ ∃ page, S.get fetched id = .ok page

/-- What a hydration fetched, copied into an emptied store, makes that a trimmed one. -/
theorem Outside.Trims.copy {out : Outside S E} (htrims : out.Trims) (hcopies : out.Copies)
    {pageSize : ℕ} {cas fetched emptied : S.Cas} {head : S.ManifestId}
    (hemptied : S.Emptied pageSize emptied) (h : S.Hydrated pageSize cas head fetched) :
    S.Trimmed pageSize cas head (out.copyTree emptied fetched).2 where
  kept := by
    intro m manifest hmanifest
    rcases htrims.manifest hmanifest with ⟨manifest', hold⟩ | ⟨manifest', hnew⟩
    · exact .inr (hemptied.manifest hold)
    · exact h.kept hnew
  chain := by
    intro m hm
    obtain ⟨⟨manifest, hmanifest⟩, pages, hresolve⟩ := h.chain m hm
    exact ⟨⟨manifest, (hcopies.adds emptied fetched).manifest hmanifest⟩, pages,
      (hcopies.adds emptied fetched).resolve hresolve⟩
  root := by
    intro m hm
    obtain ⟨⟨manifest, hmanifest⟩, pages, hresolve⟩ := hemptied.root m hm
    have hgrows := hcopies.grows emptied fetched
    exact ⟨⟨manifest, hgrows.manifest hmanifest⟩, pages, hgrows.resolve hresolve⟩
  get := by
    intro id
    constructor
    · rintro ⟨page, hpage⟩
      rcases htrims.get hpage with ⟨page', hold⟩ | hnew
      · exact absurd hold (hemptied.get id page')
      · exact (h.get id).mp hnew
    · intro hid
      obtain ⟨page, hpage⟩ := (h.get id).mpr hid
      exact ⟨page, (hcopies.adds emptied fetched).get hpage⟩

/-- What a sleep uploaded is as readable from the tier as it is in the pool, and as reachable. -/
theorem Outside.Fetches.readable (hS : S.ContentAddressed) (hI : S.Immutable) {out : Outside S E}
    (hfetch : out.Fetches) (htrims : out.Trims) {cas : S.Cas} {head : S.ManifestId}
    {uploaded stored : Uploaded S} (hcarries : Db.Carries cas head uploaded)
    (hmanifests : uploaded.manifests ⊆ stored.manifests) (hpages : uploaded.pages ⊆ stored.pages) :
    S.Readable (out.wakeCas stored) head ∧
      (∀ m, ReflTransGen (S.Edge cas) head m →
        ∃ manifest, S.manifest (out.wakeCas stored) m = .ok manifest) := by
  have hknown (m : S.ManifestId) (hm : ReflTransGen (S.Edge cas) head m) :
      ∃ manifest, S.manifest (out.wakeCas stored) m = .ok manifest := by
    obtain ⟨manifest, hmem⟩ := (hcarries.manifest_iff m).mpr hm
    exact htrims.knows (hmanifests hmem)
  have hreach := hI.reach_iff (fun m hm => (hcarries.readable m hm).1) hknown
  refine ⟨fun m hm => ?_, hknown⟩
  have hm' := (hreach m).1.mpr hm
  have hresolve : S.resolve (out.wakeCas stored) m = .ok (S.pageMap m) := by
    refine hfetch.resolves (fun id => ReflTransGen (S.Edge cas) head id) hm' fun id hid => ?_
    obtain ⟨manifest, hmem⟩ := (hcarries.manifest_iff id).mpr hid
    refine ⟨manifest, hmanifests hmem, fun base hbase => hid.tail ?_⟩
    exact ⟨manifest, hcarries.manifest_eq id manifest hmem, .inl hbase⟩
  refine ⟨hknown m hm', _, hresolve, fun p id hp => ?_⟩
  obtain ⟨pages, hpool, hstored⟩ := hcarries.pages m hm'
  rw [← hS.eq_pageMap_of_resolve hpool] at hp
  obtain ⟨page, hmem, hget⟩ := hstored p id hp
  refine ⟨page, ?_⟩
  rw [← hS.pageHash_of_get hget]
  exact hfetch.get (hpages hmem)

/-- What the commands rely on over whole rounds: of substrate, of DuckDB, and of the tier, the
cache and the copy. -/
structure Outside.Lawful (out : Outside S E) : Prop where
  substrate : S.Laws
  positions : S.Positions
  immutable : S.Immutable
  idles : S.Idles
  engine : E.Laws
  reopens : E.Reopens
  settles : E.Settles
  copies : out.Copies
  caches : out.Caches
  fetches : out.Fetches
  trims : out.Trims

/-- One round: a `flock sleep` with its branch and its tier, and a `flock wake`. -/
structure Round (S : Substrate) (E : Engine) where
  branch : Option String
  tier : Option String
  sleeping : CliEnv S E
  waking : CliEnv S E

namespace Workspace

/-- The pool's `cas/` was deleted: its store is what the next command makes there. -/
def wiped (ws : Workspace S) (emptied : S.Cas) : Workspace S :=
  { ws with pool := { ws.pool with cas := emptied } }

/-- The workspace after the sleep of a round and the deletion of `cas/`. -/
def sleptThrough (out : Outside S E) (emptied : S.Cas) (ws : Workspace S) (round : Round S E) :
    Workspace S :=
  (ws.sleep out round.sleeping round.branch round.tier).2.wiped emptied

/-- A sleep of a branch, the deletion of `cas/`, and the wake. -/
def goRound (out : Outside S E) (emptied : S.Cas) (name : String) (ws : Workspace S)
    (round : Round S E) :
    (Except (CliError S E) (List String) × Except (CliError S E) (List String)) × Workspace S :=
  let woken := (ws.sleptThrough out emptied round).wake out round.waking name
  (((ws.sleep out round.sleeping round.branch round.tier).1, woken.1), woken.2)

/-- Every call of a round goes through, and it is about this branch. -/
structure RoundClear (name : String) (bound : ℕ) (ws : Workspace S) (round : Round S E) :
    Prop where
  branch : round.branch = some name ∨ round.branch = none ∧ ws.head = some name
  tier : ¬[':', '/', '/'] <:+: (round.tier.getD (ws.pool.root ++ "/cold")).toList
  sleeping : round.sleeping.SleepsClear bound
  waking : round.waking.WakesClear

/-- What a round is to do: the sleep and the wake succeed, the head is the manifest that was slept,
and every ancestor of it that some store could resolve is there. -/
def Repeats (out : Outside S E) (emptied : S.Cas) (name : String) (cas : S.Cas)
    (ws : Workspace S) (round : Round S E) : Prop :=
  (∃ lines, (ws.goRound out emptied name round).1.1 = .ok lines) ∧
  (∃ lines, (ws.goRound out emptied name round).1.2 = .ok lines) ∧
  ∃ record, (ws.sleptThrough out emptied round).asleep.lookup (sleepRecordFile name) =
      some (.whole record) ∧
    (ws.goRound out emptied name round).2.pool.recoveredHead name = record.token.manifest ∧
    ∀ m, ReflTransGen (S.Edge cas) record.token.manifest m →
      (∃ pages, S.resolve cas m = .ok pages) →
        S.Holds (ws.goRound out emptied name round).2.pool.cas m

variable {name : String} {head : S.ManifestId} {file : ByteVec}

/-- **A sleep of a branch at rest uploads it**, if everything that can be reached from its head
can be read and nothing fails. -/
theorem Rested.sleep (hS : S.Laws) (hI : S.Immutable) (hidles : S.Idles) (hE : E.Laws)
    (hR : E.Reopens) (hT : E.Settles) (out : Outside S E) {ws : Workspace S}
    (hnew : NewDatabase S E ws.pool.pageSize) (h : ws.Rested E name head file)
    (hreadable : S.Readable ws.pool.cas head) {reached : Finset S.ManifestId}
    (hreached : ∀ m, ReflTransGen (S.Edge ws.pool.cas) head m → m ∈ reached) {round : Round S E}
    (hclear : ws.RoundClear name (2 * reached.card + 1) round) :
    ∃ ws' record, ws.Uploading E name head file ws' record ∧
      ws.sleep out round.sleeping round.branch round.tier =
        ws'.fileAway round.sleeping name record := by
  obtain ⟨hio, hopening, hworking, hsleeping, hfuel⟩ := id hclear.sleeping
  have hresolve : (ws.resolve round.sleeping.io round.branch :
      Except (CliError S E) String) = .ok name := by
    have hnamed := resolve_of_listed (S := S) (E := E) h.exists h.known h.awake
    rw [hio]
    rcases hclear.branch with hbranch | ⟨hbranch, hhead⟩
    · rw [hbranch]
      exact hnamed
    · have hhead : (ws.headBranch .none : Except (CliError S E) String) = .ok name := by
        simp [headBranch, hhead, CliFaults.none]
      rw [hbranch]
      simp only [resolve, hhead] at hnamed ⊢
      exact hnamed
  let dir := round.tier.getD (ws.pool.root ++ "/cold")
  have hprepare : (ws.prepareTierDir out round.sleeping.io dir :
      Except (CliError S E) String × Workspace S) =
        (.ok (out.canonicalTier dir), ws.touch [.tierParents dir, .tier dir]) := by
    simp [prepareTierDir, dir, hclear.tier, hio, CliFaults.none]
  have hremote : (remoteTier round.sleeping.io (out.canonicalTier dir) :
      Except (CliError S E) Unit) = .ok () := by simp [remoteTier, hio, CliFaults.none]
  have hruntime : (runtime round.sleeping.io : Except (CliError S E) Unit) = .ok () := by
    simp [runtime, hio, CliFaults.none]
  let ws₀ := ws.touch [.tierParents dir, .tier dir]
  have h₀ : ws₀.Rested E name head file := h.active hE hR (active_touch name ws _) h.database
  obtain ⟨conn, hopens, hconn⟩ := h₀.database.headOpens hE hR
  have hopens₀ : HeadOpens ws₀.pool.cas ws₀.pool.pageSize (ws₀.pool.recoveredHead name) conn :=
    h₀.database.recovered.symm ▸ hopens
  have hnew₀ : NewDatabase S E ws₀.pool.pageSize := hnew
  obtain ⟨kernel, hok, hkernel⟩ := openBranch_of_headOpens hS hopening h.valid hnew₀.root hopens₀
  obtain ⟨hactive, -⟩ := openBranch_active hS.toRecovers round.sleeping ws₀ name
  have hrecovered : (ws₀.openBranch round.sleeping name).2.pool.recoveredHead name =
      ws₀.pool.recoveredHead name := by
    rw [openBranch_pool]
    exact openWith_leaves_recoveredHead hS.toRecovers _ _ _ _
  rcases hopened : ws₀.openBranch round.sleeping name with ⟨e | db, ws₁⟩
  all_goals rw [hopened] at hok hactive hrecovered
  · cases hok
  obtain rfl := Except.ok.inj hok
  have h₁ : ws₁.Rested E name head file := h₀.active hE hR hactive
    (h₀.database.grows hS.toContentAddressed hactive.beside hrecovered)
  obtain ⟨hreadable₁, hreach⟩ := hreadable.grows hI hactive.beside.grows
  let db : Db S E := ⟨name, .local (ws₀.pool.recoveredHead name), kernel, ⟨none, none⟩⟩
  have hstore : db.store = .local head := congrArg Store.local h₀.database.recovered
  obtain ⟨token, htoken, hrest, hgrows, hsize, hmanifest, htokenSize, hcarried⟩ :=
    Rested.upload hS hI hidles hE hR hT h₁ hstore (hkernel ▸ hconn) hreadable₁
      (fun m hm => hreached m ((hreach m).mpr hm)) hclear.sleeping (out.canonicalTier dir)
      (poolName out.canonicalRoot)
  refine ⟨_, _, ⟨hrest, hactive.beside.grows.trans hgrows, hsize.trans hactive.beside.pageSize_eq,
    hmanifest, htokenSize.trans hactive.beside.pageSize_eq, hcarried⟩, ?_⟩
  unfold Workspace.sleep
  simp only [hresolve]
  rw [show ws.prepareTierDir out round.sleeping.io (round.tier.getD (ws.pool.root ++ "/cold")) =
    _ from hprepare]
  simp only [hremote]
  rw [show ws₀.openBranch round.sleeping name = _ from hopened]
  simp only [hruntime]
  rcases huploaded : ws₁.upload round.sleeping db (out.canonicalTier dir)
      (poolName out.canonicalRoot) with ⟨e | token', ws₂⟩
  all_goals rw [huploaded] at htoken
  · cases htoken
  · obtain rfl := Except.ok.inj htoken
    rfl

/-- A wake of a branch that is asleep comes to its end. -/
theorem Filed.wake_eq {out : Outside S E} {ws : Workspace S} {record : SleepRecord S}
    {content : E.Content} (h : Filed out ws name record content) {env : CliEnv S E}
    (henv : env.WakesClear) :
    ws.wake out env name =
      ((ws.touch [.temp]).adopt out env (ws.stored record)).2.bringBack env name record
        record.token.manifest (out.copyTree ws.pool.cas (out.cached (ws.stored record))).1 := by
  obtain ⟨-, conn, hopens, -⟩ := h.tier
  have hfetch := fetch_of_headOpens henv h.valid hopens
  unfold Workspace.wake
  simp only [h.wakeRecord henv, hfetch, adopt, henv.io, CliFaults.none]
  rfl

/-- The end of a wake leaves the pool's store, if the branch has no directory yet. -/
theorem bringBack_cas (hS : S.Laws) (hP : S.Positions) (env : CliEnv S E) {ws : Workspace S}
    {branch : String} (hfree : ws.pool.dbs branch = none) (record : SleepRecord S)
    (manifest : S.ManifestId) (pages : ℕ) :
    (ws.bringBack env branch record manifest pages).2.pool.cas = ws.pool.cas := by
  have hwal : ws.pool.wal branch = S.freshWal := by
    rw [Pool.wal, hfree]
    rfl
  have hopen : (ws.openBranch env branch).2.pool.cas = ws.pool.cas := by
    rw [openBranch_pool]
    exact openWith_cas hP env.opening hwal ⟨none, none⟩
  obtain ⟨-, hdb⟩ := openBranch_active hS.toRecovers env ws branch
  unfold bringBack
  rcases hopened : ws.openBranch env branch with ⟨e | db, ws₁⟩
  all_goals rw [hopened] at hopen hdb
  · exact hopen
  obtain ⟨rfl, -, hsome⟩ := hdb db rfl
  have hrestore := Db.restore_cas hS.toRecovers env.restoring (fun _ => hsome) manifest
  simp only
  rcases hrestored : db.restore env.restoring ws₁.pool manifest with ⟨e | ⟨⟩, db', pool⟩
  all_goals rw [hrestored] at hrestore
  · exact hrestore.trans hopen
  · simp only [removeSleepRecord]
    cases env.io .removeRecord <;> exact hrestore.trans hopen

/-- A sleep's end that goes through: the record is there and the directory is gone. -/
theorem fileAway_of_clear {env : CliEnv S E} (hio : env.io = .none) (ws : Workspace S)
    (branch : String) (record : SleepRecord S) :
    (∃ lines, (ws.fileAway env branch record).1 = .ok lines) ∧
      (ws.fileAway env branch record).2.pool =
        { ws.pool with dbs := Function.update ws.pool.dbs branch none } ∧
      (ws.fileAway env branch record).2.dbs = ws.dbs.erase branch ∧
      (ws.fileAway env branch record).2.head = ws.head ∧
      (ws.fileAway env branch record).2.tiers = ws.tiers ∧
      (ws.fileAway env branch record).2.asleep =
        ws.asleep.insert (sleepRecordFile branch) (.whole record) := by
  simp only [fileAway, writeSleepRecord, hio, CliFaults.none, removeBranchDir]
  exact ⟨⟨_, rfl⟩, rfl, rfl, rfl, rfl, rfl⟩

/-- A branch that went to sleep from rest, after `cas/` was deleted: a wake finds it, and the tier
reads all that could be reached from its head. -/
theorem Uploading.filed (hS : S.Laws) (hI : S.Immutable) (hE : E.Laws) (hR : E.Reopens)
    {out : Outside S E} (hfetch : out.Fetches) (htrims : out.Trims) {ws ws₁ : Workspace S}
    {record : SleepRecord S} (h : ws.Uploading E name head file ws₁ record)
    (hnew : NewDatabase S E ws.pool.pageSize) {env : CliEnv S E} (hio : env.io = .none)
    (emptied : S.Cas) :
    (∃ content : E.Content, Filed out ((ws₁.fileAway env name record).2.wiped emptied) name record
        content) ∧
      S.Readable (out.wakeCas (ws₁.stored record)) head ∧
      ∀ m, ReflTransGen (S.Edge ws₁.pool.cas) head m →
        ∃ manifest, S.manifest (out.wakeCas (ws₁.stored record)) m = .ok manifest := by
  obtain ⟨-, hpool, hdbs, hhead, htiers, hasleep⟩ := fileAway_of_clear hio ws₁ name record
  obtain ⟨uploaded, hcarries, hmanifests, hpages⟩ := h.carried
  obtain ⟨conn, hopens, hconn⟩ := h.rested.database.headOpens hE hR
  obtain ⟨hreadable, hknown⟩ :=
    hfetch.readable hS.toContentAddressed hI htrims hcarries hmanifests hpages
  refine ⟨⟨E.content conn, ?_⟩, hreadable, hknown⟩
  obtain ⟨entry, hstrip, hentry⟩ := (h.rested.standing hE hR hconn).entry
  have hlisted : (ws₁.fileAway env name record).2.Listed := h.rested.listed.gone hpool hdbs
  have hstored : ((ws₁.fileAway env name record).2.wiped emptied).stored record =
      ws₁.stored record := by
    simp only [Workspace.stored, wiped, htiers]
  have hfree : ((ws₁.fileAway env name record).2.wiped emptied).pool.dbs name = none := by
    simp only [wiped, hpool]
    exact Function.update_self _ _ _
  have hsize : ((ws₁.fileAway env name record).2.wiped emptied).pool.pageSize =
      ws.pool.pageSize := by
    simp only [wiped, hpool]
    exact h.pageSize_eq
  have hexists := exists_of_head_eq hhead h.rested.exists
  refine ⟨hexists, ⟨hlisted.nodup, hlisted.mem_iff⟩,
    ⟨entry, hstrip, ?_⟩, ?_, h.rested.valid, ⟨?_, conn, ?_, rfl⟩, ?_⟩
  · rcases hentry with hself | hdb | ⟨hfile, hother⟩
    · exact .inl hself
    · exact .inr (.inl (hdbs ▸ hdb))
    · refine .inr (.inr ?_)
      change entry ∈ (ws₁.fileAway env name record).2.asleep.keys ∧ _
      rw [hasleep, ← AList.mem_keys, AList.mem_insert]
      exact ⟨.inr (AList.mem_keys.mpr hfile), hother⟩
  · change (ws₁.fileAway env name record).2.asleep.lookup _ = _
    rw [hasleep, AList.lookup_insert]
  · rw [hsize, h.token_pageSize]
  · rw [hstored, h.manifest_eq, h.token_pageSize, ← h.pageSize_eq]
    exact hfetch.headOpens hS.toContentAddressed hcarries hmanifests hpages hopens
  · rw [← hsize] at hnew
    exact hnew.headOpens_of_free hS hfree

/-- What a wake leaves of a branch whose directory was gone. -/
structure WokenFrom (out : Outside S E) (ws : Workspace S) (name : String)
    (record : SleepRecord S) (ws' : Workspace S) : Prop where
  listed : ws'.Listed
  isSome : (ws'.pool.dbs name).isSome
  pageSize_eq : ws'.pool.pageSize = ws.pool.pageSize
  recovered : ws'.pool.recoveredHead name = record.token.manifest
  cas_eq : ws'.pool.cas = (out.copyTree ws.pool.cas (out.cached (ws.stored record))).2

/-- A branch that wakes without a directory stands at the head that was slept, over the store that
the copy left. -/
theorem Filed.woken {out : Outside S E} (hout : out.Lawful) {ws : Workspace S}
    (hnew : NewDatabase S E ws.pool.pageSize) {record : SleepRecord S} {content : E.Content}
    (h : Filed out ws name record content) (hfree : ws.pool.dbs name = none) {env : CliEnv S E}
    (henv : env.WakesClear) : WokenFrom out ws name record (ws.wake out env name).2 := by
  have hS := hout.substrate
  obtain ⟨hsize, conn, hopens, -⟩ := h.tier
  let cas := (out.copyTree ws.pool.cas (out.cached (ws.stored record))).2
  let ws₁ := ((ws.touch [.temp]).adopt out env (ws.stored record)).2
  have hadopt : (ws.touch [.temp]).adopt out env (ws.stored record) =
      (.ok (out.copyTree ws.pool.cas (out.cached (ws.stored record))).1, ws₁) := by
    simp [ws₁, adopt, henv.io, CliFaults.none, Workspace.touch]
  have hpool₁ : ws₁.pool = { ws.pool with cas } := by
    simp [ws₁, adopt, henv.io, CliFaults.none, Workspace.touch, cas]
  have hlisted₁ : ws₁.Listed := by
    have hactive := (active_touch name ws [.temp]).trans
      (adopt_active hout.copies env (ws.touch [.temp]) (ws.stored record) name)
    exact hactive.listed h.listed
  obtain ⟨hopens₁, hknown⟩ := adopt_ok hS hout.copies hout.caches hadopt hopens
  rw [hsize, show ws.pool.pageSize = ws₁.pool.pageSize by rw [hpool₁]] at hopens₁
  have hnew₁ : NewDatabase S E ws₁.pool.pageSize := by rwa [hpool₁]
  have hfree₁ : ws₁.pool.dbs name = none := by rwa [hpool₁]
  obtain ⟨conn', hdir⟩ := hnew₁.headOpens_of_free hS hfree₁
  have hclear : EndsClear env := ⟨henv.opening, henv.restoring, by rw [henv.io]; rfl⟩
  obtain ⟨-, hhead, ws₂, hactive, hback⟩ := bringBack_of_headOpens hS hout.positions hclear h.valid
    hnew₁.root hdir hopens₁ hknown record
    (out.copyTree ws.pool.cas (out.cached (ws.stored record))).1
  have hcas := bringBack_cas hS hout.positions env hfree₁ record (ws.stored record).token.manifest
    (out.copyTree ws.pool.cas (out.cached (ws.stored record))).1
  rw [h.wake_eq henv]
  refine ⟨?_, hback.isSome, ?_, hhead, ?_⟩
  · exact (hactive.listed hlisted₁).of_isSome hback.dbs_eq fun n =>
      congrArg (fun pool => (pool.dbs n).isSome) hback.pool_eq
  · have hsize₁ : ws₁.pool.pageSize = ws.pool.pageSize := by rw [hpool₁]
    have hsize₂ := hactive.beside.pageSize_eq.trans hsize₁
    exact (congrArg Pool.pageSize hback.pool_eq).trans hsize₂
  · have hcas₁ : ws₁.pool.cas = cas := by rw [hpool₁]
    exact hcas.trans hcas₁

/-- What a round leaves of a branch at rest: both commands succeeded, the branch is at rest again
at the head that was slept, and the pool's store is trimmed to it. -/
structure RoundDone (out : Outside S E) (emptied : S.Cas) (name : String) (head : S.ManifestId)
    (file : ByteVec) (ws : Workspace S) (round : Round S E) : Prop where
  slept : ∃ lines, (ws.goRound out emptied name round).1.1 = .ok lines
  woken : ∃ lines, (ws.goRound out emptied name round).1.2 = .ok lines
  record : ∃ record, (ws.sleptThrough out emptied round).asleep.lookup (sleepRecordFile name) =
    some (.whole record) ∧ record.token.manifest = head
  rested : (ws.goRound out emptied name round).2.Rested E name head file
  pageSize_eq : (ws.goRound out emptied name round).2.pool.pageSize = ws.pool.pageSize
  trimmed : S.Trimmed ws.pool.pageSize ws.pool.cas head
    (ws.goRound out emptied name round).2.pool.cas

/-- **A round of a branch at rest** goes through, if all that can be reached from its head can be
read and nothing fails. -/
theorem Rested.roundDone {out : Outside S E} (hout : out.Lawful) {emptied : S.Cas}
    {ws : Workspace S} (hemptied : S.Emptied ws.pool.pageSize emptied)
    (hnew : NewDatabase S E ws.pool.pageSize)
    (h : ws.Rested E name head file) (hreadable : S.Readable ws.pool.cas head)
    {reached : Finset S.ManifestId}
    (hreached : ∀ m, ReflTransGen (S.Edge ws.pool.cas) head m → m ∈ reached) {round : Round S E}
    (hclear : ws.RoundClear name (2 * reached.card + 1) round) :
    RoundDone out emptied name head file ws round := by
  have hS := hout.substrate
  have hI := hout.immutable
  obtain ⟨ws₁, record, huploading, hsleep⟩ := h.sleep hS hI hout.idles hout.engine hout.reopens
    hout.settles out hnew hreadable hreached hclear
  have hio := hclear.sleeping.io
  obtain ⟨hslept, -, -, -, htiers, hasleep⟩ := fileAway_of_clear hio ws₁ name record
  obtain ⟨⟨content, hfiled⟩, hreadable', hknown⟩ := huploading.filed hS hI hout.engine hout.reopens
    hout.fetches hout.trims hnew hio emptied
  let ws₂ := (ws₁.fileAway round.sleeping name record).2.wiped emptied
  have hthrough : ws.sleptThrough out emptied round = ws₂ := by rw [sleptThrough, hsleep]
  have hstored : ws₂.stored record = ws₁.stored record := by
    simp only [Workspace.stored, ws₂, wiped, htiers]
  have hsize₂ : ws₂.pool.pageSize = ws.pool.pageSize := by
    simp only [ws₂, wiped, (fileAway_of_clear hio ws₁ name record).2.1]
    exact huploading.pageSize_eq
  have hfree : ws₂.pool.dbs name = none := by
    simp only [ws₂, wiped, (fileAway_of_clear hio ws₁ name record).2.1]
    exact Function.update_self _ _ _
  have hwoken := hfiled.woken hout (hsize₂ ▸ hnew) hfree hclear.waking
  obtain ⟨hlines, husable⟩ := hfiled.wakeable hS hout.positions hout.copies hout.caches
    (hsize₂ ▸ hnew) round.waking hclear.waking
  -- The cache is trimmed to the head, of the tier's store and so of the pool's.
  have hreadable₂ : S.Readable (out.wakeCas (ws₂.stored record)) record.token.manifest := by
    rw [hstored, huploading.manifest_eq]
    exact hreadable'
  have hcached : S.Hydrated ws.pool.pageSize (out.wakeCas (ws₂.stored record)) head
      (out.cached (ws₂.stored record)) := by
    rw [← huploading.manifest_eq, ← huploading.token_pageSize]
    exact hout.trims.cached hreadable₂
  have hreach := (hreadable.grows hI huploading.grows).2
  have htrimmed : S.Trimmed ws.pool.pageSize ws.pool.cas head
      (ws₂.wake out round.waking name).2.pool.cas := by
    rw [hwoken.cas_eq]
    refine hout.trims.copy hout.copies hemptied
      (hcached.congr hI (fun m hm => (hreadable m hm).1) fun m hm => ?_)
    rw [hstored]
    exact hknown m ((hreach m).mp hm)
  have hholds : S.Holds (ws₂.wake out round.waking name).2.pool.cas head :=
    htrimmed.holds hS.toContentAddressed (.inl .refl) fun p id hp => ⟨p, hp⟩
  obtain ⟨-, hexists, hlisted, hawake⟩ := resolve_ok husable.resolves
  have hgone : ws.goRound out emptied name round =
      (((ws.sleep out round.sleeping round.branch round.tier).1,
        (ws₂.wake out round.waking name).1), (ws₂.wake out round.waking name).2) := by
    rw [Workspace.goRound, hthrough]
  have hsize : (ws₂.wake out round.waking name).2.pool.pageSize = ws.pool.pageSize :=
    hwoken.pageSize_eq.trans hsize₂
  refine ⟨?_, ?_, ⟨record, ?_, huploading.manifest_eq⟩, ?_, ?_, ?_⟩
  · rw [hgone, hsleep]
    exact hslept
  · rw [hgone]
    exact hlines
  · rw [hthrough]
    exact hfiled.file
  · rw [hgone]
    refine ⟨hexists, hwoken.listed, hlisted, hawake, h.valid, hwoken.isSome, ?_, ?_, ?_,
      h.database.checkpointed⟩
    · exact hsize.symm ▸ h.database.pageSize_pos
    · exact hwoken.recovered.trans huploading.manifest_eq
    · rw [hsize]
      exact Db.stores_of_holds hS.toContentAddressed h.database.stores hholds
  · rw [hgone]
    exact hsize
  · rw [hgone]
    exact htrimmed

/-- A round of a branch at rest does what it is to do, if its head is self-contained. -/
theorem RoundDone.repeats (hS : S.ContentAddressed) (hI : S.Immutable) {out : Outside S E}
    {emptied : S.Cas} {ws : Workspace S} {round : Round S E}
    (h : RoundDone out emptied name head file ws round) {cas : S.Cas}
    (hreach : ∀ m, ReflTransGen (S.Edge cas) head m → ReflTransGen (S.Edge ws.pool.cas) head m)
    (hself : S.SelfContained ws.pool.pageSize ws.pool.cas head) :
    ws.Repeats out emptied name cas round := by
  obtain ⟨record, hrecord, rfl⟩ := h.record
  have hholds := (h.trimmed.holds_iff hS hI).mpr hself
  exact ⟨h.slept, h.woken, record, hrecord, h.rested.database.recovered,
    fun m hm _ => hholds m (hreach m hm)⟩

/-- A round of a branch at rest that did what it is to do was a round of a self-contained head. -/
theorem RoundDone.selfContained (hS : S.ContentAddressed) (hI : S.Immutable) {out : Outside S E}
    {emptied : S.Cas} {ws : Workspace S} {round : Round S E}
    (h : RoundDone out emptied name head file ws round) (hreadable : S.Readable ws.pool.cas head)
    (hrepeats : ws.Repeats out emptied name ws.pool.cas round) :
    S.SelfContained ws.pool.pageSize ws.pool.cas head := by
  obtain ⟨record, hrecord, rfl⟩ := h.record
  obtain ⟨-, -, record', hrecord', -, hancestors⟩ := hrepeats
  obtain rfl : record = record' := by simpa using hrecord.symm.trans hrecord'
  refine (h.trimmed.holds_iff hS hI).mp fun m hm => ?_
  obtain ⟨-, pages, hresolve, -⟩ := hreadable m hm
  exact hancestors m hm ⟨pages, hresolve⟩

/-- A branch at rest with a self-contained head that lost nothing of what could be reached from it
in an earlier store. -/
structure Whole (E : Engine) (pageSize : ℕ) (cas : S.Cas) (name : String) (head : S.ManifestId)
    (file : ByteVec) (ws : Workspace S) : Prop where
  rested : ws.Rested E name head file
  pageSize_eq : ws.pool.pageSize = pageSize
  readable : S.Readable ws.pool.cas head
  selfContained : S.SelfContained pageSize ws.pool.cas head
  reach : ∀ m, ReflTransGen (S.Edge cas) head m ↔ ReflTransGen (S.Edge ws.pool.cas) head m

/-- A round of a whole branch does what it is to do and leaves the branch whole. -/
theorem Whole.goRound {out : Outside S E} (hout : out.Lawful) {pageSize : ℕ}
    {emptied : S.Cas} (hemptied : S.Emptied pageSize emptied) (hnew : NewDatabase S E pageSize)
    {cas : S.Cas} {reached : Finset S.ManifestId}
    (hreached : ∀ m, ReflTransGen (S.Edge cas) head m → m ∈ reached) {ws : Workspace S}
    (h : Whole E pageSize cas name head file ws) {round : Round S E}
    (hclear : ws.RoundClear name (2 * reached.card + 1) round) :
    ws.Repeats out emptied name cas round ∧
      Whole E pageSize cas name head file (ws.goRound out emptied name round).2 := by
  have hS := hout.substrate.toContentAddressed
  obtain ⟨hrested, rfl, hreadable, hself, hreach⟩ := h
  have hdone : RoundDone out emptied name head file ws round :=
    hrested.roundDone hout hemptied hnew hreadable (fun m hm => hreached m ((hreach m).mpr hm))
      hclear
  obtain ⟨hreach', hreadable', hself'⟩ := hdone.trimmed.keeps hS hout.immutable hreadable hself
  exact ⟨hdone.repeats hS hout.immutable (fun m => (hreach m).mp) hself,
    hdone.rested, hdone.pageSize_eq, hreadable', hself', fun m => (hreach m).trans (hreach' m)⟩

/-- Every round of a whole branch does what it is to do. -/
theorem Whole.rounds {out : Outside S E} (hout : out.Lawful) {pageSize : ℕ}
    {emptied : S.Cas} (hemptied : S.Emptied pageSize emptied) (hnew : NewDatabase S E pageSize)
    {cas : S.Cas} {reached : Finset S.ManifestId}
    (hreached : ∀ m, ReflTransGen (S.Edge cas) head m → m ∈ reached) (rounds : List (Round S E))
    {ws : Workspace S} (h : Whole E pageSize cas name head file ws)
    (hclear : Along (Workspace.goRound out emptied name)
      (RoundClear name (2 * reached.card + 1)) ws rounds) :
    Along (Workspace.goRound out emptied name) (Repeats out emptied name cas) ws rounds := by
  induction rounds generalizing ws with
  | nil => trivial
  | cons round rounds ih =>
    obtain ⟨hrepeats, hwhole⟩ := h.goRound hout hemptied hnew hreached hclear.1
    exact ⟨hrepeats, ih hwhole hclear.2⟩

/-- **Sleeping and waking can be repeated exactly from a self-contained head.** A branch at rest
goes through rounds of a sleep, the deletion of the pool's `cas/` and a wake, in which no call
fails and each walk has steps enough. Every sleep and every wake succeeds, the head is the manifest
that was slept, and every ancestor of it that could be resolved at the start can be read after each
wake, if and only if all that can be reached from the head is on its overlay chain, but for the
empty root, and has only pages of the head. -/
theorem rounds_repeat_iff {out : Outside S E} (hout : out.Lawful) {ws : Workspace S}
    {emptied : S.Cas} (hemptied : S.Emptied ws.pool.pageSize emptied)
    (hnew : NewDatabase S E ws.pool.pageSize) (h : ws.Rested E name head file)
    (hfinite : S.Finite ws.pool.cas) (hreadable : S.Readable ws.pool.cas head) :
    ∃ bound, ∀ rounds : List (Round S E), rounds ≠ [] →
      Along (goRound out emptied name) (RoundClear name bound) ws rounds →
        (Along (goRound out emptied name) (Repeats out emptied name ws.pool.cas) ws rounds ↔
          S.SelfContained ws.pool.pageSize ws.pool.cas head) := by
  obtain ⟨known, hknown⟩ := hfinite.exists_finset_coe
  have hreached (m : S.ManifestId) (hm : ReflTransGen (S.Edge ws.pool.cas) head m) : m ∈ known := by
    rw [← Finset.mem_coe, hknown]
    exact (hreadable m hm).1
  refine ⟨2 * known.card + 1, fun rounds hrounds hclear => ⟨fun hrepeats => ?_, fun hself => ?_⟩⟩
  · cases rounds with
    | nil => exact absurd rfl hrounds
    | cons round rounds =>
      have hdone : RoundDone out emptied name head file ws round :=
        h.roundDone hout hemptied hnew hreadable hreached hclear.1
      exact hdone.selfContained hout.substrate.toContentAddressed hout.immutable hreadable
        hrepeats.1
  · have hwhole : Whole E ws.pool.pageSize ws.pool.cas name head file ws :=
      ⟨h, rfl, hreadable, hself, fun m => Iff.rfl⟩
    exact hwhole.rounds hout hemptied hnew hreached rounds hclear

end Workspace

namespace Memory

/-- What the commands rely on of the cache and of the copy holds in memory. -/
theorem outside_trims : outside.Trims where
  knows := by
    intro uploaded m edges hmem
    exact ⟨_, manifest_eq_ok_iff.mpr ⟨.inr (List.mem_map_of_mem hmem), rfl⟩⟩
  cached := by
    intro uploaded hreadable
    refine ⟨fun {m edges} hmanifest => ?_, fun m hm => ?_, fun (id : Bytes) => ⟨?_, fun hid => ?_⟩⟩
    · obtain ⟨rfl | hmem, -⟩ := manifest_eq_ok_iff.mp hmanifest
      · exact .inr rfl
      · have hsuffix : m <:+ sleptHead uploaded := by simpa using (List.mem_filter.mp hmem).2
        exact .inl (chain_of_suffix (fun m hm => (hreadable m hm).1) hsuffix)
    · obtain ⟨edges, hmanifest⟩ := (hreadable m (Substrate.reach_of_chain hm)).1
      obtain ⟨hknown, -⟩ := manifest_eq_ok_iff.mp hmanifest
      have hsuffix : m <:+ sleptHead uploaded := suffix_of_chain hm
      have hkept : m = [] ∨ m ∈ (cached uploaded).manifests := hknown.imp_right fun hmem =>
        List.mem_filter.mpr ⟨hmem, by simpa using hsuffix⟩
      exact ⟨⟨_, manifest_eq_ok_iff.mpr ⟨hkept, rfl⟩⟩, _, resolve_eq_ok_iff.mpr ⟨hkept, rfl⟩⟩
    · rintro ⟨page, hget⟩
      have hmem := (get_eq_ok_iff.mp hget).1
      have hvalue : id ∈ (pageMap (sleptHead uploaded)).values := by
        simpa using (List.mem_filter.mp hmem).2
      exact Overlay.mem_values_iff.mp hvalue
    · obtain ⟨-, pages, hresolve, hpages⟩ := hreadable (sleptHead uploaded) .refl
      obtain ⟨-, rfl⟩ := resolve_eq_ok_iff.mp hresolve
      obtain ⟨p, hp⟩ := hid
      obtain ⟨page, hget⟩ := hpages p id hp
      exact ⟨page, get_cached (Overlay.mem_values_iff.mpr ⟨p, hp⟩) hget⟩
  manifest := by
    intro cas fetched m edges hmanifest
    obtain ⟨hm, -⟩ := manifest_eq_ok_iff.mp hmanifest
    rcases hm with rfl | hmem
    · exact .inl ⟨⟨none, none⟩, rfl⟩
    · rcases List.mem_append.mp hmem with hold | hnew
      · exact .inl ⟨_, manifest_eq_ok_iff.mpr ⟨.inr hold, rfl⟩⟩
      · exact .inr ⟨_, manifest_eq_ok_iff.mpr ⟨.inr hnew, rfl⟩⟩
  get := by
    intro cas fetched id page hget
    rcases List.mem_append.mp (get_eq_ok_iff.mp hget).1 with hold | hnew
    · exact .inl ⟨_, get_eq_ok_iff.mpr ⟨hold, rfl⟩⟩
    · exact .inr ⟨_, get_eq_ok_iff.mpr ⟨hnew, rfl⟩⟩

/-- All of it holds in memory. -/
theorem outside_lawful : outside.Lawful where
  substrate := laws []
  positions := positions []
  immutable := immutable
  idles := idles []
  engine := memoryEngine_laws
  reopens := memoryEngine_reopens
  settles := memoryEngine_settles
  copies := outside_copies
  caches := outside_caches
  fetches := outside_fetches
  trims := outside_trims

/-- A statement that is committed on the branch that is checked out. -/
def insert (ws : Workspace (memory [])) : Workspace (memory []) :=
  (ws.sql outside cliEnv none "INSERT").2

/-- A round of the branch that is checked out. -/
def sleepAndWake : Round (memory []) memoryEngine := ⟨none, none, cliEnv, cliEnv⟩

/-- The pool after an import and one statement. -/
def inserted : Workspace (memory []) := insert imported

/-- The branch of the statement is at rest. -/
theorem rested_inserted : ∃ head file, inserted.Rested memoryEngine "main" head file :=
  Workspace.rested_of_sql (laws []) memoryEngine_laws outside standing_imported.listed (by decide)
    rfl rfl

/-- A round in memory is clear where its branch is checked out. -/
theorem roundClear {ws : Workspace (memory [])} (hhead : ws.head = some "main")
    (hroot : ws.pool.root = "flock") : ws.RoundClear "main" 9 sleepAndWake where
  branch := .inr ⟨rfl, hhead⟩
  tier := by
    rw [hroot]
    decide
  sleeping := ⟨rfl, Env.clear_none, ⟨rfl, rfl, rfl, rfl⟩, rfl, le_refl 9⟩
  waking := ⟨rfl, Env.clear_none, Env.clear_none, rfl, Env.clear_none⟩

end Memory

namespace Workspace

/-- A branch that one statement was committed on after its import: when its rounds repeat. -/
theorem rounds_repeat_inserted : ∃ head, ∃ bound,
    ∀ rounds : List (Round (memory []) memoryEngine), rounds ≠ [] →
      Along (goRound Memory.outside ⟨[], []⟩ "main") (RoundClear "main" bound) Memory.inserted
        rounds →
        (Along (goRound Memory.outside ⟨[], []⟩ "main")
            (Repeats Memory.outside ⟨[], []⟩ "main" Memory.inserted.pool.cas) Memory.inserted
            rounds ↔
          (memory []).SelfContained 4 Memory.inserted.pool.cas head) := by
  obtain ⟨head, file, hrested⟩ := Memory.rested_inserted
  obtain rfl := hrested.database.recovered
  have hreadable : (memory []).Readable Memory.inserted.pool.cas
      (Memory.inserted.pool.recoveredHead "main") := Memory.readable_of_stored (by decide)
  exact ⟨_, rounds_repeat_iff Memory.outside_lawful (Memory.emptied 4) (Memory.newDatabase 4)
    hrested (Memory.finite [] _) hreadable⟩

set_option maxRecDepth 20000 in
/-- After a second statement, on a page that the first one wrote, a first round goes through, and
the sleep of a second one finds the old page gone. -/
theorem second_sleep_fails :
    (∃ head file, (Memory.insert Memory.inserted).Rested memoryEngine "main" head file) ∧
    Along (goRound Memory.outside ⟨[], []⟩ "main") (RoundClear "main" 9)
      (Memory.insert Memory.inserted) [Memory.sleepAndWake, Memory.sleepAndWake] ∧
    (∃ source, (goRound Memory.outside ⟨[], []⟩ "main" (goRound Memory.outside ⟨[], []⟩ "main"
      (Memory.insert Memory.inserted) Memory.sleepAndWake).2 Memory.sleepAndWake).1.1 =
        .error (.flock source)) ∧
    ¬Along (goRound Memory.outside ⟨[], []⟩ "main")
      (Repeats Memory.outside ⟨[], []⟩ "main" (Memory.insert Memory.inserted).pool.cas)
      (Memory.insert Memory.inserted) [Memory.sleepAndWake, Memory.sleepAndWake] := by
  have hfails : ∃ source, (goRound Memory.outside ⟨[], []⟩ "main" (goRound Memory.outside ⟨[], []⟩
      "main" (Memory.insert Memory.inserted) Memory.sleepAndWake).2 Memory.sleepAndWake).1.1 =
        .error (.flock source) := ⟨_, rfl⟩
  refine ⟨?_, ?_, hfails, fun hrepeats => ?_⟩
  · obtain ⟨head, file, hrested⟩ := Memory.rested_inserted
    exact rested_of_sql (Memory.laws []) memoryEngine_laws Memory.outside hrested.listed (by decide)
      rfl rfl
  · exact ⟨Memory.roundClear rfl rfl, Memory.roundClear rfl rfl, trivial⟩
  · obtain ⟨source, hfails⟩ := hfails
    obtain ⟨lines, hslept⟩ := hrepeats.2.1.1
    rw [hfails] at hslept
    cases hslept

end Workspace

end FlockDb
