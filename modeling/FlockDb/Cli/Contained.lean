import FlockDb.Cli.InMemory
import FlockDb.Library.Paths

/-!
# Where a command writes

The command line makes paths of the names that it is given, and the library looks at a name
before it makes anything under it. Whatever strings a command is given, what it creates, changes
or deletes is in the pool, in the tier or in a directory of its own for temporary files, and in
the pool it is where the names say.
-/

namespace FlockDb

open Paths

variable {S : Substrate} {E : Engine} {tierDirs : String → Prop}

/-- The path of a place in the pool at a root. What is above the pool, a tier and temporary
files are not in the pool. -/
def Place.path (root : String) : Place → Option (List Char)
  | .rootParents => none
  | .root => some root.toList
  | .head => some (root ++ "/HEAD").toList
  | .cas => some (root ++ "/cas").toList
  | .dbsDir => some (root ++ "/dbs").toList
  | .db name => some (root ++ "/dbs/" ++ name).toList
  | .asleepDir => some (root ++ "/asleep").toList
  | .record file => some (root ++ "/asleep/" ++ file).toList
  | .tierParents _ => none
  | .tier _ => none
  | .temp => none

/-- A path in the pool where a branch or the pool has its files: `HEAD`, the shared store, the
directory of one name in `dbs/`, or the record of one name in `asleep/`. -/
inductive FilePath (root : String) (path : List Char) : Prop where
  | head (h : normalise path = normalise root.toList ++ ["HEAD".toList])
  | cas (h : normalise path = normalise root.toList ++ ["cas".toList])
  | db (name : List Char) (hname : Single name)
      (h : normalise path = normalise root.toList ++ ["dbs".toList, name])
  | record (name : List Char) (hname : Single name)
      (h : normalise path = normalise root.toList ++ ["asleep".toList, name ++ ".json".toList])

/-- A path in the pool that a command may write at: one of its files, the pool's own directory,
or one of the two directories that have the branches' files. -/
inductive PoolPath (root : String) (path : List Char) : Prop where
  | file (h : FilePath root path)
  | root (h : normalise path = normalise root.toList)
  | dbs (h : normalise path = normalise root.toList ++ ["dbs".toList])
  | asleep (h : normalise path = normalise root.toList ++ ["asleep".toList])

/-- A place that a command may write at: in the pool, in a tier directory of its own, among the
missing parents of either directory, or among temporary files. -/
structure Place.Allowed (root : String) (tierDirs : String → Prop) (place : Place) : Prop where
  pool : ∀ path, place.path root = some path → PoolPath root path
  tier : ∀ dir, place = .tierParents dir ∨ place = .tier dir → tierDirs dir

/-- The tier directories that a command names: the path that a sleep is given, or its default,
and the canonical form of that. -/
def Invocation.TierDir (out : Outside S E) (root : String) (cli : Invocation S E) (dir : String) :
    Prop :=
  ∃ tier, cli.command = .sleep tier ∧
    (dir = tier.getD (root ++ "/cold") ∨ dir = out.canonicalTier (tier.getD (root ++ "/cold")))

/-- A name that the library accepts is single. -/
theorem single_of_valid {name : String} (h : validateName (S := S) (E := E) name = .ok ()) :
    Single name.toList := by
  unfold validateName at h
  split_ifs at h with hempty hdots hslash hnul hchars
  refine ⟨fun hnil => hempty ?_, fun hdot => hdots (.inl ?_), fun hdots' => hdots (.inr ?_),
    fun hmem => hslash ?_⟩
  · exact String.toList_inj.mp hnil
  · exact String.toList_inj.mp hdot
  · exact String.toList_inj.mp hdots'
  · exact List.any_eq_true.mpr ⟨'/', hmem, by simp⟩

/-- A single name below a directory of the pool. -/
theorem normalise_below (root dir : String) (hdir : Single dir.toList) {name : List Char}
    (hname : Single name) :
    normalise ((root ++ "/" ++ dir ++ "/").toList ++ name) =
      normalise root.toList ++ [dir.toList, name] := by
  have hpath : (root ++ "/" ++ dir ++ "/").toList ++ name =
      (root.toList ++ '/' :: dir.toList) ++ '/' :: name := by
    simp [String.toList_append]
  rw [hpath, normalise_append hname, normalise_append hdir, List.append_assoc]
  rfl

/-- The place of an accepted name's directory. -/
theorem normalise_db (root : String) {name : String}
    (h : validateName (S := S) (E := E) name = .ok ()) :
    normalise (root ++ "/dbs/" ++ name).toList =
      normalise root.toList ++ ["dbs".toList, name.toList] := by
  have hdir : Single "dbs".toList := by constructor <;> decide
  have hbelow := normalise_below root "dbs" hdir (single_of_valid h)
  have hpath : (root ++ "/dbs/" ++ name).toList =
      (root ++ "/" ++ "dbs" ++ "/").toList ++ name.toList := by
    simp [String.toList_append]
  rw [hpath, hbelow]

/-- The places of an accepted name: its directory, and its record. -/
theorem allowed_db (root : String) {name : String}
    (h : validateName (S := S) (E := E) name = .ok ()) : (Place.db name).Allowed root tierDirs := by
  refine ⟨fun path hpath => ?_, fun _ htier => by rcases htier with htier | htier <;> cases htier⟩
  obtain rfl := Option.some.inj hpath
  exact .file (.db name.toList (single_of_valid h) (normalise_db root h))

/-- The record of an accepted name is a file of its own. -/
theorem allowed_record (root : String) {name : String}
    (h : validateName (S := S) (E := E) name = .ok ()) :
    (Place.record (Workspace.sleepRecordFile name)).Allowed root tierDirs := by
  refine ⟨fun path hpath => ?_, fun _ htier => by rcases htier with htier | htier <;> cases htier⟩
  obtain rfl := Option.some.inj hpath
  have hname := single_of_valid h
  have hdir : Single "asleep".toList := by constructor <;> decide
  have hfile : Single (name.toList ++ ".json".toList) := by
    have hjson : ".json".toList = ['.', 'j', 's', 'o', 'n'] := rfl
    have hlength : (name.toList ++ ".json".toList).length = name.toList.length + 5 := by
      simp [hjson]
    refine ⟨fun hnil => ?_, fun hdot => ?_, fun hdots => ?_, fun hslash => ?_⟩
    · rw [hnil, List.length_nil] at hlength
      omega
    · rw [hdot, List.length_singleton] at hlength
      omega
    · rw [hdots] at hlength
      simp only [List.length_cons, List.length_nil] at hlength
      omega
    · rcases List.mem_append.mp hslash with hslash | hslash
      · exact hname.no_slash hslash
      · exact absurd hslash (by decide)
  have hbelow := normalise_below root "asleep" hdir hfile
  refine .file (.record name.toList hname ?_)
  rw [← hbelow]
  congr 1
  simp [Workspace.sleepRecordFile, String.toList_append]

/-- A tier directory of the command. -/
theorem allowed_tier (root : String) {dir : String} (h : tierDirs dir) :
    (Place.tier dir).Allowed root tierDirs := by
  constructor
  · intro path hpath
    cases hpath
  · rintro dir' (hparents | htier)
    · cases hparents
    · exact Place.tier.inj htier ▸ h

/-- The missing parents of a tier directory of the command. -/
theorem allowed_tierParents (root : String) {dir : String} (h : tierDirs dir) :
    (Place.tierParents dir).Allowed root tierDirs := by
  constructor
  · intro path hpath
    cases hpath
  · rintro dir' (hparents | htier)
    · exact Place.tierParents.inj hparents ▸ h
    · cases htier

/-- The places of the pool itself, of what is above it, and of temporary files. -/
theorem allowed_fixed (root : String) {place : Place}
    (h : place = .rootParents ∨ place = .root ∨ place = .head ∨ place = .cas ∨ place = .dbsDir ∨
      place = .asleepDir ∨ place = .temp) : place.Allowed root tierDirs := by
  have hbelow (name : String) (hname : Single name.toList) :
      normalise (root ++ ("/" ++ name)).toList = normalise root.toList ++ [name.toList] := by
    have hpath : (root ++ ("/" ++ name)).toList = root.toList ++ '/' :: name.toList := by
      simp [String.toList_append]
    rw [hpath, normalise_append hname]
  refine ⟨fun path hpath => ?_, fun dir htier => ?_⟩
  swap
  · rcases htier with rfl | rfl <;> simp at h
  rcases h with rfl | rfl | rfl | rfl | rfl | rfl | rfl
  · cases hpath
  · obtain rfl := Option.some.inj hpath
    exact .root rfl
  · obtain rfl := Option.some.inj hpath
    exact .file (.head (hbelow "HEAD" (by constructor <;> decide)))
  · obtain rfl := Option.some.inj hpath
    exact .file (.cas (hbelow "cas" (by constructor <;> decide)))
  · obtain rfl := Option.some.inj hpath
    exact .dbs (hbelow "dbs" (by constructor <;> decide))
  · obtain rfl := Option.some.inj hpath
    exact .asleep (hbelow "asleep" (by constructor <;> decide))
  · cases hpath

namespace Workspace

/-- A workspace that went on from another one, writing only where a command may, and changing
only what was written to. -/
structure Traced (root : String) (tierDirs : String → Prop) (ws ws' : Workspace S) : Prop where
  touched : ∃ places, ws'.touched = ws.touched ++ places ∧
    ∀ place ∈ places, place.Allowed root tierDirs
  head : ws'.head ≠ ws.head → .head ∈ ws'.touched
  cas : ws'.pool.cas ≠ ws.pool.cas → .cas ∈ ws'.touched
  dbs : ∀ n, ws'.pool.dbs n ≠ ws.pool.dbs n → .db n ∈ ws'.touched
  asleep : ∀ file, ws'.asleep.lookup file ≠ ws.asleep.lookup file → .record file ∈ ws'.touched
  tiers : ∀ dir, ws'.tiers dir ≠ ws.tiers dir → .tier dir ∈ ws'.touched

variable {root : String}

/-- What was touched is touched later on. -/
theorem Traced.mem {ws ws' : Workspace S} (h : Traced root tierDirs ws ws') {place : Place}
    (hplace : place ∈ ws.touched) : place ∈ ws'.touched := by
  obtain ⟨places, htouched, -⟩ := h.touched
  rw [htouched]
  exact List.mem_append_left _ hplace

/-- Nothing happened. -/
theorem Traced.refl (ws : Workspace S) : Traced root tierDirs ws ws where
  touched := ⟨[], (List.append_nil _).symm, by simp⟩
  head := fun h => absurd rfl h
  cas := fun h => absurd rfl h
  dbs := fun _ h => absurd rfl h
  asleep := fun _ h => absurd rfl h
  tiers := fun _ h => absurd rfl h

/-- Going on composes. -/
theorem Traced.trans {ws ws' ws'' : Workspace S} (h : Traced root tierDirs ws ws')
    (h' : Traced root tierDirs ws' ws'') : Traced root tierDirs ws ws'' where
  touched := by
    obtain ⟨places, htouched, hallowed⟩ := h.touched
    obtain ⟨places', htouched', hallowed'⟩ := h'.touched
    refine ⟨places ++ places', by rw [htouched', htouched, List.append_assoc],
      fun place hplace => ?_⟩
    rcases List.mem_append.mp hplace with hplace | hplace
    · exact hallowed place hplace
    · exact hallowed' place hplace
  head := fun hne => by
    by_cases heq : ws''.head = ws'.head
    · exact h'.mem (h.head (heq ▸ hne))
    · exact h'.head heq
  cas := fun hne => by
    by_cases heq : ws''.pool.cas = ws'.pool.cas
    · exact h'.mem (h.cas (heq ▸ hne))
    · exact h'.cas heq
  dbs := fun n hne => by
    by_cases heq : ws''.pool.dbs n = ws'.pool.dbs n
    · exact h'.mem (h.dbs n (heq ▸ hne))
    · exact h'.dbs n heq
  asleep := fun file hne => by
    by_cases heq : ws''.asleep.lookup file = ws'.asleep.lookup file
    · exact h'.mem (h.asleep file (heq ▸ hne))
    · exact h'.asleep file heq
  tiers := fun dir hne => by
    by_cases heq : ws''.tiers dir = ws'.tiers dir
    · exact h'.mem (h.tiers dir (heq ▸ hne))
    · exact h'.tiers dir heq

/-- To touch places where a command may write. -/
theorem traced_touch (ws : Workspace S) {places : List Place}
    (h : ∀ place ∈ places, place.Allowed root tierDirs) :
    Traced root tierDirs ws (ws.touch places) where
  touched := ⟨places, rfl, h⟩
  head := fun h => absurd rfl h
  cas := fun h => absurd rfl h
  dbs := fun _ h => absurd rfl h
  asleep := fun _ h => absurd rfl h
  tiers := fun _ h => absurd rfl h

/-- Work on a database whose directory was touched, and the shared store with it. -/
theorem traced_pool {ws : Workspace S} {name : String} (hdb : .db name ∈ ws.touched)
    (hcas : .cas ∈ ws.touched) {pool : Pool S} (hbeside : ws.pool.Beside name pool) :
    Traced root tierDirs ws { ws with pool } where
  touched := ⟨[], (List.append_nil _).symm, by simp⟩
  head := fun h => absurd rfl h
  cas := fun _ => hcas
  dbs := fun n hne => by
    by_cases hn : n = name
    · exact hn ▸ hdb
    · exact absurd (hbeside.dbs_eq n hn) hne
  asleep := fun _ h => absurd rfl h
  tiers := fun _ h => absurd rfl h

/-- A database was opened or made under an accepted name. -/
theorem traced_opened {ws : Workspace S} {name : String}
    (hname : validateName (S := S) (E := E) name = .ok ()) {pool : Pool S}
    (hbeside : ws.pool.Beside name pool) :
    Traced root tierDirs ws (ws.opened (E := E) name pool) ∧
      .db name ∈ (ws.opened (E := E) name pool).touched ∧
      .cas ∈ (ws.opened (E := E) name pool).touched := by
  have htouched : (ws.opened (E := E) name pool).touched =
      ws.touched ++ [.rootParents, .root, .cas, .dbsDir, .db name, .temp] := by
    have hvalid : (validateName (S := S) (E := E) name).toBool = true := by rw [hname]; rfl
    simp only [opened, hvalid, if_true]
  have hdb : Place.db name ∈ (ws.opened (E := E) name pool).touched := by rw [htouched]; simp
  have hcas : Place.cas ∈ (ws.opened (E := E) name pool).touched := by rw [htouched]; simp
  refine ⟨⟨⟨_, htouched, ?_⟩, fun h => absurd rfl h, fun _ => hcas, fun n hne => ?_,
    fun _ h => absurd rfl h, fun _ h => absurd rfl h⟩, hdb, hcas⟩
  · simp only [List.forall_mem_cons]
    exact ⟨allowed_fixed root (by simp), allowed_fixed root (by simp), allowed_fixed root (by simp),
      allowed_fixed root (by simp), allowed_db root hname, allowed_fixed root (by simp), by simp⟩
  · by_cases hn : n = name
    · exact hn ▸ hdb
    · exact absurd (hbeside.dbs_eq n hn) hne

/-- Nothing is made under a name that is not accepted. -/
theorem traced_opened_of_bad {ws : Workspace S} {name : String} {e : FlockError S E}
    (hname : validateName name = .error e) :
    Traced root tierDirs ws (ws.opened (E := E) name ws.pool) := by
  have htouched : (ws.opened (E := E) name ws.pool).touched = ws.touched ++ [] := by
    have hvalid : (validateName (S := S) (E := E) name).toBool = false := by rw [hname]; rfl
    simp only [opened, hvalid, Bool.false_eq_true, if_false]
  exact ⟨⟨[], htouched, by simp⟩, fun h => absurd rfl h, fun h => absurd rfl h,
    fun _ h => absurd rfl h, fun _ h => absurd rfl h, fun _ h => absurd rfl h⟩

/-- Opening a branch. One that opens has an accepted name, and its directory was touched. -/
theorem traced_openBranch (hS : S.Recovers) (env : CliEnv S E) (ws : Workspace S) (name : String) :
    Traced root tierDirs ws (ws.openBranch env name).2 ∧
      ∀ db, (ws.openBranch env name).1 = .ok db → db.name = name ∧
        validateName (S := S) (E := E) name = .ok () ∧
        .db name ∈ (ws.openBranch env name).2.touched ∧
        .cas ∈ (ws.openBranch env name).2.touched := by
  obtain ⟨hbeside, hopen⟩ := Db.beside_openWith hS env.opening ws.pool name ⟨none, none⟩
  unfold openBranch
  cases hname : validateName (S := S) (E := E) name with
  | error e =>
    have hbad : Flock.openWith env.opening ws.pool name ⟨none, none⟩ = (.error e, ws.pool) := by
      rw [Flock.openWith, hname]
    rw [hbad]
    exact ⟨traced_opened_of_bad hname, fun db hok => by cases hok⟩
  | ok _ =>
    rcases hresult : Flock.openWith env.opening ws.pool name ⟨none, none⟩ with ⟨e | db, pool⟩
    all_goals
      rw [hresult] at hbeside hopen
      obtain ⟨htraced, hdb, hcas⟩ := @traced_opened S E tierDirs root ws name hname pool hbeside
    · exact ⟨htraced, fun db hok => by cases hok⟩
    · refine ⟨htraced, fun db' hok => ?_⟩
      obtain rfl : db = db' := Except.ok.inj hok
      exact ⟨(hopen db rfl).1, rfl, hdb, hcas⟩

/-- The directory of a database that is there already is touched again, if its name is accepted
at all. -/
theorem traced_opened_again (ws : Workspace S) (name : String) :
    Traced root tierDirs ws (ws.opened (E := E) name ws.pool) := by
  cases hname : validateName (S := S) (E := E) name with
  | error e => exact traced_opened_of_bad hname
  | ok _ => exact (traced_opened hname (.refl name ws.pool)).1

/-- Committing what was done to a branch whose directory was touched. -/
theorem traced_commit (hS : S.Laws) (env : CliEnv S E) {ws : Workspace S} {db : Db S E}
    (hdb : .db db.name ∈ ws.touched) (hcas : .cas ∈ ws.touched) :
    Traced root tierDirs ws (ws.commit env db).2 := by
  obtain ⟨hbeside, -⟩ := Db.beside_snapshot hS env.working db ws.pool
  unfold commit
  rcases hresult : db.snapshot env.working ws.pool with ⟨e | m, db', pool⟩
  all_goals rw [hresult] at hbeside
  · exact traced_pool hdb hcas hbeside
  · exact traced_pool hdb hcas hbeside

/-- Moving `HEAD`. -/
theorem traced_setHead (ws : Workspace S) (io : CliFaults) (name : String) :
    Traced root tierDirs ws
      (ws.setHead io name : Except (CliError S E) Unit × Workspace S).2 := by
  have hparents : Place.rootParents.Allowed root tierDirs := allowed_fixed root (by simp)
  have hroot : Place.root.Allowed root tierDirs := allowed_fixed root (by simp)
  have hhead : Place.head.Allowed root tierDirs := allowed_fixed root (by simp)
  unfold setHead
  cases io .createPool with
  | some source => exact traced_touch ws (by simpa using hparents)
  | none =>
    cases io .writeHead with
    | some source => exact traced_touch ws (by simpa using ⟨hparents, hroot⟩)
    | none =>
      refine ⟨⟨_, rfl, by simpa using ⟨hparents, hroot, hhead⟩⟩, fun _ => ?_,
        fun h => absurd rfl h, fun _ h => absurd rfl h, fun _ h => absurd rfl h,
        fun _ h => absurd rfl h⟩
      exact List.mem_append_right _ (by simp)

/-- An import. -/
theorem traced_import (hS : S.Laws) (out : Outside S E) (env : CliEnv S E) (ws : Workspace S)
    (branch : Option String) (file : ImportFile) (table : Option String) :
    Traced root tierDirs ws (ws.import out env branch file table).2 := by
  unfold «import»
  rcases ws.importPlan env branch file table with e | ⟨name, reader, table'⟩
  · exact .refl ws
  obtain ⟨hopen, hdb⟩ := @traced_openBranch S E tierDirs root hS.toRecovers env ws name
  simp only
  rcases hopened : ws.openBranch env name with ⟨e | db, ws₁⟩
  all_goals rw [hopened] at hopen hdb
  · exact hopen
  obtain ⟨hname, -, hdir, hcas⟩ := hdb db rfl
  obtain ⟨hkept, -⟩ := importRows_kept out db name reader file.path table'
  simp only
  rcases hrows : importRows out db name reader file.path table' with ⟨e | n, db₁⟩
  all_goals rw [hrows] at hkept
  · exact hopen
  have hcommit := @traced_commit S E tierDirs root hS env ws₁ db₁
    (by rw [hkept, hname]; exact hdir) hcas
  simp only
  rcases hcommitted : ws₁.commit env db₁ with ⟨e | ⟨⟩, ws₂⟩
  all_goals rw [hcommitted] at hcommit
  · exact hopen.trans hcommit
  simp only
  cases ws.exists with
  | true => exact hopen.trans hcommit
  | false =>
    have hset := @traced_setHead S E tierDirs root ws₂ env.io name
    simp only [Bool.false_eq_true, if_false]
    rcases hmoved : (ws₂.setHead env.io name : Except (CliError S E) Unit × Workspace S) with
      ⟨e | ⟨⟩, ws₃⟩
    all_goals
      rw [hmoved] at hset
      exact (hopen.trans hcommit).trans hset

/-- A query. -/
theorem traced_sql (hS : S.Laws) (out : Outside S E) (env : CliEnv S E) (ws : Workspace S)
    (branch : Option String) (query : String) :
    Traced root tierDirs ws (ws.sql out env branch query).2 := by
  unfold sql
  rcases (ws.resolve env.io branch : Except (CliError S E) String) with e | name
  · exact .refl ws
  obtain ⟨hopen, hdb⟩ := @traced_openBranch S E tierDirs root hS.toRecovers env ws name
  simp only
  rcases hopened : ws.openBranch env name with ⟨e | db, ws₁⟩
  all_goals rw [hopened] at hopen hdb
  · exact hopen
  obtain ⟨hname, -, hdir, hcas⟩ := hdb db rfl
  obtain ⟨hkept, -⟩ := World.query_kept db query
  simp only
  rcases hrows : db.query query with ⟨e | rows, db₁⟩
  all_goals rw [hrows] at hkept
  · exact hopen
  have hcommit := @traced_commit S E tierDirs root hS env ws₁ db₁
    (by rw [hkept, hname]; exact hdir) hcas
  simp only
  rcases hcommitted : ws₁.commit env db₁ with ⟨e | ⟨⟩, ws₂⟩
  all_goals rw [hcommitted] at hcommit
  · exact hopen.trans hcommit
  · simp only
    cases out.table rows with
    | error source => exact hopen.trans hcommit
    | ok text => exact hopen.trans hcommit

/-- A fork. -/
theorem traced_fork (hS : S.Laws) (env : CliEnv S E) (ws : Workspace S) (source : Option String)
    (name : String) (noCheckout : Bool) :
    Traced root tierDirs ws (ws.fork env source name noCheckout).2 := by
  unfold fork
  rcases (ws.resolve env.io source : Except (CliError S E) String) with e | parent
  · exact .refl ws
  obtain ⟨hopen, hdb⟩ := @traced_openBranch S E tierDirs root hS.toRecovers env ws parent
  simp only
  rcases hopened : ws.openBranch env parent with ⟨e | db, ws₀⟩
  all_goals rw [hopened] at hopen hdb
  · exact hopen
  obtain ⟨rfl, -, hdir, hcas⟩ := hdb db rfl
  obtain ⟨hbeside, -⟩ := Db.beside_snapshot hS env.working db ws₀.pool
  simp only
  rcases Db.fork_cases env.working env.forking db ws₀.pool name with
    ⟨-, e, hfork⟩ |
      ⟨hname, -, ⟨e, db', pool', hsnapshot, hfork⟩ | ⟨m, db', pool', hsnapshot, hfork⟩⟩
  · rw [hfork]
    exact hopen.trans (traced_opened_again ws₀ name)
  · -- The parent's last snapshot failed, and the fork is not made.
    rw [hsnapshot] at hbeside
    rw [hfork]
    exact (hopen.trans (traced_pool hdir hcas hbeside)).trans
      (traced_opened_again (E := E) { ws₀ with pool := pool' } name)
  · rw [hsnapshot] at hbeside
    obtain ⟨hchild, -⟩ := Db.beside_forkFrom hS.toRecovers env.forking db' pool' name m
    rw [hfork]
    rcases hforked : Db.forkFrom env.forking db' pool' name m with ⟨e | child, pool''⟩
    all_goals
      rw [hforked] at hchild
      have hmade : Traced root tierDirs ws (ws₀.opened (E := E) name pool'') :=
        (hopen.trans (traced_pool hdir hcas hbeside)).trans
          (@traced_opened S E tierDirs root { ws₀ with pool := pool' } name hname pool'' hchild).1
    · exact hmade
    · simp only
      cases noCheckout with
      | true => exact hmade
      | false =>
        have hset := @traced_setHead S E tierDirs root (ws₀.opened (E := E) name pool'') env.io name
        simp only [Bool.false_eq_true, if_false]
        rcases hmoved : ((ws₀.opened (E := E) name pool'').setHead env.io name :
          Except (CliError S E) Unit × Workspace S) with ⟨e | ⟨⟩, ws₃⟩
        all_goals
          rw [hmoved] at hset
          exact hmade.trans hset

/-- A checkout. -/
theorem traced_checkout (env : CliEnv S E) (ws : Workspace S) (name : String) :
    Traced root tierDirs ws (ws.checkout env name).2 := by
  unfold checkout
  rcases (ws.known env name : Except (CliError S E) Unit) with e | ⟨⟩
  · exact .refl ws
  have hset := @traced_setHead S E tierDirs root ws env.io name
  simp only
  rcases hmoved : (ws.setHead env.io name : Except (CliError S E) Unit × Workspace S) with
    ⟨e | ⟨⟩, ws'⟩
  all_goals
    rw [hmoved] at hset
    exact hset

/-- The preparation of a tier, whose canonical path it returns. -/
theorem traced_prepareTierDir (out : Outside S E) (io : CliFaults) (ws : Workspace S)
    {dir : String} (hdir : tierDirs dir) :
    Traced root tierDirs ws (ws.prepareTierDir out io dir).2 ∧
      ∀ dir', (ws.prepareTierDir out io dir).1 = .ok dir' → dir' = out.canonicalTier dir := by
  have htier : (Place.tier dir).Allowed root tierDirs := allowed_tier root hdir
  have hparents : (Place.tierParents dir).Allowed root tierDirs := allowed_tierParents root hdir
  have htouch : Traced root tierDirs ws (ws.touch [.tierParents dir, .tier dir]) :=
    traced_touch ws (by simpa using ⟨hparents, htier⟩)
  unfold prepareTierDir
  split
  · exact ⟨.refl ws, fun dir' hok => by cases hok⟩
  · cases io .createTier with
    | some source =>
      exact ⟨traced_touch ws (by simpa using hparents), fun dir' hok => by cases hok⟩
    | none =>
      cases io .resolveTier with
      | some source => exact ⟨htouch, fun dir' hok => by cases hok⟩
      | none => exact ⟨htouch, fun dir' hok => (Except.ok.inj hok).symm⟩

/-- An upload stores in its tier directory. -/
theorem traced_upload (hS : S.Laws) (env : CliEnv S E) {ws : Workspace S} {db : Db S E}
    (hdb : .db db.name ∈ ws.touched) (hcas : .cas ∈ ws.touched) {dir : String}
    (hdir : tierDirs dir) (pool : String) :
    Traced root tierDirs ws (ws.upload env db dir pool).2 := by
  have hbeside := Db.beside_sleep hS env.working env.sleeping env.fuel db ws.pool pool
  have hstored (after : Pool S) (hafter : ws.pool.Beside db.name after) (bucket : Bucket S) :
      Traced root tierDirs ws
        ({ ws with pool := after, tiers := ws.tiers.store dir pool bucket }.touch
          [.tier dir, .temp]) := by
    have htier : (Place.tier dir).Allowed root tierDirs := allowed_tier root hdir
    have htemp : Place.temp.Allowed root tierDirs := allowed_fixed root (by simp)
    refine (traced_pool hdb hcas hafter).trans ⟨⟨_, rfl, by simpa using ⟨htier, htemp⟩⟩,
      fun h => absurd rfl h, fun h => absurd rfl h, fun _ h => absurd rfl h,
      fun _ h => absurd rfl h, fun dir' hne => ?_⟩
    have hsame : dir' = dir := by
      by_contra hother
      exact hne (Function.update_of_ne hother _ _)
    rw [hsame]
    exact List.mem_append_right _ (by simp)
  unfold upload
  rcases hslept : db.sleep env.working env.sleeping env.fuel ws.pool pool with
    ⟨e | _ | uploaded, after⟩
  all_goals
    rw [hslept] at hbeside
    exact hstored after hbeside _

/-- The end of a sleep, for a branch whose name is accepted. -/
theorem traced_fileAway (env : CliEnv S E) (ws : Workspace S) {branch : String}
    (hname : validateName (S := S) (E := E) branch = .ok ()) (record : SleepRecord S) :
    Traced root tierDirs ws (ws.fileAway env branch record).2 := by
  have hasleep : Place.asleepDir.Allowed root tierDirs := allowed_fixed root (by simp)
  have hfile : (Place.record (sleepRecordFile branch)).Allowed root tierDirs :=
    allowed_record root hname
  have hdir : (Place.db branch).Allowed root tierDirs := allowed_db root hname
  have hwritten (content : RecordFile S) : Traced root tierDirs ws
      ({ ws with asleep := ws.asleep.insert (sleepRecordFile branch) content }.touch
        [.asleepDir, .record (sleepRecordFile branch)]) := by
    refine ⟨⟨_, rfl, by simpa using ⟨hasleep, hfile⟩⟩, fun h => absurd rfl h,
      fun h => absurd rfl h, fun _ h => absurd rfl h, fun file hne => ?_, fun _ h => absurd rfl h⟩
    have hsame : file = sleepRecordFile branch := by
      by_contra hother
      exact hne (AList.lookup_insert_ne hother)
    rw [hsame]
    exact List.mem_append_right _ (by simp)
  have hremoved (ws : Workspace S) (dbs : String → Option (DbDir S)) (names : List String)
      (hdbs : ∀ n, n ≠ branch → dbs n = ws.pool.dbs n) :
      Traced root tierDirs ws
        ({ ws with pool := { ws.pool with dbs }, dbs := names }.touch [.db branch]) := by
    refine ⟨⟨_, rfl, by simpa using hdir⟩, fun h => absurd rfl h, fun h => absurd rfl h,
      fun n hne => ?_, fun _ h => absurd rfl h, fun _ h => absurd rfl h⟩
    have hsame : n = branch := by
      by_contra hother
      exact hne (hdbs n hother)
    rw [hsame]
    exact List.mem_append_right _ (by simp)
  unfold fileAway writeSleepRecord
  cases env.io .createAsleep with
  | some source => exact .refl ws
  | none =>
    cases env.io .createRecord with
    | some source => exact traced_touch ws (by simpa using hasleep)
    | none =>
      cases env.io .writeRecord with
      | some source => exact hwritten .cut
      | none =>
        simp only [removeBranchDir]
        cases env.io .removeBranchDir with
        | some source =>
          exact (hwritten (.whole record)).trans
            (hremoved _ _ _ fun n hn => Function.update_of_ne hn _ _)
        | none =>
          exact (hwritten (.whole record)).trans
            (hremoved _ _ _ fun n hn => Function.update_of_ne hn _ _)

/-- A sleep, in the tier directory that it names. -/
theorem traced_sleep (hS : S.Laws) (out : Outside S E) (env : CliEnv S E) (ws : Workspace S)
    (branch tier : Option String)
    (htier : tierDirs (tier.getD (ws.pool.root ++ "/cold")))
    (hcanonical : tierDirs (out.canonicalTier (tier.getD (ws.pool.root ++ "/cold")))) :
    Traced root tierDirs ws (ws.sleep out env branch tier).2 := by
  unfold sleep
  rcases (ws.resolve env.io branch : Except (CliError S E) String) with e | name
  · exact .refl ws
  obtain ⟨hprepare, hdir⟩ :=
    @traced_prepareTierDir S E tierDirs root out env.io ws _ htier
  simp only
  rcases hprepared : ws.prepareTierDir out env.io (tier.getD (ws.pool.root ++ "/cold")) with
    ⟨e | dir, ws₀⟩
  all_goals rw [hprepared] at hprepare hdir
  · exact hprepare
  have hdir : tierDirs dir := hdir dir rfl ▸ hcanonical
  simp only
  rcases (remoteTier env.io dir : Except (CliError S E) Unit) with e | ⟨⟩
  · exact hprepare
  obtain ⟨hopen, hdb⟩ := @traced_openBranch S E tierDirs root hS.toRecovers env ws₀ name
  simp only
  rcases hopened : ws₀.openBranch env name with ⟨e | db, ws₁⟩
  all_goals rw [hopened] at hopen hdb
  · exact hprepare.trans hopen
  obtain ⟨rfl, hname, htouched, hcas⟩ := hdb db rfl
  simp only
  rcases (runtime env.io : Except (CliError S E) Unit) with e | ⟨⟩
  · exact hprepare.trans hopen
  have hupload := @traced_upload S E tierDirs root hS env ws₁ db htouched hcas dir hdir
    (poolName out.canonicalRoot)
  simp only
  rcases huploaded : ws₁.upload env db dir (poolName out.canonicalRoot) with ⟨e | token, ws₂⟩
  all_goals
    rw [huploaded] at hupload
    have hslept := (hprepare.trans hopen).trans hupload
  · exact hslept
  · exact hslept.trans (traced_fileAway env ws₂ hname _)

/-- Adopting what was fetched writes to the shared store alone. -/
theorem traced_adopt (out : Outside S E) (env : CliEnv S E) (ws : Workspace S)
    (uploaded : Uploaded S) : Traced root tierDirs ws (ws.adopt out env uploaded).2 := by
  have hcas : Place.cas.Allowed root tierDirs := allowed_fixed root (by simp)
  have hadded (cas : S.Cas) : Traced root tierDirs ws
      ({ ws with pool := { ws.pool with cas } }.touch [.cas]) :=
    ⟨⟨_, rfl, by simpa using hcas⟩, fun h => absurd rfl h,
      fun _ => List.mem_append_right _ (by simp), fun _ h => absurd rfl h,
      fun _ h => absurd rfl h, fun _ h => absurd rfl h⟩
  unfold adopt
  cases env.io .adopt with
  | some source => exact hadded _
  | none => exact hadded _

/-- The end of a wake opens the branch before it removes the record, so the name is accepted. -/
theorem traced_bringBack (hS : S.Laws) (env : CliEnv S E) (ws : Workspace S) (branch : String)
    (record : SleepRecord S) (manifest : S.ManifestId) (pages : ℕ) :
    Traced root tierDirs ws (ws.bringBack env branch record manifest pages).2 := by
  obtain ⟨hopen, hdb⟩ := @traced_openBranch S E tierDirs root hS.toRecovers env ws branch
  unfold bringBack
  rcases hopened : ws.openBranch env branch with ⟨e | db, ws₁⟩
  all_goals rw [hopened] at hopen hdb
  · exact hopen
  obtain ⟨rfl, hname, htouched, hcas⟩ := hdb db rfl
  obtain ⟨hbeside, -⟩ := Db.beside_restore env.restoring db ws₁.pool manifest
  simp only
  rcases hrestored : db.restore env.restoring ws₁.pool manifest with ⟨e | ⟨⟩, db', pool⟩
  all_goals
    rw [hrestored] at hbeside
    have hback : Traced root tierDirs ws { ws₁ with pool } :=
      hopen.trans (traced_pool htouched hcas hbeside)
  · exact hback
  · simp only [removeSleepRecord]
    cases env.io .removeRecord with
    | some source => exact hback
    | none =>
      have hfile : (Place.record (sleepRecordFile db.name)).Allowed root tierDirs :=
        allowed_record root hname
      refine hback.trans ⟨⟨_, rfl, by simpa using hfile⟩, fun h => absurd rfl h,
        fun h => absurd rfl h, fun _ h => absurd rfl h, fun file hne => ?_,
        fun _ h => absurd rfl h⟩
      have hsame : file = sleepRecordFile db.name := by
        by_contra hother
        exact hne (AList.lookup_erase_ne hother)
      rw [hsame]
      exact List.mem_append_right _ (by simp)

/-- A wake. -/
theorem traced_wake (hS : S.Laws) (out : Outside S E) (env : CliEnv S E) (ws : Workspace S)
    (branch : String) : Traced root tierDirs ws (ws.wake out env branch).2 := by
  have htemp : Place.temp.Allowed root tierDirs := allowed_fixed root (by simp)
  have htouch : Traced root tierDirs ws (ws.touch [.temp]) :=
    traced_touch ws (by simpa using htemp)
  unfold wake
  rcases ws.wakeRecord env branch with e | record
  · exact .refl ws
  simp only
  rcases fetch out env branch (ws.stored record) with e | manifest
  · exact htouch
  have hadopt := @traced_adopt S E tierDirs root out env (ws.touch [.temp]) (ws.stored record)
  simp only
  rcases hadopted : (ws.touch [.temp]).adopt out env (ws.stored record) with ⟨e | pages, ws₁⟩
  all_goals rw [hadopted] at hadopt
  · exact htouch.trans hadopt
  · exact (htouch.trans hadopt).trans (traced_bringBack hS env ws₁ branch record manifest pages)

/-- Every command writes only where it may. -/
theorem traced_run (hS : S.Laws) (out : Outside S E) (ws : Workspace S) (cli : Invocation S E) :
    Traced root (cli.TierDir out ws.pool.root) ws (ws.run out cli).2 := by
  unfold run
  cases hcommand : cli.command with
  | «import» file table => exact traced_import hS out cli.env ws cli.branch file table
  | sql query => exact traced_sql hS out cli.env ws cli.branch query
  | branch name noCheckout => exact traced_fork hS cli.env ws cli.branch name noCheckout
  | branches => exact .refl ws
  | checkout name => exact traced_checkout cli.env ws name
  | sleep tier =>
    exact traced_sleep hS out cli.env ws cli.branch tier ⟨tier, hcommand, .inl rfl⟩
      ⟨tier, hcommand, .inr rfl⟩
  | wake name => exact traced_wake hS out cli.env ws name

/-- Two accepted names with one directory are one name. -/
theorem eq_of_dbDir (pool : Pool S) {name name' : String}
    (h : validateName (S := S) (E := E) name = .ok ())
    (h' : validateName (S := S) (E := E) name' = .ok ())
    (heq : normalise (pool.dbDir name).toList = normalise (pool.dbDir name').toList) :
    name = name' := by
  have hdir (n : String) :
      (pool.dbDir n).toList = (pool.root ++ "/dbs").toList ++ '/' :: n.toList := by
    simp [Pool.dbDir, String.toList_append]
  rw [hdir, hdir] at heq
  exact String.toList_inj.mp (eq_of_normalise_eq (single_of_valid h) (single_of_valid h') heq)

/-- Whatever strings a command is given, in whatever state the workspace is, and whichever of its
calls fail: what it creates, changes or deletes is in the pool where the names say, or is one of
the directories of the pool, or a directory for temporary files, or in the tier directory that
the command names, or is a directory that was missing above the pool's or the tier's. What it did
not touch is as it was. Two accepted names have directories of their own. -/
theorem run_contained (hS : S.Laws) (out : Outside S E) (ws : Workspace S) (cli : Invocation S E)
    (hnone : ws.touched = []) :
    (∀ place ∈ (ws.run out cli).2.touched,
      place.Allowed ws.pool.root (cli.TierDir out ws.pool.root)) ∧
    (.head ∉ (ws.run out cli).2.touched → (ws.run out cli).2.head = ws.head) ∧
    (.cas ∉ (ws.run out cli).2.touched → (ws.run out cli).2.pool.cas = ws.pool.cas) ∧
    (∀ n, .db n ∉ (ws.run out cli).2.touched →
      (ws.run out cli).2.pool.dbs n = ws.pool.dbs n) ∧
    (∀ file, .record file ∉ (ws.run out cli).2.touched →
      (ws.run out cli).2.asleep.lookup file = ws.asleep.lookup file) ∧
    (∀ dir, .tier dir ∉ (ws.run out cli).2.touched →
      (ws.run out cli).2.tiers dir = ws.tiers dir) ∧
    ∀ name name', validateName (S := S) (E := E) name = .ok () →
      validateName (S := S) (E := E) name' = .ok () →
      normalise (ws.pool.dbDir name).toList = normalise (ws.pool.dbDir name').toList →
      name = name' := by
  have htraced : Traced ws.pool.root (cli.TierDir out ws.pool.root) ws (ws.run out cli).2 :=
    traced_run hS out ws cli
  refine ⟨fun place hplace => ?_, fun h => by_contra fun hne => h (htraced.head hne),
    fun h => by_contra fun hne => h (htraced.cas hne),
    fun n h => by_contra fun hne => h (htraced.dbs n hne),
    fun file h => by_contra fun hne => h (htraced.asleep file hne),
    fun dir h => by_contra fun hne => h (htraced.tiers dir hne),
    fun name name' h h' heq => eq_of_dbDir ws.pool h h' heq⟩
  obtain ⟨places, htouched, hallowed⟩ := htraced.touched
  rw [htouched, hnone, List.nil_append] at hplace
  exact hallowed place hplace

end Workspace

namespace Memory

/-- An import of the trades, from a branch name or without one. -/
def importTrades (branch : Option String) : Invocation (memory []) memoryEngine :=
  ⟨.import trades none, branch, cliEnv⟩

/-- A sleep of the branch that is checked out. -/
def sleepHead : Invocation (memory []) memoryEngine := ⟨.sleep none, none, cliEnv⟩

end Memory

namespace Workspace

/-- A first import makes a pool: what it touches is where a command may write, as in every
run. -/
theorem run_contained_first :
    let ws := (Memory.emptyWorkspace.run Memory.outside (Memory.importTrades none)).2
    ws.touched = [.rootParents, .root, .cas, .dbsDir, .db "main", .temp, .rootParents, .root,
      .head] ∧
    ∀ place ∈ ws.touched,
      place.Allowed "flock" ((Memory.importTrades none).TierDir Memory.outside "flock") :=
  ⟨rfl, (run_contained (Memory.laws []) Memory.outside Memory.emptyWorkspace
    (Memory.importTrades none) rfl).1⟩

/-- A path of a directory of the pool is not the path of a file. -/
theorem not_filePath {path : List Char} (h : normalise path = normalise "flock".toList ∨
    normalise path = normalise "flock".toList ++ ["dbs".toList] ∨
    normalise path = normalise "flock".toList ++ ["asleep".toList]) : ¬FilePath "flock" path := by
  intro hfile
  cases hfile with
  | head hhead =>
    rw [hhead] at h
    revert h
    decide
  | cas hcas =>
    rw [hcas] at h
    revert h
    decide
  | db name hname hdb =>
    rw [hdb] at h
    have hlength :=
      h.imp (congrArg List.length) (Or.imp (congrArg List.length) (congrArg List.length))
    simp at hlength
  | record name hname hrecord =>
    rw [hrecord] at h
    have hlength :=
      h.imp (congrArg List.length) (Or.imp (congrArg List.length) (congrArg List.length))
    simp at hlength

/-- The first import into an empty directory makes the directory of the pool, those missing above
it and the one of all databases, and uses a temporary one. A sleep makes the directory of the
records. None of them is a file of the pool. -/
theorem import_makes_directories :
    (∃ place ∈ (Memory.emptyWorkspace.run Memory.outside (Memory.importTrades none)).2.touched,
      ∃ path, place.path "flock" = some path ∧ ¬FilePath "flock" path) ∧
    (∀ place : Place, place = .rootParents ∨ place = .root ∨ place = .dbsDir ∨ place = .temp →
      place ∈ (Memory.emptyWorkspace.run Memory.outside (Memory.importTrades none)).2.touched) ∧
    .asleepDir ∈ ((Memory.emptyWorkspace.run Memory.outside (Memory.importTrades none)).2.run
      Memory.outside Memory.sleepHead).2.touched ∧
    ∀ place : Place, place = .root ∨ place = .dbsDir ∨ place = .asleepDir →
      ∃ path, place.path "flock" = some path ∧ ¬FilePath "flock" path := by
  have hdirs (place : Place) (h : place = .root ∨ place = .dbsDir ∨ place = .asleepDir) :
      ∃ path, place.path "flock" = some path ∧ ¬FilePath "flock" path := by
    rcases h with rfl | rfl | rfl
    · exact ⟨_, rfl, not_filePath (.inl rfl)⟩
    · exact ⟨_, rfl, not_filePath (.inr (.inl (by decide)))⟩
    · exact ⟨_, rfl, not_filePath (.inr (.inr (by decide)))⟩
  have himport : (Memory.emptyWorkspace.run Memory.outside (Memory.importTrades none)).2.touched =
      [.rootParents, .root, .cas, .dbsDir, .db "main", .temp, .rootParents, .root, .head] := rfl
  have hsleep : ((Memory.emptyWorkspace.run Memory.outside (Memory.importTrades none)).2.run
      Memory.outside Memory.sleepHead).2.touched =
      [.rootParents, .root, .cas, .dbsDir, .db "main", .temp, .rootParents, .root, .head,
        .tierParents "flock/cold", .tier "flock/cold", .rootParents, .root, .cas, .dbsDir,
        .db "main", .temp, .tier "flock/cold", .temp, .asleepDir, .record "main.json",
        .db "main"] := rfl
  refine ⟨⟨.root, by rw [himport]; simp, hdirs .root (.inl rfl)⟩, fun place hplace => ?_, ?_, hdirs⟩
  · rw [himport]
    rcases hplace with rfl | rfl | rfl | rfl <;> simp
  · rw [hsleep]
    simp

end Workspace

end FlockDb
