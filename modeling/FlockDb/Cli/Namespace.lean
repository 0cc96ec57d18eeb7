import FlockDb.Cli.Names
import FlockDb.Cli.Waking

/-!
# One database a name

A name is awake when `dbs/` has a directory of it and asleep when `asleep/` has a record. Each
command checks one of the two, or both, before it makes the other. They stay apart as long as
no fork takes the name of a branch that is asleep and no sleep or wake stops between its record
and its directory.
-/

namespace FlockDb

variable {S : Substrate} {E : Engine}

namespace Workspace

/-- No name is both awake and asleep, and what is asleep has the pool's page size. -/
structure Apart (pageSize : ℕ) (ws : Workspace S) : Prop where
  listed : ws.Listed
  size_eq : ws.pool.pageSize = pageSize
  apart : ∀ n, (ws.pool.dbs n).isSome → ws.isAsleep n = false
  records : ∀ file record, ws.asleep.lookup file = some (.whole record) →
    record.token.pageSize = pageSize

/-- What keeps the names apart: a fork does not take the name of a branch that is asleep, no
call of a sleep fails between its record and the removal of the directory, and none of a wake
from the copy into the pool to the removal of the record. A copy that fails is among them
because it may leave a page cut short, which the next copy takes for whole. -/
def KeepsApart (ws : Workspace S) (cli : Invocation S E) : Prop :=
  match cli.command with
  | .branch name _ => ws.isAsleep name = false
  | .sleep _ => cli.env.io .writeRecord = none ∧ cli.env.io .removeBranchDir = none
  | .wake _ => cli.env.io .adopt = none ∧ EndsClear cli.env
  | _ => True

variable {pageSize : ℕ}

/-- Work on a branch that is not asleep keeps the names apart. -/
theorem Apart.active {ws ws' : Workspace S} (h : Apart pageSize ws) {name : String}
    (hactive : ws.Active name ws') (hawake : ws.isAsleep name = false) : Apart pageSize ws' where
  listed := hactive.listed h.listed
  size_eq := hactive.beside.pageSize_eq.trans h.size_eq
  apart := by
    intro n hsome
    rw [isAsleep, hactive.asleep_eq]
    by_cases hself : n = name
    · rw [hself]
      exact hawake
    · rw [hactive.beside.dbs_eq n hself] at hsome
      exact h.apart n hsome
  records := hactive.asleep_eq ▸ h.records

/-- What is the work of any branch leaves every directory. -/
theorem dbs_eq_of_active {ws ws' : Workspace S} (hactive : ∀ n, ws.Active n ws') (n : String) :
    ws'.pool.dbs n = ws.pool.dbs n := by
  obtain ⟨m, hm⟩ := exists_ne n
  exact (hactive m).beside.dbs_eq n hm.symm

/-- What is the work of any branch keeps the names apart. -/
theorem Apart.aside {ws ws' : Workspace S} (h : Apart pageSize ws)
    (hactive : ∀ n, ws.Active n ws') : Apart pageSize ws' where
  listed := (hactive "").listed h.listed
  size_eq := (hactive "").beside.pageSize_eq.trans h.size_eq
  apart := by
    intro n hsome
    rw [dbs_eq_of_active hactive n] at hsome
    rw [isAsleep, (hactive "").asleep_eq]
    exact h.apart n hsome
  records := (hactive "").asleep_eq ▸ h.records

/-- Moving `HEAD` keeps the names apart. -/
theorem Apart.headMoved {ws ws' : Workspace S} (h : Apart pageSize ws) {name : String}
    (hmoved : HeadMoved name ws ws') : Apart pageSize ws' where
  listed := h.listed.of_isSome hmoved.dbs_eq fun n => by rw [hmoved.pool_eq]
  size_eq := hmoved.pool_eq ▸ h.size_eq
  apart := by
    intro n hsome
    rw [hmoved.pool_eq] at hsome
    rw [isAsleep, hmoved.asleep_eq]
    exact h.apart n hsome
  records := hmoved.asleep_eq ▸ h.records

/-- The end of a sleep keeps the names apart, if nothing fails between the record and the
directory. -/
theorem Apart.filedAway {env : CliEnv S E} {ws ws' : Workspace S} (h : Apart pageSize ws)
    {branch : String} {record : SleepRecord S} (hsize : record.token.pageSize = pageSize)
    (hwrite : env.io .writeRecord = none) (hremove : env.io .removeBranchDir = none)
    (hfiled : FiledAway env branch record ws ws') : Apart pageSize ws' := by
  cases hfiled with
  | unrecorded hactive => exact h.aside hactive
  | cut hfault => exact absurd hwrite hfault
  | left hfault => exact absurd hremove hfault
  | gone hpool hdbs hhead htiers hasleep =>
    have hsome (n : String) : (ws'.pool.dbs n).isSome ↔ n ≠ branch ∧ (ws.pool.dbs n).isSome := by
      rw [hpool]
      by_cases hself : n = branch
      · subst hself
        simp
      · simp [hself]
    refine ⟨⟨hdbs ▸ h.listed.nodup.erase branch, fun n => ?_⟩, ?_, fun n hn => ?_,
      fun file record' hrecord => ?_⟩
    · rw [hdbs, h.listed.nodup.mem_erase_iff, h.listed.mem_iff, hsome]
    · rw [hpool]
      exact h.size_eq
    · obtain ⟨hne, hold⟩ := (hsome n).mp hn
      rw [isAsleep, hasleep, AList.lookup_insert_ne fun hfile =>
        hne (sleepRecordFile_injective hfile)]
      exact h.apart n hold
    · rw [hasleep] at hrecord
      by_cases hfile : file = sleepRecordFile branch
      · subst hfile
        rw [AList.lookup_insert] at hrecord
        cases hrecord
        exact hsize
      · rw [AList.lookup_insert_ne hfile] at hrecord
        exact h.records file record' hrecord

/-- The end of a wake keeps the names apart. -/
theorem Apart.broughtBack {ws ws₁ ws' : Workspace S} (h : Apart pageSize ws) {branch : String}
    (hactive : ws.Active branch ws₁) (hback : BroughtBack branch ws₁ ws') :
    Apart pageSize ws' where
  listed := (hactive.listed h.listed).of_isSome hback.dbs_eq fun n => by rw [hback.pool_eq]
  size_eq := by rw [hback.pool_eq, hactive.beside.pageSize_eq, h.size_eq]
  apart := by
    intro n hsome
    rw [isAsleep, hback.asleep_eq, hactive.asleep_eq]
    by_cases hself : n = branch
    · rw [hself, AList.lookup_erase]
      rfl
    · rw [AList.lookup_erase_ne fun hfile => hself (sleepRecordFile_injective hfile)]
      rw [hback.pool_eq, hactive.beside.dbs_eq n hself] at hsome
      exact h.apart n hsome
  records := by
    intro file record hrecord
    rw [hback.asleep_eq, hactive.asleep_eq] at hrecord
    by_cases hfile : file = sleepRecordFile branch
    · subst hfile
      rw [AList.lookup_erase] at hrecord
      cases hrecord
    · rw [AList.lookup_erase_ne hfile] at hrecord
      exact h.records file record hrecord

/-- A sleep that nothing stops halfway keeps the names apart. -/
theorem Apart.sleep (hS : S.Laws) (out : Outside S E) {env : CliEnv S E} {ws : Workspace S}
    (h : Apart pageSize ws) (hwrite : env.io .writeRecord = none)
    (hremove : env.io .removeBranchDir = none) (branch tier : Option String) :
    Apart pageSize (ws.sleep out env branch tier).2 := by
  rcases sleep_cases hS out env ws branch tier with ⟨-, hactive⟩ | ⟨name, hresolve, hrest⟩
  · exact h.aside hactive
  obtain ⟨-, -, -, hawake⟩ := resolve_ok hresolve
  rcases hrest with ⟨-, hactive⟩ |
    ⟨ws₀, ws₁, ws₂, db, dir, token, uploaded, hprepared, hopened, hby, hactive, -, hslept⟩
  · exact h.active hactive hawake
  · obtain ⟨hopen, hdb⟩ := openBranch_active hS.toRecovers env ws₀ name
    rw [hopened] at hopen hdb
    obtain ⟨-, hlocal, -⟩ := hdb db rfl
    obtain ⟨head, -, htoken, -⟩ := Db.carries_of_sleep hS hlocal hby.slept
    have hsize : token.pageSize = pageSize := by
      rw [hby.token_eq, htoken, hopen.beside.pageSize_eq, (hprepared name).beside.pageSize_eq]
      exact h.size_eq
    rw [hslept]
    exact (h.active hactive hawake).filedAway hsize hwrite hremove (fileAway_cases env ws₂ name _)

/-- A wake that nothing stops halfway keeps the names apart: it makes a directory and removes
the record. -/
theorem Apart.wake (hS : S.Laws) (hP : S.Positions) (hnew : NewDatabase S E pageSize)
    {out : Outside S E} (hcopies : out.Copies) (hcaches : out.Caches) {env : CliEnv S E}
    {ws : Workspace S} (h : Apart pageSize ws) (henv : EndsClear env) (branch : String) :
    Apart pageSize (ws.wake out env branch).2 := by
  rcases wake_cases hcopies env ws branch with
    ⟨-, hactive⟩ | ⟨record, manifest, pages, ws₁, hrecord, hfetch, hadopt, hactive, hwake⟩
  · exact h.aside hactive
  · obtain ⟨-, hfile⟩ := wakeRecord_ok hrecord
    obtain ⟨rfl, hvalid, conn, hopens⟩ := fetch_ok hfetch
    have hadopted := h.aside hactive
    have hsize : (ws.stored record).token.pageSize = ws₁.pool.pageSize :=
      (h.records _ record hfile).trans hadopted.size_eq.symm
    rw [hsize] at hopens
    obtain ⟨hopens', hknown⟩ := adopt_ok hS hcopies hcaches hadopt hopens
    have hasleep : ws.isAsleep branch = true := by rw [isAsleep, hfile]; rfl
    have hfree : ws₁.pool.dbs branch = none := by
      rw [dbs_eq_of_active hactive branch, ← Option.not_isSome_iff_eq_none]
      intro hsome
      rw [h.apart branch hsome] at hasleep
      cases hasleep
    have hnew' : NewDatabase S E ws₁.pool.pageSize := hadopted.size_eq.symm ▸ hnew
    obtain ⟨conn₀, hopens₀⟩ := hnew'.headOpens_of_free hS hfree
    obtain ⟨-, -, ws₂, hend, hback⟩ := bringBack_of_headOpens hS hP henv hvalid hnew'.root hopens₀
      hopens' hknown record pages
    rw [hwake]
    exact hadopted.broughtBack hend hback

/-- **One step keeps the names apart**, if it meets the condition. -/
theorem Apart.run (hS : S.Laws) (hP : S.Positions) (hnew : NewDatabase S E pageSize)
    {out : Outside S E} (hcopies : out.Copies) (hcaches : out.Caches) {ws : Workspace S}
    (h : Apart pageSize ws) {cli : Invocation S E} (hkeeps : ws.KeepsApart cli) :
    Apart pageSize (ws.run out cli).2 := by
  obtain ⟨command, branch, env⟩ := cli
  cases command with
  | «import» file table =>
    change Apart pageSize (ws.import out env branch file table).2
    rcases import_cases hS out env ws branch file table with
      ⟨e, -, himport⟩ | ⟨name, reader, table', hplan, ws₁, hactive, hend, -⟩
    · rw [himport]
      exact h
    · obtain ⟨-, hawake⟩ := importPlan_ok hplan
      have hworked := h.active hactive hawake
      rcases hend with heq | ⟨-, -, hmoved⟩
      · exact heq ▸ hworked
      · exact hworked.headMoved hmoved
  | sql query =>
    change Apart pageSize (ws.sql out env branch query).2
    rcases sql_cases hS out env ws branch query with ⟨e, -, hsql⟩ | ⟨name, hresolve, hactive⟩
    · rw [hsql]
      exact h
    · obtain ⟨-, -, -, hawake⟩ := resolve_ok hresolve
      exact h.active hactive hawake
  | branch name noCheckout =>
    change Apart pageSize (ws.fork env branch name noCheckout).2
    have hfree : ws.isAsleep name = false := hkeeps
    rcases fork_cases hS env ws branch name noCheckout with
      ⟨e, -, hfork⟩ | ⟨parent, hresolve, hrest⟩
    · rw [hfork]
      exact h
    obtain ⟨-, -, -, hawake⟩ := resolve_ok hresolve
    rcases hrest with ⟨-, hactive⟩ | ⟨ws₁, ws₂, hactive, -, hchild, hend⟩
    · exact h.active hactive hawake
    · have hfree' : ws₁.isAsleep name = false := by rw [isAsleep, hactive.asleep_eq]; exact hfree
      have hmade := (h.active hactive hawake).active hchild hfree'
      rcases hend with ⟨-, heq⟩ | ⟨-, heq | hmoved⟩
      · exact heq ▸ hmade
      · exact heq ▸ hmade
      · exact hmade.headMoved hmoved
  | branches => exact h
  | checkout name =>
    change Apart pageSize (ws.checkout env name).2
    rcases checkout_cases env ws name with ⟨-, hactive⟩ | ⟨-, hmoved⟩
    · exact h.aside hactive
    · exact h.headMoved hmoved
  | sleep tier => exact h.sleep hS out hkeeps.1 hkeeps.2 branch tier
  | wake name => exact h.wake hS hP hnew hcopies hcaches hkeeps.2 name

/-- A branch's name stands for one database: it is not both awake and asleep, a fork refuses a
name that is taken, and a wake of a name that has a directory is refused and changes nothing. -/
structure OneDatabase (out : Outside S E) (ws : Workspace S) : Prop where
  apart : ∀ n, ¬((ws.pool.dbs n).isSome ∧ ws.isAsleep n = true)
  refuses : ∀ env source name noCheckout, ws.KeepsApart (⟨.branch name noCheckout, source, env⟩ :
      Invocation S E) → (ws.pool.dbs name).isSome ∨ ws.isAsleep name = true →
    ∃ e, (ws.run out ⟨.branch name noCheckout, source, env⟩).1 = .error e
  replaces : ∀ env branch name, (ws.pool.dbs name).isSome →
    ∃ e, ws.run out ⟨.wake name, branch, env⟩ = (.error e, ws)

/-- Names that are apart stand for one database each. -/
theorem Apart.oneDatabase (hS : S.Laws) (out : Outside S E) {ws : Workspace S}
    (h : Apart pageSize ws) : ws.OneDatabase out where
  apart := by
    rintro n ⟨hsome, hasleep⟩
    rw [h.apart n hsome] at hasleep
    cases hasleep
  refuses := by
    intro env source name noCheckout hfree htaken
    have hfree : ws.isAsleep name = false := hfree
    have hsome : (ws.pool.dbs name).isSome := by
      rcases htaken with hsome | hasleep
      · exact hsome
      · rw [hfree] at hasleep
        cases hasleep
    change ∃ e, (ws.fork env source name noCheckout).1 = .error e
    rcases fork_cases hS env ws source name noCheckout with ⟨e, -, hfork⟩ | ⟨parent, -, hrest⟩
    · exact ⟨e, congrArg Prod.fst hfork⟩
    · rcases hrest with ⟨herror, -⟩ | ⟨ws₁, ws₂, hactive, hnone, -⟩
      · exact herror
      · have hsome' := hactive.beside.isSome_of hsome
        rw [hnone] at hsome'
        cases hsome'
  replaces := by
    intro env branch name hsome
    change ∃ e, ws.wake out env name = (.error e, ws)
    unfold Workspace.wake
    rcases hrecord : ws.wakeRecord env name with e | record
    · exact ⟨e, rfl⟩
    · obtain ⟨-, hfile⟩ := wakeRecord_ok hrecord
      have hasleep : ws.isAsleep name = true := by rw [isAsleep, hfile]; rfl
      rw [h.apart name hsome] at hasleep
      cases hasleep

/-- An empty directory has no names to keep apart. -/
theorem apart_start (root : String) (pageSize : ℕ) (cas : S.Cas) (tiers : Tiers S) :
    Apart pageSize (start root pageSize cas tiers) where
  listed := (named_start root pageSize cas tiers).listed
  size_eq := rfl
  apart := fun _ hsome => by cases hsome
  records := fun _ _ hrecord => by cases hrecord

/-- **A name stands for one database.** In a run from an empty directory in which no fork takes
the name of a branch that is asleep, and no sleep or wake stops halfway, a name is never both
awake and asleep, no fork gets a name that is taken, and no wake replaces the head of another
database of its name. -/
theorem one_database_a_name (hS : S.Laws) (hP : S.Positions) {pageSize : ℕ}
    (hnew : NewDatabase S E pageSize) {out : Outside S E} (hcopies : out.Copies)
    (hcaches : out.Caches) (root : String) (cas : S.Cas) (tiers : Tiers S)
    {clis : List (Invocation S E)}
    (hkeeps : Runs.Along (Workspace.run out) KeepsApart (start root pageSize cas tiers) clis) :
    (Runs.run (Workspace.run out) (start root pageSize cas tiers) clis).2.OneDatabase out := by
  have hstep : ∀ ws cli, KeepsApart ws cli → Apart pageSize ws →
      Apart pageSize (Workspace.run out ws cli).2 :=
    fun _ _ hcli h => h.run hS hP hnew hcopies hcaches hcli
  have hapart := Runs.run_invariant_along hstep hkeeps (apart_start root pageSize cas tiers)
  exact hapart.oneDatabase hS out

/-- A branch goes to sleep, comes back and is forked. -/
def thereAndBack : List (Invocation (memory []) memoryEngine) :=
  [⟨.import Memory.trades none, none, Memory.cliEnv⟩, ⟨.sleep none, none, Memory.cliEnv⟩,
    ⟨.wake "main", none, Memory.cliEnv⟩, ⟨.branch "what-if" false, none, Memory.cliEnv⟩]

/-- In that run a name stands for one database. -/
theorem one_database_a_name_inMemory :
    (Runs.run (Workspace.run Memory.outside) Memory.emptyWorkspace thereAndBack).2.OneDatabase
      Memory.outside := by
  have hclear : EndsClear Memory.cliEnv := ⟨Env.clear_none, Env.clear_none, rfl⟩
  have hkeeps : Runs.Along (Workspace.run Memory.outside) KeepsApart
      (start "flock" 4 ⟨[], []⟩ fun _ _ => ⟨[], []⟩) thereAndBack :=
    ⟨trivial, ⟨rfl, rfl⟩, ⟨rfl, hclear⟩, rfl, trivial⟩
  exact one_database_a_name (Memory.laws []) (Memory.positions []) (Memory.newDatabase 4)
    Memory.outside_copies Memory.outside_caches "flock" ⟨[], []⟩ (fun _ _ => ⟨[], []⟩) hkeeps

/-- A fork takes the name of a branch that went to sleep, and the branch is woken. -/
def asleepAndForked : List (Invocation (memory []) memoryEngine) :=
  [⟨.import Memory.trades none, none, Memory.cliEnv⟩,
    ⟨.branch "what-if" false, none, Memory.cliEnv⟩, ⟨.sql "INSERT", none, Memory.cliEnv⟩,
    ⟨.sleep none, none, Memory.cliEnv⟩, ⟨.branch "what-if" false, some "main", Memory.cliEnv⟩,
    ⟨.wake "what-if", none, Memory.cliEnv⟩]

/-- The fork goes through although its name is asleep, then the name stands for two databases,
and the wake replaces the head of the one with that of the other. -/
theorem sleeping_name_forked :
    let forked := (Runs.run (Workspace.run Memory.outside) Memory.emptyWorkspace
      (asleepAndForked.take 5)).2
    let woken := (Runs.run (Workspace.run Memory.outside) Memory.emptyWorkspace asleepAndForked).2
    ((forked.pool.dbs "what-if").isSome ∧ forked.isAsleep "what-if" = true) ∧
      woken.pool.recoveredHead "what-if" ≠ forked.pool.recoveredHead "what-if" := by
  intro forked woken
  refine ⟨⟨rfl, rfl⟩, fun hsame => ?_⟩
  have hforked : List.length (α := Memory.Change) (forked.pool.recoveredHead "what-if") = 1 := rfl
  have hwoken : List.length (α := Memory.Change) (woken.pool.recoveredHead "what-if") = 2 := rfl
  rw [← hsame, hwoken] at hforked
  cases hforked

end Workspace

end FlockDb
