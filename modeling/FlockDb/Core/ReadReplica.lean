import FlockDb.Core.Db
import FlockDb.Kernel.MemoryEngine
import FlockDb.Sync.CatchUp

/-!
# Read replicas

A `ReadReplica` is a replica with a kernel over it. Shipped commits move the head of its store;
the kernel goes on showing the manifest it was hydrated from, until a refresh opens a new one at
the head.
-/

namespace FlockDb

open Runs

variable {S : Substrate} {E : Engine}

namespace Replica

/-- What every `apply` of the good shipments keeps, the loop of `catch_up` over them keeps. -/
theorem applyAll_invariant {P : Replica S → Prop} {good : Shipment S → Prop}
    (happly : ∀ r s faults, good s → P r → P (r.apply faults s).2) (faults : Lsn → Faults S)
    {r : Replica S} (advanced : ℕ) {shipments : List (Shipment S)}
    (hgood : ∀ s ∈ shipments, good s) (h : P r) :
    P (applyAll faults r advanced shipments).2 := by
  induction shipments generalizing r advanced with
  | nil => exact h
  | cons s shipments ih =>
    rw [List.forall_mem_cons] at hgood
    have hstep := happly r s (faults s.commitLsn) hgood.1 h
    rw [applyAll]
    rcases hresult : r.apply (faults s.commitLsn) s with ⟨e | applied, r'⟩
    · rw [hresult] at hstep
      exact hstep
    · rw [hresult] at hstep
      exact ih _ hgood.2 hstep

/-- What every `apply` of the good shipments keeps, the loop of `restore_to` over them keeps. -/
theorem applyUpTo_invariant {P : Replica S → Prop} {good : Shipment S → Prop}
    (happly : ∀ r s faults, good s → P r → P (r.apply faults s).2) (faults : Lsn → Faults S)
    (target : Lsn) {r : Replica S} {shipments : List (Shipment S)}
    (hgood : ∀ s ∈ shipments, good s) (h : P r) : P (applyUpTo faults target r shipments).2 := by
  induction shipments generalizing r with
  | nil => exact h
  | cons s shipments ih =>
    rw [List.forall_mem_cons] at hgood
    rw [applyUpTo]
    by_cases htarget : target < s.commitLsn
    · rw [if_pos htarget]
      exact h
    · have hstep := happly r s (faults s.commitLsn) hgood.1 h
      rw [if_neg htarget]
      rcases hresult : r.apply (faults s.commitLsn) s with ⟨e | applied, r'⟩
      · rw [hresult] at hstep
        exact hstep
      · rw [hresult] at hstep
        exact ih hgood.2 hstep

/-- All that a source ships is good. -/
def Ships (src : WalSource S) (good : Shipment S → Prop) : Prop :=
  ∀ start shipments, src.shipmentsFrom start = .ok shipments → ∀ s ∈ shipments, good s

/-- What every `apply` of the good shipments keeps, `catch_up` with a source of them keeps. -/
theorem catchUp_invariant {P : Replica S → Prop} {good : Shipment S → Prop}
    (happly : ∀ r s faults, good s → P r → P (r.apply faults s).2) (faults : Lsn → Faults S)
    {r : Replica S} {src : WalSource S} (hsrc : Ships src good) (h : P r) :
    P (r.catchUp faults src).2 := by
  rw [catchUp]
  cases src.resumeAfter r.store.head with
  | error e => exact h
  | ok start =>
    cases hshipments : src.shipmentsFrom start with
    | error e =>
      simp only [hshipments]
      exact h
    | ok shipments =>
      simp only [hshipments]
      exact applyAll_invariant happly faults 0 (hsrc start shipments hshipments) h

/-- What every `apply` of the good shipments keeps, `restore_to` with a source of them keeps. -/
theorem restoreTo_invariant {P : Replica S → Prop} {good : Shipment S → Prop}
    (happly : ∀ r s faults, good s → P r → P (r.apply faults s).2) (faults : Lsn → Faults S)
    {r : Replica S} {src : WalSource S} (target : Lsn) (hsrc : Ships src good) (h : P r) :
    P (r.restoreTo faults src target).2 := by
  rw [restoreTo]
  cases src.resumeAfter r.store.head with
  | error e => exact h
  | ok start =>
    cases hshipments : src.shipmentsFrom start with
    | error e =>
      simp only [hshipments]
      exact h
    | ok shipments =>
      simp only [hshipments]
      exact applyUpTo_invariant happly faults target (hsrc start shipments hshipments) h

/-- `apply` loses nothing of the store. -/
theorem onward_apply (hS : S.Laws) (faults : Faults S) (r : Replica S) (s : Shipment S) :
    r.store.Onward (r.apply faults s).2.store := by
  have houtcome := apply_outcome hS faults r s
  generalize r.apply faults s = result at houtcome
  cases houtcome with
  | present _ => exact ⟨.refl _, rfl⟩
  | outOfOrder _ _ => exact ⟨.refl _, rfl⟩
  | stopped _ _ _ hkept => exact ⟨hkept.store.grows, hkept.store.pageSize⟩
  | diverged _ _ _ hreplayed _ => exact ⟨hreplayed.grows, hreplayed.pageSize_eq⟩
  | advanced _ _ _ hreplayed _ => exact ⟨hreplayed.grows, hreplayed.pageSize_eq⟩

end Replica

/-- `ReadReplica`. The store of its replica also backs the kernel. -/
structure ReadReplica (S : Substrate) (E : Engine) where
  name : String
  replica : Replica S
  kernel : DuckDbKernel E
  visible : S.ManifestId
  opts : KernelOpts

namespace ReadReplica

/-- The page store through which a kernel reads the store of a replica. It never commits. -/
def pageStore : PageStore S (DurableStore S) := durableHandle .none 0

/-- `ReadReplica::open_with`, on a pool of the follower's own. -/
def openWith (env : Env S E) (pool : Pool S) (dbName : String) (opts : KernelOpts) :
    Except (FlockError S E) (ReadReplica S E) × Pool S :=
  match validateName dbName with
  | .error e => (.error e, pool)
  | .ok () =>
    match openStore env pool dbName "open the replica's durable store"
        "replay the replica's log" with
    | (.error e, pool) => (.error e, pool)
    | (.ok head, pool) =>
      let durable := pool.durable dbName head
      match DuckDbKernel.open pageStore durable opts env.kernel with
      | .error source => (.error (.kernel source), pool)
      | .ok kernel => (.ok ⟨dbName, Replica.new durable .new, kernel, durable.head, opts⟩, pool)

/-- `ReadReplica::applied_head`. -/
def appliedHead (r : ReadReplica S E) : S.ManifestId := r.replica.head

/-- `ReadReplica::visible_head`. -/
def visibleHead (r : ReadReplica S E) : S.ManifestId := r.visible

/-- `ReadReplica::apply`. -/
def apply (faults : Faults S) (r : ReadReplica S E) (s : Shipment S) :
    Except (FlockError S E) Unit × ReadReplica S E :=
  match r.replica.apply faults s with
  | (.error source, replica) => (.error (.sync "apply a shipped commit" source), { r with replica })
  | (.ok _, replica) => (.ok (), { r with replica })

/-- `ReadReplica::catch_up`. -/
def catchUp (faults : Lsn → Faults S) (r : ReadReplica S E) (src : WalSource S) :
    Except (FlockError S E) ℕ × ReadReplica S E :=
  match r.replica.catchUp faults src with
  | (.error source, replica) =>
    (.error (.sync "catch up to the primary" source), { r with replica })
  | (.ok advanced, replica) => (.ok advanced, { r with replica })

/-- `ReadReplica::refresh`: a new kernel at the applied head. -/
def refresh (faults : KernelFaults E) (r : ReadReplica S E) :
    Except (FlockError S E) Unit × ReadReplica S E :=
  match DuckDbKernel.open pageStore r.replica.store r.opts faults with
  | .error source => (.error (.kernel source), r)
  | .ok kernel => (.ok (), { r with kernel, visible := r.replica.store.head })

/-- `ReadReplica::restore_to`: restore the replica, then refresh. -/
def restoreTo (faults : Lsn → Faults S) (kernelFaults : KernelFaults E) (r : ReadReplica S E)
    (src : WalSource S) (target : Lsn) : Except (FlockError S E) Unit × ReadReplica S E :=
  match r.replica.restoreTo faults src target with
  | (.error source, replica) =>
    (.error (.sync "restore to a point in time" source), { r with replica })
  | (.ok (), replica) => { r with replica }.refresh kernelFaults

/-- `ReadReplica::query`. -/
def query (r : ReadReplica S E) (sql : String) :
    Except (FlockError S E) E.Batches × ReadReplica S E :=
  match (r.kernel.query sql : Except (KernelError S E.Error) E.Batches × DuckDbKernel E) with
  | (.error source, kernel) => (.error (.kernel source), { r with kernel })
  | (.ok batches, kernel) => (.ok batches, { r with kernel })

end ReadReplica

/-- One operation on a read replica, with the faults it meets. -/
inductive ReplicaOp (S : Substrate) (E : Engine) where
  | apply (faults : Faults S) (s : Shipment S)
  | catchUp (faults : Lsn → Faults S) (src : WalSource S)
  | restoreTo (faults : Lsn → Faults S) (kernelFaults : KernelFaults E) (src : WalSource S)
      (target : Lsn)
  | refresh (faults : KernelFaults E)
  | query (sql : String)

/-- The shipments that reach a replica through an operation are good. -/
def ReplicaOp.From (good : Shipment S → Prop) : ReplicaOp S E → Prop
  | .apply _ s => good s
  | .catchUp _ src | .restoreTo _ _ src _ => Replica.Ships src good
  | .refresh _ | .query _ => True

/-- The operations that re-hydrate the kernel. -/
def ReplicaOp.Refreshes : ReplicaOp S E → Prop
  | .refresh _ | .restoreTo _ _ _ _ => True
  | .apply _ _ | .catchUp _ _ | .query _ => False

/-- What an operation on a read replica returns when it does not fail. -/
inductive Reply (E : Engine) where
  | done
  | advanced (commits : ℕ)
  | batches (batches : E.Batches)

namespace ReadReplica

/-- One operation. -/
def step (r : ReadReplica S E) : ReplicaOp S E → Except (FlockError S E) (Reply E) × ReadReplica S E
  | .apply faults s =>
    let (result, r) := r.apply faults s
    (result.map fun _ => .done, r)
  | .catchUp faults src =>
    let (result, r) := r.catchUp faults src
    (result.map .advanced, r)
  | .restoreTo faults kernelFaults src target =>
    let (result, r) := r.restoreTo faults kernelFaults src target
    (result.map fun _ => .done, r)
  | .refresh faults =>
    let (result, r) := r.refresh faults
    (result.map fun _ => .done, r)
  | .query sql =>
    let (result, r) := r.query sql
    (result.map .batches, r)

/-- A connection to the database file of the visible manifest. -/
def Hydrated (r : ReadReplica S E) (conn : E.Connection) : Prop :=
  DuckDbKernel.Hydrates pageStore r.replica.store r.opts r.visible conn

/-- A refresh that went through. -/
structure Refreshed (r r' : ReadReplica S E) : Prop where
  kernel_eq : ∃ faults, (DuckDbKernel.open pageStore r'.replica.store r'.opts faults :
    Except (KernelError S E.Error) (DuckDbKernel E)) = .ok r'.kernel
  visible_eq : r'.visible = r'.replica.head
  opts_eq : r'.opts = r.opts

/-- What the queries see of an operation: the kernel and its manifest are kept, a query has run
on the kernel, or a refresh went through. -/
inductive Seen (r : ReadReplica S E) (op : ReplicaOp S E) :
    Except (FlockError S E) (Reply E) × ReadReplica S E → Prop
  | kept {result r'} (kernel_eq : r'.kernel = r.kernel) (visible_eq : r'.visible = r.visible)
      (opts_eq : r'.opts = r.opts) : Seen r op (result, r')
  | queried {result sql} (hop : op = .query sql) : Seen r op
      (result, { r with kernel := ⟨(E.queryArrow r.kernel.conn sql).2, r.kernel.path⟩ })
  | refreshed {reply r'} (hop : op.Refreshes) (hrefreshed : Refreshed r r') :
      Seen r op (.ok reply, r')

/-- A refresh replaces the kernel and its manifest together, or fails and changes nothing. -/
theorem refresh_cases (r : ReadReplica S E) (faults : KernelFaults E) :
    (∃ e, r.refresh faults = (.error e, r)) ∨
      (r.refresh faults).1 = .ok () ∧ Refreshed r (r.refresh faults).2 ∧
        (r.refresh faults).2.replica = r.replica := by
  rw [refresh]
  cases hopen : (DuckDbKernel.open pageStore r.replica.store r.opts faults :
      Except (KernelError S E.Error) (DuckDbKernel E)) with
  | error source => exact .inl ⟨_, rfl⟩
  | ok kernel => exact .inr ⟨rfl, ⟨⟨faults, hopen⟩, rfl, rfl⟩, rfl⟩

/-- Every operation is seen in one of these ways. -/
theorem step_seen (r : ReadReplica S E) (op : ReplicaOp S E) : Seen r op (r.step op) := by
  cases op with
  | apply faults s =>
    rw [step, apply]
    rcases r.replica.apply faults s with ⟨e | applied, replica⟩
    · exact .kept rfl rfl rfl
    · exact .kept rfl rfl rfl
  | catchUp faults src =>
    rw [step, catchUp]
    rcases r.replica.catchUp faults src with ⟨e | advanced, replica⟩
    · exact .kept rfl rfl rfl
    · exact .kept rfl rfl rfl
  | restoreTo faults kernelFaults src target =>
    rw [step, restoreTo]
    rcases r.replica.restoreTo faults src target with ⟨e | ⟨⟩, replica⟩
    · exact .kept rfl rfl rfl
    · rcases refresh_cases { r with replica } kernelFaults with
        ⟨e, hfailed⟩ | ⟨hok, hrefreshed, -⟩
      · simp only [hfailed]
        exact .kept rfl rfl rfl
      · simp only [hok]
        exact .refreshed trivial ⟨hrefreshed.kernel_eq, hrefreshed.visible_eq, hrefreshed.opts_eq⟩
  | refresh faults =>
    rw [step]
    rcases refresh_cases r faults with ⟨e, hfailed⟩ | ⟨hok, hrefreshed, -⟩
    · simp only [hfailed]
      exact .kept rfl rfl rfl
    · simp only [hok]
      exact .refreshed trivial hrefreshed
  | query sql =>
    rw [step, query, DuckDbKernel.query]
    rcases hquery : E.queryArrow r.kernel.conn sql with ⟨source | batches, conn⟩
    · have hconn : conn = (E.queryArrow r.kernel.conn sql).2 := by rw [hquery]
      subst hconn
      exact .queried rfl
    · have hconn : conn = (E.queryArrow r.kernel.conn sql).2 := by rw [hquery]
      subst hconn
      exact .queried rfl

/-- What every `apply` of the good shipments keeps, every operation from them keeps. -/
theorem step_replica {P : Replica S → Prop} {good : Shipment S → Prop}
    (happly : ∀ r s faults, good s → P r → P (r.apply faults s).2) {r : ReadReplica S E}
    {op : ReplicaOp S E} (hop : op.From good) (h : P r.replica) : P (r.step op).2.replica := by
  cases op with
  | apply faults s =>
    have hstep := happly r.replica s faults hop h
    rw [step, apply]
    rcases hresult : r.replica.apply faults s with ⟨e | applied, replica⟩ <;> rwa [hresult] at hstep
  | catchUp faults src =>
    have hstep := Replica.catchUp_invariant happly faults hop h
    rw [step, catchUp]
    rcases hresult : r.replica.catchUp faults src with ⟨e | advanced, replica⟩ <;>
      rwa [hresult] at hstep
  | restoreTo faults kernelFaults src target =>
    have hstep := Replica.restoreTo_invariant happly faults target hop h
    rw [step, restoreTo]
    rcases hresult : r.replica.restoreTo faults src target with ⟨e | ⟨⟩, replica⟩
    · rwa [hresult] at hstep
    · rw [hresult] at hstep
      rcases refresh_cases { r with replica } kernelFaults with
        ⟨e, hfailed⟩ | ⟨-, -, hreplica⟩
      · simpa only [hfailed] using hstep
      · simpa only [hreplica] using hstep
  | refresh faults =>
    rw [step]
    rcases refresh_cases r faults with ⟨e, hfailed⟩ | ⟨-, -, hreplica⟩
    · simpa only [hfailed] using h
    · simpa only [hreplica] using h
  | query sql =>
    rw [step, query]
    rcases (r.kernel.query sql : Except (KernelError S E.Error) E.Batches × DuckDbKernel E) with
      ⟨source | batches, kernel⟩ <;> exact h

/-- No operation loses anything of the store. -/
theorem onward_step (hS : S.Laws) (r : ReadReplica S E) (op : ReplicaOp S E) :
    r.replica.store.Onward (r.step op).2.replica.store := by
  have happly : ∀ (replica : Replica S) s faults, True → r.replica.store.Onward replica.store →
      r.replica.store.Onward (replica.apply faults s).2.store := fun replica s faults _ h =>
    h.trans (Replica.onward_apply hS faults replica s)
  have hop : op.From fun _ => True := by
    cases op <;> first | trivial | exact fun _ _ _ _ _ => trivial
  exact step_replica happly hop ⟨.refl _, rfl⟩

/-- A connection stays one to the file of the visible manifest while that manifest is kept. -/
theorem Hydrated.onward (hS : S.Laws) {r r' : ReadReplica S E} {conn : E.Connection}
    (h : r.Hydrated conn) (honward : r.replica.store.Onward r'.replica.store)
    (hvisible : r'.visible = r.visible) (hopts : r'.opts = r.opts) : r'.Hydrated conn := by
  rw [Hydrated, hvisible, hopts]
  exact h.mono honward.pageSize_eq (fun _ hpages => honward.grows.resolve hpages)
    fun _ _ hpage => hS.toContentAddressed.read_grows honward.grows hpage

/-- A refreshed kernel is connected to the file of its manifest. -/
theorem Refreshed.hydrated {r r' : ReadReplica S E} (h : Refreshed r r') :
    r'.Hydrated r'.kernel.conn := by
  obtain ⟨faults, hopen⟩ := h.kernel_eq
  rw [Hydrated, h.visible_eq]
  exact DuckDbKernel.hydrates_of_open hopen

/-- The kernel was hydrated from the visible manifest, and queries have run on it since. -/
def Shown (r : ReadReplica S E) : Prop :=
  ∃ conn sqls, r.Hydrated conn ∧ r.kernel.conn = (run E.queryArrow conn sqls).2

/-- Every operation shows the visible manifest. -/
theorem shown_step (hS : S.Laws) {r : ReadReplica S E} (h : Shown r) (op : ReplicaOp S E) :
    Shown (r.step op).2 := by
  have honward := onward_step hS r op
  have hseen := step_seen r op
  generalize r.step op = result at honward hseen
  obtain ⟨conn, sqls, hhydrated, hconn⟩ := h
  cases hseen with
  | kept hkernel hvisible hopts =>
    exact ⟨conn, sqls, hhydrated.onward hS honward hvisible hopts, by rw [hkernel, hconn]⟩
  | @queried _ sql hop =>
    refine ⟨conn, sqls ++ [sql], hhydrated, ?_⟩
    rw [run_append, hconn]
    rfl
  | refreshed _ hrefreshed => exact ⟨_, [], hrefreshed.hydrated, rfl⟩

/-- Every run shows the visible manifest. -/
theorem shown_run (hS : S.Laws) {r : ReadReplica S E} (h : Shown r) (ops : List (ReplicaOp S E)) :
    Shown (run step r ops).2 := by
  have hstep : ∀ (r : ReadReplica S E) op, Shown r → Shown (r.step op).2 :=
    fun _ op h => shown_step hS h op
  exact run_keeps hstep ops h

/-- A read replica that has been opened shows its recovered head. -/
theorem hydrated_of_openWith {env : Env S E} {pool pool' : Pool S} {dbName : String}
    {opts : KernelOpts} {r : ReadReplica S E}
    (h : openWith env pool dbName opts = (.ok r, pool')) :
    r.visible = r.replica.head ∧ r.Hydrated r.kernel.conn := by
  rw [openWith] at h
  cases hname : (validateName dbName : Except (FlockError S E) Unit) with
  | error e =>
    rw [hname] at h
    cases h
  | ok _ =>
    simp only [hname] at h
    rcases hstore : (openStore env pool dbName "open the replica's durable store"
        "replay the replica's log" : Except (FlockError S E) S.ManifestId × Pool S) with
      ⟨e | head, pool''⟩
    · simp only [hstore] at h
      cases h
    · simp only [hstore] at h
      cases hopen : (DuckDbKernel.open pageStore (pool''.durable dbName head) opts env.kernel :
          Except (KernelError S E.Error) (DuckDbKernel E)) with
      | error source =>
        simp only [hopen] at h
        cases h
      | ok kernel =>
        simp only [hopen] at h
        cases h
        exact ⟨rfl, DuckDbKernel.hydrates_of_open hopen⟩

/-- A read replica that has been opened shows the visible manifest. -/
theorem shown_of_openWith {env : Env S E} {pool pool' : Pool S} {dbName : String}
    {opts : KernelOpts} {r : ReadReplica S E}
    (h : openWith env pool dbName opts = (.ok r, pool')) : Shown r :=
  ⟨_, [], (hydrated_of_openWith h).2, rfl⟩

/-- A pool of a follower's own, still empty. -/
def followerPool : Pool (memory []) := ⟨"/follower", 4, ⟨[], []⟩, fun _ => none⟩

/-- A read replica that has just been opened on the empty pool. -/
def follower : ReadReplica (memory []) memoryEngine where
  name := "sales"
  replica := Replica.new ⟨⟨⟨[], []⟩, [], 4⟩, none⟩ .new
  kernel := ⟨[], "/tmp/flock.duckdb"⟩
  visible := []
  opts := ⟨none, none⟩

/-- Opening a read replica on the empty pool goes through. -/
theorem openWith_followerPool :
    ∃ pool, openWith .none followerPool "sales" ⟨none, none⟩ = (.ok follower, pool) := ⟨_, rfl⟩

end ReadReplica

end FlockDb
