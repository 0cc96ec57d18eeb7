import FlockDb.Core.Fork
import FlockDb.Core.Restore

/-!
# What survives a crash

A head is recorded by a logged commit, by a rewind and a checkpoint, or by a new log and a
checkpoint. Between two operations the log records the head that the handle stands at. A
register keeps what each database recorded last and what every snapshot held; a crash cuts
the run inside an operation, so what is on disk then is what that operation leaves when one
of its calls is refused.
-/

namespace FlockDb

open Runs

variable {S : Substrate} {E : Engine}

/-- An operation that returned, and not with an error. -/
def Answer.Returned : Answer S E → Prop
  | .failed _ => False
  | _ => True

instance : DecidablePred (Answer.Returned (S := S) (E := E))
  | .failed _ => .isFalse id
  | .ignored | .done | .changed _ | .batches _ | .manifest _ | .slept _ => .isTrue trivial

/-- What each database of a pool recorded last, and what the snapshots taken so far held. -/
structure Register (S : Substrate) (E : Engine) where
  last : String → S.ManifestId
  taken : List (S.ManifestId × E.Content)

namespace World

/-- What a snapshot of a database names, if it is taken, and what the database holds. -/
def snapshotOf (w : World S E) (env : Env S E) (name : String) :
    Option (S.ManifestId × E.Content) :=
  (w.handles name).bind fun db =>
    (db.snapshot env w.pool).1.toOption.map fun m => (m, E.content db.kernel.conn)

/-- The snapshot that an operation takes, if it gets that far. -/
def takes (w : World S E) : Op S E → Option (S.ManifestId × E.Content)
  | .snapshot env name => w.snapshotOf env name
  | .sleep env _ _ name _ => w.snapshotOf env name
  | .fork snapshotEnv _ parent name =>
    if (validateName (S := S) (E := E) name).toBool ∧ (w.pool.dbs name).isNone then
      w.snapshotOf snapshotEnv parent
    else none
  | _ => none

/-- The manifest that an operation records for a database. A fork records its parent's
snapshot for both. -/
def records (w : World S E) (op : Op S E) (n : String) : Option S.ManifestId :=
  match op with
  | .snapshot _ name | .sleep _ _ _ name _ => if n = name then (w.takes op).map Prod.fst else none
  | .fork _ _ parent name => if n = parent ∨ n = name then (w.takes op).map Prod.fst else none
  | .restore _ name m => if n = name then (w.handles name).map fun _ => m else none
  | _ => none

/-- An operation is entered into the register. -/
def enter (w : World S E) (op : Op S E) (register : Register S E) : Register S E :=
  ⟨fun n => (w.records op n).getD (register.last n), (w.takes op).toList ++ register.taken⟩

/-- One operation, and its entry in the register. -/
def registerStep (st : World S E × Register S E) (op : Op S E) :
    Answer S E × World S E × Register S E :=
  ((st.1.step op).1, (st.1.step op).2, st.1.enter op st.2)

/-- The register of a run from a pool on disk, which starts with what the logs record. -/
def registerOf (pool : Pool S) (ops : List (Op S E)) : Register S E :=
  (run registerStep (start pool, ⟨pool.recoveredHead, []⟩) ops).2.2

/-- Between two operations every handle stands at the head that its log records, the register
has that head, and the pool has what every snapshot in the register held. -/
structure Settled (w : World S E) (register : Register S E) : Prop where
  filed : Filed w
  heads : ∀ n db, w.handles n = some db → db.store = .local (w.pool.recoveredHead n)
  last : ∀ n, w.pool.recoveredHead n = register.last n
  taken : ∀ m content, (m, content) ∈ register.taken → ∃ file, Captures w.pool m file content

end World

/-- Another database's operation leaves the head that a log records. -/
theorem Pool.Beside.recoveredHead_eq {pool pool' : Pool S} {name n : String}
    (h : pool.Beside name pool') (hn : n ≠ name) :
    pool'.recoveredHead n = pool.recoveredHead n := by
  rw [Pool.recoveredHead, Pool.recoveredHead, Pool.wal, Pool.wal, h.pageSize_eq, h.dbs_eq n hn]

/-- A durable store whose log keeps recording the head, if it did. -/
def DurableStore.KeepsRecord (store store' : DurableStore S) : Prop :=
  store.recoveredHead = store.head → store'.recoveredHead = store'.head

/-- Nothing happened to the record. -/
theorem DurableStore.KeepsRecord.refl (store : DurableStore S) : store.KeepsRecord store := id

/-- Keeping the record composes. -/
theorem DurableStore.KeepsRecord.trans {store store' store'' : DurableStore S}
    (h : store.KeepsRecord store') (h' : store'.KeepsRecord store'') :
    store.KeepsRecord store'' := h' ∘ h

/-- A write keeps the record: neither the head nor the log moves. -/
theorem durableHandle_write_keepsRecord (faults : Faults S) (nowMs : ℕ) (store : DurableStore S)
    (txn : S.Txn) (p : PageNo) (bytes : Bytes) :
    store.KeepsRecord ((durableHandle faults nowMs).write store txn p bytes).2 := by
  change store.KeepsRecord { store with pager := (store.pager.write faults txn p bytes).2 }
  rw [Pager.write]
  cases faults (.write p) with
  | some e => exact id
  | none => exact id

/-- A commit keeps the record: it logs the head it moves to, or moves nowhere. -/
theorem durableHandle_commit_keepsRecord (hS : S.Commits) (faults : Faults S) (nowMs : ℕ)
    (store : DurableStore S) (txn : S.Txn) :
    store.KeepsRecord ((durableHandle faults nowMs).commit store txn).2 := by
  intro hrecord
  rw [durableHandle_commit_snd]
  rcases DurableStore.commit_cases hS faults store txn nowMs with
    ⟨e, -, herror⟩ | ⟨-, store', hok, hcommitted⟩
  · rw [herror]
    exact hrecord
  · rw [hok]
    by_cases hhead : store'.head = store.head
    · rw [DurableStore.recoveredHead, hcommitted.pageSize_eq, hcommitted.wal_eq hhead, hhead]
      exact hrecord
    · exact hcommitted.recovered hhead

namespace Db

/-- A snapshot of a database that stands where its log records leaves it so: at the snapshot,
if it is taken, and where it was otherwise. -/
theorem snapshot_recoveredHead (hS : S.Laws) (hE : E.Laws) (env : Env S E) {db : Db S E}
    {pool : Pool S} (hexists : (pool.dbs db.name).isSome)
    (hstore : db.store = .local (pool.recoveredHead db.name)) :
    (db.snapshot env pool).2.1.store =
        .local ((db.snapshot env pool).2.2.recoveredHead db.name) ∧
      (∀ m, (db.snapshot env pool).1 = .ok m →
        (db.snapshot env pool).2.2.recoveredHead db.name = m) ∧
      ∀ e, (db.snapshot env pool).1 = .error e →
        (db.snapshot env pool).2.2.recoveredHead db.name = pool.recoveredHead db.name := by
  let start : DurableStore S := pool.durable db.name (pool.recoveredHead db.name)
  have hkeeps : start.KeepsRecord
      (db.kernel.checkpoint (durableHandle env.store env.nowMs) env.kernel start).2.2 :=
    DuckDbKernel.checkpoint_related (.refl ·) .trans
      (durableHandle_write_keepsRecord env.store env.nowMs)
      (durableHandle_commit_keepsRecord hS.toCommits env.store env.nowMs) db.kernel env.kernel start
  have honward := checkpoint_onward hS env db.kernel start
  have hrecord : start.recoveredHead = start.head := rfl
  rw [snapshot, hstore]
  simp only
  rcases hcheckpoint : db.kernel.checkpoint (durableHandle env.store env.nowMs) env.kernel start
    with ⟨result, kernel, store⟩
  rw [hcheckpoint] at hkeeps honward
  have hkept : (pool.keep db.name store).recoveredHead db.name = store.head := by
    rw [Pool.recoveredHead, Pool.wal_keep hexists]
    have hsize : store.pager.pageSize = pool.pageSize := honward.pageSize_eq
    rw [← hkeeps hrecord, DurableStore.recoveredHead, hsize]
    rfl
  rcases DuckDbKernel.checkpoint_spec hE (durableHandle_applies hS env.store env.nowMs) db.kernel
      env.kernel start hcheckpoint with
    ⟨e, herror, hundisturbed, -⟩ | ⟨m, file, hok, -, hpersisted⟩
  · obtain rfl : result = .error e := herror
    have hhead : store.head = pool.recoveredHead db.name := hundisturbed.head
    exact ⟨congrArg _ hkept.symm, fun m hm => (by cases hm), fun _ _ => hkept.trans hhead⟩
  · obtain rfl : result = .ok m := hok
    have hhead : store.head = m := hpersisted.head_eq
    refine ⟨congrArg _ hkept.symm, fun m' hm' => ?_, fun e he => by cases he⟩
    exact (hkept.trans hhead).trans (Except.ok.inj hm')

/-- A restore leaves the log of a database of the pool with the head it recorded, or with the
manifest. -/
theorem restore_pool (hS : S.Recovers) (env : Env S E) {db : Db S E} {pool : Pool S}
    (hexists : db.Local → (pool.dbs db.name).isSome) (hlocal : db.Local) (m : S.ManifestId) :
    (db.restore env pool m).2.2.recoveredHead db.name = pool.recoveredHead db.name ∨
      (db.restore env pool m).2.2.recoveredHead db.name = m := by
  rw [restore]
  rcases rewindTo_cases hS env hexists m with
    ⟨-, e, hrewind⟩ | ⟨-, pool', -, -, ⟨-, hrecovered, e, hrewind⟩ | ⟨-, hrecovered, hrewind⟩⟩
  · rw [hrewind]
    exact .inl rfl
  · rw [hrewind]
    exact .inl hrecovered
  · simp only [hrewind]
    refine .inr ?_
    cases (db.store.movedTo m).openKernel env pool' db.name db.opts <;> exact hrecovered hlocal

/-- A restore that returns leaves a database of the pool at the manifest, and its log records
it. -/
theorem restore_recoveredHead (hS : S.Recovers) {env : Env S E} {db : Db S E} {pool : Pool S}
    (hexists : db.Local → (pool.dbs db.name).isSome) (hlocal : db.Local) {m : S.ManifestId}
    (hok : (db.restore env pool m).1 = .ok ()) :
    (db.restore env pool m).2.1.name = db.name ∧
      (db.restore env pool m).2.1.store = .local m ∧
      (db.restore env pool m).2.2.recoveredHead db.name = m := by
  have hmoved : db.store.movedTo m = .local m := by
    obtain ⟨head, hstore⟩ := hlocal
    rw [hstore]
    rfl
  rw [restore] at hok ⊢
  rcases rewindTo_cases hS env hexists m with
    ⟨-, e, hrewind⟩ | ⟨-, pool', -, -, ⟨-, -, e, hrewind⟩ | ⟨-, hrecovered, hrewind⟩⟩
  · rw [hrewind] at hok
    cases hok
  · rw [hrewind] at hok
    cases hok
  · simp only [hrewind] at hok ⊢
    cases hkernel : (db.store.movedTo m).openKernel env pool' db.name db.opts with
    | error source =>
      simp only [hkernel] at hok
      cases hok
    | ok kernel => exact ⟨rfl, hmoved, hrecovered hlocal⟩

end Db

namespace World

/-- Moving the pool in the hands of one database keeps a world settled if the handle is left
at the head that the log now records. -/
theorem Settled.setHandle {w : World S E} {register register' : Register S E}
    (h : Settled w register) {pool : Pool S} {name : String} (hbeside : w.pool.Beside name pool)
    {db : Option (Db S E)}
    (hdb : ∀ db', db = some db' → db'.name = name ∧
      db'.store = .local (pool.recoveredHead name) ∧ (pool.dbs name).isSome)
    (hlast : ∀ n, register'.last n =
      if n = name then pool.recoveredHead name else register.last n)
    (htaken : ∀ m content, (m, content) ∈ register'.taken →
      ∃ file, Captures pool m file content) :
    Settled ({ w with pool }.setHandle name db) register' where
  filed := h.filed.setHandle hbeside fun db' hdb' =>
    ⟨(hdb db' hdb').1, ⟨_, (hdb db' hdb').2.1⟩, (hdb db' hdb').2.2⟩
  heads := by
    intro n db' hn
    change db'.store = .local (pool.recoveredHead n)
    by_cases heq : n = name
    · subst heq
      rw [setHandle_self] at hn
      exact (hdb db' hn).2.1
    · rw [setHandle_of_ne _ heq] at hn
      rw [hbeside.recoveredHead_eq heq]
      exact h.heads n db' hn
  last := by
    intro n
    change pool.recoveredHead n = register'.last n
    rw [hlast]
    split
    · subst n
      rfl
    · next hn => rw [hbeside.recoveredHead_eq hn, h.last]
  taken := htaken

/-- A snapshot in a settled world: the handle is left at the head that the log records, which
is the snapshot if it was taken. -/
theorem Settled.snapshot (hS : S.Laws) (hE : E.Laws) {w : World S E} {register : Register S E}
    (h : Settled w register) {name : String} {db : Db S E} (hdb : w.handles name = some db)
    (env : Env S E) :
    w.pool.Beside name (db.snapshot env w.pool).2.2 ∧
      (db.snapshot env w.pool).2.1.name = name ∧
      (db.snapshot env w.pool).2.1.store =
        .local ((db.snapshot env w.pool).2.2.recoveredHead name) ∧
      (db.snapshot env w.pool).2.2.recoveredHead name =
        (db.snapshot env w.pool).1.toOption.getD (register.last name) := by
  obtain ⟨hname, -, hexists⟩ := h.filed name db hdb
  have hstore := h.heads name db hdb
  obtain ⟨hbeside, hname', -⟩ := Db.beside_snapshot hS env db w.pool
  subst hname
  obtain ⟨hleft, hok, herror⟩ := Db.snapshot_recoveredHead hS hE env hexists hstore
  refine ⟨hbeside, hname', hleft, ?_⟩
  cases hresult : (db.snapshot env w.pool).1 with
  | error e => rw [herror e hresult, h.last, Except.toOption, Option.getD_none]
  | ok m => rw [hok m hresult, Except.toOption, Option.getD_some]

/-- The snapshot of a database with a live handle. -/
theorem snapshotOf_eq {w : World S E} {name : String} {db : Db S E}
    (hdb : w.handles name = some db) (env : Env S E) :
    w.snapshotOf env name = (db.snapshot env w.pool).1.toOption.map fun m =>
      (m, E.content db.kernel.conn) := by
  rw [snapshotOf, hdb, Option.bind_some]

/-- What the register says of a database after a snapshot is entered for another or for it. -/
theorem getD_snapshotOf {w : World S E} {name : String} {db : Db S E}
    (hdb : w.handles name = some db) (env : Env S E) (n : String) (last : S.ManifestId) :
    (if n = name then (w.snapshotOf env name).map Prod.fst else none).getD last =
      if n = name then (db.snapshot env w.pool).1.toOption.getD last else last := by
  rw [snapshotOf_eq hdb]
  split
  · cases (db.snapshot env w.pool).1 <;> rfl
  · rfl

/-- An operation on a database without a live handle enters nothing. -/
theorem enter_of_no_handle {w : World S E} {op : Op S E} (h : w.handles op.subject = none)
    (register : Register S E) : w.enter op register = register := by
  have hsnapshotOf (env : Env S E) : w.snapshotOf env op.subject = none := by
    rw [snapshotOf, h, Option.bind_none]
  have htakes : w.takes op = none := by
    cases op with
    | snapshot env name => exact hsnapshotOf env
    | sleep env faults fuel name remotePool => exact hsnapshotOf env
    | fork snapshotEnv env parent name =>
      simp only [takes]
      split
      · exact hsnapshotOf snapshotEnv
      · rfl
    | _ => rfl
  have hrecords (n : String) : w.records op n = none := by
    cases op with
    | restore env name m => simp [records, show w.handles name = none from h]
    | snapshot env name => simp [records, htakes]
    | sleep env faults fuel name remotePool => simp [records, htakes]
    | fork snapshotEnv env parent name => simp [records, htakes]
    | _ => rfl
  simp only [enter, htakes, hrecords, Option.getD_none]
  rfl

/-- What a snapshot names when it is taken is captured by the pool it leaves. -/
theorem captures_of_snapshotOf (hS : S.Laws) (hE : E.Laws) {w : World S E} (h : Filed w)
    {name : String} {db : Db S E} (hdb : w.handles name = some db) {env : Env S E}
    {m : S.ManifestId} {content : E.Content}
    (htakes : w.snapshotOf env name = some (m, content)) :
    ∃ file, Captures (db.snapshot env w.pool).2.2 m file content := by
  obtain ⟨-, hlocal, -⟩ := h name db hdb
  rw [snapshotOf_eq hdb] at htakes
  rcases hsnapshot : db.snapshot env w.pool with ⟨e | m', db', pool'⟩
  · rw [hsnapshot] at htakes
    cases htakes
  · rw [hsnapshot] at htakes
    cases htakes
    obtain ⟨file, -, hcaptures⟩ := (snapshotted_of_ok hS hE hlocal hsnapshot).captures
    exact ⟨file, hcaptures⟩

/-- The pool that a database's sleep leaves is the one its snapshot leaves. -/
theorem sleep_pool (env : Env S E) (faults : SleepFaults S) (fuel : ℕ) (db : Db S E)
    (pool : Pool S) (remotePool : String) :
    (db.sleep env faults fuel pool remotePool).2 = (db.snapshot env pool).2.2 := by
  rw [Db.sleep]
  rcases db.snapshot env pool with ⟨e | head, db', pool'⟩
  · rfl
  · simp only
    cases db'.store <;> rfl

/-- A fork that gets as far as its snapshot, and the pool it then leaves. -/
theorem fork_of_takes {w : World S E} {snapshotEnv env : Env S E} {parent name : String}
    {taken : S.ManifestId × E.Content}
    (h : w.takes (.fork snapshotEnv env parent name) = some taken) :
    w.snapshotOf snapshotEnv parent = some taken ∧
      validateName (S := S) (E := E) name = .ok () ∧ w.pool.dbs name = none := by
  simp only [takes] at h
  split at h
  · next hguard =>
    refine ⟨h, ?_, Option.isNone_iff_eq_none.mp hguard.2⟩
    cases hname : validateName (S := S) (E := E) name with
    | error e => simp [hname, Except.toBool] at hguard
    | ok _ => rfl
  · cases h

/-- The pool that a fork leaves. -/
theorem fork_pool {w : World S E} {parent : String} {db : Db S E}
    (hdb : w.handles parent = some db) (snapshotEnv env : Env S E) (name : String) :
    (w.step (.fork snapshotEnv env parent name)).2.pool =
      (db.fork snapshotEnv env w.pool name).2.2 := by
  simp only [step, hdb]
  rcases db.fork snapshotEnv env w.pool name with ⟨e | child, db', pool'⟩ <;> rfl

/-- Every snapshot in the register is captured, also by the pool that an operation leaves that
may have been cut short. -/
theorem captures_enter (hS : S.Laws) (hE : E.Laws) {w : World S E} {register : Register S E}
    (h : Settled w register) (op : Op S E) {m : S.ManifestId} {content : E.Content}
    (hmem : (m, content) ∈ (w.enter op register).taken) :
    ∃ file, Captures (w.step op).2.pool m file content := by
  rcases List.mem_append.mp hmem with hnew | hold
  · have htakes : w.takes op = some (m, content) := Option.mem_toList.mp hnew
    have hpool {env : Env S E} {name : String}
        (hsnapshot : w.snapshotOf env name = some (m, content)) :
        ∃ db file, w.handles name = some db ∧
          Captures (db.snapshot env w.pool).2.2 m file content := by
      cases hdb : w.handles name with
      | none =>
        rw [snapshotOf, hdb] at hsnapshot
        cases hsnapshot
      | some db =>
        obtain ⟨file, hcaptures⟩ := captures_of_snapshotOf hS hE h.filed hdb hsnapshot
        exact ⟨db, file, rfl, hcaptures⟩
    cases op with
    | snapshot env name =>
      obtain ⟨db, file, hdb, hcaptures⟩ := hpool htakes
      refine ⟨file, ?_⟩
      simp only [step, onHandle, hdb]
      exact hcaptures
    | sleep env faults fuel name remotePool =>
      obtain ⟨db, file, hdb, hcaptures⟩ := hpool htakes
      refine ⟨file, ?_⟩
      simp only [step, onHandle, hdb]
      rw [← sleep_pool env faults fuel db w.pool remotePool] at hcaptures
      exact hcaptures
    | fork snapshotEnv env parent name =>
      obtain ⟨hsnapshot, hvalid, hfree⟩ := fork_of_takes htakes
      obtain ⟨db, file, hdb, hcaptures⟩ := hpool hsnapshot
      obtain ⟨hbeside, -⟩ := Db.beside_forkFrom hS.toRecovers env
        (db.snapshot snapshotEnv w.pool).2.1 (db.snapshot snapshotEnv w.pool).2.2 name m
      refine ⟨file, ?_⟩
      rw [fork_pool hdb]
      rcases Db.fork_cases snapshotEnv env db w.pool name with
        ⟨hrefused, -⟩ | ⟨-, -, ⟨e, db', pool', hresult, -⟩ | ⟨m', db', pool', hresult, hfork⟩⟩
      · rcases hrefused with ⟨e, hinvalid⟩ | htaken
        · rw [hvalid] at hinvalid
          cases hinvalid
        · rw [hfree] at htaken
          cases htaken
      · rw [snapshotOf_eq hdb, hresult] at hsnapshot
        cases hsnapshot
      · rw [snapshotOf_eq hdb, hresult] at hsnapshot
        cases hsnapshot
        rw [hresult] at hcaptures hbeside
        rw [hfork]
        exact hcaptures.beside hS.toContentAddressed hbeside
    | _ => cases htakes
  · obtain ⟨file, hcaptures⟩ := h.taken m content hold
    have honward := onward_step hS w op
    exact ⟨file, hcaptures.grows hS.toContentAddressed honward.pageSize_eq honward.grows⟩

/-- An operation on a handle that leaves the pool and the store alone, or drops the handle,
keeps a world settled. -/
theorem Settled.onHandle_kept {w : World S E} {register : Register S E} (h : Settled w register)
    {name : String} {f : Db S E → Answer S E × Option (Db S E) × Pool S}
    (hpool : ∀ db, (f db).2.2 = w.pool)
    (hkept : ∀ db db', (f db).2.1 = some db' → db'.name = db.name ∧ db'.store = db.store) :
    Settled (w.onHandle name f).2 register := by
  rw [onHandle]
  cases hdb : w.handles name with
  | none => exact h
  | some db =>
    obtain ⟨hname, -, hexists⟩ := h.filed name db hdb
    have hbeside : w.pool.Beside name (f db).2.2 := by
      rw [hpool]
      exact .refl name w.pool
    refine h.setHandle hbeside (fun db' hdb' => ?_) (fun n => ?_) fun m content hmem => ?_
    · obtain ⟨hname', hstore'⟩ := hkept db db' hdb'
      rw [hpool]
      exact ⟨hname'.trans hname, hstore'.trans (h.heads name db hdb), hexists⟩
    · rw [hpool]
      split
      · subst n
        exact (h.last name).symm
      · rfl
    · rw [hpool]
      exact h.taken m content hmem

/-- A fork that returns keeps a world settled. -/
theorem settled_fork (hS : S.Laws) (hP : S.Positions) (hE : E.Laws) {w : World S E}
    {register : Register S E} (h : Settled w register) (snapshotEnv env : Env S E)
    (parent name : String)
    (hdone : (w.step (.fork snapshotEnv env parent name)).1.Returned) :
    Settled (w.step (.fork snapshotEnv env parent name)).2
      (w.enter (.fork snapshotEnv env parent name) register) := by
  have htaken : ∀ m content,
      (m, content) ∈ (w.enter (.fork snapshotEnv env parent name) register).taken →
        ∃ file, Captures (w.step (.fork snapshotEnv env parent name)).2.pool m file content :=
    fun m content hmem => captures_enter hS hE h _ hmem
  cases hdb : w.handles parent with
  | none =>
    rw [enter_of_no_handle hdb, step, hdb]
    exact h
  | some db =>
    simp only [step, hdb] at hdone htaken ⊢
    rcases Db.fork_cases snapshotEnv env db w.pool name with
      ⟨-, e, hfork⟩ |
      ⟨hvalid, hfree, ⟨e, db', pool', hsnapshot, hfork⟩ | ⟨m, db', pool', hsnapshot, hfork⟩⟩
    · rw [hfork] at hdone
      exact hdone.elim
    · rw [hfork] at hdone
      exact hdone.elim
    · rw [hfork] at hdone htaken ⊢
      cases hchild : (Db.forkFrom env db' pool' name m).1 with
      | error e =>
        rw [hchild] at hdone
        exact hdone.elim
      | ok child =>
        rw [hchild] at htaken
        obtain ⟨-, -, hexists⟩ := h.filed parent db hdb
        obtain ⟨hbeside, hname, hstore, hhead⟩ := h.snapshot hS hE hdb snapshotEnv
        have hdbs := snapshot_dbs_isSome snapshotEnv db w.pool name
        have htakes : w.takes (.fork snapshotEnv env parent name) =
            some (m, E.content db.kernel.conn) := by
          simp [takes, hvalid, hfree, Except.toBool, snapshotOf_eq hdb, hsnapshot,
            Except.toOption]
        rw [hsnapshot] at hbeside hname hstore hhead hdbs
        have hfree' : pool'.dbs name = none := by
          rw [hfree] at hdbs
          exact Option.not_isSome_iff_eq_none.mp (by simp [hdbs])
        have hparent : Settled ({ w with pool := pool' }.setHandle parent (some db'))
            ⟨fun n => if n = parent then m else register.last n, []⟩ := by
          refine h.setHandle hbeside (fun db'' hdb'' => ?_) (fun n => ?_) fun _ _ hmem => ?_
          · obtain rfl := Option.some.inj hdb''
            exact ⟨hname, hstore, hbeside.isSome hexists⟩
          · rw [hhead]
            rfl
          · cases hmem
        obtain ⟨hfrom, hfiled⟩ := Db.beside_forkFrom hS.toRecovers env db' pool' name m
        obtain ⟨hchildName, hchildStore, hchildExists⟩ := hfiled child hchild
        have hchildHead := Db.forkFrom_recoveredHead hS.toRecovers hP hfree' hchild
        refine hparent.setHandle hfrom (fun child' hchild' => ?_) (fun n => ?_) htaken
        · obtain rfl := Option.some.inj hchild'
          exact ⟨hchildName, by rw [hchildStore, hchildHead], hchildExists⟩
        · rw [hchildHead]
          simp only [enter, records, htakes]
          by_cases hn : n = name
          · simp [hn]
          · by_cases hn' : n = parent <;> simp [hn, hn']

/-- An operation that returns keeps a world settled. -/
theorem settled_step (hS : S.Laws) (hP : S.Positions) (hE : E.Laws) {w : World S E}
    {register : Register S E} (h : Settled w register) (op : Op S E)
    (hdone : (w.step op).1.Returned) : Settled (w.step op).2 (w.enter op register) := by
  have htaken : ∀ m content, (m, content) ∈ (w.enter op register).taken →
      ∃ file, Captures (w.step op).2.pool m file content :=
    fun m content hmem => captures_enter hS hE h op hmem
  cases op with
  | «open» env name opts =>
    simp only [step] at hdone htaken ⊢
    cases hdb : w.handles name with
    | some db => exact h
    | none =>
      simp only [hdb] at hdone htaken ⊢
      rcases hopened : Flock.openWith env w.pool name opts with ⟨e | db, pool⟩
      · simp only [hopened] at hdone
        exact hdone.elim
      · obtain ⟨hstore, hbeside, hrecovered, -⟩ := openWith_recoveredHead hS.toRecovers hopened
        obtain ⟨-, hfiled⟩ := Db.beside_openWith hS.toRecovers env w.pool name opts
        rw [hopened] at hfiled
        simp only [hopened] at htaken
        obtain ⟨hname, -, hexists⟩ := hfiled db rfl
        refine h.setHandle hbeside (fun db' hdb' => ?_) (fun n => ?_) htaken
        · obtain rfl := Option.some.inj hdb'
          exact ⟨hname, by rw [hstore, hrecovered], hexists⟩
        · split
          · subst n
            exact (hrecovered.trans (h.last name)).symm
          · rfl
  | close name => exact h.onHandle_kept (fun _ => rfl) fun _ _ hdb' => by cases hdb'
  | execute name sql =>
    refine h.onHandle_kept (fun _ => rfl) fun db _ hdb' => ?_
    obtain rfl := Option.some.inj hdb'
    exact execute_kept db sql
  | executeBatch name sql =>
    refine h.onHandle_kept (fun _ => rfl) fun db _ hdb' => ?_
    obtain rfl := Option.some.inj hdb'
    exact executeBatch_kept db sql
  | query name sql =>
    refine h.onHandle_kept (fun _ => rfl) fun db _ hdb' => ?_
    obtain rfl := Option.some.inj hdb'
    exact query_kept db sql
  | snapshot env name =>
    cases hdb : w.handles name with
    | none =>
      rw [enter_of_no_handle hdb]
      simp only [step, onHandle, hdb]
      exact h
    | some db =>
      obtain ⟨hbeside, hname, hstore, hhead⟩ := h.snapshot hS hE hdb env
      obtain ⟨-, -, hexists⟩ := h.filed name db hdb
      simp only [step, onHandle, hdb] at htaken ⊢
      refine h.setHandle hbeside (fun db' hdb' => ?_) (fun n => ?_) htaken
      · obtain rfl := Option.some.inj hdb'
        exact ⟨hname, hstore, hbeside.isSome hexists⟩
      · rw [hhead]
        refine (getD_snapshotOf hdb env n (register.last n)).trans ?_
        split
        · subst n
          rfl
        · rfl
  | fork snapshotEnv env parent name =>
    exact settled_fork hS hP hE h snapshotEnv env parent name hdone
  | restore env name m =>
    cases hdb : w.handles name with
    | none =>
      rw [enter_of_no_handle hdb]
      simp only [step, onHandle, hdb]
      exact h
    | some db =>
      obtain ⟨hname, hlocal, hexists⟩ := h.filed name db hdb
      obtain ⟨hbeside, -, -⟩ := Db.beside_restore env db w.pool m
      simp only [step, onHandle, hdb] at hdone htaken ⊢
      subst hname
      obtain ⟨hname', hstore', hhead⟩ := Db.restore_recoveredHead hS.toRecovers (fun _ => hexists)
        hlocal (show (db.restore env w.pool m).1 = .ok () by
          cases hresult : (db.restore env w.pool m).1 with
          | error e =>
            rw [hresult] at hdone
            exact hdone.elim
          | ok _ => rfl)
      refine h.setHandle hbeside (fun db' hdb' => ?_) (fun n => ?_) htaken
      · obtain rfl := Option.some.inj hdb'
        exact ⟨hname', by rw [hstore', hhead], hbeside.isSome hexists⟩
      · rw [hhead]
        simp only [enter, records, hdb]
        split <;> rfl
  | sleep env faults fuel name remotePool =>
    cases hdb : w.handles name with
    | none =>
      rw [enter_of_no_handle hdb]
      simp only [step, onHandle, hdb]
      exact h
    | some db =>
      obtain ⟨hbeside, -, -, hhead⟩ := h.snapshot hS hE hdb env
      simp only [step, onHandle, hdb, sleep_pool] at htaken ⊢
      refine h.setHandle hbeside (fun db' hdb' => (by cases hdb')) (fun n => ?_) htaken
      rw [hhead]
      refine (getD_snapshotOf hdb env n (register.last n)).trans ?_
      split
      · subst n
        rfl
      · rfl

/-- A fork that is cut short leaves the parent at its head or at the snapshot the fork takes,
and every other database of the pool where it was. -/
theorem recoveredHead_fork (hS : S.Laws) (hE : E.Laws) {w : World S E} {register : Register S E}
    (h : Settled w register) (snapshotEnv env : Env S E) (parent name : String) {n : String}
    (hexists : (w.pool.dbs n).isSome) :
    (w.step (.fork snapshotEnv env parent name)).2.pool.recoveredHead n = register.last n ∨
      (w.step (.fork snapshotEnv env parent name)).2.pool.recoveredHead n =
        (w.enter (.fork snapshotEnv env parent name) register).last n := by
  cases hdb : w.handles parent with
  | none =>
    rw [step, hdb]
    exact .inl (h.last n)
  | some db =>
    obtain ⟨hbeside, -, -, hhead⟩ := h.snapshot hS hE hdb snapshotEnv
    rw [fork_pool hdb]
    rcases Db.fork_cases snapshotEnv env db w.pool name with
      ⟨-, e, hfork⟩ |
      ⟨hvalid, hfree, ⟨e, db', pool', hsnapshot, hfork⟩ | ⟨m, db', pool', hsnapshot, hfork⟩⟩
    · rw [hfork]
      exact .inl (h.last n)
    · rw [hsnapshot] at hbeside hhead
      rw [hfork]
      by_cases hn : n = parent
      · subst hn
        exact .inl hhead
      · exact .inl ((hbeside.recoveredHead_eq hn).trans (h.last n))
    · rw [hsnapshot] at hbeside hhead
      obtain ⟨hfrom, -⟩ := Db.beside_forkFrom hS.toRecovers env db' pool' name m
      have hne : n ≠ name := by
        rintro rfl
        rw [hfree] at hexists
        cases hexists
      have htakes : w.takes (.fork snapshotEnv env parent name) =
          some (m, E.content db.kernel.conn) := by
        simp [takes, hvalid, hfree, Except.toBool, snapshotOf_eq hdb, hsnapshot, Except.toOption]
      rw [hfork, hfrom.recoveredHead_eq hne]
      by_cases hn : n = parent
      · subst hn
        have hhead : pool'.recoveredHead n = m := hhead
        refine .inr (hhead.trans ?_)
        simp [enter, records, htakes]
      · exact .inl ((hbeside.recoveredHead_eq hn).trans (h.last n))

/-- An operation that is cut short leaves each database of the pool at the head that it
recorded last, or at the one that the operation records. -/
theorem recoveredHead_step (hS : S.Laws) (hE : E.Laws) {w : World S E} {register : Register S E}
    (h : Settled w register) (op : Op S E) {n : String} (hexists : (w.pool.dbs n).isSome) :
    (w.step op).2.pool.recoveredHead n = register.last n ∨
      (w.step op).2.pool.recoveredHead n = (w.enter op register).last n := by
  -- an operation on a handle that leaves the pool as it is
  have hkept (name : String) (f : Db S E → Answer S E × Option (Db S E) × Pool S)
      (hf : ∀ db, (f db).2.2 = w.pool) :
      (w.onHandle name f).2.pool.recoveredHead n = register.last n := by
    rw [onHandle]
    cases w.handles name with
    | none => exact h.last n
    | some db => exact (congrArg (Pool.recoveredHead · n) (hf db)).trans (h.last n)
  -- an operation whose effect on the pool is that of its snapshot
  have hsnapshotted (env : Env S E) (name : String) {db : Db S E}
      (hdb : w.handles name = some db) :
      (db.snapshot env w.pool).2.2.recoveredHead n =
        (if n = name then (w.snapshotOf env name).map Prod.fst else none).getD
          (register.last n) := by
    obtain ⟨hbeside, -, -, hhead⟩ := h.snapshot hS hE hdb env
    rw [getD_snapshotOf hdb]
    split
    · subst n
      exact hhead
    · next hn => exact (hbeside.recoveredHead_eq hn).trans (h.last n)
  cases op with
  | «open» env name opts =>
    simp only [step]
    cases w.handles name with
    | some db => exact .inl (h.last n)
    | none =>
      have hleaves := openWith_leaves_recoveredHead hS.toRecovers env w.pool name opts
      obtain ⟨hbeside, -⟩ := Db.beside_openWith hS.toRecovers env w.pool name opts
      have hhead : (Flock.openWith env w.pool name opts).2.recoveredHead n = register.last n := by
        by_cases hn : n = name
        · subst hn
          exact hleaves.trans (h.last n)
        · exact (hbeside.recoveredHead_eq hn).trans (h.last n)
      simp only
      rcases hopened : Flock.openWith env w.pool name opts with ⟨e | db, pool⟩
      all_goals rw [hopened] at hhead
      · exact .inl hhead
      · exact .inl hhead
  | close name => exact .inl (hkept name _ fun _ => rfl)
  | execute name sql => exact .inl (hkept name _ fun _ => rfl)
  | executeBatch name sql => exact .inl (hkept name _ fun _ => rfl)
  | query name sql => exact .inl (hkept name _ fun _ => rfl)
  | snapshot env name =>
    simp only [step, onHandle]
    cases hdb : w.handles name with
    | none => exact .inl (h.last n)
    | some db => exact .inr (hsnapshotted env name hdb)
  | fork snapshotEnv env parent name =>
    exact recoveredHead_fork hS hE h snapshotEnv env parent name hexists
  | restore env name m =>
    simp only [step, onHandle]
    cases hdb : w.handles name with
    | none => exact .inl (h.last n)
    | some db =>
      obtain ⟨hname, hlocal, hexists'⟩ := h.filed name db hdb
      obtain ⟨hbeside, -, -⟩ := Db.beside_restore env db w.pool m
      subst hname
      by_cases hn : n = db.name
      · subst hn
        rcases Db.restore_pool hS.toRecovers env (fun _ => hexists') hlocal m with hsame | hmoved
        · exact .inl (hsame.trans (h.last _))
        · refine .inr (hmoved.trans ?_)
          simp [enter, records, hdb]
      · exact .inl ((hbeside.recoveredHead_eq hn).trans (h.last n))
  | sleep env faults fuel name remotePool =>
    simp only [step, onHandle]
    cases hdb : w.handles name with
    | none => exact .inl (h.last n)
    | some db =>
      refine .inr ?_
      simp only [sleep_pool]
      exact hsnapshotted env name hdb

/-- The register only watches a run. -/
theorem run_registerStep (w : World S E) (register : Register S E) (ops : List (Op S E)) :
    (run registerStep (w, register) ops).1 = (run step w ops).1 ∧
      (run registerStep (w, register) ops).2.1 = (run step w ops).2 := by
  induction ops generalizing w register with
  | nil => exact ⟨rfl, rfl⟩
  | cons op ops ih =>
    obtain ⟨hanswers, hworld⟩ := ih (w.step op).2 (w.enter op register)
    rw [run_cons, run_cons]
    exact ⟨congrArg _ hanswers, hworld⟩

/-- A run of operations that return keeps a world settled. -/
theorem settled_run (hS : S.Laws) (hP : S.Positions) (hE : E.Laws) (pool : Pool S)
    (ops : List (Op S E)) (hdone : ∀ answer ∈ (run step (start pool) ops).1, answer.Returned) :
    Settled (run step (start pool) ops).2 (registerOf pool ops) := by
  obtain ⟨hanswers, hworld⟩ := run_registerStep (start pool) ⟨pool.recoveredHead, []⟩ ops
  have hstep (st : World S E × Register S E) (op : Op S E)
      (hdone' : (registerStep st op).1.Returned) (h : Settled st.1 st.2) :
      Settled (registerStep st op).2.1 (registerStep st op).2.2 :=
    settled_step hS hP hE h op hdone'
  have hstart : Settled (E := E) (start pool) ⟨pool.recoveredHead, []⟩ :=
    ⟨filed_start pool, fun _ _ hdb => (by cases hdb), fun _ => rfl,
      fun _ _ hmem => (by cases hmem)⟩
  rw [← hanswers] at hdone
  rw [← hworld]
  exact @run_invariant_of_outputs _ _ _ registerStep (fun st => Settled st.1 st.2)
    Answer.Returned hstep (start pool, ⟨pool.recoveredHead, []⟩) ops hdone hstart

/-- What a reopen of a database must find: it stands at the manifest, its kernel is connected
to the file that the manifest's pages make up, and if the manifest is a snapshot, to what the
snapshot held. -/
structure ReopensAt (pool : Pool S) (n : String) (m : S.ManifestId)
    (taken : List (S.ManifestId × E.Content)) : Prop where
  opens_at : ∀ root, S.emptyRoot pool.pageSize = .ok root →
    (openStore (E := E) .none pool n "open the durable store" "replay the log").1 = .ok m
  opened : ∀ env opts db pool', Flock.openWith env pool n opts = (.ok db, pool') →
    db.head = m ∧ db.store.Hydrates pool' n db.kernel ∧
      ∀ content, (m, content) ∈ taken → E.content db.kernel.conn = content

/-- A database reopens at the head that its log records. -/
theorem reopensAt_recoveredHead (hS : S.Laws) {pool : Pool S} (hsize : 0 < pool.pageSize)
    (n : String) {taken : List (S.ManifestId × E.Content)}
    (htaken : ∀ m content, (m, content) ∈ taken → ∃ file, Captures pool m file content) :
    ReopensAt pool n (pool.recoveredHead n) taken where
  opens_at := fun root hroot => openStore_none_eq hS.toRecovers ⟨root, hroot⟩ _ _ _
  opened := by
    intro env opts db pool' hopened
    obtain ⟨hstore, hbeside, -, hkernel⟩ := openWith_recoveredHead hS.toRecovers hopened
    rw [Db.head, hstore]
    refine ⟨rfl, Store.hydrates_of_openKernel hkernel, fun content hmem => ?_⟩
    obtain ⟨file, hcaptures⟩ := htaken _ _ hmem
    have hsize' : 0 < pool'.pageSize := hbeside.pageSize_eq ▸ hsize
    exact (hcaptures.beside hS.toContentAddressed hbeside).content_of_openKernel hsize' hkernel

/-- **Durability.** After any run of operations that returned, cut off by a crash inside any
further operation, every database of the pool reopens at the manifest that it recorded last,
or at the one that the operation in flight records for it, and has exactly that state. -/
theorem durability (hS : S.Laws) (hP : S.Positions) (hE : E.Laws) {pool : Pool S}
    (hsize : 0 < pool.pageSize) (ops : List (Op S E))
    (hdone : ∀ answer ∈ (run step (start pool) ops).1, answer.Returned) (inFlight : Op S E)
    (n : String) :
    let w := (run step (start pool) ops).2
    let register := registerOf pool ops
    (w.pool.dbs n).isSome → ∃ m, (m = register.last n ∨ m = (w.enter inFlight register).last n) ∧
      ReopensAt (w.step inFlight).2.pool n m (w.enter inFlight register).taken := by
  intro w register hexists
  have hsettled : Settled w register := settled_run hS hP hE pool ops hdone
  have hsize' : 0 < (w.step inFlight).2.pool.pageSize := by
    rw [(onward_step hS w inFlight).pageSize_eq, (onward_run hS (start pool) ops).pageSize_eq]
    exact hsize
  exact ⟨(w.step inFlight).2.pool.recoveredHead n,
    recoveredHead_step hS hE hsettled inFlight hexists,
    reopensAt_recoveredHead hS hsize' n fun m content hmem =>
      captures_enter hS hE hsettled inFlight hmem⟩

/-- A fork that is cut short while a snapshot of it is in flight reopens where it was forked,
or at the snapshot. -/
theorem durability_experiment :
    let w := (run step (start emptyPool) salesAndFork).2
    let register := registerOf (E := memoryEngine) emptyPool salesAndFork
    ∃ m, (m = register.last "experiment" ∨
        m = (w.enter (.snapshot .none "experiment") register).last "experiment") ∧
      ReopensAt (w.step (.snapshot .none "experiment")).2.pool "experiment" m
        (w.enter (.snapshot .none "experiment") register).taken :=
  durability (Memory.laws []) (Memory.positions []) memoryEngine_laws
    (by decide : 0 < emptyPool.pageSize) salesAndFork (by decide) (.snapshot .none "experiment")
    "experiment" (by decide)

end World

end FlockDb
