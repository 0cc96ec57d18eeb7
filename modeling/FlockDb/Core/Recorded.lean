import FlockDb.Core.Restore
import FlockDb.Core.Standing

/-!
# What a log comes to record

A marker adds the head that it names to what a log records, and nothing else. A restore and the
end of a fork write one marker each, so they leave a log that records what it did before and at
most the manifest that they were given.
-/

namespace FlockDb

variable {S : Substrate} {E : Engine}

/-- What the code relies on of a marker: a log that has one more records at most its head more. -/
def Substrate.Marks (S : Substrate) (records : S.Wal → S.ManifestId → Prop) : Prop :=
  ∀ {cas wal head m}, records (S.checkpoint cas wal head) m → records wal m ∨ m = head

namespace Db

/-- The log after a rewind: as it was, or with a marker at the manifest. -/
theorem wal_rewindTo (env : Env S E) {db : Db S E} {pool : Pool S}
    (hexists : (pool.dbs db.name).isSome) (m : S.ManifestId) :
    (db.rewindTo env pool m).2.2.wal db.name = pool.wal db.name ∨
      (db.rewindTo env pool m).2.2.wal db.name = S.checkpoint pool.cas (pool.wal db.name) m := by
  cases hstore : db.store with
  | «local» head =>
    have hcas : (pool.durable db.name head).pager.cas = pool.cas := rfl
    simp only [rewindTo, hstore, Pager.rewind, hcas]
    cases S.manifest pool.cas m with
    | error e => exact .inl rfl
    | ok edges =>
      simp only
      cases env.store.guard .rewind (S.rewind pool.cas m) with
      | error e => exact .inl rfl
      | ok _ =>
        simp only [DurableStore.checkpoint]
        cases env.store .checkpoint with
        | some e =>
          left
          simp only [Pool.wal_keep hexists]
          rfl
        | none =>
          right
          simp only [Pool.wal_keep hexists]
          rfl
  | tiered pager =>
    left
    simp only [rewindTo, hstore]
    cases S.manifest pager.cas m with
    | error e => rfl
    | ok edges =>
      simp only
      rcases pager.rewind env.store m with ⟨e | ⟨⟩, pager'⟩ <;> rfl

/-- A restore leaves the pool where its rewind did. -/
theorem restore_pool_eq (env : Env S E) (db : Db S E) (pool : Pool S) (m : S.ManifestId) :
    (db.restore env pool m).2.2 = (db.rewindTo env pool m).2.2 := by
  rw [restore]
  rcases db.rewindTo env pool m with ⟨e | ⟨⟩, db', pool'⟩
  · rfl
  · simp only
    cases db'.store.openKernel env pool' db'.name db'.opts <;> rfl

/-- A restore that goes through leaves a log that records the manifest as its head. -/
theorem recoveredHead_of_restore (hS : S.Recovers) {env : Env S E} {db : Db S E} {pool : Pool S}
    (hlocal : db.Local) (hexists : (pool.dbs db.name).isSome) {m : S.ManifestId}
    (h : (db.restore env pool m).1 = .ok ()) :
    (db.restore env pool m).2.2.recoveredHead db.name = m := by
  rw [restore_pool_eq]
  rw [restore] at h
  rcases rewindTo_cases hS env (fun _ => hexists) m with
    ⟨-, e, hrewind⟩ | ⟨-, pool', -, -, ⟨-, -, e, hrewind⟩ | ⟨-, hhead, hrewind⟩⟩
  · rw [hrewind] at h
    cases h
  · rw [hrewind] at h
    cases h
  · rw [hrewind]
    exact hhead hlocal

/-- The log after a fork was positioned: as it was, or with a marker at the parent's head. -/
theorem wal_positionFork (env : Env S E) {pool : Pool S} {name : String}
    (hexists : (pool.dbs name).isSome) (root head : S.ManifestId) :
    (positionFork env pool name root head).2.wal name = pool.wal name ∨
      (positionFork env pool name root head).2.wal name =
        S.checkpoint pool.cas (pool.wal name) head := by
  simp only [positionFork, Pager.setHeadTo]
  cases env.store.guard .setHeadTo (S.setHeadTo (pool.durable name root).pager.cas head) with
  | error e => exact .inl rfl
  | ok _ =>
    simp only [DurableStore.checkpoint]
    cases env.store .checkpoint with
    | some e =>
      left
      simp only [Pool.wal_keep hexists]
      rfl
    | none =>
      right
      simp only [Pool.wal_keep hexists]
      rfl

end Db

namespace Pool

variable {records : S.Wal → S.ManifestId → Prop}

namespace OpensRecorded

/-- Work beside a database leaves what its log records. -/
theorem beside (hS : S.ContentAddressed) {pool pool' : Pool S} {name other : String}
    (h : pool.OpensRecorded E records name) (hbeside : pool.Beside other pool')
    (hother : name ≠ other) : pool'.OpensRecorded E records name := by
  have hwal : pool'.wal name = pool.wal name := by
    rw [wal, hbeside.dbs_eq name hother]
    rfl
  exact h.grows hS hbeside.grows hbeside.pageSize_eq fun m hm => .inl (hwal ▸ hm)

/-- A restore records at most the manifest that it was given. -/
theorem restore (hS : S.Laws) (hmarks : S.Marks records) {pool : Pool S} {db : Db S E}
    (h : pool.OpensRecorded E records db.name) (hexists : (pool.dbs db.name).isSome)
    {m : S.ManifestId} {conn : E.Connection} (hopens : HeadOpens pool.cas pool.pageSize m conn)
    (env : Env S E) : (db.restore env pool m).2.2.OpensRecorded E records db.name := by
  obtain ⟨hbeside, -⟩ := Db.beside_restore env db pool m
  refine h.grows hS.toContentAddressed hbeside.grows hbeside.pageSize_eq fun k hk => ?_
  rw [Db.restore_pool_eq] at hk
  rcases Db.wal_rewindTo env hexists m with hwal | hwal
  all_goals rw [hwal] at hk
  · exact .inl hk
  · rcases hmarks hk with hold | rfl
    · exact .inl hold
    · exact .inr ⟨conn, hbeside.pageSize_eq.symm ▸
        hopens.grows hS.toContentAddressed hbeside.grows⟩

/-- The end of a fork records at most the head of its parent. -/
theorem forkFrom (hS : S.Laws) (hrec : S.Records records) (hmarks : S.Marks records)
    {pool : Pool S} {name : String} (h : pool.OpensRecorded E records name) {m : S.ManifestId}
    {conn : E.Connection} (hopens : HeadOpens pool.cas pool.pageSize m conn) (env : Env S E)
    (db : Db S E) : (Db.forkFrom env db pool name m).2.OpensRecorded E records name := by
  obtain ⟨hbeside, -⟩ := Db.beside_forkFrom hS.toRecovers env db pool name m
  have hopens' : HeadOpens (Db.forkFrom env db pool name m).2.cas
      (Db.forkFrom env db pool name m).2.pageSize m conn :=
    hbeside.pageSize_eq.symm ▸ hopens.grows hS.toContentAddressed hbeside.grows
  refine h.grows hS.toContentAddressed hbeside.grows hbeside.pageSize_eq fun k hk => ?_
  suffices hrecords : records (pool.wal name) k ∨ k = m by
    rcases hrecords with hold | rfl
    · exact .inl hold
    · exact .inr ⟨conn, hopens'⟩
  obtain ⟨-, hsome⟩ := beside_openStore hS.toRecovers env pool name
    "open the fork's durable store" "replay the fork's log"
  have hkept : records ((openStore env pool name "open the fork's durable store"
      "replay the fork's log").2.wal name) = records (pool.wal name) :=
    openStore_keeps (hrec.recover pool.pageSize) env name _ _
  rw [Db.forkFrom] at hk
  rcases hopened : openStore env pool name "open the fork's durable store"
      "replay the fork's log" with ⟨e | root, pool₁⟩
  all_goals
    rw [hopened] at hkept hsome
    simp only [hopened] at hk
  · exact .inl (hkept ▸ hk)
  have hposition := Db.wal_positionFork env (hsome root rfl) root m
  have hleft : ∀ pool₂, (Db.positionFork env pool₁ name root m).2 = pool₂ →
      records (pool₂.wal name) k → records (pool.wal name) k ∨ k = m := by
    rintro pool₂ rfl hk'
    rcases hposition with hwal | hwal
    all_goals rw [hwal] at hk'
    · exact .inl (hkept ▸ hk')
    · exact (hmarks hk').imp_left fun hold => hkept ▸ hold
  rcases hpositioned : Db.positionFork env pool₁ name root m with ⟨e | ⟨⟩, pool₂⟩
  all_goals
    rw [hpositioned] at hleft
    simp only [hpositioned] at hk
  · exact hleft pool₂ rfl hk
  · cases hkernel : Store.openKernel env pool₂ name db.opts (.local m) with
    | error source =>
      simp only [hkernel] at hk
      exact hleft pool₂ rfl hk
    | ok kernel =>
      simp only [hkernel] at hk
      exact hleft pool₂ rfl hk

end OpensRecorded

/-- A handle on a database is where its log is. -/
structure Holds (pool : Pool S) (db : Db S E) : Prop where
  isSome : (pool.dbs db.name).isSome
  store_eq : db.store = .local (pool.recoveredHead db.name)

/-- A database that opens stands with the content of its handle. -/
theorem holds_of_openWith (hS : S.Laws) {env : Env S E} {pool pool' : Pool S} {name : String}
    {db : Db S E} (h : Flock.openWith env pool name ⟨none, none⟩ = (.ok db, pool')) :
    db.name = name ∧ pool'.Holds db ∧ pool'.Stands (E := E) name (E.content db.kernel.conn) := by
  obtain ⟨hstore, hbeside, hrecovered, hkernel⟩ := openWith_recoveredHead hS.toRecovers h
  obtain ⟨-, hopen⟩ := Db.beside_openWith hS.toRecovers env pool name ⟨none, none⟩
  rw [h] at hopen
  obtain ⟨rfl, -, hsome⟩ := hopen db rfl
  have hopens : HeadOpens pool'.cas pool'.pageSize (pool.recoveredHead db.name) db.kernel.conn :=
    headOpens_of_openKernel hkernel
  exact ⟨rfl, ⟨hsome, hstore.trans (congrArg Store.local hrecovered.symm)⟩, db.kernel.conn,
    hrecovered.symm ▸ hopens, rfl⟩

/-- A handle is where its log is when another database was worked on. -/
theorem Holds.beside {pool pool' : Pool S} {db : Db S E} (h : pool.Holds db) {other : String}
    (hbeside : pool.Beside other pool') (hother : db.name ≠ other) : pool'.Holds db := by
  refine ⟨hbeside.isSome_of h.isSome, ?_⟩
  rw [hbeside.recoveredHead_eq hother]
  exact h.store_eq

/-- A snapshot leaves the handle where its log is: at the snapshot, with the content of the handle,
if it is taken, and where it was if it is not. -/
theorem Holds.snapshot (hS : S.Laws) (hE : E.Laws) (hR : E.Reopens) {pool : Pool S}
    (hsize : 0 < pool.pageSize) {db : Db S E} (h : pool.Holds db) (env : Env S E) :
    (db.snapshot env pool).2.2.Holds (db.snapshot env pool).2.1 ∧
      (∀ m, (db.snapshot env pool).1 = .ok m →
        (db.snapshot env pool).2.2.Stands (E := E) db.name (E.content db.kernel.conn) ∧
          (db.snapshot env pool).2.2.recoveredHead db.name = m) ∧
      ∀ e, (db.snapshot env pool).1 = .error e →
        (db.snapshot env pool).2.2.recoveredHead db.name = pool.recoveredHead db.name := by
  obtain ⟨hstore, htaken, hrefused⟩ := Db.snapshot_recoveredHead hS hE env h.isSome h.store_eq
  obtain ⟨hbeside, hname, -⟩ := Db.beside_snapshot hS env db pool
  refine ⟨⟨?_, ?_⟩, fun m hok => ⟨?_, htaken m hok⟩, hrefused⟩
  · rw [hname]
    exact hbeside.isSome h.isSome
  · rw [hname]
    exact hstore
  · have hhead := htaken m hok
    rcases hsnapshot : db.snapshot env pool with ⟨result, db', pool'⟩
    rw [hsnapshot] at hok hhead hbeside
    obtain rfl : result = .ok m := hok
    have hsize' : 0 < pool'.pageSize := hbeside.pageSize_eq ▸ hsize
    obtain ⟨conn, hopens, hcontent⟩ :=
      headOpens_of_snapshot hS hE hR hsize' ⟨_, h.store_eq⟩ hsnapshot
    exact ⟨conn, hhead.symm ▸ hopens, hcontent⟩

/-- **What a snapshot leaves standing**: the content of the handle if it is taken, and what stood
before if it is not. Either way every head that the log records opens. -/
theorem stands_snapshot (hS : S.Laws) (hE : E.Laws) (hR : E.Reopens)
    {records : S.Wal → S.ManifestId → Prop} (hrec : S.Records records) {pool : Pool S}
    (hsize : 0 < pool.pageSize) {db : Db S E} (hholds : pool.Holds db) {content : E.Content}
    (hstands : pool.Stands (E := E) db.name content)
    (hrecorded : pool.OpensRecorded E records db.name) (env : Env S E) :
    (db.snapshot env pool).2.2.OpensRecorded E records db.name ∧
      (∀ m, (db.snapshot env pool).1 = .ok m →
        (db.snapshot env pool).2.2.Stands (E := E) db.name (E.content db.kernel.conn) ∧
          (db.snapshot env pool).2.2.recoveredHead db.name = m) ∧
      ∀ e, (db.snapshot env pool).1 = .error e →
        (db.snapshot env pool).2.2.Stands (E := E) db.name content := by
  obtain ⟨-, hnew, hrefused⟩ := hholds.snapshot hS hE hR hsize env
  obtain ⟨hbeside, -⟩ := Db.beside_snapshot hS env db pool
  have hold (e : FlockError S E) (herror : (db.snapshot env pool).1 = .error e) :
      (db.snapshot env pool).2.2.Stands (E := E) db.name content :=
    hstands.grows hS.toContentAddressed hbeside.grows hbeside.pageSize_eq (hrefused e herror)
  refine ⟨?_, hnew, hold⟩
  have hrecorded' {content' : E.Content}
      (h : (db.snapshot env pool).2.2.Stands (E := E) db.name content') :
      (db.snapshot env pool).2.2.OpensRecorded E records db.name :=
    hrecorded.snapshot hS hE hrec hholds.isSome hholds.store_eq env h
  cases hresult : (db.snapshot env pool).1 with
  | error e => exact hrecorded' (hold e hresult)
  | ok m => exact hrecorded' (hnew m hresult).1

end Pool

end FlockDb
