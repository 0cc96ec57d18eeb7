import FlockDb.Core.Snapshot

/-!
# What a reopen finds

Opening a database replays its log. Nothing on the way there moves the head that the log
records: not the links, not the opening of the store and not the replay, whether they go
through or are refused. A fork's log is a new one, until the fork records its head in it.
-/

namespace FlockDb

open Paging

variable {S : Substrate} {E : Engine}

namespace Pool

/-- The head that the log of a database records. -/
def recoveredHead (pool : Pool S) (name : String) : S.ManifestId :=
  S.recovered pool.pageSize (pool.wal name)

/-- Changing a database's directory and not its log leaves its log. -/
theorem wal_updateDir (pool : Pool S) (name : String) {f : DbDir S → DbDir S}
    (hf : ∀ dir, (f dir).wal.getD S.freshWal = dir.wal.getD S.freshWal) :
    (pool.updateDir name f).wal name = pool.wal name := by
  rw [wal, wal, updateDir_dbs]
  cases pool.dbs name with
  | none => rfl
  | some dir => exact hf dir

/-- Creating a database's directory leaves its log. -/
theorem wal_createDb (pool : Pool S) (name : String) :
    (pool.createDb name).wal name = pool.wal name := by
  rw [wal, wal, createDb_dbs]
  cases pool.dbs name with
  | none => rfl
  | some dir => rfl

/-- A database that exists keeps the log its store leaves. -/
theorem wal_keep {pool : Pool S} {name : String} (hname : (pool.dbs name).isSome)
    (store : DurableStore S) : (pool.keep name store).wal name = store.wal := by
  obtain ⟨dir, hdir⟩ := Option.isSome_iff_exists.mp hname
  rw [wal, keep, updateDir_dbs]
  simp [hdir]

/-- Linking a database's directory leaves its log and the shared store. -/
theorem linkSubs_kept (faults : PoolFaults) (name : String) (subs : List CasSub)
    (pool : Pool S) :
    (linkSubs (E := E) faults name subs pool).2.wal name = pool.wal name ∧
      (linkSubs (E := E) faults name subs pool).2.cas = pool.cas := by
  induction subs generalizing pool with
  | nil => exact ⟨rfl, rfl⟩
  | cons sub subs ih =>
    rw [linkSubs]
    cases faults (.inspect sub) with
    | some source => exact ⟨rfl, rfl⟩
    | none =>
      simp only
      by_cases hlinked : ((pool.dbs name).map fun dir => dir.linked sub) = some true
      · rw [if_pos hlinked]
        exact ih pool
      · rw [if_neg hlinked]
        cases faults (.link sub) with
        | some source => exact ⟨rfl, rfl⟩
        | none =>
          obtain ⟨hwal, hcas⟩ := ih (pool.updateDir name fun dir =>
            { dir with linked := Function.update dir.linked sub true })
          exact ⟨hwal.trans (wal_updateDir pool name fun _ => rfl), hcas⟩

/-- Linking a database to the shared store leaves its log and the shared store. -/
theorem linkDbToSharedCas_kept (faults : PoolFaults) (pool : Pool S) (name : String) :
    (pool.linkDbToSharedCas (E := E) faults name).2.wal name = pool.wal name ∧
      (pool.linkDbToSharedCas (E := E) faults name).2.cas = pool.cas := by
  rw [linkDbToSharedCas]
  cases createShared (S := S) (E := E) faults pool [.pages, .manifests] with
  | error e => exact ⟨rfl, rfl⟩
  | ok _ =>
    simp only
    cases faults .createDb with
    | some source => exact ⟨rfl, rfl⟩
    | none =>
      obtain ⟨hwal, hcas⟩ := linkSubs_kept (E := E) faults name [.pages, .manifests]
        (pool.createDb name)
      exact ⟨hwal.trans (wal_createDb pool name), hcas⟩

/-- Opening a database's durable store leaves its log and the shared store. -/
theorem openDurable_kept (faults : Faults S) (pool : Pool S) (name : String) :
    (pool.openDurable faults name).2.wal name = pool.wal name ∧
      (pool.openDurable faults name).2.cas = pool.cas := by
  rw [openDurable]
  cases faults .open with
  | some e => exact ⟨rfl, rfl⟩
  | none =>
    simp only
    cases S.emptyRoot pool.pageSize with
    | error e => exact ⟨rfl, rfl⟩
    | ok root => exact ⟨wal_updateDir pool name fun _ => rfl, rfl⟩

/-- Replaying a database's log stands at the head the log records, and leaves it. -/
theorem recover_recoveredHead (hS : S.Recovers) (faults : Faults S) {pool : Pool S}
    {name : String} (hname : (pool.dbs name).isSome) (head : S.ManifestId) :
    (pool.recover faults name head).2.recoveredHead name = pool.recoveredHead name ∧
      ∀ head', (pool.recover faults name head).1 = .ok head' → head' = pool.recoveredHead name := by
  rw [recover]
  cases faults .recover with
  | some e => exact ⟨rfl, fun head' hok => by cases hok⟩
  | none =>
    obtain ⟨hhead, hrecovered, -, -⟩ := DurableStore.recover_spec hS (pool.durable name head)
    refine ⟨?_, fun head' hok => ?_⟩
    · rw [recoveredHead, wal_keep hname]
      exact hrecovered
    · rw [← Except.ok.inj hok]
      exact hhead

end Pool

/-- What opening the store of a database can do: stop at the links, at the opening or at
the replay, or go through. -/
theorem openStore_cases (env : Env S E) (pool : Pool S) (name openOp replayOp : String) :
    (∃ e, (pool.linkDbToSharedCas (E := E) env.pool name).1 = .error e ∧
      openStore env pool name openOp replayOp =
        (.error e, (pool.linkDbToSharedCas (E := E) env.pool name).2)) ∨
    ∃ pool₁, pool.linkDbToSharedCas (E := E) env.pool name = (.ok (), pool₁) ∧
      ((∃ e, (pool₁.openDurable env.store name).1 = .error e ∧
        openStore env pool name openOp replayOp =
          (.error (.wal openOp e), (pool₁.openDurable env.store name).2)) ∨
      ∃ root pool₂, pool₁.openDurable env.store name = (.ok root, pool₂) ∧
        ((∃ e, (pool₂.recover env.store name root).1 = .error e ∧
          openStore env pool name openOp replayOp =
            (.error (.wal replayOp e), (pool₂.recover env.store name root).2)) ∨
        ∃ head, (pool₂.recover env.store name root).1 = .ok head ∧
          openStore env pool name openOp replayOp =
            (.ok head, (pool₂.recover env.store name root).2))) := by
  rw [openStore]
  rcases pool.linkDbToSharedCas (E := E) env.pool name with ⟨e | ⟨⟩, pool₁⟩
  · exact .inl ⟨e, rfl, rfl⟩
  · refine .inr ⟨pool₁, rfl, ?_⟩
    simp only
    rcases pool₁.openDurable env.store name with ⟨e | root, pool₂⟩
    · exact .inl ⟨e, rfl, rfl⟩
    · refine .inr ⟨root, pool₂, rfl, ?_⟩
      simp only
      rcases pool₂.recover env.store name root with ⟨e | head, pool₃⟩
      · exact .inl ⟨e, rfl, rfl⟩
      · exact .inr ⟨head, rfl, rfl⟩

/-- Whatever a replay leaves of a log, opening the store of a database leaves of its log. -/
theorem openStore_keeps {α : Type} {f : S.Wal → α} {pool : Pool S}
    (hf : ∀ cas wal, f (S.recover pool.pageSize cas wal).2.2 = f wal) (env : Env S E)
    (name openOp replayOp : String) :
    f ((openStore env pool name openOp replayOp).2.wal name) = f (pool.wal name) := by
  obtain ⟨hlink, hsome⟩ := Pool.beside_linkDbToSharedCas (E := E) env.pool pool name
  obtain ⟨hlinkWal, -⟩ := Pool.linkDbToSharedCas_kept (E := E) env.pool pool name
  rcases openStore_cases env pool name openOp replayOp with
    ⟨e, -, hopened⟩ | ⟨pool₁, hlinked, h⟩
  · rw [hopened]
    exact congrArg f hlinkWal
  · rw [hlinked] at hlink hlinkWal hsome
    have hopen := Pool.beside_openDurable env.store pool₁ name
    obtain ⟨hopenWal, -⟩ := Pool.openDurable_kept env.store pool₁ name
    rcases h with ⟨e, -, hopened⟩ | ⟨root, pool₂, hdurable, h⟩
    · rw [hopened]
      exact congrArg f (hopenWal.trans hlinkWal)
    · rw [hdurable] at hopen hopenWal
      have hexists : (pool₂.dbs name).isSome := hopen.isSome (hsome rfl)
      have hsize : pool₂.pageSize = pool.pageSize := hopen.pageSize_eq.trans hlink.pageSize_eq
      have hkept : f ((pool₂.recover env.store name root).2.wal name) = f (pool.wal name) := by
        rw [← hlinkWal, ← hopenWal, Pool.recover]
        cases env.store .recover with
        | some e => rfl
        | none =>
          rw [← hsize] at hf
          simp only [Pool.wal_keep hexists]
          exact hf _ _
      rcases h with ⟨e, -, hopened⟩ | ⟨head, -, hopened⟩
      · rw [hopened]
        exact hkept
      · rw [hopened]
        exact hkept

/-- Opening the store of a database leaves the head that its log records, and stands there
if it goes through. -/
theorem openStore_recoveredHead (hS : S.Recovers) (env : Env S E) (pool : Pool S)
    (name openOp replayOp : String) :
    (openStore env pool name openOp replayOp).2.recoveredHead name = pool.recoveredHead name ∧
      ∀ head, (openStore env pool name openOp replayOp).1 = .ok head →
        head = pool.recoveredHead name := by
  have hsize := (beside_openStore hS env pool name openOp replayOp).1.pageSize_eq
  have hleft : (openStore env pool name openOp replayOp).2.recoveredHead name =
      pool.recoveredHead name := by
    rw [Pool.recoveredHead, hsize]
    exact openStore_keeps (hS.recovered_recover pool.pageSize) env name openOp replayOp
  refine ⟨hleft, fun head hok => ?_⟩
  rcases openStore_cases env pool name openOp replayOp with
    ⟨e, -, hopened⟩ | ⟨pool₁, hlinked, ⟨e, -, hopened⟩ | ⟨root, pool₂, hdurable, h⟩⟩
  · rw [hopened] at hok
    cases hok
  · rw [hopened] at hok
    cases hok
  · obtain ⟨-, hsome⟩ := Pool.beside_linkDbToSharedCas (E := E) env.pool pool name
    have hopen := Pool.beside_openDurable env.store pool₁ name
    rw [hlinked] at hsome
    rw [hdurable] at hopen
    obtain ⟨hrecovered, hstands⟩ := Pool.recover_recoveredHead hS env.store
      (hopen.isSome (hsome rfl)) root
    rcases h with ⟨e, -, hopened⟩ | ⟨head', hhead', hopened⟩
    · rw [hopened] at hok
      cases hok
    · rw [hopened] at hleft hok
      obtain rfl := Except.ok.inj hok
      exact (hstands head' hhead').trans (hrecovered.symm.trans hleft)

/-- A database that opens stands at the head that its log records, and its kernel opened
there. -/
theorem openWith_recoveredHead (hS : S.Recovers) {env : Env S E} {pool pool' : Pool S}
    {name : String} {opts : KernelOpts} {db : Db S E}
    (h : Flock.openWith env pool name opts = (.ok db, pool')) :
    db.store = .local (pool.recoveredHead name) ∧ pool.Beside name pool' ∧
      pool'.recoveredHead name = pool.recoveredHead name ∧
      Store.openKernel env pool' name opts (.local (pool.recoveredHead name)) = .ok db.kernel := by
  obtain ⟨hrecovered, hstands⟩ := openStore_recoveredHead hS env pool name
    "open the durable store" "replay the log"
  obtain ⟨hbeside, -⟩ := beside_openStore hS env pool name "open the durable store" "replay the log"
  rw [Flock.openWith] at h
  cases hname : validateName (S := S) (E := E) name with
  | error e =>
    rw [hname] at h
    cases h
  | ok _ =>
    simp only [hname] at h
    rcases hopened : openStore env pool name "open the durable store" "replay the log" with
      ⟨e | head, pool₁⟩
    · rw [hopened] at h
      cases h
    · rw [hopened] at hrecovered hstands hbeside
      simp only [hopened] at h
      cases hkernel : Store.openKernel env pool₁ name opts (.local head) with
      | error source =>
        rw [hkernel] at h
        cases h
      | ok kernel =>
        rw [hkernel] at h
        obtain rfl := hstands head rfl
        cases h
        exact ⟨rfl, hbeside, hrecovered, hkernel⟩

/-- Whatever a replay leaves of a log, opening a database leaves of its log. -/
theorem openWith_keeps {α : Type} {f : S.Wal → α} {pool : Pool S}
    (hf : ∀ cas wal, f (S.recover pool.pageSize cas wal).2.2 = f wal) (env : Env S E)
    (name : String) (opts : KernelOpts) :
    f ((Flock.openWith env pool name opts).2.wal name) = f (pool.wal name) := by
  have hkept := openStore_keeps hf env name "open the durable store" "replay the log"
  rw [Flock.openWith]
  cases validateName (S := S) (E := E) name with
  | error e => rfl
  | ok _ =>
    simp only
    rcases hopened : openStore env pool name "open the durable store" "replay the log" with
      ⟨e | head, pool₁⟩
    all_goals rw [hopened] at hkept
    · exact hkept
    · simp only
      cases Store.openKernel env pool₁ name opts (.local head) <;> exact hkept

/-- Opening a database leaves the head that its log records, whether or not it opens. -/
theorem openWith_leaves_recoveredHead (hS : S.Recovers) (env : Env S E) (pool : Pool S)
    (name : String) (opts : KernelOpts) :
    (Flock.openWith env pool name opts).2.recoveredHead name = pool.recoveredHead name := by
  have hsize := (Db.beside_openWith hS env pool name opts).1.pageSize_eq
  rw [Pool.recoveredHead, hsize]
  exact openWith_keeps (hS.recovered_recover pool.pageSize) env name opts

/-- Keeping what a store of a database left neither makes nor drops a directory. -/
theorem Pool.keep_dbs_isSome (pool : Pool S) (name : String) (store : DurableStore S) (n : String) :
    ((pool.keep name store).dbs n).isSome = (pool.dbs n).isSome := by
  by_cases hn : n = name
  · subst hn
    rw [Pool.keep, Pool.updateDir_dbs, Option.isSome_map]
  · exact congrArg Option.isSome (Function.update_of_ne hn _ _)

/-- A snapshot neither makes nor drops a directory. -/
theorem snapshot_dbs_isSome (env : Env S E) (db : Db S E) (pool : Pool S) (n : String) :
    ((db.snapshot env pool).2.2.dbs n).isSome = (pool.dbs n).isSome := by
  rw [Db.snapshot]
  cases db.store with
  | «local» head =>
    simp only
    rcases db.kernel.checkpoint (durableHandle env.store env.nowMs) env.kernel
      (pool.durable db.name head) with ⟨source | m, kernel, store⟩ <;>
      exact pool.keep_dbs_isSome db.name store n
  | tiered pager =>
    simp only
    rcases db.kernel.checkpoint (tieredHandle env.store env.nowMs) env.kernel pager with
      ⟨source | m, kernel, pager'⟩ <;> rfl

/-- A restore neither makes nor drops a directory. -/
theorem restore_dbs_isSome (env : Env S E) (db : Db S E) (pool : Pool S) (m : S.ManifestId)
    (n : String) : ((db.restore env pool m).2.2.dbs n).isSome = (pool.dbs n).isSome := by
  have hrewind : ((db.rewindTo env pool m).2.2.dbs n).isSome = (pool.dbs n).isSome := by
    rw [Db.rewindTo]
    cases db.store with
    | «local» head =>
      simp only
      cases S.manifest (pool.durable db.name head).pager.cas m with
      | error e => rfl
      | ok edges =>
        simp only
        rcases (pool.durable db.name head).pager.rewind env.store m with ⟨e | ⟨⟩, pager⟩
        · rfl
        · simp only
          rcases ({ pool.durable db.name head with pager } : DurableStore S).checkpoint
            env.store with ⟨e | ⟨⟩, store⟩ <;> exact pool.keep_dbs_isSome db.name store n
    | tiered pager =>
      simp only
      cases S.manifest pager.cas m with
      | error e => rfl
      | ok edges =>
        simp only
        rcases pager.rewind env.store m with ⟨e | ⟨⟩, pager'⟩ <;> rfl
  rw [Db.restore]
  rcases hresult : db.rewindTo env pool m with ⟨e | ⟨⟩, db', pool'⟩
  · rw [hresult] at hrewind
    exact hrewind
  · rw [hresult] at hrewind
    simp only
    cases db'.store.openKernel env pool' db'.name db'.opts with
    | error source => exact hrewind
    | ok kernel => exact hrewind

end FlockDb
