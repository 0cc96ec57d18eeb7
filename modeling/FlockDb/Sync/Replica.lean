import FlockDb.Sync.Source

/-!
# The follower side of shipping

A `Replica` applies shipments to its own durable store under a clock it sets
itself, so that each commit reproduces the primary's manifest. Every substrate
call of `apply` is guarded by a fault plan.
-/

namespace FlockDb

/-- `ReplayClock`: the timestamp the next commit bakes into its manifest. -/
structure ReplayClock where
  nowMs : ℕ

/-- `ReplayClock::new`. -/
def ReplayClock.new : ReplayClock := ⟨0⟩

/-- `ReplayClock::set`. -/
def ReplayClock.set (_ : ReplayClock) (nowMs : ℕ) : ReplayClock := ⟨nowMs⟩

/-- `Applied`: what applying a shipment did. -/
inductive Applied where
  | advanced
  | alreadyPresent
  deriving DecidableEq

/-- `Replica`: a follower's store, its clock, and how far it has applied in this
process. -/
structure Replica (S : Substrate) where
  store : DurableStore S
  clock : ReplayClock
  appliedLsn : Option Lsn

namespace Replica

variable {S : Substrate}

/-- `Replica::new`. -/
def new (store : DurableStore S) (clock : ReplayClock) : Replica S := ⟨store, clock, none⟩

/-- `Replica::open` on the directory of a store: a new clock, and recovery. -/
def reopen (r : Replica S) : Replica S := new r.store.recover ReplayClock.new

/-- `Replica::head`. -/
def head (r : Replica S) : S.ManifestId := r.store.head

/-- `Replica::read`: one page as of a pinned manifest. -/
def read (r : Replica S) (m : S.ManifestId) (pageNo : PageNo) : Except (SyncError S) Bytes :=
  match S.read r.store.pager.cas m pageNo with
  | .ok bytes => .ok bytes
  | .error source => .error (.wal "read a page from the replica" source)

/-- The staging loop of `Replica::apply`. -/
def stageWrites (faults : Faults S) (s : Shipment S) :
    List (PageWrite S) → S.Txn → DurableStore S → Except (SyncError S) S.Txn × DurableStore S
  | [], txn, store => (.ok txn, store)
  | w :: writes, txn, store =>
    match w.page with
    | some id =>
      match s.bytesFor id with
      | none => (.error (.missingPage s.commitLsn w.pageNo (S.pageHex id)), store)
      | some bytes =>
        match store.write faults txn w.pageNo bytes with
        | (.error e, store) => (.error (.wal "stage a replicated page" e), store)
        | (.ok (staged, txn), store) =>
          if staged ≠ id then
            (.error (.pageHashMismatch w.pageNo (S.pageHex id) (S.pageHex staged)), store)
          else stageWrites faults s writes txn store
    | none =>
      match Pager.remove faults txn w.pageNo with
      | .error e => (.error (.wal "stage a replicated removal" e), store)
      | .ok txn => stageWrites faults s writes txn store

/-- `Replica::apply`: advance to the primary's next state, if the shipment
builds on this one and replays to the manifest it claims. -/
def apply (faults : Faults S) (r : Replica S) (s : Shipment S) :
    Except (SyncError S) Applied × Replica S :=
  let head := r.store.head
  if head = s.manifest then
    let appliedLsn := match r.appliedLsn with
      | some prev => max prev s.commitLsn
      | none => s.commitLsn
    (.ok .alreadyPresent, { r with appliedLsn := some appliedLsn })
  else if head ≠ s.base then
    (.error (.outOfOrder s.commitLsn (S.manifestHex s.base) (S.manifestHex head)), r)
  else
    match r.store.pager.begin faults with
    | .error e => (.error (.wal "begin the replica transaction" e), r)
    | .ok txn =>
      match stageWrites faults s s.writes txn r.store with
      | (.error e, store) => (.error e, { r with store })
      | (.ok txn, store) =>
        let clock := r.clock.set s.createdAtMs
        match store.commit faults txn clock.nowMs with
        | (.error e, store) =>
          (.error (.wal "commit a replicated transaction" e), { r with store, clock })
        | (.ok got, store) =>
          -- The commit is durable by now, whatever the comparison says.
          if got ≠ s.manifest then
            (.error (.diverged s.commitLsn (S.manifestHex s.manifest) (S.manifestHex got)),
              { r with store, clock })
          else (.ok .advanced, { store, clock, appliedLsn := some s.commitLsn })

/-- The loop of `Replica::catch_up`, counting the commits it advanced through. -/
def applyAll (faults : Lsn → Faults S) :
    Replica S → ℕ → List (Shipment S) → Except (SyncError S) ℕ × Replica S
  | r, advanced, [] => (.ok advanced, r)
  | r, advanced, s :: shipments =>
    match r.apply (faults s.commitLsn) s with
    | (.error e, r) => (.error e, r)
    | (.ok applied, r) =>
      applyAll faults r (if applied = .advanced then advanced + 1 else advanced) shipments

/-- `Replica::catch_up`: apply every commit the source has that this replica
has not. -/
def catchUp (faults : Lsn → Faults S) (r : Replica S) (src : WalSource S) :
    Except (SyncError S) ℕ × Replica S :=
  match src.resumeAfter r.store.head with
  | .error e => (.error e, r)
  | .ok start =>
    match src.shipmentsFrom start with
    | .error e => (.error e, r)
    | .ok shipments => applyAll faults r 0 shipments

/-- The loop of `Replica::restore_to`, which stops before the first commit past
the target. -/
def applyUpTo (faults : Lsn → Faults S) (target : Lsn) :
    Replica S → List (Shipment S) → Except (SyncError S) Unit × Replica S
  | r, [] => (.ok (), r)
  | r, s :: shipments =>
    if target < s.commitLsn then (.ok (), r)
    else
      match r.apply (faults s.commitLsn) s with
      | (.error e, r) => (.error e, r)
      | (.ok _, r) => applyUpTo faults target r shipments

/-- `Replica::restore_to`: replay up to a target LSN and stop. -/
def restoreTo (faults : Lsn → Faults S) (r : Replica S) (src : WalSource S) (target : Lsn) :
    Except (SyncError S) Unit × Replica S :=
  match src.resumeAfter r.store.head with
  | .error e => (.error e, r)
  | .ok start =>
    match src.shipmentsFrom start with
    | .error e => (.error e, r)
    | .ok shipments => applyUpTo faults target r shipments

/-- A replica reads what its store reads. -/
theorem read_ok_iff {r : Replica S} {m : S.ManifestId} {p : PageNo} {bytes : Bytes} :
    r.read m p = .ok bytes ↔ S.read r.store.pager.cas m p = .ok bytes := by
  rw [read]
  cases S.read r.store.pager.cas m p <;> simp

/-- A replica that has just been set up at a head: it recovers that head, has its
pages, and has applied nothing. -/
structure StartsAt (r : Replica S) (start : S.ManifestId) : Prop where
  head : r.head = start
  recovered : r.store.recoveredHead = start
  holds : S.Holds r.store.pager.cas start
  applied : r.appliedLsn = none

end Replica

end FlockDb
