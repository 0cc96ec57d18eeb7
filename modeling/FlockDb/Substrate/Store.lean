import FlockDb.Substrate

/-!
# Store handles

A pager is a content-addressed store together with the head it is positioned at;
a durable store adds the write-ahead log that makes the head survive a restart.
These are the handles FlockDB's code passes around. A call that its fault plan
refuses leaves the handle as it was.
-/

namespace FlockDb

variable {S : Substrate}

/-- `substrate_pager::Pager`: a content-addressed store and the current head. -/
structure Pager (S : Substrate) where
  cas : S.Cas
  head : S.ManifestId
  pageSize : ℕ

namespace Pager

/-- `Pager::begin`. -/
def begin (faults : Faults S) (pager : Pager S) : Except S.Error S.Txn :=
  faults.guard .begin (.ok (S.begin pager.head))

/-- `Pager::write`: stage a page and return its content hash. -/
def write (faults : Faults S) (pager : Pager S) (txn : S.Txn) (pageNo : PageNo) (bytes : Bytes) :
    Except S.Error (S.PageId × S.Txn) × Pager S :=
  match faults (.write pageNo) with
  | some e => (.error e, pager)
  | none =>
    let (id, txn, cas) := S.write pager.cas txn pageNo bytes
    (.ok (id, txn), { pager with cas })

/-- `Pager::remove`: stage a removal. -/
def remove (faults : Faults S) (txn : S.Txn) (pageNo : PageNo) : Except S.Error S.Txn :=
  faults.guard (.remove pageNo) (.ok (S.remove txn pageNo))

/-- `Pager::commit`, which installs a manifest and writes no log record. -/
def commit (faults : Faults S) (pager : Pager S) (txn : S.Txn) (nowMs : ℕ) :
    Except S.Error S.ManifestId × Pager S :=
  match faults .commit with
  | some e => (.error e, pager)
  | none =>
    let (id, cas) := S.install pager.cas pager.head txn nowMs
    (.ok id, { pager with cas, head := id })

/-- `Pager::set_head_to`. -/
def setHeadTo (faults : Faults S) (pager : Pager S) (m : S.ManifestId) :
    Except S.Error Unit × Pager S :=
  match faults.guard .setHeadTo (S.setHeadTo pager.cas m) with
  | .error e => (.error e, pager)
  | .ok () => (.ok (), { pager with head := m })

/-- `Pager::rewind`. -/
def rewind (faults : Faults S) (pager : Pager S) (m : S.ManifestId) :
    Except S.Error Unit × Pager S :=
  match faults.guard .rewind (S.rewind pager.cas m) with
  | .error e => (.error e, pager)
  | .ok () => (.ok (), { pager with head := m })

end Pager

/-- `substrate_wal::DurableStore`: a pager and the log that records its head. -/
structure DurableStore (S : Substrate) where
  pager : Pager S
  wal : S.Wal

namespace DurableStore

/-- The current head, in memory. -/
def head (store : DurableStore S) : S.ManifestId := store.pager.head

/-- The head a restart would recover. -/
def recoveredHead (store : DurableStore S) : S.ManifestId :=
  S.recovered store.pager.pageSize store.wal

/-- `DurableStore::write`, through the pager. -/
def write (faults : Faults S) (store : DurableStore S) (txn : S.Txn) (pageNo : PageNo)
    (bytes : Bytes) : Except S.Error (S.PageId × S.Txn) × DurableStore S :=
  let (result, pager) := store.pager.write faults txn pageNo bytes
  (result, { store with pager })

/-- `DurableStore::commit`: the commit record is fsynced, then the manifest is
installed. A commit that fails did not happen. -/
def commit (faults : Faults S) (store : DurableStore S) (txn : S.Txn) (nowMs : ℕ) :
    Except S.Error S.ManifestId × DurableStore S :=
  match faults .commit with
  | some e => (.error e, store)
  | none =>
    let (id, cas, wal) := S.commit store.pager.cas store.wal store.pager.head txn nowMs
    (.ok id, { pager := { store.pager with cas, head := id }, wal })

/-- `DurableStore::checkpoint`: record the current head in the log directory. -/
def checkpoint (faults : Faults S) (store : DurableStore S) :
    Except S.Error Unit × DurableStore S :=
  match faults .checkpoint with
  | some e => (.error e, store)
  | none => (.ok (), { store with wal := S.checkpoint store.pager.cas store.wal store.pager.head })

/-- `DurableStore::recover`: replay the log and move to the head it records. -/
def recover (store : DurableStore S) : DurableStore S :=
  let (head, cas, wal) := S.recover store.pager.pageSize store.pager.cas store.wal
  { pager := { store.pager with cas, head }, wal }

/-- Staging a page moves neither head and loses nothing. -/
theorem write_grows (hS : S.Stages) (faults : Faults S) (store : DurableStore S) (txn : S.Txn)
    (pageNo : PageNo) (bytes : Bytes) :
    (store.write faults txn pageNo bytes).2.head = store.head ∧
      (store.write faults txn pageNo bytes).2.wal = store.wal ∧
      (store.write faults txn pageNo bytes).2.pager.pageSize = store.pager.pageSize ∧
      S.Grows store.pager.cas (store.write faults txn pageNo bytes).2.pager.cas := by
  unfold write Pager.write
  cases faults (.write pageNo) with
  | some e => exact ⟨rfl, rfl, rfl, .refl _⟩
  | none => exact ⟨rfl, rfl, rfl, hS.grows_write _ _ _ _⟩

/-- A page that was staged is named by the hash of its bytes. -/
theorem write_ok (hS : S.Stages) {faults : Faults S} {store store' : DurableStore S}
    {txn txn' : S.Txn} {pageNo : PageNo} {bytes : Bytes} {id : S.PageId}
    (h : store.write faults txn pageNo bytes = (.ok (id, txn'), store')) :
    faults (.write pageNo) = none ∧ id = S.pageHash bytes ∧
      S.staged txn' = (S.staged txn).insert pageNo (some (S.pageHash bytes)) ∧
      S.get store'.pager.cas (S.pageHash bytes) = .ok bytes := by
  unfold write Pager.write at h
  cases hfault : faults (.write pageNo) with
  | some e => simp [hfault] at h
  | none =>
    simp only [hfault, Prod.mk.injEq, Except.ok.injEq] at h
    obtain ⟨⟨rfl, rfl⟩, rfl⟩ := h
    exact ⟨rfl, hS.write_id _ _ _ _, hS.staged_write _ _ _ _, hS.get_write _ _ _ _⟩

/-- What a commit that went through leaves: the head its changes derive, with
its page map, and a log that records it unless nothing changed. -/
structure Committed (store : DurableStore S) (changes : Changes S.PageId) (nowMs : ℕ)
    (store' : DurableStore S) : Prop where
  head_eq : store'.head = S.deriveNext store.head changes nowMs
  pageSize_eq : store'.pager.pageSize = store.pager.pageSize
  grows : S.Grows store.pager.cas store'.pager.cas
  resolve : ∀ {pages}, S.resolve store.pager.cas store.head = .ok pages →
    S.resolve store'.pager.cas store'.head = .ok (Overlay.overlay pages changes)
  recovered : store'.head ≠ store.head → store'.recoveredHead = store'.head
  wal_eq : store'.head = store.head → store'.wal = store.wal

/-- A commit either is refused and does nothing, or goes through. -/
theorem commit_cases (hS : S.Commits) (faults : Faults S) (store : DurableStore S) (txn : S.Txn)
    (nowMs : ℕ) :
    (∃ e, faults .commit = some e ∧ store.commit faults txn nowMs = (.error e, store)) ∨
    (faults .commit = none ∧ ∃ store', store.commit faults txn nowMs = (.ok store'.head, store') ∧
      store.Committed (S.staged txn) nowMs store') := by
  cases hfault : faults .commit with
  | some e => exact .inl ⟨e, rfl, by simp [commit, hfault]⟩
  | none =>
    let result := S.commit store.pager.cas store.wal store.pager.head txn nowMs
    let store' : DurableStore S :=
      ⟨{ store.pager with cas := result.2.1, head := result.1 }, result.2.2⟩
    refine .inr ⟨rfl, store', by simp [commit, hfault, store', result, head], ?_⟩
    exact {
      head_eq := hS.commit_id _ _ _ _ _
      pageSize_eq := rfl
      grows := hS.grows_commit _ _ _ _ _
      resolve := hS.resolve_commit _ _ _
      recovered := hS.recovered_commit _
      wal_eq := hS.wal_commit_of_unchanged }

/-- A recovered store stands at the recorded head and has everything it had. -/
theorem recover_spec (hS : S.Recovers) (store : DurableStore S) :
    store.recover.head = store.recoveredHead ∧
      store.recover.recoveredHead = store.recoveredHead ∧
      store.recover.pager.pageSize = store.pager.pageSize ∧
      S.Grows store.pager.cas store.recover.pager.cas :=
  ⟨hS.recover_head _ _ _, hS.recovered_recover _ _ _, rfl, hS.grows_recover _ _ _⟩

end DurableStore

end FlockDb
