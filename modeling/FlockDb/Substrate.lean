import FlockDb.Library.Overlay

/-!
# The page store underneath

FlockDB keeps its bytes in substrate, a separate project whose source is not
part of the repository. It is a parameter of the model: its types, the functions
FlockDB calls, and the few observations its documentation speaks about. What the
code relies on is stated as named laws, so a theorem says which of them it uses.
Substrate calls that may fail are guarded by a fault plan, which is an input.
-/

namespace FlockDb

/-- The bytes of a page or of a file. -/
abbrev Bytes := List UInt8

/-- Bytes held in memory: a vector or a slice has fewer than `2 ^ 63`. -/
structure ByteVec where
  bytes : Bytes
  length_lt : bytes.length < 2 ^ 63

/-- A logical page number, `LogicalPageNo`. -/
abbrev PageNo := ℕ

/-- A position in a write-ahead log. -/
abbrev Lsn := ℕ

/-- The page map a manifest resolves to, in page order. -/
abbrev PageMap (PageId : Type) := Std.ExtTreeMap PageNo PageId

/-- A transaction's page changes in page order; `none` is a removal. -/
abbrev Changes (PageId : Type) := Std.ExtTreeMap PageNo (Option PageId)

/-- What a log record says, `RecordKind`. -/
inductive RecordKind (PageId ManifestId : Type) where
  | write (pageNo : PageNo) (page : Option PageId)
  | commit (manifest : ManifestId) (createdAtMs : ℕ)
  | checkpoint (manifest : ManifestId)

/-- One decoded log record. -/
structure Record (PageId ManifestId : Type) where
  lsn : Lsn
  kind : RecordKind PageId ManifestId

/-- The answer of `Record::decode` on the bytes at a position of a segment. -/
inductive ReadOutcome (PageId ManifestId : Type) where
  | record (record : Record PageId ManifestId) (consumed : ℕ)
  | torn

/-- The two edges of a manifest: the overlay it resolves through and the
manifest it was derived from. -/
structure Manifest (ManifestId : Type) where
  overlayBase : Option ManifestId
  parent : Option ManifestId

/-- Substrate as FlockDB sees it. `Cas` stands for the `pages/` and `manifests/`
directories and `Wal` for one database's `wal/` directory. -/
structure Substrate where
  PageId : Type
  ManifestId : Type
  Txn : Type
  Cas : Type
  Wal : Type
  Error : Type
  [decEqPageId : DecidableEq PageId]
  [decEqManifestId : DecidableEq ManifestId]
  /-- `PageId::to_hex`. -/
  pageHex : PageId → String
  /-- `ManifestId::to_hex`. -/
  manifestHex : ManifestId → String
  /-- The content hash that names a page. -/
  pageHash : Bytes → PageId
  /-- `Manifest::empty(page_size).id()`. -/
  emptyRoot : ℕ → Except Error ManifestId
  /-- The manifest a commit names, from its base, its page changes and its timestamp. -/
  deriveNext : ManifestId → Changes PageId → ℕ → ManifestId
  /-- The page map that a manifest id names. -/
  pageMap : ManifestId → PageMap PageId
  /-- `Cas::get`. -/
  get : Cas → PageId → Except Error Bytes
  /-- `PageStore::manifest`. -/
  manifest : Cas → ManifestId → Except Error (Manifest ManifestId)
  /-- `PageStore::resolve`. -/
  resolve : Cas → ManifestId → Except Error (PageMap PageId)
  /-- `PageStore::read`. -/
  read : Cas → ManifestId → PageNo → Except Error Bytes
  /-- `begin`, at a head. -/
  begin : ManifestId → Txn
  /-- `write`: the page goes into the store and its name into the transaction. -/
  write : Cas → Txn → PageNo → Bytes → PageId × Txn × Cas
  /-- `remove`. -/
  remove : Txn → PageNo → Txn
  /-- The page changes a transaction has staged. -/
  staged : Txn → Changes PageId
  /-- `DurableStore::commit` at a head and a clock reading. -/
  commit : Cas → Wal → ManifestId → Txn → ℕ → ManifestId × Cas × Wal
  /-- `Pager::commit`, which writes no log record. -/
  install : Cas → ManifestId → Txn → ℕ → ManifestId × Cas
  /-- `DurableStore::checkpoint`, recording a head. -/
  checkpoint : Cas → Wal → ManifestId → Wal
  /-- `Pager::rewind`; the error when the store refuses the manifest. -/
  rewind : Cas → ManifestId → Except Error Unit
  /-- `Pager::set_head_to`; the error when the store refuses the manifest. -/
  setHeadTo : Cas → ManifestId → Except Error Unit
  /-- `DurableStore::recover`, for a page size. -/
  recover : ℕ → Cas → Wal → ManifestId × Cas × Wal
  /-- The head that replaying a log directory restores, for a page size. -/
  recovered : ℕ → Wal → ManifestId
  /-- A `wal/` directory that has just been created. -/
  freshWal : Wal
  /-- `PagerError::backend`. -/
  backend : Error → Error
  /-- `Record::decode`. -/
  decode : Bytes → ReadOutcome PageId ManifestId

attribute [instance] Substrate.decEqPageId Substrate.decEqManifestId

/-- Manifests that compare equal are equal. -/
instance Substrate.lawfulBEqManifestId (S : Substrate) : LawfulBEq S.ManifestId := inferInstance

/-- The substrate calls that can fail for reasons outside FlockDB. -/
inductive StoreCall where
  | open
  | recover
  | begin
  | write (pageNo : PageNo)
  | remove (pageNo : PageNo)
  | commit
  | setHeadTo
  | rewind
  | checkpoint
  deriving DecidableEq

/-- Which substrate calls fail, and with what error. -/
abbrev Faults (S : Substrate) := StoreCall → Option S.Error

/-- The plan under which every call goes through. -/
def Faults.none {S : Substrate} : Faults S := fun _ => Option.none

/-- The plan under which a call goes through is the empty one. -/
@[simp] theorem Faults.none_apply {S : Substrate} (call : StoreCall) :
    (Faults.none : Faults S) call = Option.none := rfl

/-- A substrate call under a fault plan: its planned error, or its effect. -/
def Faults.guard {S : Substrate} {α : Type} (faults : Faults S) (call : StoreCall)
    (effect : Except S.Error α) : Except S.Error α :=
  match faults call with
  | some e => .error e
  | Option.none => effect

@[simp] theorem Faults.guard_none {S : Substrate} {α : Type} (call : StoreCall)
    (effect : Except S.Error α) : (Faults.none : Faults S).guard call effect = effect := rfl

namespace Substrate

variable (S : Substrate)

/-- `cas'` still has everything `cas` had: pages and manifests are immutable
files named by their own hash, so nothing that could be read goes away. -/
structure Grows (cas cas' : S.Cas) : Prop where
  get : ∀ {id bytes}, S.get cas id = .ok bytes → S.get cas' id = .ok bytes
  manifest : ∀ {m edges}, S.manifest cas m = .ok edges → S.manifest cas' m = .ok edges
  resolve : ∀ {m pages}, S.resolve cas m = .ok pages → S.resolve cas' m = .ok pages

/-- The store resolves the manifest and has every page of it. -/
structure Holds (cas : S.Cas) (m : S.ManifestId) : Prop where
  resolve : S.resolve cas m = .ok (S.pageMap m)
  page : ∀ {p : PageNo} {id : S.PageId}, (S.pageMap m)[p]? = some id →
    ∃ bytes, S.get cas id = .ok bytes

/-- Page `p` of the database that manifest `m` names is `bytes`. -/
def Names (m : S.ManifestId) (p : PageNo) (bytes : Bytes) : Prop :=
  (S.pageMap m)[p]? = some (S.pageHash bytes)

/-- Pages and manifests are named by their content. -/
structure ContentAddressed : Prop where
  /-- The content hash is collision free. -/
  pageHash_injective : Function.Injective S.pageHash
  /-- A page is filed under the hash of its bytes. -/
  pageHash_of_get : ∀ {cas id bytes}, S.get cas id = .ok bytes → S.pageHash bytes = id
  /-- Any store that resolves a manifest finds the page map its id names. -/
  eq_pageMap_of_resolve : ∀ {cas m pages}, S.resolve cas m = .ok pages → pages = S.pageMap m
  /-- A read looks the page up in the resolved map and fetches it. -/
  read_ok_iff : ∀ {cas m p bytes}, S.read cas m p = .ok bytes ↔
    ∃ pages id, S.resolve cas m = .ok pages ∧ pages[p]? = some id ∧ S.get cas id = .ok bytes
  /-- The empty root has no pages. -/
  pageMap_emptyRoot : ∀ {pageSize m}, S.emptyRoot pageSize = .ok m → S.pageMap m = ∅
  /-- A commit's manifest is its base with the changes laid over. -/
  pageMap_deriveNext : ∀ base changes createdAtMs,
    S.pageMap (S.deriveNext base changes createdAtMs) = Overlay.overlay (S.pageMap base) changes

/-- What staging does: a page goes into the store under its hash, and the
transaction remembers the last change for each page. -/
structure Stages : Prop where
  staged_begin : ∀ head, S.staged (S.begin head) = ∅
  write_id : ∀ cas txn p bytes, (S.write cas txn p bytes).1 = S.pageHash bytes
  staged_write : ∀ cas txn p bytes, S.staged (S.write cas txn p bytes).2.1 =
    (S.staged txn).insert p (some (S.pageHash bytes))
  get_write : ∀ cas txn p bytes,
    S.get (S.write cas txn p bytes).2.2 (S.pageHash bytes) = .ok bytes
  grows_write : ∀ cas txn p bytes, S.Grows cas (S.write cas txn p bytes).2.2
  staged_remove : ∀ txn p, S.staged (S.remove txn p) = (S.staged txn).insert p none

/-- What a durable commit does: it names its manifest by its base, its changes
and its timestamp, and fsyncs a record of it unless nothing changed. -/
structure Commits : Prop where
  commit_id : ∀ cas wal head txn now,
    (S.commit cas wal head txn now).1 = S.deriveNext head (S.staged txn) now
  grows_commit : ∀ cas wal head txn now, S.Grows cas (S.commit cas wal head txn now).2.1
  resolve_commit : ∀ {cas head pages} (wal : S.Wal) (txn : S.Txn) (now : ℕ),
    S.resolve cas head = .ok pages →
    S.resolve (S.commit cas wal head txn now).2.1 (S.commit cas wal head txn now).1 =
      .ok (Overlay.overlay pages (S.staged txn))
  recovered_commit : ∀ {cas wal head txn now} (pageSize : ℕ),
    (S.commit cas wal head txn now).1 ≠ head →
    S.recovered pageSize (S.commit cas wal head txn now).2.2 = (S.commit cas wal head txn now).1
  wal_commit_of_unchanged : ∀ {cas wal head txn now},
    (S.commit cas wal head txn now).1 = head → (S.commit cas wal head txn now).2.2 = wal

/-- What a commit without a log does: the same manifest, installed and not recorded. -/
structure Installs : Prop where
  install_id : ∀ cas head txn now,
    (S.install cas head txn now).1 = S.deriveNext head (S.staged txn) now
  grows_install : ∀ cas head txn now, S.Grows cas (S.install cas head txn now).2
  resolve_install : ∀ {cas head pages} (txn : S.Txn) (now : ℕ),
    S.resolve cas head = .ok pages →
    S.resolve (S.install cas head txn now).2 (S.install cas head txn now).1 =
      .ok (Overlay.overlay pages (S.staged txn))

/-- What a restart finds: recovery lands on the recorded head, and a checkpoint
records the head it is given. -/
structure Recovers : Prop where
  recover_head : ∀ pageSize cas wal, (S.recover pageSize cas wal).1 = S.recovered pageSize wal
  grows_recover : ∀ pageSize cas wal, S.Grows cas (S.recover pageSize cas wal).2.1
  recovered_recover : ∀ pageSize cas wal,
    S.recovered pageSize (S.recover pageSize cas wal).2.2 = S.recovered pageSize wal
  recovered_checkpoint : ∀ pageSize cas wal head,
    S.recovered pageSize (S.checkpoint cas wal head) = head
  recovered_freshWal : ∀ {pageSize m}, S.emptyRoot pageSize = .ok m →
    S.recovered pageSize S.freshWal = m

/-- A store moves its head to any manifest that it resolves, and a log that has just been
created has nothing to replay. -/
structure Positions : Prop where
  setHeadTo_ok : ∀ {cas m pages}, S.resolve cas m = .ok pages → S.setHeadTo cas m = .ok ()
  rewind_ok : ∀ {cas m pages}, S.resolve cas m = .ok pages → S.rewind cas m = .ok ()
  cas_recover_freshWal : ∀ pageSize cas, (S.recover pageSize cas S.freshWal).2.1 = cas

/-- Everything FlockDB relies on of a durable store. -/
structure Laws : Prop extends S.ContentAddressed, S.Stages, S.Commits, S.Installs, S.Recovers

variable {S}

/-- A store has everything it has. -/
theorem Grows.refl (cas : S.Cas) : S.Grows cas cas := ⟨id, id, id⟩

/-- Growth composes. -/
theorem Grows.trans {cas cas' cas'' : S.Cas} (h : S.Grows cas cas') (h' : S.Grows cas' cas'') :
    S.Grows cas cas'' :=
  ⟨h'.get ∘ h.get, h'.manifest ∘ h.manifest, h'.resolve ∘ h.resolve⟩

/-- A store that grew still holds what it held. -/
theorem Holds.grows {cas cas' : S.Cas} {m : S.ManifestId} (h : S.Holds cas m)
    (hg : S.Grows cas cas') : S.Holds cas' m := by
  refine ⟨hg.resolve h.resolve, fun hp => ?_⟩
  obtain ⟨bytes, hbytes⟩ := h.page hp
  exact ⟨bytes, hg.get hbytes⟩

namespace ContentAddressed

/-- A read at any store returns the bytes the manifest names. -/
theorem names_of_read (hS : S.ContentAddressed) {cas : S.Cas} {m : S.ManifestId} {p : PageNo}
    {bytes : Bytes} (h : S.read cas m p = .ok bytes) : S.Names m p bytes := by
  obtain ⟨pages, id, hresolve, hpage, hget⟩ := hS.read_ok_iff.mp h
  rw [hS.eq_pageMap_of_resolve hresolve] at hpage
  rw [Names, hpage, hS.pageHash_of_get hget]

/-- A store that holds a manifest reads exactly the bytes the manifest names. -/
theorem read_ok_iff_names (hS : S.ContentAddressed) {cas : S.Cas} {m : S.ManifestId}
    (h : S.Holds cas m) (p : PageNo) (bytes : Bytes) :
    S.read cas m p = .ok bytes ↔ S.Names m p bytes := by
  refine ⟨hS.names_of_read, fun hnames => ?_⟩
  obtain ⟨found, hget⟩ := h.page hnames
  have hfound : found = bytes := hS.pageHash_injective (hS.pageHash_of_get hget)
  exact hS.read_ok_iff.mpr ⟨_, _, h.resolve, hnames, hfound ▸ hget⟩

/-- Growth keeps every successful read. -/
theorem read_grows (hS : S.ContentAddressed) {cas cas' : S.Cas} (hg : S.Grows cas cas')
    {m : S.ManifestId} {p : PageNo} {bytes : Bytes} (h : S.read cas m p = .ok bytes) :
    S.read cas' m p = .ok bytes := by
  obtain ⟨pages, id, hresolve, hpage, hget⟩ := hS.read_ok_iff.mp h
  exact hS.read_ok_iff.mpr ⟨pages, id, hg.resolve hresolve, hpage, hg.get hget⟩

end ContentAddressed

end Substrate

end FlockDb
