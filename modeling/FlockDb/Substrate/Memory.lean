import FlockDb.Substrate.Store

/-!
# An in-memory substrate

The laws of a store are hypotheses of the development. This module gives one
store that satisfies all of them: pages are their own names, a manifest is the
list of commits it was derived through, and a log remembers the head it records.
The closed examples run on it. Its log frames are single bytes that index a table
of records, which is all a decoder needs in order to be run.
-/

namespace FlockDb.Memory

open Overlay

/-- One commit: its page changes in page order, and its timestamp. -/
structure Change where
  entries : List (PageNo × Option Bytes)
  createdAtMs : ℕ
  deriving DecidableEq

/-- A manifest is the commits it was derived through, the newest first. -/
abbrev ManifestId := List Change

/-- Pages that compare equal are equal. -/
instance lawfulBEqBytes : LawfulBEq Bytes := inferInstance

/-- The page map at the end of a list of commits. -/
def pageMap : ManifestId → PageMap Bytes
  | [] => ∅
  | change :: base => overlay (pageMap base) (ofEntries change.entries)

/-- A commit that changes nothing names its base; any other names itself. -/
def deriveNext (base : ManifestId) (changes : Changes Bytes) (createdAtMs : ℕ) : ManifestId :=
  if (overlay (pageMap base) changes).toList = (pageMap base).toList then base
  else ⟨changes.toList, createdAtMs⟩ :: base

/-- A printable name: the timestamps of the commits. -/
def manifestHex : ManifestId → String
  | [] => "root"
  | change :: base => manifestHex base ++ "/" ++ Nat.repr change.createdAtMs

/-- The pages and manifests that have been stored. -/
structure Cas where
  pages : List Bytes
  manifests : List ManifestId
  deriving DecidableEq

/-- Why a lookup failed. -/
inductive Error where
  | missing
  | refused
  deriving DecidableEq

/-- Fetch a page by name. -/
def get (cas : Cas) (id : Bytes) : Except Error Bytes :=
  if id ∈ cas.pages then .ok id else .error .missing

/-- The empty root always resolves; another manifest must have been stored. -/
def resolve (cas : Cas) (m : ManifestId) : Except Error (PageMap Bytes) :=
  if m = [] ∨ m ∈ cas.manifests then .ok (pageMap m) else .error .missing

/-- A manifest overlays the one it was derived from. -/
def manifest (cas : Cas) (m : ManifestId) : Except Error (Manifest ManifestId) :=
  (resolve cas m).map fun _ => ⟨m.tail?, m.tail?⟩

/-- Look a page up in the resolved map and fetch it. -/
def read (cas : Cas) (m : ManifestId) (p : PageNo) : Except Error Bytes := do
  let pages ← resolve cas m
  match pages[p]? with
  | some id => get cas id
  | none => throw .missing

/-- One frame is one byte, an index into the table of records. -/
def decode (frames : List (Record Bytes ManifestId)) : Bytes → ReadOutcome Bytes ManifestId
  | [] => .torn
  | frame :: _ =>
    match frames[frame.toNat]? with
    | some record => .record record 1
    | none => .torn

end Memory

/-- The in-memory substrate over a table of log frames. -/
def memory (frames : List (Record Bytes Memory.ManifestId)) : Substrate where
  PageId := Bytes
  ManifestId := Memory.ManifestId
  Txn := Changes Bytes
  Cas := Memory.Cas
  Wal := Option Memory.ManifestId
  Error := Memory.Error
  pageHex := fun _ => "page"
  manifestHex := Memory.manifestHex
  pageHash := id
  emptyRoot := fun _ => .ok []
  deriveNext := Memory.deriveNext
  pageMap := Memory.pageMap
  get := Memory.get
  manifest := Memory.manifest
  resolve := Memory.resolve
  read := Memory.read
  begin := fun _ => ∅
  write := fun cas txn p bytes =>
    (bytes, txn.insert p (some bytes), { cas with pages := bytes :: cas.pages })
  remove := fun txn p => txn.insert p none
  staged := id
  commit := fun cas wal head txn now =>
    let m := Memory.deriveNext head txn now
    (m, { cas with manifests := m :: cas.manifests }, if m = head then wal else some m)
  install := fun cas head txn now =>
    let m := Memory.deriveNext head txn now
    (m, { cas with manifests := m :: cas.manifests })
  checkpoint := fun _ _ head => some head
  rewind := fun cas m => (Memory.resolve cas m).map fun _ => ()
  setHeadTo := fun cas m => (Memory.resolve cas m).map fun _ => ()
  recover := fun _ cas wal => (wal.getD [], cas, wal)
  recovered := fun _ wal => wal.getD []
  freshWal := none
  backend := id
  decode := Memory.decode frames

namespace Memory

open Overlay

variable {frames : List (Record Bytes ManifestId)}

/-- The page map of a derived manifest, whether or not the commit changed it. -/
theorem pageMap_deriveNext (base : ManifestId) (changes : Changes Bytes) (createdAtMs : ℕ) :
    pageMap (deriveNext base changes createdAtMs) = overlay (pageMap base) changes := by
  unfold deriveNext
  by_cases h : (overlay (pageMap base) changes).toList = (pageMap base).toList
  · rw [if_pos h]
    exact (Std.ExtTreeMap.toList_inj.mp h).symm
  · rw [if_neg h, pageMap, ofEntries_toList]

/-- More pages answer every lookup that fewer did. -/
theorem get_mono {cas cas' : Cas} (hpages : cas.pages ⊆ cas'.pages) {id bytes : Bytes}
    (h : get cas id = .ok bytes) : get cas' id = .ok bytes := by
  unfold get at h ⊢
  by_cases hid : id ∈ cas.pages
  · rw [if_pos hid] at h
    rwa [if_pos (hpages hid)]
  · rw [if_neg hid] at h
    cases h

/-- More manifests resolve whatever fewer did. -/
theorem resolve_mono {cas cas' : Cas} (hmanifests : cas.manifests ⊆ cas'.manifests)
    {m : ManifestId} {pages : PageMap Bytes} (h : resolve cas m = .ok pages) :
    resolve cas' m = .ok pages := by
  unfold resolve at h ⊢
  by_cases hm : m = [] ∨ m ∈ cas.manifests
  · rw [if_pos hm] at h
    rwa [if_pos (hm.imp_right fun hm => hmanifests hm)]
  · rw [if_neg hm] at h
    cases h

/-- More manifests have the edges that fewer had. -/
theorem manifest_mono {cas cas' : Cas} (hmanifests : cas.manifests ⊆ cas'.manifests)
    {m : ManifestId} {edges : Manifest ManifestId} (h : manifest cas m = .ok edges) :
    manifest cas' m = .ok edges := by
  unfold manifest at h ⊢
  cases hm : resolve cas m with
  | error e => rw [hm] at h; cases h
  | ok pages =>
    rw [hm] at h
    rwa [resolve_mono hmanifests hm]

/-- A store with more pages and more manifests has grown. -/
theorem grows {cas cas' : Cas} (hpages : cas.pages ⊆ cas'.pages)
    (hmanifests : cas.manifests ⊆ cas'.manifests) :
    @Substrate.Grows (memory frames) cas cas' :=
  ⟨get_mono hpages, manifest_mono hmanifests, resolve_mono hmanifests⟩

/-- A page is found under its own bytes. -/
theorem eq_of_get {cas : Cas} {id bytes : Bytes} (h : get cas id = .ok bytes) : bytes = id := by
  unfold get at h
  by_cases hid : id ∈ cas.pages
  · rw [if_pos hid] at h
    exact (Except.ok.inj h).symm
  · rw [if_neg hid] at h
    cases h

/-- A resolved manifest resolves to its page map. -/
theorem eq_of_resolve {cas : Cas} {m : ManifestId} {pages : PageMap Bytes}
    (h : resolve cas m = .ok pages) : pages = pageMap m := by
  unfold resolve at h
  by_cases hm : m = [] ∨ m ∈ cas.manifests
  · rw [if_pos hm] at h
    exact (Except.ok.inj h).symm
  · rw [if_neg hm] at h
    cases h

/-- Reads go through the resolved map. -/
theorem read_ok_iff {cas : Cas} {m : ManifestId} {p : PageNo} {bytes : Bytes} :
    read cas m p = .ok bytes ↔
      ∃ pages id, resolve cas m = .ok pages ∧ pages[p]? = some id ∧ get cas id = .ok bytes := by
  unfold read
  cases hm : resolve cas m with
  | error e => simp [bind, Except.bind]
  | ok pages =>
    cases hp : pages[p]? with
    | none => simp [bind, Except.bind, hp, throw, throwThe, MonadExceptOf.throw]
    | some id => simp [bind, Except.bind, hp]

/-- A derived manifest that was stored resolves to its base with the changes laid
over. -/
theorem resolve_deriveNext {cas : Cas} {head : ManifestId} {pages : PageMap Bytes}
    (changes : Changes Bytes) (createdAtMs : ℕ) (h : resolve cas head = .ok pages) :
    resolve { cas with manifests := deriveNext head changes createdAtMs :: cas.manifests }
      (deriveNext head changes createdAtMs) = .ok (overlay pages changes) := by
  rw [eq_of_resolve h, ← pageMap_deriveNext head changes createdAtMs]
  exact if_pos (.inr List.mem_cons_self)

/-- The in-memory substrate satisfies every law. -/
theorem laws (frames : List (Record Bytes ManifestId)) : (memory frames).Laws where
  pageHash_injective := fun _ _ h => h
  pageHash_of_get := eq_of_get
  eq_pageMap_of_resolve := eq_of_resolve
  read_ok_iff := read_ok_iff
  pageMap_emptyRoot := by
    rintro pageSize m h
    obtain rfl : [] = m := Except.ok.inj h
    rfl
  pageMap_deriveNext := pageMap_deriveNext
  staged_begin := fun _ => rfl
  write_id := fun _ _ _ _ => rfl
  staged_write := fun _ _ _ _ => rfl
  get_write := fun cas _ _ bytes => if_pos (List.mem_cons_self (a := bytes))
  grows_write := fun _ _ _ _ => grows (List.subset_cons_self _ _) (List.Subset.refl _)
  staged_remove := fun _ _ => rfl
  commit_id := fun _ _ _ _ _ => rfl
  grows_commit := fun _ _ _ _ _ => grows (List.Subset.refl _) (List.subset_cons_self _ _)
  resolve_commit := fun _ txn now h => resolve_deriveNext txn now h
  recovered_commit := by
    intro cas wal head txn now pageSize h
    have hwal : ((memory frames).commit cas wal head txn now).2.2 =
        some (deriveNext head txn now) := if_neg h
    rw [hwal]
    rfl
  wal_commit_of_unchanged := fun h => if_pos h
  install_id := fun _ _ _ _ => rfl
  grows_install := fun _ _ _ _ => grows (List.Subset.refl _) (List.subset_cons_self _ _)
  resolve_install := fun txn now h => resolve_deriveNext txn now h
  recover_head := fun _ _ _ => rfl
  grows_recover := fun _ cas _ => .refl cas
  recovered_recover := fun _ _ _ => rfl
  recovered_checkpoint := fun _ _ _ _ => rfl
  recovered_freshWal := fun h => Except.ok.inj h

/-- The in-memory substrate positions itself at what it resolves. -/
theorem positions (frames : List (Record Bytes ManifestId)) : (memory frames).Positions where
  setHeadTo_ok := fun {cas m pages} h => by
    change (resolve cas m).map _ = _
    rw [show resolve cas m = .ok pages from h]
    rfl
  rewind_ok := fun {cas m pages} h => by
    change (resolve cas m).map _ = _
    rw [show resolve cas m = .ok pages from h]
    rfl
  cas_recover_freshWal := fun _ _ => rfl

end Memory

end FlockDb
