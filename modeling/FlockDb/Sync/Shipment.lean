import FlockDb.Library.Chain
import FlockDb.Substrate.Store

/-!
# Shipments

A shipment is one committed transaction with the page bytes a follower needs to
replay it. The errors of the replication crate are here too, with the fields its
code fills in.
-/

namespace FlockDb

/-- A file-system error, as far as the code tells them apart. -/
inductive IoError where
  | notFound
  | other (account : String)
  deriving DecidableEq

/-- `SyncError`, everything that can go wrong shipping or applying a log. -/
inductive SyncError (S : Substrate) where
  | pager (op : String) (source : S.Error)
  | wal (op : String) (source : S.Error)
  | outOfOrder (lsn : Lsn) (expectedBase head : String)
  | diverged (lsn : Lsn) (expected got : String)
  | pageHashMismatch (pageNo : PageNo) (claimed actual : String)
  | missingPage (lsn : Lsn) (pageNo : PageNo) (pageId : String)
  | followerUnknown (head : String)
  | io (path : String) (source : IoError)
  | unsupported (what why : String)

/-- `PageWrite`: one logical-page change, a removal when `page` is `none`. -/
structure PageWrite (S : Substrate) where
  pageNo : PageNo
  page : Option S.PageId

/-- `PageBlob`: the bytes of one page under the hash they must reproduce. -/
structure PageBlob (S : Substrate) where
  id : S.PageId
  bytes : Bytes

/-- `Shipment`: one committed transaction, ready to send to a follower. -/
structure Shipment (S : Substrate) where
  base : S.ManifestId
  manifest : S.ManifestId
  commitLsn : Lsn
  createdAtMs : ℕ
  writes : List (PageWrite S)
  pages : List (PageBlob S)

namespace Shipment

variable {S : Substrate}

/-- `Shipment::bytes_for`: the first blob filed under a page id. -/
def bytesFor (s : Shipment S) (id : S.PageId) : Option Bytes :=
  (s.pages.find? fun blob => blob.id = id).map PageBlob.bytes

/-- The page changes a list of writes stages, the last write for a page winning. -/
def changesFrom (changes : Changes S.PageId) (writes : List (PageWrite S)) : Changes S.PageId :=
  writes.foldl (fun changes w => changes.insert w.pageNo w.page) changes

/-- The page changes of a shipment. -/
def changes (s : Shipment S) : Changes S.PageId := changesFrom ∅ s.writes

/-- Every page the shipment sets comes with bytes that hash to its id. -/
def Intact (s : Shipment S) : Prop :=
  ∀ w ∈ s.writes, ∀ id, w.page = some id →
    ∃ bytes, s.bytesFor id = some bytes ∧ S.pageHash bytes = id

/-- The shipment's changes at its timestamp lead from its base to its manifest. -/
def Derived (s : Shipment S) : Prop := s.manifest = S.deriveNext s.base s.changes s.createdAtMs

/-- The move a shipment asks a follower to make. -/
def link (s : Shipment S) : Chain.Link S.ManifestId := ⟨s.base, s.manifest⟩

end Shipment

end FlockDb
