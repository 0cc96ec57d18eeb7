import FlockDb.Sync.Shipment

/-!
# The primary side of shipping

A `WalSource` reads the log segments a primary wrote and folds them back into
per-transaction shipments. Everything here is translated from the code: the
segment listing, the frame loop, the checkpoint marker, the fold, and the two
position queries built on it.
-/

namespace FlockDb

/-- The files of a `wal/` directory as the file system answers for them. -/
structure WalFiles where
  readDir : Except IoError (List String)
  fileExists : String → Bool
  read : String → Except IoError Bytes

/-- `WalSource`: a read-only view of a primary's committed history. -/
structure WalSource (S : Substrate) where
  files : WalFiles
  walDir : String
  cas : S.Cas
  pageSize : ℕ

/-- The value of a nonempty string of decimal digits, if it fits 64 bits. -/
def parseDigits (digits : List Char) : Option ℕ :=
  if digits.isEmpty || !digits.all Char.isDigit then none
  else
    let n := digits.foldl (fun n c => 10 * n + (c.toNat - '0'.toNat)) 0
    if n < 2 ^ 64 then some n else none

/-- `str::parse::<u64>`, which also accepts one leading plus sign. -/
def parseU64 : List Char → Option ℕ
  | '+' :: digits => parseDigits digits
  | digits => parseDigits digits

/-- The segment number of a file name, for names that end in `.wal`. -/
def segmentNumber (name : String) : Option ℕ :=
  let chars := name.toList
  let suffix := ".wal".toList
  if suffix.isSuffixOf chars then parseU64 (chars.take (chars.length - suffix.length)) else none

/-- `format!("{n:012}.wal")`. -/
def segmentName (n : ℕ) : String :=
  let digits := Nat.repr n
  String.ofList (List.replicate (12 - digits.length) '0') ++ digits ++ ".wal"

namespace WalSource

variable {S : Substrate} (src : WalSource S)

/-- A path under the log directory. -/
def path (name : String) : String := src.walDir ++ "/" ++ name

/-- `WalSource::segments`: the segment numbers present, in order. A missing
directory is an empty log. -/
def segments : Except (SyncError S) (List ℕ) :=
  match src.files.readDir with
  | .error .notFound => .ok []
  | .error source => .error (.io src.walDir source)
  | .ok entries => .ok ((entries.filterMap segmentNumber).mergeSort (· ≤ ·))

/-- The frame loop over one segment, from the bytes not yet decoded. The flag
says that it stopped before bytes that do not decode. -/
def readSegment : ℕ → Bytes → List (Record S.PageId S.ManifestId) × Bool
  | 0, rest => ([], !rest.isEmpty)
  | fuel + 1, rest =>
    match S.decode rest with
    | .record record consumed =>
      let (records, torn) := readSegment fuel (rest.drop consumed)
      (record :: records, torn)
    -- A clean end and a torn tail both decode as torn; unread bytes tell them apart.
    | .torn => ([], !rest.isEmpty)

/-- The segment loop of `WalSource::records`; it stops at the first torn tail. -/
def readSegments : List ℕ → Except (SyncError S) (List (Record S.PageId S.ManifestId))
  | [] => .ok []
  | n :: segments =>
    match src.files.read (segmentName n) with
    | .error source => .error (.io (src.path (segmentName n)) source)
    | .ok bytes =>
      let (records, torn) := readSegment (S := S) bytes.length bytes
      if torn then .ok records
      else (readSegments segments).map (records ++ ·)

/-- `WalSource::records`: every complete record of the log, in order. -/
def records : Except (SyncError S) (List (Record S.PageId S.ManifestId)) := do
  let segments ← src.segments
  src.readSegments segments

/-- `WalSource::read_checkpoint`: the marker's manifest and LSN, if one is durable. -/
def readCheckpoint : Except (SyncError S) (Option (S.ManifestId × Lsn)) :=
  if !src.files.fileExists "CHECKPOINT" then .ok none
  else
    match src.files.read "CHECKPOINT" with
    | .error source => .error (.io (src.path "CHECKPOINT") source)
    | .ok bytes =>
      match S.decode bytes with
      | .record ⟨lsn, .checkpoint manifest⟩ _ => .ok (some (manifest, lsn))
      -- A marker that holds something else, or is cut short, is ignored.
      | .record _ _ => .ok none
      | .torn => .ok none

/-- `WalSource::start_head`: the manifest of a follower with nothing applied. -/
def startHead : Except (SyncError S) S.ManifestId := do
  match ← src.readCheckpoint with
  | some (manifest, _) => return manifest
  | none =>
    match S.emptyRoot src.pageSize with
    | .ok manifest => return manifest
    | .error source => throw (.pager "name the empty root manifest" source)

/-- The blob loop of `build_shipment`: fetch each page id once. -/
def collectBlobs (cas : S.Cas) (commitLsn : Lsn) :
    List (PageNo × Option S.PageId) → List (PageBlob S) → Except (SyncError S) (List (PageBlob S))
  | [], blobs => .ok blobs
  | (_, none) :: writes, blobs => collectBlobs cas commitLsn writes blobs
  | (pageNo, some id) :: writes, blobs =>
    if blobs.any (fun blob => blob.id = id) then collectBlobs cas commitLsn writes blobs
    else
      match S.get cas id with
      | .error _ => .error (.missingPage commitLsn pageNo (S.pageHex id))
      | .ok bytes => collectBlobs cas commitLsn writes (blobs ++ [⟨id, bytes⟩])

/-- `WalSource::build_shipment`. -/
def buildShipment (base manifest : S.ManifestId) (commitLsn : Lsn) (createdAtMs : ℕ)
    (writes : Changes S.PageId) : Except (SyncError S) (Shipment S) := do
  let pages ← collectBlobs src.cas commitLsn writes.toList []
  return {
    base, manifest, commitLsn, createdAtMs, pages
    writes := writes.toList.map fun entry => ⟨entry.1, entry.2⟩ }

/-- The record loop of `shipments_from`, with the base and the pending writes of
the transaction being read. -/
def foldRecords (checkpointLsn : Option Lsn) (start : Lsn) :
    S.ManifestId → Changes S.PageId → List (Record S.PageId S.ManifestId) →
      Except (SyncError S) (List (Shipment S))
  | _, _, [] => .ok []
  | base, pending, ⟨lsn, kind⟩ :: records =>
    -- Records the marker covers have already happened as far as `base` is concerned.
    if checkpointLsn.any (fun cp => lsn ≤ cp) then
      foldRecords checkpointLsn start base pending records
    else
      match kind with
      | .write pageNo page =>
        foldRecords checkpointLsn start base (pending.insert pageNo page) records
      | .commit manifest createdAtMs =>
        if start ≤ lsn then do
          let shipment ← src.buildShipment base manifest lsn createdAtMs pending
          let out ← foldRecords checkpointLsn start manifest ∅ records
          return shipment :: out
        else foldRecords checkpointLsn start manifest ∅ records
      | .checkpoint manifest => foldRecords checkpointLsn start manifest ∅ records

/-- `WalSource::shipments_from`: every shippable commit with LSN at least `start`. -/
def shipmentsFrom (start : Lsn) : Except (SyncError S) (List (Shipment S)) := do
  let checkpoint ← src.readCheckpoint
  let base ← src.startHead
  let records ← src.records
  src.foldRecords (checkpoint.map Prod.snd) start base ∅ records

/-- `commit_lsn + 1` in 64-bit arithmetic. -/
def nextLsn (lsn : Lsn) : Lsn := (lsn + 1) % 2 ^ 64

/-- `WalSource::resume_after`: the LSN a follower at `head` streams from next. -/
def resumeAfter (head : S.ManifestId) : Except (SyncError S) Lsn := do
  let startHead ← src.startHead
  if head = startHead then return 0
  else
    let shipments ← src.shipmentsFrom 0
    match shipments.find? fun shipment => shipment.manifest = head with
    | some shipment => return nextLsn shipment.commitLsn
    | none => throw (.followerUnknown (S.manifestHex head))

/-- `WalSource::manifest_at`: the primary's manifest as of an LSN. The shipments
are read up to the first one past it. -/
def manifestAt (lsn : Lsn) : Except (SyncError S) (Option S.ManifestId) := do
  let shipments ← src.shipmentsFrom 0
  return ((shipments.takeWhile fun shipment => shipment.commitLsn ≤ lsn).map
    Shipment.manifest).getLast?

end WalSource

end FlockDb
