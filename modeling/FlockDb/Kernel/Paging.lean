import FlockDb.Library.Chunks
import FlockDb.Substrate.PageStore
import FlockDb.Sync.Shipment

/-!
# Files and pages

The kernel keeps a database file as pages: logical page `i` holds the `i`-th chunk
of the file and nothing else records its length. `hydrate` writes the pages of a
manifest out as a file, `persist` reads a file back and commits what changed.
-/

namespace FlockDb

/-- `KernelError`, everything that can go wrong in the kernel. `D` stands for
`duckdb::Error`. -/
inductive KernelError (S : Substrate) (D : Type) where
  | sql (sql : String) (source : D)
  | open (path : String) (source : D)
  | scratch (op path : String) (source : IoError)
  | store (op : String) (source : S.Error)
  | corruptLayout (manifest : S.ManifestId) (pageNo : PageNo) (expectedOffset actualOffset : ℕ)
  | export (path reason : String)

/-- Which scratch-file calls fail, and what a failed write leaves at the path. -/
structure ScratchFaults where
  write : Option (IoError × Option Bytes)
  remove : Option IoError

/-- The plan under which scratch-file calls go through. -/
def ScratchFaults.none : ScratchFaults := ⟨Option.none, Option.none⟩

namespace Paging

variable {S : Substrate} {σ D : Type} (ps : PageStore S σ)

/-- The page loop of `hydrate`, over the page numbers in order, with the bytes of
the file so far. Offsets are 64-bit products. -/
def hydratePages (st : σ) (manifest : S.ManifestId) :
    List PageNo → Bytes → Except (KernelError S D) Bytes
  | [], file => .ok file
  | pageNo :: pageNos, file =>
    let expected := pageNo * ps.pageSize st % 2 ^ 64
    if file.length ≠ expected then
      .error (.corruptLayout manifest pageNo expected file.length)
    else
      match ps.read st manifest pageNo with
      | .error source => .error (.store "hydrate" source)
      | .ok page => hydratePages st manifest pageNos (file ++ page)

/-- `paging::hydrate`: write a manifest's pages to a path that may hold a file. -/
def hydrate (st : σ) (manifest : S.ManifestId) (path : String) (faults : ScratchFaults)
    (existing : Option Bytes) : Except (KernelError S D) Unit × Option Bytes :=
  match ps.resolve st manifest with
  | .error source => (.error (.store "hydrate" source), existing)
  | .ok pages =>
    match hydratePages ps st manifest pages.keys [] with
    | .error e => (.error e, existing)
    | .ok [] =>
      -- A new database is handed no file at all, and a leftover is removed.
      match existing with
      | none => (.ok (), none)
      | some _ =>
        match faults.remove with
        | some source => (.error (.scratch "clear scratch file" path source), existing)
        | none => (.ok (), none)
    | .ok file =>
      match faults.write with
      | some (source, left) => (.error (.scratch "write hydrated database" path source), left)
      | none => (.ok (), some file)

/-- The chunk loop of `persist`: a page that reads back equal does not enter the
transaction. -/
def stageChunks (old : PageMap S.PageId) (head : S.ManifestId) :
    List (Bytes × PageNo) → σ → S.Txn → Except (KernelError S D) S.Txn × σ
  | [], st, txn => (.ok txn, st)
  | (chunk, pageNo) :: chunks, st, txn =>
    let existing : Except S.Error (Option Bytes) :=
      if pageNo ∈ old then (ps.read st head pageNo).map some else .ok none
    match existing with
    | .error source => (.error (.store "checkpoint" source), st)
    | .ok existing =>
      if existing = some chunk then stageChunks old head chunks st txn
      else
        match ps.write st txn pageNo chunk with
        | (.error source, st) => (.error (.store "checkpoint" source), st)
        | (.ok (_, txn), st) => stageChunks old head chunks st txn

/-- The removal loop of `persist`, over the pages past the new end. -/
def stageRemovals (st : σ) : List PageNo → S.Txn → Except (KernelError S D) S.Txn
  | [], txn => .ok txn
  | pageNo :: pageNos, txn =>
    match ps.remove st txn pageNo with
    | .error source => .error (.store "checkpoint" source)
    | .ok txn => stageRemovals st pageNos txn

/-- `paging::persist`: commit the pages that differ from the file at a path, and
return the new head. -/
def persist (st : σ) (path : String) (file : Except IoError ByteVec) :
    Except (KernelError S D) S.ManifestId × σ :=
  let head := ps.head st
  match file with
  | .error source => (.error (.scratch "read database for checkpoint" path source), st)
  | .ok file =>
    match ps.resolve st head with
    | .error source => (.error (.store "checkpoint" source), st)
    | .ok old =>
      match ps.begin st with
      | .error source => (.error (.store "checkpoint" source), st)
      | .ok txn =>
        let chunks := Chunks.chunks (ps.pageSize st) file.bytes
        match stageChunks ps old head chunks.zipIdx st txn with
        | (.error e, st) => (.error e, st)
        | (.ok txn, st) =>
          match stageRemovals ps st (old.keys.filter fun n => chunks.length ≤ n) txn with
          | .error e => (.error e, st)
          | .ok txn =>
            match ps.commit st txn with
            | (.error source, st) => (.error (.store "checkpoint" source), st)
            | (.ok manifest, st) => (.ok manifest, st)

end Paging

end FlockDb
