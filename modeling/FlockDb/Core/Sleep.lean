import FlockDb.Core.Db

/-!
# Putting a database to sleep

`Db::sleep` takes a last snapshot, drops the kernel, copies the ancestry of the head into
a staging store of its own and uploads that. It consumes the handle whether or not it
succeeds, and it only reads from the pool.
-/

namespace FlockDb

/-- Which calls on the staging store and the bucket fail. -/
structure SleepFaults (S : Substrate) where
  stage : Option IoError
  openStaging : Option S.Error
  putManifest : S.ManifestId → Option S.Error
  putPage : S.PageId → Option S.Error
  position : Option S.Error
  upload : Option S.Error

/-- `WakeToken`: what remains of a sleeping database. -/
structure WakeToken (S : Substrate) where
  pool : String
  manifest : S.ManifestId
  pageSize : ℕ

/-- The walk over a head's ancestry: what it has seen and staged, and the pages to copy. -/
structure Walk (S : Substrate) where
  seen : List S.ManifestId
  manifests : List (S.ManifestId × Manifest S.ManifestId)
  pageIds : List S.PageId

/-- A woken database's home: the staged manifests and pages, uploaded. -/
structure Uploaded (S : Substrate) where
  token : WakeToken S
  manifests : List (S.ManifestId × Manifest S.ManifestId)
  pages : List Bytes

namespace Db

variable {S : Substrate} {E : Engine}

/-- The edges of a manifest that the walk follows: the parent is popped first. -/
def walkEdges (manifest : Manifest S.ManifestId) (stack : List S.ManifestId) :
    List S.ManifestId :=
  manifest.parent.toList ++ manifest.overlayBase.toList ++ stack

/-- The walk of `sleep` over the ancestry of a head; `none` if it is not done yet. -/
def walkAncestry (faults : SleepFaults S) (cas : S.Cas) :
    ℕ → List S.ManifestId → Walk S → Except (FlockError S E) (Option (Walk S))
  | _, [], walk => .ok (some walk)
  | 0, _ :: _, _ => .ok none
  | fuel + 1, id :: stack, walk =>
    if id ∈ walk.seen then walkAncestry faults cas fuel stack walk
    else
      match S.manifest cas id with
      | .error source => .error (.pager "read manifest" source)
      | .ok manifest =>
        match S.resolve cas id with
        | .error source => .error (.pager "resolve manifest" source)
        | .ok pages =>
          match faults.putManifest id with
          | some source => .error (.pager "stage manifest" source)
          | none =>
            walkAncestry faults cas fuel (walkEdges manifest stack)
              { seen := id :: walk.seen
                manifests := walk.manifests ++ [(id, manifest)]
                pageIds := (walk.pageIds ++ pages.values).dedup }

/-- The copy of the pages into the staging store. -/
def stagePages (faults : SleepFaults S) (cas : S.Cas) :
    List S.PageId → List Bytes → Except (FlockError S E) (List Bytes)
  | [], staged => .ok staged
  | id :: ids, staged =>
    match S.get cas id with
    | .error source => .error (.pager "read page for upload" source)
    | .ok page =>
      match faults.putPage id with
      | some source => .error (.pager "stage page for upload" source)
      | none => stagePages faults cas ids (staged ++ [page])

/-- `sleep` after its snapshot: stage the ancestry of the head and upload it. -/
def upload (faults : SleepFaults S) (cas : S.Cas) (fuel : ℕ) (root remotePool : String)
    (pageSize : ℕ) (head : S.ManifestId) : Except (FlockError S E) (Option (Uploaded S)) :=
  match faults.stage with
  | some source => .error (.pool "stage for sleep" root source)
  | none =>
    match faults.openStaging with
    | some source => .error (.tier "open the staging store" source)
    | none =>
      match (walkAncestry faults cas fuel [head] ⟨[], [], []⟩ :
          Except (FlockError S E) (Option (Walk S))) with
      | .error e => .error e
      | .ok none => .ok none
      | .ok (some walk) =>
        match (stagePages faults cas walk.pageIds [] : Except (FlockError S E) (List Bytes)) with
        | .error e => .error e
        | .ok pages =>
          match faults.position with
          | some source => .error (.pager "position the staging store" source)
          | none =>
            match faults.upload with
            | some source => .error (.tier "sleep" source)
            | none => .ok (some ⟨⟨remotePool, head, pageSize⟩, walk.manifests, pages⟩)

/-- `Db::sleep`. The handle is gone afterwards, so only the pool is left. -/
def sleep (env : Env S E) (faults : SleepFaults S) (fuel : ℕ) (db : Db S E) (pool : Pool S)
    (remotePool : String) : Except (FlockError S E) (Option (Uploaded S)) × Pool S :=
  match db.snapshot env pool with
  | (.error e, _, pool) => (.error e, pool)
  | (.ok head, db, pool) =>
    match db.store with
    | .local _ => (upload faults pool.cas fuel pool.root remotePool pool.pageSize head, pool)
    | .tiered pager => (upload faults pager.cas fuel pool.root remotePool pager.pageSize head, pool)

end Db

end FlockDb
