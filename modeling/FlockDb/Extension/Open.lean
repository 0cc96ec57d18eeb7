import FlockDb.Core.Wake
import FlockDb.Extension.PlainFiles
import FlockDb.Extension.Uri

/-!
# Opening a sleeping database from its URI

The file system takes a URI apart and hands its fields over the C interface, where each of them is
checked again before the database is woken. What a sleep left in a bucket is then the file that the
engine reads: the main file of the database, as it was when it went to sleep.
-/

namespace FlockDb

open Paging Runs

variable {S : Substrate} {E : Engine} {B : Type}

/-- A pointer to a NUL-terminated string, as the bytes before the NUL; `none` is the null
pointer. -/
abbrev CStr := Option Bytes

/-- The variants of `VfsError` that only `flock_vfs_open` reaches. -/
inductive OpenError (S : Substrate) where
  | badFfiArgument (what detail : String)
  | runtime (detail : String)
  | tierConfig (detail : String)
  | wake (source : S.Error)

/-- The settings of an `AmazonS3Builder`. -/
structure S3Config where
  endpoint : String
  allowHttp : Bool
  bucketName : String
  region : String
  accessKeyId : Option String
  secretAccessKey : Option String

/-- `RemoteTier`: an object store, and the pool that its keys begin with. -/
structure RemoteTier (B : Type) where
  backend : B
  pool : String

/-- What `flock_vfs_open` finds outside of it: how the crate was built, the environment, the
object stores, the file system, the runtime and substrate's wake into a cache directory. -/
structure OpenEnv (S : Substrate) (B : Type) where
  s3 : Bool
  var : String → Option String
  localFileSystem : String → Except String B
  amazonS3 : S3Config → Except String B
  fromHex : String → Except String S.ManifestId
  createDirAll : String → Option String
  runtime : Option String
  wake : String → RemoteTier B → WakeToken S → Except S.Error S.Cas

/-- `S3_URL_ENV`. -/
def s3UrlEnv : String := "FLOCK_VFS_S3_URL"

/-- `local_tier`. -/
def localTier (env : OpenEnv S B) (remoteDir pool : String) :
    Except (OpenError S) (RemoteTier B) :=
  match env.localFileSystem remoteDir with
  | .error e => .error (.tierConfig ("could not open '" ++ remoteDir ++
      "' as a local object-store tier: " ++ e ++ ". Create the directory, or set " ++ s3UrlEnv ++
      " to fault from an S3-compatible store instead"))
  | .ok backend => .ok ⟨backend, pool⟩

/-- `s3_tier`. -/
def s3Tier (env : OpenEnv S B) (pool : String) : Except (OpenError S) (RemoteTier B) :=
  match env.var s3UrlEnv with
  | none => .error (.tierConfig (s3UrlEnv ++ " is not set; it is required to select the S3 tier"))
  | some url =>
    let config : S3Config :=
      { endpoint := url
        allowHttp := true
        bucketName := (env.var "FLOCK_VFS_S3_BUCKET").getD "flockdb"
        region := (env.var "FLOCK_VFS_S3_REGION").getD "us-east-1"
        accessKeyId := env.var "FLOCK_VFS_S3_KEY_ID"
        secretAccessKey := env.var "FLOCK_VFS_S3_SECRET" }
    match env.amazonS3 config with
    | .error e => .error (.tierConfig ("could not build the S3 tier from " ++ s3UrlEnv ++
        " and its companions: " ++ e ++ ". Check the endpoint URL, bucket, and credentials"))
    | .ok backend => .ok ⟨backend, pool⟩

/-- `remote_tier`. -/
def remoteTier (env : OpenEnv S B) (remoteDir pool : String) :
    Except (OpenError S) (RemoteTier B) :=
  if env.s3 ∧ (env.var s3UrlEnv).isSome then s3Tier env pool else localTier env remoteDir pool

/-- `cstr`. -/
def cstr (ptr : CStr) (what : String) : Except (OpenError S) String :=
  match ptr with
  | none => .error (.badFfiArgument what
      "it was a null pointer — pass a valid NUL-terminated string")
  | some bytes =>
    match String.fromUTF8? ⟨bytes.toArray⟩ with
    | none => .error (.badFfiArgument what "it was not valid UTF-8")
    | some s => .ok s

/-- `open_inner`. -/
def openInner (env : OpenEnv S B) (remoteDir cacheDir pool manifestHex : CStr) (pageSize : ℕ)
    (totalLen : UInt64) : Except (OpenError S) (FlockVfs (TieredPageSource S)) := do
  let remoteDir ← cstr remoteDir "remote directory path"
  let cacheDir ← cstr cacheDir "cache directory path"
  let pool ← cstr pool "pool name"
  let manifestHex ← cstr manifestHex "manifest id"
  if pageSize = 0 then
    throw (.badFfiArgument "page size"
      "it was 0 — pass the `page_size` from the database's WakeToken")
  let manifest ← (env.fromHex manifestHex).mapError fun e =>
    .badFfiArgument "manifest id" (e ++ "; expected the 64-char hex id from the sleep record")
  if let some e := env.createDirAll cacheDir then
    throw (.badFfiArgument "cache directory path" ("could not create it: " ++ e))
  let remote ← remoteTier env remoteDir pool
  if let some e := env.runtime then
    throw (.runtime ("could not build the multi-threaded tokio runtime: " ++ e))
  let cas ← (env.wake cacheDir remote ⟨pool, manifest, pageSize⟩).mapError .wake
  return ⟨⟨⟨cas, manifest, pageSize⟩, totalLen⟩, totalLen⟩

/-- `flock_vfs_open`: the database, or a null pointer and a message elsewhere. -/
def flockVfsOpen (env : OpenEnv S B) (remoteDir cacheDir pool manifestHex : CStr) (pageSize : ℕ)
    (totalLen : UInt64) : Option (FlockVfs (TieredPageSource S)) :=
  (openInner env remoteDir cacheDir pool manifestHex pageSize totalLen).toOption

namespace Extension

/-- `c_str`: what is read of a string up to its first NUL. -/
def cStr (text : Text) : CStr :=
  some (String.ofList (text.takeWhile (· ≠ '\x00'))).toUTF8.data.toList

/-- What `OpenFile` wakes for a path. The exceptions of the parser are not told apart. -/
def wakeUri (env : OpenEnv S B) (path : String) :
    Except FlockException (Option (FlockVfs (TieredPageSource S))) :=
  match parseFlockUri path.toList with
  | .error _ => .error .invalidInput
  | .ok uri => .ok (flockVfsOpen env (cStr uri.remoteDir) (cStr uri.cacheDir) (cStr uri.pool)
      (cStr uri.manifestHex) uri.pageSize (UInt64.ofNat uri.totalLen))

/-- A string without a NUL comes over the C interface as it is. -/
theorem cstr_cStr {text : Text} (h : '\x00' ∉ text) (what : String) :
    (cstr (cStr text) what : Except (OpenError S) String) = .ok (String.ofList text) := by
  have hwhole : text.takeWhile (· ≠ '\x00') = text := by
    rw [List.takeWhile_eq_self_iff]
    exact fun c hc => decide_eq_true fun hnul => h (hnul ▸ hc)
  have hvalid : ByteArray.IsValidUTF8 (String.ofList text).toUTF8 :=
    (String.ofList text).isValidUTF8
  simp only [cstr, cStr, hwhole, Array.toArray_toList, String.fromUTF8?, dif_pos hvalid]
  rfl

/-- An open that finds what a sleep uploaded: the fields of the URI name it, they come over the C
interface, and the wake finds it in the object store that they lead to. -/
structure Finds (env : OpenEnv S B) (wake : Uploaded S → S.Cas) (uri : FlockUri)
    (uploaded : Uploaded S) : Prop where
  fromHex_eq : env.fromHex (.ofList uri.manifestHex) = .ok uploaded.token.manifest
  pool_eq : String.ofList uri.pool = uploaded.token.pool
  pageSize_eq : uri.pageSize = uploaded.token.pageSize
  nul_notMem : '\x00' ∉ uri.remoteDir ∧ '\x00' ∉ uri.cacheDir ∧ '\x00' ∉ uri.pool ∧
    '\x00' ∉ uri.manifestHex
  createDirAll_eq : env.createDirAll (.ofList uri.cacheDir) = none
  runtime_eq : env.runtime = none
  wakes : ∃ tier, remoteTier env (.ofList uri.remoteDir) uploaded.token.pool = .ok tier ∧
    env.wake (.ofList uri.cacheDir) tier uploaded.token = .ok (wake uploaded)

/-- Where an open finds what a sleep uploaded, a URI of the grammar wakes it. -/
theorem wakeUri_of_finds {env : OpenEnv S B} {wake : Uploaded S → S.Cas} {uri : FlockUri}
    {uploaded : Uploaded S} (h : Finds env wake uri uploaded) (hpos : 0 < uploaded.token.pageSize)
    {path : String} {query pageSize totalLen : Text}
    (hgrammar : InGrammar path.toList uri query pageSize totalLen) :
    wakeUri env path = .ok (some ⟨⟨⟨wake uploaded, uploaded.token.manifest,
      uploaded.token.pageSize⟩, .ofNat uri.totalLen⟩, .ofNat uri.totalLen⟩) := by
  obtain ⟨hremote, hcache, hpool, hmanifest⟩ := h.nul_notMem
  obtain ⟨tier, htier, hwake⟩ := h.wakes
  have hnonzero : ¬uploaded.token.pageSize = 0 := hpos.ne'
  simp only [wakeUri, parseFlockUri_of_inGrammar hgrammar, flockVfsOpen, openInner,
    cstr_cStr hremote, cstr_cStr hcache, cstr_cStr hpool, cstr_cStr hmanifest, h.fromHex_eq,
    h.pool_eq, h.pageSize_eq, h.createDirAll_eq, h.runtime_eq, htier, hwake, if_neg hnonzero,
    bind, Except.bind, Except.mapError]
  rfl

/-- A call that opens a path, which names what a sleep uploaded if it wakes to anything, and says
the length of its file; or a call that the engine makes on an open file. Paths of logs, and paths
that are opened for writing, are not woken. -/
def Names (B : Type) (wake : Uploaded S → S.Cas) (uploaded : Uploaded S) (length : ℕ) :
    SessionCall (TieredPageSource S) → Prop
  | .openFile path forWriting woken => forWriting = true ∨ isWalPath path = true ∨
    ∀ vfs, woken = .ok (some vfs) →
      ∃ (env : OpenEnv S B) (uri : FlockUri) (query pageSize totalLen : Text),
        Finds env wake uri uploaded ∧ uri.totalLen = length ∧
          InGrammar path.toList uri query pageSize totalLen ∧ woken = wakeUri env path
  | .call _ c => c.Valid
  | _ => True

/-- **What a sleeping database serves.** After any run on a pool a database goes to sleep. From then
on every URI that names it, its `len` being the length of the file, opens the main file that the
last snapshot left, from which any kernel that connects has the content the database had: however
many handles are open, whichever opens fail, and in whatever order the handles are read, moved and
closed as an engine does, they answer as plain read-only files with those bytes do. -/
theorem served_of_sleep (B : Type) (hS : S.Laws) (hE : E.Laws) {wake : Uploaded S → S.Cas}
    (hwake : S.Wakes wake) {pool : Pool S} (hpos : 0 < pool.pageSize)
    (hfits : pool.pageSize < 2 ^ 64) (ops : List (Op S E)) {name : String} {db : Db S E}
    (hdb : (run World.step (World.start pool) ops).2.handles name = some db) {env : Env S E}
    {faults : SleepFaults S} {fuel : ℕ} {remotePool : String} {uploaded : Uploaded S}
    {left : Pool S}
    (hslept : db.sleep env faults fuel (run World.step (World.start pool) ops).2.pool remotePool =
      (.ok (some uploaded), left)) :
    ∃ file : ByteVec,
      E.mainFile (db.snapshot env
        (run World.step (World.start pool) ops).2.pool).2.1.kernel.conn = .ok file ∧
      (∀ config conn, E.openWithFlags (some file.bytes) config = .ok conn →
        E.content conn = E.content db.kernel.conn) ∧
      ∀ calls : List (SessionCall (TieredPageSource S)),
        (∀ c ∈ calls, Names B wake uploaded file.bytes.length c) →
        (run (Session.step tieredPageSource) Session.start calls).1 =
          (run (plainStep fun _ => file.bytes) Heap.empty calls).1 := by
  obtain ⟨-, hlocal, -⟩ := World.filed_run hS (World.filed_start pool) ops name db hdb
  obtain ⟨head, hhead, htoken, hcarries⟩ := Db.carries_of_sleep hS hlocal hslept
  have hpageSize : (run World.step (World.start pool) ops).2.pool.pageSize = pool.pageSize :=
    (World.onward_run hS (World.start pool) ops).pageSize_eq
  rw [hpageSize] at htoken
  rcases hsnapshot : db.snapshot env (run World.step (World.start pool) ops).2.pool with
    ⟨e | head', db', pool'⟩
  · rw [hsnapshot] at hhead
    cases hhead
  rw [hsnapshot] at hhead hcarries
  obtain rfl : head' = head := Except.ok.inj hhead
  obtain ⟨hbeside, -, -⟩ :=
    Db.beside_snapshot hS env db (run World.step (World.start pool) ops).2.pool
  rw [hsnapshot] at hbeside
  obtain ⟨file, hmain, hcaptures⟩ := (snapshotted_of_ok hS hE hlocal hsnapshot).captures
  refine ⟨file, hmain, hcaptures.content_eq, fun calls hcalls => ?_⟩
  -- The pages of the snapshot came along, so that a source of the woken store has the file's.
  have hholds : S.Holds (wake uploaded) head' :=
    hcarries.holds hS.toContentAddressed hwake .refl
  have hstores : S.Stores (wake uploaded) head' (chunkMap pool.pageSize file) := by
    rw [← hpageSize, ← hbeside.pageSize_eq]
    exact Db.stores_of_holds hS.toContentAddressed hcaptures.stores hholds
  have hserves (length : UInt64) : ServesFile tieredPageSource pool.pageSize file.bytes
      (⟨⟨wake uploaded, head', pool.pageSize⟩, length⟩ : TieredPageSource S) := by
    have hreads : (tieredHandle .none 0).Reads ⟨wake uploaded, head', pool.pageSize⟩ head'
        (chunkMap pool.pageSize file) := hstores
    exact tieredPageSource_servesFile hS.toContentAddressed .none 0 hpos hfits length hreads
  refine Session.refines_plain_files fun c hc => ?_
  have hnames := hcalls c hc
  cases c with
  | openFile path forWriting woken =>
    refine hnames.imp id (Or.imp id fun hwoken vfs hvfs => ?_)
    obtain ⟨outside, uri, query, pageSize, totalLen, hfinds, hlength, hgrammar, rfl⟩ :=
      hwoken vfs hvfs
    rw [wakeUri_of_finds hfinds (htoken ▸ hpos) hgrammar, htoken, hlength] at hvfs
    cases hvfs
    exact ⟨pool.pageSize, UInt64.toNat_ofNat_of_lt' (file.length_lt.trans (by decide)),
      hserves _⟩
  | call address c => exact hnames
  | getFileSize address => trivial
  | write address => trivial
  | close address => trivial
  | destroy address => trivial

/-- The bucket of one database. -/
def bucketEnv (uploaded : Uploaded (memory [])) : OpenEnv (memory []) (Uploaded (memory [])) where
  s3 := false
  var := fun _ => none
  localFileSystem := fun _ => .ok uploaded
  amazonS3 := fun _ => .error "no such bucket"
  fromHex := fun hex => if hex = "00" then .ok uploaded.token.manifest else .error "no such id"
  createDirAll := fun _ => none
  runtime := none
  wake := fun _ tier _ => .ok (Memory.wake tier.backend)

/-- The URI of the database that went to sleep after it was restored to its first snapshot. -/
def salesUri : String := "flock:/bucket/00?len=2&page_size=4&cache=/c&remote=/r"

/-- What the URI says. -/
def salesFields : FlockUri :=
  ⟨"bucket".toList, "00".toList, "/r".toList, "/c".toList, 4, 2⟩

/-- The URI is in the grammar. -/
theorem inGrammar_salesUri : InGrammar salesUri.toList salesFields
    "len=2&page_size=4&cache=/c&remote=/r".toList (Nat.toDigits 10 4) (Nat.toDigits 10 2) where
  splits := ⟨⟨1, by decide +kernel⟩, by decide, by decide, by decide, by decide⟩
  manifestHex_ne_nil := by decide
  remote_present := ⟨by decide +kernel, by decide⟩
  cache_present := ⟨by decide +kernel, by decide⟩
  pageSize_present := ⟨by decide +kernel, Nat.toDigits_ne_nil⟩
  pageSize_numeral := numeral_toDigits (by decide)
  totalLen_present := ⟨by decide +kernel, Nat.toDigits_ne_nil⟩
  totalLen_numeral := numeral_toDigits (by decide)

/-- The bucket where there are no threads to wake anything with. -/
def threadlessEnv (uploaded : Uploaded (memory [])) : OpenEnv (memory []) (Uploaded (memory [])) :=
  { bucketEnv uploaded with runtime := some "out of threads" }

/-- Without threads the URI wakes to nothing. -/
theorem wakeUri_threadless (uploaded : Uploaded (memory [])) :
    wakeUri (threadlessEnv uploaded) salesUri = .ok none := by
  obtain ⟨hremote, hcache, hpool, hmanifest⟩ : '\x00' ∉ salesFields.remoteDir ∧
      '\x00' ∉ salesFields.cacheDir ∧ '\x00' ∉ salesFields.pool ∧
        '\x00' ∉ salesFields.manifestHex := by decide
  simp only [wakeUri, parseFlockUri_of_inGrammar inGrammar_salesUri, flockVfsOpen, openInner,
    cstr_cStr hremote, cstr_cStr hcache, cstr_cStr hpool, cstr_cStr hmanifest, bind, Except.bind,
    Except.mapError]
  rfl

/-- Of that database one handle reads two bytes at the start and another one the second byte,
after an open that failed. -/
def salesCalls (uploaded : Uploaded (memory [])) :
    List (SessionCall (TieredPageSource (memory []))) :=
  [.openFile salesUri false (wakeUri (threadlessEnv uploaded) salesUri),
    .openFile salesUri false (wakeUri (bucketEnv uploaded) salesUri),
    .openFile salesUri false (wakeUri (bucketEnv uploaded) salesUri),
    .call 0 (.read [9, 9, 9] 3), .call 1 (.readAt [9] 1 1)]

/-- They read what the first snapshot left: the header and a six. -/
theorem served_of_sleep_sales : ∃ db uploaded left,
    (run World.step (World.start World.emptyPool) World.backToFirst).2.handles "sales" = some db ∧
    db.sleep .none World.sleepFaults 9
        (run World.step (World.start World.emptyPool) World.backToFirst).2.pool "bucket" =
      (.ok (some uploaded), left) ∧
    (run (Session.step tieredPageSource) Session.start (salesCalls uploaded)).1 =
      [.ok (.threw .wakeFailed), .ok (.opened 0), .ok (.opened 1),
        .ok (.answered (.ok (.count 2 [0, 6, 9]))), .ok (.answered (.ok (.filled [6])))] := by
  obtain ⟨db, uploaded, left, hdb, hslept, htoken, hmain⟩ : ∃ db uploaded left,
      (run World.step (World.start World.emptyPool) World.backToFirst).2.handles "sales" =
        some db ∧
      db.sleep .none World.sleepFaults 9
          (run World.step (World.start World.emptyPool) World.backToFirst).2.pool "bucket" =
        (.ok (some uploaded), left) ∧
      uploaded.token = ⟨"bucket", World.firstSnapshot, 4⟩ ∧
      memoryEngine.mainFile (db.snapshot .none (run World.step (World.start World.emptyPool)
        World.backToFirst).2.pool).2.1.kernel.conn = .ok ⟨[0, 6], by decide⟩ :=
    ⟨_, _, _, rfl, rfl, rfl, rfl⟩
  obtain ⟨file, hfile, -, hserved⟩ := served_of_sleep (Uploaded (memory [])) (Memory.laws [])
    memoryEngine_laws (Memory.wakes []) (by decide : 0 < World.emptyPool.pageSize) (by decide)
    World.backToFirst hdb hslept
  obtain rfl : file = ⟨[0, 6], by decide⟩ := Except.ok.inj (hfile.symm.trans hmain)
  have hfinds : Finds (bucketEnv uploaded) Memory.wake salesFields uploaded :=
    ⟨by simp [bucketEnv, salesFields], congrArg WakeToken.pool htoken.symm,
      congrArg WakeToken.pageSize htoken.symm, by decide, rfl, rfl, ⟨uploaded, "bucket"⟩,
      by rw [htoken]; rfl, rfl⟩
  have hopen : Names (Uploaded (memory [])) Memory.wake uploaded 2
      (.openFile salesUri false (wakeUri (bucketEnv uploaded) salesUri)) :=
    .inr (.inr fun _ _ =>
      ⟨bucketEnv uploaded, salesFields, _, _, _, hfinds, rfl, inGrammar_salesUri, rfl⟩)
  have hfailing : Names (Uploaded (memory [])) Memory.wake uploaded 2
      (.openFile salesUri false (wakeUri (threadlessEnv uploaded) salesUri)) := by
    refine .inr (.inr fun vfs hvfs => ?_)
    rw [wakeUri_threadless] at hvfs
    cases hvfs
  have hcall {address : ℕ} {c : FileCall} (h : c.Valid) :
      Names (Uploaded (memory [])) Memory.wake uploaded 2 (.call address c) := h
  have hnames : ∀ c ∈ salesCalls uploaded,
      Names (Uploaded (memory [])) Memory.wake uploaded 2 c := by
    simp only [salesCalls, List.forall_mem_cons]
    exact ⟨hfailing, hopen, hopen, hcall (by decide), hcall (by decide), fun _ h => by cases h⟩
  refine ⟨db, uploaded, left, hdb, hslept, ?_⟩
  rw [hserved _ hnames, salesCalls, wakeUri_threadless,
    wakeUri_of_finds hfinds (by rw [htoken]; decide) inGrammar_salesUri]
  rfl

end Extension

end FlockDb
