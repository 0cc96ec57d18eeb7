import FlockDb.Kernel.RoundTrip

/-!
# The kernel

`DuckDbKernel` is DuckDB over a scratch file over a page store. DuckDB itself is not
part of the repository: it is a parameter, with the calls the kernel makes and what its
documentation says about a `CHECKPOINT`. The scratch directory, the file-system calls and
DuckDB may fail on their own; a plan says which calls do.
-/

namespace FlockDb

/-- `KernelOpts`. -/
structure KernelOpts where
  threads : Option ℤ
  maxMemory : Option String

/-- DuckDB as the kernel sees it. A connection stands for its session and the files at
its path; its content is what the catalog and the tables hold. -/
structure Engine where
  Config : Type
  Connection : Type
  Error : Type
  Batches : Type
  Content : Type
  /-- `Config::default`. -/
  defaultConfig : Config
  /-- `Config::threads`. -/
  threads : Config → ℤ → Except Error Config
  /-- `Config::max_memory`. -/
  maxMemory : Config → String → Except Error Config
  /-- `Connection::open_with_flags`, on a path that holds a file or nothing. -/
  openWithFlags : Option Bytes → Config → Except Error Connection
  /-- `Connection::execute_batch`. -/
  executeBatch : Connection → String → Except Error Unit × Connection
  /-- `Connection::execute`. -/
  execute : Connection → String → Except Error ℕ × Connection
  /-- `Connection::prepare` and `Statement::query_arrow`. -/
  queryArrow : Connection → String → Except Error Batches × Connection
  /-- The main database file. -/
  mainFile : Connection → Except IoError ByteVec
  /-- The length of the log that DuckDB keeps next to its main file, if there is one. -/
  walLen : Connection → Option ℕ
  /-- What the database holds. -/
  content : Connection → Content

/-- What the kernel relies on of DuckDB: a `CHECKPOINT` changes no content, and once it
went through and left no log behind, the main file alone is the whole database. -/
structure Engine.Laws (E : Engine) : Prop where
  content_checkpoint : ∀ conn, E.content (E.executeBatch conn "CHECKPOINT").2 = E.content conn
  mainFile_ne_nil : ∀ {conn conn' file}, E.executeBatch conn "CHECKPOINT" = (.ok (), conn') →
    E.mainFile conn' = .ok file → file.bytes ≠ []
  content_open : ∀ {conn conn' file config conn''},
    E.executeBatch conn "CHECKPOINT" = (.ok (), conn') → (E.walLen conn').getD 0 = 0 →
    E.mainFile conn' = .ok file → E.openWithFlags (some file.bytes) config = .ok conn'' →
    E.content conn'' = E.content conn'

/-- What the kernel relies on of DuckDB besides: a main file that a `CHECKPOINT` left without
a log opens again. -/
structure Engine.Reopens (E : Engine) : Prop where
  openWithFlags : ∀ {conn conn' file},
    E.executeBatch conn "CHECKPOINT" = (.ok (), conn') → (E.walLen conn').getD 0 = 0 →
    E.mainFile conn' = .ok file →
    ∃ conn'', E.openWithFlags (some file.bytes) E.defaultConfig = .ok conn''

/-- Which calls of the kernel fail on their own, and where scratch directories go. -/
structure KernelFaults (E : Engine) where
  scratchDir : String
  tempDir : Option IoError
  scratch : ScratchFaults
  connect : Option E.Error
  checkpoint : Option E.Error
  stat : Option IoError
  readMain : Option IoError

/-- The plan under which every call of the kernel goes through. -/
def KernelFaults.none {E : Engine} : KernelFaults E :=
  ⟨"/tmp", Option.none, .none, Option.none, Option.none, Option.none, Option.none⟩

/-- `DuckDbKernel`, without the store handle it holds: a connection and its path. -/
structure DuckDbKernel (E : Engine) where
  conn : E.Connection
  path : String

namespace DuckDbKernel

variable {S : Substrate} {E : Engine} {σ : Type} (ps : PageStore S σ)

/-- The configuration that `open` builds from its options. -/
def config (opts : KernelOpts) (path : String) : Except (KernelError S E.Error) E.Config :=
  let threaded : Except E.Error E.Config :=
    match opts.threads with
    | some n => E.threads E.defaultConfig n
    | none => .ok E.defaultConfig
  match threaded with
  | .error source => .error (.open path source)
  | .ok config =>
    match opts.maxMemory with
    | none => .ok config
    | some limit =>
      match E.maxMemory config limit with
      | .error source => .error (.open path source)
      | .ok config => .ok config

/-- The second half of `open`: a connection to the hydrated scratch file. -/
def connect (opts : KernelOpts) (faults : KernelFaults E) (path : String) (file : Option Bytes) :
    Except (KernelError S E.Error) (DuckDbKernel E) :=
  match config opts path with
  | .error e => .error e
  | .ok config =>
    match faults.connect with
    | some source => .error (.open path source)
    | none =>
      match E.openWithFlags file config with
      | .error source => .error (.open path source)
      | .ok conn => .ok ⟨conn, path⟩

/-- `DuckDbKernel::open`: hydrate the head into a new scratch directory and connect. -/
def «open» (st : σ) (opts : KernelOpts) (faults : KernelFaults E) :
    Except (KernelError S E.Error) (DuckDbKernel E) :=
  match faults.tempDir with
  | some source => .error (.scratch "create scratch dir" "$TMPDIR" source)
  | none =>
    let path := faults.scratchDir ++ "/flock.duckdb"
    match Paging.hydrate ps st (ps.head st) path faults.scratch none with
    | (.error e, _) => .error e
    | (.ok (), file) => connect opts faults path file

/-- `DuckDbKernel::execute_batch`. -/
def executeBatch (kernel : DuckDbKernel E) (sql : String) :
    Except (KernelError S E.Error) Unit × DuckDbKernel E :=
  match E.executeBatch kernel.conn sql with
  | (.error source, conn) => (.error (.sql sql source), { kernel with conn })
  | (.ok (), conn) => (.ok (), { kernel with conn })

/-- `DuckDbKernel::execute`. -/
def execute (kernel : DuckDbKernel E) (sql : String) :
    Except (KernelError S E.Error) ℕ × DuckDbKernel E :=
  match E.execute kernel.conn sql with
  | (.error source, conn) => (.error (.sql sql source), { kernel with conn })
  | (.ok n, conn) => (.ok n, { kernel with conn })

/-- `DuckDbKernel::query`. -/
def query (kernel : DuckDbKernel E) (sql : String) :
    Except (KernelError S E.Error) E.Batches × DuckDbKernel E :=
  match E.queryArrow kernel.conn sql with
  | (.error source, conn) => (.error (.sql sql source), { kernel with conn })
  | (.ok batches, conn) => (.ok batches, { kernel with conn })

/-- What `fold_wal_into_main_file` says when DuckDB left a log behind. -/
def walNotEmpty (len : ℕ) (wal : String) : String :=
  "DuckDB left " ++ toString len ++ " bytes in " ++ wal ++
    " after a CHECKPOINT. FlockDB pages up the main database file only, so committing now " ++
    "would durably lose whatever is in that WAL. Refusing. This is a FlockDB bug against this " ++
    "DuckDB version, not something you can fix from the outside — please report it. Your data " ++
    "is intact: `Db::export_duckdb` reads through the live DuckDB connection and will still " ++
    "write a complete file."

/-- `fold_wal_into_main_file`: `CHECKPOINT`, and check that DuckDB's log is gone. -/
def foldWalIntoMainFile (kernel : DuckDbKernel E) (faults : KernelFaults E) :
    Except (KernelError S E.Error) Unit × DuckDbKernel E :=
  match faults.checkpoint with
  | some source => (.error (.sql "CHECKPOINT" source), kernel)
  | none =>
    match kernel.executeBatch "CHECKPOINT" with
    | (.error e, kernel) => (.error e, kernel)
    | (.ok (), kernel) =>
      let wal := kernel.path ++ ".wal"
      match faults.stat with
      | some source => (.error (.scratch "stat DuckDB's WAL after CHECKPOINT" wal source), kernel)
      | none =>
        match E.walLen kernel.conn with
        | none => (.ok (), kernel)
        | some 0 => (.ok (), kernel)
        | some (len + 1) =>
          (.error (.scratch "verify DuckDB's WAL is empty after CHECKPOINT" wal
            (.other (walNotEmpty (len + 1) wal))), kernel)

/-- `fs::read` of the main file. -/
def readMain (kernel : DuckDbKernel E) (faults : KernelFaults E) : Except IoError ByteVec :=
  match faults.readMain with
  | some source => .error source
  | none => E.mainFile kernel.conn

/-- `DuckDbKernel::checkpoint`: fold DuckDB's log and persist the main file. -/
def checkpoint (kernel : DuckDbKernel E) (faults : KernelFaults E) (st : σ) :
    Except (KernelError S E.Error) S.ManifestId × DuckDbKernel E × σ :=
  match foldWalIntoMainFile kernel faults with
  | (.error e, kernel) => (.error e, kernel, st)
  | (.ok (), kernel) =>
    let (result, st) := Paging.persist ps st kernel.path (kernel.readMain faults)
    (result, kernel, st)

variable {ps}

/-- A fold leaves the content and the path, and when it goes through the main file alone
is the whole database. -/
theorem foldWalIntoMainFile_spec (hE : E.Laws) (kernel : DuckDbKernel E)
    (faults : KernelFaults E) {result : Except (KernelError S E.Error) Unit × DuckDbKernel E}
    (hresult : foldWalIntoMainFile kernel faults = result) :
    E.content result.2.conn = E.content kernel.conn ∧
      (result.1 = .ok () → ∀ file, E.mainFile result.2.conn = .ok file → file.bytes ≠ [] ∧
        ∀ config conn, E.openWithFlags (some file.bytes) config = .ok conn →
          E.content conn = E.content kernel.conn) := by
  have hcontent := hE.content_checkpoint kernel.conn
  simp only [foldWalIntoMainFile, executeBatch] at hresult
  cases hfault : faults.checkpoint with
  | some source =>
    simp only [hfault] at hresult
    subst hresult
    exact ⟨rfl, fun hok => by cases hok⟩
  | none =>
    simp only [hfault] at hresult
    rcases hbatch : E.executeBatch kernel.conn "CHECKPOINT" with ⟨source | ⟨⟩, conn⟩
    · rw [hbatch] at hcontent
      simp only [hbatch] at hresult
      subst hresult
      exact ⟨hcontent, fun hok => by cases hok⟩
    · rw [hbatch] at hcontent
      simp only [hbatch] at hresult
      have hwhole : (E.walLen conn).getD 0 = 0 → ∀ file, E.mainFile conn = .ok file →
          file.bytes ≠ [] ∧ ∀ config conn', E.openWithFlags (some file.bytes) config = .ok conn' →
            E.content conn' = E.content kernel.conn := fun hwal file hfile =>
        ⟨hE.mainFile_ne_nil hbatch hfile, fun config conn' hopen =>
          (hE.content_open hbatch hwal hfile hopen).trans hcontent⟩
      cases hstat : faults.stat with
      | some source =>
        simp only [hstat] at hresult
        subst hresult
        exact ⟨hcontent, fun hok => by cases hok⟩
      | none =>
        simp only [hstat] at hresult
        cases hwal : E.walLen conn with
        | none =>
          simp only [hwal] at hresult
          subst hresult
          exact ⟨hcontent, fun _ => hwhole (by rw [hwal]; rfl)⟩
        | some len =>
          cases len with
          | zero =>
            simp only [hwal] at hresult
            subst hresult
            exact ⟨hcontent, fun _ => hwhole (by rw [hwal]; rfl)⟩
          | succ len =>
            simp only [hwal] at hresult
            subst hresult
            exact ⟨hcontent, fun hok => by cases hok⟩

/-- A fold that goes through leaves a main file that can be read, or the read of it fails. -/
theorem readMain_ok {kernel : DuckDbKernel E} {faults : KernelFaults E} {file : ByteVec}
    (h : kernel.readMain faults = .ok file) : E.mainFile kernel.conn = .ok file := by
  unfold readMain at h
  cases hfault : faults.readMain with
  | some source =>
    rw [hfault] at h
    cases h
  | none =>
    rw [hfault] at h
    exact h

/-- What holds of every store that only writes moved, and of every such store after one
commit, holds of the store that a checkpoint leaves. -/
theorem checkpoint_rule {W : σ → σ → Prop} {Q : σ → Prop} (hrefl : ∀ st, W st st)
    (htrans : ∀ {st st' st''}, W st st' → W st' st'' → W st st'')
    (hwrite : ∀ st txn p bytes, W st (ps.write st txn p bytes).2) {st : σ}
    (hstaged : ∀ st', W st st' → Q st')
    (hcommit : ∀ st' txn, W st st' → Q (ps.commit st' txn).2) (kernel : DuckDbKernel E)
    (faults : KernelFaults E) : Q (kernel.checkpoint ps faults st).2.2 := by
  unfold checkpoint
  rcases (foldWalIntoMainFile kernel faults :
    Except (KernelError S E.Error) Unit × DuckDbKernel E) with ⟨e | ⟨⟩, kernel'⟩
  · exact hstaged st (hrefl st)
  · exact Paging.persist_rule hrefl htrans hwrite hstaged hcommit _ _

/-- A checkpoint moves its store only through writes and a commit. -/
theorem checkpoint_related {R : σ → σ → Prop} (hrefl : ∀ st, R st st)
    (htrans : ∀ {st st' st''}, R st st' → R st' st'' → R st st'')
    (hwrite : ∀ st txn p bytes, R st (ps.write st txn p bytes).2)
    (hcommit : ∀ st txn, R st (ps.commit st txn).2) (kernel : DuckDbKernel E)
    (faults : KernelFaults E) (st : σ) :
    R st (kernel.checkpoint ps faults st).2.2 :=
  checkpoint_rule hrefl htrans hwrite (fun _ h => h)
    (fun st' txn h => htrans h (hcommit st' txn)) kernel faults

/-- What a successful checkpoint persisted: the main file, which alone has the content of
the connection before the call. -/
structure Persisted (kernel kernel' : DuckDbKernel E) (ps : PageStore S σ) (st' : σ)
    (m : S.ManifestId) (file : ByteVec) : Prop where
  main : E.mainFile kernel'.conn = .ok file
  head_eq : ps.head st' = m
  reads : ps.Reads st' m (Paging.chunkMap (ps.pageSize st') file)
  ne_nil : file.bytes ≠ []
  content_eq : E.content kernel'.conn = E.content kernel.conn
  content_open : ∀ config conn, E.openWithFlags (some file.bytes) config = .ok conn →
    E.content conn = E.content kernel.conn

/-- A checkpoint either persists the main file or leaves the store undisturbed. Neither
changes the content of the connection. -/
theorem checkpoint_spec {Holding : σ → S.Txn → Edits → Prop} (hE : E.Laws)
    (hps : ps.Applies Holding) (kernel : DuckDbKernel E) (faults : KernelFaults E) (st : σ)
    {result : Except (KernelError S E.Error) S.ManifestId × DuckDbKernel E × σ}
    (hresult : kernel.checkpoint ps faults st = result) :
    (∃ e, result.1 = .error e ∧ ps.Undisturbed st result.2.2 ∧
      E.content result.2.1.conn = E.content kernel.conn) ∨
    (∃ m file, result.1 = .ok m ∧ ps.pageSize result.2.2 = ps.pageSize st ∧
      Persisted kernel result.2.1 ps result.2.2 m file) := by
  simp only [checkpoint] at hresult
  rcases hfold : (foldWalIntoMainFile kernel faults :
      Except (KernelError S E.Error) Unit × DuckDbKernel E) with ⟨e | ⟨⟩, kernel'⟩
  · obtain ⟨hcontent, -⟩ := foldWalIntoMainFile_spec hE kernel faults hfold
    simp only [hfold] at hresult
    subst hresult
    exact .inl ⟨e, rfl, .refl st, hcontent⟩
  · obtain ⟨hcontent, hwhole⟩ := foldWalIntoMainFile_spec hE kernel faults hfold
    simp only [hfold] at hresult
    subst hresult
    cases hread : kernel'.readMain faults with
    | error source => exact .inl ⟨_, rfl, .refl st, hcontent⟩
    | ok file =>
      obtain ⟨hne, hopen⟩ := hwhole rfl file (readMain_ok hread)
      rcases Paging.persist_spec (D := E.Error) hps st kernel'.path file rfl with
        ⟨e, herror, hundisturbed⟩ | ⟨m, hok, hhead, hsize, hreads⟩
      · exact .inl ⟨e, herror, hundisturbed, hcontent⟩
      · exact .inr ⟨m, file, hok, hsize, readMain_ok hread, hhead, hsize.symm ▸ hreads, hne,
          hcontent, hopen⟩

/-- A fold that goes through is a `CHECKPOINT` that left no log behind. -/
theorem fold_ok {kernel kernel' : DuckDbKernel E} {faults : KernelFaults E}
    (h : (foldWalIntoMainFile kernel faults :
      Except (KernelError S E.Error) Unit × DuckDbKernel E) = (.ok (), kernel')) :
    E.executeBatch kernel.conn "CHECKPOINT" = (.ok (), kernel'.conn) ∧
      (E.walLen kernel'.conn).getD 0 = 0 := by
  simp only [foldWalIntoMainFile, executeBatch] at h
  cases hfault : faults.checkpoint with
  | some source => simp [hfault] at h
  | none =>
    simp only [hfault] at h
    rcases hbatch : E.executeBatch kernel.conn "CHECKPOINT" with ⟨source | ⟨⟩, conn⟩
    · simp [hbatch] at h
    · simp only [hbatch] at h
      cases hstat : faults.stat with
      | some source => simp [hstat] at h
      | none =>
        simp only [hstat] at h
        rcases hwal : E.walLen conn with _ | _ | len
        · simp only [hwal, Prod.mk.injEq, true_and] at h
          subst h
          exact ⟨rfl, by rw [hwal]; rfl⟩
        · simp only [hwal, Prod.mk.injEq, true_and] at h
          subst h
          exact ⟨rfl, by rw [hwal]; rfl⟩
        · simp [hwal] at h

/-- A checkpoint that goes through folded DuckDB's log into the main file first. -/
theorem checkpoint_ok {kernel kernel' : DuckDbKernel E} {faults : KernelFaults E} {st st' : σ}
    {m : S.ManifestId} (h : kernel.checkpoint ps faults st = (.ok m, kernel', st')) :
    E.executeBatch kernel.conn "CHECKPOINT" = (.ok (), kernel'.conn) ∧
      (E.walLen kernel'.conn).getD 0 = 0 := by
  simp only [checkpoint] at h
  rcases hfold : (foldWalIntoMainFile kernel faults :
      Except (KernelError S E.Error) Unit × DuckDbKernel E) with ⟨e | ⟨⟩, folded⟩
  · simp [hfold] at h
  · simp only [hfold, Prod.mk.injEq] at h
    obtain ⟨-, rfl, -⟩ := h
    exact fold_ok hfold

/-- A checkpoint that goes through leaves its store at the head that it returns. -/
theorem checkpoint_head {Holding : σ → S.Txn → Edits → Prop} (hps : ps.Applies Holding)
    {kernel kernel' : DuckDbKernel E} {faults : KernelFaults E} {st st' : σ} {m : S.ManifestId}
    (h : kernel.checkpoint ps faults st = (.ok m, kernel', st')) : ps.head st' = m := by
  simp only [checkpoint] at h
  rcases hfold : (foldWalIntoMainFile kernel faults :
      Except (KernelError S E.Error) Unit × DuckDbKernel E) with ⟨e | ⟨⟩, folded⟩
  · simp [hfold] at h
  · simp only [hfold, Prod.mk.injEq] at h
    obtain ⟨hok, -, rfl⟩ := h
    cases hread : folded.readMain faults with
    | error source =>
      rw [hread] at hok
      cases hok
    | ok file =>
      rw [hread] at hok
      rcases Paging.persist_spec (D := E.Error) hps st folded.path file rfl with
        ⟨e, herror, -⟩ | ⟨m', hok', hhead, -⟩
      · rw [herror] at hok
        cases hok
      · rw [hok'] at hok
        obtain rfl := Except.ok.inj hok
        exact hhead

/-- What opening a kernel on a database file does: its calls beyond the page store. -/
def openFile (opts : KernelOpts) (faults : KernelFaults E) (file : Bytes) :
    Except (KernelError S E.Error) (DuckDbKernel E) :=
  match faults.tempDir with
  | some source => .error (.scratch "create scratch dir" "$TMPDIR" source)
  | none =>
    let path := faults.scratchDir ++ "/flock.duckdb"
    match faults.scratch.write with
    | some (source, _) => .error (.scratch "write hydrated database" path source)
    | none => connect opts faults path (some file)

/-- Opening a kernel on a head whose pages are the chunks of a file opens it on the file. -/
theorem open_eq {st : σ} {file : ByteVec} (hsize : 0 < ps.pageSize st)
    (hreads : ps.Reads st (ps.head st) (Paging.chunkMap (ps.pageSize st) file))
    (hne : file.bytes ≠ []) (opts : KernelOpts) (faults : KernelFaults E) :
    («open» ps st opts faults : Except (KernelError S E.Error) (DuckDbKernel E)) =
      openFile opts faults file.bytes := by
  rw [«open», openFile]
  cases faults.tempDir with
  | some source => rfl
  | none =>
    simp only [Paging.hydrate_eq_of_ne_nil (D := E.Error) hsize hreads hne]
    cases faults.scratch.write with
    | some failed => rfl
    | none => rfl

/-- A kernel that connected to a path is connected to the file there, under its options. -/
theorem config_of_connect {opts : KernelOpts} {faults : KernelFaults E} {path : String}
    {file : Option Bytes} {kernel : DuckDbKernel E}
    (h : (connect opts faults path file : Except (KernelError S E.Error) (DuckDbKernel E)) =
      .ok kernel) :
    ∃ built, (config opts path : Except (KernelError S E.Error) E.Config) = .ok built ∧
      E.openWithFlags file built = .ok kernel.conn := by
  rw [connect] at h
  cases hconfig : (config opts path : Except (KernelError S E.Error) E.Config) with
  | error e =>
    rw [hconfig] at h
    cases h
  | ok built =>
    simp only [hconfig] at h
    cases hconnect : faults.connect with
    | some source =>
      simp only [hconnect] at h
      cases h
    | none =>
      simp only [hconnect] at h
      cases hopen : E.openWithFlags file built with
      | error source =>
        simp only [hopen] at h
        cases h
      | ok conn =>
        simp only [hopen] at h
        cases h
        exact ⟨built, rfl, hopen⟩

/-- A kernel that connected to a path is connected to the file there. -/
theorem openWithFlags_of_connect {opts : KernelOpts} {faults : KernelFaults E} {path : String}
    {file : Option Bytes} {kernel : DuckDbKernel E}
    (h : (connect opts faults path file : Except (KernelError S E.Error) (DuckDbKernel E)) =
      .ok kernel) :
    ∃ config, E.openWithFlags file config = .ok kernel.conn := by
  obtain ⟨built, -, hopen⟩ := config_of_connect h
  exact ⟨built, hopen⟩

/-- A kernel that opened on a file is connected to it. -/
theorem openWithFlags_of_openFile {opts : KernelOpts} {faults : KernelFaults E} {file : Bytes}
    {kernel : DuckDbKernel E}
    (h : (openFile opts faults file : Except (KernelError S E.Error) (DuckDbKernel E)) =
      .ok kernel) :
    ∃ config, E.openWithFlags (some file) config = .ok kernel.conn := by
  unfold openFile at h
  cases htempDir : faults.tempDir with
  | some source =>
    simp only [htempDir] at h
    cases h
  | none =>
    cases hwrite : faults.scratch.write with
    | some failed =>
      simp only [htempDir, hwrite] at h
      cases h
    | none =>
      simp only [htempDir, hwrite] at h
      exact openWithFlags_of_connect h

variable (ps) in
/-- A connection to the file that the pages of a manifest make up. -/
def HydratedFrom (st : σ) (m : S.ManifestId) (conn : E.Connection) : Prop :=
  ∃ pages file config, ps.resolve st m = .ok pages ∧
    (Paging.hydratePages ps st m pages.keys [] : Except (KernelError S E.Error) Bytes) = .ok file ∧
    E.openWithFlags (if file = [] then none else some file) config = .ok conn

variable (ps) in
/-- A connection to the file that the pages of a manifest make up, under some options. -/
def Hydrates (st : σ) (opts : KernelOpts) (m : S.ManifestId) (conn : E.Connection) : Prop :=
  ∃ pages file path built, ps.resolve st m = .ok pages ∧
    (Paging.hydratePages ps st m pages.keys [] : Except (KernelError S E.Error) Bytes) = .ok file ∧
    (config opts path : Except (KernelError S E.Error) E.Config) = .ok built ∧
    E.openWithFlags (if file = [] then none else some file) built = .ok conn

/-- A kernel that opened is connected to the file of the head, under its options. -/
theorem hydrates_of_open {st : σ} {opts : KernelOpts} {faults : KernelFaults E}
    {kernel : DuckDbKernel E}
    (h : («open» ps st opts faults : Except (KernelError S E.Error) (DuckDbKernel E)) =
      .ok kernel) : Hydrates ps st opts (ps.head st) kernel.conn := by
  rw [«open»] at h
  cases htempDir : faults.tempDir with
  | some source =>
    rw [htempDir] at h
    cases h
  | none =>
    simp only [htempDir, Paging.hydrate] at h
    cases hresolve : ps.resolve st (ps.head st) with
    | error source =>
      rw [hresolve] at h
      cases h
    | ok pages =>
      simp only [hresolve] at h
      cases hpages : (Paging.hydratePages ps st (ps.head st) pages.keys [] :
          Except (KernelError S E.Error) Bytes) with
      | error e =>
        rw [hpages] at h
        cases h
      | ok file =>
        refine ⟨pages, file, faults.scratchDir ++ "/flock.duckdb", ?_⟩
        cases file with
        | nil =>
          simp only [hpages] at h
          obtain ⟨built, hconfig, hopen⟩ := config_of_connect h
          exact ⟨built, hresolve, hpages, hconfig, hopen⟩
        | cons byte bytes =>
          simp only [hpages] at h
          cases hwrite : faults.scratch.write with
          | some failed =>
            rw [hwrite] at h
            cases h
          | none =>
            simp only [hwrite] at h
            obtain ⟨built, hconfig, hopen⟩ := config_of_connect h
            exact ⟨built, hresolve, hpages, hconfig, hopen⟩

/-- The path of a scratch file is only named in errors. -/
theorem toOption_config (opts : KernelOpts) (path path' : String) :
    (config opts path : Except (KernelError S E.Error) E.Config).toOption =
      (config opts path' : Except (KernelError S E.Error) E.Config).toOption := by
  simp only [config]
  cases (match opts.threads with
    | some n => E.threads E.defaultConfig n
    | none => .ok E.defaultConfig : Except E.Error E.Config) with
  | error source => rfl
  | ok threaded =>
    cases opts.maxMemory with
    | none => rfl
    | some limit =>
      dsimp only
      cases E.maxMemory threaded limit <;> rfl

/-- A kernel opens at a head whose file has a connection, if nothing on the way fails. -/
theorem open_of_hydrates {st : σ} {opts : KernelOpts} {faults : KernelFaults E}
    {conn : E.Connection} (h : Hydrates ps st opts (ps.head st) conn)
    (htempDir : faults.tempDir = none) (hscratch : faults.scratch.write = none)
    (hconnect : faults.connect = none) :
    ∃ kernel : DuckDbKernel E, («open» ps st opts faults :
      Except (KernelError S E.Error) (DuckDbKernel E)) = .ok kernel ∧ kernel.conn = conn := by
  obtain ⟨pages, file, path, built, hresolve, hpages, hconfig, hopen⟩ := h
  let scratch := faults.scratchDir ++ "/flock.duckdb"
  have hconfig' : (config opts scratch : Except (KernelError S E.Error) E.Config) = .ok built := by
    have hsame := toOption_config (S := S) (E := E) opts scratch path
    rw [hconfig] at hsame
    cases hbuilt : (config opts scratch : Except (KernelError S E.Error) E.Config) with
    | error e =>
      rw [hbuilt] at hsame
      cases hsame
    | ok built' =>
      rw [hbuilt] at hsame
      exact congrArg Except.ok (Option.some.inj hsame)
  have hconnected {file : Option Bytes} (hfile : E.openWithFlags file built = .ok conn) :
      (connect opts faults scratch file : Except (KernelError S E.Error) (DuckDbKernel E)) =
        .ok ⟨conn, scratch⟩ := by
    simp only [connect, hconfig', hconnect, hfile]
  refine ⟨⟨conn, scratch⟩, ?_, rfl⟩
  rw [«open», htempDir]
  simp only [Paging.hydrate, hresolve, hpages]
  cases file with
  | nil => exact hconnected hopen
  | cons byte bytes =>
    simp only [hscratch]
    exact hconnected hopen

/-- A kernel that opened is connected to the file of the head. -/
theorem hydratedFrom_of_open {st : σ} {opts : KernelOpts} {faults : KernelFaults E}
    {kernel : DuckDbKernel E}
    (h : («open» ps st opts faults : Except (KernelError S E.Error) (DuckDbKernel E)) =
      .ok kernel) : HydratedFrom ps st (ps.head st) kernel.conn := by
  obtain ⟨pages, file, path, built, hresolve, hpages, -, hopen⟩ := hydrates_of_open h
  exact ⟨pages, file, built, hresolve, hpages, hopen⟩

/-- The file of a manifest under some options has one connection. -/
theorem Hydrates.unique {st : σ} {opts : KernelOpts} {m : S.ManifestId} {conn conn' : E.Connection}
    (h : Hydrates ps st opts m conn) (h' : Hydrates ps st opts m conn') : conn = conn' := by
  obtain ⟨pages, file, path, built, hresolve, hpages, hconfig, hopen⟩ := h
  obtain ⟨pages', file', path', built', hresolve', hpages', hconfig', hopen'⟩ := h'
  obtain rfl : pages = pages' := Except.ok.inj (hresolve.symm.trans hresolve')
  obtain rfl : file = file' := Except.ok.inj (hpages.symm.trans hpages')
  obtain rfl : built = built' := by
    have hsame := toOption_config (S := S) (E := E) opts path path'
    rw [hconfig, hconfig'] at hsame
    exact Option.some.inj hsame
  exact Except.ok.inj (hopen.symm.trans hopen')

/-- A handle that reads all that another one reads writes the same file. -/
theorem hydratePages_mono {τ : Type} {ps' : PageStore S τ} {st : σ} {st' : τ}
    {m : S.ManifestId} (hsize : ps'.pageSize st' = ps.pageSize st)
    (hread : ∀ p bytes, ps.read st m p = .ok bytes → ps'.read st' m p = .ok bytes)
    {pageNos : List PageNo} {file out : Bytes}
    (h : (Paging.hydratePages ps st m pageNos file : Except (KernelError S E.Error) Bytes) =
      .ok out) :
    (Paging.hydratePages ps' st' m pageNos file : Except (KernelError S E.Error) Bytes) =
      .ok out := by
  induction pageNos generalizing file with
  | nil => exact h
  | cons pageNo pageNos ih =>
    rw [Paging.hydratePages] at h ⊢
    rw [hsize]
    by_cases hlayout : file.length ≠ pageNo * ps.pageSize st % 2 ^ 64
    · rw [if_pos hlayout] at h
      cases h
    · rw [if_neg hlayout] at h ⊢
      cases hpage : ps.read st m pageNo with
      | error source =>
        rw [hpage] at h
        cases h
      | ok page =>
        rw [hpage] at h
        rw [hread pageNo page hpage]
        exact ih h

/-- A handle that finds all that another one finds has the same connection. -/
theorem Hydrates.mono {τ : Type} {ps' : PageStore S τ} {st : σ} {st' : τ} {opts : KernelOpts}
    {m : S.ManifestId} {conn : E.Connection} (h : Hydrates ps st opts m conn)
    (hsize : ps'.pageSize st' = ps.pageSize st)
    (hresolve : ∀ pages, ps.resolve st m = .ok pages → ps'.resolve st' m = .ok pages)
    (hread : ∀ p bytes, ps.read st m p = .ok bytes → ps'.read st' m p = .ok bytes) :
    Hydrates ps' st' opts m conn := by
  obtain ⟨pages, file, path, built, hpages, hfile, hconfig, hopen⟩ := h
  exact ⟨pages, file, path, built, hresolve pages hpages, hydratePages_mono hsize hread hfile,
    hconfig, hopen⟩

/-- Two handles that find the same pages at a manifest write the same file. -/
theorem hydratePages_congr {τ : Type} {ps' : PageStore S τ} {st : σ} {st' : τ}
    {m : S.ManifestId} (hsize : ps.pageSize st = ps'.pageSize st')
    (hread : ∀ p, ps.read st m p = ps'.read st' m p) (pageNos : List PageNo) (file : Bytes) :
    (Paging.hydratePages ps st m pageNos file : Except (KernelError S E.Error) Bytes) =
      Paging.hydratePages ps' st' m pageNos file := by
  induction pageNos generalizing file with
  | nil => rfl
  | cons pageNo pageNos ih => simp only [Paging.hydratePages, hsize, hread, ih]

/-- Two handles that find the same pages at a manifest open the same kernel there. -/
theorem open_congr {τ : Type} (ps : PageStore S σ) (st : σ) (ps' : PageStore S τ) (st' : τ)
    (hhead : ps.head st = ps'.head st') (hsize : ps.pageSize st = ps'.pageSize st')
    (hresolve : ps.resolve st (ps.head st) = ps'.resolve st' (ps.head st))
    (hread : ∀ p, ps.read st (ps.head st) p = ps'.read st' (ps.head st) p) (opts : KernelOpts)
    (faults : KernelFaults E) :
    («open» ps st opts faults : Except (KernelError S E.Error) (DuckDbKernel E)) =
      «open» ps' st' opts faults := by
  simp only [«open», Paging.hydrate, ← hhead, hresolve,
    hydratePages_congr (E := E) hsize hread]

end DuckDbKernel

end FlockDb
