import FlockDb.Core.Durability
import FlockDb.Core.Recorded
import FlockDb.Library.Heap

/-!
# The Python module

A Python process has objects of the class `Db` on the branches of a pool. `sql` takes a snapshot
before it returns, so that nothing has to be remembered: what a statement left is what the branch
opens with in any later process, and an id that was returned once brings its state back for good.
-/

namespace FlockDb.Python

open Runs

variable {S : Substrate} {E : Engine}

/-- What a call raises: the engine's error, that a string is no snapshot id, or that there is no
such object. -/
inductive PyErr (S : Substrate) (E : Engine) where
  | flockDbError (e : FlockError S E)
  | notASnapshotId (hex reason : String)
  | unbound

/-- What a call returns. -/
inductive Value (S : Substrate) (E : Engine) where
  | db (object : ℕ)
  | rows (batches : E.Batches)
  | id (m : S.ManifestId)
  | none

/-- The outcome of a call. -/
abbrev PyResult (S : Substrate) (E : Engine) := Except (PyErr S E) (Value S E)

/-- A process on a pool, with its objects of the class `Db`. -/
structure Process (S : Substrate) (E : Engine) where
  pool : Pool S
  objects : Heap (Db S E)

/-- A call of the module or of one of its objects; or an object is collected, or the process
ends. -/
inductive Call (S : Substrate) (E : Engine) where
  | open (env : Env S E) (branch : String)
  | sql (object : ℕ) (env : Env S E) (query : String)
  | branch (object : ℕ) (snapshotEnv env : Env S E) (name : String)
  | checkout (object : ℕ) (env : Env S E) (name : String)
  | snapshot (object : ℕ) (env : Env S E)
  | restore (object : ℕ) (env : Env S E) (snapshot : String)
  | del (object : ℕ)
  | exit

/-- `parse_manifest`. -/
def parseManifest (fromHex : String → Except String S.ManifestId) (hex : String) :
    Except (PyErr S E) S.ManifestId :=
  (fromHex hex).mapError (.notASnapshotId hex)

namespace Process

/-- `open_at`. -/
def openAt (p : Process S E) (env : Env S E) (branch : String) :
    PyResult S E × Process S E :=
  match Flock.openWith env p.pool branch ⟨none, none⟩ with
  | (.error e, pool) => (.error (.flockDbError e), { p with pool })
  | (.ok db, pool) =>
    let (object, objects) := p.objects.alloc db
    (.ok (.db object), ⟨pool, objects⟩)

/-- `lock`: work on the database of an object. -/
def lock (p : Process S E) (object : ℕ)
    (f : Db S E → PyResult S E × Db S E × Pool S) : PyResult S E × Process S E :=
  match p.objects.boxes object with
  | none => (.error .unbound, p)
  | some db =>
    let (result, db, pool) := f db
    (result, ⟨pool, p.objects.write object db⟩)

/-- One call. -/
def step (fromHex : String → Except String S.ManifestId) (p : Process S E) :
    Call S E → PyResult S E × Process S E
  | .open env branch => p.openAt env branch
  | .sql object env query => p.lock object fun db =>
    match db.query query with
    | (.error e, db) => (.error (.flockDbError e), db, p.pool)
    | (.ok rows, db) =>
      match db.snapshot env p.pool with
      | (.error e, db, pool) => (.error (.flockDbError e), db, pool)
      | (.ok _, db, pool) => (.ok (.rows rows), db, pool)
  | .branch object snapshotEnv env name =>
    match p.objects.boxes object with
    | none => (.error .unbound, p)
    | some db =>
      match db.fork snapshotEnv env p.pool name with
      | (.error e, db, pool) => (.error (.flockDbError e), ⟨pool, p.objects.write object db⟩)
      | (.ok forked, db, pool) =>
        let (object, objects) := (p.objects.write object db).alloc forked
        (.ok (.db object), ⟨pool, objects⟩)
  | .checkout object env name =>
    match p.objects.boxes object with
    | none => (.error .unbound, p)
    | some _ => p.openAt env name
  | .snapshot object env => p.lock object fun db =>
    match db.snapshot env p.pool with
    | (.error e, db, pool) => (.error (.flockDbError e), db, pool)
    | (.ok id, db, pool) => (.ok (.id id), db, pool)
  | .restore object env snapshot =>
    match (parseManifest fromHex snapshot : Except (PyErr S E) S.ManifestId) with
    | .error e => (.error e, p)
    | .ok id => p.lock object fun db =>
      match db.restore env p.pool id with
      | (.error e, db, pool) => (.error (.flockDbError e), db, pool)
      | (.ok (), db, pool) => (.ok .none, db, pool)
  | .del object => (.ok .none, { p with objects := p.objects.free object })
  | .exit => (.ok .none, { p with objects := .empty })

end Process

/-- What a reader of the calls writes down: the content of each branch as far as it is known, the
snapshots that were taken with what they held, and the objects whose restore failed half way. -/
structure Chronicle (S : Substrate) (E : Engine) where
  contents : String → Option E.Content
  taken : List (S.ManifestId × E.Content)
  torn : List ℕ

namespace Chronicle

/-- Nothing is known of the pool. -/
def start : Chronicle S E := ⟨fun _ => none, [], []⟩

/-- A snapshot of a database, if it was taken. -/
def commit (c : Chronicle S E) (db : Db S E) :
    Except (FlockError S E) S.ManifestId → Chronicle S E
  | .error _ => c
  | .ok m =>
    { c with
      contents := Function.update c.contents db.name (some (E.content db.kernel.conn))
      taken := (m, E.content db.kernel.conn) :: c.taken }

/-- A restore is refused before anything moves. -/
def refuses (env : Env S E) (db : Db S E) (pool : Pool S) (m : S.ManifestId) : Bool :=
  !(S.manifest (db.store.cas pool) m).toBool ||
    !(env.store.guard .rewind (S.rewind (db.store.cas pool) m)).toBool

/-- A restore of an object's database. Of a branch that was moved to an id from elsewhere, or by
half, the content is not known. -/
def move (c : Chronicle S E) (object : ℕ) (env : Env S E) (db : Db S E) (pool : Pool S)
    (m : S.ManifestId) : Chronicle S E :=
  match (db.restore env pool m).1 with
  | .ok () => { c with contents := Function.update c.contents db.name (c.taken.lookup m) }
  | .error _ =>
    if refuses env db pool m then c
    else { c with contents := Function.update c.contents db.name none, torn := object :: c.torn }

/-- What is written down of a call. -/
def enter (fromHex : String → Except String S.ManifestId) (p : Process S E)
    (c : Chronicle S E) : Call S E → Chronicle S E
  | .sql object env query =>
    match p.objects.boxes object with
    | none => c
    | some db =>
      match db.query query with
      | (.error _, _) => c
      | (.ok _, db) => c.commit db (db.snapshot env p.pool).1
  | .snapshot object env =>
    match p.objects.boxes object with
    | none => c
    | some db => c.commit db (db.snapshot env p.pool).1
  | .branch object snapshotEnv env name =>
    match p.objects.boxes object with
    | none => c
    | some db =>
      if (validateName (S := S) (E := E) name).toBool ∧ (p.pool.dbs name).isNone then
        let c := c.commit db (db.snapshot snapshotEnv p.pool).1
        match (db.fork snapshotEnv env p.pool name).1 with
        | .error _ => c
        | .ok _ =>
          { c with contents := Function.update c.contents name (some (E.content db.kernel.conn)) }
      else c
  | .restore object env snapshot =>
    match (parseManifest fromHex snapshot : Except (PyErr S E) S.ManifestId) with
    | .error _ => c
    | .ok m =>
      match p.objects.boxes object with
      | none => c
      | some db => c.move object env db p.pool m
  | .exit => { c with torn := [] }
  | _ => c

/-- A branch has one object, and an object whose restore failed half way is let go of. -/
def Orderly (p : Process S E) (c : Chronicle S E) : Call S E → Prop
  | .open _ name | .checkout _ _ name =>
    ∀ object db, p.objects.boxes object = some db → db.name ≠ name
  | .sql object _ _ | .snapshot object _ | .branch object _ _ _ | .restore object _ _ =>
    object ∉ c.torn
  | _ => True

/-- One call, and what is written down of it. -/
def step (fromHex : String → Except String S.ManifestId) (st : Process S E × Chronicle S E)
    (call : Call S E) : PyResult S E × Process S E × Chronicle S E :=
  ((st.1.step fromHex call).1, (st.1.step fromHex call).2, st.2.enter fromHex st.1 call)

/-- A snapshot that a pool can go back to: its pages are there, and any kernel that opens on them
has what it held. -/
def Recalls (pool : Pool S) (m : S.ManifestId) (content : E.Content) : Prop :=
  (∃ file, Captures pool m file content) ∧
    ∃ conn : E.Connection, HeadOpens pool.cas pool.pageSize m conn ∧ E.content conn = content

/-- A branch that can be opened again: it has a name and a directory, and it stands with a
content. -/
structure IsThere (pool : Pool S) (n : String) (content : E.Content) : Prop where
  valid : validateName (S := S) (E := E) n = .ok ()
  isSome : (pool.dbs n).isSome
  stands : pool.Stands (E := E) n content

/-- What was written down is so. -/
structure Keeps (p : Process S E) (c : Chronicle S E) : Prop where
  pos : 0 < p.pool.pageSize
  root : ∃ root, S.emptyRoot p.pool.pageSize = .ok root
  sole : ∀ {object object' db db'}, p.objects.boxes object = some db →
    p.objects.boxes object' = some db' → db.name = db'.name → object = object'
  exist : ∀ {object db}, p.objects.boxes object = some db → (p.pool.dbs db.name).isSome
  valid : ∀ {object db}, p.objects.boxes object = some db →
    validateName (S := S) (E := E) db.name = .ok ()
  opts : ∀ {object db}, p.objects.boxes object = some db → db.opts = ⟨none, none⟩
  holds : ∀ {object db}, p.objects.boxes object = some db → object ∉ c.torn → p.pool.Holds db
  contents : ∀ {n content}, c.contents n = some content → IsThere p.pool n content
  taken : ∀ {m content}, (m, content) ∈ c.taken → Recalls p.pool m content

/-- A pool that went on can go back to what it could. -/
theorem Recalls.beside (hS : S.ContentAddressed) {pool pool' : Pool S} {name : String}
    {m : S.ManifestId} {content : E.Content} (h : Recalls pool m content)
    (hbeside : pool.Beside name pool') : Recalls pool' m content := by
  obtain ⟨⟨file, hcaptures⟩, conn, hopens, hcontent⟩ := h
  exact ⟨⟨file, hcaptures.beside hS hbeside⟩, conn,
    hbeside.pageSize_eq.symm ▸ hopens.grows hS hbeside.grows, hcontent⟩

/-- A snapshot can be gone back to when it was taken. -/
theorem recalls_of_snapshot (hS : S.Laws) (hE : E.Laws) (hR : E.Reopens) {env : Env S E}
    {db db' : Db S E} {pool pool' : Pool S} {m : S.ManifestId} (hpos : 0 < pool'.pageSize)
    (hlocal : db.Local) (h : db.snapshot env pool = (.ok m, db', pool')) :
    Recalls pool' m (E.content db.kernel.conn) := by
  obtain ⟨file, -, hcaptures⟩ := (snapshotted_of_ok hS hE hlocal h).captures
  exact ⟨⟨file, hcaptures⟩, headOpens_of_snapshot hS hE hR hpos hlocal h⟩

/-- A restore that returns leaves the object at the id, with what the id held. -/
theorem Recalls.restored (hS : S.Laws) {pool pool' : Pool S} (hpos : 0 < pool.pageSize)
    {m : S.ManifestId} {content : E.Content} (h : Recalls pool m content) {env : Env S E}
    {db db' : Db S E} (hholds : pool.Holds db)
    (hok : db.restore env pool m = (.ok (), db', pool')) :
    db'.head = m ∧ E.content db'.kernel.conn = content := by
  obtain ⟨⟨file, hcaptures⟩, -⟩ := h
  have hmoved : db.store.movedTo m = .local m := by
    rw [hholds.store_eq]
    rfl
  rw [Db.restore] at hok
  rcases Db.rewindTo_cases hS.toRecovers env (fun _ => hholds.isSome) m with
    ⟨-, e, hrewind⟩ | ⟨-, pool₁, hcas, hsize, ⟨-, -, e, hrewind⟩ | ⟨-, -, hrewind⟩⟩
  · rw [hrewind] at hok
    cases hok
  · rw [hrewind] at hok
    cases hok
  · simp only [hrewind, hmoved] at hok
    cases hkernel : Store.openKernel env pool₁ db.name db.opts (.local m) with
    | error source =>
      rw [hkernel] at hok
      cases hok
    | ok kernel =>
      rw [hkernel] at hok
      cases hok
      have hcaptures₁ : Captures pool' m file content :=
        hcaptures.grows hS.toContentAddressed hsize (hcas ▸ .refl _)
      exact ⟨rfl, hcaptures₁.content_of_openKernel (hsize.symm ▸ hpos) hkernel⟩

variable {p p' : Process S E} {c c' : Chronicle S E} {object : ℕ} {db : Db S E}

/-- Work on one branch keeps what was written down of the others. What becomes of its object and of
its content is left to show. -/
theorem Keeps.frame (hS : S.ContentAddressed) (h : Keeps p c) {name : String}
    (hbeside : p.pool.Beside name p'.pool)
    (hold : ∀ {x db}, p'.objects.boxes x = some db → db.name ≠ name →
      p.objects.boxes x = some db)
    (hnew : ∀ {x db}, p'.objects.boxes x = some db → db.name = name →
      x = object ∧ (p'.pool.dbs name).isSome ∧ validateName (S := S) (E := E) name = .ok () ∧
        db.opts = ⟨none, none⟩ ∧ (x ∉ c'.torn → p'.pool.Holds db))
    (hothers : ∀ n ≠ name, c'.contents n = c.contents n)
    (hcontent : ∀ {content}, c'.contents name = some content → IsThere p'.pool name content)
    (htaken : ∀ {m content}, (m, content) ∈ c'.taken →
      (m, content) ∈ c.taken ∨ Recalls p'.pool m content)
    (htorn : ∀ x ∈ c.torn, x ∈ c'.torn) : Keeps p' c' where
  pos := hbeside.pageSize_eq.symm ▸ h.pos
  root := hbeside.pageSize_eq.symm ▸ h.root
  sole := by
    intro x x' db db' hdb hdb' hname
    by_cases hthis : db.name = name
    · exact (hnew hdb hthis).1.trans (hnew hdb' (hname.symm.trans hthis)).1.symm
    · exact h.sole (hold hdb hthis) (hold hdb' (hname ▸ hthis)) hname
  exist := by
    intro x db hdb
    by_cases hthis : db.name = name
    · rw [hthis]
      exact (hnew hdb hthis).2.1
    · exact hbeside.isSome_of (h.exist (hold hdb hthis))
  valid := by
    intro x db hdb
    by_cases hthis : db.name = name
    · rw [hthis]
      exact (hnew hdb hthis).2.2.1
    · exact h.valid (hold hdb hthis)
  opts := by
    intro x db hdb
    by_cases hthis : db.name = name
    · exact (hnew hdb hthis).2.2.2.1
    · exact h.opts (hold hdb hthis)
  holds := by
    intro x db hdb hx
    by_cases hthis : db.name = name
    · exact (hnew hdb hthis).2.2.2.2 hx
    · exact (h.holds (hold hdb hthis) fun hmem => hx (htorn x hmem)).beside hbeside hthis
  contents := by
    intro n content hn
    by_cases hthis : n = name
    · subst hthis
      exact hcontent hn
    · rw [hothers n hthis] at hn
      obtain ⟨hvalid, hsome, hstands⟩ := h.contents hn
      exact ⟨hvalid, hbeside.isSome_of hsome, hstands.beside hS hbeside hthis⟩
  taken := by
    intro m content hm
    rcases htaken hm with hold | hnew
    · exact (h.taken hold).beside hS hbeside
    · exact hnew

/-- Work on the branch of an object keeps what was written down of the others. -/
theorem Keeps.write (hS : S.ContentAddressed) (h : Keeps p c)
    (hdb : p.objects.boxes object = some db) {pool : Pool S} (hbeside : p.pool.Beside db.name pool)
    {db' : Db S E} (hname : db'.name = db.name) (hopts : db'.opts = db.opts)
    (hholds : object ∉ c'.torn → pool.Holds db')
    (hothers : ∀ n ≠ db.name, c'.contents n = c.contents n)
    (hcontent : ∀ {content}, c'.contents db.name = some content →
      pool.Stands (E := E) db.name content)
    (htaken : ∀ {m content}, (m, content) ∈ c'.taken →
      (m, content) ∈ c.taken ∨ Recalls pool m content)
    (htorn : ∀ x ∈ c.torn, x ∈ c'.torn) :
    Keeps ⟨pool, p.objects.write object db'⟩ c' := by
  have hsome : (pool.dbs db.name).isSome := hbeside.isSome (h.exist hdb)
  refine @Keeps.frame S E p ⟨pool, p.objects.write object db'⟩ c c' object hS h db.name hbeside
    ?_ ?_ hothers (fun hn => ⟨h.valid hdb, hsome, hcontent hn⟩) htaken htorn
  · intro x other hother hne
    by_cases hx : x = object
    · subst hx
      rw [Heap.boxes_write_self hdb] at hother
      obtain rfl := Option.some.inj hother
      exact absurd hname hne
    · rwa [Heap.boxes_write_of_ne _ hx] at hother
  · intro x other hother hthis
    by_cases hx : x = object
    · subst hx
      rw [Heap.boxes_write_self hdb] at hother
      obtain rfl := Option.some.inj hother
      exact ⟨rfl, hsome, h.valid hdb, hopts.trans (h.opts hdb), hholds⟩
    · rw [Heap.boxes_write_of_ne _ hx] at hother
      exact absurd (h.sole hother hdb hthis) hx

/-- A snapshot of an object's database, if it is taken, is written down. -/
theorem Keeps.snapshot (hS : S.Laws) (hE : E.Laws) (hR : E.Reopens) (h : Keeps p c)
    {db₀ : Db S E} (hdb : p.objects.boxes object = some db₀) (hwhole : object ∉ c.torn)
    (hname : db.name = db₀.name) (hopts : db.opts = db₀.opts) (hstore : db.store = db₀.store)
    (env : Env S E) :
    Keeps ⟨(db.snapshot env p.pool).2.2, p.objects.write object (db.snapshot env p.pool).2.1⟩
      (c.commit db (db.snapshot env p.pool).1) := by
  obtain ⟨hsome, hhead⟩ := h.holds hdb hwhole
  have hholds : p.pool.Holds db := by
    refine ⟨?_, ?_⟩
    · rw [hname]
      exact hsome
    · rw [hname, hstore]
      exact hhead
  obtain ⟨hafter, htaken, hrefused⟩ := hholds.snapshot hS hE hR h.pos env
  obtain ⟨hbeside, hname', -⟩ := Db.beside_snapshot hS env db p.pool
  have hopts' := (db.snapshot_opts env p.pool).trans hopts
  rcases hsnapshot : db.snapshot env p.pool with ⟨e | m, db', pool'⟩
  all_goals rw [hsnapshot] at hafter htaken hrefused hbeside hname' hopts'
  · refine h.write hS.toContentAddressed hdb (hname ▸ hbeside) (hname'.trans hname) hopts'
      (fun _ => hafter) (fun _ _ => rfl) (fun hn => ?_) Or.inl fun _ hx => hx
    obtain ⟨-, -, hstands⟩ := h.contents hn
    exact hstands.grows hS.toContentAddressed hbeside.grows hbeside.pageSize_eq
      (hname ▸ hrefused e rfl)
  · have hpos : 0 < pool'.pageSize := hbeside.pageSize_eq.symm ▸ h.pos
    have hrecalls := recalls_of_snapshot hS hE hR hpos ⟨_, hholds.store_eq⟩ hsnapshot
    refine h.write hS.toContentAddressed hdb (hname ▸ hbeside) (hname'.trans hname) hopts'
      (fun _ => hafter) (fun n hn => ?_) (fun hn => ?_) (fun hmem => ?_) fun _ hx => hx
    · exact Function.update_of_ne (hname ▸ hn) _ _
    · have hself : (c.commit db (.ok m)).contents db.name = some (E.content db.kernel.conn) :=
        Function.update_self ..
      rw [← hname] at hn ⊢
      exact Option.some.inj (hself.symm.trans hn) ▸ (htaken m rfl).1
    · rcases List.mem_cons.mp hmem with hthis | hold
      · cases hthis
        exact .inr hrecalls
      · exact .inl hold

/-- A branch that was opened has a name. -/
theorem validateName_of_openWith {env : Env S E} {pool pool' : Pool S} {name : String}
    {opts : KernelOpts} (h : Flock.openWith env pool name opts = (.ok db, pool')) :
    validateName (S := S) (E := E) name = .ok () := by
  rw [Flock.openWith] at h
  cases hname : validateName (S := S) (E := E) name with
  | error e =>
    rw [hname] at h
    cases h
  | ok _ => rfl

/-- Opening a branch that has no object keeps what was written down. -/
theorem Keeps.openAt (hS : S.Laws) (h : Keeps p c) (env : Env S E) {name : String}
    (hfresh : ∀ object db, p.objects.boxes object = some db → db.name ≠ name) :
    Keeps (p.openAt env name).2 c := by
  obtain ⟨hbeside, -⟩ := Db.beside_openWith hS.toRecovers env p.pool name ⟨none, none⟩
  have hcontent {content : E.Content} (hn : c.contents name = some content) :
      IsThere (Flock.openWith env p.pool name ⟨none, none⟩).2 name content := by
    obtain ⟨hvalid, hsome, hstands⟩ := h.contents hn
    exact ⟨hvalid, hbeside.isSome hsome, hstands.openWith hS env ⟨none, none⟩⟩
  unfold Process.openAt
  rcases hopened : Flock.openWith env p.pool name ⟨none, none⟩ with ⟨e | db, pool⟩
  all_goals rw [hopened] at hbeside hcontent
  · exact @Keeps.frame S E p { p with pool } c c 0 hS.toContentAddressed h name hbeside
      (fun hdb _ => hdb) (fun hdb hthis => absurd hthis (hfresh _ _ hdb)) (fun _ _ => rfl)
      hcontent Or.inl fun _ hx => hx
  · obtain ⟨rfl, hholds, -⟩ := Pool.holds_of_openWith hS hopened
    have hvalid : validateName (S := S) (E := E) db.name = .ok () :=
      validateName_of_openWith hopened
    refine @Keeps.frame S E p ⟨pool, (p.objects.alloc db).2⟩ c c p.objects.next
      hS.toContentAddressed h db.name hbeside ?_ ?_ (fun _ _ => rfl) hcontent Or.inl
      fun _ hx => hx
    · intro x other hother hne
      by_cases hx : x = p.objects.next
      · subst hx
        rw [Heap.boxes_alloc_self] at hother
        exact absurd (congrArg Db.name (Option.some.inj hother)).symm hne
      · rwa [Heap.boxes_alloc_of_ne _ _ hx] at hother
    · intro x other hother hthis
      by_cases hx : x = p.objects.next
      · subst hx
        rw [Heap.boxes_alloc_self] at hother
        obtain rfl := Option.some.inj hother
        exact ⟨rfl, hholds.isSome, hvalid, Db.openWith_opts hopened, fun _ => hholds⟩
      · rw [Heap.boxes_alloc_of_ne _ _ hx] at hother
        exact absurd hthis (hfresh _ _ hother)

/-- Branching off keeps what was written down, of the parent with what its snapshot left and of the
new branch with the same. -/
theorem Keeps.branch (hS : S.Laws) (hP : S.Positions) (hE : E.Laws) (hR : E.Reopens)
    (fromHex : String → Except String S.ManifestId) (h : Keeps p c)
    (hdb : p.objects.boxes object = some db) (hwhole : object ∉ c.torn) (snapshotEnv env : Env S E)
    (name : String) :
    Keeps (p.step fromHex (.branch object snapshotEnv env name)).2
      (c.enter fromHex p (.branch object snapshotEnv env name)) := by
  have hsnapshot := h.snapshot hS hE hR hdb hwhole rfl rfl rfl snapshotEnv
  obtain ⟨hbeside, hname, -⟩ := Db.beside_snapshot hS snapshotEnv db p.pool
  simp only [Process.step, enter, hdb]
  rcases Db.fork_cases snapshotEnv env db p.pool name with
    ⟨hrefused, e, hfork⟩ | ⟨hvalid, hfree, hfork⟩
  · have hguard : ¬((validateName (S := S) (E := E) name).toBool ∧ (p.pool.dbs name).isNone) := by
      rintro ⟨hok, hnone⟩
      rcases hrefused with ⟨e, hinvalid⟩ | hsome
      · rw [hinvalid] at hok
        cases hok
      · rw [Option.isNone_iff_eq_none.mp hnone] at hsome
        cases hsome
    rw [if_neg hguard, hfork]
    refine h.write hS.toContentAddressed hdb (.refl _ _) rfl rfl (fun _ => h.holds hdb hwhole)
      (fun _ _ => rfl) (fun hn => (h.contents hn).stands) Or.inl fun _ hx => hx
  have hguard : (validateName (S := S) (E := E) name).toBool ∧ (p.pool.dbs name).isNone := by
    rw [hvalid, hfree]
    exact ⟨rfl, rfl⟩
  rw [if_pos hguard]
  rcases hfork with ⟨e, db', pool', htaken, hfork⟩ | ⟨m, db', pool', htaken, hfork⟩
  all_goals
    rw [htaken] at hsnapshot hbeside hname
    simp only [hfork, htaken]
  · exact hsnapshot
  -- The new name is free, so that it is no object's.
  have hne : db.name ≠ name := by
    intro hsame
    have hsome := h.exist hdb
    rw [hsame, hfree] at hsome
    cases hsome
  have hfree' : pool'.dbs name = none := (hbeside.dbs_eq name hne.symm).trans hfree
  have hfresh {x : ℕ} {other : Db S E}
      (hother : (p.objects.write object db').boxes x = some other) : other.name ≠ name := by
    intro hsame
    have hsome := hsnapshot.exist hother
    rw [hsame] at hsome
    have hnone := hfree' ▸ hsome
    cases hnone
  have hunknown {content : E.Content} (hn : (c.commit db (.ok m)).contents name = some content) :
      False := by
    have hsome := (hsnapshot.contents hn).isSome
    have hnone := hfree' ▸ hsome
    cases hnone
  obtain ⟨hfrom, hmade⟩ := Db.beside_forkFrom hS.toRecovers env db' pool' name m
  have hhead (child : Db S E) (hok : (Db.forkFrom env db' pool' name m).1 = .ok child) :=
    Db.forkFrom_recoveredHead hS.toRecovers hP hfree' hok
  have hopts (child : Db S E) (hok : (Db.forkFrom env db' pool' name m).1 = .ok child) :
      child.opts = ⟨none, none⟩ := by
    rw [Db.forkFrom_opts hok, ← h.opts hdb, ← db.snapshot_opts snapshotEnv p.pool, htaken]
  rcases hforked : Db.forkFrom env db' pool' name m with ⟨e | child, pool''⟩
  all_goals
    rw [hforked] at hfrom hmade hhead hopts
    simp only
  · exact @Keeps.frame S E ⟨pool', p.objects.write object db'⟩
      ⟨pool'', p.objects.write object db'⟩ _ _ 0 hS.toContentAddressed hsnapshot name hfrom
      (fun hother _ => hother) (fun hother hthis => absurd hthis (hfresh hother))
      (fun _ _ => rfl) (fun hn => (hunknown hn).elim) Or.inl fun _ hx => hx
  · obtain ⟨rfl, hstore, hsome⟩ := hmade child rfl
    have hholds : pool''.Holds child := ⟨hsome, hstore.trans (congrArg _ (hhead child rfl).symm)⟩
    have hrecalls : Recalls pool'' m (E.content db.kernel.conn) :=
      (hsnapshot.taken List.mem_cons_self).beside hS.toContentAddressed hfrom
    refine @Keeps.frame S E ⟨pool', p.objects.write object db'⟩
      ⟨pool'', ((p.objects.write object db').alloc child).2⟩ _ _ p.objects.next
      hS.toContentAddressed hsnapshot child.name hfrom ?_ ?_ ?_ ?_ Or.inl fun _ hx => hx
    · intro x other hother hother'
      by_cases hx : x = (p.objects.write object db').next
      · subst hx
        rw [Heap.boxes_alloc_self] at hother
        exact absurd (congrArg Db.name (Option.some.inj hother)).symm hother'
      · rwa [Heap.boxes_alloc_of_ne _ _ hx] at hother
    · intro x other hother hthis
      by_cases hx : x = (p.objects.write object db').next
      · subst hx
        rw [Heap.boxes_alloc_self] at hother
        obtain rfl := Option.some.inj hother
        exact ⟨rfl, hsome, hvalid, hopts child rfl, fun _ => hholds⟩
      · rw [Heap.boxes_alloc_of_ne _ _ hx] at hother
        exact absurd hthis (hfresh hother)
    · exact fun n hn => Function.update_of_ne hn _ _
    · intro content hn
      have hself := (Function.update_self child.name (some (E.content db.kernel.conn))
        (c.commit db (.ok m)).contents).symm.trans hn
      obtain ⟨-, conn, hopens, hcontent⟩ := hrecalls
      exact ⟨hvalid, hsome, conn, (hhead child rfl).symm ▸ hopens,
        hcontent.trans (Option.some.inj hself)⟩

/-- What a restore answers when it is refused. -/
theorem refuses_iff {env : Env S E} {pool : Pool S} {m : S.ManifestId} :
    refuses env db pool m = true ↔ Db.RefusesRewind env db pool m := by
  have hfails {α ε : Type} (result : Except ε α) :
      (!result.toBool) = true ↔ ∃ e, result = .error e := by
    cases result with
    | error e => exact ⟨fun _ => ⟨e, rfl⟩, fun _ => rfl⟩
    | ok a =>
      constructor
      · intro h
        cases h
      · rintro ⟨e, h⟩
        cases h
  rw [refuses, Bool.or_eq_true, hfails, hfails]
  rfl

/-- A restore keeps what was written down, of the branch with what the id held. -/
theorem Keeps.move (hS : S.Laws) (h : Keeps p c) (hdb : p.objects.boxes object = some db)
    (hwhole : object ∉ c.torn) (env : Env S E) (m : S.ManifestId) :
    Keeps ⟨(db.restore env p.pool m).2.2, p.objects.write object (db.restore env p.pool m).2.1⟩
      (c.move object env db p.pool m) := by
  have hholds := h.holds hdb hwhole
  obtain ⟨hbeside, hname, -⟩ := Db.beside_restore env db p.pool m
  have hmoved (hok : (db.restore env p.pool m).1 = .ok ()) :=
    Db.restore_recoveredHead hS.toRecovers (fun _ => hholds.isSome) ⟨_, hholds.store_eq⟩ hok
  unfold Chronicle.move
  cases hresult : (db.restore env p.pool m).1 with
  | ok _ =>
    obtain ⟨-, hstore, hhead⟩ := hmoved hresult
    refine h.write hS.toContentAddressed hdb hbeside hname (db.restore_opts env p.pool m)
      (fun _ => ⟨?_, ?_⟩)
      (fun n hn => Function.update_of_ne hn _ _) (fun hn => ?_) Or.inl fun _ hx => hx
    · rw [hname]
      exact hbeside.isSome hholds.isSome
    · rw [hname, hhead]
      exact hstore
    · have hlookup := (Function.update_self db.name (c.taken.lookup m) c.contents).symm.trans hn
      obtain ⟨before, after, htaken, -⟩ := List.lookup_eq_some_iff.mp hlookup
      have hmem : (m, _) ∈ c.taken := htaken ▸ List.mem_append_right _ List.mem_cons_self
      obtain ⟨-, conn, hopens, hcontent⟩ := h.taken hmem
      refine ⟨conn, ?_, hcontent⟩
      rw [hhead, hbeside.pageSize_eq]
      exact hopens.grows hS.toContentAddressed hbeside.grows
  | error e =>
    by_cases hrefuses : refuses env db p.pool m = true
    · have hsame : (db.restore env p.pool m).2 = (db, p.pool) := by
        rw [Db.restore]
        rcases Db.rewindTo_cases hS.toRecovers env (fun _ => hholds.isSome) m with
          ⟨-, e, hrewind⟩ | ⟨hnot, -⟩
        · rw [hrewind]
        · exact absurd (refuses_iff.mp hrefuses) hnot
      simp only [hsame, if_pos hrefuses]
      exact h.write hS.toContentAddressed hdb (.refl _ _) rfl rfl (fun _ => hholds) (fun _ _ => rfl)
        (fun hn => (h.contents hn).stands) Or.inl fun _ hx => hx
    · simp only [if_neg hrefuses]
      refine h.write hS.toContentAddressed hdb hbeside hname (db.restore_opts env p.pool m)
        (fun hnot => absurd List.mem_cons_self hnot) (fun n hn => Function.update_of_ne hn _ _)
        (fun hn => ?_) Or.inl fun _ hx => List.mem_cons_of_mem _ hx
      have hnone := (Function.update_self db.name none c.contents).symm.trans hn
      cases hnone

/-- A pool without objects is as it was written down if its branches and snapshots are. -/
theorem keeps_of_empty {pool : Pool S} (hpos : 0 < pool.pageSize)
    (hroot : ∃ root, S.emptyRoot pool.pageSize = .ok root)
    (hcontents : ∀ {n content}, c.contents n = some content → IsThere pool n content)
    (htaken : ∀ {m content}, (m, content) ∈ c.taken → Recalls pool m content) :
    Keeps ⟨pool, .empty⟩ c where
  pos := hpos
  root := hroot
  sole hdb := by cases hdb
  exist hdb := by cases hdb
  valid hdb := by cases hdb
  opts hdb := by cases hdb
  holds hdb := by cases hdb
  contents := hcontents
  taken := htaken

/-- A call keeps what was written down. -/
theorem Keeps.step (hS : S.Laws) (hP : S.Positions) (hE : E.Laws) (hR : E.Reopens)
    (fromHex : String → Except String S.ManifestId) (h : Keeps p c) {call : Call S E}
    (horderly : Orderly p c call) :
    Keeps (p.step fromHex call).2 (c.enter fromHex p call) := by
  cases call with
  | «open» env name => exact h.openAt hS env horderly
  | sql object env query =>
    simp only [Process.step, Process.lock, enter]
    cases hdb : p.objects.boxes object with
    | none => exact h
    | some db =>
      have hkept := World.query_kept db query
      have hopts := db.query_opts query
      rcases hquery : db.query query with ⟨e | rows, db'⟩
      all_goals
        rw [hquery] at hkept hopts
        obtain ⟨hname, hstore⟩ := hkept
        simp only [hquery]
      · have hholds := h.holds hdb horderly
        refine h.write hS.toContentAddressed hdb (.refl _ _) hname hopts (fun _ => ⟨?_, ?_⟩)
          (fun _ _ => rfl) (fun hn => (h.contents hn).stands) Or.inl fun _ hx => hx
        · rw [hname]
          exact hholds.isSome
        · rw [hname, hstore]
          exact hholds.store_eq
      · have hsnapshot := h.snapshot hS hE hR hdb horderly hname hopts hstore env
        rcases htaken : db'.snapshot env p.pool with ⟨e | m, db'', pool'⟩
        all_goals
          rw [htaken] at hsnapshot
          simp only
          exact hsnapshot
  | branch object snapshotEnv env name =>
    cases hdb : p.objects.boxes object with
    | none =>
      simp only [Process.step, enter, hdb]
      exact h
    | some db => exact h.branch hS hP hE hR fromHex hdb horderly snapshotEnv env name
  | checkout object env name =>
    simp only [Process.step, enter]
    cases p.objects.boxes object with
    | none => exact h
    | some db => exact h.openAt hS env horderly
  | snapshot object env =>
    simp only [Process.step, Process.lock, enter]
    cases hdb : p.objects.boxes object with
    | none => exact h
    | some db =>
      have hsnapshot := h.snapshot hS hE hR hdb horderly rfl rfl rfl env
      rcases htaken : db.snapshot env p.pool with ⟨e | m, db', pool'⟩
      all_goals
        rw [htaken] at hsnapshot
        simp only [htaken]
        exact hsnapshot
  | restore object env snapshot =>
    simp only [Process.step, Process.lock, enter]
    cases hparsed : (parseManifest fromHex snapshot : Except (PyErr S E) S.ManifestId) with
    | error e => exact h
    | ok m =>
      cases hdb : p.objects.boxes object with
      | none => exact h
      | some db =>
        have hmoved := h.move hS hdb horderly env m
        rcases hrestored : db.restore env p.pool m with ⟨e | ⟨⟩, db', pool'⟩
        all_goals
          rw [hrestored] at hmoved
          simp only [hrestored]
          exact hmoved
  | del object =>
    have hold {x : ℕ} {db : Db S E} (hdb : (p.objects.free object).boxes x = some db) :
        p.objects.boxes x = some db := by
      by_cases hx : x = object
      · subst hx
        rw [Heap.boxes_free_self] at hdb
        cases hdb
      · rwa [Heap.boxes_free_of_ne _ hx] at hdb
    exact ⟨h.pos, h.root, fun hdb hdb' => h.sole (hold hdb) (hold hdb'),
      fun hdb => h.exist (hold hdb), fun hdb => h.valid (hold hdb), fun hdb => h.opts (hold hdb),
      fun hdb => h.holds (hold hdb), h.contents, h.taken⟩
  | exit => exact keeps_of_empty h.pos h.root h.contents h.taken

/-- **Nothing has to be remembered.** After any calls on a pool by processes that have one object
for each branch and let go of one whose restore failed half way, whatever else failed and wherever
the processes ended: each branch whose content is known opens, and with that content; and an id
that a snapshot, a statement or a fork took goes back, on any branch, to what it held when it was
taken. A manifest that resolves is one that the store has. -/
theorem recalled_of_run (hS : S.Laws) (hP : S.Positions) (hE : E.Laws) (hR : E.Reopens)
    (hfiled : ∀ {cas m pages}, S.resolve cas m = .ok pages → ∃ edges, S.manifest cas m = .ok edges)
    (fromHex : String → Except String S.ManifestId) {pool : Pool S} (hpos : 0 < pool.pageSize)
    (hroot : ∃ root, S.emptyRoot pool.pageSize = .ok root) {calls : List (Call S E)}
    (horderly : Along (step fromHex) (fun st call => Orderly st.1 st.2 call)
      (⟨pool, .empty⟩, start) calls) :
    let (p, c) := (run (step fromHex) ((⟨pool, .empty⟩, start) : Process S E × Chronicle S E)
      calls).2
    (∀ n content, c.contents n = some content →
      (∀ env : Env S E, env.Clear → ∃ db,
        (Flock.openWith env p.pool n ⟨none, none⟩).1 = .ok db) ∧
      ∀ env db pool', Flock.openWith env p.pool n ⟨none, none⟩ = (.ok db, pool') →
        E.content db.kernel.conn = content) ∧
    ∀ m content, (m, content) ∈ c.taken → ∀ object db, p.objects.boxes object = some db →
      object ∉ c.torn →
      (∀ env : Env S E, env.Clear → (db.restore env p.pool m).1 = .ok ()) ∧
      ∀ env db' pool', db.restore env p.pool m = (.ok (), db', pool') →
        db'.head = m ∧ E.content db'.kernel.conn = content := by
  have hstart : Keeps ⟨pool, .empty⟩ (start : Chronicle S E) :=
    keeps_of_empty hpos hroot (fun hn => by cases hn) fun hm => by cases hm
  have hkept := @run_invariant_along _ _ _ (step fromHex) (fun st => Keeps st.1 st.2) _
    (fun st call horderly h => h.step hS hP hE hR fromHex horderly) _ _ horderly hstart
  generalize (run (step fromHex) (⟨pool, .empty⟩, start) calls).2 = reached at hkept ⊢
  obtain ⟨p, c⟩ := reached
  refine ⟨fun n content hn => ⟨fun env henv => ?_, fun env db pool' hopened => ?_⟩,
    fun m content hm object db hdb hwhole => ⟨fun env henv => ?_, fun env db' pool' hok => ?_⟩⟩
  · obtain ⟨hvalid, -, conn, hopens, -⟩ := hkept.contents hn
    obtain ⟨kernel, hopened, -⟩ := openWith_of_headOpens hS henv hvalid hkept.root hopens
    exact ⟨_, hopened⟩
  · exact ((hkept.contents hn).stands.of_openWith hS hopened).1
  · obtain ⟨hsome, hhead⟩ := hkept.holds hdb hwhole
    obtain ⟨-, conn, hopens, -⟩ := hkept.taken hm
    obtain ⟨pages, hresolve⟩ := hopens.resolve
    exact (restore_of_headOpens hS hP henv db hhead (hkept.opts hdb) hsome hopens
      (hfiled hresolve)).1
  · exact (hkept.taken hm).restored hS hkept.pos (hkept.holds hdb hwhole) hok

end Chronicle

/-- A process forks a branch, writes to both and takes a snapshot of each. -/
def whatIf : List (Call (memory []) memoryEngine) :=
  [.open .none "main", .sql 0 .none "CREATE", .branch 0 .none .none "what-if",
    .sql 1 .none "DELETE FROM t", .snapshot 0 .none, .sql 0 .none "INSERT"]

/-- The snapshot that the first statement took. -/
def created : Memory.ManifestId := [⟨[(0, some [0, 6])], 0⟩]

/-- The snapshot's name is read back. -/
def createdOfHex (hex : String) : Except String Memory.ManifestId :=
  if hex = Memory.manifestHex created then .ok created else .error "not a hex string"

/-- The fork opens with what was written to it, and the parent goes back to what it was forked
from. -/
theorem Chronicle.recalled_of_run_whatIf :
    let (p, _) := (run (step createdOfHex) ((⟨World.emptyPool, .empty⟩, start) :
      Process (memory []) memoryEngine × Chronicle (memory []) memoryEngine) whatIf).2
    (∃ db : Db (memory []) memoryEngine,
      (Flock.openWith .none p.pool "what-if" ⟨none, none⟩).1 = .ok db) ∧
    (∀ env db pool', Flock.openWith env p.pool "what-if" ⟨none, none⟩ = (.ok db, pool') →
      memoryEngine.content db.kernel.conn = ([6, 13] : Bytes)) ∧
    ∃ db db' pool', p.objects.boxes 0 = some db ∧
      db.restore .none p.pool created = (.ok (), db', pool') ∧
        memoryEngine.content db'.kernel.conn = ([6] : Bytes) := by
  have horderly : Along (step createdOfHex) (fun st call => Orderly st.1 st.2 call)
      ((⟨World.emptyPool, .empty⟩, start) :
        Process (memory []) memoryEngine × Chronicle (memory []) memoryEngine) whatIf := by
    refine ⟨?_, ?_, ?_, ?_, ?_, ?_, trivial⟩
    · intro object db hdb
      cases hdb
    all_goals exact List.not_mem_nil
  have hfiled {cas : Memory.Cas} {m : Memory.ManifestId} {pages : PageMap Bytes}
      (hresolve : Memory.resolve cas m = .ok pages) :
      ∃ edges, Memory.manifest cas m = .ok edges := by
    rw [Memory.manifest, hresolve]
    exact ⟨_, rfl⟩
  obtain ⟨hcontents, htaken⟩ := recalled_of_run (Memory.laws []) (Memory.positions [])
    memoryEngine_laws memoryEngine_reopens hfiled createdOfHex
    (by decide : 0 < World.emptyPool.pageSize) ⟨_, rfl⟩ horderly
  obtain ⟨hopens, hopened⟩ := hcontents "what-if" ([6, 13] : Bytes) rfl
  have hrestored := htaken created ([6] : Bytes) (.tail _ (.head _)) 0 _ rfl List.not_mem_nil
  exact ⟨hopens .none Env.clear_none, hopened, _, _, _, rfl, rfl, (hrestored.2 .none _ _ rfl).2⟩

end FlockDb.Python
