import FlockDb.Core.Wake

/-!
# The ancestry that a sleep copies

The walk over overlay bases and parents meets a manifest as often as edges lead to it, and
stages it once. A store knows finitely many manifests, so the walk comes to an end whatever the
edges are: with everything reached staged, or at the first manifest or page that cannot be read.
-/

namespace FlockDb

open Relation Worklist

variable {S : Substrate} {E : Engine}

/-- A store that knows finitely many manifests, as a directory of files does. -/
def Substrate.Finite (S : Substrate) (cas : S.Cas) : Prop :=
  {m | ∃ manifest, S.manifest cas m = .ok manifest}.Finite

/-- Everything that can be reached from a head can be read: the manifests, their page maps and
the pages in them. -/
def Substrate.Readable (S : Substrate) (cas : S.Cas) (head : S.ManifestId) : Prop :=
  ∀ m, ReflTransGen (S.Edge cas) head m → (∃ manifest, S.manifest cas m = .ok manifest) ∧
    ∃ pages, S.resolve cas m = .ok pages ∧
      ∀ (p : PageNo) (id : S.PageId), pages[p]? = some id → ∃ page, S.get cas id = .ok page

/-- The plan under which every call of a sleep on the staging store goes through. -/
def SleepFaults.none : SleepFaults S :=
  ⟨Option.none, Option.none, fun _ => Option.none, fun _ => Option.none, Option.none, Option.none⟩

/-- The walk after it staged one more manifest. -/
def Walk.visit (walk : Walk S) (id : S.ManifestId) (manifest : Manifest S.ManifestId)
    (pages : PageMap S.PageId) : Walk S where
  seen := id :: walk.seen
  manifests := walk.manifests ++ [(id, manifest)]
  pageIds := (walk.pageIds ++ pages.values).dedup

namespace Db

/-- A manifest that the walk cannot get past. -/
def Stuck (faults : SleepFaults S) (cas : S.Cas) (id : S.ManifestId) : Prop :=
  (∃ source, S.manifest cas id = .error source) ∨ (∃ source, S.resolve cas id = .error source) ∨
    ∃ source, faults.putManifest id = some source

/-- What each step of the walk keeps holds when it is done, and holds where it is stuck. -/
theorem walkAncestry_rule (faults : SleepFaults S) {cas : S.Cas}
    {I : List S.ManifestId → Walk S → Prop}
    (hskip : ∀ {id stack walk}, I (id :: stack) walk → id ∈ walk.seen → I stack walk)
    (hvisit : ∀ {id stack walk manifest pages}, I (id :: stack) walk → id ∉ walk.seen →
      S.manifest cas id = .ok manifest → S.resolve cas id = .ok pages →
      I (walkEdges manifest stack) (walk.visit id manifest pages))
    (fuel : ℕ) {stack : List S.ManifestId} {walk : Walk S} (h : I stack walk) :
    (∀ result, (walkAncestry faults cas fuel stack walk :
      Except (FlockError S E) (Option (Walk S))) = .ok (some result) → I [] result) ∧
    ∀ e, (walkAncestry faults cas fuel stack walk :
      Except (FlockError S E) (Option (Walk S))) = .error e →
      ∃ id stack walk, I (id :: stack) walk ∧ Stuck faults cas id := by
  induction fuel generalizing stack walk with
  | zero =>
    cases stack with
    | nil =>
      rw [walkAncestry]
      refine ⟨fun result hresult => ?_, fun e he => by cases he⟩
      cases hresult
      exact h
    | cons id stack =>
      rw [walkAncestry]
      exact ⟨fun result hresult => (by cases hresult), fun e he => (by cases he)⟩
  | succ fuel ih =>
    cases stack with
    | nil =>
      rw [walkAncestry]
      refine ⟨fun result hresult => ?_, fun e he => by cases he⟩
      cases hresult
      exact h
    | cons id stack =>
      rw [walkAncestry]
      by_cases hseen : id ∈ walk.seen
      · rw [if_pos hseen]
        exact ih (hskip h hseen)
      · rw [if_neg hseen]
        cases hmanifest : S.manifest cas id with
        | error source =>
          refine ⟨fun result hresult => (by cases hresult), fun e he => ?_⟩
          exact ⟨id, stack, walk, h, .inl ⟨source, hmanifest⟩⟩
        | ok manifest =>
          simp only
          cases hpages : S.resolve cas id with
          | error source =>
            refine ⟨fun result hresult => (by cases hresult), fun e he => ?_⟩
            exact ⟨id, stack, walk, h, .inr (.inl ⟨source, hpages⟩)⟩
          | ok pages =>
            simp only
            cases hput : faults.putManifest id with
            | some source =>
              refine ⟨fun result hresult => (by cases hresult), fun e he => ?_⟩
              exact ⟨id, stack, walk, h, .inr (.inr ⟨source, hput⟩)⟩
            | none => exact ih (hvisit h hseen hmanifest hpages)

/-- The walk is done once it had a step for each entry of its stack and two for each manifest
it has not seen. -/
theorem walkAncestry_done {faults : SleepFaults S} {cas : S.Cas} {known : Finset S.ManifestId}
    (hknown : ∀ m manifest, S.manifest cas m = .ok manifest → m ∈ known) (fuel : ℕ)
    {stack : List S.ManifestId} {walk : Walk S}
    (hfuel : 2 * unseen known walk.seen + stack.length ≤ fuel) :
    (walkAncestry faults cas fuel stack walk :
      Except (FlockError S E) (Option (Walk S))) ≠ .ok none := by
  induction fuel generalizing stack walk with
  | zero =>
    cases stack with
    | nil =>
      rw [walkAncestry]
      simp
    | cons id stack =>
      rw [List.length_cons] at hfuel
      omega
  | succ fuel ih =>
    cases stack with
    | nil =>
      rw [walkAncestry]
      simp
    | cons id stack =>
      rw [List.length_cons] at hfuel
      rw [walkAncestry]
      by_cases hseen : id ∈ walk.seen
      · rw [if_pos hseen]
        exact ih (by omega)
      · rw [if_neg hseen]
        cases hmanifest : S.manifest cas id with
        | error source => simp
        | ok manifest =>
          simp only
          cases S.resolve cas id with
          | error source => simp
          | ok pages =>
            simp only
            cases faults.putManifest id with
            | some source => simp
            | none =>
              have hlt := unseen_cons_lt (hknown id manifest hmanifest) hseen
              have hparent : manifest.parent.toList.length ≤ 1 := by
                cases manifest.parent <;> simp
              have hbase : manifest.overlayBase.toList.length ≤ 1 := by
                cases manifest.overlayBase <;> simp
              refine ih ?_
              rw [walkEdges, List.length_append, List.length_append]
              simp only
              omega

/-- What a walk knows besides: it staged nothing twice, and its pages are pages of what it has
seen. -/
structure Thrifty (cas : S.Cas) (root : S.ManifestId) (stack : List S.ManifestId)
    (walk : Walk S) : Prop extends Staging cas root walk stack where
  nodup : (walk.manifests.map Prod.fst).Nodup
  pageIds : ∀ id ∈ walk.pageIds, ∃ m ∈ walk.seen, ∃ pages, S.resolve cas m = .ok pages ∧
    ∃ p : PageNo, pages[p]? = some id

/-- A walk starts thrifty. -/
theorem thrifty_start (cas : S.Cas) (head : S.ManifestId) :
    Thrifty cas head [head] ⟨[], [], []⟩ :=
  ⟨⟨walking_start _ head, by simp, by simp, by simp⟩, List.nodup_nil, by simp⟩

/-- Skipping what was seen stays thrifty. -/
theorem Thrifty.skip {cas : S.Cas} {root id : S.ManifestId} {stack : List S.ManifestId}
    {walk : Walk S} (h : Thrifty cas root (id :: stack) walk) (hseen : id ∈ walk.seen) :
    Thrifty cas root stack walk :=
  ⟨⟨h.walking.skip hseen, h.staged_iff, h.manifest_eq, h.pages⟩, h.nodup, h.pageIds⟩

/-- Staging what was not seen stays thrifty. -/
theorem Thrifty.visit {cas : S.Cas} {root id : S.ManifestId} {stack : List S.ManifestId}
    {walk : Walk S} {manifest : Manifest S.ManifestId} {pages : PageMap S.PageId}
    (h : Thrifty cas root (id :: stack) walk) (hseen : id ∉ walk.seen)
    (hmanifest : S.manifest cas id = .ok manifest) (hpages : S.resolve cas id = .ok pages) :
    Thrifty cas root (walkEdges manifest stack) (walk.visit id manifest pages) where
  toStaging := h.toStaging.visit hmanifest hpages
  nodup := by
    rw [Walk.visit, List.map_append, List.nodup_append]
    refine ⟨h.nodup, List.nodup_singleton id, fun m hm m' hm' => ?_⟩
    obtain rfl := List.mem_singleton.mp hm'
    rintro rfl
    obtain ⟨⟨m, manifest'⟩, hmem, rfl⟩ := List.mem_map.mp hm
    exact hseen ((h.staged_iff m).mp ⟨manifest', hmem⟩)
  pageIds := by
    intro pageId hpageId
    rw [Walk.visit, List.mem_dedup, List.mem_append] at hpageId
    rcases hpageId with hold | hnew
    · obtain ⟨m, hm, rest⟩ := h.pageIds pageId hold
      exact ⟨m, List.mem_cons_of_mem id hm, rest⟩
    · exact ⟨id, List.mem_cons_self, pages, hpages, Overlay.mem_values_iff.mp hnew⟩

/-- The walk from a head is done after some number of steps, and thrifty then; it is stuck only
at what can be reached. -/
theorem walkAncestry_from (faults : SleepFaults S) {cas : S.Cas} (hfinite : S.Finite cas)
    (head : S.ManifestId) : ∃ bound, ∀ fuel ≥ bound,
      (∃ walk, (walkAncestry faults cas fuel [head] ⟨[], [], []⟩ :
        Except (FlockError S E) (Option (Walk S))) = .ok (some walk) ∧ Thrifty cas head [] walk) ∨
      ∃ e id, (walkAncestry faults cas fuel [head] ⟨[], [], []⟩ :
        Except (FlockError S E) (Option (Walk S))) = .error e ∧
        ReflTransGen (S.Edge cas) head id ∧ Stuck faults cas id := by
  obtain ⟨known, hknown⟩ := hfinite.exists_finset_coe
  have hmem (m : S.ManifestId) (manifest : Manifest S.ManifestId)
      (hmanifest : S.manifest cas m = .ok manifest) : m ∈ known := by
    rw [← Finset.mem_coe, hknown]
    exact ⟨manifest, hmanifest⟩
  refine ⟨2 * unseen known [] + 1, fun fuel hfuel => ?_⟩
  have hdone : (walkAncestry faults cas fuel [head] ⟨[], [], []⟩ :
      Except (FlockError S E) (Option (Walk S))) ≠ .ok none := walkAncestry_done hmem fuel hfuel
  obtain ⟨hok, herror⟩ := walkAncestry_rule (I := Thrifty cas head) (E := E) faults Thrifty.skip
    Thrifty.visit fuel (thrifty_start cas head)
  rcases hwalk : (walkAncestry faults cas fuel [head] ⟨[], [], []⟩ :
      Except (FlockError S E) (Option (Walk S))) with e | _ | walk
  · obtain ⟨id, stack, walk, hthrifty, hstuck⟩ := herror e hwalk
    exact .inr ⟨e, id, rfl, hthrifty.walking.stack_reached id List.mem_cons_self, hstuck⟩
  · exact absurd hwalk hdone
  · exact .inl ⟨walk, rfl, hok walk hwalk⟩

/-- The copy of the pages fails only at a page that cannot be read or staged. -/
theorem stagePages_error {faults : SleepFaults S} {cas : S.Cas} {ids : List S.PageId}
    {staged : List Bytes} {e : FlockError S E}
    (h : (stagePages faults cas ids staged : Except (FlockError S E) (List Bytes)) = .error e) :
    ∃ id ∈ ids, (∃ source, S.get cas id = .error source) ∨
      ∃ source, faults.putPage id = some source := by
  induction ids generalizing staged with
  | nil => cases h
  | cons id ids ih =>
    rw [stagePages] at h
    cases hget : S.get cas id with
    | error source => exact ⟨id, List.mem_cons_self, .inl ⟨source, hget⟩⟩
    | ok page =>
      simp only [hget] at h
      cases hput : faults.putPage id with
      | some source => exact ⟨id, List.mem_cons_self, .inr ⟨source, hput⟩⟩
      | none =>
        simp only [hput] at h
        obtain ⟨id', hid', hfails⟩ := ih h
        exact ⟨id', List.mem_cons_of_mem id hid', hfails⟩

/-- What a sleep stages of a source store: exactly what can be reached from the head, each
manifest once and unchanged, and a store with what was staged reads it as the source does. -/
structure StagesAncestry (staged : Uploaded S → S.Cas) (cas : S.Cas) (head : S.ManifestId)
    (uploaded : Uploaded S) : Prop extends Carries cas head uploaded where
  nodup : (uploaded.manifests.map Prod.fst).Nodup
  reads : ∀ m, ReflTransGen (S.Edge cas) head m → ∃ pages, S.resolve cas m = .ok pages ∧
    S.resolve (staged uploaded) m = .ok pages ∧
      ∀ (p : PageNo) (id : S.PageId), pages[p]? = some id →
        ∃ page, S.get cas id = .ok page ∧ S.get (staged uploaded) id = .ok page

/-- What is carried can be read. -/
theorem Carries.readable {cas : S.Cas} {head : S.ManifestId} {uploaded : Uploaded S}
    (h : Carries cas head uploaded) : S.Readable cas head := by
  intro m hreach
  obtain ⟨manifest, hmanifest⟩ := (h.manifest_iff m).mpr hreach
  obtain ⟨pages, hresolve, hpages⟩ := h.pages m hreach
  refine ⟨⟨manifest, h.manifest_eq m manifest hmanifest⟩, pages, hresolve, fun p id hp => ?_⟩
  obtain ⟨page, -, hget⟩ := hpages p id hp
  exact ⟨page, hget⟩

/-- What is carried reads the same where it was staged. -/
theorem Carries.reads (hS : S.ContentAddressed) {staged : Uploaded S → S.Cas}
    (hstaged : S.Wakes staged) {cas : S.Cas} {head : S.ManifestId} {uploaded : Uploaded S}
    (h : Carries cas head uploaded) (m : S.ManifestId) (hreach : ReflTransGen (S.Edge cas) head m) :
    ∃ pages, S.resolve cas m = .ok pages ∧ S.resolve (staged uploaded) m = .ok pages ∧
      ∀ (p : PageNo) (id : S.PageId), pages[p]? = some id →
        ∃ page, S.get cas id = .ok page ∧ S.get (staged uploaded) id = .ok page := by
  obtain ⟨pages, hresolve, hpages⟩ := h.pages m hreach
  have hholds := h.holds hS hstaged hreach
  have hpageMap := hS.eq_pageMap_of_resolve hresolve
  refine ⟨pages, hresolve, hpageMap ▸ hholds.resolve, fun p id hp => ?_⟩
  obtain ⟨page, hpage, hget⟩ := hpages p id hp
  refine ⟨page, hget, ?_⟩
  rw [← hS.pageHash_of_get hget]
  exact hstaged.get hpage

/-- An upload whose walk is done stages the pages, or fails at a call or at a page that cannot
be read. -/
theorem upload_of_walk {faults : SleepFaults S} {cas : S.Cas} {fuel : ℕ} {head : S.ManifestId}
    {walk : Walk S} (hwalk : (walkAncestry faults cas fuel [head] ⟨[], [], []⟩ :
      Except (FlockError S E) (Option (Walk S))) = .ok (some walk))
    (root remotePool : String) (pageSize : ℕ) :
    (∃ pages, (upload faults cas fuel root remotePool pageSize head :
        Except (FlockError S E) (Option (Uploaded S))) =
          .ok (some ⟨⟨remotePool, head, pageSize⟩, walk.manifests, pages⟩)) ∨
    ∃ e, (upload faults cas fuel root remotePool pageSize head :
        Except (FlockError S E) (Option (Uploaded S))) = .error e ∧
      (faults ≠ .none ∨ ∃ id ∈ walk.pageIds, ∃ source, S.get cas id = .error source) := by
  rw [upload]
  cases hstage : faults.stage with
  | some source =>
    refine .inr ⟨_, rfl, .inl fun hnone => ?_⟩
    rw [hnone] at hstage
    cases hstage
  | none =>
    simp only
    cases hopen : faults.openStaging with
    | some source =>
      refine .inr ⟨_, rfl, .inl fun hnone => ?_⟩
      rw [hnone] at hopen
      cases hopen
    | none =>
      simp only [hwalk]
      cases hpages : (stagePages faults cas walk.pageIds [] :
          Except (FlockError S E) (List Bytes)) with
      | error e =>
        obtain ⟨id, hid, hget | ⟨source, hput⟩⟩ := stagePages_error hpages
        · exact .inr ⟨e, rfl, .inr ⟨id, hid, hget⟩⟩
        · refine .inr ⟨e, rfl, .inl fun hnone => ?_⟩
          rw [hnone] at hput
          cases hput
      | ok pages =>
        simp only
        cases hposition : faults.position with
        | some source =>
          refine .inr ⟨_, rfl, .inl fun hnone => ?_⟩
          rw [hnone] at hposition
          cases hposition
        | none =>
          simp only
          cases hupload : faults.upload with
          | some source =>
            refine .inr ⟨_, rfl, .inl fun hnone => ?_⟩
            rw [hnone] at hupload
            cases hupload
          | none => exact .inl ⟨pages, rfl⟩

/-- An upload whose walk is stuck fails. -/
theorem upload_of_stuck {faults : SleepFaults S} {cas : S.Cas} {fuel : ℕ} {head : S.ManifestId}
    {e : FlockError S E} (hwalk : (walkAncestry faults cas fuel [head] ⟨[], [], []⟩ :
      Except (FlockError S E) (Option (Walk S))) = .error e)
    (root remotePool : String) (pageSize : ℕ) :
    ∃ e', (upload faults cas fuel root remotePool pageSize head :
      Except (FlockError S E) (Option (Uploaded S))) = .error e' := by
  rw [upload]
  cases faults.stage with
  | some source => exact ⟨_, rfl⟩
  | none =>
    simp only
    cases faults.openStaging with
    | some source => exact ⟨_, rfl⟩
    | none =>
      simp only [hwalk]
      exact ⟨e, rfl⟩

/-- Where everything can be read, the walk is never stuck if its calls go through. -/
theorem not_stuck_of_readable {cas : S.Cas} {head id : S.ManifestId}
    (h : S.Readable cas head) (hreach : ReflTransGen (S.Edge cas) head id) :
    ¬Stuck .none cas id := by
  obtain ⟨⟨manifest, hmanifest⟩, pages, hresolve, -⟩ := h id hreach
  rintro (⟨source, herror⟩ | ⟨source, herror⟩ | ⟨source, hput⟩)
  · rw [hmanifest] at herror
    cases herror
  · rw [hresolve] at herror
    cases herror
  · cases hput

/-- What an upload hands out, once it is done: a token only with the ancestry staged, no token
where something cannot be read, and a token where everything can be and its calls go through. -/
structure Finishes (staged : Uploaded S → S.Cas) (faults : SleepFaults S) (cas : S.Cas)
    (head : S.ManifestId) (result : Except (FlockError S E) (Option (Uploaded S))) : Prop where
  done : (∃ uploaded, result = .ok (some uploaded) ∧ StagesAncestry staged cas head uploaded) ∨
    ∃ e, result = .error e
  readable : S.Readable cas head → faults = .none → ∃ uploaded, result = .ok (some uploaded)
  unreadable : ¬S.Readable cas head → ∃ e, result = .error e

/-- After some number of steps an upload is done. -/
theorem upload_finishes (hS : S.ContentAddressed) {staged : Uploaded S → S.Cas}
    (hstaged : S.Wakes staged) (faults : SleepFaults S) {cas : S.Cas} (hfinite : S.Finite cas)
    (root remotePool : String) (pageSize : ℕ) (head : S.ManifestId) :
    ∃ bound, ∀ fuel ≥ bound, Finishes (E := E) staged faults cas head
      (upload faults cas fuel root remotePool pageSize head) := by
  obtain ⟨bound, hbound⟩ := walkAncestry_from (E := E) faults hfinite head
  refine ⟨bound, fun fuel hfuel => ?_⟩
  rcases hbound fuel hfuel with ⟨walk, hwalk, hthrifty⟩ | ⟨e, id, hwalk, hreach, hstuck⟩
  · rcases upload_of_walk hwalk root remotePool pageSize with
      ⟨pages, hupload⟩ | ⟨e, hupload, hfails⟩
    · obtain ⟨-, hcarries⟩ := carries_of_upload hupload
      refine ⟨.inl ⟨_, hupload, hcarries, hthrifty.nodup, fun m hreach =>
        hcarries.reads hS hstaged m hreach⟩, fun _ _ => ⟨_, hupload⟩, fun hunreadable => ?_⟩
      exact absurd hcarries.readable hunreadable
    · refine ⟨.inr ⟨e, hupload⟩, fun hreadable hnone => ?_, fun _ => ⟨e, hupload⟩⟩
      rcases hfails with hfaults | ⟨pageId, hpageId, source, herror⟩
      · exact absurd hnone hfaults
      · obtain ⟨m, hseen, pages, hresolve, p, hp⟩ := hthrifty.pageIds pageId hpageId
        obtain ⟨-, pages', hresolve', hpages⟩ :=
          hreadable m (hthrifty.walking.mem_seen_iff.mp hseen)
        obtain rfl : pages = pages' := Except.ok.inj (hresolve.symm.trans hresolve')
        obtain ⟨page, hget⟩ := hpages p pageId hp
        rw [hget] at herror
        cases herror
  · obtain ⟨e', hupload⟩ := upload_of_stuck hwalk root remotePool pageSize
    refine ⟨.inr ⟨e', hupload⟩, fun hreadable hnone => ?_, fun _ => ⟨e', hupload⟩⟩
    rw [hnone] at hstuck
    exact absurd hstuck (not_stuck_of_readable hreadable hreach)

/-- A sleep whose snapshot went through uploads from the store of its database and leaves the
pool as the snapshot left it. -/
theorem sleep_eq {env : Env S E} {db db' : Db S E} {pool pool' : Pool S} {head : S.ManifestId}
    (hsnapshot : db.snapshot env pool = (.ok head, db', pool')) (faults : SleepFaults S) :
    ∃ pageSize, ∀ fuel remotePool, db.sleep env faults fuel pool remotePool =
      (upload faults (db'.store.cas pool') fuel pool'.root remotePool pageSize head, pool') := by
  cases hstore : db'.store with
  | «local» head' =>
    refine ⟨pool'.pageSize, fun fuel remotePool => ?_⟩
    simp only [sleep, hsnapshot, hstore]
    rfl
  | tiered pager =>
    refine ⟨pager.pageSize, fun fuel remotePool => ?_⟩
    simp only [sleep, hsnapshot, hstore]
    rfl

/-- **A sleep stages the ancestry of its head, or fails and leaves the pool alone.** A sleep
takes a snapshot and then only reads: the pool is left as the snapshot left it, with nothing
lost and no other database touched. Whatever the edges between the manifests are, the walk
comes to an end; a token is handed out only when exactly the manifests that can be reached from
the head are staged, each once and unchanged, with every page that they resolve to, so that
they read on the staged store as they do in the pool. If something that can be reached cannot
be read, the sleep fails; otherwise it goes through if its calls on the staging store do. -/
theorem sleep_stages_ancestry (hS : S.Laws) {staged : Uploaded S → S.Cas}
    (hstaged : S.Wakes staged) (env : Env S E) (faults : SleepFaults S) (db : Db S E)
    (pool : Pool S) (remotePool : String) :
    (∀ fuel, (db.sleep env faults fuel pool remotePool).2 = (db.snapshot env pool).2.2 ∧
      pool.Beside db.name (db.sleep env faults fuel pool remotePool).2) ∧
    (∀ e, (db.snapshot env pool).1 = .error e →
      ∀ fuel, (db.sleep env faults fuel pool remotePool).1 = .error e) ∧
    ∀ head db' pool', db.snapshot env pool = (.ok head, db', pool') →
      S.Finite (db'.store.cas pool') → ∃ bound, ∀ fuel ≥ bound,
        Finishes staged faults (db'.store.cas pool') head
          (db.sleep env faults fuel pool remotePool).1 := by
  obtain ⟨hbeside, -, -⟩ := beside_snapshot hS env db pool
  rcases hsnapshot : db.snapshot env pool with ⟨e | head, db', pool'⟩
  · have hsleep (fuel : ℕ) : db.sleep env faults fuel pool remotePool = (.error e, pool') := by
      rw [sleep, hsnapshot]
    rw [hsnapshot] at hbeside
    refine ⟨fun fuel => ?_, fun e' he fuel => ?_, fun head db'' pool'' hok => (by cases hok)⟩
    · rw [hsleep]
      exact ⟨rfl, hbeside⟩
    · obtain rfl : e = e' := Except.error.inj he
      rw [hsleep]
  · obtain ⟨pageSize, hsleep⟩ := sleep_eq hsnapshot faults
    rw [hsnapshot] at hbeside
    refine ⟨fun fuel => ?_, fun e he => (by cases he), fun head' db'' pool'' hok hfinite => ?_⟩
    · rw [hsleep]
      exact ⟨rfl, hbeside⟩
    · obtain ⟨rfl, rfl, rfl⟩ : head = head' ∧ db' = db'' ∧ pool' = pool'' := by simpa using hok
      obtain ⟨bound, hbound⟩ := upload_finishes (E := E) hS.toContentAddressed hstaged faults
        hfinite pool'.root remotePool pageSize head
      refine ⟨bound, fun fuel hfuel => ?_⟩
      rw [hsleep]
      exact hbound fuel hfuel

end Db

/-- An in-memory store knows finitely many manifests. -/
theorem Memory.finite (frames : List (Record Bytes Memory.ManifestId)) (cas : Memory.Cas) :
    (memory frames).Finite cas := by
  refine ([] :: cas.manifests).finite_toSet.subset fun m ⟨manifest, hmanifest⟩ => ?_
  have hresolve : (Memory.resolve cas m).map (fun _ => (⟨m.tail?, m.tail?⟩ : Manifest _)) =
      .ok manifest := hmanifest
  unfold Memory.resolve at hresolve
  by_cases hm : m = [] ∨ m ∈ cas.manifests
  · exact List.mem_cons.mpr hm
  · rw [if_neg hm] at hresolve
    cases hresolve

/-- A database with two snapshots, back at the first, finishes its sleep. -/
theorem Db.sleep_stages_ancestry_sales : ∃ db head db' pool',
    (Runs.run World.step (World.start World.emptyPool) World.backToFirst).2.handles "sales" =
      some db ∧
    db.snapshot .none (Runs.run World.step (World.start World.emptyPool) World.backToFirst).2.pool =
      (.ok head, db', pool') ∧
    ∃ bound, ∀ fuel ≥ bound,
      Db.Finishes Memory.wake World.sleepFaults (db'.store.cas pool') head
        (db.sleep .none World.sleepFaults fuel
          (Runs.run World.step (World.start World.emptyPool) World.backToFirst).2.pool
            "bucket").1 := by
  obtain ⟨db, woken, hdb, uploaded, left, hslept, -⟩ : ∃ db woken, World.Wakes db woken :=
    ⟨_, _, rfl, _, _, rfl, rfl⟩
  rcases hsnapshot : db.snapshot .none
      (Runs.run World.step (World.start World.emptyPool) World.backToFirst).2.pool with
    ⟨e | head, db', pool'⟩
  · rw [Db.sleep, hsnapshot] at hslept
    cases hslept
  · exact ⟨db, head, db', pool', hdb, hsnapshot,
      (Db.sleep_stages_ancestry (Memory.laws []) (Memory.wakes []) .none World.sleepFaults db _
        "bucket").2.2 head db' pool' hsnapshot (Memory.finite [] _)⟩

end FlockDb
