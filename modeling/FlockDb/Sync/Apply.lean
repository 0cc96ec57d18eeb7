import FlockDb.Sync.Replica

/-!
# One call of apply

`apply` has seven exits. They are grouped here by what they leave behind: the
call was recognized as a duplicate, refused before anything was staged, stopped
before the commit with the durable state untouched, or went through the commit.
Everything else about a replica is derived from this case split.
-/

namespace FlockDb

variable {S : Substrate}

/-- The page changes a list of writes leaves at a page come from the list or were
there before. -/
theorem Shipment.getElem?_changesFrom {changes : Changes S.PageId} {writes : List (PageWrite S)}
    {p : PageNo} {change : Option S.PageId} (h : (changesFrom changes writes)[p]? = some change) :
    changes[p]? = some change ∨ ∃ w ∈ writes, w.pageNo = p ∧ w.page = change := by
  induction writes generalizing changes with
  | nil => exact .inl h
  | cons w writes ih =>
    rcases ih h with hinsert | ⟨w', hw', hpage⟩
    · rw [Std.ExtTreeMap.getElem?_insert] at hinsert
      by_cases hp : compare w.pageNo p = .eq
      · rw [if_pos hp] at hinsert
        have hpageNo : w.pageNo = p := compare_eq_iff_eq.mp hp
        exact .inr ⟨w, by simp, hpageNo, Option.some.inj hinsert⟩
      · rw [if_neg hp] at hinsert
        exact .inl hinsert
    · exact .inr ⟨w', by simp [hw'], hpage⟩

namespace DurableStore

/-- What staging does to a store: nothing but new pages. -/
structure Staged (store store' : DurableStore S) : Prop where
  head : store'.head = store.head
  wal : store'.wal = store.wal
  pageSize : store'.pager.pageSize = store.pager.pageSize
  grows : S.Grows store.pager.cas store'.pager.cas

/-- Staging nothing changes nothing. -/
theorem Staged.refl (store : DurableStore S) : Staged store store := ⟨rfl, rfl, rfl, .refl _⟩

/-- Staging composes. -/
theorem Staged.trans {store store' store'' : DurableStore S} (h : Staged store store')
    (h' : Staged store' store'') : Staged store store'' :=
  ⟨h'.head.trans h.head, h'.wal.trans h.wal, h'.pageSize.trans h.pageSize,
    h.grows.trans h'.grows⟩

/-- Staging moves neither the head nor the head a restart would recover. -/
theorem Staged.recoveredHead_eq {store store' : DurableStore S} (h : Staged store store') :
    store'.recoveredHead = store.recoveredHead := by
  rw [recoveredHead, recoveredHead, h.wal, h.pageSize]

/-- A staged page only adds to the store. -/
theorem staged_write (hS : S.Stages) (faults : Faults S) (store : DurableStore S) (txn : S.Txn)
    (pageNo : PageNo) (bytes : Bytes) :
    Staged store (store.write faults txn pageNo bytes).2 := by
  obtain ⟨hhead, hwal, hpageSize, hgrows⟩ := write_grows hS faults store txn pageNo bytes
  exact ⟨hhead, hwal, hpageSize, hgrows⟩

end DurableStore

namespace Replica

/-- Why a write cannot be staged, if it cannot. -/
def stageError (faults : Faults S) (s : Shipment S) (w : PageWrite S) : Option (SyncError S) :=
  match w.page with
  | some id =>
    match s.bytesFor id with
    | none => some (.missingPage s.commitLsn w.pageNo (S.pageHex id))
    | some bytes =>
      match faults (.write w.pageNo) with
      | some e => some (.wal "stage a replicated page" e)
      | none =>
        if S.pageHash bytes ≠ id then
          some (.pageHashMismatch w.pageNo (S.pageHex id) (S.pageHex (S.pageHash bytes)))
        else none
  | none => (faults (.remove w.pageNo)).map (.wal "stage a replicated removal")

/-- A write that cannot be staged ends the staging, with pages added at most. -/
theorem stageWrites_cons_error (hS : S.Stages) {faults : Faults S} {s : Shipment S}
    {w : PageWrite S} {e : SyncError S} (h : stageError faults s w = some e)
    (writes : List (PageWrite S)) (txn : S.Txn) (store : DurableStore S) :
    ∃ store', stageWrites faults s (w :: writes) txn store = (.error e, store') ∧
      store.Staged store' := by
  obtain ⟨pageNo, page⟩ := w
  cases page with
  | some id =>
    simp only [stageError] at h
    simp only [stageWrites]
    cases hbytes : s.bytesFor id with
    | none =>
      rw [hbytes] at h
      exact ⟨store, by rw [Option.some.inj h], .refl store⟩
    | some bytes =>
      simp only [hbytes] at h
      have hwrite := DurableStore.staged_write hS faults store txn pageNo bytes
      cases hfault : faults (.write pageNo) with
      | some e' =>
        have hresult : store.write faults txn pageNo bytes = (.error e', store) := by
          simp [DurableStore.write, Pager.write, hfault]
        simp only [hfault, Option.some.injEq] at h
        exact ⟨store, by simp [hresult, h], .refl store⟩
      | none =>
        rcases hresult : store.write faults txn pageNo bytes with ⟨e' | ⟨staged, txn'⟩, store'⟩
        · simp [DurableStore.write, Pager.write, hfault] at hresult
        · obtain ⟨-, rfl, -, -⟩ := DurableStore.write_ok hS hresult
          rw [hresult] at hwrite
          simp only [hfault] at h
          by_cases hid : S.pageHash bytes ≠ id
          · rw [if_pos hid] at h
            exact ⟨store', by simp [hresult, if_pos hid, Option.some.inj h], hwrite⟩
          · rw [if_neg hid] at h
            cases h
  | none =>
    obtain ⟨e', hfault, rfl⟩ := Option.map_eq_some_iff.mp h
    have hremove : Pager.remove faults txn pageNo = .error e' := by
      simp [Pager.remove, Faults.guard, hfault]
    exact ⟨store, by simp [stageWrites, hremove], .refl store⟩

/-- A write that can be staged is, and the staging goes on. -/
theorem stageWrites_cons_ok (hS : S.Stages) {faults : Faults S} {s : Shipment S}
    {w : PageWrite S} (h : stageError faults s w = none) (writes : List (PageWrite S))
    (txn : S.Txn) (store : DurableStore S) :
    ∃ txn' store', stageWrites faults s (w :: writes) txn store =
        stageWrites faults s writes txn' store' ∧
      store.Staged store' ∧ S.staged txn' = (S.staged txn).insert w.pageNo w.page ∧
      ∀ id, w.page = some id → ∃ bytes, S.get store'.pager.cas id = .ok bytes := by
  obtain ⟨pageNo, page⟩ := w
  cases page with
  | some id =>
    simp only [stageError] at h
    cases hbytes : s.bytesFor id with
    | none => simp [hbytes] at h
    | some bytes =>
      cases hfault : faults (.write pageNo) with
      | some e => simp [hbytes, hfault] at h
      | none =>
        obtain rfl : S.pageHash bytes = id := by simpa [hbytes, hfault] using h
        have hwrite := DurableStore.staged_write hS faults store txn pageNo bytes
        rcases hresult : store.write faults txn pageNo bytes with ⟨e | ⟨staged, txn'⟩, store'⟩
        · simp [DurableStore.write, Pager.write, hfault] at hresult
        · obtain ⟨-, rfl, hstaged, hget⟩ := DurableStore.write_ok hS hresult
          rw [hresult] at hwrite
          refine ⟨txn', store', by simp [stageWrites, hbytes, hresult], hwrite, hstaged, ?_⟩
          intro id hid
          obtain rfl : S.pageHash bytes = id := Option.some.inj hid
          exact ⟨bytes, hget⟩
  | none =>
    have hfault : faults (.remove pageNo) = none := Option.map_eq_none_iff.mp h
    have hremove : Pager.remove faults txn pageNo = .ok (S.remove txn pageNo) := by
      simp [Pager.remove, Faults.guard, hfault]
    refine ⟨S.remove txn pageNo, store, by simp [stageWrites, hremove], .refl store,
      hS.staged_remove _ _, ?_⟩
    intro id hid
    cases hid

/-- Staging ends with the error of the first write that cannot be staged. -/
theorem stageWrites_error (hS : S.Stages) {faults : Faults S} {s : Shipment S}
    {writes : List (PageWrite S)} {e : SyncError S}
    (h : writes.findSome? (stageError faults s) = some e) (txn : S.Txn) (store : DurableStore S) :
    ∃ store', stageWrites faults s writes txn store = (.error e, store') ∧
      store.Staged store' := by
  induction writes generalizing txn store with
  | nil => cases h
  | cons w writes ih =>
    rw [List.findSome?_cons] at h
    cases hw : stageError faults s w with
    | some e' =>
      rw [hw] at h
      exact Option.some.inj h ▸ stageWrites_cons_error hS hw writes txn store
    | none =>
      rw [hw] at h
      obtain ⟨txn', store', hnext, hstaged, -⟩ := stageWrites_cons_ok hS hw writes txn store
      obtain ⟨store'', herror, hrest⟩ := ih h txn' store'
      exact ⟨store'', hnext.trans herror, hstaged.trans hrest⟩

/-- The pages that writes set are in a store. -/
def PagesIn (writes : List (PageWrite S)) (cas : S.Cas) : Prop :=
  ∀ w ∈ writes, ∀ id, w.page = some id → ∃ bytes, S.get cas id = .ok bytes

/-- When every write can be staged, the transaction ends up holding the writes and
the store their pages. -/
theorem stageWrites_ok (hS : S.Stages) {faults : Faults S} {s : Shipment S}
    {writes : List (PageWrite S)} (h : writes.findSome? (stageError faults s) = none)
    (txn : S.Txn) (store : DurableStore S) :
    ∃ txn' store', stageWrites faults s writes txn store = (.ok txn', store') ∧
      store.Staged store' ∧ S.staged txn' = Shipment.changesFrom (S.staged txn) writes ∧
      PagesIn writes store'.pager.cas := by
  induction writes generalizing txn store with
  | nil => exact ⟨txn, store, rfl, .refl store, rfl, by simp [PagesIn]⟩
  | cons w writes ih =>
    rw [List.findSome?_cons] at h
    cases hw : stageError faults s w with
    | some e => simp [hw] at h
    | none =>
      rw [hw] at h
      obtain ⟨txn', store', hnext, hstaged, hchanges, hpage⟩ :=
        stageWrites_cons_ok hS hw writes txn store
      obtain ⟨txn'', store'', hok, hrest, hchanges', hpages⟩ := ih h txn' store'
      refine ⟨txn'', store'', hnext.trans hok, hstaged.trans hrest, ?_, ?_⟩
      · rw [hchanges', hchanges]
        rfl
      · intro w' hw' id hid
        rcases List.mem_cons.mp hw' with rfl | hw'
        · obtain ⟨bytes, hget⟩ := hpage id hid
          exact ⟨bytes, hrest.grows.get hget⟩
        · exact hpages w' hw' id hid

/-- Why a shipment's transaction stops before the end of its commit, if it does. -/
def stopError (faults : Faults S) (s : Shipment S) : Option (SyncError S) :=
  match faults .begin with
  | some e => some (.wal "begin the replica transaction" e)
  | none =>
    match s.writes.findSome? (stageError faults s) with
    | some e => some e
    | none => (faults .commit).map (.wal "commit a replicated transaction")

/-- Without faults, exactly the intact shipments go through. -/
theorem stopError_none {s : Shipment S} : stopError .none s = none ↔ s.Intact := by
  have hstage (w : PageWrite S) : stageError .none s w = none ↔
      ∀ id, w.page = some id → ∃ bytes, s.bytesFor id = some bytes ∧ S.pageHash bytes = id := by
    obtain ⟨pageNo, page⟩ := w
    cases page with
    | none => simp [stageError]
    | some id => cases hbytes : s.bytesFor id <;> simp [stageError, hbytes]
  have hstop : stopError .none s = s.writes.findSome? (stageError .none s) := by
    cases h : s.writes.findSome? (stageError .none s) <;> simp [stopError, h]
  rw [hstop, List.findSome?_eq_none_iff]
  exact forall₂_congr fun w _ => hstage w

/-- The store after a shipment's transaction went through. -/
structure Replayed (store : DurableStore S) (s : Shipment S) (store' : DurableStore S) :
    Prop where
  head_eq : store'.head = S.deriveNext store.head s.changes s.createdAtMs
  pageSize_eq : store'.pager.pageSize = store.pager.pageSize
  grows : S.Grows store.pager.cas store'.pager.cas
  holds : S.Holds store.pager.cas store.head → S.Holds store'.pager.cas store'.head
  recovered : store'.head ≠ store.head → store'.recoveredHead = store'.head
  wal_eq : store'.head = store.head → store'.wal = store.wal

/-- Committing what was staged replays the shipment. -/
theorem replayed_of_committed (hC : S.ContentAddressed) {store staged store' : DurableStore S}
    {s : Shipment S} (hstaged : store.Staged staged) (hpages : PagesIn s.writes staged.pager.cas)
    (h : staged.Committed s.changes s.createdAtMs store') : Replayed store s store' where
  head_eq := by rw [h.head_eq, hstaged.head]
  pageSize_eq := h.pageSize_eq.trans hstaged.pageSize
  grows := hstaged.grows.trans h.grows
  holds := by
    intro hold
    have hold' : S.Holds staged.pager.cas staged.head := hstaged.head ▸ hold.grows hstaged.grows
    have hmap : S.pageMap store'.head = Overlay.overlay (S.pageMap staged.head) s.changes := by
      rw [h.head_eq, hC.pageMap_deriveNext]
    refine ⟨(h.resolve hold'.resolve).trans (by rw [hmap]), fun {p id} hp => ?_⟩
    rw [hmap, Overlay.getElem?_overlay] at hp
    cases hchange : s.changes[p]? with
    | none =>
      rw [hchange, Option.getD_none] at hp
      obtain ⟨bytes, hget⟩ := hold'.page hp
      exact ⟨bytes, h.grows.get hget⟩
    | some change =>
      rw [hchange, Option.getD_some] at hp
      rcases Shipment.getElem?_changesFrom hchange with habsurd | ⟨w, hw, -, hpage⟩
      · simp at habsurd
      · obtain ⟨bytes, hget⟩ := hpages w hw id (hpage.trans hp)
        exact ⟨bytes, h.grows.get hget⟩
  recovered := fun hne => h.recovered fun heq => hne (heq.trans hstaged.head)
  wal_eq := fun heq => (h.wal_eq (heq.trans hstaged.head.symm)).trans hstaged.wal

/-- A replay that ends at the head it started from changes nothing a restart finds. -/
theorem Replayed.recoveredHead_eq {store store' : DurableStore S} {s : Shipment S}
    (h : Replayed store s store') (hsame : store'.head = store.head) :
    store'.recoveredHead = store.recoveredHead := by
  rw [DurableStore.recoveredHead, DurableStore.recoveredHead, h.wal_eq hsame, h.pageSize_eq]

/-- A call that left the durable state and the position alone. -/
structure Kept (r r' : Replica S) : Prop where
  store : r.store.Staged r'.store
  appliedLsn : r'.appliedLsn = r.appliedLsn

/-- Every way `apply` can end. -/
inductive Outcome (faults : Faults S) (r : Replica S) (s : Shipment S) :
    Except (SyncError S) Applied × Replica S → Prop
  | present (hhead : r.head = s.manifest) : Outcome faults r s
      (.ok .alreadyPresent,
        { r with appliedLsn := some (r.appliedLsn.elim s.commitLsn (max · s.commitLsn)) })
  | outOfOrder (hmanifest : r.head ≠ s.manifest) (hbase : r.head ≠ s.base) : Outcome faults r s
      (.error (.outOfOrder s.commitLsn (S.manifestHex s.base) (S.manifestHex r.head)), r)
  | stopped {e r'} (hmanifest : r.head ≠ s.manifest) (hbase : r.head = s.base)
      (hstop : stopError faults s = some e) (hkept : Kept r r') : Outcome faults r s (.error e, r')
  | diverged {store'} (hmanifest : r.head ≠ s.manifest) (hbase : r.head = s.base)
      (hthrough : stopError faults s = none) (hreplayed : Replayed r.store s store')
      (hgot : store'.head ≠ s.manifest) : Outcome faults r s
      (.error (.diverged s.commitLsn (S.manifestHex s.manifest) (S.manifestHex store'.head)),
        { r with store := store', clock := r.clock.set s.createdAtMs })
  | advanced {store'} (hmanifest : r.head ≠ s.manifest) (hbase : r.head = s.base)
      (hthrough : stopError faults s = none) (hreplayed : Replayed r.store s store')
      (hgot : store'.head = s.manifest) : Outcome faults r s
      (.ok .advanced, ⟨store', r.clock.set s.createdAtMs, some s.commitLsn⟩)

/-- The transaction of a shipment that builds on the head: stopped with nothing
committed, or committed and compared. -/
theorem apply_of_base (hS : S.Laws) (faults : Faults S) (r : Replica S) (s : Shipment S)
    (hmanifest : r.head ≠ s.manifest) (hbase : r.head = s.base) :
    Outcome faults r s (r.apply faults s) := by
  have hmanifest' : r.store.head ≠ s.manifest := hmanifest
  have hbase' : ¬r.store.head ≠ s.base := not_not.mpr hbase
  simp only [apply, if_neg hmanifest', if_neg hbase']
  cases hbegin : faults .begin with
  | some e =>
    have herror : r.store.pager.begin faults = .error e := by
      simp [Pager.begin, Faults.guard, hbegin]
    simp only [herror]
    exact .stopped hmanifest hbase (by simp [stopError, hbegin]) ⟨.refl _, rfl⟩
  | none =>
    have hok : r.store.pager.begin faults = .ok (S.begin r.store.pager.head) := by
      simp [Pager.begin, Faults.guard, hbegin]
    simp only [hok]
    cases hstage : s.writes.findSome? (stageError faults s) with
    | some e =>
      obtain ⟨staged, hresult, hstaged⟩ :=
        stageWrites_error hS.toStages hstage (S.begin r.store.pager.head) r.store
      simp only [hresult]
      exact .stopped hmanifest hbase (by simp [stopError, hbegin, hstage]) ⟨hstaged, rfl⟩
    | none =>
      obtain ⟨txn, staged, hresult, hstaged, hchanges, hpages⟩ :=
        stageWrites_ok hS.toStages hstage (S.begin r.store.pager.head) r.store
      rw [hS.staged_begin] at hchanges
      simp only [hresult]
      rcases DurableStore.commit_cases hS.toCommits faults staged txn
          (r.clock.set s.createdAtMs).nowMs with
        ⟨e, hcommit, herror⟩ | ⟨hcommit, store', hcommitted, hstore'⟩
      · simp only [herror]
        have hstop : stopError faults s = some (.wal "commit a replicated transaction" e) := by
          simp [stopError, hbegin, hstage, hcommit]
        exact .stopped hmanifest hbase hstop ⟨hstaged, rfl⟩
      · have hthrough : stopError faults s = none := by
          simp [stopError, hbegin, hstage, hcommit]
        rw [hchanges] at hstore'
        have hreplayed : Replayed r.store s store' :=
          replayed_of_committed hS.toContentAddressed hstaged hpages hstore'
        simp only [hcommitted]
        by_cases hgot : store'.head = s.manifest
        · simp only [if_neg (not_not.mpr hgot)]
          exact .advanced hmanifest hbase hthrough hreplayed hgot
        · simp only [if_pos hgot]
          exact .diverged hmanifest hbase hthrough hreplayed hgot

/-- Every call of `apply` ends in one of these ways. -/
theorem apply_outcome (hS : S.Laws) (faults : Faults S) (r : Replica S) (s : Shipment S) :
    Outcome faults r s (r.apply faults s) := by
  by_cases hmanifest : r.head = s.manifest
  · have hresult : r.apply faults s = (.ok .alreadyPresent,
        { r with appliedLsn := some (r.appliedLsn.elim s.commitLsn (max · s.commitLsn)) }) := by
      rw [head] at hmanifest
      simp only [apply, if_pos hmanifest]
      cases r.appliedLsn <;> rfl
    rw [hresult]
    exact .present hmanifest
  · by_cases hbase : r.head = s.base
    · exact apply_of_base hS faults r s hmanifest hbase
    · have hresult : r.apply faults s = (.error (.outOfOrder s.commitLsn (S.manifestHex s.base)
          (S.manifestHex r.head)), r) := by
        rw [head] at hmanifest hbase
        simp only [apply, if_neg hmanifest, if_pos hbase]
        rfl
      rw [hresult]
      exact .outOfOrder hmanifest hbase

/-- A restart recovers the replica's head. -/
def Durable (r : Replica S) : Prop := r.store.recoveredHead = r.head

/-- `apply` keeps a replica durable, whatever it is given and however it ends. -/
theorem Durable.apply (hS : S.Laws) {r : Replica S} (h : Durable r) (faults : Faults S)
    (s : Shipment S) : Durable (r.apply faults s).2 := by
  have houtcome := apply_outcome hS faults r s
  have hreplay {store' : DurableStore S} (hreplayed : Replayed r.store s store') :
      store'.recoveredHead = store'.head := by
    by_cases hsame : store'.head = r.store.head
    · exact ((hreplayed.recoveredHead_eq hsame).trans h).trans hsame.symm
    · exact hreplayed.recovered hsame
  generalize r.apply faults s = result at houtcome
  cases houtcome with
  | present _ => exact h
  | outOfOrder _ _ => exact h
  | stopped _ _ _ hkept =>
    exact (hkept.store.recoveredHead_eq.trans h).trans hkept.store.head.symm
  | diverged _ _ _ hreplayed _ => exact hreplay hreplayed
  | advanced _ _ _ hreplayed _ => exact hreplay hreplayed

/-- A durable replica restarts at its head. -/
theorem Durable.reopen_head (hS : S.Laws) {r : Replica S} (h : Durable r) :
    r.reopen.head = r.head :=
  (DurableStore.recover_spec hS.toRecovers r.store).1.trans h

/-- Every replica that was just restarted is durable. -/
theorem durable_reopen (hS : S.Laws) (r : Replica S) : Durable r.reopen := by
  obtain ⟨hhead, hrecovered, -, -⟩ := DurableStore.recover_spec hS.toRecovers r.store
  exact hrecovered.trans hhead.symm

/-- The replica's store has every page of its head. -/
def Complete (r : Replica S) : Prop := S.Holds r.store.pager.cas r.head

/-- `apply` keeps a replica complete, whatever it is given and however it ends. -/
theorem Complete.apply (hS : S.Laws) {r : Replica S} (h : Complete r) (faults : Faults S)
    (s : Shipment S) : Complete (r.apply faults s).2 := by
  have houtcome := apply_outcome hS faults r s
  generalize r.apply faults s = result at houtcome
  cases houtcome with
  | present _ => exact h
  | outOfOrder _ _ => exact h
  | @stopped _ r' _ _ _ hkept =>
    have hhead : r'.head = r.head := hkept.store.head
    rw [Complete, hhead]
    exact Substrate.Holds.grows h hkept.store.grows
  | diverged _ _ _ hreplayed _ => exact hreplayed.holds h
  | advanced _ _ _ hreplayed _ => exact hreplayed.holds h

/-- A restart keeps a durable replica complete. -/
theorem Complete.reopen (hS : S.Laws) {r : Replica S} (h : Complete r) (hdurable : Durable r) :
    Complete r.reopen := by
  obtain ⟨-, -, -, hgrows⟩ := DurableStore.recover_spec hS.toRecovers r.store
  rw [Complete, hdurable.reopen_head hS]
  exact Substrate.Holds.grows h hgrows

end Replica

end FlockDb
