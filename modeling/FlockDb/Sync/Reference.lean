import FlockDb.Sync.MemoryLog

/-!
# What a log ships, record by record

`shipments_from` folds a log with a base and the writes it has not committed yet. Here each
shipment is read off the log: its base is what the commit before it reached, and its writes are
the last ones of each page since that commit.
-/

namespace FlockDb

open Fallible Positions

variable {S : Substrate}

/-- A record of a commit. -/
def Record.isCommit {P M : Type} (r : Record P M) : Bool :=
  match r.kind with
  | .commit _ _ => true
  | _ => false

/-- The last commit of a log reached this manifest, or it has none and starts there. -/
def LastHead (start : S.ManifestId) (log : List (Record S.PageId S.ManifestId))
    (m : S.ManifestId) : Prop :=
  (∃ lsn createdAtMs,
    LastOf (fun r => r.isCommit) (⟨lsn, .commit m createdAtMs⟩ : Record _ _) log) ∨
  (∀ r ∈ log, ¬r.isCommit) ∧ m = start

/-- The last write of a page since the last commit of a log says this. -/
def LastWrite (log : List (Record S.PageId S.ManifestId)) (p : PageNo)
    (page : Option S.PageId) : Prop :=
  ∃ lsn, LastOf (fun r => r.isCommit ∨ ∃ page', r.kind = .write p page')
    (⟨lsn, .write p page⟩ : Record _ _) log

/-- The records before an LSN. -/
def recordsBefore (records : List (Record S.PageId S.ManifestId)) (lsn : Lsn) :
    List (Record S.PageId S.ManifestId) :=
  records.filter fun r => r.lsn < lsn

/-- The commit records above a marker, from an LSN on. -/
def emitted (checkpointLsn : Option Lsn) (start : Lsn)
    (records : List (Record S.PageId S.ManifestId)) : List (Record S.PageId S.ManifestId) :=
  (aboveMarker checkpointLsn records).filter fun r => r.isCommit && start ≤ r.lsn

/-- A marker falls between transactions: the last record that it covers is a commit. -/
def BetweenTransactions (checkpointLsn : Option Lsn)
    (records : List (Record S.PageId S.ManifestId)) : Prop :=
  ∀ cp, checkpointLsn = some cp →
    ∀ r, (records.filter fun r => r.lsn ≤ cp).getLast? = some r → r.isCommit

/-- A shipment is the one that the log has at its LSN. -/
structure Reference (cas : S.Cas) (start : S.ManifestId) (checkpointLsn : Option Lsn)
    (records : List (Record S.PageId S.ManifestId)) (s : Shipment S) : Prop where
  base : LastHead start (aboveMarker checkpointLsn (recordsBefore records s.commitLsn)) s.base
  ascending : s.writes.Pairwise fun w w' => w.pageNo < w'.pageNo
  writes : ∀ p page, (⟨p, page⟩ : PageWrite S) ∈ s.writes ↔
    LastWrite (recordsBefore records s.commitLsn) p page
  blobs : (s.pages.map PageBlob.id).Nodup
  blob_iff : ∀ id, (∃ b ∈ s.pages, b.id = id) ↔ ∃ w ∈ s.writes, w.page = some id
  bytes : ∀ b ∈ s.pages, S.get cas b.id = .ok b.bytes
  bytesFor : ∀ w ∈ s.writes, ∀ id, w.page = some id →
    ∃ bytes, s.bytesFor id = some bytes ∧ S.get cas id = .ok bytes

section Fold

variable {log : List (Record S.PageId S.ManifestId)} {lsn : Lsn}

/-- A write leaves the last head. -/
theorem LastHead.write {start m : S.ManifestId} (h : LastHead start log m) (p : PageNo)
    (page : Option S.PageId) : LastHead start (log ++ [⟨lsn, .write p page⟩]) m := by
  rcases h with ⟨lsn', createdAtMs, hlast⟩ | ⟨hnone, rfl⟩
  · exact .inl ⟨lsn', createdAtMs, lastOf_concat.mpr (.inr ⟨by simp [Record.isCommit], hlast⟩)⟩
  · refine .inr ⟨fun r hr => ?_, rfl⟩
    rcases List.mem_append.mp hr with hr | hr
    · exact hnone r hr
    · obtain rfl := List.mem_singleton.mp hr
      simp [Record.isCommit]

/-- A commit is the last head. -/
theorem lastHead_commit (start m : S.ManifestId) (createdAtMs : ℕ) :
    LastHead start (log ++ [⟨lsn, .commit m createdAtMs⟩]) m :=
  .inl ⟨lsn, createdAtMs, lastOf_concat.mpr (.inl rfl)⟩

/-- One more write is the last one of its page, and of no other. -/
theorem lastWrite_write {p q : PageNo} {page page' : Option S.PageId} :
    LastWrite (log ++ [⟨lsn, .write q page'⟩]) p page ↔
      if q = p then page' = page else LastWrite log p page := by
  simp only [LastWrite, lastOf_concat]
  by_cases hq : q = p
  · subst hq
    rw [if_pos rfl]
    constructor
    · rintro ⟨l, heq | ⟨hstop, -⟩⟩
      · cases heq
        rfl
      · exact absurd (.inr ⟨page', rfl⟩) hstop
    · rintro rfl
      exact ⟨lsn, .inl rfl⟩
  · simp [hq, Ne.symm hq, Record.isCommit]

/-- After a commit no page has a write. -/
theorem not_lastWrite_commit {m : S.ManifestId} {createdAtMs : ℕ} {p : PageNo}
    {page : Option S.PageId} : ¬LastWrite (log ++ [⟨lsn, .commit m createdAtMs⟩]) p page := by
  simp [LastWrite, lastOf_concat, Record.isCommit]

end Fold

/-- A commit record is read back as a commit, whose base and changes are the log's. -/
structure ReadsAs (start : S.ManifestId) (log : List (Record S.PageId S.ManifestId))
    (r : Record S.PageId S.ManifestId) (c : Commit S) : Prop where
  record : r = ⟨c.lsn, .commit c.manifest c.createdAtMs⟩
  base : LastHead start (recordsBefore log c.lsn) c.base
  changes : ∀ p page, c.changes[p]? = some page ↔ LastWrite (recordsBefore log c.lsn) p page

/-- The marker lies below a commit that is read off the records above it. -/
theorem ReadsAs.marker_lt {start : S.ManifestId} {log records : List (Record S.PageId S.ManifestId)}
    {checkpointLsn : Option Lsn} {r : Record S.PageId S.ManifestId} {c : Commit S}
    (h : ReadsAs start log r c) (hr : r ∈ aboveMarker checkpointLsn records) (cp : Lsn)
    (hcp : checkpointLsn = some cp) : cp < c.lsn := by
  have hlt := (List.mem_filter.mp hr).2
  rw [h.record] at hlt
  simpa [hcp] using hlt

/-- The fold over the rest of a log, from the base and the writes that its first records leave,
reads the rest of its commit records. -/
theorem committed_readsAs {start : S.ManifestId} {done rest : List (Record S.PageId S.ManifestId)}
    (hlsn : (done ++ rest).Pairwise fun r r' => r.lsn < r'.lsn)
    (hkinds : ∀ r ∈ rest, ∀ m, r.kind ≠ .checkpoint m) {base : S.ManifestId}
    {pending : Changes S.PageId} (hbase : LastHead start done base)
    (hpending : ∀ p page, pending[p]? = some page ↔ LastWrite done p page) :
    List.Forall₂ (ReadsAs start (done ++ rest)) (rest.filter fun r => r.isCommit)
      (committed base pending rest) := by
  induction rest generalizing done base pending with
  | nil => exact .nil
  | cons r rest ih =>
    rw [List.forall_mem_cons] at hkinds
    have hsplit : done ++ r :: rest = (done ++ [r]) ++ rest := by simp
    obtain ⟨lsn, kind⟩ := r
    cases kind with
    | write q page' =>
      rw [List.filter_cons_of_neg (by simp [Record.isCommit])]
      rw [hsplit] at hlsn ⊢
      refine ih hlsn hkinds.2 (hbase.write q page') fun p page => ?_
      rw [lastWrite_write, Std.ExtTreeMap.getElem?_insert]
      by_cases hq : q = p
      · subst hq
        simp
      · have hne : ¬compare q p = .eq := fun h => hq (compare_eq_iff_eq.mp h)
        rw [if_neg hne, if_neg hq]
        exact hpending p page
    | commit m createdAtMs =>
      rw [List.filter_cons_of_pos (by simp [Record.isCommit])]
      have hbefore : recordsBefore (done ++ ⟨lsn, .commit m createdAtMs⟩ :: rest) lsn = done :=
        @filter_lt_eq _ Record.lsn _ _ _ hlsn
      refine .cons ⟨rfl, by rwa [hbefore], by rwa [hbefore]⟩ ?_
      rw [hsplit] at hlsn ⊢
      exact ih hlsn hkinds.2 (lastHead_commit start m createdAtMs) fun p page =>
        iff_of_false (by simp) not_lastWrite_commit
    | checkpoint m => exact absurd rfl (hkinds.1 m)

/-- What a marker covers ends in a commit, so no write reaches over it. -/
theorem lastWrite_aboveMarker {checkpointLsn : Option Lsn}
    {records : List (Record S.PageId S.ManifestId)}
    (hlsn : records.Pairwise fun r r' => r.lsn < r'.lsn)
    (hbetween : BetweenTransactions checkpointLsn records) {lsn : Lsn}
    (habove : ∀ cp, checkpointLsn = some cp → cp < lsn) (p : PageNo) (page : Option S.PageId) :
    LastWrite (recordsBefore (aboveMarker checkpointLsn records) lsn) p page ↔
      LastWrite (recordsBefore records lsn) p page := by
  cases hmarker : checkpointLsn with
  | none => simp [aboveMarker]
  | some cp =>
    have hsplit := @filter_le_append_filter_gt _ Record.lsn _ hlsn cp
    have hcovered : (records.filter fun r => r.lsn ≤ cp).filter (fun r => r.lsn < lsn) =
        records.filter fun r => r.lsn ≤ cp := by
      refine List.filter_eq_self.mpr fun r hr => ?_
      have hr : r.lsn ≤ cp := by simpa using (List.mem_filter.mp hr).2
      simpa using hr.trans_lt (habove cp hmarker)
    have hbefore : recordsBefore records lsn =
        (records.filter fun r => r.lsn ≤ cp) ++
          recordsBefore (aboveMarker (some cp) records) lsn := by
      conv_lhs => rw [← hsplit, recordsBefore, List.filter_append, hcovered]
      rfl
    rw [hbefore]
    refine exists_congr fun l => (lastOf_append (fun r hr => ?_) _).symm
    have hcommit := hbetween cp hmarker r hr
    refine ⟨.inl hcommit, ?_⟩
    rintro rfl
    simp [Record.isCommit] at hcommit

/-- The commits that the source would ship from an LSN, read off the log. -/
theorem emitted_readsAs {startHead : S.ManifestId} {checkpointLsn : Option Lsn}
    {records : List (Record S.PageId S.ManifestId)}
    (hlsn : records.Pairwise fun r r' => r.lsn < r'.lsn)
    (hkinds : ∀ r ∈ records, ∀ m, r.kind ≠ .checkpoint m) (start : Lsn) :
    List.Forall₂ (fun r c => r ∈ aboveMarker checkpointLsn records ∧
        ReadsAs startHead (aboveMarker checkpointLsn records) r c)
      (emitted checkpointLsn start records)
      ((committed startHead ∅ (aboveMarker checkpointLsn records)).filter
        fun c => start ≤ c.lsn) := by
  have habove : (aboveMarker checkpointLsn records).Pairwise fun r r' => r.lsn < r'.lsn :=
    hlsn.filter _
  have hread := @committed_readsAs S startHead [] _ habove
    (fun r hr => hkinds r (List.mem_filter.mp hr).1) startHead ∅ (.inr ⟨by simp, rfl⟩)
    fun p page => iff_of_false (by simp) (by simp [LastWrite])
  have hread' := (List.forall₂_and_left _ _).mpr
    ⟨fun r hr => (List.mem_filter.mp hr).1, hread⟩
  have hemitted : emitted checkpointLsn start records =
      ((aboveMarker checkpointLsn records).filter fun r => r.isCommit).filter
        fun r => start ≤ r.lsn := by
    rw [emitted, List.filter_filter]
    simp only [Bool.and_comm]
  rw [hemitted]
  refine List.rel_filter (fun r c hrc => ?_) hread'
  rw [hrc.2.record]

/-- The shipment of a commit that was read off a log is the one the log has. -/
theorem reference_of_shipped {start : S.ManifestId} {checkpointLsn : Option Lsn}
    {records : List (Record S.PageId S.ManifestId)}
    (hlsn : records.Pairwise fun r r' => r.lsn < r'.lsn)
    (hbetween : BetweenTransactions checkpointLsn records) {cas : S.Cas}
    {r : Record S.PageId S.ManifestId} (hr : r ∈ aboveMarker checkpointLsn records)
    {c : Commit S} (hc : ReadsAs start (aboveMarker checkpointLsn records) r c)
    {s : Shipment S} (hs : WalSource.Shipped cas c s) :
    Reference cas start checkpointLsn records s where
  base := by
    have hcomm : aboveMarker checkpointLsn (recordsBefore records s.commitLsn) =
        recordsBefore (aboveMarker checkpointLsn records) c.lsn := by
      rw [hs.commitLsn, aboveMarker, recordsBefore, recordsBefore, aboveMarker, List.filter_filter,
        List.filter_filter]
      simp only [Bool.and_comm]
    rw [hcomm, hs.base]
    exact hc.base
  ascending := by
    rw [hs.writes, List.pairwise_map]
    exact Std.ExtTreeMap.ordered_keys_toList.imp fun h => Nat.compare_eq_lt.mp h
  writes := by
    intro p page
    rw [hs.commitLsn, ← lastWrite_aboveMarker hlsn hbetween (hc.marker_lt hr), ← hc.changes,
      ← Std.ExtTreeMap.mem_toList_iff_getElem?_eq_some, hs.writes]
    simp
  blobs := hs.blobs.nodup
  blob_iff := by
    intro id
    have hset : (∃ w ∈ s.writes, w.page = some id) ↔ ∃ p, (p, some id) ∈ c.changes.toList := by
      rw [hs.writes]
      simp
    rw [hset]
    constructor
    · rintro ⟨b, hb, rfl⟩
      exact (hs.blobs.needed b hb).resolve_left (by simp)
    · rintro ⟨p, hp⟩
      exact hs.blobs.cover p id hp
  bytes := hs.blobs.fetched
  bytesFor := fun w hw id hid => hs.bytesFor hw hid

/-- A commit that cannot be shipped sets a page that the store does not have. -/
theorem WalSource.missing_of_ship {src : WalSource S} {c : Commit S} {e : SyncError S}
    (h : src.ship c = .error e) :
    ∃ p id, c.changes[p]? = some (some id) ∧ (∃ source, S.get src.cas id = .error source) ∧
      e = .missingPage c.lsn p (S.pageHex id) := by
  rcases src.ship_cases c with ⟨s, hok, -⟩ | ⟨e', herror, hblobs⟩
  · cases h.symm.trans hok
  · obtain rfl : e' = e := Except.error.inj (herror.symm.trans h)
    obtain ⟨p, id, hmem, hget, heq⟩ := WalSource.collectBlobs_error hblobs
    exact ⟨p, id, Std.ExtTreeMap.mem_toList_iff_getElem?_eq_some.mp hmem, hget, heq⟩

/-- **What a log ships.** From any LSN on, over any log of writes and commits and any marker
between its transactions, the source ships one shipment for each commit record above the marker
from there on, and it is the one that the log has; or a page that such a commit sets is missing,
and the source says so. -/
theorem shipmentsFrom_reference {src : WalSource S} {marker : Option (S.ManifestId × Lsn)}
    {startHead : S.ManifestId} {records : List (Record S.PageId S.ManifestId)}
    (hmarker : src.readCheckpoint = .ok marker) (hstart : src.startHead = .ok startHead)
    (hrecords : src.records = .ok records) (hkinds : ∀ r ∈ records, ∀ m, r.kind ≠ .checkpoint m)
    (hlsn : records.Pairwise fun r r' => r.lsn < r'.lsn)
    (hbetween : BetweenTransactions (marker.map Prod.snd) records) (start : Lsn) :
    (∀ shipments, src.shipmentsFrom start = .ok shipments →
      List.Forall₂ (fun r s => r = ⟨s.commitLsn, .commit s.manifest s.createdAtMs⟩ ∧
          Reference src.cas startHead (marker.map Prod.snd) records s)
        (emitted (marker.map Prod.snd) start records) shipments) ∧
    (∀ e, src.shipmentsFrom start = .error e →
      ∃ r ∈ emitted (marker.map Prod.snd) start records, ∃ p id,
        LastWrite (recordsBefore records r.lsn) p (some id) ∧
        (∃ source, S.get src.cas id = .error source) ∧
        e = .missingPage r.lsn p (S.pageHex id)) := by
  have hread := @emitted_readsAs S startHead (marker.map Prod.snd) _ hlsn hkinds start
  have hships : src.shipmentsFrom start = ((committed startHead ∅
      (aboveMarker (marker.map Prod.snd) records)).filter
        fun c => start ≤ c.lsn).mapM src.ship := by
    simp only [WalSource.shipmentsFrom, hmarker, hstart, hrecords, bind, Except.bind]
    exact src.foldRecords_eq _ _ _ _ _
  rw [hships]
  constructor
  · intro shipments hok
    refine (forall₂_comp hread (mapM_eq_ok_iff.mp hok)).imp ?_
    rintro r s ⟨c, ⟨hr, hc⟩, hship⟩
    have hshipped := WalSource.shipped_of_ship hship
    refine ⟨?_, reference_of_shipped hlsn hbetween hr hc hshipped⟩
    rw [hshipped.commitLsn, hshipped.manifest, hshipped.createdAtMs]
    exact hc.record
  · intro e herror
    obtain ⟨c, hmem, hship⟩ := exists_of_mapM_error herror
    obtain ⟨i, hi⟩ := List.mem_iff_getElem?.mp hmem
    obtain ⟨r, hr, habove, hc⟩ := exists_of_forall₂_right hread hi
    obtain ⟨p, id, hset, hget, heq⟩ := WalSource.missing_of_ship hship
    have hlsn' : r.lsn = c.lsn := by rw [hc.record]
    refine ⟨r, List.mem_of_getElem? hr, p, id, ?_, hget, by rw [hlsn', heq]⟩
    rw [hlsn', ← lastWrite_aboveMarker hlsn hbetween (hc.marker_lt habove)]
    exact (hc.changes p _).mp hset

/-- From LSN 2 on, the log of two commits ships its second commit. -/
theorem shipmentsFrom_reference_twoCommits :
    (Memory.source Memory.twoCommits [[7], [8]]).shipmentsFrom 2 = .ok [Memory.secondShipment] ∧
      Reference (Memory.source Memory.twoCommits [[7], [8]]).cas [] none Memory.twoCommits
        Memory.secondShipment := by
  have hships : (Memory.source Memory.twoCommits [[7], [8]]).shipmentsFrom 2 =
      .ok [Memory.secondShipment] := by
    rw [Memory.twoCommitLog.shipmentsFrom_eq]
    rfl
  refine ⟨hships, ?_⟩
  have hkinds : ∀ r ∈ Memory.twoCommits, ∀ m, r.kind ≠ .checkpoint m := by
    simp [Memory.twoCommits]
  have hshipped := (shipmentsFrom_reference Memory.twoCommitLog.readCheckpoint_eq
    Memory.twoCommitLog.startHead_eq Memory.twoCommitLog.records_eq hkinds
    Memory.twoCommitLog.lsn_lt (fun _ hcp => by cases hcp) 2).1 _ hships
  obtain ⟨_, _, ⟨-, hreference⟩, -⟩ := List.forall₂_cons_right_iff.mp hshipped
  exact hreference

end FlockDb
