import FlockDb.Core.Logs

/-!
# An in-memory substrate with a log that is read back

The in-memory substrate remembers of a log only the head it records. Here a log keeps a marker and
its records, and is rendered as files: one segment of frames, and the marker's frame. A frame is
the number of a record in unary, closed by a one, so that a reader finds where it ends.
-/

namespace FlockDb.Memory

/-- Bytes are numbered. -/
instance encodableByte : Encodable UInt8 :=
  .ofLeftInjection UInt8.toNat (fun n => some (UInt8.ofNat n)) fun _ => congrArg some
    UInt8.ofNat_toNat

/-- Manifests are numbered. -/
instance encodableChange : Encodable Change :=
  .ofLeftInjection (fun change => (change.entries, change.createdAtMs))
    (fun pair => some ⟨pair.1, pair.2⟩) fun _ => rfl

/-- A record as a tuple: its LSN, and a write, a commit or a checkpoint. -/
def toTuple (record : Record Bytes ManifestId) :
    Lsn × ((PageNo × Option Bytes) ⊕ (ManifestId × ℕ) ⊕ ManifestId) :=
  (record.lsn, match record.kind with
    | .write pageNo page => .inl (pageNo, page)
    | .commit manifest createdAtMs => .inr (.inl (manifest, createdAtMs))
    | .checkpoint manifest => .inr (.inr manifest))

/-- The record of a tuple. -/
def ofTuple : Lsn × ((PageNo × Option Bytes) ⊕ (ManifestId × ℕ) ⊕ ManifestId) →
    Record Bytes ManifestId
  | (lsn, .inl (pageNo, page)) => ⟨lsn, .write pageNo page⟩
  | (lsn, .inr (.inl (manifest, createdAtMs))) => ⟨lsn, .commit manifest createdAtMs⟩
  | (lsn, .inr (.inr manifest)) => ⟨lsn, .checkpoint manifest⟩

/-- Records are numbered. -/
instance encodableRecord : Encodable (Record Bytes ManifestId) :=
  .ofLeftInjection toTuple (fun tuple => some (ofTuple tuple)) fun record => by
    obtain ⟨lsn, kind⟩ := record
    cases kind <;> rfl

/-- The frame of a record. -/
def frame (record : Record Bytes ManifestId) : Bytes :=
  List.replicate (Encodable.encode record) 0 ++ [1]

/-- Read the frame at the front. -/
def decodeFrame (bytes : Bytes) : ReadOutcome Bytes ManifestId :=
  let number := (bytes.takeWhile fun byte => byte = 0).length
  if number < bytes.length then
    match Encodable.decode number with
    | some record => .record record (number + 1)
    | none => .torn
  else .torn

/-- A frame reads back as its record, whatever follows it. -/
theorem decodeFrame_frame (record : Record Bytes ManifestId) (rest : Bytes) :
    decodeFrame (frame record ++ rest) = .record record (frame record).length := by
  have hzeros : ∀ byte ∈ List.replicate (Encodable.encode record) (0 : UInt8),
      decide (byte = 0) = true := by simp
  have hnumber : ((frame record ++ rest).takeWhile fun byte => byte = 0).length =
      Encodable.encode record := by
    rw [frame, List.append_assoc, List.takeWhile_append_of_pos hzeros]
    simp
  have hlt : Encodable.encode record < (frame record ++ rest).length := by
    simp [frame]
  simp only [decodeFrame, hnumber, if_pos hlt, Encodable.encodek]
  simp [frame]

/-- A log directory: its marker, its records, and the first LSN that is free. -/
structure Journal where
  marker : Option (ManifestId × Lsn)
  records : List (Record Bytes ManifestId)
  nextLsn : Lsn
  marker_lt : ∀ m cp, marker = some (m, cp) → cp < nextLsn

namespace Journal

/-- A log directory that has just been created. -/
def fresh : Journal := ⟨none, [], 0, fun _ _ h => by cases h⟩

/-- The write records of a transaction. -/
def writes (journal : Journal) (changes : Changes Bytes) : List (Record Bytes ManifestId) :=
  (changes.toList.zipIdx journal.nextLsn).map fun entry =>
    ⟨entry.2, .write entry.1.1 entry.1.2⟩

/-- The LSN of a transaction's commit. -/
def commitLsn (journal : Journal) (changes : Changes Bytes) : Lsn :=
  journal.nextLsn + changes.toList.length

/-- The write records are of the changes, in order. -/
theorem kind_writes (journal : Journal) (changes : Changes Bytes) :
    (journal.writes changes).map Record.kind =
      changes.toList.map fun change => .write change.1 change.2 := by
  rw [writes, List.map_map]
  refine Eq.trans ?_ (congrArg (List.map fun change => RecordKind.write change.1 change.2)
    (List.zipIdx_map_fst journal.nextLsn changes.toList))
  rw [List.map_map]
  rfl

/-- The LSNs of the write records are free ones. -/
theorem nextLsn_le_writes (journal : Journal) (changes : Changes Bytes) :
    ∀ r ∈ journal.writes changes, journal.nextLsn ≤ r.lsn := by
  intro r hr
  obtain ⟨entry, hentry, rfl⟩ := List.mem_map.mp hr
  exact List.le_snd_of_mem_zipIdx hentry

/-- Append a transaction. -/
def append (journal : Journal) (changes : Changes Bytes) (manifest : ManifestId)
    (createdAtMs : ℕ) : Journal where
  marker := journal.marker
  records := journal.records ++ (journal.writes changes ++
    [⟨journal.commitLsn changes, .commit manifest createdAtMs⟩])
  nextLsn := journal.commitLsn changes + 1
  marker_lt := fun m cp h => by
    have hlt := journal.marker_lt m cp h
    exact (hlt.trans_le (Nat.le_add_right _ _)).trans (Nat.lt_succ_self _)

/-- Leave a marker for a head, and delete the records. -/
def checkpoint (journal : Journal) (head : ManifestId) : Journal where
  marker := some (head, journal.nextLsn)
  records := []
  nextLsn := journal.nextLsn + 1
  marker_lt := fun m cp h => by
    obtain ⟨-, rfl⟩ := Prod.mk.inj (Option.some.inj h)
    exact Nat.lt_succ_self _

/-- The manifest that a record commits. -/
def committedManifest (record : Record Bytes ManifestId) : Option ManifestId :=
  match record.kind with
  | .commit manifest _ => some manifest
  | _ => none

/-- The head that a log records: the last commit's, or the marker's. -/
def head (journal : Journal) : ManifestId :=
  (journal.records.reverse.findSome? committedManifest).getD
    ((journal.marker.map Prod.fst).getD [])

/-- The files of a log directory. -/
def files (journal : Journal) : WalFiles where
  readDir := .ok ["000000000000.wal"]
  fileExists := fun name => name = "CHECKPOINT" && journal.marker.isSome
  read := fun name =>
    if name = "CHECKPOINT" then
      .ok ((journal.marker.map fun marker => frame ⟨marker.2, .checkpoint marker.1⟩).getD [])
    else .ok (journal.records.flatMap frame)

end Journal

end FlockDb.Memory

namespace FlockDb

open Memory

/-- The in-memory substrate with logs that are read back. -/
def journaled : Substrate :=
  { memory [] with
    Wal := Journal
    commit := fun cas wal (head : ManifestId) txn now =>
      let m := deriveNext head txn now
      (m, { cas with manifests := m :: cas.manifests },
        if m = head then wal else wal.append txn m now)
    checkpoint := fun _ wal head => wal.checkpoint head
    recover := fun _ cas wal => (wal.head, cas, wal)
    recovered := fun _ wal => wal.head
    freshWal := .fresh
    decode := decodeFrame }

namespace Memory

/-- What grew in the in-memory substrate grew here. -/
theorem grows_journaled {cas cas' : Memory.Cas} (h : (memory []).Grows cas cas') :
    journaled.Grows cas cas' := ⟨h.get, h.manifest, h.resolve⟩

/-- The head of a log after a transaction is its manifest. -/
theorem Journal.head_append (journal : Journal) (changes : Changes Bytes) (manifest : ManifestId)
    (createdAtMs : ℕ) : (journal.append changes manifest createdAtMs).head = manifest := by
  rw [head, append, ← List.append_assoc, List.reverse_concat]
  rfl

/-- The substrate with logs satisfies every law. -/
theorem journaled_laws : journaled.Laws where
  pageHash_injective := fun _ _ h => h
  pageHash_of_get := eq_of_get
  eq_pageMap_of_resolve := eq_of_resolve
  read_ok_iff := read_ok_iff
  pageMap_emptyRoot := by
    rintro pageSize m h
    obtain rfl : [] = m := Except.ok.inj h
    rfl
  pageMap_deriveNext := pageMap_deriveNext
  staged_begin := fun _ => rfl
  write_id := fun _ _ _ _ => rfl
  staged_write := fun _ _ _ _ => rfl
  get_write := fun _ _ _ bytes => if_pos (List.mem_cons_self (a := bytes))
  grows_write := fun cas txn p bytes => grows_journaled ((laws []).grows_write cas txn p bytes)
  staged_remove := fun _ _ => rfl
  commit_id := fun _ _ _ _ _ => rfl
  grows_commit := fun cas _ head txn now =>
    grows_journaled ((laws []).grows_commit cas none head txn now)
  resolve_commit := fun _ txn now h => resolve_deriveNext txn now h
  recovered_commit := by
    intro cas wal head txn now pageSize h
    have hwal : (journaled.commit cas wal head txn now).2.2 =
        wal.append txn (deriveNext head txn now) now := if_neg h
    rw [hwal]
    exact wal.head_append txn (deriveNext head txn now) now
  wal_commit_of_unchanged := fun h => if_pos h
  install_id := fun _ _ _ _ => rfl
  grows_install := fun cas head txn now =>
    grows_journaled ((laws []).grows_install cas head txn now)
  resolve_install := fun txn now h => resolve_deriveNext txn now h
  recover_head := fun _ _ _ => rfl
  grows_recover := fun _ cas _ => .refl cas
  recovered_recover := fun _ _ _ => rfl
  recovered_checkpoint := fun _ _ _ _ => rfl
  recovered_freshWal := fun h => Except.ok.inj h

/-- Every frame has a byte. -/
theorem length_le_flatMap_frame (records : List (Record Bytes ManifestId)) :
    records.length ≤ (records.flatMap frame).length := by
  induction records with
  | nil => exact le_rfl
  | cons record records ih =>
    have hpos : 1 ≤ (frame record).length := by simp [frame]
    rw [List.flatMap_cons, List.length_append, List.length_cons]
    omega

/-- The frame loop reads a segment of frames back. -/
theorem readSegment_frames (records : List (Record Bytes ManifestId)) {fuel : ℕ}
    (hfuel : records.length ≤ fuel) :
    WalSource.readSegment (S := journaled) fuel (records.flatMap frame) = (records, false) := by
  induction records generalizing fuel with
  | nil => cases fuel <;> rfl
  | cons record records ih =>
    obtain ⟨fuel, rfl⟩ : ∃ n, fuel = n + 1 :=
      Nat.exists_eq_add_one_of_ne_zero (by rw [List.length_cons] at hfuel; omega)
    have hdecode : journaled.decode (frame record ++ records.flatMap frame) =
        .record record (frame record).length := decodeFrame_frame record _
    have hrest := @ih fuel (by rw [List.length_cons] at hfuel; omega)
    rw [List.flatMap_cons, WalSource.readSegment, hdecode]
    simp only [List.drop_left, hrest]
    rfl

/-- The logs of this substrate, as files and as what these read back as. -/
def journals : Logs journaled := ⟨Journal.files, fun wal => ⟨wal.marker, wal.records⟩⟩

/-- The logs read back as they are. -/
theorem journals_laws : journals.Laws where
  readCheckpoint_eq := by
    intro wal walDir cas pageSize
    obtain ⟨marker, records, nextLsn, hmarker⟩ := wal
    cases marker with
    | none => rfl
    | some marker =>
      have hdecode : journaled.decode (frame ⟨marker.2, .checkpoint marker.1⟩) =
          .record ⟨marker.2, .checkpoint marker.1⟩
            (frame ⟨marker.2, .checkpoint marker.1⟩).length := by
        have hframe := decodeFrame_frame ⟨marker.2, .checkpoint marker.1⟩ []
        rwa [List.append_nil] at hframe
      obtain ⟨m, lsn⟩ := marker
      simp [WalSource.readCheckpoint, journals, Journal.files, hdecode]
      rfl
  records_eq := by
    intro wal walDir cas pageSize
    have hnumber : segmentNumber "000000000000.wal" = some 0 := by decide
    have hname : segmentName 0 ≠ "CHECKPOINT" := by decide
    have hread := readSegment_frames wal.records (length_le_flatMap_frame wal.records)
    simp only [WalSource.records, WalSource.segments, WalSource.readSegments, journals,
      Journal.files, List.filterMap_cons, hnumber, List.filterMap_nil, List.mergeSort_singleton,
      if_neg hname, bind, Except.bind, hread]
    exact congrArg Except.ok (List.append_nil wal.records)
  view_freshWal := rfl
  view_recover := fun _ _ _ => rfl
  view_commit := by
    intro cas wal head txn now h
    have hwal : (journaled.commit cas wal head txn now).2.2 =
        wal.append txn (deriveNext head txn now) now := if_neg h
    rw [hwal]
    refine ⟨rfl, wal.writes txn, wal.commitLsn txn, rfl, ?_, ?_⟩
    · have hkinds := wal.kind_writes txn
      exact hkinds
    · rintro r hr ⟨m, cp, hmarker, hle⟩
      have hlt : cp < wal.nextLsn := wal.marker_lt m cp hmarker
      have hnext : wal.nextLsn ≤ r.lsn := by
        rcases List.mem_append.mp hr with hr | hr
        · exact wal.nextLsn_le_writes txn r hr
        · rw [List.mem_singleton.mp hr]
          exact Nat.le_add_right _ _
      exact absurd (hlt.trans_le hnext) (not_lt.mpr hle)
  view_checkpoint := fun _ wal head => ⟨wal.nextLsn, rfl, fun r hr => by cases hr⟩

end Memory

end FlockDb
