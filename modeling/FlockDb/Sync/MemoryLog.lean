import FlockDb.Substrate.Memory
import FlockDb.Sync.Replica
import FlockDb.Sync.Shipping

/-!
# A primary in memory

A log directory over the in-memory substrate: one segment that holds every frame
of the table, and no checkpoint. The source reads the table back, and a replica
that was just set up stands at the start of any such log. The closed examples
about shipping use a log of two commits.
-/

namespace FlockDb.Memory

variable (frames : List (Record Bytes ManifestId))

/-- The bytes of a segment that holds `count` frames from the `first` on. -/
def segmentBytes (first count : ℕ) : Bytes := (List.range' first count).map UInt8.ofNat

/-- A source over one segment with every frame and a store with some pages. -/
def source (pages : List Bytes) : WalSource (memory frames) where
  files := {
    readDir := .ok ["000000000000.wal"]
    fileExists := fun _ => false
    read := fun _ => .ok (segmentBytes 0 frames.length) }
  walDir := "wal"
  cas := ⟨pages, []⟩
  pageSize := 4096

variable {frames}

/-- A frame's byte decodes to its record. -/
theorem decode_segmentBytes (hsmall : frames.length ≤ 256) {first : ℕ} (count : ℕ)
    {record : Record Bytes ManifestId} (hrecord : frames[first]? = some record) :
    decode frames (segmentBytes first (count + 1)) = .record record 1 := by
  have hlt : first < frames.length := (List.getElem?_eq_some_iff.mp hrecord).1
  have hindex : (UInt8.ofNat first).toNat = first := by
    rw [UInt8.toNat_ofNat']
    exact Nat.mod_eq_of_lt (by omega)
  rw [segmentBytes, List.range'_succ, List.map_cons, decode, hindex, hrecord]

/-- The frame loop reads the table back from any frame on. -/
theorem readSegment_segmentBytes (hsmall : frames.length ≤ 256) (first : ℕ) {count fuel : ℕ}
    (hcount : first + count = frames.length) (hfuel : count ≤ fuel) :
    WalSource.readSegment (S := memory frames) fuel (segmentBytes first count) =
      (frames.drop first, false) := by
  induction count generalizing first fuel with
  | zero =>
    have hdrop : frames.drop first = [] := List.drop_eq_nil_of_le (by omega)
    rw [hdrop]
    cases fuel <;> rfl
  | succ count ih =>
    obtain ⟨fuel, rfl⟩ : ∃ n, fuel = n + 1 := ⟨fuel - 1, by omega⟩
    have hlt : first < frames.length := by omega
    have hdecode := decode_segmentBytes hsmall count (List.getElem?_eq_getElem hlt)
    have hrest : (segmentBytes first (count + 1)).drop 1 = segmentBytes (first + 1) count := by
      simp [segmentBytes, List.range'_succ]
    have hnext : WalSource.readSegment (S := memory frames) fuel (segmentBytes (first + 1) count) =
        (frames.drop (first + 1), false) := ih (first + 1) (by omega) (by omega)
    have hunfold : (memory frames).decode (segmentBytes first (count + 1)) =
        .record frames[first] 1 := hdecode
    rw [WalSource.readSegment, hunfold]
    simp only [hrest, hnext]
    exact congrArg (fun records => (records, false)) (List.drop_eq_getElem_cons hlt).symm

/-- The source reads the whole table back. -/
theorem records_source (hsmall : frames.length ≤ 256) (pages : List Bytes) :
    (source frames pages).records = .ok frames := by
  have hsegments : (source frames pages).segments = .ok [0] := by
    have hnumber : segmentNumber "000000000000.wal" = some 0 := by decide
    simp [WalSource.segments, source, hnumber]
  have hlength : (segmentBytes 0 frames.length).length = frames.length := by simp [segmentBytes]
  have hread := readSegment_segmentBytes hsmall 0 (Nat.zero_add frames.length) hlength.ge
  simp only [WalSource.records, hsegments, bind, Except.bind, WalSource.readSegments]
  simp only [source, hread]
  exact congrArg Except.ok (List.append_nil frames)

/-- A replica that was just set up, with an empty store. -/
def freshReplica (frames : List (Record Bytes ManifestId)) : Replica (memory frames) where
  store := { pager := { cas := ⟨[], []⟩, head := [], pageSize := 4096 }, wal := none }
  clock := .new
  appliedLsn := none

/-- A fresh replica stands at the empty root. -/
theorem freshReplica_startsAt (frames : List (Record Bytes ManifestId)) :
    (freshReplica frames).StartsAt [] where
  head := rfl
  recovered := rfl
  holds := by
    refine ⟨rfl, fun {p id} hp => ?_⟩
    have hempty : ((memory frames).pageMap [])[p]? = none := rfl
    cases hempty.symm.trans hp
  applied := rfl

/-- The manifest after setting page 0 once. -/
def firstHead : ManifestId := [⟨[(0, some [7])], 10⟩]

/-- The manifest after setting page 0 again. -/
def secondHead : ManifestId := ⟨[(0, some [8])], 20⟩ :: firstHead

/-- The frames of two commits that set page 0, at LSNs 1 and 3. -/
def twoCommits : List (Record Bytes ManifestId) :=
  [⟨0, .write 0 (some [7])⟩, ⟨1, .commit firstHead 10⟩,
    ⟨2, .write 0 (some [8])⟩, ⟨3, .commit secondHead 20⟩]

/-- The log of the two commits, over a store with their pages. -/
def twoCommitLog : PrimaryLog (source twoCommits [[7], [8]]) where
  marker := none
  records := twoCommits
  start := []
  readCheckpoint_eq := rfl
  records_eq := records_source (by decide) _
  startHead_eq := rfl
  lsn_lt := by
    have hlsns : (twoCommits.map Record.lsn).Pairwise (· < ·) := by decide
    exact List.pairwise_map.mp hlsns
  lsn_bound := by
    have hlsns : ∀ lsn ∈ twoCommits.map Record.lsn, lsn + 1 < 2 ^ 64 := by decide
    exact fun r hr => hlsns _ (List.mem_map_of_mem hr)
  marksHead := trivial
  derived := by
    intro c hc
    rcases List.mem_cons.mp hc with rfl | hc
    · decide
    · obtain rfl := List.mem_singleton.mp hc
      decide
  nodup := by decide

/-- The shipment of the first commit. -/
def firstShipment : Shipment (memory twoCommits) where
  base := []
  manifest := firstHead
  commitLsn := 1
  createdAtMs := 10
  writes := [⟨0, some [7]⟩]
  pages := [⟨[7], [7]⟩]

/-- The shipment of the second commit. -/
def secondShipment : Shipment (memory twoCommits) where
  base := firstHead
  manifest := secondHead
  commitLsn := 3
  createdAtMs := 20
  writes := [⟨0, some [8]⟩]
  pages := [⟨[8], [8]⟩]

/-- The source ships the two commits. -/
theorem shipmentsFrom_twoCommits :
    (source twoCommits [[7], [8]]).shipmentsFrom 0 = .ok [firstShipment, secondShipment] := by
  rw [twoCommitLog.shipmentsFrom_eq]
  rfl

/-- Both pages are in the primary's store. -/
theorem twoCommitLog_pagesPresent : twoCommitLog.PagesPresent :=
  twoCommitLog.pagesPresent_of_shipmentsFrom_zero (laws _).toContentAddressed
    shipmentsFrom_twoCommits

end FlockDb.Memory
