import FlockDb.Library.Fallible
import FlockDb.Sync.Source

/-!
# The history a primary's log records

The fold of `shipments_from` is split into what it reads from the log and what it
fetches from the store: the commits of the log, and one shipment built for each
of them that the caller asked for. A `PrimaryLog` is the log of a real primary,
in which every commit was derived from the state before it.
-/

namespace FlockDb

open Fallible

/-- One committed transaction as the log records it. -/
structure Commit (S : Substrate) where
  base : S.ManifestId
  manifest : S.ManifestId
  lsn : Lsn
  createdAtMs : ℕ
  changes : Changes S.PageId

namespace Commit

variable {S : Substrate}

/-- The move a commit makes. -/
def link (c : Commit S) : Chain.Link S.ManifestId := ⟨c.base, c.manifest⟩

/-- The commit's manifest is the one its changes derive from its base. -/
def Derived (c : Commit S) : Prop := c.manifest = S.deriveNext c.base c.changes c.createdAtMs

instance (c : Commit S) : Decidable c.Derived := inferInstanceAs (Decidable (_ = _))

/-- Every page the commit sets is in the store. -/
def PagesIn (c : Commit S) (cas : S.Cas) : Prop :=
  ∀ (p : PageNo) (id : S.PageId), c.changes[p]? = some (some id) → ∃ bytes, S.get cas id = .ok bytes

end Commit

variable {S : Substrate}

/-- The records that a checkpoint marker does not cover. -/
def aboveMarker (checkpointLsn : Option Lsn) (records : List (Record S.PageId S.ManifestId)) :
    List (Record S.PageId S.ManifestId) :=
  records.filter fun record => !checkpointLsn.any fun cp => record.lsn ≤ cp

/-- The commits of a record sequence, from a base and the pending writes. -/
def committed : S.ManifestId → Changes S.PageId → List (Record S.PageId S.ManifestId) →
    List (Commit S)
  | _, _, [] => []
  | base, pending, ⟨_, .write pageNo page⟩ :: records =>
    committed base (pending.insert pageNo page) records
  | base, pending, ⟨lsn, .commit manifest createdAtMs⟩ :: records =>
    ⟨base, manifest, lsn, createdAtMs, pending⟩ :: committed manifest ∅ records
  | _, _, ⟨_, .checkpoint manifest⟩ :: records => committed manifest ∅ records

/-- An inline checkpoint record marks the head at its place in the log. -/
def MarksHead : S.ManifestId → List (Record S.PageId S.ManifestId) → Prop
  | _, [] => True
  | base, ⟨_, .write _ _⟩ :: records => MarksHead base records
  | _, ⟨_, .commit manifest _⟩ :: records => MarksHead manifest records
  | base, ⟨_, .checkpoint manifest⟩ :: records => manifest = base ∧ MarksHead base records

/-- Each commit of a well-marked log starts where the one before it ended. -/
theorem linked_committed {base : S.ManifestId} {pending : Changes S.PageId}
    {records : List (Record S.PageId S.ManifestId)} (h : MarksHead base records) :
    Chain.Linked base ((committed base pending records).map Commit.link) := by
  induction records generalizing base pending with
  | nil => trivial
  | cons record records ih =>
    obtain ⟨lsn, kind⟩ := record
    cases kind with
    | write pageNo page => exact ih h
    | commit manifest createdAtMs => exact ⟨rfl, ih h⟩
    | checkpoint manifest =>
      obtain ⟨rfl, hrest⟩ := h
      exact ih hrest

/-- The commits carry LSNs of the log, in its order. -/
theorem lsn_committed_sublist (base : S.ManifestId) (pending : Changes S.PageId)
    (records : List (Record S.PageId S.ManifestId)) :
    ((committed base pending records).map Commit.lsn).Sublist (records.map Record.lsn) := by
  induction records generalizing base pending with
  | nil => exact List.Sublist.refl _
  | cons record records ih =>
    obtain ⟨lsn, kind⟩ := record
    cases kind with
    | write pageNo page => exact (ih _ _).cons lsn
    | commit manifest createdAtMs => exact (ih _ _).cons_cons lsn
    | checkpoint manifest => exact (ih _ _).cons lsn

/-- Appending records appends the commits they make, from the state reached. -/
theorem committed_append_of_commit {base manifest : S.ManifestId} {pending : Changes S.PageId}
    {records more : List (Record S.PageId S.ManifestId)} {lsn : Lsn} {createdAtMs : ℕ} :
    committed base pending (records ++ ⟨lsn, .commit manifest createdAtMs⟩ :: more) =
      committed base pending (records ++ [⟨lsn, .commit manifest createdAtMs⟩]) ++
        committed manifest ∅ more := by
  induction records generalizing base pending with
  | nil => simp [committed]
  | cons record records ih =>
    obtain ⟨l, kind⟩ := record
    cases kind with
    | write pageNo page => simpa [committed] using ih
    | commit m t => simpa [committed] using ih
    | checkpoint m => simpa [committed] using ih

namespace WalSource

variable (src : WalSource S)

/-- The shipment of one commit. -/
def ship (c : Commit S) : Except (SyncError S) (Shipment S) :=
  src.buildShipment c.base c.manifest c.lsn c.createdAtMs c.changes

/-- The fold reads the commits of the records above the marker and ships the ones
at or past the start. -/
theorem foldRecords_eq (checkpointLsn : Option Lsn) (start : Lsn) (base : S.ManifestId)
    (pending : Changes S.PageId) (records : List (Record S.PageId S.ManifestId)) :
    src.foldRecords checkpointLsn start base pending records =
      ((committed base pending (aboveMarker checkpointLsn records)).filter
        fun c => start ≤ c.lsn).mapM src.ship := by
  induction records generalizing base pending with
  | nil => rfl
  | cons record records ih =>
    obtain ⟨lsn, kind⟩ := record
    by_cases hcovered : checkpointLsn.any (fun cp => lsn ≤ cp) = true
    · have habove : aboveMarker checkpointLsn (⟨lsn, kind⟩ :: records) =
          aboveMarker checkpointLsn records := by
        simp [aboveMarker, hcovered]
      simp only [foldRecords, if_pos hcovered, habove, ih]
    · have habove : aboveMarker checkpointLsn (⟨lsn, kind⟩ :: records) =
          ⟨lsn, kind⟩ :: aboveMarker checkpointLsn records := by
        simp [aboveMarker, hcovered]
      simp only [foldRecords, if_neg hcovered, habove]
      cases kind with
      | write pageNo page => exact ih _ _
      | checkpoint manifest => exact ih _ _
      | commit manifest createdAtMs =>
        by_cases hstart : start ≤ lsn
        · simp only [if_pos hstart, committed]
          rw [List.filter_cons_of_pos (by simpa using hstart), List.mapM_cons, ← ih]
          rfl
        · simp only [if_neg hstart, committed]
          rw [List.filter_cons_of_neg (by simpa using hstart)]
          exact ih _ _

end WalSource

/-- A history: commits that start at a head, each derived from the state the one
before it reached, with no state reached twice. -/
structure Ledger (S : Substrate) where
  start : S.ManifestId
  commits : List (Commit S)
  linked : Chain.Linked start (commits.map Commit.link)
  derived : ∀ c ∈ commits, c.Derived
  nodup : (Chain.states start (commits.map Commit.link)).Nodup

namespace Ledger

variable (ledger : Ledger S)

/-- The manifests `h₀, h₁, …, hₙ` of a history. -/
def heads : List S.ManifestId := Chain.states ledger.start (ledger.commits.map Commit.link)

/-- There is one head more than there are commits. -/
@[simp] theorem length_heads : ledger.heads.length = ledger.commits.length + 1 := by
  simp [heads]

/-- The first head is the start. -/
@[simp] theorem getElem?_heads_zero : ledger.heads[0]? = some ledger.start := rfl

/-- The head after a commit. -/
theorem getElem?_heads_succ (k : ℕ) :
    ledger.heads[k + 1]? = ledger.commits[k]?.map Commit.manifest := by
  rw [heads, Chain.getElem?_states_succ, List.getElem?_map, Option.map_map]
  rfl

/-- A head stands at one position of the history only. -/
theorem heads_position {i j : ℕ} {m : S.ManifestId} (hi : ledger.heads[i]? = some m)
    (hj : ledger.heads[j]? = some m) : i = j :=
  (List.getElem?_inj (List.getElem?_eq_some_iff.mp hi).1 ledger.nodup).mp (hi.trans hj.symm)

end Ledger

/-- The log of a primary: what the source reads back, and what substrate promises
of it. Every commit above the marker was derived from the state before it, states
do not repeat, and LSNs grow and leave room for the next one. -/
structure PrimaryLog (src : WalSource S) where
  marker : Option (S.ManifestId × Lsn)
  records : List (Record S.PageId S.ManifestId)
  start : S.ManifestId
  readCheckpoint_eq : src.readCheckpoint = .ok marker
  records_eq : src.records = .ok records
  startHead_eq : src.startHead = .ok start
  lsn_lt : records.Pairwise fun r r' => r.lsn < r'.lsn
  lsn_bound : ∀ r ∈ records, r.lsn + 1 < 2 ^ 64
  marksHead : MarksHead start (aboveMarker (marker.map Prod.snd) records)
  derived : ∀ c ∈ committed start ∅ (aboveMarker (marker.map Prod.snd) records), c.Derived
  nodup : (Chain.states start
    ((committed start ∅ (aboveMarker (marker.map Prod.snd) records)).map Commit.link)).Nodup

namespace PrimaryLog

variable {src : WalSource S} (log : PrimaryLog src)

/-- The commits a follower can be shipped, in order. -/
def commits : List (Commit S) :=
  committed log.start ∅ (aboveMarker (log.marker.map Prod.snd) log.records)

/-- The history that the log records. -/
def ledger : Ledger S where
  start := log.start
  commits := log.commits
  linked := linked_committed log.marksHead
  derived := log.derived
  nodup := log.nodup

/-- The manifests `h₀, h₁, …, hₙ` the primary went through. -/
abbrev heads : List S.ManifestId := log.ledger.heads

/-- Every page a shippable commit sets is in the primary's store. -/
def PagesPresent : Prop := ∀ c ∈ log.commits, c.PagesIn src.cas

/-- The head after a commit of the log. -/
theorem getElem?_heads_succ (k : ℕ) :
    log.heads[k + 1]? = log.commits[k]?.map Commit.manifest := log.ledger.getElem?_heads_succ k

/-- Commit LSNs grow along the log. -/
theorem lsn_lt_commits : log.commits.Pairwise fun c c' => c.lsn < c'.lsn := by
  have habove : (aboveMarker (log.marker.map Prod.snd) log.records).Pairwise
      fun r r' => r.lsn < r'.lsn := log.lsn_lt.filter _
  rw [← List.pairwise_map] at habove
  have h := habove.sublist (lsn_committed_sublist log.start ∅ _)
  rwa [List.pairwise_map] at h

/-- A commit's LSN is the LSN of a record above the marker. -/
theorem exists_record {c : Commit S} (hc : c ∈ log.commits) :
    ∃ r ∈ log.records, r.lsn = c.lsn ∧ ∀ m cp, log.marker = some (m, cp) → cp < r.lsn := by
  have hsub := (lsn_committed_sublist log.start ∅
    (aboveMarker (log.marker.map Prod.snd) log.records)).subset
  obtain ⟨r, hr, hlsn⟩ := List.mem_map.mp (hsub (List.mem_map_of_mem (f := Commit.lsn) hc))
  obtain ⟨hr, habove⟩ := List.mem_filter.mp hr
  refine ⟨r, hr, hlsn, fun m cp hmarker => ?_⟩
  simpa [hmarker] using habove

/-- The LSN after a commit does not overflow. -/
theorem nextLsn_eq {c : Commit S} (hc : c ∈ log.commits) :
    WalSource.nextLsn c.lsn = c.lsn + 1 := by
  obtain ⟨r, hr, hlsn, _⟩ := log.exists_record hc
  have hbound := log.lsn_bound r hr
  rw [hlsn] at hbound
  exact Nat.mod_eq_of_lt hbound

/-- The marker lies below every shippable commit. -/
theorem marker_lt {c : Commit S} (hc : c ∈ log.commits) {m : S.ManifestId} {cp : Lsn}
    (hmarker : log.marker = some (m, cp)) : cp < c.lsn := by
  obtain ⟨r, _, hlsn, hcp⟩ := log.exists_record hc
  exact hlsn ▸ hcp m cp hmarker

/-- The source ships the commits at or past the start, in order. -/
theorem shipmentsFrom_eq (start : Lsn) :
    src.shipmentsFrom start = (log.commits.filter fun c => start ≤ c.lsn).mapM src.ship := by
  simp only [WalSource.shipmentsFrom, log.readCheckpoint_eq, log.startHead_eq, log.records_eq,
    bind, Except.bind]
  exact src.foldRecords_eq _ _ _ _ _

end PrimaryLog

end FlockDb
