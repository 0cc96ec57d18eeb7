import FlockDb.Sync.Apply
import FlockDb.Sync.LiveLog

/-!
# Catching up with a primary at work

One call of `catch_up` reads the marker five times and the log twice, and the primary may
take steps before each of these reads. A call that ships anything ends at the head of the
last log it read. A call that ships nothing leaves the replica where it was: the position
from the first pass may lie before a marker that only the second pass finds.
-/

namespace FlockDb

open Runs Positions Fallible

variable {S : Substrate}

namespace WalSource

/-- `shipments_from`, with the source as each of its three reads finds it. -/
def shipmentsAcross (marker base log : WalSource S) (start : Lsn) :
    Except (SyncError S) (List (Shipment S)) := do
  let checkpoint ← marker.readCheckpoint
  let base ← base.startHead
  let records ← log.records
  log.foldRecords (checkpoint.map Prod.snd) start base ∅ records

/-- `resume_after`, with the source as each of its four reads finds it. -/
def resumeAcross (first marker base log : WalSource S) (head : S.ManifestId) :
    Except (SyncError S) Lsn := do
  let startHead ← first.startHead
  if head = startHead then return 0
  else
    let shipments ← shipmentsAcross marker base log 0
    match shipments.find? fun shipment => shipment.manifest = head with
    | some shipment => return nextLsn shipment.commitLsn
    | none => throw (.followerUnknown (S.manifestHex head))

end WalSource

namespace Replica

/-- `catch_up`, with the source as each of its seven reads finds it. -/
def catchUpAcross (faults : Lsn → Faults S) (r : Replica S) (src : ℕ → WalSource S) :
    Except (SyncError S) ℕ × Replica S :=
  match WalSource.resumeAcross (src 0) (src 1) (src 2) (src 3) r.store.head with
  | .error e => (.error e, r)
  | .ok start =>
    match WalSource.shipmentsAcross (src 4) (src 5) (src 6) start with
    | .error e => (.error e, r)
    | .ok shipments => applyAll faults r 0 shipments

/-- Beside a primary at rest, every read finds the same source. -/
theorem catchUpAcross_const (faults : Lsn → Faults S) (r : Replica S) (src : WalSource S) :
    r.catchUpAcross faults (fun _ => src) = r.catchUp faults src := rfl

/-- Shipments that were all applied leave the replica at the manifest of the last. -/
theorem applyAll_head (hS : S.Laws) (faults : Lsn → Faults S) {r r' : Replica S} {advanced n : ℕ}
    {shipments : List (Shipment S)} (h : applyAll faults r advanced shipments = (.ok n, r')) :
    r'.head = (shipments.getLast?.map Shipment.manifest).getD r.head := by
  induction shipments generalizing r advanced with
  | nil =>
    obtain rfl : r = r' := congrArg Prod.snd h
    rfl
  | cons s shipments ih =>
    rw [applyAll] at h
    have houtcome := apply_outcome hS (faults s.commitLsn) r s
    generalize r.apply (faults s.commitLsn) s = result at h houtcome
    have hlast : ∀ r₁ : Replica S, r₁.head = s.manifest →
        (shipments.getLast?.map Shipment.manifest).getD r₁.head =
          (((s :: shipments).getLast?).map Shipment.manifest).getD r.head := by
      intro r₁ hr₁
      cases shipments with
      | nil => exact hr₁
      | cons s' rest => simp [List.getLast?_cons]
    cases houtcome with
    | present hmanifest => exact (ih h).trans (hlast _ hmanifest)
    | outOfOrder _ _ => cases h
    | stopped _ _ _ _ => cases h
    | diverged _ _ _ _ _ => cases h
    | advanced _ _ _ _ hgot => exact (ih h).trans (hlast _ hgot)

end Replica

/-- One call of `catch_up` beside a primary, over a log that has just been set up at a root:
what the primary did before the call, and what it does before each of the seven reads. -/
structure LiveCall (root : S.ManifestId) where
  opened : LiveLog S
  opens : opened.Opens root
  before : List (PrimaryStep S)
  during : ℕ → List (PrimaryStep S)
  allowed : Along LiveLog.advance LiveLog.Allows opened
    (before ++ (List.range 7).flatMap during)

namespace LiveCall

variable {root : S.ManifestId} (call : LiveCall root)

/-- The log when the call begins. -/
def began : LiveLog S := (run LiveLog.advance call.opened call.before).2

/-- What the primary does from the beginning of the call to one of its reads. -/
def stepsTo (i : ℕ) : List (PrimaryStep S) := (List.range (i + 1)).flatMap call.during

/-- The log that one of the reads finds. -/
def found (i : ℕ) : LiveLog S := (run LiveLog.advance call.began (call.stepsTo i)).2

/-- The heads of the primary from the beginning of the call to its last read. -/
def held : List S.ManifestId :=
  call.began.head :: (run LiveLog.advance call.began (call.stepsTo 6)).1

/-- The steps up to a read are those up to an earlier one and then others. -/
theorem stepsTo_prefix {i j : ℕ} (hij : i ≤ j) : call.stepsTo i <+: call.stepsTo j := by
  obtain ⟨k, rfl⟩ := Nat.exists_eq_add_of_le hij
  have hrange : List.range (i + k + 1) =
      List.range (i + 1) ++ (List.range k).map fun n => i + 1 + n := by
    rw [← List.range_add]
    congr 1
    omega
  rw [stepsTo, stepsTo, hrange, List.flatMap_append]
  exact List.prefix_append _ _

/-- The log is sound when the call begins. -/
theorem sound_began : call.began.Sound root :=
  (call.opens.sound.run (along_append.mp call.allowed).1).1

/-- Up to any read the primary takes steps that it may take. -/
theorem allowed_stepsTo {i : ℕ} (hi : i ≤ 6) :
    Along LiveLog.advance LiveLog.Allows call.began (call.stepsTo i) := by
  obtain ⟨rest, hrest⟩ := call.stepsTo_prefix hi
  have hallowed := (along_append.mp call.allowed).2
  change Along _ _ _ (call.stepsTo 6) at hallowed
  rw [← hrest] at hallowed
  exact (along_append.mp hallowed).1

/-- Every read finds a sound log. -/
theorem sound_found {i : ℕ} (hi : i ≤ 6) : (call.found i).Sound root :=
  (call.sound_began.run (call.allowed_stepsTo hi)).1

/-- A later read finds a later log. -/
theorem later_found {i j : ℕ} (hij : i ≤ j) (hj : j ≤ 6) : (call.found i).Later (call.found j) := by
  obtain ⟨rest, hrest⟩ := call.stepsTo_prefix hij
  have hallowed := call.allowed_stepsTo hj
  rw [← hrest, along_append] at hallowed
  have hfound : call.found j = (run LiveLog.advance (call.found i) rest).2 := by
    rw [found, ← hrest, run_append]
    rfl
  rw [hfound]
  exact ((call.sound_found (hij.trans hj)).run hallowed.2).2

/-- The head after some steps is the head before them, or the one after one of them. -/
theorem head_mem_run (p : LiveLog S) (steps : List (PrimaryStep S)) :
    (run LiveLog.advance p steps).2.head ∈ p.head :: (run LiveLog.advance p steps).1 := by
  induction steps generalizing p with
  | nil => exact List.mem_singleton_self _
  | cons s steps ih =>
    rw [run_cons]
    exact List.mem_cons_of_mem _ (ih (p.step s))

/-- The head that a read finds was held since the call began. -/
theorem head_found_mem {i : ℕ} (hi : i ≤ 6) : (call.found i).head ∈ call.held := by
  obtain ⟨rest, hrest⟩ := call.stepsTo_prefix hi
  have hmem := head_mem_run call.began (call.stepsTo i)
  rw [held, ← hrest, run_append]
  rcases List.mem_cons.mp hmem with heq | hmem
  · exact heq ▸ List.mem_cons_self
  · exact List.mem_cons_of_mem _ (List.mem_append_left _ hmem)

/-- What the two marker reads and the log scan of one pass leave of the log: the records past
the marker that the first of them finds. -/
def pass (i : ℕ) : List (Record S.PageId S.ManifestId) :=
  aboveMarker ((call.found i).marker.map Prod.snd) (call.found (i + 2)).records

/-- The first pass finds a replica: at the marker of the first read, or among the commits of
the pass, if the pages of these are in the store. -/
def Places (cas : S.Cas) (head : S.ManifestId) : Prop :=
  head = (call.found 0).startHead root ∨
    (∀ c ∈ committed ((call.found 2).startHead root) ∅ (call.pass 1), c.PagesIn cas) ∧
      ∃ lsn createdAtMs, (⟨lsn, .commit head createdAtMs⟩ : Record _ _) ∈ call.pass 1

/-- The second pass finds no commit: the marker of its first read covers every commit left in
the log. -/
def NothingLeft : Prop := ∀ r ∈ call.pass 4, ¬r.isCommit

end LiveCall

/-- A source over the files of a log, at a page size whose empty root is this one. -/
structure Shows (root : S.ManifestId) (src : WalSource S) (p : LiveLog S) : Prop where
  readCheckpoint_eq : src.readCheckpoint = .ok p.marker
  records_eq : src.records = .ok p.records
  emptyRoot_eq : S.emptyRoot src.pageSize = .ok root

/-- A source finds where a follower with nothing applied stands. -/
theorem Shows.startHead_eq {root : S.ManifestId} {src : WalSource S} {p : LiveLog S}
    (h : Shows root src p) : src.startHead = .ok (p.startHead root) := by
  rw [WalSource.startHead, h.readCheckpoint_eq, LiveLog.startHead]
  cases hmarker : p.marker with
  | none =>
    simp only [bind, Except.bind, h.emptyRoot_eq]
    rfl
  | some marker => rfl

namespace LiveCall

variable {root : S.ManifestId} {call : LiveCall root} {src : ℕ → WalSource S}

/-- A pass ships the commits past its marker, from a start on. -/
theorem shipmentsAcross_eq (hsrc : ∀ i < 7, Shows root (src i) (call.found i)) {i : ℕ}
    (hi : i + 2 < 7) (start : Lsn) :
    WalSource.shipmentsAcross (src i) (src (i + 1)) (src (i + 2)) start =
      ((committed ((call.found (i + 1)).startHead root) ∅ (call.pass i)).filter
        fun c => start ≤ c.lsn).mapM (src (i + 2)).ship := by
  have hmarker := (hsrc i (by omega)).readCheckpoint_eq
  have hbase := (hsrc (i + 1) (by omega)).startHead_eq
  have hrecords := (hsrc (i + 2) hi).records_eq
  simp only [WalSource.shipmentsAcross, hmarker, hbase, hrecords, bind, Except.bind]
  exact (src (i + 2)).foldRecords_eq _ _ _ _ _

/-- The shipments of a pass are those of its commit records, in order. -/
theorem emitted_of_shipmentsAcross (hsrc : ∀ i < 7, Shows root (src i) (call.found i)) {i : ℕ}
    (hi : i + 2 < 7) {start : Lsn} {shipments : List (Shipment S)}
    (h : WalSource.shipmentsAcross (src i) (src (i + 1)) (src (i + 2)) start = .ok shipments) :
    List.Forall₂ (fun r s => r = ⟨s.commitLsn, .commit s.manifest s.createdAtMs⟩)
      (emitted ((call.found i).marker.map Prod.snd) start (call.found (i + 2)).records)
      shipments := by
  have hsound := call.sound_found (i := i + 2) (by omega)
  rw [shipmentsAcross_eq hsrc hi] at h
  have hread := @emitted_readsAs S ((call.found (i + 1)).startHead root)
    ((call.found i).marker.map Prod.snd) _ hsound.lsn_lt hsound.kinds start
  refine (forall₂_comp hread (mapM_eq_ok_iff.mp h)).imp ?_
  rintro r s ⟨c, ⟨-, hc⟩, hship⟩
  have hshipped := WalSource.shipped_of_ship hship
  rw [hshipped.commitLsn, hshipped.manifest, hshipped.createdAtMs]
  exact hc.record

/-- A record of a pass is in the log that the pass scans, past the marker it reads first. -/
theorem mem_pass_iff {i : ℕ} {r : Record S.PageId S.ManifestId} :
    r ∈ call.pass i ↔
      r ∈ (call.found (i + 2)).records ∧ ¬CoveredBy (call.found i).marker r.lsn := by
  rw [pass, aboveMarker, List.mem_filter]
  cases hmarker : (call.found i).marker with
  | none => simp [CoveredBy]
  | some marker =>
    obtain ⟨m, cp⟩ := marker
    simp [CoveredBy]

/-- Where the first pass puts a replica: at the start, or right after a commit of its head. -/
def Position (call : LiveCall root) (head : S.ManifestId) (start : Lsn) : Prop :=
  start = 0 ∨ ∃ lsn createdAtMs, start = WalSource.nextLsn lsn ∧
    (⟨lsn, .commit head createdAtMs⟩ : Record _ _) ∈ (call.found 3).records

/-- A first pass that returns a position has found the replica there. -/
theorem places_of_resumeAcross (hS : S.ContentAddressed)
    (hsrc : ∀ i < 7, Shows root (src i) (call.found i)) {head : S.ManifestId} {start : Lsn}
    (h : WalSource.resumeAcross (src 0) (src 1) (src 2) (src 3) head = .ok start) :
    call.Places (src 3).cas head ∧ call.Position head start := by
  have hstart := (hsrc 0 (by omega)).startHead_eq
  simp only [WalSource.resumeAcross, hstart, bind, Except.bind] at h
  by_cases hhead : head = (call.found 0).startHead root
  · rw [if_pos hhead] at h
    exact ⟨.inl hhead, .inl (Except.ok.inj h).symm⟩
  · rw [if_neg hhead] at h
    cases hshipments : WalSource.shipmentsAcross (src 1) (src 2) (src 3) 0 with
    | error e =>
      rw [hshipments] at h
      cases h
    | ok shipments =>
      rw [hshipments] at h
      have hemitted := emitted_of_shipmentsAcross hsrc (i := 1) (by omega) hshipments
      rw [shipmentsAcross_eq hsrc (by omega)] at hshipments
      simp only at h
      cases hfind : shipments.find? fun s => s.manifest = head with
      | none =>
        rw [hfind] at h
        cases h
      | some s =>
        rw [hfind] at h
        obtain rfl : WalSource.nextLsn s.commitLsn = start := Except.ok.inj h
        have hmanifest : s.manifest = head := by simpa using List.find?_some hfind
        obtain ⟨j, hj⟩ := List.mem_iff_getElem?.mp (List.mem_of_find?_eq_some hfind)
        obtain ⟨r, hr, hrs⟩ := exists_of_forall₂_right hemitted hj
        have hmem : (⟨s.commitLsn, .commit head s.createdAtMs⟩ : Record _ _) ∈ call.pass 1 := by
          rw [← hmanifest, ← hrs]
          exact (List.mem_filter.mp (List.mem_of_getElem? hr)).1
        refine ⟨.inr ⟨fun c hc => ?_, _, _, hmem⟩, .inr ⟨_, _, rfl, (mem_pass_iff.mp hmem).1⟩⟩
        obtain ⟨shipped, hshipped⟩ :=
          mapM_isOk_iff.mp ⟨shipments, hshipments⟩ c (by simpa using hc)
        exact (WalSource.carries_of_ship hS hshipped).2

/-- A first pass that finds the replica returns a position. -/
theorem resumeAcross_of_places (hsrc : ∀ i < 7, Shows root (src i) (call.found i))
    {head : S.ManifestId} (h : call.Places (src 3).cas head) :
    ∃ start, WalSource.resumeAcross (src 0) (src 1) (src 2) (src 3) head = .ok start := by
  have hstart := (hsrc 0 (by omega)).startHead_eq
  simp only [WalSource.resumeAcross, hstart, bind, Except.bind]
  by_cases hhead : head = (call.found 0).startHead root
  · exact ⟨0, if_pos hhead⟩
  · rcases h with hfirst | ⟨hpages, lsn, createdAtMs, hmem⟩
    · exact absurd hfirst hhead
    obtain ⟨shipments, hshipments⟩ : ∃ shipments,
        WalSource.shipmentsAcross (src 1) (src 2) (src 3) 0 = .ok shipments := by
      rw [shipmentsAcross_eq hsrc (by omega), mapM_isOk_iff]
      exact fun c hc => WalSource.ship_isOk (hpages c (List.mem_filter.mp hc).1)
    have hemitted := emitted_of_shipmentsAcross hsrc (i := 1) (by omega) hshipments
    obtain ⟨j, hj⟩ := List.mem_iff_getElem?.mp (List.mem_filter.mpr
      ⟨hmem, by simp [Record.isCommit]⟩ : (⟨lsn, .commit head createdAtMs⟩ : Record _ _) ∈
        emitted ((call.found 1).marker.map Prod.snd) 0 (call.found 3).records)
    obtain ⟨s, hs, hrs⟩ := exists_of_forall₂ hemitted hj
    have hfound : (shipments.find? fun s => s.manifest = head).isSome := by
      refine List.find?_isSome.mpr ⟨s, List.mem_of_getElem? hs, ?_⟩
      cases hrs
      simp
    obtain ⟨s', hs'⟩ := Option.isSome_iff_exists.mp hfound
    rw [if_neg hhead, hshipments]
    simp only [hs']
    exact ⟨_, rfl⟩

/-- A second pass that finds no commit ships nothing. -/
theorem shipmentsAcross_of_nothingLeft (hsrc : ∀ i < 7, Shows root (src i) (call.found i))
    (h : call.NothingLeft) (start : Lsn) :
    WalSource.shipmentsAcross (src 4) (src 5) (src 6) start = .ok [] := by
  have hsound := call.sound_found (i := 6) le_rfl
  have hread := @committed_readsAs S ((call.found 5).startHead root) [] (call.pass 4)
    (hsound.lsn_lt.filter _) (fun r hr => hsound.kinds r (mem_pass_iff.mp hr).1) _ ∅
    (.inr ⟨by simp, rfl⟩) fun p page => iff_of_false (by simp) (by simp [LastWrite])
  have hnone : (call.pass 4).filter (fun r => r.isCommit) = [] :=
    List.filter_eq_nil_iff.mpr h
  rw [hnone, List.forall₂_nil_left_iff] at hread
  rw [shipmentsAcross_eq hsrc (by omega), hread]
  rfl

/-- What is shipped last by the second pass is the head of the log that it scanned. -/
theorem manifest_of_getLast? (hsrc : ∀ i < 7, Shows root (src i) (call.found i)) {start : Lsn}
    {shipments : List (Shipment S)}
    (h : WalSource.shipmentsAcross (src 4) (src 5) (src 6) start = .ok shipments)
    {s : Shipment S} (hs : shipments.getLast? = some s) : s.manifest = (call.found 6).head := by
  have hsound := call.sound_found (i := 6) le_rfl
  have hemitted := emitted_of_shipmentsAcross hsrc (i := 4) (by omega) h
  rw [List.getLast?_eq_getElem?] at hs
  obtain ⟨r, hr, rfl⟩ := exists_of_forall₂_right hemitted hs
  rw [← hemitted.length_eq, ← List.getLast?_eq_getElem?, emitted, aboveMarker,
    List.filter_filter] at hr
  refine hsound.last s.commitLsn s.manifest s.createdAtMs (lastOf_of_getLast?_filter ?_ hr)
  -- a commit after one that is emitted is emitted
  refine hsound.lsn_lt.imp fun {r r'} hlt hkept hcommit => ?_
  simp only [Bool.and_eq_true, decide_eq_true_eq, Bool.not_eq_eq_eq_not, Bool.not_true] at hkept ⊢
  refine ⟨⟨hcommit, hkept.1.2.trans hlt.le⟩, ?_⟩
  cases hmarker : (call.found 4).marker with
  | none => rfl
  | some marker =>
    have habove : marker.2 < r.lsn := by simpa [hmarker] using hkept.2
    simpa using habove.trans hlt

/-- The last commit of the log that the second pass scans, if it scans one. -/
theorem exists_last {r : Record S.PageId S.ManifestId} (hr : r ∈ (call.found 6).records)
    (hcommit : r.isCommit) : ∃ lsn createdAtMs, LastOf (fun r => r.isCommit)
      (⟨lsn, .commit (call.found 6).head createdAtMs⟩ : Record _ _) (call.found 6).records := by
  have hsome : ((call.found 6).records.filter fun r => r.isCommit) ≠ [] :=
    List.ne_nil_of_mem (List.mem_filter.mpr ⟨hr, hcommit⟩)
  obtain ⟨last, hlast⟩ : ∃ last, ((call.found 6).records.filter fun r => r.isCommit).getLast? =
      some last := ⟨_, List.getLast?_eq_some_getLast hsome⟩
  have hmem := (List.mem_filter.mp (List.mem_of_getLast? hlast)).2
  have hlastOf : LastOf (fun r => r.isCommit) last (call.found 6).records :=
    lastOf_of_getLast?_filter (List.pairwise_of_forall fun _ _ _ h => h) hlast
  obtain ⟨lsn, kind⟩ := last
  cases kind with
  | write p page => cases hmem
  | checkpoint m => cases hmem
  | commit m createdAtMs =>
    obtain rfl := (call.sound_found (i := 6) le_rfl).last lsn m createdAtMs hlastOf
    exact ⟨lsn, createdAtMs, hlastOf⟩

/-- The last commit lies past the commit of a head that is no longer held. -/
theorem lt_last {head : S.ManifestId} (hbehind : head ∉ call.held) {lsn lsn' : Lsn}
    {createdAtMs createdAtMs' : ℕ}
    (hr : (⟨lsn, .commit head createdAtMs⟩ : Record _ _) ∈ (call.found 3).records)
    (hlast : LastOf (fun r => r.isCommit)
      (⟨lsn', .commit (call.found 6).head createdAtMs'⟩ : Record _ _) (call.found 6).records) :
    lsn < lsn' := by
  obtain ⟨gone, kept, new, hrecords, hrecords', -, hnew⟩ :=
    (call.later_found (i := 3) (j := 6) (by omega) le_rfl).records
  have hsound := call.sound_found (i := 3) (by omega)
  have hlsn := hsound.lsn_lt
  have hmem := hlast.mem
  rw [hrecords'] at hmem
  rcases List.mem_append.mp hmem with hkept | hmem
  · have hr' := hr
    rw [hrecords] at hr' hlsn
    rcases List.mem_append.mp hr' with hgone | hr'
    · exact (List.pairwise_append.mp hlsn).2.2 _ hgone _ hkept
    · have hr' : (⟨lsn, .commit head createdAtMs⟩ : Record _ _) ∈ (call.found 6).records := by
        rw [hrecords']
        exact List.mem_append_left _ hr'
      rcases hlast.eq_or_lt (call.sound_found (i := 6) le_rfl).lsn_lt hr' rfl with heq | hlt
      · cases heq
        exact absurd (call.head_found_mem le_rfl) hbehind
      · exact hlt
  · exact (hsound.lsn_lt_next _ hr).trans_le (hnew _ hmem)

/-- If the second pass finds a commit, a replica that is behind is shipped something. -/
theorem shipments_ne_nil (hsrc : ∀ i < 7, Shows root (src i) (call.found i))
    {head : S.ManifestId} (hbehind : head ∉ call.held) (hleft : ¬call.NothingLeft) {start : Lsn}
    (hposition : call.Position head start) {shipments : List (Shipment S)}
    (h : WalSource.shipmentsAcross (src 4) (src 5) (src 6) start = .ok shipments) :
    shipments ≠ [] := by
  obtain ⟨r, hr, hcommit⟩ : ∃ r ∈ call.pass 4, r.isCommit := by
    simpa [NothingLeft] using hleft
  obtain ⟨hscanned, habove⟩ := mem_pass_iff.mp hr
  obtain ⟨lsn, createdAtMs, hlast⟩ := exists_last hscanned hcommit
  have hsound := call.sound_found (i := 6) le_rfl
  have hle : r.lsn ≤ lsn := by
    rcases hlast.eq_or_lt hsound.lsn_lt hscanned hcommit with rfl | hlt
    · exact le_rfl
    · exact hlt.le
  have hpass : (⟨lsn, .commit (call.found 6).head createdAtMs⟩ : Record _ _) ∈ call.pass 4 := by
    refine mem_pass_iff.mpr ⟨hlast.mem, fun hcovered => habove ?_⟩
    obtain ⟨m, cp, hmarker, hcp⟩ := hcovered
    exact ⟨m, cp, hmarker, hle.trans hcp⟩
  have hstart : start ≤ lsn := by
    rcases hposition with rfl | ⟨lsn', createdAtMs', rfl, hr'⟩
    · exact Nat.zero_le lsn
    · exact (Nat.mod_le _ _).trans (lt_last hbehind hr' hlast)
  have hemitted := emitted_of_shipmentsAcross hsrc (i := 4) (by omega) h
  rintro rfl
  rw [List.forall₂_nil_right_iff] at hemitted
  have hmem : (⟨lsn, .commit (call.found 6).head createdAtMs⟩ : Record _ _) ∈
      emitted ((call.found 4).marker.map Prod.snd) start (call.found 6).records :=
    List.mem_filter.mpr ⟨hpass, by simpa [Record.isCommit] using hstart⟩
  rw [hemitted] at hmem
  cases hmem

/-- A call that succeeds leaves the replica at a head held since it began, unless it was
behind, was found by the first pass, and the second pass found no commit. -/
theorem held_of_ok (hS : S.Laws) (hsrc : ∀ i < 7, Shows root (src i) (call.found i))
    (faults : Lsn → Faults S) {r : Replica S}
    (hfine : ¬(r.head ∉ call.held ∧ call.Places (src 3).cas r.head ∧ call.NothingLeft)) {n : ℕ}
    (hok : (r.catchUpAcross faults src).1 = .ok n) :
    (r.catchUpAcross faults src).2.head ∈ call.held := by
  rw [Replica.catchUpAcross] at hok ⊢
  cases hresume : WalSource.resumeAcross (src 0) (src 1) (src 2) (src 3) r.store.head with
  | error e =>
    rw [hresume] at hok
    cases hok
  | ok start =>
    obtain ⟨hplaces, hposition⟩ := places_of_resumeAcross hS.toContentAddressed hsrc hresume
    rw [hresume] at hok
    simp only at hok ⊢
    cases hshipments : WalSource.shipmentsAcross (src 4) (src 5) (src 6) start with
    | error e =>
      rw [hshipments] at hok
      cases hok
    | ok shipments =>
      rw [hshipments] at hok
      simp only at hok ⊢
      have hhead := Replica.applyAll_head hS faults (Prod.ext hok rfl)
      rw [hhead]
      cases hlast : shipments.getLast? with
      | some s =>
        rw [Option.map_some, Option.getD_some, manifest_of_getLast? hsrc hshipments hlast]
        exact call.head_found_mem le_rfl
      | none =>
        rw [Option.map_none, Option.getD_none]
        by_contra hbehind
        have hnone := List.getLast?_eq_none_iff.mp hlast
        refine hfine ⟨hbehind, hplaces, ?_⟩
        by_contra hleft
        exact shipments_ne_nil hsrc hbehind hleft hposition hshipments hnone

/-- A call whose first pass finds the replica and whose second pass finds no commit succeeds
and does nothing. -/
theorem catchUpAcross_of_nothingLeft (hsrc : ∀ i < 7, Shows root (src i) (call.found i))
    (faults : Lsn → Faults S) {r : Replica S} (hplaces : call.Places (src 3).cas r.head)
    (hnothing : call.NothingLeft) : r.catchUpAcross faults src = (.ok 0, r) := by
  obtain ⟨start, hresume⟩ := resumeAcross_of_places hsrc hplaces
  have hshipments := shipmentsAcross_of_nothingLeft hsrc hnothing start
  have hresume : WalSource.resumeAcross (src 0) (src 1) (src 2) (src 3) r.store.head =
      .ok start := hresume
  simp only [Replica.catchUpAcross, hresume, hshipments, Replica.applyAll]

/-- **Success, and behind.** Whatever the primary does between the reads of one call, a call
that succeeds leaves the replica at a head that the primary held since the call began, except
when the replica's manifest is no such head, the first pass finds it and the second pass finds
no commit past its marker; then the call succeeds and the replica stays behind. -/
theorem caught_up_iff (hS : S.Laws) (hsrc : ∀ i < 7, Shows root (src i) (call.found i))
    (faults : Lsn → Faults S) (r : Replica S) :
    ((∃ n, (r.catchUpAcross faults src).1 = .ok n) →
        (r.catchUpAcross faults src).2.head ∈ call.held) ↔
      ¬(r.head ∉ call.held ∧ call.Places (src 3).cas r.head ∧ call.NothingLeft) := by
  constructor
  · rintro hheld ⟨hbehind, hplaces, hnothing⟩
    rw [catchUpAcross_of_nothingLeft hsrc faults hplaces hnothing] at hheld
    exact hbehind (hheld ⟨0, rfl⟩)
  · rintro hfine ⟨n, hok⟩
    exact held_of_ok hS hsrc faults hfine hok

/-- Without a new marker, every read finds the marker of the beginning. -/
theorem marker_found (hunmarked : ∀ i, ∀ s ∈ call.during i, ∀ lsn, s ≠ .checkpoint lsn) (i : ℕ) :
    (call.found i).marker = call.began.marker := by
  have hsteps : ∀ s ∈ call.stepsTo i, ∀ lsn, s ≠ .checkpoint lsn := by
    intro s hs
    obtain ⟨j, -, hj⟩ := List.mem_flatMap.mp hs
    exact hunmarked j s hj
  have hstep : ∀ (p : LiveLog S) s, (∀ lsn, s ≠ .checkpoint lsn) →
      p.marker = call.began.marker → (LiveLog.advance p s).2.marker = call.began.marker := by
    intro p s hs h
    cases s with
    | checkpoint lsn => exact absurd rfl (hs lsn)
    | append writes lsn manifest createdAtMs => exact h
    | rollover => exact h
    | deleteSealed => exact h
  exact run_invariant hstep hsteps rfl

/-- A call during which the primary writes no marker never leaves a replica behind and
succeeds, whatever is appended or deleted meanwhile. -/
theorem caught_up_of_unmarked (hS : S.Laws) (hsrc : ∀ i < 7, Shows root (src i) (call.found i))
    (hunmarked : ∀ i, ∀ s ∈ call.during i, ∀ lsn, s ≠ .checkpoint lsn) (faults : Lsn → Faults S)
    {r : Replica S} {n : ℕ} (hok : (r.catchUpAcross faults src).1 = .ok n) :
    (r.catchUpAcross faults src).2.head ∈ call.held := by
  refine held_of_ok hS hsrc faults ?_ hok
  rintro ⟨hbehind, hplaces, hnothing⟩
  have hmarker (i : ℕ) : (call.found i).marker = (call.found 6).marker :=
    (marker_found hunmarked i).trans (marker_found hunmarked 6).symm
  have hsound := call.sound_found (i := 6) le_rfl
  rcases hplaces with hstart | ⟨-, lsn, createdAtMs, hmem⟩
  · -- nothing is left past the marker, so the head is where the marker stands
    have hpast : ∀ r ∈ (call.found 6).past, ¬r.isCommit := by
      intro r hr
      obtain ⟨hr, habove⟩ := LiveLog.mem_past_iff.mp hr
      exact hnothing r (mem_pass_iff.mpr ⟨hr, by rwa [hmarker 4]⟩)
    rcases hsound.head with ⟨lsn, createdAtMs, hlast⟩ | ⟨-, hhead⟩
    · exact hpast _ hlast.mem rfl
    · refine hbehind ?_
      have hsame : (call.found 0).startHead root = (call.found 6).startHead root := by
        rw [LiveLog.startHead, hmarker 0, LiveLog.startHead]
      rw [hstart, hsame, ← hhead]
      exact call.head_found_mem le_rfl
  · -- the commit of the replica is not covered, so it is still there
    obtain ⟨hscanned, habove⟩ := mem_pass_iff.mp hmem
    obtain ⟨gone, kept, new, hrecords, hrecords', hgone, -⟩ :=
      (call.later_found (i := 3) (j := 6) (by omega) le_rfl).records
    rw [hmarker 1] at habove
    rw [hrecords] at hscanned
    rcases List.mem_append.mp hscanned with hgone' | hkept
    · exact habove (hgone _ hgone')
    · refine hnothing _ (mem_pass_iff.mpr ⟨?_, by rwa [hmarker 4]⟩) rfl
      rw [hrecords']
      exact List.mem_append_left _ hkept

end LiveCall

namespace Memory

/-- The frames of the two commits, and of a marker of the second. -/
def markedFrames : List (Record Bytes ManifestId) := twoCommits ++ [⟨4, .checkpoint secondHead⟩]

/-- A source over a segment with the two commits, with or without the marker. -/
def markedSource (marked : Bool) : WalSource (memory markedFrames) where
  files := {
    readDir := .ok ["000000000000.wal"]
    fileExists := fun _ => marked
    read := fun name => .ok (if name = "CHECKPOINT" then segmentBytes 4 1 else segmentBytes 0 4) }
  walDir := "wal"
  cas := ⟨[[7], [8]], []⟩
  pageSize := 4096

/-- The source reads the two commits back. -/
theorem records_markedSource (marked : Bool) : (markedSource marked).records = .ok twoCommits := by
  have hsegments : (markedSource marked).segments = .ok [0] := by
    have hnumber : segmentNumber "000000000000.wal" = some 0 := by decide
    simp [WalSource.segments, markedSource, hnumber]
  simp only [WalSource.records, hsegments, bind, Except.bind]
  rfl

/-- A primary that commits twice, with these steps during the call. -/
def twoCommitCall (during : ℕ → List (PrimaryStep (memory markedFrames)))
    (allowed : Along LiveLog.advance LiveLog.Allows
      ⟨[], twoCommits, none, secondHead, 4⟩ ((List.range 7).flatMap during)) :
    LiveCall (S := memory markedFrames) [] where
  opened := ⟨[], [], none, [], 0⟩
  opens := ⟨rfl, rfl, fun m cp h => by cases h⟩
  before := [.append [⟨0, .write 0 (some [7])⟩] 1 firstHead 10,
    .append [⟨2, .write 0 (some [8])⟩] 3 secondHead 20]
  during := during
  allowed := by
    refine along_append.mpr ⟨⟨?_, ?_, trivial⟩, allowed⟩
    · refine ⟨?_, ?_, ?_⟩ <;> simp [transaction]
    · refine ⟨?_, ?_, ?_⟩ <;> simp [transaction, LiveLog.advance, LiveLog.step]

/-- A primary at rest during the call. -/
def restingCall : LiveCall (S := memory markedFrames) [] :=
  twoCommitCall (fun _ => []) trivial

/-- A primary that writes a marker between the two passes of the call. -/
def markingCall : LiveCall (S := memory markedFrames) [] :=
  twoCommitCall (fun i => if i = 4 then [.checkpoint 4] else []) ⟨Nat.le_succ 4, trivial⟩

/-- The source shows the log of the primary at rest. -/
theorem shows_restingCall : ∀ i < 7, Shows [] (markedSource false) (restingCall.found i) := by
  intro i hi
  have hfound : restingCall.found i = ⟨[], twoCommits, none, secondHead, 4⟩ := by
    interval_cases i <;> rfl
  rw [hfound]
  exact ⟨rfl, records_markedSource false, rfl⟩

/-- The source shows the log of the primary that writes a marker. -/
theorem shows_markingCall :
    ∀ i < 7, Shows [] (markedSource (decide (4 ≤ i))) (markingCall.found i) := by
  intro i hi
  have hfound : markingCall.found i = if 4 ≤ i then
      ⟨[], twoCommits, some (secondHead, 4), secondHead, 5⟩
      else ⟨[], twoCommits, none, secondHead, 4⟩ := by
    interval_cases i <;> rfl
  rw [hfound]
  by_cases hmarked : 4 ≤ i
  · rw [if_pos hmarked, decide_eq_true hmarked]
    exact ⟨rfl, records_markedSource true, rfl⟩
  · rw [if_neg hmarked, decide_eq_false hmarked]
    exact ⟨rfl, records_markedSource false, rfl⟩

end Memory

namespace LiveCall

open Memory

/-- A fresh replica that catches up with a primary at rest ends at a head that it held. -/
theorem caught_up_iff_resting :
    let src : ℕ → WalSource (memory markedFrames) := fun _ => markedSource false
    let result := (freshReplica markedFrames).catchUpAcross (fun _ => .none) src
    result.1 = .ok 2 ∧ result.2.head ∈ restingCall.held := by
  intro src result
  have hok : result.1 = .ok 2 := by
    have hrecords := records_markedSource false
    simp only [result, src, Replica.catchUpAcross, WalSource.resumeAcross,
      WalSource.shipmentsAcross, hrecords]
    rfl
  refine ⟨hok, (caught_up_iff (laws markedFrames) shows_restingCall (fun _ => .none)
    (freshReplica markedFrames)).mpr ?_ ⟨2, hok⟩⟩
  rintro ⟨-, -, hnothing⟩
  exact hnothing ⟨1, .commit firstHead 10⟩
    (List.mem_filter.mpr ⟨List.mem_cons_of_mem _ List.mem_cons_self, rfl⟩) rfl

/-- A marker written between the two passes leaves a fresh replica at the empty root, and the
call succeeds, though the primary stood two commits further when the call began. -/
theorem behind_of_marker :
    let src : ℕ → WalSource (memory markedFrames) := fun i => markedSource (decide (4 ≤ i))
    let result := (freshReplica markedFrames).catchUpAcross (fun _ => .none) src
    (∀ i < 7, Shows [] (src i) (markingCall.found i)) ∧ markingCall.began.head = secondHead ∧
      result.1 = .ok 0 ∧ result.2.head = [] ∧ result.2.head ∉ markingCall.held := by
  intro src result
  have hnothing : markingCall.NothingLeft := by
    have hnone : markingCall.pass 4 = [] := rfl
    intro r hr
    rw [hnone] at hr
    cases hr
  have hresult : result = (.ok 0, freshReplica markedFrames) :=
    catchUpAcross_of_nothingLeft shows_markingCall _ (.inl rfl) hnothing
  have hheld : ([] : ManifestId) ∉ [secondHead, secondHead] := by decide
  rw [hresult]
  exact ⟨shows_markingCall, rfl, rfl, rfl, hheld⟩

end LiveCall

end FlockDb
