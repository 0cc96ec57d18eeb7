import FlockDb.Sync.Live

/-!
# What the marker tells a reader of the log

A commit record names the manifest that a transaction reached and not the one that it was made
on; a reader takes that from the record before it, or from the marker. Here a primary appends
records, moves its head, writes markers for it and deletes what a marker covers, and it is
remembered on which head each commit was made. The marker may then be read back, or be
missing or damaged, and what is shipped is compared with what happened.
-/

namespace FlockDb

open Runs Positions

variable {S : Substrate}

/-- The head after a record, by the record alone. -/
def Record.headAfter {P M : Type} (head : M) (r : Record P M) : M :=
  match r.kind with
  | .write _ _ => head
  | .commit manifest _ => manifest
  | .checkpoint manifest => manifest

/-- The head that a log shows to a reader who starts at an origin. -/
def shownHead (origin : S.ManifestId) (records : List (Record S.PageId S.ManifestId)) :
    S.ManifestId :=
  records.foldl Record.headAfter origin

/-- From an LSN on, every commit of a log was made on the head that the log shows before it. -/
def OnRecord (made : List (Lsn × S.ManifestId)) (start : Lsn) :
    S.ManifestId → List (Record S.PageId S.ManifestId) → Prop
  | _, [] => True
  | origin, r :: records =>
    (r.isCommit → start ≤ r.lsn → (r.lsn, origin) ∈ made) ∧
      OnRecord made start (r.headAfter origin) records

section OnRecord

variable {made made' : List (Lsn × S.ManifestId)} {start : Lsn} {origin : S.ManifestId}

/-- A log is on record when its first part is, and the rest is from the head shown there. -/
theorem onRecord_append {records more : List (Record S.PageId S.ManifestId)} :
    OnRecord made start origin (records ++ more) ↔
      OnRecord made start origin records ∧
        OnRecord made start (shownHead origin records) more := by
  induction records generalizing origin with
  | nil => exact (and_iff_right trivial).symm
  | cons r records ih =>
    rw [List.cons_append, OnRecord, OnRecord, ih, and_assoc]
    rfl

/-- What is on record stays so when more commits are remembered. -/
theorem OnRecord.mono {records : List (Record S.PageId S.ManifestId)}
    (h : OnRecord made start origin records) (hmade : ∀ entry ∈ made, entry ∈ made') :
    OnRecord made' start origin records := by
  induction records generalizing origin with
  | nil => trivial
  | cons r records ih =>
    obtain ⟨hr, hrest⟩ := h
    exact ⟨fun hcommit hstart => hmade _ (hr hcommit hstart), ih hrest⟩

/-- What is on record from the start is so from every LSN on. -/
theorem OnRecord.later {records : List (Record S.PageId S.ManifestId)}
    (h : OnRecord made 0 origin records) (start : Lsn) : OnRecord made start origin records := by
  induction records generalizing origin with
  | nil => trivial
  | cons r records ih =>
    obtain ⟨hr, hrest⟩ := h
    exact ⟨fun hcommit _ => hr hcommit (Nat.zero_le _), ih hrest⟩

/-- A log without commits is on record, whatever a reader starts at. -/
theorem onRecord_of_no_commit {records : List (Record S.PageId S.ManifestId)}
    (h : ∀ r ∈ records, ¬r.isCommit) : OnRecord made start origin records := by
  induction records generalizing origin with
  | nil => trivial
  | cons r records ih =>
    rw [List.forall_mem_cons] at h
    exact ⟨fun hcommit => absurd hcommit h.1, ih h.2⟩

/-- The fold gives every commit the base that it was made on exactly when the log is on
record. -/
theorem committed_made_iff {pending : Changes S.PageId}
    {records : List (Record S.PageId S.ManifestId)} :
    (∀ c ∈ committed origin pending records, start ≤ c.lsn → (c.lsn, c.base) ∈ made) ↔
      OnRecord made start origin records := by
  induction records generalizing origin pending with
  | nil => exact iff_of_true (by simp [committed]) trivial
  | cons r records ih =>
    obtain ⟨lsn, kind⟩ := r
    cases kind with
    | write pageNo page =>
      have hwrite : ¬(⟨lsn, .write pageNo page⟩ : Record S.PageId S.ManifestId).isCommit := by
        simp [Record.isCommit]
      rw [committed, ih, OnRecord]
      exact (and_iff_right fun hcommit => absurd hcommit hwrite).symm
    | commit manifest createdAtMs =>
      rw [committed, List.forall_mem_cons, ih, OnRecord]
      exact and_congr_left' ⟨fun h _ => h, fun h => h rfl⟩
    | checkpoint manifest =>
      have hmark : ¬(⟨lsn, .checkpoint manifest⟩ : Record S.PageId S.ManifestId).isCommit := by
        simp [Record.isCommit]
      rw [committed, ih, OnRecord]
      exact (and_iff_right fun hcommit => absurd hcommit hmark).symm

end OnRecord

/-- The marker as it may be found: missing, unreadable, cut short or damaged, holding some
other record, or intact. -/
inductive MarkerFile (src : WalSource S) (marker : Option (S.ManifestId × Lsn)) : Prop where
  | absent (h : src.files.fileExists "CHECKPOINT" = false)
  | unreadable (source : IoError) (h : src.files.read "CHECKPOINT" = .error source)
  | torn (bytes : Bytes) (h : src.files.read "CHECKPOINT" = .ok bytes)
      (hdecode : S.decode bytes = .torn)
  | other (bytes : Bytes) (h : src.files.read "CHECKPOINT" = .ok bytes)
      (r : Record S.PageId S.ManifestId) (n : ℕ) (hdecode : S.decode bytes = .record r n)
      (hr : ∀ m, r.kind ≠ .checkpoint m)
  | intact (bytes : Bytes) (h : src.files.read "CHECKPOINT" = .ok bytes)
      (manifest : S.ManifestId) (lsn : Lsn) (n : ℕ)
      (hdecode : S.decode bytes = .record ⟨lsn, .checkpoint manifest⟩ n)
      (hmarker : marker = some (manifest, lsn))

/-- Whatever state the file is in, a marker that is read is the one that was written last, or
there is none. -/
theorem MarkerFile.reads {src : WalSource S} {marker reading : Option (S.ManifestId × Lsn)}
    (h : MarkerFile src marker) (hreading : src.readCheckpoint = .ok reading) :
    reading = none ∨ reading = marker := by
  unfold WalSource.readCheckpoint at hreading
  by_cases hexists : src.files.fileExists "CHECKPOINT" = false
  · rw [hexists] at hreading
    exact .inl (Except.ok.inj hreading).symm
  · rw [Bool.not_eq_false] at hexists
    rw [hexists] at hreading
    cases h with
    | absent h => cases hexists.symm.trans h
    | unreadable source h => simp [h] at hreading
    | torn bytes h hdecode =>
      simp only [h, hdecode] at hreading
      exact .inl (Except.ok.inj hreading).symm
    | other bytes h r n hdecode hr =>
      obtain ⟨lsn, kind⟩ := r
      cases kind with
      | checkpoint manifest => exact absurd rfl (hr manifest)
      | write pageNo page =>
        simp only [h, hdecode] at hreading
        exact .inl (Except.ok.inj hreading).symm
      | commit manifest createdAtMs =>
        simp only [h, hdecode] at hreading
        exact .inl (Except.ok.inj hreading).symm
    | intact bytes h manifest lsn n hdecode hmarker =>
      simp only [h, hdecode] at hreading
      exact .inr ((Except.ok.inj hreading).symm.trans hmarker.symm)

/-- A log directory, and for each commit so far its LSN and the head that it was made on. -/
structure HeadLog (S : Substrate) where
  log : LiveLog S
  made : List (Lsn × S.ManifestId)

/-- What a primary does to its log and its head. A checkpoint records the head as it stands,
in the marker and maybe in the log too; a head can be moved without one. -/
inductive HeadStep (S : Substrate) where
  | write (pageNo : PageNo) (page : Option S.PageId) (lsn : Lsn)
  | commit (manifest : S.ManifestId) (createdAtMs : ℕ) (lsn : Lsn)
  | rollover
  | moveHead (target : S.ManifestId)
  | checkpoint (lsn : Lsn) (inLog : Bool)
  | deleteSealed

namespace HeadLog

/-- The log with one more record. -/
def append (p : HeadLog S) (r : Record S.PageId S.ManifestId) : LiveLog S :=
  { p.log with liveSegment := p.log.liveSegment ++ [r], nextLsn := r.lsn + 1 }

/-- The log and what is remembered after a step. -/
def step (p : HeadLog S) : HeadStep S → HeadLog S
  | .write pageNo page lsn => { p with log := p.append ⟨lsn, .write pageNo page⟩ }
  | .commit manifest createdAtMs lsn =>
    { log := { p.append ⟨lsn, .commit manifest createdAtMs⟩ with head := manifest }
      made := p.made ++ [(lsn, p.log.head)] }
  | .rollover => { p with log := p.log.step .rollover }
  | .moveHead target => { p with log := { p.log with head := target } }
  | .checkpoint lsn inLog =>
    { p with log :=
        { (if inLog then p.append ⟨lsn, .checkpoint p.log.head⟩ else p.log) with
          marker := some (p.log.head, lsn)
          nextLsn := lsn + 1 } }
  | .deleteSealed => { p with log := p.log.step .deleteSealed }

/-- A primary may take this step: a record has a new LSN, a marker covers everything written
so far, and a deleted segment is covered by the marker. -/
def Allows (p : HeadLog S) : HeadStep S → Prop
  | .write _ _ lsn => p.log.nextLsn ≤ lsn
  | .commit _ _ lsn => p.log.nextLsn ≤ lsn
  | .rollover => True
  | .moveHead _ => True
  | .checkpoint lsn inLog => p.log.nextLsn ≤ if inLog then lsn else lsn + 1
  | .deleteSealed => p.log.Allows .deleteSealed

/-- One step of the primary, answering with the head that it leaves. -/
def advance (p : HeadLog S) (s : HeadStep S) : S.ManifestId × HeadLog S :=
  ((p.step s).log.head, p.step s)

/-- A primary that has just been set up: at the root, with nothing written. -/
structure Opens (root : S.ManifestId) (p : HeadLog S) : Prop where
  records : p.log.records = []
  marker : p.log.marker = none
  head : p.log.head = root
  made : p.made = []

/-- What a reader who found this marker folds over. -/
def past (reading : Option (S.ManifestId × Lsn)) (p : HeadLog S) :
    List (Record S.PageId S.ManifestId) :=
  aboveMarker (reading.map Prod.snd) p.log.records

/-- Where a reader who found this marker starts. -/
def origin (root : S.ManifestId) (reading : Option (S.ManifestId × Lsn)) : S.ManifestId :=
  (reading.map Prod.fst).getD root

/-- The head that the log shows to a reader who found this marker. -/
def shown (root : S.ManifestId) (reading : Option (S.ManifestId × Lsn)) (p : HeadLog S) :
    S.ManifestId :=
  shownHead (origin root reading) (p.past reading)

/-- To a reader who found this marker, every commit from an LSN on was made on the head that
the log shows before it. -/
def Recorded (root : S.ManifestId) (reading : Option (S.ManifestId × Lsn)) (start : Lsn)
    (p : HeadLog S) : Prop :=
  OnRecord p.made start (origin root reading) (p.past reading)

/-- A step that a reader with the marker can follow: a commit is made on the head that the
marker and the log show, and not on one that was moved without a checkpoint. -/
def MarkedStep (root : S.ManifestId) (p : HeadLog S) : HeadStep S → Prop
  | .commit _ _ _ => p.shown root p.log.marker = p.log.head
  | _ => True

/-- A step that a reader without a marker can follow: a commit is made on the head that the
log alone shows from the root, and a deleted segment shows no other head than the root, unless
it leaves no commit. -/
def UnmarkedStep (root : S.ManifestId) (p : HeadLog S) : HeadStep S → Prop
  | .commit _ _ _ => p.shown root none = p.log.head
  | .deleteSealed => ∀ segment, p.log.sealedSegments.head? = some segment →
      shownHead root segment = root ∨ ∀ r ∈ (p.step .deleteSealed).log.records, ¬r.isCommit
  | _ => True

/-- What every run keeps: no LSN is used that is to come, and each commit was remembered once. -/
structure Sound (p : HeadLog S) : Prop where
  lsn_lt : ∀ r ∈ p.log.records, r.lsn < p.log.nextLsn
  marker_lt : ∀ m cp, p.log.marker = some (m, cp) → cp < p.log.nextLsn
  made_lt : ∀ entry ∈ p.made, entry.1 < p.log.nextLsn
  made_ascending : p.made.Pairwise fun entry entry' => entry.1 < entry'.1

variable {root : S.ManifestId} {p : HeadLog S} {reading : Option (S.ManifestId × Lsn)}

/-- One more record is the last of the log. -/
theorem records_append (p : HeadLog S) (r : Record S.PageId S.ManifestId) :
    (p.append r).records = p.log.records ++ [r] :=
  (List.append_assoc _ _ _).symm

/-- A record beyond the marker is the last that a reader folds over. -/
theorem aboveMarker_append (p : HeadLog S) {r : Record S.PageId S.ManifestId}
    (hr : ∀ m cp, reading = some (m, cp) → cp < r.lsn) :
    aboveMarker (reading.map Prod.snd) (p.append r).records = p.past reading ++ [r] := by
  have hkept : aboveMarker (reading.map Prod.snd) [r] = [r] := by
    refine List.filter_eq_self.mpr fun r' hr' => ?_
    obtain rfl := List.mem_singleton.mp hr'
    cases reading with
    | none => rfl
    | some marker => simpa using hr marker.1 marker.2 rfl
  rw [records_append, aboveMarker, List.filter_append]
  exact congrArg (p.past reading ++ ·) hkept

/-- A record beyond the marker keeps a log on record, if it is a commit made on the head that
is shown. -/
theorem Recorded.append (h : p.Recorded root reading 0) {made : List (Lsn × S.ManifestId)}
    (hmade : ∀ entry ∈ p.made, entry ∈ made) {r : Record S.PageId S.ManifestId}
    (hr : ∀ m cp, reading = some (m, cp) → cp < r.lsn)
    (hcommit : r.isCommit → (r.lsn, p.shown root reading) ∈ made) :
    OnRecord made 0 (origin root reading)
      (aboveMarker (reading.map Prod.snd) (p.append r).records) := by
  rw [aboveMarker_append p hr]
  exact onRecord_append.mpr ⟨h.mono hmade, fun hr _ => hcommit hr, trivial⟩

/-- A deleted segment is gone from what a reader of the marker folds over, and nothing else. -/
theorem past_deleteSealed (h : p.Allows .deleteSealed) :
    (p.step .deleteSealed).past p.log.marker = p.past p.log.marker := by
  obtain ⟨gone, hrecords, hgone⟩ := LiveLog.records_deleteSealed h
  have hnone : aboveMarker (p.log.marker.map Prod.snd) gone = [] := by
    refine List.filter_eq_nil_iff.mpr fun r hr => ?_
    obtain ⟨m, cp, hmarker, hle⟩ := hgone r hr
    simp [hmarker, hle]
  rw [past, past, hrecords, aboveMarker, aboveMarker, List.filter_append]
  change _ = aboveMarker (p.log.marker.map Prod.snd) gone ++ _
  rw [hnone]
  rfl

/-- A reader without a marker folds over the whole log. -/
theorem past_none (p : HeadLog S) : p.past none = p.log.records :=
  List.filter_eq_self.mpr fun _ _ => rfl

/-- A primary that has just been set up is sound. -/
theorem Opens.sound (h : p.Opens root) : p.Sound where
  lsn_lt := by simp [h.records]
  marker_lt := by simp [h.marker]
  made_lt := by simp [h.made]
  made_ascending := by simp [h.made]

/-- A log without records is on record. -/
theorem Opens.recorded (h : p.Opens root) : p.Recorded root reading 0 := by
  rw [Recorded, past, h.records]
  trivial

/-- A new record keeps a primary sound. -/
theorem Sound.append (h : p.Sound) {r : Record S.PageId S.ManifestId}
    (hr : p.log.nextLsn ≤ r.lsn) : Sound ⟨p.append r, p.made⟩ where
  lsn_lt := by
    intro r' hr'
    rw [records_append] at hr'
    rcases List.mem_append.mp hr' with hr' | hr'
    · exact ((h.lsn_lt r' hr').trans_le hr).trans (Nat.lt_succ_self _)
    · rw [List.mem_singleton.mp hr']
      exact Nat.lt_succ_self _
  marker_lt := fun m cp hmarker =>
    ((h.marker_lt m cp hmarker).trans_le hr).trans (Nat.lt_succ_self _)
  made_lt := fun entry hentry => ((h.made_lt entry hentry).trans_le hr).trans (Nat.lt_succ_self _)
  made_ascending := h.made_ascending

/-- Every step keeps a primary sound. -/
theorem Sound.step (h : p.Sound) {s : HeadStep S} (hs : p.Allows s) : (p.step s).Sound := by
  cases s with
  | write pageNo page lsn => exact h.append hs
  | commit manifest createdAtMs lsn =>
    obtain ⟨hlsn, hmarker, hmade, hascending⟩ :=
      h.append (r := ⟨lsn, .commit manifest createdAtMs⟩) hs
    refine ⟨hlsn, hmarker, fun entry hentry => ?_, ?_⟩
    · rcases List.mem_append.mp hentry with hentry | hentry
      · exact hmade entry hentry
      · rw [List.mem_singleton.mp hentry]
        exact Nat.lt_succ_self lsn
    · refine List.pairwise_append.mpr ⟨hascending, List.pairwise_singleton _ _, ?_⟩
      intro entry hentry entry' hentry'
      rw [List.mem_singleton.mp hentry']
      exact (h.made_lt entry hentry).trans_le hs
  | rollover =>
    have hrecords : (p.log.step .rollover).records = p.log.records := by
      simp [LiveLog.records, LiveLog.step]
    exact ⟨fun r hr => h.lsn_lt r (hrecords ▸ hr), h.marker_lt, h.made_lt, h.made_ascending⟩
  | moveHead target => exact ⟨h.lsn_lt, h.marker_lt, h.made_lt, h.made_ascending⟩
  | checkpoint lsn inLog =>
    have hnew : ∀ m cp, some (p.log.head, lsn) = some (m, cp) → cp < lsn + 1 := by
      intro m cp hmarker
      rw [← (Prod.mk.inj (Option.some.inj hmarker)).2]
      exact Nat.lt_succ_self lsn
    cases inLog with
    | true =>
      have happend := h.append (r := ⟨lsn, .checkpoint p.log.head⟩) hs
      exact ⟨happend.lsn_lt, hnew, happend.made_lt, h.made_ascending⟩
    | false =>
      have hs : p.log.nextLsn ≤ lsn + 1 := hs
      exact ⟨fun r hr => (h.lsn_lt r hr).trans_le hs, hnew,
        fun entry hentry => (h.made_lt entry hentry).trans_le hs, h.made_ascending⟩
  | deleteSealed =>
    obtain ⟨gone, hrecords, -⟩ := LiveLog.records_deleteSealed hs
    have hmem : ∀ r ∈ (p.step .deleteSealed).log.records, r ∈ p.log.records := fun r hr => by
      rw [hrecords]
      exact List.mem_append_right _ hr
    exact ⟨fun r hr => h.lsn_lt r (hmem r hr), h.marker_lt, h.made_lt, h.made_ascending⟩

/-- A new LSN is beyond the marker that was written last. -/
theorem Sound.marker_lt_of_le (h : p.Sound) {lsn : Lsn} (hlsn : p.log.nextLsn ≤ lsn)
    (m : S.ManifestId) (cp : Lsn) (hmarker : p.log.marker = some (m, cp)) : cp < lsn :=
  (h.marker_lt m cp hmarker).trans_le hlsn

/-- To a reader with the marker, a step that can be followed keeps the log on record. -/
theorem Recorded.markedStep (hsound : p.Sound) (h : p.Recorded root p.log.marker 0)
    {s : HeadStep S} (hs : p.Allows s) (hmarked : p.MarkedStep root s) :
    (p.step s).Recorded root (p.step s).log.marker 0 := by
  cases s with
  | write pageNo page lsn =>
    exact h.append (fun _ hentry => hentry) (hsound.marker_lt_of_le hs) (by simp [Record.isCommit])
  | commit manifest createdAtMs lsn =>
    refine h.append (fun _ hentry => List.mem_append_left _ hentry)
      (r := ⟨lsn, .commit manifest createdAtMs⟩) (hsound.marker_lt_of_le hs) fun _ => ?_
    rw [show p.shown root p.log.marker = p.log.head from hmarked]
    exact List.mem_append_right _ (List.mem_singleton_self _)
  | rollover =>
    have hrecords : (p.log.step .rollover).records = p.log.records := by
      simp [LiveLog.records, LiveLog.step]
    rw [Recorded, past, show (p.step .rollover).log.records = p.log.records from hrecords]
    exact h
  | moveHead target => exact h
  | checkpoint lsn inLog =>
    -- a new marker covers all that was written, its own record included
    refine onRecord_of_no_commit fun r hr => ?_
    obtain ⟨hmem, habove⟩ := List.mem_filter.mp hr
    have hle : r.lsn ≤ lsn := by
      have hlt := (hsound.step hs).lsn_lt r hmem
      exact Nat.le_of_lt_succ hlt
    simp [HeadLog.step, hle] at habove
  | deleteSealed =>
    have hpast := past_deleteSealed hs
    rw [Recorded]
    change OnRecord p.made 0 _ ((p.step .deleteSealed).past p.log.marker)
    rw [hpast]
    exact h

/-- To a reader without a marker, a step that can be followed keeps the log on record. -/
theorem Recorded.unmarkedStep (h : p.Recorded root none 0) {s : HeadStep S}
    (hunmarked : p.UnmarkedStep root s) : (p.step s).Recorded root none 0 := by
  have hnone : ∀ {lsn : Lsn} (m : S.ManifestId) (cp : Lsn), none = some (m, cp) → cp < lsn := by
    intro lsn m cp hmarker
    cases hmarker
  cases s with
  | write pageNo page lsn =>
    exact h.append (fun _ hentry => hentry) hnone (by simp [Record.isCommit])
  | commit manifest createdAtMs lsn =>
    refine h.append (fun _ hentry => List.mem_append_left _ hentry)
      (r := ⟨lsn, .commit manifest createdAtMs⟩) hnone fun _ => ?_
    rw [show p.shown root none = p.log.head from hunmarked]
    exact List.mem_append_right _ (List.mem_singleton_self _)
  | rollover =>
    have hrecords : (p.log.step .rollover).records = p.log.records := by
      simp [LiveLog.records, LiveLog.step]
    rw [Recorded, past, show (p.step .rollover).log.records = p.log.records from hrecords]
    exact h
  | moveHead target => exact h
  | checkpoint lsn inLog =>
    cases inLog with
    | true => exact h.append (fun _ hentry => hentry) hnone (by simp [Record.isCommit])
    | false => exact h
  | deleteSealed =>
    rw [Recorded, past_none] at h ⊢
    cases hsealed : p.log.sealedSegments with
    | nil =>
      have hsame : (p.step .deleteSealed).log.records = p.log.records := by
        simp [LiveLog.records, HeadLog.step, LiveLog.step, hsealed]
      rw [hsame]
      exact h
    | cons segment rest =>
      have hrecords : p.log.records = segment ++ (p.step .deleteSealed).log.records := by
        simp [LiveLog.records, HeadLog.step, LiveLog.step, hsealed]
      rcases hunmarked segment (by rw [hsealed, List.head?_cons]) with hroot | hnone
      · rw [hrecords, onRecord_append] at h
        have hrest := h.2
        rwa [show shownHead (origin root none) segment = origin root none from hroot] at hrest
      · exact onRecord_of_no_commit hnone

/-- A run whose steps a reader with the marker can follow leaves the log on record for it. -/
theorem recorded_of_markedSteps (hopened : p.Opens root) {steps : List (HeadStep S)}
    (hsteps : Along advance Allows p steps) (hmarked : Along advance (MarkedStep root) p steps) :
    (run advance p steps).2.Recorded root (run advance p steps).2.log.marker 0 := by
  have hstep : ∀ (q : HeadLog S) s, q.Allows s ∧ q.MarkedStep root s →
      q.Sound ∧ q.Recorded root q.log.marker 0 →
      (q.step s).Sound ∧ (q.step s).Recorded root (q.step s).log.marker 0 :=
    fun q s hs hq => ⟨hq.1.step hs.1, hq.2.markedStep hq.1 hs.1 hs.2⟩
  have hstart : p.Sound ∧ p.Recorded root p.log.marker 0 := ⟨hopened.sound, hopened.recorded⟩
  exact (run_invariant_along hstep (along_and.mpr ⟨hsteps, hmarked⟩) hstart).2

/-- A run whose steps a reader without a marker can follow leaves the log on record for it. -/
theorem recorded_of_unmarkedSteps (hopened : p.Opens root) {steps : List (HeadStep S)}
    (hunmarked : Along advance (UnmarkedStep root) p steps) :
    (run advance p steps).2.Recorded root none 0 := by
  have hstep : ∀ (q : HeadLog S) s, q.UnmarkedStep root s → q.Recorded root none 0 →
      (q.step s).Recorded root none 0 := fun q s hs hq => hq.unmarkedStep hs
  exact run_invariant_along hstep hunmarked hopened.recorded

/-- A source over the log of a primary, whose marker may be in any state. -/
structure Shows (root : S.ManifestId) (src : WalSource S) (p : HeadLog S) : Prop where
  root : S.emptyRoot src.pageSize = .ok root
  records : src.records = .ok p.log.records
  marker : MarkerFile src p.log.marker

/-- What is shipped has the bases that the commits were made on exactly when, to a reader who
found this marker, the log is on record. -/
theorem bases_made_iff {src : WalSource S} (hsrc : Shows root src p)
    (hreading : src.readCheckpoint = .ok reading) {start : Lsn} {out : List (Shipment S)}
    (hout : src.shipmentsFrom start = .ok out) :
    (∀ s ∈ out, (s.commitLsn, s.base) ∈ p.made) ↔ p.Recorded root reading start := by
  have hstart : src.startHead = .ok (origin root reading) := by
    cases reading with
    | none => simp [WalSource.startHead, hreading, hsrc.root, bind, Except.bind, pure, Except.pure,
        origin]
    | some marker =>
      simp [WalSource.startHead, hreading, bind, Except.bind, pure, Except.pure, origin]
  have hships : ((committed (origin root reading) ∅ (p.past reading)).filter
      fun c => start ≤ c.lsn).mapM src.ship = .ok out := by
    rw [← hout]
    simp only [WalSource.shipmentsFrom, hreading, hstart, hsrc.records, bind, Except.bind]
    exact (src.foldRecords_eq _ _ _ _ _).symm
  have hshipped := (Fallible.mapM_eq_ok_iff.mp hships).imp
    fun _ _ hship => WalSource.shipped_of_ship hship
  rw [Recorded, ← @committed_made_iff S p.made start (origin root reading) ∅]
  constructor
  · intro hmade c hc hlsn
    have hmem : c ∈ (committed (origin root reading) ∅ (p.past reading)).filter
        fun c => start ≤ c.lsn := List.mem_filter.mpr ⟨hc, by simpa using hlsn⟩
    obtain ⟨i, hi⟩ := List.mem_iff_getElem?.mp hmem
    obtain ⟨s, hs, hship⟩ := exists_of_forall₂ hshipped hi
    rw [← hship.commitLsn, ← hship.base]
    exact hmade s (List.mem_of_getElem? hs)
  · intro hmade s hs
    obtain ⟨i, hi⟩ := List.mem_iff_getElem?.mp hs
    obtain ⟨c, hc, hship⟩ := exists_of_forall₂_right hshipped hi
    obtain ⟨hmem, hlsn⟩ := List.mem_filter.mp (List.mem_of_getElem? hc)
    rw [hship.commitLsn, hship.base]
    exact hmade c hmem (by simpa using hlsn)

/-- Each commit was made on one head. -/
theorem Sound.base_unique (h : p.Sound) {lsn : Lsn} {base base' : S.ManifestId}
    (hbase : (lsn, base) ∈ p.made) (hbase' : (lsn, base') ∈ p.made) : base = base' := by
  have hlsns : (p.made.map Prod.fst).Nodup :=
    List.pairwise_map.mpr (h.made_ascending.imp fun hlt => hlt.ne)
  have heq : (lsn, base) = (lsn, base') := List.inj_on_of_nodup_map hlsns hbase hbase' rfl
  exact (Prod.mk.inj heq).2

/-- **When shipping from a log names the right bases.** For every run of a primary that
appends records, moves its head, checkpoints it and deletes covered segments, and whatever
state the marker is found in: each commit was made on one head, and what is shipped from an
LSN has the bases that the commits were made on exactly when each of them was made on the head
that the reader's marker and the records after it show. With the marker this is so in every run
that makes no commit on a head moved without a checkpoint; without it, in every run that makes
its commits on the head that the log alone shows and deletes no other head than the root before
a commit that it leaves. -/
theorem shipped_bases_iff (hopened : p.Opens root) {steps : List (HeadStep S)}
    (hsteps : Along advance Allows p steps) {src : WalSource S}
    (hsrc : Shows root src (run advance p steps).2) {start : Lsn} {out : List (Shipment S)}
    (hout : src.shipmentsFrom start = .ok out) :
    (∀ lsn base base', (lsn, base) ∈ (run advance p steps).2.made →
      (lsn, base') ∈ (run advance p steps).2.made → base = base') ∧
    ∃ reading, src.readCheckpoint = .ok reading ∧
      (reading = none ∨ reading = (run advance p steps).2.log.marker) ∧
      ((∀ s ∈ out, (s.commitLsn, s.base) ∈ (run advance p steps).2.made) ↔
        (run advance p steps).2.Recorded root reading start) ∧
      (reading = (run advance p steps).2.log.marker → Along advance (MarkedStep root) p steps →
        ∀ s ∈ out, (s.commitLsn, s.base) ∈ (run advance p steps).2.made) ∧
      (reading = none → Along advance (UnmarkedStep root) p steps →
        ∀ s ∈ out, (s.commitLsn, s.base) ∈ (run advance p steps).2.made) := by
  obtain ⟨reading, hreading⟩ : ∃ reading, src.readCheckpoint = .ok reading := by
    cases hreading : src.readCheckpoint with
    | ok reading => exact ⟨reading, rfl⟩
    | error e => simp [WalSource.shipmentsFrom, hreading, bind, Except.bind] at hout
  have hiff := bases_made_iff hsrc hreading hout
  have hsound : (run advance p steps).2.Sound :=
    run_invariant_along (fun _ _ hs hq => hq.step hs) hsteps hopened.sound
  refine ⟨fun _ _ _ => hsound.base_unique, reading, hreading, hsrc.marker.reads hreading, hiff,
    ?_, ?_⟩
  · rintro rfl hmarked
    exact hiff.mpr ((recorded_of_markedSteps hopened hsteps hmarked).later start)
  · rintro rfl hunmarked
    exact hiff.mpr ((recorded_of_unmarkedSteps hopened hunmarked).later start)

end HeadLog

namespace Memory

/-- The manifest after going back to the first one and setting page 0. -/
def restoredHead : ManifestId := ⟨[(0, some [9])], 30⟩ :: firstHead

/-- The frames of two commits, of a marker for the first, and of a third commit made on it. -/
def restoredFrames : List (Record Bytes ManifestId) :=
  twoCommits ++ [⟨4, .checkpoint firstHead⟩, ⟨5, .write 0 (some [9])⟩, ⟨6, .commit restoredHead 30⟩]

/-- A source over the three commits, with these bytes in the marker. -/
def restoredSource (marker : Bytes) : WalSource (memory restoredFrames) where
  files := {
    readDir := .ok ["000000000000.wal"]
    fileExists := fun _ => true
    read := fun name =>
      .ok (if name = "CHECKPOINT" then marker else segmentBytes 0 4 ++ segmentBytes 5 2) }
  walDir := "wal"
  cas := ⟨[[7], [8], [9]], []⟩
  pageSize := 4096

/-- A primary commits twice, goes back to the first commit, records that, and commits again. -/
def restoringSteps : List (HeadStep (memory restoredFrames)) :=
  [.write 0 (some [7]) 0, .commit firstHead 10 1, .write 0 (some [8]) 2, .commit secondHead 20 3,
    .moveHead firstHead, .checkpoint 4 false, .write 0 (some [9]) 5, .commit restoredHead 30 6]

/-- A source over what is left of two commits when the first one's segment is gone, with
nothing in the marker. -/
def truncatedSource : WalSource (memory markedFrames) where
  files := {
    readDir := .ok ["000000000001.wal"]
    fileExists := fun _ => true
    read := fun name => .ok (if name = "CHECKPOINT" then [] else segmentBytes 2 3) }
  walDir := "wal"
  cas := ⟨[[8]], []⟩
  pageSize := 4096

/-- A primary commits twice, in two segments, checkpoints, and deletes the first segment. -/
def truncatingSteps : List (HeadStep (memory markedFrames)) :=
  [.write 0 (some [7]) 0, .commit firstHead 10 1, .rollover, .write 0 (some [8]) 2,
    .commit secondHead 20 3, .checkpoint 4 true, .deleteSealed]

/-- A primary that has just been set up, with nothing written. -/
def freshLog (frames : List (Record Bytes ManifestId)) : HeadLog (memory frames) :=
  ⟨⟨[], [], none, [], 0⟩, []⟩

/-- It is at the empty root. -/
theorem opens_freshLog (frames : List (Record Bytes ManifestId)) : (freshLog frames).Opens [] :=
  ⟨rfl, rfl, rfl, rfl⟩

/-- A primary may take the steps back and on. -/
theorem allowed_restoringSteps :
    Along HeadLog.advance HeadLog.Allows (freshLog restoredFrames) restoringSteps :=
  ⟨Nat.le_refl 0, Nat.le_refl 1, Nat.le_refl 2, Nat.le_refl 3, trivial, Nat.le_succ 4,
    Nat.le_refl 5, Nat.le_refl 6, trivial⟩

/-- A primary may take the steps that delete its first segment. -/
theorem allowed_truncatingSteps :
    Along HeadLog.advance HeadLog.Allows (freshLog markedFrames) truncatingSteps := by
  refine ⟨Nat.le_refl 0, Nat.le_refl 1, trivial, Nat.le_refl 2, Nat.le_refl 3, Nat.le_refl 4,
    fun segment hsegment r hr => ⟨secondHead, 4, rfl, ?_⟩, trivial⟩
  obtain rfl : [⟨0, .write 0 (some [7])⟩, ⟨1, .commit firstHead 10⟩] = segment :=
    Option.some.inj hsegment
  have hall : ∀ lsn ∈ [0, 1], lsn ≤ 4 := by decide
  exact hall r.lsn (List.mem_map_of_mem hr)

/-- The source reads the three commits back. -/
theorem records_restoredSource (marker : Bytes) : (restoredSource marker).records =
    .ok (run HeadLog.advance (freshLog restoredFrames) restoringSteps).2.log.records := by
  have hsegments : (restoredSource marker).segments = .ok [0] := by
    have hnumber : segmentNumber "000000000000.wal" = some 0 := by decide
    simp [WalSource.segments, restoredSource, hnumber]
  simp only [WalSource.records, hsegments, bind, Except.bind]
  rfl

/-- The source reads what is left of the two commits back. -/
theorem records_truncatedSource : truncatedSource.records =
    .ok (run HeadLog.advance (freshLog markedFrames) truncatingSteps).2.log.records := by
  have hsegments : truncatedSource.segments = .ok [1] := by
    have hnumber : segmentNumber "000000000001.wal" = some 1 := by decide
    simp [WalSource.segments, truncatedSource, hnumber]
  simp only [WalSource.records, hsegments, bind, Except.bind]
  rfl

end Memory

namespace HeadLog

open Memory

/-- With its marker, what a primary that went back ships has the base that it was made on. -/
theorem shipped_bases_iff_restored : ∃ out reading,
    (restoredSource (segmentBytes 4 1)).shipmentsFrom 0 = .ok out ∧
    out.map Shipment.base = [firstHead] ∧
    ((∀ s ∈ out, (s.commitLsn, s.base) ∈
        (run advance (freshLog restoredFrames) restoringSteps).2.made) ↔
      (run advance (freshLog restoredFrames) restoringSteps).2.Recorded [] reading 0) := by
  have hshows : Shows [] (restoredSource (segmentBytes 4 1))
      (run advance (freshLog restoredFrames) restoringSteps).2 :=
    ⟨rfl, records_restoredSource _, .intact (segmentBytes 4 1) rfl firstHead 4 1 rfl rfl⟩
  obtain ⟨out, hout, hbases⟩ : ∃ out,
      (restoredSource (segmentBytes 4 1)).shipmentsFrom 0 = .ok out ∧
      out.map Shipment.base = [firstHead] := by
    simp only [WalSource.shipmentsFrom, records_restoredSource]
    exact ⟨_, rfl, rfl⟩
  obtain ⟨-, reading, -, -, hiff, -⟩ :=
    shipped_bases_iff (opens_freshLog restoredFrames) allowed_restoringSteps hshows hout
  exact ⟨out, reading, hout, hbases, hiff⟩

/-- With its marker cut short, a primary that went back to its first commit ships the third one
as if it was made on the second; and one that deleted the first commit's segment ships the
second one as if it was made on the empty root. -/
theorem cut_marker_misleads :
    (Along advance Allows (freshLog restoredFrames) restoringSteps ∧
      Shows [] (restoredSource []) (run advance (freshLog restoredFrames) restoringSteps).2 ∧
      ∃ out, (restoredSource []).shipmentsFrom 0 = .ok out ∧
        out.map (fun s => (s.commitLsn, s.base)) = [(1, []), (3, firstHead), (6, secondHead)] ∧
        (run advance (freshLog restoredFrames) restoringSteps).2.made =
          [(1, []), (3, firstHead), (6, firstHead)]) ∧
    Along advance Allows (freshLog markedFrames) truncatingSteps ∧
      Shows [] truncatedSource (run advance (freshLog markedFrames) truncatingSteps).2 ∧
      ∃ out, truncatedSource.shipmentsFrom 0 = .ok out ∧
        out.map (fun s => (s.commitLsn, s.base)) = [(3, [])] ∧
        (run advance (freshLog markedFrames) truncatingSteps).2.made =
          [(1, []), (3, firstHead)] := by
  refine ⟨⟨allowed_restoringSteps, ⟨rfl, records_restoredSource _, .torn [] rfl rfl⟩, ?_⟩,
    allowed_truncatingSteps, ⟨rfl, records_truncatedSource, .torn [] rfl rfl⟩, ?_⟩
  · simp only [WalSource.shipmentsFrom, records_restoredSource]
    exact ⟨_, rfl, rfl, rfl⟩
  · simp only [WalSource.shipmentsFrom, records_truncatedSource]
    exact ⟨_, rfl, rfl, rfl⟩

end HeadLog

end FlockDb
