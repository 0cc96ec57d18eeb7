import FlockDb.Library.Runs
import FlockDb.Sync.Reference

/-!
# A log that is written while it is read

A primary appends transactions, seals segments, writes checkpoint markers for its head and
deletes sealed segments that a marker covers. This is the log directory as those steps leave
it, with what every run of them keeps: the head is the last commit past the marker, and a
later log is what is left of an earlier one with newer records after it.
-/

namespace FlockDb

open Runs Positions

variable {S : Substrate}

/-- A log directory, with the head of its primary: sealed segments from the oldest on, the
segment being written, the marker, and the first LSN that no record has used. -/
structure LiveLog (S : Substrate) where
  sealedSegments : List (List (Record S.PageId S.ManifestId))
  liveSegment : List (Record S.PageId S.ManifestId)
  marker : Option (S.ManifestId × Lsn)
  head : S.ManifestId
  nextLsn : Lsn

/-- What a primary does to its log. -/
inductive PrimaryStep (S : Substrate) where
  | append (writes : List (Record S.PageId S.ManifestId)) (lsn : Lsn) (manifest : S.ManifestId)
      (createdAtMs : ℕ)
  | rollover
  | checkpoint (lsn : Lsn)
  | deleteSealed

/-- A marker covers an LSN. -/
def CoveredBy (marker : Option (S.ManifestId × Lsn)) (lsn : Lsn) : Prop :=
  ∃ m cp, marker = some (m, cp) ∧ lsn ≤ cp

/-- The records of a transaction: its writes, and the commit. -/
def transaction (writes : List (Record S.PageId S.ManifestId)) (lsn : Lsn)
    (manifest : S.ManifestId) (createdAtMs : ℕ) : List (Record S.PageId S.ManifestId) :=
  writes ++ [⟨lsn, .commit manifest createdAtMs⟩]

namespace LiveLog

/-- Every record of the log, in order. -/
def records (p : LiveLog S) : List (Record S.PageId S.ManifestId) :=
  p.sealedSegments.flatten ++ p.liveSegment

/-- The records that the marker does not cover. -/
def past (p : LiveLog S) : List (Record S.PageId S.ManifestId) :=
  aboveMarker (p.marker.map Prod.snd) p.records

/-- Where a follower with nothing applied stands: at the marker's manifest, or at the root. -/
def startHead (root : S.ManifestId) (p : LiveLog S) : S.ManifestId :=
  (p.marker.map Prod.fst).getD root

/-- The log after a step. -/
def step (p : LiveLog S) : PrimaryStep S → LiveLog S
  | .append writes lsn manifest createdAtMs =>
    { p with
      liveSegment := p.liveSegment ++ transaction writes lsn manifest createdAtMs
      head := manifest
      nextLsn := lsn + 1 }
  | .rollover => { p with sealedSegments := p.sealedSegments ++ [p.liveSegment], liveSegment := [] }
  | .checkpoint lsn => { p with marker := some (p.head, lsn), nextLsn := lsn + 1 }
  | .deleteSealed => { p with sealedSegments := p.sealedSegments.tail }

/-- A primary may take this step: a transaction is writes and a commit with new LSNs in order,
a marker covers everything written so far, and a deleted segment is covered by the marker. -/
def Allows (p : LiveLog S) : PrimaryStep S → Prop
  | .append writes lsn manifest createdAtMs =>
    (∀ r ∈ writes, ∃ pageNo page, r.kind = .write pageNo page) ∧
      ((transaction writes lsn manifest createdAtMs).Pairwise fun r r' => r.lsn < r'.lsn) ∧
      ∀ r ∈ transaction writes lsn manifest createdAtMs, p.nextLsn ≤ r.lsn
  | .rollover => True
  | .checkpoint lsn => p.nextLsn ≤ lsn + 1
  | .deleteSealed => ∀ segment, p.sealedSegments.head? = some segment →
      ∀ r ∈ segment, CoveredBy p.marker r.lsn

/-- One step of the primary, answering with the head that it leaves. -/
def advance (p : LiveLog S) (s : PrimaryStep S) : S.ManifestId × LiveLog S :=
  ((p.step s).head, p.step s)

/-- A log that has just been set up: it has no records, and the primary's head is where the
marker stands, or the root. -/
structure Opens (root : S.ManifestId) (p : LiveLog S) : Prop where
  records : p.records = []
  head : p.head = p.startHead root
  marker_lt : ∀ m cp, p.marker = some (m, cp) → cp < p.nextLsn

/-- What every run keeps: LSNs grow, none is used that is to come, only the marker marks, and
the head is the last commit of the log, and of what the marker leaves of it. -/
structure Sound (root : S.ManifestId) (p : LiveLog S) : Prop where
  lsn_lt : p.records.Pairwise fun r r' => r.lsn < r'.lsn
  lsn_lt_next : ∀ r ∈ p.records, r.lsn < p.nextLsn
  marker_lt : ∀ m cp, p.marker = some (m, cp) → cp < p.nextLsn
  kinds : ∀ r ∈ p.records, ∀ m, r.kind ≠ .checkpoint m
  last : ∀ lsn m createdAtMs,
    LastOf (fun r => r.isCommit) (⟨lsn, .commit m createdAtMs⟩ : Record _ _) p.records → m = p.head
  head : LastHead (p.startHead root) p.past p.head

/-- A later log: what is left of the earlier one past its covered records, and newer
records. -/
structure Later (p p' : LiveLog S) : Prop where
  nextLsn_le : p.nextLsn ≤ p'.nextLsn
  records : ∃ gone kept new, p.records = gone ++ kept ∧ p'.records = kept ++ new ∧
    (∀ r ∈ gone, CoveredBy p'.marker r.lsn) ∧ ∀ r ∈ new, p.nextLsn ≤ r.lsn
  covered : ∀ lsn, CoveredBy p.marker lsn → CoveredBy p'.marker lsn

/-- Nothing has happened to a log that is as it was. -/
theorem Later.refl (p : LiveLog S) : p.Later p :=
  ⟨le_rfl, ⟨[], p.records, [], rfl, (List.append_nil _).symm, by simp, by simp⟩, fun _ h => h⟩

/-- Being later composes. -/
theorem Later.trans {p p' p'' : LiveLog S} (h : p.Later p') (h' : p'.Later p'') : p.Later p'' := by
  obtain ⟨gone, kept, new, hp, hp', hgone, hnew⟩ := h.records
  obtain ⟨gone', kept', new', hrecords, hp'', hgone', hnew'⟩ := h'.records
  have hnew'' : ∀ r ∈ new', p.nextLsn ≤ r.lsn := fun r hr => h.nextLsn_le.trans (hnew' r hr)
  have hgone'' : ∀ r ∈ gone, CoveredBy p''.marker r.lsn := fun r hr => h'.covered _ (hgone r hr)
  refine ⟨h.nextLsn_le.trans h'.nextLsn_le, ?_, fun lsn hlsn => h'.covered lsn (h.covered lsn hlsn)⟩
  -- the second loss ends inside what was kept, or inside what was new
  rcases List.append_eq_append_iff.mp (hp'.symm.trans hrecords) with
    ⟨more, rfl, rfl⟩ | ⟨rest, rfl, rfl⟩
  · refine ⟨gone ++ kept, [], kept' ++ new', by rw [hp, List.append_nil], hp'', ?_, ?_⟩
    · intro r hr
      rcases List.mem_append.mp hr with hr | hr
      · exact hgone'' r hr
      · exact hgone' r (List.mem_append_left _ hr)
    · intro r hr
      rcases List.mem_append.mp hr with hr | hr
      · exact hnew r (List.mem_append_right _ hr)
      · exact hnew'' r hr
  · refine ⟨gone ++ gone', rest, new ++ new', by rw [hp, List.append_assoc], ?_, ?_, ?_⟩
    · rw [hp'', List.append_assoc]
    · intro r hr
      rcases List.mem_append.mp hr with hr | hr
      · exact hgone'' r hr
      · exact hgone' r hr
    · intro r hr
      rcases List.mem_append.mp hr with hr | hr
      · exact hnew r hr
      · exact hnew'' r hr

/-- A record past the marker is one that the marker does not cover. -/
theorem mem_past_iff {p : LiveLog S} {r : Record S.PageId S.ManifestId} :
    r ∈ p.past ↔ r ∈ p.records ∧ ¬CoveredBy p.marker r.lsn := by
  rw [past, aboveMarker, List.mem_filter]
  cases hmarker : p.marker with
  | none => simp [CoveredBy]
  | some marker =>
    obtain ⟨m, cp⟩ := marker
    simp [CoveredBy]

/-- A deleted segment leaves the other records, and was covered. -/
theorem records_deleteSealed {p : LiveLog S} (h : p.Allows .deleteSealed) :
    ∃ gone, p.records = gone ++ (p.step .deleteSealed).records ∧
      ∀ r ∈ gone, CoveredBy p.marker r.lsn := by
  cases hsealed : p.sealedSegments with
  | nil => exact ⟨[], by simp [records, step, hsealed], by simp⟩
  | cons segment rest =>
    refine ⟨segment, by simp [records, step, hsealed], ?_⟩
    exact h segment (by rw [hsealed, List.head?_cons])

/-- A log that has just been set up is sound. -/
theorem Opens.sound {root : S.ManifestId} {p : LiveLog S} (h : p.Opens root) : p.Sound root where
  lsn_lt := by simp [h.records]
  lsn_lt_next := by simp [h.records]
  marker_lt := h.marker_lt
  kinds := by simp [h.records]
  last := by simp [h.records]
  head := by
    refine .inr ⟨fun r hr => ?_, h.head⟩
    have hmem := (mem_past_iff.mp hr).1
    rw [h.records] at hmem
    cases hmem

/-- Every step keeps a log sound. -/
theorem Sound.step {root : S.ManifestId} {p : LiveLog S} (h : p.Sound root) {s : PrimaryStep S}
    (hs : p.Allows s) : (p.step s).Sound root := by
  cases s with
  | append writes lsn manifest createdAtMs =>
    obtain ⟨hwrites, hlsn, hnew⟩ := hs
    set txn := transaction writes lsn manifest createdAtMs with htxn
    have hrecords : (p.step (.append writes lsn manifest createdAtMs)).records = p.records ++ txn :=
      (List.append_assoc _ _ _).symm
    have hlast : ∀ r ∈ txn, r.lsn ≤ lsn := by
      intro r hr
      rcases List.mem_append.mp hr with hr | hr
      · exact ((List.pairwise_append.mp hlsn).2.2 r hr _ (List.mem_singleton_self _)).le
      · rw [List.mem_singleton.mp hr]
    have hnext : p.nextLsn ≤ lsn := hnew _ (List.mem_append_right _ (List.mem_singleton_self _))
    refine ⟨?_, ?_, ?_, ?_, ?_, ?_⟩
    · rw [hrecords, List.pairwise_append]
      exact ⟨h.lsn_lt, hlsn, fun r hr r' hr' => (h.lsn_lt_next r hr).trans_le (hnew r' hr')⟩
    · rw [hrecords]
      intro r hr
      rcases List.mem_append.mp hr with hr | hr
      · exact ((h.lsn_lt_next r hr).trans_le hnext).trans (Nat.lt_succ_self lsn)
      · exact Nat.lt_succ_of_le (hlast r hr)
    · intro m cp hmarker
      exact ((h.marker_lt m cp hmarker).trans_le hnext).trans (Nat.lt_succ_self lsn)
    · rw [hrecords]
      intro r hr m hkind
      rcases List.mem_append.mp hr with hr | hr
      · exact h.kinds r hr m hkind
      rcases List.mem_append.mp hr with hr | hr
      · obtain ⟨pageNo, page, hwrite⟩ := hwrites r hr
        cases hwrite.symm.trans hkind
      · rw [List.mem_singleton.mp hr] at hkind
        cases hkind
    · intro lsn' m t hlast'
      rw [hrecords, htxn, transaction, ← List.append_assoc, lastOf_concat] at hlast'
      rcases hlast' with heq | ⟨hcommit, -⟩
      · cases heq
        rfl
      · exact absurd rfl hcommit
    · have hpast : (p.step (.append writes lsn manifest createdAtMs)).past =
          (p.past ++ writes) ++ [⟨lsn, .commit manifest createdAtMs⟩] := by
        have hkept : aboveMarker (p.marker.map Prod.snd) txn = txn := by
          refine List.filter_eq_self.mpr fun r hr => ?_
          cases hmarker : p.marker with
          | none => rfl
          | some marker =>
            have hlt := (h.marker_lt marker.1 marker.2 hmarker).trans_le (hnew r hr)
            simpa using hlt
        rw [past, hrecords, aboveMarker, List.filter_append]
        change p.past ++ aboveMarker (p.marker.map Prod.snd) txn = _
        rw [hkept, List.append_assoc]
        rfl
      rw [hpast]
      exact lastHead_commit _ _ _
  | rollover =>
    have hrecords : (p.step .rollover).records = p.records := by
      simp [records, LiveLog.step]
    have hpast : (p.step .rollover).past = p.past := by
      rw [past, hrecords]
      rfl
    refine ⟨hrecords ▸ h.lsn_lt, hrecords ▸ h.lsn_lt_next, h.marker_lt, hrecords ▸ h.kinds,
      hrecords ▸ h.last, ?_⟩
    rw [hpast]
    exact h.head
  | checkpoint lsn =>
    have hcovered : ∀ r ∈ p.records, r.lsn ≤ lsn := fun r hr =>
      Nat.le_of_lt_succ ((h.lsn_lt_next r hr).trans_le hs)
    refine ⟨h.lsn_lt, fun r hr => Nat.lt_succ_of_le (hcovered r hr), ?_, h.kinds, h.last, ?_⟩
    · intro m cp hmarker
      obtain ⟨-, rfl⟩ := Prod.mk.inj (Option.some.inj hmarker)
      exact Nat.lt_succ_self lsn
    · refine .inr ⟨fun r hr => ?_, rfl⟩
      obtain ⟨hr, habove⟩ := mem_past_iff.mp hr
      exact absurd ⟨_, lsn, rfl, hcovered r hr⟩ habove
  | deleteSealed =>
    obtain ⟨gone, hrecords, hgone⟩ := records_deleteSealed hs
    have hmem : ∀ r ∈ (p.step .deleteSealed).records, r ∈ p.records := fun r hr => by
      rw [hrecords]
      exact List.mem_append_right _ hr
    have hpast : (p.step .deleteSealed).past = p.past := by
      have hnone : aboveMarker (p.marker.map Prod.snd) gone = [] := by
        refine List.filter_eq_nil_iff.mpr fun r hr => ?_
        obtain ⟨m, cp, hmarker, hle⟩ := hgone r hr
        simp [hmarker, hle]
      rw [past, past, hrecords, aboveMarker, aboveMarker, List.filter_append]
      change _ = aboveMarker (p.marker.map Prod.snd) gone ++ _
      rw [hnone]
      rfl
    refine ⟨?_, fun r hr => h.lsn_lt_next r (hmem r hr), h.marker_lt,
      fun r hr => h.kinds r (hmem r hr), fun lsn m t hlast => ?_, ?_⟩
    · have hlsn := h.lsn_lt
      rw [hrecords] at hlsn
      exact (List.pairwise_append.mp hlsn).2.1
    · refine h.last lsn m t ?_
      obtain ⟨before, after, heq, hafter⟩ := hlast
      exact ⟨gone ++ before, after, by rw [hrecords, heq, List.append_assoc], hafter⟩
    · rw [hpast]
      exact h.head

/-- Every step of a sound log makes a later one. -/
theorem Sound.later_step {root : S.ManifestId} {p : LiveLog S} (h : p.Sound root)
    {s : PrimaryStep S} (hs : p.Allows s) : p.Later (p.step s) := by
  cases s with
  | append writes lsn manifest createdAtMs =>
    obtain ⟨-, -, hnew⟩ := hs
    have hnext : p.nextLsn ≤ lsn := hnew _ (List.mem_append_right _ (List.mem_singleton_self _))
    refine ⟨hnext.trans (Nat.le_succ lsn), ⟨[], p.records,
      transaction writes lsn manifest createdAtMs, rfl, (List.append_assoc _ _ _).symm, by simp,
      hnew⟩, fun _ h => h⟩
  | rollover =>
    have hrecords : (p.step .rollover).records = p.records := by
      simp [records, LiveLog.step]
    exact ⟨le_rfl, ⟨[], p.records, [], rfl, by rw [hrecords, List.append_nil], by simp, by simp⟩,
      fun _ h => h⟩
  | checkpoint lsn =>
    have hs : p.nextLsn ≤ lsn + 1 := hs
    refine ⟨hs, ⟨[], p.records, [], rfl, (List.append_nil _).symm, by simp, by simp⟩, ?_⟩
    rintro lsn' ⟨m, cp, hmarker, hle⟩
    have hcp := h.marker_lt m cp hmarker
    exact ⟨p.head, lsn, rfl, hle.trans (Nat.le_of_lt_succ (hcp.trans_le hs))⟩
  | deleteSealed =>
    obtain ⟨gone, hrecords, hgone⟩ := records_deleteSealed hs
    exact ⟨le_rfl, ⟨gone, _, [], hrecords, (List.append_nil _).symm, hgone, by simp⟩, fun _ h => h⟩

/-- Every run of the primary's steps keeps its log sound and makes a later one. -/
theorem Sound.run {root : S.ManifestId} {p : LiveLog S} (h : p.Sound root)
    {steps : List (PrimaryStep S)} (hsteps : Along advance Allows p steps) :
    (run advance p steps).2.Sound root ∧ p.Later (run advance p steps).2 := by
  have hstep : ∀ (p' : LiveLog S) s, p'.Allows s → p'.Sound root ∧ p.Later p' →
      (p'.step s).Sound root ∧ p.Later (p'.step s) := fun p' s hs h' =>
    ⟨h'.1.step hs, h'.2.trans (h'.1.later_step hs)⟩
  exact run_invariant_along hstep hsteps ⟨h, .refl p⟩

end LiveLog

end FlockDb
