import FlockDb.Core.Journal

/-!
# Reading a log directory

A log directory has a file for each segment, and other files. Every segment but the last is
sealed: it is made of complete frames. The last one may end in a frame that is not complete.
Reading the directory gives the records of the complete frames in the order of the segment
numbers, however the directory is listed, and as the log goes on only adds to them.
-/

namespace FlockDb

variable {S : Substrate}

/-- What the code relies on of `Record::decode`, for which bytes are a frame of which record: it
takes the first frame that is complete, and nothing less than a frame. -/
structure Substrate.Framing (S : Substrate)
    (IsFrame : Bytes → Record S.PageId S.ManifestId → Prop) : Prop where
  ne_nil : ∀ {frame record}, IsFrame frame record → frame ≠ []
  decode_frame : ∀ {frame record} (rest : Bytes), IsFrame frame record →
    S.decode (frame ++ rest) = .record record frame.length
  decode_prefix : ∀ {frame record tail}, IsFrame frame record → tail <+: frame → tail ≠ frame →
    S.decode tail = .torn
  decode_nil : S.decode [] = .torn

/-- A segment: its number, its complete frames with their records, and what is there of one
frame more. -/
structure Segment (S : Substrate) where
  number : ℕ
  frames : List (Bytes × Record S.PageId S.ManifestId)
  tail : Bytes

namespace Segment

/-- The bytes of a segment's file. -/
def bytes (segment : Segment S) : Bytes := segment.frames.flatMap Prod.fst ++ segment.tail

/-- The complete records of a segment. -/
def records (segment : Segment S) : List (Record S.PageId S.ManifestId) :=
  segment.frames.map Prod.snd

end Segment

/-- Segments of a log in the order of their numbers: all but the last one are sealed. -/
structure LogSegments (IsFrame : Bytes → Record S.PageId S.ManifestId → Prop)
    (segments : List (Segment S)) : Prop where
  ascending : (segments.map Segment.number).Pairwise (· < ·)
  number_lt : ∀ segment ∈ segments, segment.number < 2 ^ 64
  frames : ∀ segment ∈ segments, ∀ frame ∈ segment.frames, IsFrame frame.1 frame.2
  tail : ∀ segment ∈ segments, segment.tail = [] ∨
    ∃ frame record, IsFrame frame record ∧ segment.tail <+: frame ∧ segment.tail ≠ frame
  sealed : ∀ segment ∈ segments.dropLast, segment.tail = []

/-- A log directory that has these segments: its listing names their files in any order, among
others that are no segments. -/
structure WalFiles.Has (files : WalFiles) (segments : List (Segment S)) : Prop where
  readDir : ∃ entries others, files.readDir = .ok entries ∧
    entries.Perm ((segments.map fun segment => segmentName segment.number) ++ others) ∧
    ∀ name ∈ others, segmentNumber name = none
  read : ∀ segment ∈ segments, files.read (segmentName segment.number) = .ok segment.bytes

/-- What is left of a segment after its complete frames is no frame. -/
theorem LogSegments.decode_tail {IsFrame : Bytes → Record S.PageId S.ManifestId → Prop}
    (hframing : S.Framing IsFrame) {segments : List (Segment S)}
    (hlog : LogSegments IsFrame segments) {segment : Segment S} (hmem : segment ∈ segments) :
    S.decode segment.tail = .torn := by
  rcases hlog.tail segment hmem with hnil | ⟨frame, record, hframe, hprefix, hne⟩
  · rw [hnil]
    exact hframing.decode_nil
  · exact hframing.decode_prefix hframe hprefix hne

/-- The digits of a number, with zeros in front, are read back. -/
theorem parseU64_digits {n : ℕ} (hn : n < 2 ^ 64) (zeros : ℕ) :
    parseU64 (List.replicate zeros '0' ++ Nat.toDigits 10 n) = some n := by
  have hdigits : ∀ c ∈ List.replicate zeros '0' ++ Nat.toDigits 10 n, c.isDigit = true := by
    intro c hc
    rcases List.mem_append.mp hc with h | h
    · rw [List.eq_of_mem_replicate h]
      rfl
    · exact Nat.isDigit_of_mem_toDigits (by decide) (by decide) h
  have hne : List.replicate zeros '0' ++ Nat.toDigits 10 n ≠ [] := by
    simp
  have hvalue : (List.replicate zeros '0' ++ Nat.toDigits 10 n).foldl
      (fun n c => 10 * n + (c.toNat - '0'.toNat)) 0 = n := by
    rw [← Nat.ofDigitChars_eq_foldl, Nat.ofDigitChars_append, Nat.ofDigitChars_replicate_zero,
      Nat.mul_zero, Nat.ofDigitChars_ten_toDigits]
  have hplus : parseU64 (List.replicate zeros '0' ++ Nat.toDigits 10 n) =
      parseDigits (List.replicate zeros '0' ++ Nat.toDigits 10 n) := by
    unfold parseU64
    split
    · next digits hsplit =>
      have hplus := hdigits '+' (hsplit ▸ List.mem_cons_self)
      cases hplus
    · rfl
  have hparses : ((List.replicate zeros '0' ++ Nat.toDigits 10 n).isEmpty ||
      !(List.replicate zeros '0' ++ Nat.toDigits 10 n).all Char.isDigit) = false := by
    rw [List.all_eq_true.mpr hdigits, List.isEmpty_eq_false_iff.mpr hne]
    rfl
  rw [hplus, parseDigits, hparses, hvalue]
  exact if_pos hn

/-- A segment's number is read back from its file's name. -/
theorem segmentNumber_segmentName {n : ℕ} (hn : n < 2 ^ 64) :
    segmentNumber (segmentName n) = some n := by
  have hname : (segmentName n).toList =
      (List.replicate (12 - (Nat.repr n).length) '0' ++ Nat.toDigits 10 n) ++ ".wal".toList := by
    simp [segmentName]
  rw [segmentNumber, hname, if_pos (List.isSuffixOf_iff_suffix.mpr (List.suffix_append _ _)),
    List.length_append, Nat.add_sub_cancel, List.take_left]
  exact parseU64_digits hn _

namespace WalSource

/-- **The frame loop comes to its end**, whatever more time it is given: it returns the records
of the complete frames, and says whether a part of a frame is left. -/
theorem readSegment_eq {IsFrame : Bytes → Record S.PageId S.ManifestId → Prop}
    (hframing : S.Framing IsFrame) {frames : List (Bytes × Record S.PageId S.ManifestId)}
    (hframes : ∀ frame ∈ frames, IsFrame frame.1 frame.2) {tail : Bytes}
    (htail : S.decode tail = .torn) {fuel : ℕ}
    (hfuel : (frames.flatMap Prod.fst ++ tail).length ≤ fuel) :
    readSegment fuel (frames.flatMap Prod.fst ++ tail) = (frames.map Prod.snd, !tail.isEmpty) := by
  induction frames generalizing fuel with
  | nil =>
    cases fuel with
    | zero => rfl
    | succ fuel => simp [readSegment, htail]
  | cons frame frames ih =>
    rw [List.forall_mem_cons] at hframes
    obtain ⟨hframe, hrest⟩ := hframes
    have hpos : 0 < frame.1.length := List.length_pos_of_ne_nil (hframing.ne_nil hframe)
    rw [List.flatMap_cons, List.append_assoc, List.length_append] at hfuel
    obtain ⟨fuel, rfl⟩ : ∃ n, fuel = n + 1 := ⟨fuel - 1, by omega⟩
    rw [List.flatMap_cons, List.append_assoc, readSegment, hframing.decode_frame _ hframe]
    simp only [List.drop_left]
    rw [ih hrest (by omega)]
    rfl

/-- A segment is read for its complete records. -/
theorem readSegment_bytes {IsFrame : Bytes → Record S.PageId S.ManifestId → Prop}
    (hframing : S.Framing IsFrame) {segments : List (Segment S)}
    (hlog : LogSegments IsFrame segments) {segment : Segment S} (hmem : segment ∈ segments)
    {fuel : ℕ} (hfuel : segment.bytes.length ≤ fuel) :
    readSegment fuel segment.bytes = (segment.records, !segment.tail.isEmpty) := by
  exact readSegment_eq hframing (hlog.frames segment hmem) (hlog.decode_tail hframing hmem) hfuel

/-- The segment loop goes through all segments: only the last one can stop it. -/
theorem readSegments_eq {src : WalSource S} {segments : List (Segment S)}
    (hread : ∀ segment ∈ segments,
      src.files.read (segmentName segment.number) = .ok segment.bytes)
    (hloop : ∀ segment ∈ segments,
      readSegment segment.bytes.length segment.bytes = (segment.records, !segment.tail.isEmpty))
    (hsealed : ∀ segment ∈ segments.dropLast, segment.tail = []) :
    src.readSegments (segments.map Segment.number) = .ok (segments.flatMap Segment.records) := by
  induction segments with
  | nil => rfl
  | cons segment segments ih =>
    rw [List.forall_mem_cons] at hread hloop
    rw [List.map_cons, readSegments, hread.1]
    simp only [hloop.1, List.flatMap_cons]
    cases segments with
    | nil =>
      cases segment.tail.isEmpty with
      | true => rfl
      | false => simp
    | cons next segments =>
      rw [List.dropLast_cons_cons, List.forall_mem_cons] at hsealed
      rw [hsealed.1, ih hread.2 hloop.2 hsealed.2]
      rfl

/-- The segments of a directory are listed in the order of their numbers. -/
theorem segments_eq {IsFrame : Bytes → Record S.PageId S.ManifestId → Prop} {src : WalSource S}
    {segments : List (Segment S)} (hlog : LogSegments IsFrame segments)
    (hfiles : src.files.Has segments) : src.segments = .ok (segments.map Segment.number) := by
  obtain ⟨entries, others, hreadDir, hperm, hothers⟩ := hfiles.readDir
  have hnumbers : ((segments.map fun segment => segmentName segment.number) ++ others).filterMap
      segmentNumber = segments.map Segment.number := by
    have hnone : others.filterMap segmentNumber = [] := List.filterMap_eq_nil_iff.mpr hothers
    rw [List.filterMap_append, hnone, List.append_nil, List.filterMap_map, ← List.filterMap_eq_map]
    refine List.filterMap_congr fun segment hsegment => ?_
    rw [Function.comp_apply, segmentNumber_segmentName (hlog.number_lt segment hsegment)]
    rfl
  have hsorted : (entries.filterMap segmentNumber).mergeSort (· ≤ ·) =
      segments.map Segment.number := by
    have hpermuted : ((entries.filterMap segmentNumber).mergeSort (· ≤ ·)).Perm
        (segments.map Segment.number) :=
      (List.mergeSort_perm _ _).trans (hnumbers ▸ hperm.filterMap segmentNumber)
    refine hpermuted.eq_of_pairwise (fun a b _ _ => le_antisymm) ?_ ?_
    · exact List.pairwise_mergeSort' (· ≤ ·) _
    · exact hlog.ascending.imp le_of_lt
  rw [WalSource.segments, hreadDir]
  simp only [hsorted]

/-- The records of a log directory are those of its segments. -/
theorem records_eq {IsFrame : Bytes → Record S.PageId S.ManifestId → Prop}
    (hframing : S.Framing IsFrame) {src : WalSource S} {segments : List (Segment S)}
    (hlog : LogSegments IsFrame segments) (hfiles : src.files.Has segments) :
    src.records = .ok (segments.flatMap Segment.records) := by
  rw [records, segments_eq hlog hfiles]
  exact readSegments_eq hfiles.read
    (fun segment hsegment => readSegment_bytes hframing hlog hsegment le_rfl) hlog.sealed

end WalSource

/-- A log that was appended to: its last segment has more bytes, and there may be more segments
after it. -/
inductive AppendedTo : List (Segment S) → List (Segment S) → Prop
  | begun (later : List (Segment S)) : AppendedTo [] later
  | extended (done : List (Segment S)) {last last' : Segment S} (more : List (Segment S))
      (hnumber : last'.number = last.number) (hbytes : last.bytes <+: last'.bytes) :
      AppendedTo (done ++ [last]) (done ++ last' :: more)

/-- Bytes that go on read as the same records first. -/
theorem records_prefix {IsFrame : Bytes → Record S.PageId S.ManifestId → Prop}
    (hframing : S.Framing IsFrame) {frames frames' : List (Bytes × Record S.PageId S.ManifestId)}
    (hframes : ∀ frame ∈ frames, IsFrame frame.1 frame.2)
    (hframes' : ∀ frame ∈ frames', IsFrame frame.1 frame.2) {tail tail' : Bytes}
    (htail' : S.decode tail' = .torn)
    (h : frames.flatMap Prod.fst ++ tail <+: frames'.flatMap Prod.fst ++ tail') :
    frames.map Prod.snd <+: frames'.map Prod.snd := by
  induction frames generalizing frames' with
  | nil => exact List.nil_prefix
  | cons frame frames ih =>
    rw [List.forall_mem_cons] at hframes
    obtain ⟨hframe, hrest⟩ := hframes
    rw [List.flatMap_cons, List.append_assoc] at h
    obtain ⟨more, hmore⟩ := h
    have hdecode := hframing.decode_frame (frames.flatMap Prod.fst ++ tail ++ more) hframe
    rw [← List.append_assoc, hmore] at hdecode
    cases frames' with
    | nil =>
      -- nothing complete is left, but there is a frame
      rw [List.flatMap_nil, List.nil_append, htail'] at hdecode
      cases hdecode
    | cons frame' frames' =>
      rw [List.forall_mem_cons] at hframes'
      obtain ⟨hframe', hrest'⟩ := hframes'
      rw [List.flatMap_cons, List.append_assoc] at hdecode
      rw [List.flatMap_cons] at hmore
      rw [hframing.decode_frame _ hframe'] at hdecode
      obtain ⟨hrecord, hlength⟩ := ReadOutcome.record.inj hdecode
      rw [List.append_assoc, List.append_assoc frame'.1] at hmore
      obtain ⟨-, hmore⟩ := List.append_inj hmore hlength.symm
      rw [List.map_cons, List.map_cons, hrecord]
      exact List.cons_prefix_cons.mpr ⟨rfl, ih hrest hrest' ⟨more, hmore⟩⟩

/-- The records of a log are the first ones of what it becomes. -/
theorem AppendedTo.records_prefix {IsFrame : Bytes → Record S.PageId S.ManifestId → Prop}
    (hframing : S.Framing IsFrame) {segments later : List (Segment S)}
    (h : AppendedTo segments later) (hlog : LogSegments IsFrame segments)
    (hlater : LogSegments IsFrame later) :
    segments.flatMap Segment.records <+: later.flatMap Segment.records := by
  cases h with
  | begun later => exact List.nil_prefix
  | extended done more hnumber hbytes =>
    next last last' =>
    have hlast : last ∈ done ++ [last] := List.mem_append_right _ (List.mem_singleton_self _)
    have hlast' : last' ∈ done ++ last' :: more := List.mem_append_right _ List.mem_cons_self
    have hrecords : last.records <+: last'.records :=
      FlockDb.records_prefix hframing (hlog.frames last hlast) (hlater.frames last' hlast')
        (hlater.decode_tail hframing hlast') hbytes
    rw [List.flatMap_append, List.flatMap_append, List.flatMap_singleton, List.flatMap_cons]
    exact (List.prefix_append_right_inj _).mpr (hrecords.trans (List.prefix_append _ _))

/-- **A log directory is read for exactly its complete records.** Each frame loop comes to its
end, whatever more time it is given, and the records are those of the complete frames in the
order of the segment numbers, however the directory is listed. When the log goes on, what is
read begins with what was read before. -/
theorem records_of_segments {IsFrame : Bytes → Record S.PageId S.ManifestId → Prop}
    (hframing : S.Framing IsFrame) {src : WalSource S} {segments : List (Segment S)}
    (hlog : LogSegments IsFrame segments) (hfiles : src.files.Has segments) :
    (∀ segment ∈ segments, ∀ fuel, segment.bytes.length ≤ fuel →
      WalSource.readSegment fuel segment.bytes = (segment.records, !segment.tail.isEmpty)) ∧
    src.records = .ok (segments.flatMap Segment.records) ∧
    ∀ (src' : WalSource S) (later : List (Segment S)), AppendedTo segments later →
      LogSegments IsFrame later → src'.files.Has later →
      ∃ more, src'.records = .ok (segments.flatMap Segment.records ++ more) := by
  refine ⟨fun segment hmem fuel => WalSource.readSegment_bytes hframing hlog hmem,
    WalSource.records_eq hframing hlog hfiles, fun src' later happended hlater hfiles' => ?_⟩
  obtain ⟨more, hmore⟩ := happended.records_prefix hframing hlog hlater
  exact ⟨more, hmore ▸ WalSource.records_eq hframing hlater hfiles'⟩

namespace Memory

/-- The frames of logs that are read back. -/
theorem framing : journaled.Framing fun bytes record => bytes = frame record where
  ne_nil := by
    rintro _ record rfl
    simp [frame]
  decode_frame := by
    rintro _ record rest rfl
    exact decodeFrame_frame record rest
  decode_prefix := by
    rintro _ record tail rfl hprefix hne
    rcases List.prefix_concat_iff.mp hprefix with hwhole | hzeros
    · exact absurd hwhole hne
    · have hall : ∀ byte ∈ tail, decide (byte = 0) = true := fun byte hbyte =>
        decide_eq_true (List.eq_of_mem_replicate (hzeros.subset hbyte))
      have htorn : decodeFrame tail = .torn := by
        rw [decodeFrame, List.takeWhile_eq_self_iff.mpr hall]
        exact if_neg (lt_irrefl _)
      exact htorn
  decode_nil := rfl

/-- A commit of the empty root. -/
def emptyCommit (lsn : Lsn) : Record Bytes ManifestId := ⟨lsn, .commit [] 0⟩

/-- Two segments with a commit each, the second one cut off in a third. -/
def twoSegments : List (Segment journaled) :=
  [⟨0, [(frame (emptyCommit 0), emptyCommit 0)], []⟩,
    ⟨1, [(frame (emptyCommit 1), emptyCommit 1)],
      List.replicate (Encodable.encode (emptyCommit 2)) 0⟩]

/-- A source over two segments, which are listed in the wrong order. -/
def twoSegmentSource : WalSource journaled where
  files := {
    readDir := .ok ["000000000001.wal", "CHECKPOINT", "000000000000.wal"]
    fileExists := fun _ => false
    read := fun name => .ok ((twoSegments.find? fun segment =>
      segmentName segment.number = name).elim [] Segment.bytes) }
  walDir := "wal"
  cas := ⟨[], []⟩
  pageSize := 4096

end Memory

open Memory in
/-- A log of two segments is read for the two commits that are complete. -/
theorem records_of_segments_two :
    twoSegmentSource.records = .ok [emptyCommit 0, emptyCommit 1] := by
  have hlog : LogSegments (fun bytes record => bytes = frame record) twoSegments := {
    ascending := by decide
    number_lt := by decide
    frames := by
      intro segment hsegment frame hframe
      rcases List.mem_cons.mp hsegment with rfl | hsegment
      · rw [List.mem_singleton.mp hframe]
      · obtain rfl := List.mem_singleton.mp hsegment
        rw [List.mem_singleton.mp hframe]
    tail := by
      intro segment hsegment
      rcases List.mem_cons.mp hsegment with rfl | hsegment
      · exact .inl rfl
      · obtain rfl := List.mem_singleton.mp hsegment
        refine .inr ⟨_, emptyCommit 2, rfl, List.prefix_append _ _, fun heq => ?_⟩
        have hlength := congrArg List.length heq
        simp [frame] at hlength
    sealed := fun segment hsegment => by
      obtain rfl := List.mem_singleton.mp hsegment
      rfl }
  have hfiles : twoSegmentSource.files.Has twoSegments := {
    readDir := ⟨_, ["CHECKPOINT"], rfl, by decide, by decide⟩
    read := by
      intro segment hsegment
      rcases List.mem_cons.mp hsegment with rfl | hsegment
      · rfl
      · obtain rfl := List.mem_singleton.mp hsegment
        rfl }
  obtain ⟨-, hrecords, -⟩ := records_of_segments framing hlog hfiles
  exact hrecords

end FlockDb
