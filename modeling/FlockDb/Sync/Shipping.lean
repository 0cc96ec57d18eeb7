import FlockDb.Library.Positions
import FlockDb.Sync.History

/-!
# What a source ships

A shipment carries its commit unchanged, together with a blob for every page the
commit sets. A source can build one exactly when it has those pages. From this
the two position queries are computed: a follower at the `k`-th head resumes
after the `k`-th commit, and a follower at no head of the log is unknown.
-/

namespace FlockDb

open Fallible

variable {S : Substrate}

/-- A shipment that carries a commit: the same transaction, with its pages. -/
structure Carries (s : Shipment S) (c : Commit S) : Prop where
  base : s.base = c.base
  manifest : s.manifest = c.manifest
  commitLsn : s.commitLsn = c.lsn
  createdAtMs : s.createdAtMs = c.createdAtMs
  changes : s.changes = c.changes
  intact : s.Intact

/-- A shipment that carries a commit asks for the commit's move. -/
theorem Carries.link_eq {s : Shipment S} {c : Commit S} (h : Carries s c) : s.link = c.link := by
  rw [Shipment.link, Commit.link, h.base, h.manifest]

/-- A shipment that carries a derived commit is derived. -/
theorem Carries.derived {s : Shipment S} {c : Commit S} (h : Carries s c) (hc : c.Derived) :
    s.Derived := by
  rw [Shipment.Derived, h.manifest, h.base, h.changes, h.createdAtMs]
  exact hc

namespace WalSource

/-- What the blob loop collects over a list of writes, on top of the blobs it has. -/
structure Collected (cas : S.Cas) (writes : List (PageNo × Option S.PageId))
    (blobs out : List (PageBlob S)) : Prop where
  fetched : ∀ b ∈ out, S.get cas b.id = .ok b.bytes
  nodup : (out.map PageBlob.id).Nodup
  subset : blobs ⊆ out
  cover : ∀ p id, (p, some id) ∈ writes → ∃ b ∈ out, b.id = id
  needed : ∀ b ∈ out, b ∈ blobs ∨ ∃ p, (p, some b.id) ∈ writes

/-- Every blob collected is a page of the store, and every page set has one of its own. -/
theorem collectBlobs_spec {cas : S.Cas} {lsn : Lsn} {writes : List (PageNo × Option S.PageId)}
    {blobs out : List (PageBlob S)} (hblobs : ∀ b ∈ blobs, S.get cas b.id = .ok b.bytes)
    (hnodup : (blobs.map PageBlob.id).Nodup) (h : collectBlobs cas lsn writes blobs = .ok out) :
    Collected cas writes blobs out := by
  induction writes generalizing blobs with
  | nil =>
    obtain rfl : blobs = out := Except.ok.inj h
    exact ⟨hblobs, hnodup, List.Subset.refl _, by simp, fun b hb => .inl hb⟩
  | cons write writes ih =>
    obtain ⟨pageNo, page⟩ := write
    cases page with
    | none =>
      have hrest := ih hblobs hnodup h
      refine { hrest with cover := fun p id hmem => ?_, needed := fun b hb => ?_ }
      · have hmem' : (p, some id) ∈ writes := by simpa using hmem
        exact hrest.cover p id hmem'
      · exact (hrest.needed b hb).imp_right fun ⟨p, hp⟩ => ⟨p, by simp [hp]⟩
    | some id =>
      rw [collectBlobs] at h
      by_cases hknown : blobs.any (fun b => b.id = id) = true
      · rw [if_pos hknown] at h
        have hrest := ih hblobs hnodup h
        obtain ⟨known, hmem, hid⟩ : ∃ b ∈ blobs, b.id = id := by simpa using hknown
        refine { hrest with cover := fun p id' hwrite => ?_, needed := fun b hb => ?_ }
        · rcases List.mem_cons.mp hwrite with heq | hwrite
          · obtain ⟨-, rfl⟩ : p = pageNo ∧ id' = id := by simpa using heq
            exact ⟨known, hrest.subset hmem, hid⟩
          · exact hrest.cover p id' hwrite
        · exact (hrest.needed b hb).imp_right fun ⟨p, hp⟩ => ⟨p, by simp [hp]⟩
      · rw [if_neg hknown] at h
        cases hget : S.get cas id with
        | error e =>
          rw [hget] at h
          cases h
        | ok bytes =>
          rw [hget] at h
          have hblobs' : ∀ b ∈ blobs ++ [(⟨id, bytes⟩ : PageBlob S)],
              S.get cas b.id = .ok b.bytes := by
            intro b hb
            rcases List.mem_append.mp hb with hb | hb
            · exact hblobs b hb
            · obtain rfl := List.mem_singleton.mp hb
              exact hget
          have hfresh : ∀ b ∈ blobs, b.id ≠ id := by simpa using hknown
          have hnodup' : ((blobs ++ [(⟨id, bytes⟩ : PageBlob S)]).map PageBlob.id).Nodup := by
            rw [List.map_append, List.nodup_append]
            refine ⟨hnodup, List.nodup_singleton _, fun i hi j hj => ?_⟩
            obtain ⟨b, hb, rfl⟩ := List.mem_map.mp hi
            obtain rfl : j = id := by simpa using hj
            exact hfresh b hb
          have hrest := ih hblobs' hnodup' h
          have hself : (⟨id, bytes⟩ : PageBlob S) ∈ out := hrest.subset (by simp)
          refine { hrest with
            subset := fun b hb => hrest.subset (by simp [hb])
            cover := fun p id' hwrite => ?_
            needed := fun b hb => ?_ }
          · rcases List.mem_cons.mp hwrite with heq | hwrite
            · obtain ⟨-, rfl⟩ : p = pageNo ∧ id' = id := by simpa using heq
              exact ⟨_, hself, rfl⟩
            · exact hrest.cover p id' hwrite
          · rcases hrest.needed b hb with hb | ⟨p, hp⟩
            · rcases List.mem_append.mp hb with hb | hb
              · exact .inl hb
              · obtain rfl := List.mem_singleton.mp hb
                exact .inr ⟨pageNo, by simp⟩
            · exact .inr ⟨p, by simp [hp]⟩

/-- Blobs can be collected when every page set is in the store. -/
theorem collectBlobs_isOk {cas : S.Cas} {lsn : Lsn} {writes : List (PageNo × Option S.PageId)}
    (blobs : List (PageBlob S))
    (h : ∀ p id, (p, some id) ∈ writes → ∃ bytes, S.get cas id = .ok bytes) :
    ∃ out, collectBlobs cas lsn writes blobs = .ok out := by
  induction writes generalizing blobs with
  | nil => exact ⟨blobs, rfl⟩
  | cons write writes ih =>
    have hrest := fun p id hmem => h p id (List.mem_cons_of_mem _ hmem)
    obtain ⟨pageNo, page⟩ := write
    cases page with
    | none => exact ih blobs hrest
    | some id =>
      obtain ⟨bytes, hget⟩ := h pageNo id (by simp)
      rw [collectBlobs]
      by_cases hknown : blobs.any (fun b => b.id = id) = true
      · rw [if_pos hknown]
        exact ih blobs hrest
      · rw [if_neg hknown, hget]
        exact ih _ hrest

/-- The blob loop stops at a page that the store does not have. -/
theorem collectBlobs_error {cas : S.Cas} {lsn : Lsn} {writes : List (PageNo × Option S.PageId)}
    {blobs : List (PageBlob S)} {e : SyncError S}
    (h : collectBlobs cas lsn writes blobs = .error e) :
    ∃ p id, (p, some id) ∈ writes ∧ (∃ source, S.get cas id = .error source) ∧
      e = .missingPage lsn p (S.pageHex id) := by
  induction writes generalizing blobs with
  | nil => cases h
  | cons write writes ih =>
    have hlater {blobs : List (PageBlob S)} (h : collectBlobs cas lsn writes blobs = .error e) :
        ∃ p id, (p, some id) ∈ write :: writes ∧ (∃ source, S.get cas id = .error source) ∧
          e = .missingPage lsn p (S.pageHex id) := by
      obtain ⟨p, id, hmem, hmissing⟩ := ih h
      exact ⟨p, id, List.mem_cons_of_mem _ hmem, hmissing⟩
    obtain ⟨pageNo, page⟩ := write
    cases page with
    | none => exact hlater h
    | some id =>
      rw [collectBlobs] at h
      by_cases hknown : blobs.any (fun b => b.id = id) = true
      · rw [if_pos hknown] at h
        exact hlater h
      · rw [if_neg hknown] at h
        cases hget : S.get cas id with
        | error source =>
          rw [hget] at h
          exact ⟨pageNo, id, by simp, ⟨source, hget⟩, (Except.error.inj h).symm⟩
        | ok bytes =>
          rw [hget] at h
          exact hlater h

variable {src : WalSource S}

/-- The shipment of a commit: its fields, its changes in page order, and its blobs. -/
structure Shipped (cas : S.Cas) (c : Commit S) (s : Shipment S) : Prop where
  base : s.base = c.base
  manifest : s.manifest = c.manifest
  commitLsn : s.commitLsn = c.lsn
  createdAtMs : s.createdAtMs = c.createdAtMs
  writes : s.writes = c.changes.toList.map fun entry => ⟨entry.1, entry.2⟩
  blobs : Collected cas c.changes.toList [] s.pages

/-- What `build_shipment` returns: the shipment, or the page that is missing. -/
theorem ship_cases (c : Commit S) :
    (∃ s, src.ship c = .ok s ∧ Shipped src.cas c s) ∨
    (∃ e, src.ship c = .error e ∧ collectBlobs src.cas c.lsn c.changes.toList [] = .error e) := by
  cases hblobs : collectBlobs src.cas c.lsn c.changes.toList [] with
  | error e =>
    refine .inr ⟨e, ?_, rfl⟩
    simp [ship, buildShipment, hblobs, bind, Except.bind]
  | ok blobs =>
    refine .inl ⟨⟨c.base, c.manifest, c.lsn, c.createdAtMs,
      c.changes.toList.map fun entry => ⟨entry.1, entry.2⟩, blobs⟩, ?_, rfl, rfl, rfl, rfl, rfl,
      @collectBlobs_spec S _ _ _ [] _ (by simp) (by simp) hblobs⟩
    simp [ship, buildShipment, hblobs, bind, Except.bind, pure, Except.pure]

/-- What is shipped is the shipment of the commit. -/
theorem shipped_of_ship {c : Commit S} {s : Shipment S} (h : src.ship c = .ok s) :
    Shipped src.cas c s := by
  rcases src.ship_cases c with ⟨s', hok, hshipped⟩ | ⟨e, herror, -⟩
  · obtain rfl : s' = s := Except.ok.inj (hok.symm.trans h)
    exact hshipped
  · cases herror.symm.trans h

/-- Every page that a shipment sets comes with the bytes of the store. -/
theorem Shipped.bytesFor {cas : S.Cas} {c : Commit S} {s : Shipment S} (h : Shipped cas c s)
    {w : PageWrite S} (hw : w ∈ s.writes) {id : S.PageId} (hid : w.page = some id) :
    ∃ bytes, s.bytesFor id = some bytes ∧ S.get cas id = .ok bytes := by
  rw [h.writes] at hw
  obtain ⟨⟨p, page⟩, hentry, rfl⟩ := List.mem_map.mp hw
  obtain rfl : page = some id := hid
  obtain ⟨b, hb, hbid⟩ := h.blobs.cover p id hentry
  obtain ⟨found, hfound⟩ : ∃ found, s.pages.find? (fun blob => blob.id = id) = some found :=
    Option.isSome_iff_exists.mp (List.find?_isSome.mpr ⟨b, hb, by simpa using hbid⟩)
  obtain rfl : found.id = id := by simpa using List.find?_some hfound
  exact ⟨found.bytes, by simp [Shipment.bytesFor, hfound],
    h.blobs.fetched found (List.mem_of_find?_eq_some hfound)⟩

/-- What is shipped carries its commit. -/
theorem carries_of_ship (hS : S.ContentAddressed) {c : Commit S} {s : Shipment S}
    (h : src.ship c = .ok s) : Carries s c ∧ c.PagesIn src.cas := by
  have hshipped := shipped_of_ship h
  constructor
  · refine ⟨hshipped.base, hshipped.manifest, hshipped.commitLsn, hshipped.createdAtMs, ?_, ?_⟩
    · rw [Shipment.changes, Shipment.changesFrom, hshipped.writes, List.foldl_map]
      exact Overlay.ofEntries_toList c.changes
    · intro w hw id hid
      obtain ⟨bytes, hbytes, hget⟩ := hshipped.bytesFor hw hid
      exact ⟨bytes, hbytes, hS.pageHash_of_get hget⟩
  · intro p id hset
    have hentry : (p, some id) ∈ c.changes.toList :=
      Std.ExtTreeMap.mem_toList_iff_getElem?_eq_some.mpr hset
    obtain ⟨b, hb, rfl⟩ := hshipped.blobs.cover p id hentry
    exact ⟨b.bytes, hshipped.blobs.fetched b hb⟩

/-- A commit can be shipped when its pages are in the store. -/
theorem ship_isOk {c : Commit S} (h : c.PagesIn src.cas) : ∃ s, src.ship c = .ok s := by
  obtain ⟨blobs, hblobs⟩ : ∃ blobs, collectBlobs src.cas c.lsn c.changes.toList [] = .ok blobs :=
    collectBlobs_isOk [] fun p id hentry =>
      h p id (Std.ExtTreeMap.mem_toList_iff_getElem?_eq_some.mp hentry)
  simp only [ship, buildShipment, hblobs, bind, Except.bind, pure, Except.pure]
  exact ⟨_, rfl⟩

end WalSource

namespace PrimaryLog

variable {src : WalSource S} (log : PrimaryLog src)

/-- What is shipped from a position carries the commits from there on. -/
theorem carries_of_shipmentsFrom (hS : S.ContentAddressed) {start : Lsn}
    {shipments : List (Shipment S)} (h : src.shipmentsFrom start = .ok shipments) :
    List.Forall₂ (fun c s => Carries s c) (log.commits.filter fun c => start ≤ c.lsn)
      shipments := by
  rw [log.shipmentsFrom_eq, mapM_eq_ok_iff] at h
  exact h.imp fun _ _ hship => (WalSource.carries_of_ship hS hship).1

/-- With its pages present, a source can ship from every position. -/
theorem shipmentsFrom_isOk (hpages : log.PagesPresent) (start : Lsn) :
    ∃ shipments, src.shipmentsFrom start = .ok shipments := by
  rw [log.shipmentsFrom_eq, mapM_isOk_iff]
  intro c hc
  exact WalSource.ship_isOk (hpages c (List.mem_filter.mp hc).1)

/-- A source that ships the whole log has its pages. -/
theorem pagesPresent_of_shipmentsFrom_zero (hS : S.ContentAddressed)
    {shipments : List (Shipment S)} (h : src.shipmentsFrom 0 = .ok shipments) :
    log.PagesPresent := by
  intro c hc
  rw [log.shipmentsFrom_eq] at h
  obtain ⟨s, hs⟩ := mapM_isOk_iff.mp ⟨shipments, h⟩ c (by simpa using hc)
  exact (WalSource.carries_of_ship hS hs).2

/-- Shipping from zero ships every commit. -/
theorem carries_of_shipmentsFrom_zero (hS : S.ContentAddressed) {shipments : List (Shipment S)}
    (h : src.shipmentsFrom 0 = .ok shipments) :
    List.Forall₂ (fun c s => Carries s c) log.commits shipments := by
  simpa using log.carries_of_shipmentsFrom hS h

/-- A follower at the `k`-th head resumes where the first `k` commits end. -/
theorem resumeAfter_of_head (hS : S.ContentAddressed) (hpages : log.PagesPresent) {k : ℕ}
    {head : S.ManifestId} (hhead : log.heads[k]? = some head) :
    ∃ start, src.resumeAfter head = .ok start ∧
      (log.commits.filter fun c => start ≤ c.lsn) = log.commits.drop k := by
  cases k with
  | zero =>
    obtain rfl : log.start = head := Option.some.inj hhead
    refine ⟨0, ?_, by simp⟩
    simp [WalSource.resumeAfter, log.startHead_eq, bind, Except.bind, pure, Except.pure]
  | succ k =>
    have hne : head ≠ log.start := by
      rintro rfl
      have := log.ledger.heads_position hhead log.ledger.getElem?_heads_zero
      omega
    obtain ⟨shipments, hshipments⟩ := log.shipmentsFrom_isOk hpages 0
    have hcarries := log.carries_of_shipmentsFrom_zero hS hshipments
    have hcommit := log.getElem?_heads_succ k ▸ hhead
    obtain ⟨c, hc, rfl⟩ := Option.map_eq_some_iff.mp hcommit
    obtain ⟨s, hs, hsc⟩ := Positions.exists_of_forall₂ hcarries hc
    obtain ⟨found, hfound⟩ :
        ∃ found, shipments.find? (fun s => s.manifest = c.manifest) = some found := by
      refine Option.isSome_iff_exists.mp (List.find?_isSome.mpr ?_)
      exact ⟨s, List.mem_of_getElem? hs, by simpa using hsc.manifest⟩
    -- Manifests do not repeat, so the shipment found is the one that carries `c`.
    have hmanifest : found.manifest = c.manifest := by simpa using List.find?_some hfound
    obtain ⟨i, hi⟩ := List.mem_iff_getElem?.mp (List.mem_of_find?_eq_some hfound)
    obtain ⟨c', hc', hfc⟩ := Positions.exists_of_forall₂_right hcarries hi
    have hhead' : log.heads[i + 1]? = some c.manifest := by
      rw [log.getElem?_heads_succ, hc', Option.map_some, ← hfc.manifest, hmanifest]
    have hik : i + 1 = k + 1 := log.ledger.heads_position hhead' hhead
    obtain rfl : i = k := by omega
    obtain rfl : c' = c := Option.some.inj (hc'.symm.trans hc)
    refine ⟨c'.lsn + 1, ?_, Positions.filter_lt_eq_drop log.lsn_lt_commits hc⟩
    have hnext := log.nextLsn_eq (List.mem_of_getElem? hc)
    simp [WalSource.resumeAfter, log.startHead_eq, hne, hshipments, hfound, hfc.commitLsn, hnext,
      bind, Except.bind, pure, Except.pure]

/-- A follower at no head of the log is unknown to it. -/
theorem resumeAfter_of_foreign (hS : S.ContentAddressed) (hpages : log.PagesPresent)
    {head : S.ManifestId} (hhead : head ∉ log.heads) :
    src.resumeAfter head = .error (.followerUnknown (S.manifestHex head)) := by
  have hne : head ≠ log.start := by
    rintro rfl
    exact hhead (List.mem_of_getElem? log.ledger.getElem?_heads_zero)
  obtain ⟨shipments, hshipments⟩ := log.shipmentsFrom_isOk hpages 0
  have hcarries := log.carries_of_shipmentsFrom_zero hS hshipments
  have hfind : shipments.find? (fun s => s.manifest = head) = none := by
    refine List.find?_eq_none.mpr fun s hs hmanifest => hhead ?_
    obtain ⟨i, hi⟩ := List.mem_iff_getElem?.mp hs
    obtain ⟨c, hc, hsc⟩ := Positions.exists_of_forall₂_right hcarries hi
    have hs : s.manifest = head := by simpa using hmanifest
    refine List.mem_of_getElem? (i := i + 1) ?_
    rw [log.getElem?_heads_succ, hc, Option.map_some, ← hsc.manifest, hs]
  simp [WalSource.resumeAfter, log.startHead_eq, hne, hshipments, hfind, bind, Except.bind,
    throw, throwThe, MonadExceptOf.throw]

/-- How many commits lie at or before a target. -/
def position (target : Lsn) : ℕ := Positions.countUpTo Commit.lsn target log.commits

/-- A commit lies before the target's position exactly when its LSN does. -/
theorem lt_position_iff {target : Lsn} {k : ℕ} {c : Commit S} (hc : log.commits[k]? = some c) :
    k < log.position target ↔ c.lsn ≤ target :=
  Positions.lt_countUpTo_iff log.lsn_lt_commits hc

/-- The target's position is a position of the log. -/
theorem position_le (target : Lsn) : log.position target ≤ log.commits.length :=
  Positions.countUpTo_le_length _ _

end PrimaryLog

/-- Shipments that carry commits stop being at or before a target together. -/
theorem map_takeWhile_of_carries {commits : List (Commit S)} {shipments : List (Shipment S)}
    (h : List.Forall₂ (fun c s => Carries s c) commits shipments) (target : Lsn) :
    (shipments.takeWhile fun s => s.commitLsn ≤ target).map Shipment.manifest =
      (commits.takeWhile fun c => c.lsn ≤ target).map Commit.manifest := by
  induction h with
  | nil => rfl
  | @cons c s commits shipments hcs _ ih =>
    by_cases htarget : c.lsn ≤ target
    · simp [hcs.commitLsn, htarget, hcs.manifest, ih]
    · simp [hcs.commitLsn, htarget]

/-- The manifest as of a target is the head after the commits at or before it. -/
theorem PrimaryLog.manifestAt_eq {src : WalSource S} (log : PrimaryLog src)
    (hS : S.ContentAddressed) (hpages : log.PagesPresent) (target : Lsn) :
    src.manifestAt target =
      .ok (if log.position target = 0 then none else log.heads[log.position target]?) := by
  obtain ⟨shipments, hshipments⟩ := log.shipmentsFrom_isOk hpages 0
  have hcarries := log.carries_of_shipmentsFrom_zero hS hshipments
  have hlast : ((log.commits.takeWhile fun c => c.lsn ≤ target).map Commit.manifest).getLast? =
      if log.position target = 0 then none else log.heads[log.position target]? := by
    have hprefix := List.takeWhile_prefix (l := log.commits) fun c => decide (c.lsn ≤ target)
    cases hposition : log.position target with
    | zero =>
      have hnil : (log.commits.takeWhile fun c => c.lsn ≤ target) = [] :=
        List.length_eq_zero_iff.mp hposition
      rw [hnil, if_pos rfl]
      rfl
    | succ j =>
      have hlength : (log.commits.takeWhile fun c => c.lsn ≤ target).length = j + 1 := hposition
      have hlast := List.prefix_iff_getElem?.mp hprefix j (by omega)
      rw [if_neg (by omega), log.getElem?_heads_succ, List.getLast?_eq_getElem?,
        List.getElem?_map, List.length_map, hlength, Nat.add_sub_cancel, hlast,
        List.getElem?_eq_getElem]
  simp only [WalSource.manifestAt, hshipments, bind, Except.bind, pure, Except.pure]
  rw [map_takeWhile_of_carries hcarries, hlast]

end FlockDb
