import FlockDb.Kernel.RoundTrip
import FlockDb.Vfs.Contract

/-!
# The lazy path and the eager path

`hydrate` joins all pages of a head into a file; `serve_read` finds each byte of a
range in its page. Both decode what `persist` wrote, so a read served from the pages
of a persisted head is the same read of the hydrated file, and a declared length that
is too long gives an error and no bytes.
-/

namespace FlockDb

open Chunks Paging

variable {S : Substrate} {σ τ D E : Type}

/-- `TieredPageSource`: a woken store, and the file length that travels with it. -/
structure TieredPageSource (S : Substrate) where
  store : Pager S
  totalLen : UInt64

/-- The `PageSource` implementation of `TieredPageSource`: a page of the store's head. -/
def tieredPageSource : PageSource S.Error (TieredPageSource S) where
  pageSize := fun src => UInt64.ofNat src.store.pageSize
  readPage := fun src pageNo =>
    match S.read src.store.cas src.store.head pageNo with
    | .error source => (.error (.fault pageNo source), src)
    | .ok page => (.ok page, src)

/-- A page source that returns the pages of a manifest, under the page size of its
store, and an error for a page that the manifest does not have. -/
structure ReturnsPages (src : PageSource E τ) (s : τ) (ps : PageStore S σ) (st : σ)
    (m : S.ManifestId) : Prop where
  pageSize_eq : (src.pageSize s).toNat = ps.pageSize st
  answers : ∃ answer, src.Consistent answer s ∧
    (∀ p bytes, ps.read st m p = .ok bytes → answer p = .ok bytes) ∧
    ∀ p pages, ps.resolve st m = .ok pages → p ∉ pages → ∃ e, answer p = .error e

/-- A source that does not change answers as its first answer does. -/
theorem PageSource.Consistent.of_constant {src : PageSource E τ} {s : τ}
    (h : ∀ pageNo, (src.readPage s pageNo).2 = s) :
    src.Consistent (fun pageNo => (src.readPage s pageNo).1) s := by
  intro asked pageNo
  have hstays : asked.foldl (fun s q => (src.readPage s q).2) s = s := by
    induction asked with
    | nil => rfl
    | cons q asked ih => rw [List.foldl_cons, h q, ih]
  rw [hstays]

/-- A tiered page source returns the pages of its store's head. -/
theorem tieredPageSource_returnsPages (hS : S.ContentAddressed) (faults : Faults S) (nowMs : ℕ)
    {pager : Pager S} (hsize : pager.pageSize < 2 ^ 64) (totalLen : UInt64) :
    ReturnsPages tieredPageSource ⟨pager, totalLen⟩ (tieredHandle faults nowMs) pager
      pager.head where
  pageSize_eq := UInt64.toNat_ofNat_of_lt' hsize
  answers := by
    refine ⟨_, .of_constant fun pageNo => ?_, fun p bytes hread => ?_, fun p pages hpages hp => ?_⟩
    · simp only [tieredPageSource]
      split <;> rfl
    · have hread' : S.read pager.cas pager.head p = .ok bytes := hread
      simp only [tieredPageSource, hread']
    · cases hread : S.read pager.cas pager.head p with
      | error e => exact ⟨.fault p e, by simp only [tieredPageSource, hread]⟩
      | ok bytes =>
        obtain ⟨pages', id, hpages', hid, -⟩ := hS.read_ok_iff.mp hread
        obtain rfl : pages' = pages := Except.ok.inj (hpages'.symm.trans hpages)
        have hmem : p ∈ pages' := by simp [Std.ExtTreeMap.mem_iff_isSome_getElem?, hid]
        exact absurd hmem hp

/-- What a source of a persisted file's pages answers: each chunk, and errors past them. -/
theorem ReturnsPages.chunks {src : PageSource E τ} {s : τ} {ps : PageStore S σ} {st : σ}
    {m : S.ManifestId} (h : ReturnsPages src s ps st m) {file : ByteVec}
    (hreads : ps.Reads st m (chunkMap (ps.pageSize st) file)) :
    ∃ answer, src.Consistent answer s ∧
      ∀ p, if p < chunkCount (ps.pageSize st) file.bytes.length
        then answer p = .ok (chunkAt (ps.pageSize st) file.bytes p)
        else ∃ e, answer p = .error e := by
  obtain ⟨answer, hconsistent, hpage, hmissing⟩ := h.answers
  obtain ⟨pages, hresolve, hread⟩ := hreads
  refine ⟨answer, hconsistent, fun p => ?_⟩
  have hchunk := chunkMap_eq (ps.pageSize st) file p
  by_cases hp : p < chunkCount (ps.pageSize st) file.bytes.length
  · rw [if_pos hp] at hchunk ⊢
    exact hpage p _ ((hread p).2 _ hchunk)
  · rw [if_neg hp] at hchunk ⊢
    refine hmissing p pages hresolve fun hmem => ?_
    have hsome := (hread p).1.mp hmem
    rw [hchunk] at hsome
    cases hsome

/-- A page that the source answers and that reaches a position holds the byte of the file
there. -/
theorem byte_of_answer {answer : ℕ → Except (VfsError E) Bytes} {size pos : ℕ} {file page : Bytes}
    (hsize : 0 < size)
    (hanswer : ∀ p, if p < chunkCount size file.length
      then answer p = .ok (chunkAt size file p) else ∃ e, answer p = .error e)
    (hpage : answer (pos / size) = .ok page) (hreach : pos % size < page.length) :
    pos < file.length ∧ page[pos % size]? = file[pos]? := by
  have hthis := hanswer (pos / size)
  by_cases hp : pos / size < chunkCount size file.length
  · rw [if_pos hp, hpage] at hthis
    obtain rfl : page = chunkAt size file (pos / size) := Except.ok.inj hthis
    refine ⟨(mod_lt_length_chunkAt_iff hsize file pos).mp hreach, ?_⟩
    rw [getElem?_chunkAt file _ (Nat.mod_lt pos hsize), mul_comm, Nat.div_add_mod]
  · rw [if_neg hp, hpage] at hthis
    obtain ⟨e, he⟩ := hthis
    cases he

/-- A position inside the file lies in a page that the source answers. -/
theorem answer_of_lt {answer : ℕ → Except (VfsError E) Bytes} {size pos : ℕ} {file : Bytes}
    (hsize : 0 < size)
    (hanswer : ∀ p, if p < chunkCount size file.length
      then answer p = .ok (chunkAt size file p) else ∃ e, answer p = .error e)
    (hpos : pos < file.length) :
    answer (pos / size) = .ok (chunkAt size file (pos / size)) ∧
      (chunkAt size file (pos / size)).length ≤ size ∧
      pos % size < (chunkAt size file (pos / size)).length := by
  have hthis := hanswer (pos / size)
  have hp : pos / size < chunkCount size file.length := by
    rw [lt_chunkCount_iff hsize]
    exact (Nat.div_mul_le_self pos size).trans_lt hpos
  rw [if_pos hp] at hthis
  refine ⟨hthis, ?_, (mod_lt_length_chunkAt_iff hsize file pos).mpr hpos⟩
  rw [length_chunkAt]
  exact min_le_left _ _

/-- A buffer whose bytes below a bound are those of a file from an offset on, and whose
other bytes are as before, is the slice of the file followed by the rest. -/
theorem eq_slice_append {file before after : Bytes} {offset want : ℕ}
    (hend : offset + want ≤ file.length)
    (hbyte : ∀ j < want, after[j]? = file[offset + j]?)
    (hrest : ∀ j, want ≤ j → after[j]? = before[j]?) :
    after = (file.drop offset).take want ++ before.drop want := by
  have hlength : ((file.drop offset).take want).length = want := by
    rw [List.length_take, List.length_drop]
    omega
  apply List.ext_getElem?
  intro j
  by_cases hj : j < want
  · rw [hbyte j hj, List.getElem?_append_left (by omega), List.getElem?_take_of_lt hj,
      List.getElem?_drop]
  · have hge : want ≤ j := not_lt.mp hj
    rw [hrest j hge, List.getElem?_append_right (by omega), hlength, List.getElem?_drop]
    congr 1
    omega

/-- What a read of a file through its pages does, when it has something to serve. -/
theorem serveRead_of_answers {src : PageSource E τ} {s : τ} {size : ℕ} {file : Bytes}
    {answer : ℕ → Except (VfsError E) Bytes} (hsize : 0 < size)
    (hpageSize : (src.pageSize s).toNat = size) (hconsistent : src.Consistent answer s)
    (hanswer : ∀ p, if p < chunkCount size file.length
      then answer p = .ok (chunkAt size file p) else ∃ e, answer p = .error e)
    {totalLen offset : UInt64} {buf : ByteVec} (hpos : 0 < clamped totalLen offset buf) :
    let want := clamped totalLen offset buf
    let out := serveRead src totalLen offset buf s
    (offset.toNat + want ≤ file.length ∧ out.result = .ok (.ok want) ∧
      out.buf = (file.drop offset.toNat).take want ++ buf.bytes.drop want) ∨
    (file.length < offset.toNat + want ∧ ∃ e, out.result = .ok (.error e)) := by
  have hnonzero : src.pageSize s ≠ 0 := by
    intro hzero
    rw [hzero] at hpageSize
    exact hsize.ne hpageSize
  have hrecorded := serveRead_recorded src totalLen offset buf s []
  simp only at hrecorded ⊢
  rw [hrecorded]
  rcases serveRead_outcome src hpos hnonzero with
    ⟨hok, hprogress⟩ | ⟨e, done, buf', st, herror, hprogress, hdone, hrefused⟩
  · -- every byte served is the file's, so the range ends inside it
    rw [hpageSize] at hprogress
    obtain ⟨-, hlog⟩ := hprogress.answered answer hconsistent
    have hbyte : ∀ j < clamped totalLen offset buf, offset.toNat + j < file.length ∧
        (serveRead src.recorded totalLen offset buf (s, [])).buf[j]? =
          file[offset.toNat + j]? := by
      intro j hj
      obtain ⟨page, hmem, -, hreach, hget⟩ := hprogress.filled.byte_eq j hj
      obtain ⟨hinside, hfile⟩ := byte_of_answer hsize hanswer (hlog _ hmem) hreach
      exact ⟨hinside, hget.trans hfile⟩
    have hend : offset.toNat + clamped totalLen offset buf ≤ file.length := by
      obtain ⟨hlast, -⟩ := hbyte (clamped totalLen offset buf - 1) (by omega)
      omega
    exact .inl ⟨hend, hok, eq_slice_append hend (fun j hj => (hbyte j hj).2)
      hprogress.filled.rest_eq⟩
  · -- the refused position is not in the file
    rw [hpageSize] at hprogress hrefused
    obtain ⟨hnow, -⟩ := hprogress.answered answer hconsistent
    refine .inr ⟨?_, e, herror⟩
    by_contra hend
    have hinside : offset.toNat + done < file.length := by omega
    obtain ⟨hpage, hfits, hreach⟩ := answer_of_lt hsize hanswer hinside
    exact not_refused hnow hpage hfits hreach hrefused

/-- **A read through the pages is a read of the hydrated file.** For whatever file was
persisted and whatever length is declared, a range that lies in the file, once clamped
to the declared length, is served with the bytes that `hydrate` writes there, and a
range that reaches past the end of the file gives an error. -/
theorem serveRead_eq_hydrate {Holding : σ → S.Txn → Edits → Prop} {ps : PageStore S σ}
    (hps : ps.Applies Holding) {st st' : σ} (hsize : 0 < ps.pageSize st) {path : String}
    {file : ByteVec} {m : S.ManifestId}
    (hpersist : (persist ps st path (.ok file) : Except (KernelError S D) S.ManifestId × σ) =
      (.ok m, st'))
    {src : PageSource E τ} {s : τ} (hsrc : ReturnsPages src s ps st' m)
    (totalLen offset : UInt64) (buf : ByteVec) (scratch : String) (existing : Option Bytes) :
    let hydrated : Except (KernelError S D) Unit × Option Bytes :=
      hydrate ps st' m scratch .none existing
    let content := hydrated.2.getD []
    let want := min buf.bytes.length (totalLen.toNat - offset.toNat)
    let out := serveRead src totalLen offset buf s
    hydrated.1 = .ok () ∧ content = file.bytes ∧
      (want = 0 ∨ offset.toNat + want ≤ content.length →
        out.result = .ok (.ok want) ∧
          out.buf = (content.drop offset.toNat).take want ++ buf.bytes.drop want) ∧
      (0 < want ∧ content.length < offset.toNat + want → ∃ e, out.result = .ok (.error e)) := by
  obtain ⟨m', hm, -, hsize', hreads⟩ : ∃ m', (.ok m : Except (KernelError S D) S.ManifestId) =
      .ok m' ∧ ps.head st' = m' ∧ ps.pageSize st' = ps.pageSize st ∧
        ps.Reads st' m' (chunkMap (ps.pageSize st) file) := by
    rcases persist_spec (D := D) hps st path file hpersist with ⟨e, herror, -⟩ | hok
    · cases herror
    · exact hok
  obtain rfl := Except.ok.inj hm
  rw [← hsize'] at hreads hsize
  have hhydrate := hydrate_eq (D := D) hsize hreads scratch existing
  have hcontent : (written file).getD [] = file.bytes := by
    rw [written]
    split
    · exact (‹file.bytes = []›).symm
    · rfl
  have hwant : min buf.bytes.length (totalLen.toNat - offset.toNat) =
      clamped totalLen offset buf := min_comm _ _
  simp only [hhydrate, hcontent, hwant]
  refine ⟨trivial, trivial, ?_⟩
  rcases Nat.eq_zero_or_pos (clamped totalLen offset buf) with hzero | hpos
  · rw [serveRead_of_clamped_eq_zero src hzero, hzero]
    refine ⟨fun _ => ⟨rfl, ?_⟩, fun h => absurd h.1 (lt_irrefl 0)⟩
    rw [List.take_zero, List.drop_zero, List.nil_append]
  · obtain ⟨answer, hconsistent, hanswer⟩ := hsrc.chunks hreads
    rcases serveRead_of_answers hsize hsrc.pageSize_eq hconsistent hanswer hpos with
      ⟨hend, hok, hbuf⟩ | ⟨hend, herror⟩
    · exact ⟨fun _ => ⟨hok, hbuf⟩, fun h => absurd h.2 (not_lt.mpr hend)⟩
    · refine ⟨fun h => ?_, fun _ => herror⟩
      rcases h with hzero | hle
      · exact absurd hzero hpos.ne'
      · exact absurd hend (not_lt.mpr hle)

/-- A buffer of six bytes. -/
def sixZeros : ByteVec := ⟨[0, 0, 0, 0, 0, 0], by decide⟩

/-- Of a persisted file of nine bytes, with a declared length of twelve, a read across
two page boundaries is served and a read past the ninth byte is not. -/
theorem serveRead_eq_hydrate_nineBytes :
    let result :
        Except (KernelError (memory []) Empty) (memory []).ManifestId × Pager (memory []) :=
      persist (tieredHandle .none 7) emptyStore.pager "flock.duckdb" (.ok nineBytes)
    let src : TieredPageSource (memory []) := ⟨result.2, 12⟩
    (serveRead tieredPageSource 12 3 sixZeros src).result = .ok (.ok 6) ∧
      (serveRead tieredPageSource 12 3 sixZeros src).buf = [4, 5, 6, 7, 8, 9] ∧
      ∃ e, (serveRead tieredPageSource 12 5 sixZeros src).result = .ok (.error e) := by
  have hps := tieredHandle_applies (Memory.laws []) .none 7
  have hempty :
      (tieredHandle (S := memory []) .none 7).Reads emptyStore.pager [] fun _ => none := by
    refine ⟨∅, rfl, fun p => ⟨by simp, fun bytes hp => by cases hp⟩⟩
  obtain ⟨m, hm⟩ := persist_isOk (D := Empty) hps (tieredHandle_neverFails 7) hempty
    "flock.duckdb" nineBytes
  intro result src
  have hpersist : (persist (tieredHandle .none 7) emptyStore.pager "flock.duckdb" (.ok nineBytes) :
      Except (KernelError (memory []) Empty) (memory []).ManifestId × Pager (memory [])) =
        (.ok m, result.2) := Prod.ext hm rfl
  have hafter : result.2.head = m ∧ result.2.pageSize = 4 := by
    rcases persist_spec (D := Empty) hps _ "flock.duckdb" nineBytes hpersist with
      ⟨e, herror, -⟩ | ⟨m', hok, hhead, hsize, -⟩
    · cases herror
    · cases hok
      exact ⟨hhead, hsize⟩
  have hsrc : ReturnsPages tieredPageSource src (tieredHandle (S := memory []) .none 7) result.2
      m := by
    rw [← hafter.1]
    refine tieredPageSource_returnsPages (Memory.laws []).toContentAddressed .none 7 ?_ 12
    rw [hafter.2]
    decide
  have hread := fun offset => serveRead_eq_hydrate hps (by decide) hpersist hsrc 12 offset
    sixZeros "flock.duckdb" none
  obtain ⟨-, hcontent, hserved, -⟩ := hread 3
  rw [hcontent] at hserved
  obtain ⟨hok, hbuf⟩ := hserved (.inr (by decide))
  obtain ⟨-, hcontent', -, hrefused⟩ := hread 5
  rw [hcontent'] at hrefused
  exact ⟨hok, hbuf, hrefused (by decide)⟩

end FlockDb
