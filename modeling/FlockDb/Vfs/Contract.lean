import FlockDb.Vfs.Read

/-!
# The contract of a read

The read boundary trusts nothing about its source, yet it always stops, never traps,
and when it answers, every byte it hands over comes from the right place of a page the
source returned. One pass of the loop is computed once; the invariant that links the
progress to the pages seen so far carries through the rest.
-/

namespace FlockDb

open Checked

variable {E σ : Type}

/-- The buffer after one page was copied into it from an offset of the page. -/
def overwritten (page : Bytes) (pageOff take done : ℕ) (buf : Bytes) : Bytes :=
  buf.take done ++ (page.drop pageOff).take take ++ buf.drop (done + take)

/-- The number of bytes that one page contributes. -/
def takenFrom (page : Bytes) (pageOff want done : ℕ) : ℕ :=
  min (page.length - pageOff) (want - done)

/-- What one page contributes fits into what the page and the request have left. -/
theorem takenFrom_le {page : Bytes} {pageOff want done : ℕ} (hoff : pageOff < page.length)
    (hdone : done < want) : 0 < takenFrom page pageOff want done ∧
      done + takenFrom page pageOff want done ≤ want ∧
      pageOff + takenFrom page pageOff want done ≤ page.length := by
  have hleft : takenFrom page pageOff want done ≤ page.length - pageOff := min_le_left _ _
  have hright : takenFrom page pageOff want done ≤ want - done := min_le_right _ _
  have hpos : 0 < takenFrom page pageOff want done := by
    apply lt_min <;> omega
  refine ⟨hpos, ?_, ?_⟩ <;> omega

/-- The bytes that one page contributes are as many as announced. -/
theorem length_taken {page : Bytes} {pageOff want done : ℕ} (hoff : pageOff < page.length)
    (hdone : done < want) :
    ((page.drop pageOff).take (takenFrom page pageOff want done)).length =
      takenFrom page pageOff want done := by
  obtain ⟨-, -, hpage⟩ := takenFrom_le hoff hdone
  rw [List.length_take, List.length_drop]
  omega

/-- The copy of one page meets the side condition of every operation it uses. -/
theorem copyPage_eq {page : Bytes} {pageOff want done : ℕ} {buf : Bytes}
    (hoff : pageOff < page.length) (hdone : done < want) (hwant : want ≤ buf.length)
    (hwant64 : want < 2 ^ 64) (hpage64 : page.length < 2 ^ 64) :
    copyPage page pageOff want done buf =
      .ok (done + takenFrom page pageOff want done,
        overwritten page pageOff (takenFrom page pageOff want done) done buf) := by
  obtain ⟨-, hbuf, hpage⟩ := takenFrom_le hoff hdone
  have hlength := length_taken hoff hdone
  have hslice := slice_eq (Nat.le_add_right pageOff _) hpage
  rw [Nat.add_sub_cancel_left] at hslice
  have hsize : ((page.drop pageOff).take (takenFrom page pageOff want done)).length =
      done + takenFrom page pageOff want done - done := by
    rw [hlength, Nat.add_sub_cancel_left]
  have hcopy := copyInto_eq (Nat.le_add_right done _) (hbuf.trans hwant) hsize
  rw [copyPage, sub_eq hoff.le, sub_eq hdone.le]
  simp only [bind, Except.bind, pure, Except.pure]
  rw [← takenFrom, add_eq (hbuf.trans_lt hwant64), add_eq (hpage.trans_lt hpage64)]
  simp only
  rw [hslice]
  simp only
  rw [hcopy]
  rfl

/-- A copy keeps the length of the buffer. -/
theorem length_overwritten {page : Bytes} {pageOff want done : ℕ} {buf : Bytes}
    (hoff : pageOff < page.length) (hdone : done < want) (hwant : want ≤ buf.length) :
    (overwritten page pageOff (takenFrom page pageOff want done) done buf).length = buf.length := by
  obtain ⟨-, hbuf, -⟩ := takenFrom_le hoff hdone
  have hlength := length_taken hoff hdone
  have hfits : done + ((page.drop pageOff).take (takenFrom page pageOff want done)).length ≤
      buf.length := by omega
  have hkept := length_overwrite hfits
  rwa [hlength] at hkept

/-- A file position lies in a page at an offset, whatever nonzero size the pages have. -/
theorem locate_eq {filePos pageSize : ℕ} (hsize : 0 < pageSize) :
    locate filePos pageSize = .ok (filePos / pageSize, filePos % pageSize) := by
  rw [locate, div_eq hsize, rem_eq hsize]
  rfl

/-- What the loop may assume throughout: a nonzero page size and a range inside the buffer. -/
structure InRange (pageSize want offset : ℕ) (buf : Bytes) : Prop where
  size_pos : 0 < pageSize
  size_lt : pageSize < 2 ^ 64
  end_lt : offset + want < 2 ^ 64
  want_le : want ≤ buf.length

/-- One pass of the loop, without the checks that cannot fail. -/
theorem readLoop_step (src : PageSource E σ) {pageSize want offset done : ℕ} {buf : Bytes}
    (h : InRange pageSize want offset buf) (hdone : done < want) (fuel : ℕ) (s : σ) :
    readLoop src pageSize want offset (fuel + 1) done buf s =
      match src.readPage s ((offset + done) / pageSize) with
      | (.error e, s) => ⟨.ok (.error e), buf, s⟩
      | (.ok page, s) =>
        if pageSize < page.length then
          ⟨.ok (.error (.oversizePage ((offset + done) / pageSize) page.length pageSize)), buf, s⟩
        else if page.length ≤ (offset + done) % pageSize then
          ⟨.ok (.error (.shortPage ((offset + done) / pageSize) ((offset + done) % pageSize)
            page.length)), buf, s⟩
        else
          readLoop src pageSize want offset fuel
            (done + takenFrom page ((offset + done) % pageSize) want done)
            (overwritten page ((offset + done) % pageSize)
              (takenFrom page ((offset + done) % pageSize) want done) done buf) s := by
  have hpos : offset + done < 2 ^ 64 := (Nat.add_lt_add_left hdone offset).trans h.end_lt
  rw [readLoop, if_pos hdone, add_eq hpos]
  simp only
  rw [locate_eq h.size_pos]
  simp only
  rcases hread : src.readPage s ((offset + done) / pageSize) with ⟨e | page, s'⟩
  · rfl
  · simp only
    by_cases hover : pageSize < page.length
    · rw [if_pos hover, if_pos hover]
    rw [if_neg hover, if_neg hover]
    by_cases hshort : page.length ≤ (offset + done) % pageSize
    · rw [if_pos hshort, if_pos hshort]
    rw [if_neg hshort, if_neg hshort,
      copyPage_eq (not_le.mp hshort) hdone h.want_le
        ((Nat.le_add_left want offset).trans_lt h.end_lt) ((not_lt.mp hover).trans_lt h.size_lt)]

/-- A loop that has what it wants stops. -/
theorem readLoop_done (src : PageSource E σ) {pageSize want offset done : ℕ} {buf : Bytes}
    (hdone : want ≤ done) (fuel : ℕ) (s : σ) :
    readLoop src pageSize want offset fuel done buf s = ⟨.ok (.ok done), buf, s⟩ := by
  cases fuel with
  | zero => rw [readLoop, if_neg (not_lt.mpr hdone)]
  | succ fuel => rw [readLoop, if_neg (not_lt.mpr hdone)]

/-- The invariant of the loop: every byte done so far comes from its place in a page of
the log, and the rest of the buffer is as it was at the start. -/
structure Filled (pageSize offset done : ℕ) (log : List (ℕ × Bytes)) (start buf : Bytes) :
    Prop where
  length_eq : buf.length = start.length
  byte_eq : ∀ j < done, ∃ page, ((offset + j) / pageSize, page) ∈ log ∧
    page.length ≤ pageSize ∧ (offset + j) % pageSize < page.length ∧
    buf[j]? = page[(offset + j) % pageSize]?
  rest_eq : ∀ j, done ≤ j → buf[j]? = start[j]?

/-- Nothing is done before the first pass. -/
theorem Filled.start (pageSize offset : ℕ) (log : List (ℕ × Bytes)) (buf : Bytes) :
    Filled pageSize offset 0 log buf buf :=
  ⟨rfl, fun j hj => absurd hj (Nat.not_lt_zero j), fun _ _ => rfl⟩

/-- A position a little after another, still in its page, keeps the page number. -/
theorem div_mod_of_lt {pageSize pos k : ℕ} (hk : pos % pageSize + k < pageSize) :
    (pos + k) / pageSize = pos / pageSize ∧ (pos + k) % pageSize = pos % pageSize + k := by
  have hsize : 0 < pageSize := by omega
  have hpos : pos + k = pos % pageSize + k + pageSize * (pos / pageSize) := by
    have := Nat.mod_add_div pos pageSize
    omega
  constructor
  · rw [hpos, Nat.add_mul_div_left _ _ hsize, Nat.div_eq_of_lt hk, zero_add]
  · rw [hpos, Nat.add_mul_mod_self_left, Nat.mod_eq_of_lt hk]

/-- One copied page carries the invariant forward. -/
theorem Filled.copy {pageSize want offset done : ℕ} {log : List (ℕ × Bytes)}
    {start buf page : Bytes} (h : Filled pageSize offset done log start buf)
    (hdone : done < want) (hwant : want ≤ buf.length) (hover : page.length ≤ pageSize)
    (hoff : (offset + done) % pageSize < page.length) :
    Filled pageSize offset
      (done + takenFrom page ((offset + done) % pageSize) want done)
      (log ++ [((offset + done) / pageSize, page)]) start
      (overwritten page ((offset + done) % pageSize)
        (takenFrom page ((offset + done) % pageSize) want done) done buf) := by
  obtain ⟨-, hbuf, hpage⟩ := takenFrom_le hoff hdone
  have hlength := length_taken hoff hdone
  set pageOff := (offset + done) % pageSize with hpageOff
  set take := takenFrom page pageOff want done with htake
  have hfits : done + ((page.drop pageOff).take take).length ≤ buf.length := by
    rw [hlength]
    exact hbuf.trans hwant
  have hbytes : ∀ j, (overwritten page pageOff take done buf)[j]? =
      if done ≤ j ∧ j < done + take then ((page.drop pageOff).take take)[j - done]?
      else buf[j]? := by
    intro j
    have hget := getElem?_overwrite hfits j
    rwa [hlength] at hget
  constructor
  · exact (length_overwritten hoff hdone hwant).trans h.length_eq
  · intro j hj
    rw [hbytes j]
    by_cases hold : j < done
    · -- a byte of an earlier pass
      obtain ⟨old, hmem, hrest⟩ := h.byte_eq j hold
      rw [if_neg (fun hin => absurd hold (not_lt.mpr hin.1))]
      exact ⟨old, List.mem_append_left _ hmem, hrest⟩
    · have hge : done ≤ j := not_lt.mp hold
      have hk : j - done < take := by omega
      have hplace : (offset + done) % pageSize + (j - done) < pageSize := by
        rw [← hpageOff]
        omega
      obtain ⟨hdiv, hmod⟩ := div_mod_of_lt hplace
      have hj' : offset + done + (j - done) = offset + j := by omega
      rw [hj'] at hdiv hmod
      rw [← hpageOff] at hmod
      refine ⟨page, ?_, hover, ?_, ?_⟩
      · rw [hdiv]
        exact List.mem_append_right _ (List.mem_singleton_self _)
      · rw [hmod]
        omega
      · rw [if_pos ⟨hge, hj⟩, hmod, List.getElem?_take_of_lt hk, List.getElem?_drop]
  · intro j hj
    rw [hbytes j, if_neg (fun hin => absurd hin.2 (not_lt.mpr hj))]
    exact h.rest_eq j ((Nat.le_add_right _ _).trans hj)

/-- The recording source answers as the source does, and logs the page it returned. -/
theorem recorded_readPage (src : PageSource E σ) (s : σ) (log : List (ℕ × Bytes)) (pageNo : ℕ) :
    src.recorded.readPage (s, log) pageNo =
      match src.readPage s pageNo with
      | (.error e, s) => (.error e, (s, log))
      | (.ok page, s) => (.ok page, (s, log ++ [(pageNo, page)])) := rfl

/-- One source does what another does, on states that a function relates. -/
structure PageSource.Maps {τ : Type} (src : PageSource E σ) (src' : PageSource E τ) (f : σ → τ) :
    Prop where
  pageSize_eq : ∀ s, src'.pageSize (f s) = src.pageSize s
  readPage_eq : ∀ s pageNo,
    src'.readPage (f s) pageNo = ((src.readPage s pageNo).1, f (src.readPage s pageNo).2)

/-- A source that does what another does is read as the other is, in the loop. -/
theorem readLoop_maps {τ : Type} {src : PageSource E σ} {src' : PageSource E τ} {f : σ → τ}
    (h : src.Maps src' f) (pageSize want offset : ℕ) :
    ∀ (fuel done : ℕ) (buf : Bytes) (s : σ),
      let out := readLoop src pageSize want offset fuel done buf s
      readLoop src' pageSize want offset fuel done buf (f s) =
        ⟨out.result, out.buf, f out.src⟩ := by
  intro fuel
  induction fuel with
  | zero =>
    intro done buf s
    simp only [readLoop]
    split <;> rfl
  | succ fuel ih =>
    intro done buf s
    simp only [readLoop, h.readPage_eq]
    split
    · cases add offset done with
      | error trap => rfl
      | ok filePos =>
        simp only
        cases locate filePos pageSize with
        | error trap => rfl
        | ok place =>
          simp only
          rcases src.readPage s place.1 with ⟨e | page, s'⟩
          · rfl
          · simp only
            split
            · rfl
            split
            · rfl
            cases copyPage page place.2 want done buf with
            | error trap => rfl
            | ok copied => exact ih copied.1 copied.2 s'
    · rfl

/-- A source that does what another does is read as the other is. -/
theorem serveRead_maps {τ : Type} {src : PageSource E σ} {src' : PageSource E τ} {f : σ → τ}
    (h : src.Maps src' f) (totalLen offset : UInt64) (buf : ByteVec) (s : σ) :
    let out := serveRead src totalLen offset buf s
    serveRead src' totalLen offset buf (f s) = ⟨out.result, out.buf, f out.src⟩ := by
  simp only [serveRead, h.pageSize_eq]
  split
  · rfl
  cases sub totalLen.toNat offset.toNat with
  | error trap => rfl
  | ok remaining =>
    simp only
    split
    · rfl
    split
    · rfl
    exact readLoop_maps h _ _ _ _ _ _ _

/-- A recording source does what its source does. -/
theorem maps_recorded (src : PageSource E σ) : src.recorded.Maps src Prod.fst where
  pageSize_eq := fun _ => rfl
  readPage_eq := by
    rintro ⟨s, log⟩ pageNo
    rw [recorded_readPage]
    rcases hread : src.readPage s pageNo with ⟨e | page, s'⟩ <;> rfl

/-- Recording changes nothing about a read. -/
theorem serveRead_recorded (src : PageSource E σ) (totalLen offset : UInt64) (buf : ByteVec)
    (s : σ) (log : List (ℕ × Bytes)) :
    let out := serveRead src.recorded totalLen offset buf (s, log)
    serveRead src totalLen offset buf s = ⟨out.result, out.buf, out.src.1⟩ :=
  serveRead_maps (maps_recorded src) totalLen offset buf (s, log)

/-- What every fault of a page that the range needs keeps, a loop keeps. -/
theorem readLoop_keeps {src : PageSource E σ} {P : σ → Prop} {pageSize want offset : ℕ}
    (h : ∀ s, ∀ done < want, P s → P (src.readPage s ((offset + done) / pageSize)).2) :
    ∀ (fuel done : ℕ) (buf : Bytes) (s : σ), P s →
      P (readLoop src pageSize want offset fuel done buf s).src := by
  intro fuel
  induction fuel with
  | zero =>
    intro done buf s hs
    simp only [readLoop]
    split <;> exact hs
  | succ fuel ih =>
    intro done buf s hs
    simp only [readLoop]
    split
    case isFalse => exact hs
    case isTrue hdone =>
      by_cases hfits : offset + done < 2 ^ 64
      case neg =>
        rw [add, if_neg hfits]
        exact hs
      rw [add_eq hfits]
      simp only
      rcases Nat.eq_zero_or_pos pageSize with rfl | hsize
      · exact hs
      rw [locate_eq hsize]
      have hnext := h s done hdone hs
      simp only
      generalize src.readPage s ((offset + done) / pageSize) = answer at hnext ⊢
      obtain ⟨e | page, s'⟩ := answer
      · exact hnext
      · simp only
        split
        · exact hnext
        split
        · exact hnext
        cases copyPage page ((offset + done) % pageSize) want done buf with
        | error trap => exact hnext
        | ok copied => exact ih copied.1 copied.2 s' hnext

/-- The number of bytes a read is to serve: the buffer, clamped to the end of the file. -/
def clamped (totalLen offset : UInt64) (buf : ByteVec) : ℕ :=
  min (totalLen.toNat - offset.toNat) buf.bytes.length

/-- What every fault of a page that the clamped range needs keeps, a read keeps. -/
theorem serveRead_keeps_within {src : PageSource E σ} {P : σ → Prop} {totalLen offset : UInt64}
    {buf : ByteVec} {s : σ}
    (h : ∀ s', ∀ done < clamped totalLen offset buf, P s' →
      P (src.readPage s' ((offset.toNat + done) / (src.pageSize s).toNat)).2)
    (hs : P s) : P (serveRead src totalLen offset buf s).src := by
  rw [serveRead]
  split
  · exact hs
  case isFalse hinside =>
    rw [sub_eq (not_le.mp (mt UInt64.le_iff_toNat_le.mpr hinside)).le]
    simp only
    split
    · exact hs
    split
    · exact hs
    exact readLoop_keeps h _ _ _ s hs

/-- What every fault keeps, a read keeps. -/
theorem serveRead_keeps {src : PageSource E σ} {P : σ → Prop}
    (h : ∀ s pageNo, P s → P (src.readPage s pageNo).2) (totalLen offset : UInt64)
    (buf : ByteVec) {s : σ} (hs : P s) : P (serveRead src totalLen offset buf s).src :=
  serveRead_keeps_within (fun s' _ _ => h s' _) hs

/-- Why a pass gives an error: the source did, or the page it gave does not fit. -/
inductive Refused (src : PageSource E σ) (pageSize pos : ℕ) (s : σ) : VfsError E → Prop where
  | source {e : VfsError E} (h : (src.readPage s (pos / pageSize)).1 = .error e) :
      Refused src pageSize pos s e
  | oversize {page : Bytes} (h : (src.readPage s (pos / pageSize)).1 = .ok page)
      (hover : pageSize < page.length) :
      Refused src pageSize pos s (.oversizePage (pos / pageSize) page.length pageSize)
  | short {page : Bytes} (h : (src.readPage s (pos / pageSize)).1 = .ok page)
      (hshort : page.length ≤ pos % pageSize) :
      Refused src pageSize pos s (.shortPage (pos / pageSize) (pos % pageSize) page.length)

/-- A property of the progress, the buffer and the source that one pass keeps. -/
def KeptByPass (src : PageSource E σ) (pageSize want offset : ℕ)
    (Inv : ℕ → Bytes → σ → Prop) : Prop :=
  ∀ done buf s page s', Inv done buf s → done < want →
    src.readPage s ((offset + done) / pageSize) = (.ok page, s') → page.length ≤ pageSize →
    (offset + done) % pageSize < page.length →
    Inv (done + takenFrom page ((offset + done) % pageSize) want done)
      (overwritten page ((offset + done) % pageSize)
        (takenFrom page ((offset + done) % pageSize) want done) done buf) s'

/-- The rule for the loop: given enough passes it ends with all it wants, or in a pass
that refuses, and what every pass keeps holds there. It never traps. -/
theorem readLoop_rule {src : PageSource E σ} {pageSize want offset : ℕ}
    {Inv : ℕ → Bytes → σ → Prop} (hkept : KeptByPass src pageSize want offset Inv)
    (hrange : ∀ done buf s, Inv done buf s → InRange pageSize want offset buf) :
    ∀ (fuel done : ℕ) (buf : Bytes) (s : σ), want - done ≤ fuel → done ≤ want → Inv done buf s →
      let out := readLoop src pageSize want offset fuel done buf s
      (out.result = .ok (.ok want) ∧ Inv want out.buf out.src) ∨
        ∃ e done buf s, out.result = .ok (.error e) ∧ Inv done buf s ∧ done < want ∧
          Refused src pageSize (offset + done) s e := by
  intro fuel
  induction fuel with
  | zero =>
    intro done buf s hfuel hle hinv
    have hwant : done = want := by omega
    subst hwant
    rw [readLoop_done _ le_rfl]
    exact Or.inl ⟨rfl, hinv⟩
  | succ fuel ih =>
    intro done buf s hfuel hle hinv
    rcases hle.lt_or_eq with hlt | rfl
    · rw [readLoop_step _ (hrange _ _ _ hinv) hlt]
      rcases hread : src.readPage s ((offset + done) / pageSize) with ⟨e | page, s'⟩
      · exact Or.inr ⟨e, done, buf, s, rfl, hinv, hlt, .source (by rw [hread])⟩
      · simp only
        have hpage : (src.readPage s ((offset + done) / pageSize)).1 = .ok page := by rw [hread]
        by_cases hover : pageSize < page.length
        · rw [if_pos hover]
          exact Or.inr ⟨_, done, buf, s, rfl, hinv, hlt, .oversize hpage hover⟩
        rw [if_neg hover]
        by_cases hshort : page.length ≤ (offset + done) % pageSize
        · rw [if_pos hshort]
          exact Or.inr ⟨_, done, buf, s, rfl, hinv, hlt, .short hpage hshort⟩
        rw [if_neg hshort]
        obtain ⟨hpos, hend, -⟩ := takenFrom_le (not_le.mp hshort) hlt
        have hnext := hkept done buf s page s' hinv hlt hread (not_lt.mp hover) (not_le.mp hshort)
        exact ih _ _ s' (by omega) hend hnext
    · rw [readLoop_done _ le_rfl]
      exact Or.inl ⟨rfl, hinv⟩

/-- What a consistent source was asked does not change what it answers next. -/
theorem PageSource.Consistent.next {src : PageSource E σ}
    {answer : ℕ → Except (VfsError E) Bytes} {s : σ} (h : src.Consistent answer s) (pageNo : ℕ) :
    (src.readPage s pageNo).1 = answer pageNo ∧
      src.Consistent answer (src.readPage s pageNo).2 :=
  ⟨h [] pageNo, fun asked => h (pageNo :: asked)⟩

/-- What holds between the passes of a recorded read: the bytes done so far come from the
log, and a source that was consistent still is and answered the log. -/
structure Progress (src : PageSource E σ) (pageSize offset : ℕ) (start : Bytes) (s₀ : σ)
    (done : ℕ) (buf : Bytes) (st : σ × List (ℕ × Bytes)) : Prop where
  filled : Filled pageSize offset done st.2 start buf
  answered : ∀ answer, src.Consistent answer s₀ →
    src.Consistent answer st.1 ∧ ∀ entry ∈ st.2, answer entry.1 = .ok entry.2

/-- Every pass of a recorded read keeps its progress. -/
theorem progress_keptByPass (src : PageSource E σ) {pageSize want offset : ℕ} {start : Bytes}
    (s₀ : σ) (hrange : InRange pageSize want offset start) :
    KeptByPass src.recorded pageSize want offset (Progress src pageSize offset start s₀) := by
  rintro done buf ⟨s, log⟩ page st hprogress hdone hread hover hoff
  rw [recorded_readPage] at hread
  rcases hpage : src.readPage s ((offset + done) / pageSize) with ⟨e | page', s'⟩
  · rw [hpage] at hread
    cases hread
  · rw [hpage] at hread
    cases hread
    have hwant : want ≤ buf.length := hprogress.filled.length_eq ▸ hrange.want_le
    refine ⟨hprogress.filled.copy hdone hwant hover hoff, fun answer hanswer => ?_⟩
    obtain ⟨hconsistent, hlog⟩ := hprogress.answered answer hanswer
    obtain ⟨hthis, hnext⟩ := hconsistent.next ((offset + done) / pageSize)
    rw [hpage] at hthis hnext
    refine ⟨hnext, fun entry hentry => ?_⟩
    rcases List.mem_append.mp hentry with hold | hnew
    · exact hlog entry hold
    · rw [List.mem_singleton.mp hnew]
      exact hthis.symm

/-- The pages that the source returned while it served a read, in order. -/
def pagesReturned (src : PageSource E σ) (totalLen offset : UInt64) (buf : ByteVec) (s : σ) :
    List (ℕ × Bytes) :=
  (serveRead src.recorded totalLen offset buf (s, [])).src.2

/-- A read has nothing to serve past the end of the file and into an empty buffer only. -/
theorem clamped_eq_zero_iff {totalLen offset : UInt64} {buf : ByteVec} :
    clamped totalLen offset buf = 0 ↔ totalLen ≤ offset ∨ buf.bytes = [] := by
  rw [clamped, UInt64.le_iff_toNat_le, ← List.length_eq_zero_iff]
  omega

/-- A read that has nothing to serve leaves the buffer and the source alone. -/
theorem serveRead_of_clamped_eq_zero (src : PageSource E σ) {totalLen offset : UInt64}
    {buf : ByteVec} (h : clamped totalLen offset buf = 0) (s : σ) :
    serveRead src totalLen offset buf s = ⟨.ok (.ok 0), buf.bytes, s⟩ := by
  rw [serveRead]
  by_cases hpast : totalLen ≤ offset
  · rw [if_pos hpast]
  · have hle : offset.toNat ≤ totalLen.toNat :=
      (not_le.mp (mt UInt64.le_iff_toNat_le.mpr hpast)).le
    rw [if_neg hpast, sub_eq hle]
    exact if_pos h

/-- A read that serves something runs the loop, on a range without overflow. -/
theorem serveRead_of_clamped_pos (src : PageSource E σ) {totalLen offset : UInt64}
    {buf : ByteVec} (h : 0 < clamped totalLen offset buf) (s : σ) :
    serveRead src totalLen offset buf s =
      if src.pageSize s = 0 then ⟨.ok (.error .zeroPageSize), buf.bytes, s⟩
      else readLoop src (src.pageSize s).toNat (clamped totalLen offset buf) offset.toNat
        (clamped totalLen offset buf) 0 buf.bytes s := by
  have hlt : offset.toNat < totalLen.toNat := by
    have := lt_of_lt_of_le h (min_le_left _ _)
    omega
  have hpast : ¬totalLen ≤ offset := mt UInt64.le_iff_toNat_le.mp (not_le.mpr hlt)
  rw [serveRead, if_neg hpast, sub_eq hlt.le]
  exact if_neg h.ne'

/-- The range of a read that serves something lies inside the buffer and below 2^64. -/
theorem inRange_clamped {totalLen offset : UInt64} {buf : ByteVec} {pageSize : UInt64}
    (h : 0 < clamped totalLen offset buf) (hsize : pageSize ≠ 0) :
    InRange pageSize.toNat (clamped totalLen offset buf) offset.toNat buf.bytes := by
  have htotal := totalLen.toNat_lt
  have hclamp : clamped totalLen offset buf ≤ totalLen.toNat - offset.toNat := min_le_left _ _
  have hpos : 0 < pageSize.toNat := by
    apply Nat.pos_of_ne_zero
    intro hzero
    exact hsize (UInt64.toNat_inj.mp hzero)
  exact ⟨hpos, pageSize.toNat_lt, by omega, min_le_right _ _⟩

/-- A read that serves something ends with all of it, or with an error. -/
theorem serveRead_outcome (src : PageSource E σ) {totalLen offset : UInt64} {buf : ByteVec}
    (hpos : 0 < clamped totalLen offset buf) {s : σ} (hsize : src.pageSize s ≠ 0) :
    let out := serveRead src.recorded totalLen offset buf (s, [])
    let Inv := Progress src (src.pageSize s).toNat offset.toNat buf.bytes s
    (out.result = .ok (.ok (clamped totalLen offset buf)) ∧
        Inv (clamped totalLen offset buf) out.buf out.src) ∨
      ∃ e done buf' st, out.result = .ok (.error e) ∧ Inv done buf' st ∧
        done < clamped totalLen offset buf ∧
        Refused src.recorded (src.pageSize s).toNat (offset.toNat + done) st e := by
  have hrange := inRange_clamped hpos hsize
  have hsize' : ¬src.recorded.pageSize (s, []) = 0 := hsize
  rw [serveRead_of_clamped_pos src.recorded hpos, if_neg hsize']
  have hstart : Progress src (src.pageSize s).toNat offset.toNat buf.bytes s 0 buf.bytes (s, []) :=
    ⟨Filled.start _ _ _ _, fun answer hanswer => ⟨hanswer, fun entry hentry => by cases hentry⟩⟩
  refine readLoop_rule (progress_keptByPass src s hrange) ?_ _ 0 buf.bytes (s, []) le_rfl
    (Nat.zero_le _) hstart
  rintro done buf' st hprogress
  exact ⟨hrange.size_pos, hrange.size_lt, hrange.end_lt,
    hprogress.filled.length_eq ▸ hrange.want_le⟩

/-- How many bytes of a page a range needs, counted from the start of the page. -/
def neededIn (pageSize offset want pageNo : ℕ) : ℕ :=
  min (offset + want) ((pageNo + 1) * pageSize) - pageNo * pageSize

/-- Every page that covers a range comes back, fits the page size and reaches the last
byte that the range needs in it. -/
def Serves (answer : ℕ → Except (VfsError E) Bytes) (pageSize offset want : ℕ) : Prop :=
  ∀ pageNo, offset / pageSize ≤ pageNo → pageNo ≤ (offset + want - 1) / pageSize →
    ∃ page, answer pageNo = .ok page ∧ page.length ≤ pageSize ∧
      neededIn pageSize offset want pageNo ≤ page.length

/-- The pages serve a range when every single byte of it lies inside its page. -/
theorem serves_iff {answer : ℕ → Except (VfsError E) Bytes} {pageSize offset want : ℕ}
    (hsize : 0 < pageSize) (hwant : 0 < want) :
    Serves answer pageSize offset want ↔
      ∀ j < want, ∃ page, answer ((offset + j) / pageSize) = .ok page ∧
        page.length ≤ pageSize ∧ (offset + j) % pageSize < page.length := by
  constructor
  · intro hserves j hj
    have hfirst : offset / pageSize ≤ (offset + j) / pageSize :=
      Nat.div_le_div_right (Nat.le_add_right offset j)
    have hlast : (offset + j) / pageSize ≤ (offset + want - 1) / pageSize :=
      Nat.div_le_div_right (by omega)
    obtain ⟨page, hanswer, hfits, hneeded⟩ := hserves _ hfirst hlast
    refine ⟨page, hanswer, hfits, lt_of_lt_of_le ?_ hneeded⟩
    have hplace := Nat.mod_add_div (offset + j) pageSize
    have hmod := Nat.mod_lt (offset + j) hsize
    rw [neededIn, Nat.succ_mul, mul_comm _ pageSize]
    omega
  · intro hbytes pageNo hfirst hlast
    have hstart : pageNo * pageSize ≤ offset + want - 1 := (Nat.le_div_iff_mul_le hsize).mp hlast
    have hend : offset < (pageNo + 1) * pageSize :=
      (Nat.div_lt_iff_lt_mul hsize).mp (Nat.lt_succ_of_le hfirst)
    -- the last byte of the range that lies in this page
    obtain ⟨j, hj⟩ : ∃ j, offset + j + 1 = min (offset + want) ((pageNo + 1) * pageSize) :=
      ⟨min (offset + want) ((pageNo + 1) * pageSize) - 1 - offset, by omega⟩
    rw [Nat.succ_mul] at hj hend
    have hplace : offset + j = (offset + j - pageNo * pageSize) + pageNo * pageSize := by omega
    have hin : offset + j - pageNo * pageSize < pageSize := by omega
    have hdiv : (offset + j) / pageSize = pageNo := by
      rw [hplace, Nat.add_mul_div_right _ _ hsize, Nat.div_eq_of_lt hin, zero_add]
    have hmod : (offset + j) % pageSize = offset + j - pageNo * pageSize := by
      rw [hplace, Nat.add_mul_mod_self_right, Nat.mod_eq_of_lt hin]
      omega
    obtain ⟨page, hanswer, hfits, hreach⟩ := hbytes j (by omega)
    rw [hdiv] at hanswer
    rw [hmod] at hreach
    refine ⟨page, hanswer, hfits, ?_⟩
    rw [neededIn, Nat.succ_mul]
    omega

/-- The contract of one read, for whatever source, file length, offset and buffer. -/
structure ReadContract (src : PageSource E σ) (totalLen offset : UInt64) (buf : ByteVec) (s : σ) :
    Prop where
  /-- Recording what the source returns does not change the read. -/
  recorded : serveRead src totalLen offset buf s =
    let out := serveRead src.recorded totalLen offset buf (s, [])
    ⟨out.result, out.buf, out.src.1⟩
  /-- The read ends, without a trap. -/
  ends : ∃ r, (serveRead src totalLen offset buf s).result = .ok r
  /-- The check for overflow never fails: such an error can only be the source's own. -/
  overflow_unreachable : ∀ o,
    (serveRead src totalLen offset buf s).result = .ok (.error (.offsetOverflow o)) →
      ∃ s' pageNo, (src.readPage s' pageNo).1 = .error (.offsetOverflow o)
  /-- Past the end, or with an empty buffer, nothing is read. -/
  nothing : totalLen ≤ offset ∨ buf.bytes = [] →
    (serveRead src totalLen offset buf s).result = .ok (.ok 0) ∧
      (serveRead src totalLen offset buf s).buf = buf.bytes
  /-- A count is the clamped length, and its bytes come from the pages returned. -/
  served : ∀ n, (serveRead src totalLen offset buf s).result = .ok (.ok n) →
    n = min buf.bytes.length (totalLen.toNat - offset.toNat) ∧
      (serveRead src totalLen offset buf s).buf.length = buf.bytes.length ∧
      (∀ j < n, ∃ page,
        ((offset.toNat + j) / (src.pageSize s).toNat, page) ∈
          pagesReturned src totalLen offset buf s ∧
        (offset.toNat + j) % (src.pageSize s).toNat < page.length ∧
        (serveRead src totalLen offset buf s).buf[j]? =
          page[(offset.toNat + j) % (src.pageSize s).toNat]?) ∧
      ∀ j, n ≤ j → (serveRead src totalLen offset buf s).buf[j]? = buf.bytes[j]?
  /-- A consistent source is served exactly when its pages serve the clamped range. -/
  served_iff : ∀ answer, src.Consistent answer s → offset < totalLen → buf.bytes ≠ [] →
    ((∃ n, (serveRead src totalLen offset buf s).result = .ok (.ok n)) ↔
      0 < src.pageSize s ∧
        Serves answer (src.pageSize s).toNat offset.toNat
          (min buf.bytes.length (totalLen.toNat - offset.toNat)))

/-- A refused pass is not refused with an overflow of its own. -/
theorem Refused.offsetOverflow {src : PageSource E σ} {pageSize pos o : ℕ} {s : σ}
    (h : Refused src pageSize pos s (.offsetOverflow o)) :
    (src.readPage s (pos / pageSize)).1 = .error (.offsetOverflow o) := by
  cases h with
  | source h => exact h

/-- The recording source gives an error only if the source does. -/
theorem readPage_of_recorded {src : PageSource E σ} {st : σ × List (ℕ × Bytes)} {pageNo : ℕ}
    {e : VfsError E} (h : (src.recorded.readPage st pageNo).1 = .error e) :
    (src.readPage st.1 pageNo).1 = .error e := by
  obtain ⟨s, log⟩ := st
  rw [recorded_readPage] at h
  rcases hread : src.readPage s pageNo with ⟨e' | page, s'⟩
  · rw [hread] at h
    exact h
  · rw [hread] at h
    cases h

/-- A pass over a page that reaches its byte is not refused. -/
theorem not_refused {src : PageSource E σ} {answer : ℕ → Except (VfsError E) Bytes}
    {pageSize pos : ℕ} {st : σ × List (ℕ × Bytes)} {page : Bytes} {e : VfsError E}
    (hconsistent : src.Consistent answer st.1) (hanswer : answer (pos / pageSize) = .ok page)
    (hfits : page.length ≤ pageSize) (hreach : pos % pageSize < page.length) :
    ¬Refused src.recorded pageSize pos st e := by
  obtain ⟨hread, -⟩ := hconsistent.next (pos / pageSize)
  rw [hanswer] at hread
  have hrecorded : (src.recorded.readPage st (pos / pageSize)).1 = .ok page := by
    obtain ⟨s, log⟩ := st
    rw [recorded_readPage]
    rcases hpage : src.readPage s (pos / pageSize) with ⟨r, s'⟩
    rw [hpage] at hread
    cases hread
    rfl
  intro hrefused
  cases hrefused with
  | source h =>
    rw [hrecorded] at h
    cases h
  | oversize h hover =>
    rw [hrecorded] at h
    cases h
    exact absurd hfits (not_le.mpr hover)
  | short h hshort =>
    rw [hrecorded] at h
    cases h
    exact absurd hreach (not_lt.mpr hshort)

/-- The contract of a read that has nothing to serve. -/
theorem readContract_of_clamped_eq_zero (src : PageSource E σ) {totalLen offset : UInt64}
    {buf : ByteVec} (h : clamped totalLen offset buf = 0) (s : σ) :
    ReadContract src totalLen offset buf s := by
  have hout := serveRead_of_clamped_eq_zero src h s
  have hwant : min buf.bytes.length (totalLen.toNat - offset.toNat) = 0 := by
    rw [min_comm]
    exact h
  refine ⟨serveRead_recorded src totalLen offset buf s [], ⟨.ok 0, by rw [hout]⟩, ?_, ?_, ?_, ?_⟩
  · intro o herror
    rw [hout] at herror
    cases herror
  · intro _
    rw [hout]
    exact ⟨rfl, rfl⟩
  · intro n hn
    rw [hout] at hn ⊢
    cases hn
    exact ⟨hwant.symm, rfl, fun j hj => absurd hj (Nat.not_lt_zero j), fun _ _ => rfl⟩
  · intro answer _ hoffset hbuf
    have hlt := UInt64.lt_iff_toNat_lt.mp hoffset
    have hlength := List.length_pos_of_ne_nil hbuf
    omega

/-- The contract of a read that finds no page size. -/
theorem readContract_of_pageSize_eq_zero (src : PageSource E σ) {totalLen offset : UInt64}
    {buf : ByteVec} (hpos : 0 < clamped totalLen offset buf) {s : σ} (hsize : src.pageSize s = 0) :
    ReadContract src totalLen offset buf s := by
  have hout := serveRead_of_clamped_pos src hpos s
  rw [if_pos hsize] at hout
  refine ⟨serveRead_recorded src totalLen offset buf s [], ⟨.error .zeroPageSize, by rw [hout]⟩,
    ?_, ?_, ?_, ?_⟩
  · intro o herror
    rw [hout] at herror
    cases herror
  · intro hnothing
    exact absurd hpos (clamped_eq_zero_iff.mpr hnothing).not_gt
  · intro n hn
    rw [hout] at hn
    cases hn
  · intro answer _ _ _
    rw [hout]
    constructor
    · rintro ⟨n, hn⟩
      cases hn
    · rintro ⟨hlt, -⟩
      rw [hsize] at hlt
      cases hlt

/-- The contract of a read that runs the loop. -/
theorem readContract_of_loop (src : PageSource E σ) {totalLen offset : UInt64}
    {buf : ByteVec} (hpos : 0 < clamped totalLen offset buf) {s : σ} (hsize : src.pageSize s ≠ 0) :
    ReadContract src totalLen offset buf s := by
  have hrange := inRange_clamped hpos hsize
  have hrecorded := serveRead_recorded src totalLen offset buf s []
  have houtcome := serveRead_outcome src hpos hsize
  have hwant : min buf.bytes.length (totalLen.toNat - offset.toNat) =
      clamped totalLen offset buf := min_comm _ _
  simp only at hrecorded houtcome
  refine ⟨hrecorded, ?_, ?_, ?_, ?_, ?_⟩
  · rw [hrecorded]
    rcases houtcome with ⟨hok, -⟩ | ⟨e, done, buf', st, herror, -⟩
    · exact ⟨_, hok⟩
    · exact ⟨_, herror⟩
  · intro o ho
    rw [hrecorded] at ho
    rcases houtcome with ⟨hok, -⟩ | ⟨e, done, buf', st, herror, -, -, hrefused⟩
    · rw [hok] at ho
      cases ho
    · rw [herror] at ho
      cases ho
      exact ⟨st.1, _, readPage_of_recorded hrefused.offsetOverflow⟩
  · intro hnothing
    exact absurd hpos (clamped_eq_zero_iff.mpr hnothing).not_gt
  · intro n hn
    rw [hrecorded] at hn ⊢
    rcases houtcome with ⟨hok, hprogress⟩ | ⟨e, done, buf', st, herror, -⟩
    · rw [hok] at hn
      cases hn
      refine ⟨hwant.symm, hprogress.filled.length_eq, fun j hj => ?_, hprogress.filled.rest_eq⟩
      obtain ⟨page, hmem, -, hreach, hbyte⟩ := hprogress.filled.byte_eq j hj
      exact ⟨page, hmem, hreach, hbyte⟩
    · rw [herror] at hn
      cases hn
  · intro answer hconsistent hoffset hbuf
    rw [hrecorded, hwant, serves_iff hrange.size_pos hpos]
    constructor
    · rintro ⟨n, hn⟩
      refine ⟨UInt64.pos_iff_ne_zero.mpr hsize, fun j hj => ?_⟩
      rcases houtcome with ⟨hok, hprogress⟩ | ⟨e, done, buf', st, herror, -⟩
      · obtain ⟨page, hmem, hfits, hreach, -⟩ := hprogress.filled.byte_eq j hj
        obtain ⟨-, hlog⟩ := hprogress.answered answer hconsistent
        exact ⟨page, hlog _ hmem, hfits, hreach⟩
      · rw [herror] at hn
        cases hn
    · rintro ⟨-, hserves⟩
      rcases houtcome with ⟨hok, -⟩ | ⟨e, done, buf', st, -, hprogress, hdone, hrefused⟩
      · exact ⟨_, hok⟩
      · obtain ⟨page, hanswer, hfits, hreach⟩ := hserves done hdone
        obtain ⟨hnow, -⟩ := hprogress.answered answer hconsistent
        exact absurd hrefused (not_refused hnow hanswer hfits hreach)

/-- Every read meets its contract, whatever its source does. -/
theorem serveRead_contract (src : PageSource E σ) (totalLen offset : UInt64) (buf : ByteVec)
    (s : σ) : ReadContract src totalLen offset buf s := by
  rcases Nat.eq_zero_or_pos (clamped totalLen offset buf) with hzero | hpos
  · exact readContract_of_clamped_eq_zero src hzero s
  · by_cases hsize : src.pageSize s = 0
    · exact readContract_of_pageSize_eq_zero src hpos hsize
    · exact readContract_of_loop src hpos hsize

end FlockDb
