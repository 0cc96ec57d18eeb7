import FlockDb.Vfs.Contract

/-!
# Which pages a read asks for

A read asks for the pages that cover its range and for no others, whatever comes back.
When it succeeds it asked for all of them; and of a source that does not change a page
between two answers it asked for each of them once, in order.
-/

namespace FlockDb

open Checked

variable {E σ : Type}

namespace PageSource

/-- The source after it was asked for some pages in order. -/
def after (src : PageSource E σ) (s : σ) (asked : List ℕ) : σ :=
  asked.foldl (fun s pageNo => (src.readPage s pageNo).2) s

/-- The page size stays, whatever is asked. -/
def Sized (src : PageSource E σ) (size : UInt64) (s : σ) : Prop :=
  ∀ asked, src.pageSize (src.after s asked) = size

/-- A page that comes back twice has the same bytes both times, whatever is asked in
between. Some of the answers may be errors. -/
def Steady (src : PageSource E σ) (s : σ) : Prop :=
  ∀ asked asked' pageNo page page',
    (src.readPage (src.after s asked) pageNo).1 = .ok page →
      (src.readPage (src.after s (asked ++ pageNo :: asked')) pageNo).1 = .ok page' → page' = page

/-- A source with a list of the pages it was asked for. -/
def recording (src : PageSource E σ) : PageSource E (σ × List ℕ) where
  pageSize := fun s => src.pageSize s.1
  readPage := fun s pageNo =>
    let (answer, inner) := src.readPage s.1 pageNo
    (answer, (inner, s.2 ++ [pageNo]))

@[simp] theorem recording_pageSize (src : PageSource E σ) (s : σ × List ℕ) :
    src.recording.pageSize s = src.pageSize s.1 := rfl

@[simp] theorem recording_readPage (src : PageSource E σ) (s : σ × List ℕ) (pageNo : ℕ) :
    src.recording.readPage s pageNo =
      ((src.readPage s.1 pageNo).1, ((src.readPage s.1 pageNo).2, s.2 ++ [pageNo])) := rfl

/-- The page size that stays does so after one more question. -/
theorem Sized.next {src : PageSource E σ} {size : UInt64} {s : σ} (h : src.Sized size s)
    (pageNo : ℕ) : src.Sized size (src.readPage s pageNo).2 := fun asked => h (pageNo :: asked)

/-- A steady source is so after one more question. -/
theorem Steady.next {src : PageSource E σ} {s : σ} (h : src.Steady s) (pageNo : ℕ) :
    src.Steady (src.readPage s pageNo).2 := fun asked => h (pageNo :: asked)

/-- What a page was once, it is in every later answer. -/
theorem Steady.later {src : PageSource E σ} {s : σ} (h : src.Steady s) {pageNo : ℕ} {page : Bytes}
    (hpage : (src.readPage s pageNo).1 = .ok page) (asked : List ℕ) {page' : Bytes}
    (hpage' : (src.readPage (src.after (src.readPage s pageNo).2 asked) pageNo).1 = .ok page') :
    page' = page := h [] asked pageNo page page' hpage hpage'

end PageSource

/-- The pages that cover a range, in order. -/
def pagesOf (size offset want : ℕ) : List ℕ :=
  if want = 0 then []
  else List.range' (offset / size) ((offset + want - 1) / size + 1 - offset / size)

/-- The pages that cover a read, clamped to the length of the file. -/
def covering (size totalLen offset : UInt64) (buf : ByteVec) : List ℕ :=
  pagesOf size.toNat offset.toNat (clamped totalLen offset buf)

/-- A page covers a range when it lies between the pages of its first and its last byte. -/
theorem mem_pagesOf {size offset want pageNo : ℕ} :
    pageNo ∈ pagesOf size offset want ↔
      0 < want ∧ offset / size ≤ pageNo ∧ pageNo ≤ (offset + want - 1) / size := by
  rw [pagesOf]
  by_cases hwant : want = 0
  · rw [if_pos hwant]
    simp [hwant]
  · have hle : offset / size ≤ (offset + want - 1) / size := Nat.div_le_div_right (by omega)
    rw [if_neg hwant, List.mem_range'_1]
    omega

/-- Each byte of a range lies in a page that covers it. -/
theorem page_mem_pagesOf {size offset want done : ℕ} (hdone : done < want) :
    (offset + done) / size ∈ pagesOf size offset want :=
  mem_pagesOf.mpr ⟨by omega, Nat.div_le_div_right (by omega), Nat.div_le_div_right (by omega)⟩

/-- The byte before a position lies in the page before where a page begins, and in the
same page elsewhere. -/
theorem pred_div {size pos : ℕ} (hsize : 0 < size) (hpos : 0 < pos) :
    (pos - 1) / size + (if pos % size = 0 then 1 else 0) = pos / size := by
  have hplace := Nat.div_add_mod pos size
  have hmod := Nat.mod_lt pos hsize
  rw [mul_comm] at hplace
  by_cases hbegin : pos % size = 0
  · obtain ⟨k, hk⟩ : ∃ k, pos / size = k + 1 := by
      refine Nat.exists_eq_add_one.mpr (Nat.pos_of_ne_zero fun hzero => ?_)
      rw [hzero] at hplace
      omega
    rw [if_pos hbegin, hk, Nat.add_right_cancel_iff, Nat.div_eq_iff hsize]
    rw [hk, Nat.add_mul] at hplace
    omega
  · rw [if_neg hbegin, Nat.add_zero, Nat.div_eq_iff hsize]
    omega

/-- The pages of a range that goes on into the page of its next byte are those of the range
and, at its start and where a page begins, this page. -/
theorem pagesOf_add {size offset done take : ℕ} (hsize : 0 < size) (htake : 0 < take)
    (hin : (offset + done) % size + take ≤ size) :
    pagesOf size offset (done + take) =
      if done = 0 ∨ (offset + done) % size = 0 then
        pagesOf size offset done ++ [(offset + done) / size]
      else pagesOf size offset done := by
  have hlast : (offset + (done + take) - 1) / size = (offset + done) / size := by
    have hend : offset + (done + take) - 1 = offset + done + (take - 1) := by omega
    rw [hend]
    exact (div_mod_of_lt (by omega)).1
  have hlonger : pagesOf size offset (done + take) =
      List.range' (offset / size) ((offset + done) / size + 1 - offset / size) := by
    rw [pagesOf, if_neg (by omega), hlast]
  rw [hlonger]
  rcases Nat.eq_zero_or_pos done with rfl | hdone
  · have hone : (offset + 0) / size + 1 - offset / size = 1 := Nat.add_sub_cancel_left _ 1
    rw [if_pos (.inl rfl), hone]
    rfl
  · have hpos : 0 < offset + done := by omega
    have hpred := pred_div hsize hpos
    have hfirst : offset / size ≤ (offset + done - 1) / size :=
      Nat.div_le_div_right (by omega)
    rw [pagesOf, if_neg hdone.ne']
    by_cases hbegin : (offset + done) % size = 0
    · rw [if_pos hbegin] at hpred
      rw [if_pos (.inr hbegin), ← hpred, Nat.succ_sub (by omega), List.range'_1_concat]
      congr 2
      omega
    · rw [if_neg hbegin, Nat.add_zero] at hpred
      have hneither : ¬(done = 0 ∨ (offset + done) % size = 0) := by omega
      rw [if_neg hneither, hpred]

variable {src : PageSource E σ}

/-- A read asks for pages that cover it only, whatever comes back. -/
theorem serveRead_asks_within {size : UInt64} {s : σ} (hsize : src.pageSize s = size)
    (totalLen offset : UInt64) (buf : ByteVec) (log : List ℕ) :
    ∀ pageNo ∈ (serveRead src.recording totalLen offset buf (s, log)).src.2,
      pageNo ∈ log ∨ pageNo ∈ covering size totalLen offset buf := by
  refine serveRead_keeps_within (P := fun st : σ × List ℕ => ∀ pageNo ∈ st.2,
    pageNo ∈ log ∨ pageNo ∈ covering size totalLen offset buf) ?_ fun _ hlog => .inl hlog
  intro st done hdone hst pageNo hmem
  rw [PageSource.recording_readPage, List.mem_append, List.mem_singleton] at hmem
  rcases hmem with hold | rfl
  · exact hst pageNo hold
  · rw [PageSource.recording_pageSize, hsize]
    exact .inr (page_mem_pagesOf hdone)

/-- What holds between the passes of a read: the pages asked for so far are those of the
bytes that are done. A steady source was asked for each of them once, in order, and the
last of them holds no byte from the next position on unless that begins a page. -/
structure Asked (src : PageSource E σ) (size offset want : ℕ) (start : Bytes) (s₀ : σ)
    (log : List ℕ) (done : ℕ) (buf : Bytes) (st : σ × List ℕ) : Prop where
  length_eq : buf.length = start.length
  mem_iff : ∀ pageNo, pageNo ∈ st.2 ↔ pageNo ∈ log ∨ pageNo ∈ pagesOf size offset done
  once : src.Steady s₀ → src.Steady st.1 ∧ st.2 = log ++ pagesOf size offset done ∧
    (done = 0 ∨ (offset + done) % size = 0 ∨ want ≤ done ∨ ∀ page,
      (src.readPage st.1 ((offset + done) / size)).1 = .ok page →
        page.length ≤ (offset + done) % size)

/-- Every pass of a read asks for the page of its next byte. -/
theorem asked_keptByPass {size want offset : ℕ} {start : Bytes} (hwant : want ≤ start.length)
    (s₀ : σ) (log : List ℕ) :
    KeptByPass src.recording size want offset (Asked src size offset want start s₀ log) := by
  rintro done buf ⟨s, asked⟩ page st ⟨hlength, hmem, honce⟩ hdone hread hover hoff
  obtain ⟨htake, hnext, hfits⟩ := takenFrom_le hoff hdone
  have hpage : (src.readPage s ((offset + done) / size)).1 = .ok page :=
    (Prod.mk.inj hread).1
  obtain rfl : ((src.readPage s ((offset + done) / size)).2, asked ++ [(offset + done) / size]) =
      st := (Prod.mk.inj hread).2
  have hsize : 0 < size := by omega
  have hin : (offset + done) % size + takenFrom page ((offset + done) % size) want done ≤ size := by
    omega
  have hmore := pagesOf_add hsize htake hin
  refine ⟨(length_overwritten hoff hdone (hlength ▸ hwant)).trans hlength, ?_, fun hsteady => ?_⟩
  · intro pageNo
    rw [hmore, List.mem_append, hmem pageNo, List.mem_singleton]
    by_cases hbegin : done = 0 ∨ (offset + done) % size = 0
    · rw [if_pos hbegin, List.mem_append, List.mem_singleton, or_assoc]
    · -- the page was asked for before, but what it gave ended here
      have hpos : 0 < offset + done := by omega
      have hpred := pred_div hsize hpos
      rw [if_neg (by omega), Nat.add_zero] at hpred
      have hold : (offset + done) / size ∈ pagesOf size offset done := by
        rw [← hpred, Nat.add_sub_assoc (by omega)]
        exact page_mem_pagesOf (by omega)
      rw [if_neg hbegin]
      constructor
      · rintro (h | rfl)
        · exact h
        · exact .inr hold
      · exact .inl
  · obtain ⟨hsteady, rfl, hrest⟩ := honce hsteady
    have hbegin : done = 0 ∨ (offset + done) % size = 0 := by
      rcases hrest with h | h | h | h
      · exact .inl h
      · exact .inr h
      · exact absurd hdone (not_lt.mpr h)
      · exact absurd (h page hpage) (not_le.mpr hoff)
    rw [hmore, if_pos hbegin, List.append_assoc]
    refine ⟨hsteady.next _, rfl, ?_⟩
    by_cases hend : want ≤ done + takenFrom page ((offset + done) % size) want done
    · exact .inr (.inr (.inl hend))
    · -- all of the page was taken, so it ends before the next position
      have hall : takenFrom page ((offset + done) % size) want done =
          page.length - (offset + done) % size := by
        rw [takenFrom] at hend ⊢
        omega
      rw [hall] at hend ⊢
      by_cases hfull : page.length = size
      · right
        left
        have hplace := Nat.div_add_mod (offset + done) size
        have hpos : offset + (done + (page.length - (offset + done) % size)) =
            size * ((offset + done) / size) + size := by omega
        rw [hpos, ← Nat.mul_succ, Nat.mul_mod_right]
      · have hshort : (offset + done) % size + (page.length - (offset + done) % size) < size := by
          omega
        obtain ⟨hdiv, hmod⟩ := div_mod_of_lt hshort
        rw [← Nat.add_assoc offset, hdiv, hmod]
        refine .inr (.inr (.inr fun page' hpage' => ?_))
        rw [hsteady.later hpage [] hpage']
        omega

/-- **The trace of a read.** A read that succeeds asked for the pages that cover it and for
no others, and a steady source for each of them once, in order. -/
theorem serveRead_asks {size : UInt64} {s : σ} (hsize : src.pageSize s = size)
    {totalLen offset : UInt64} {buf : ByteVec} {log : List ℕ} {n : ℕ}
    (hok : (serveRead src.recording totalLen offset buf (s, log)).result = .ok (.ok n)) :
    let out := serveRead src.recording totalLen offset buf (s, log)
    (∀ pageNo, pageNo ∈ out.src.2 ↔ pageNo ∈ log ∨ pageNo ∈ covering size totalLen offset buf) ∧
      (src.Steady s →
        src.Steady out.src.1 ∧ out.src.2 = log ++ covering size totalLen offset buf) := by
  rw [covering]
  rcases Nat.eq_zero_or_pos (clamped totalLen offset buf) with hzero | hpos
  · rw [serveRead_of_clamped_eq_zero _ hzero, hzero, pagesOf, if_pos rfl]
    refine ⟨fun pageNo => ?_, fun hsteady => ⟨hsteady, (List.append_nil _).symm⟩⟩
    simp
  · by_cases hnonzero : src.recording.pageSize (s, log) = 0
    · rw [serveRead_of_clamped_pos _ hpos, if_pos hnonzero] at hok
      cases hok
    rw [serveRead_of_clamped_pos _ hpos, if_neg hnonzero] at hok ⊢
    rw [PageSource.recording_pageSize, hsize] at hok hnonzero ⊢
    have hrange := inRange_clamped hpos hnonzero
    have hstart : Asked src size.toNat offset.toNat (clamped totalLen offset buf) buf.bytes s log 0
        buf.bytes (s, log) := by
      refine ⟨rfl, fun pageNo => ?_, fun hsteady => ⟨hsteady, ?_, .inl rfl⟩⟩
      · simp [pagesOf]
      · simp [pagesOf]
    have hloop := readLoop_rule (@asked_keptByPass _ _ src _ _ _ _ hrange.want_le s log)
      (fun done buf' st hasked => ⟨hrange.size_pos, hrange.size_lt, hrange.end_lt,
        hasked.length_eq ▸ hrange.want_le⟩)
      (clamped totalLen offset buf) 0 buf.bytes (s, log) le_rfl (Nat.zero_le _) hstart
    rcases hloop with ⟨-, hasked⟩ | ⟨e, done, buf', st, herror, -⟩
    · exact ⟨hasked.mem_iff, fun hsteady => ⟨(hasked.once hsteady).1, (hasked.once hsteady).2.1⟩⟩
    · rw [herror] at hok
      cases hok

end FlockDb
