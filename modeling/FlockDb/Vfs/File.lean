import FlockDb.Library.Reader
import FlockDb.Library.Runs
import FlockDb.Vfs.Handle
import FlockDb.Vfs.Lazy
import FlockDb.Vfs.Trace

/-!
# A handle is a plain read-only file

What the engine sees of a handle, over whatever sequence of calls, is what it would see
of a file with a cursor. One read of a source that answers correctly is computed first;
the two seams above it add no more than a cursor and an exception.
-/

namespace FlockDb

open Checked Chunks Runs

variable {E σ : Type}

/-- A source answers correctly for a file: whatever it was asked before, its pages have
one size and each page of the file comes back with the file's bytes. -/
structure ServesFile (src : PageSource E σ) (size : ℕ) (file : Bytes) (s : σ) : Prop where
  size_pos : 0 < size
  pageSize_eq : ∀ asked, (src.pageSize (src.after s asked)).toNat = size
  page_eq : ∀ asked, ∀ pageNo < chunkCount size file.length,
    (src.readPage (src.after s asked) pageNo).1 = .ok (chunkAt size file pageNo)

variable {src : PageSource E σ} {size : ℕ} {file : Bytes}

/-- A source that answers correctly still does after one more question. -/
theorem ServesFile.next {s : σ} (h : ServesFile src size file s) (pageNo : ℕ) :
    ServesFile src size file (src.readPage s pageNo).2 :=
  ⟨h.size_pos, fun asked => h.pageSize_eq (pageNo :: asked),
    fun asked => h.page_eq (pageNo :: asked)⟩

/-- The tiered source of a store whose head reads as a file answers correctly for it. -/
theorem tieredPageSource_servesFile {S : Substrate} (hS : S.ContentAddressed) (faults : Faults S)
    (nowMs : ℕ) {pager : Pager S} (hpos : 0 < pager.pageSize) (hsize : pager.pageSize < 2 ^ 64)
    (totalLen : UInt64) {file : ByteVec}
    (hreads : (tieredHandle faults nowMs).Reads pager pager.head
      (Paging.chunkMap pager.pageSize file)) :
    ServesFile tieredPageSource pager.pageSize file.bytes ⟨pager, totalLen⟩ := by
  have hconstant : ∀ (s : TieredPageSource S) pageNo,
      (tieredPageSource.readPage s pageNo).2 = s := by
    intro s pageNo
    simp only [tieredPageSource]
    split <;> rfl
  have hstays : ∀ (s : TieredPageSource S) asked, tieredPageSource.after s asked = s := by
    intro s asked
    induction asked with
    | nil => rfl
    | cons pageNo asked ih =>
      rw [PageSource.after, List.foldl_cons, hconstant]
      exact ih
  have hreturns := tieredPageSource_returnsPages hS faults nowMs hsize totalLen
  have hhandle : (tieredHandle faults nowMs).pageSize pager = pager.pageSize := rfl
  obtain ⟨answer, hconsistent, hanswer⟩ := hreturns.chunks hreads
  refine ⟨hpos, fun asked => ?_, fun asked pageNo hpage => ?_⟩
  · rw [hstays]
    exact hreturns.pageSize_eq
  · have hthis := hanswer pageNo
    rw [hhandle, if_pos hpage] at hthis
    rw [hstays, (hconsistent.next pageNo).1, hthis]

/-- What holds between the passes of a read of a source that answers correctly: the bytes
done so far are the file's. -/
structure Copied (src : PageSource E σ) (size : ℕ) (file : Bytes) (offset want : ℕ)
    (start : Bytes) (done : ℕ) (buf : Bytes) (s : σ) : Prop where
  serves : ServesFile src size file s
  done_le : done ≤ want
  buf_eq : buf = (file.drop offset).take done ++ start.drop done

/-- A page of the file, copied behind the bytes of the file, extends them. -/
theorem overwritten_chunk {offset done take : ℕ} {start : Bytes}
    (hdone : offset + done + take ≤ file.length)
    (htake : take ≤ size - (offset + done) % size) :
    overwritten (chunkAt size file ((offset + done) / size)) ((offset + done) % size) take done
        ((file.drop offset).take done ++ start.drop done) =
      (file.drop offset).take (done + take) ++ start.drop (done + take) := by
  have hlength : ((file.drop offset).take done).length = done := by
    rw [List.length_take, List.length_drop]
    omega
  have hplace := Nat.div_add_mod (offset + done) size
  have hchunk : ((chunkAt size file ((offset + done) / size)).drop ((offset + done) % size)).take
      take = (file.drop (offset + done)).take take := by
    rw [chunkAt, List.drop_take, List.drop_drop, mul_comm, hplace, List.take_take,
      min_eq_left htake]
  have hfront : ((file.drop offset).take done ++ start.drop done).take done =
      (file.drop offset).take done := by
    rw [List.take_append_of_le_length hlength.ge, List.take_take, min_self]
  have hback : ((file.drop offset).take done ++ start.drop done).drop (done + take) =
      start.drop (done + take) := by
    rw [List.drop_append, hlength, List.drop_of_length_le (by omega), List.drop_drop,
      List.nil_append]
    congr 1
    omega
  rw [overwritten, hchunk, hfront, hback, List.take_add, List.drop_drop]

/-- Every pass of a read of a source that answers correctly copies the file's bytes. -/
theorem copied_keptByPass {offset want : ℕ} {start : Bytes} (hend : offset + want ≤ file.length) :
    KeptByPass src size want offset (Copied src size file offset want start) := by
  rintro done buf s page s' ⟨hserves, hle, rfl⟩ hdone hread hover hoff
  have hsize := hserves.size_pos
  have hinside : (offset + done) / size < chunkCount size file.length := by
    rw [lt_chunkCount_iff hsize]
    exact (Nat.div_mul_le_self _ size).trans_lt (by omega)
  have hpage : page = chunkAt size file ((offset + done) / size) := by
    have hthis := hserves.page_eq [] _ hinside
    rw [PageSource.after, List.foldl_nil, hread] at hthis
    exact Except.ok.inj hthis
  obtain ⟨-, hnext, hfits⟩ := takenFrom_le hoff hdone
  refine ⟨?_, hnext, ?_⟩
  · have := hserves.next ((offset + done) / size)
    rwa [hread] at this
  · subst hpage
    exact overwritten_chunk (by omega) (by omega)

/-- A source that answers correctly is not refused inside the file. -/
theorem ServesFile.not_refused {s : σ} (h : ServesFile src size file s) {pos : ℕ}
    (hpos : pos < file.length) {e : VfsError E} (hrefused : Refused src size pos s e) : False := by
  have hsize := h.size_pos
  have hpage : (src.readPage s (pos / size)).1 = .ok (chunkAt size file (pos / size)) := by
    refine h.page_eq [] _ ?_
    rw [lt_chunkCount_iff hsize]
    exact (Nat.div_mul_le_self pos size).trans_lt hpos
  have hfits : (chunkAt size file (pos / size)).length ≤ size := by
    rw [length_chunkAt]
    exact min_le_left _ _
  have hreach := (mod_lt_length_chunkAt_iff hsize file pos).mpr hpos
  cases hrefused with
  | source herror =>
    rw [hpage] at herror
    cases herror
  | oversize hok hover =>
    rw [hpage] at hok
    cases hok
    omega
  | short hok hshort =>
    rw [hpage] at hok
    cases hok
    omega

/-- **One read.** Of a source that answers correctly for a file of the declared length, a
read returns the bytes of the file that the buffer has room for, and no others. -/
theorem serveRead_of_servesFile {s : σ} (h : ServesFile src size file s) {totalLen offset : UInt64}
    (hlen : totalLen.toNat = file.length) (buf : ByteVec) :
    let want := min buf.bytes.length (file.length - offset.toNat)
    let out := serveRead src totalLen offset buf s
    out.result = .ok (.ok want) ∧
      out.buf = (file.drop offset.toNat).take want ++ buf.bytes.drop want ∧
      ServesFile src size file out.src := by
  have hwant : min buf.bytes.length (file.length - offset.toNat) = clamped totalLen offset buf := by
    rw [clamped, hlen, min_comm]
  simp only [hwant]
  rcases Nat.eq_zero_or_pos (clamped totalLen offset buf) with hzero | hpos
  · rw [serveRead_of_clamped_eq_zero src hzero, hzero]
    exact ⟨rfl, rfl, h⟩
  · have hsize : (src.pageSize s).toNat = size := h.pageSize_eq []
    have hnonzero : src.pageSize s ≠ 0 := by
      intro hzero
      rw [hzero] at hsize
      exact h.size_pos.ne hsize
    have hrange := inRange_clamped hpos hnonzero
    have hend : offset.toNat + clamped totalLen offset buf ≤ file.length := by omega
    have hstart : Copied src size file offset.toNat (clamped totalLen offset buf) buf.bytes 0
        buf.bytes s := ⟨h, Nat.zero_le _, rfl⟩
    rw [serveRead_of_clamped_pos src hpos, if_neg hnonzero, hsize]
    rw [hsize] at hrange
    have hloop := readLoop_rule (copied_keptByPass hend)
      (fun done buf' s' hcopied => ⟨hrange.size_pos, hrange.size_lt, hrange.end_lt, ?_⟩)
      (clamped totalLen offset buf) 0 buf.bytes s le_rfl (Nat.zero_le _) hstart
    · rcases hloop with ⟨hresult, hcopied⟩ | ⟨e, done, buf', s', -, hcopied, hdone, hrefused⟩
      · exact ⟨hresult, hcopied.buf_eq, hcopied.serves⟩
      · exact absurd hrefused fun hrefused =>
          hcopied.serves.not_refused (by omega) hrefused
    · have hle := hcopied.done_le
      have hroom := hrange.want_le
      rw [hcopied.buf_eq, List.length_append, List.length_take, List.length_drop, List.length_drop]
      omega

/-- A woken database that answers correctly for a file, whose length it declares. -/
structure FlockVfs.Backs (src : PageSource E σ) (size : ℕ) (file : Bytes) (vfs : FlockVfs σ) :
    Prop where
  length_eq : vfs.totalLen.toNat = file.length
  serves : ServesFile src size file vfs.source

/-- What a `pread` of a woken database leaves: as many bytes of the file as it has, in
front of what was in the buffer. -/
theorem flockVfsPread_of_backs {vfs : FlockVfs σ} (h : vfs.Backs src size file) {offset len : ℕ}
    (hoffset : offset < 2 ^ 63) {buf : Bytes} (hlen : len ≤ buf.length) (hlen' : len < 2 ^ 63) :
    let count := min len (file.length - offset)
    let out := flockVfsPread src (some vfs) (.ofNat offset) (some buf) (.ofNat len)
    out.result = .ok (.ofNat count) ∧
      out.buf = (file.drop offset).take count ++ buf.drop count ∧
      ∃ vfs' : FlockVfs σ, out.handle = some vfs' ∧ vfs'.Backs src size file := by
  intro count out
  have hnat : (UInt64.ofNat len).toNat = len := UInt64.toNat_ofNat_of_lt' (hlen'.trans (by decide))
  have hplace : (Int64.ofNat offset).toUInt64.toNat = offset :=
    UInt64.toNat_ofNat_of_lt' (hoffset.trans (by decide))
  have hsigned : ¬Int64.ofNat offset < 0 := by
    have := Int64.ofNat_lt_iff_lt hoffset (b := 0) (by omega)
    simpa using this
  rcases Nat.eq_zero_or_pos len with rfl | hpos
  · have hcount : count = 0 := min_eq_left (Nat.zero_le _)
    have hout : out = ⟨.ok 0, buf, some vfs⟩ := by
      simp only [out, flockVfsPread, if_neg hsigned]
      exact if_pos rfl
    rw [hout, hcount]
    exact ⟨rfl, rfl, vfs, rfl, h⟩
  · have hnonzero : UInt64.ofNat len ≠ 0 := by
      intro hzero
      rw [hzero] at hnat
      exact hpos.ne hnat
    obtain ⟨hresult, hbuf, hserves⟩ := @serveRead_of_servesFile _ _ src size file _ h.serves _
      (Int64.ofNat offset).toUInt64 h.length_eq
      ⟨buf.take len, (List.length_take_le _ _).trans_lt hlen'⟩
    have hroom : (buf.take len).length = len := by
      rw [List.length_take]
      omega
    simp only [hroom, hplace] at hresult hbuf
    simp only [out, flockVfsPread, if_neg hsigned, if_neg hnonzero, hnat, hlen, hlen', and_self,
      dif_pos, hresult, hbuf]
    have hrest : buf.drop len = (buf.drop count).drop (len - count) := by
      rw [List.drop_drop]
      congr 1
      omega
    refine ⟨rfl, ?_, _, rfl, h.length_eq, hserves⟩
    rw [List.append_assoc, List.drop_take, hrest]
    exact congrArg _ (List.take_append_drop _ _)

/-- Sums of lengths that fit are exact. -/
theorem addSigned_ofNat {a b : ℕ} (h : a + b < 2 ^ 63) :
    addSigned (.ofNat a) (.ofNat b) = .ok (.ofNat (a + b)) := by
  have hsum : (Int64.ofNat a + Int64.ofNat b).toInt =
      (Int64.ofNat a).toInt + (Int64.ofNat b).toInt := by
    rw [← Int64.ofNat_add, Int64.toInt_ofNat_of_lt h, Int64.toInt_ofNat_of_lt (by omega),
      Int64.toInt_ofNat_of_lt (by omega)]
    push_cast
    rfl
  rw [addSigned, if_pos hsum, Int64.ofNat_add]

/-- A length is negative in no case and zero only when it is none. -/
theorem not_ofNat_neg {n : ℕ} (h : n < 2 ^ 63) :
    ¬Int64.ofNat n < 0 ∧ (Int64.ofNat n = 0 ↔ n = 0) := by
  constructor
  · have hlt := Int64.ofNat_lt_iff_lt h (b := 0) (by omega)
    simpa using hlt
  · constructor
    · intro hzero
      have hint := congrArg Int64.toInt hzero
      rw [Int64.toInt_ofNat_of_lt h, Int64.toInt_zero] at hint
      exact_mod_cast hint
    · rintro rfl
      rfl

/-- A handle over a file: the empty log's, or one of a woken database that answers
correctly for it. Its cursor is at a position. -/
structure FlockFileHandle.Over (src : PageSource E σ) (size : ℕ) (file : Bytes)
    (handle : FlockFileHandle σ) (position : ℕ) : Prop where
  length_lt : file.length < 2 ^ 63
  position_eq : handle.position.toNat = position
  position_lt : position < 2 ^ 63
  vfs : match handle.vfs with
    | none => file = []
    | some vfs => vfs.Backs src size file

/-- The sequential `Read` takes what the file has at the cursor, and moves past it. -/
theorem FlockFileHandle.Over.read {handle : FlockFileHandle σ} {position : ℕ}
    (h : handle.Over src size file position) {buf : Bytes} {n : ℕ} (hn : n < 2 ^ 63)
    (hroom : n ≤ buf.length) :
    let count := min n (file.length - position)
    let out := handle.read src buf (.ofNat n)
    out.result = .ok (.ok (.ofNat count)) ∧
      out.buf = (file.drop position).take count ++ buf.drop count ∧
      out.handle.Over src size file (position + count) := by
  intro count out
  have hlength := h.length_lt
  have hlt := h.position_lt
  have hvfs := h.vfs
  rcases hhandle : handle.vfs with _ | vfs
  · rw [hhandle] at hvfs
    have hout : out = ⟨.ok (.ok 0), buf, handle⟩ := by
      simp only [out, FlockFileHandle.read, hhandle]
    have hcount : count = 0 := by simp [count, hvfs]
    rw [hout, hcount]
    exact ⟨rfl, rfl, h⟩
  · rw [hhandle] at hvfs
    have hplace : handle.position.toInt64 = Int64.ofNat position := by
      rw [← h.position_eq, ← UInt64.toInt64_ofNat', UInt64.ofNat_toNat]
    obtain ⟨hresult, hbuf, vfs', hafter, hbacks⟩ :=
      flockVfsPread_of_backs hvfs hlt hroom hn
    have hcount : count < 2 ^ 63 := by omega
    have hout : out = ⟨.ok (.ok (.ofNat count)), (file.drop position).take count ++ buf.drop count,
        ⟨some vfs', handle.position + (Int64.ofNat count).toUInt64, handle.fileSize⟩⟩ := by
      have hsize : (Int64.ofNat n).toUInt64 = UInt64.ofNat n := rfl
      simp only [out, FlockFileHandle.read, hhandle, hplace, hsize, hresult, hbuf, hafter]
      rw [if_neg (not_ofNat_neg hcount).1]
    rw [hout]
    refine ⟨rfl, rfl, hlength, ?_, by omega, hbacks⟩
    have hmoved : (Int64.ofNat count).toUInt64.toNat = count :=
      UInt64.toNat_ofNat_of_lt' (hcount.trans (by decide))
    rw [UInt64.toNat_add, hmoved, h.position_eq]
    omega

/-- One pass of the positional `Read` that is not filled yet: it throws when the file ends
there, and otherwise goes on with what the file has. -/
theorem readAtLoop_pass {vfs : FlockVfs σ} (h : vfs.Backs src size file)
    (handle : FlockFileHandle σ) {location : UInt64} {filled n : ℕ} {buf : Bytes} (hn : n < 2 ^ 63)
    (hroom : n ≤ buf.length) (hfilled : filled < n) (hplace : location.toNat + filled < 2 ^ 63)
    (fuel : ℕ) :
    let count := min (n - filled) (file.length - (location.toNat + filled))
    let after := buf.take filled ++ ((file.drop (location.toNat + filled)).take count ++
      (buf.drop filled).drop count)
    ∃ vfs' : FlockVfs σ, vfs'.Backs src size file ∧
      readAtLoop src location (.ofNat n) handle (fuel + 1) (.ofNat filled) buf (some vfs) =
        if count = 0 then
          ⟨.ok (.error (.endOfFile (.ofNat n - .ofNat filled)
            (location + (Int64.ofNat filled).toUInt64))), after, { handle with vfs := some vfs' }⟩
        else readAtLoop src location (.ofNat n) handle fuel (.ofNat (filled + count)) after
          (some vfs') := by
  intro count after
  have hmore : Int64.ofNat filled < Int64.ofNat n :=
    (Int64.ofNat_lt_iff_lt (hfilled.trans hn) hn).mpr hfilled
  have hlocation : location.toInt64 = Int64.ofNat location.toNat := by
    rw [← UInt64.toInt64_ofNat', UInt64.ofNat_toNat]
  have hskip : (Int64.ofNat filled).toNatClampNeg = filled :=
    Int64.toNatClampNeg_ofNat_of_lt (hfilled.trans hn)
  have hask : (Int64.ofNat n - Int64.ofNat filled).toUInt64 = UInt64.ofNat (n - filled) := by
    rw [← Int64.ofNat_sub _ _ hfilled.le]
    rfl
  have hleft : n - filled ≤ (buf.drop filled).length := by
    rw [List.length_drop]
    omega
  have hleft' : n - filled < 2 ^ 63 := by omega
  obtain ⟨hresult, hbuf, vfs', hafter, hbacks⟩ :=
    flockVfsPread_of_backs h hplace hleft hleft'
  have hcount : count < 2 ^ 63 := by omega
  have hsum : filled + count < 2 ^ 63 := by omega
  obtain ⟨hnonneg, hzero⟩ := not_ofNat_neg hcount
  refine ⟨vfs', hbacks, ?_⟩
  rw [readAtLoop, if_pos hmore, hlocation, addSigned_ofNat hplace]
  simp only [hskip, hask, hresult, hbuf, hafter]
  rw [if_neg hnonneg]
  by_cases hend : count = 0
  · rw [if_pos (hzero.mpr hend), if_pos hend]
  · rw [if_neg (mt hzero.mp hend), if_neg hend, addSigned_ofNat hsum]

/-- A positional `Read` that has all it wants is done. -/
theorem readAtLoop_filled (src : PageSource E σ) (location : UInt64) (nrBytes : Int64)
    (handle : FlockFileHandle σ) (fuel : ℕ) (buf : Bytes) (vfs : Option (FlockVfs σ)) :
    readAtLoop src location nrBytes handle fuel nrBytes buf vfs =
      ⟨.ok (.ok ()), buf, { handle with vfs }⟩ := by
  have hdone : ¬nrBytes < nrBytes := Int64.lt_irrefl
  cases fuel with
  | zero => rw [readAtLoop, if_neg hdone]
  | succ fuel => rw [readAtLoop, if_neg hdone]

/-- The positional `Read` succeeds exactly on a range inside the file, whose bytes it
then delivers, and leaves the cursor alone. -/
theorem FlockFileHandle.Over.readAt {handle : FlockFileHandle σ} {position : ℕ}
    (h : handle.Over src size file position) {buf : Bytes} {n : ℕ} (hn : n < 2 ^ 63)
    (hroom : n ≤ buf.length) {location : UInt64} (hlocation : location.toNat < 2 ^ 63) :
    let out := handle.readAt src buf (.ofNat n) location
    out.handle.Over src size file position ∧
      if n = 0 ∨ location.toNat + n ≤ file.length then
        out.result = .ok (.ok ()) ∧ out.buf = (file.drop location.toNat).take n ++ buf.drop n
      else ∃ e, out.result = .ok (.error e) := by
  have hlength := h.length_lt
  have hvfs := h.vfs
  have hstays : ∀ vfs' : FlockVfs σ, vfs'.Backs src size file →
      { handle with vfs := some vfs' }.Over src size file position := fun vfs' hbacks =>
    ⟨hlength, h.position_eq, h.position_lt, hbacks⟩
  rcases hhandle : handle.vfs with _ | vfs
  · rw [hhandle] at hvfs
    simp only [FlockFileHandle.readAt, hhandle]
    by_cases hzero : n = 0
    · rw [if_pos ((not_ofNat_neg hn).2.mpr hzero), if_pos (.inl hzero), hzero]
      exact ⟨h, rfl, rfl⟩
    · have hpast : ¬(n = 0 ∨ location.toNat + n ≤ file.length) := by
        rw [hvfs, List.length_nil]
        omega
      rw [if_neg (mt (not_ofNat_neg hn).2.mp hzero), if_neg hpast]
      exact ⟨h, _, rfl⟩
  · rw [hhandle] at hvfs
    simp only [FlockFileHandle.readAt, hhandle, Int64.toNatClampNeg_ofNat_of_lt hn]
    have hstart : (0 : Int64) = .ofNat 0 := rfl
    rw [hstart]
    rcases n with _ | fuel
    · rw [readAtLoop_filled, if_pos (.inl rfl)]
      exact ⟨hstays vfs hvfs, rfl, rfl⟩
    have hplace : location.toNat + 0 < 2 ^ 63 := hlocation
    obtain ⟨vfs', hbacks, hfirst⟩ :=
      readAtLoop_pass hvfs handle hn hroom (Nat.succ_pos fuel) hplace fuel
    rw [hfirst]
    simp only [Nat.sub_zero, Nat.add_zero, Nat.zero_add, List.take_zero, List.drop_zero,
      List.nil_append]
    by_cases hinside : fuel + 1 = 0 ∨ location.toNat + (fuel + 1) ≤ file.length
    · -- the first pass fills the buffer
      have hall : min (fuel + 1) (file.length - location.toNat) = fuel + 1 := by omega
      rw [hall, if_neg (Nat.succ_ne_zero fuel), readAtLoop_filled, if_pos hinside]
      exact ⟨hstays vfs' hbacks, rfl, rfl⟩
    rw [if_neg hinside]
    by_cases hnone : min (fuel + 1) (file.length - location.toNat) = 0
    · rw [if_pos hnone]
      exact ⟨hstays vfs' hbacks, _, rfl⟩
    · -- the first pass reaches the end of the file, and the second finds nothing there
      rw [if_neg hnone]
      obtain ⟨count, hcount⟩ : ∃ count, count = min (fuel + 1) (file.length - location.toNat) :=
        ⟨_, rfl⟩
      rw [← hcount] at hnone ⊢
      obtain ⟨fuel, rfl⟩ : ∃ fuel', fuel = fuel' + 1 := ⟨fuel - 1, by omega⟩
      have hroom' : fuel + 1 + 1 ≤
          ((file.drop location.toNat).take count ++ buf.drop count).length := by
        rw [List.length_append, List.length_take, List.length_drop, List.length_drop]
        omega
      have hmore : count < fuel + 1 + 1 := by omega
      have hplace' : location.toNat + count < 2 ^ 63 := by omega
      obtain ⟨vfs'', hbacks', hsecond⟩ :=
        readAtLoop_pass hbacks handle hn hroom' hmore hplace' fuel
      have hend : min (fuel + 1 + 1 - count) (file.length - (location.toNat + count)) = 0 := by
        omega
      rw [hsecond, if_pos hend]
      exact ⟨hstays vfs'' hbacks', _, rfl⟩

/-- A call on an open file, with the memory that its buffer points at. -/
inductive FileCall where
  | seek (location : UInt64)
  | reset
  | read (buf : Bytes) (nrBytes : Int64)
  | readAt (buf : Bytes) (nrBytes : Int64) (location : UInt64)

/-- What the caller gets back. The buffer of a read that threw is not looked at. -/
inductive FileAnswer where
  | moved
  | count (n : Int64) (buf : Bytes)
  | filled (buf : Bytes)
  | thrown

/-- The engine asks for no negative count, uses no position from `2 ^ 63` on, and its
buffer has room for what it asks. -/
def FileCall.Valid : FileCall → Prop
  | .seek location => location.toNat < 2 ^ 63
  | .reset => True
  | .read buf nrBytes => 0 ≤ nrBytes ∧ nrBytes.toNatClampNeg ≤ buf.length
  | .readAt buf nrBytes location =>
    0 ≤ nrBytes ∧ nrBytes.toNatClampNeg ≤ buf.length ∧ location.toNat < 2 ^ 63

instance : DecidablePred FileCall.Valid
  | .seek location => inferInstanceAs (Decidable (location.toNat < 2 ^ 63))
  | .reset => inferInstanceAs (Decidable True)
  | .read buf nrBytes => inferInstanceAs (Decidable (0 ≤ nrBytes ∧ _ ≤ buf.length))
  | .readAt buf nrBytes location =>
    inferInstanceAs (Decidable (0 ≤ nrBytes ∧ _ ≤ buf.length ∧ location.toNat < 2 ^ 63))

/-- A call on a handle. -/
def FlockFileHandle.call (src : PageSource E σ) (handle : FlockFileHandle σ) :
    FileCall → Except Trap FileAnswer × FlockFileHandle σ
  | .seek location => (.ok .moved, handle.seek location)
  | .reset => (.ok .moved, handle.reset)
  | .read buf nrBytes =>
    let out := handle.read src buf nrBytes
    match out.result with
    | .error trap => (.error trap, out.handle)
    | .ok (.ok n) => (.ok (.count n out.buf), out.handle)
    | .ok (.error _) => (.ok .thrown, out.handle)
  | .readAt buf nrBytes location =>
    let out := handle.readAt src buf nrBytes location
    match out.result with
    | .error trap => (.error trap, out.handle)
    | .ok (.ok ()) => (.ok (.filled out.buf), out.handle)
    | .ok (.error _) => (.ok .thrown, out.handle)

/-- The same call on a plain read-only file with a cursor. -/
def plainCall (file : Reader UInt8) : FileCall → FileAnswer × Reader UInt8
  | .seek location => (.moved, { file with position := location.toNat })
  | .reset => (.moved, { file with position := 0 })
  | .read buf nrBytes =>
    let (got, file') := file.read nrBytes.toNatClampNeg
    (.count (.ofNat got.length) (got ++ buf.drop got.length), file')
  | .readAt buf nrBytes location =>
    match file.readAt nrBytes.toNatClampNeg location.toNat with
    | some got => (.filled (got ++ buf.drop nrBytes.toNatClampNeg), file)
    | none => (.thrown, file)

/-- Read on sequentially until a read returns nothing, and join what came; none if the
reads run out before, or one of them throws. -/
def FlockFileHandle.drain (src : PageSource E σ) :
    FlockFileHandle σ → List (Bytes × Int64) → Option Bytes
  | _, [] => none
  | handle, (buf, nrBytes) :: reads =>
    let out := handle.read src buf nrBytes
    match out.result with
    | .ok (.ok n) =>
      if n = 0 then some [] else (out.buf.take n.toNatClampNeg ++ ·) <$> drain src out.handle reads
    | _ => none

/-- A nonnegative count is a natural number. -/
theorem exists_ofNat {n : Int64} (h : 0 ≤ n) :
    n.toNatClampNeg < 2 ^ 63 ∧ n = .ofNat n.toNatClampNeg := by
  refine ⟨n.toNatClampNeg_lt, Int64.toInt_inj.mp ?_⟩
  rw [Int64.toInt_ofNat_of_lt n.toNatClampNeg_lt]
  rw [Int64.le_iff_toInt_le, Int64.toInt_zero] at h
  exact (Int.toNat_of_nonneg h).symm

/-- A handle over a file answers each call as the plain file does. -/
theorem FlockFileHandle.Over.call {handle : FlockFileHandle σ} {plain : Reader UInt8}
    (h : handle.Over src size plain.items plain.position) {c : FileCall} (hc : c.Valid) :
    (handle.call src c).1 = .ok (plainCall plain c).1 ∧
      (handle.call src c).2.Over src size (plainCall plain c).2.items
        (plainCall plain c).2.position := by
  cases c with
  | seek location => exact ⟨rfl, h.length_lt, rfl, hc, h.vfs⟩
  | reset => exact ⟨rfl, h.length_lt, rfl, Nat.two_pow_pos 63, h.vfs⟩
  | read buf nrBytes =>
    obtain ⟨hn, hnat⟩ := exists_ofNat hc.1
    have hread := h.read hn hc.2
    rw [← hnat] at hread
    obtain ⟨hresult, hbuf, hover⟩ := hread
    have hlength := plain.length_read nrBytes.toNatClampNeg
    simp only [FlockFileHandle.call, plainCall, hresult, hbuf, hlength]
    refine ⟨?_, ?_⟩
    · rw [← List.length_drop, ← List.take_eq_take_min]
      rfl
    · rw [← hlength] at hover
      exact hover
  | readAt buf nrBytes location =>
    obtain ⟨hn, hnat⟩ := exists_ofNat hc.1
    have hread := h.readAt hn hc.2.1 hc.2.2
    rw [← hnat] at hread
    obtain ⟨hover, hresult⟩ := hread
    simp only [FlockFileHandle.call, plainCall, Reader.readAt]
    by_cases hinside : nrBytes.toNatClampNeg = 0 ∨
        location.toNat + nrBytes.toNatClampNeg ≤ plain.items.length
    · rw [if_pos hinside] at hresult ⊢
      rw [hresult.1, hresult.2]
      exact ⟨rfl, hover⟩
    · rw [if_neg hinside] at hresult ⊢
      obtain ⟨e, he⟩ := hresult
      rw [he]
      exact ⟨rfl, hover⟩

/-- Reading on through a handle yields what reading on in the plain file yields. -/
theorem FlockFileHandle.Over.drain {handle : FlockFileHandle σ} {plain : Reader UInt8}
    (h : handle.Over src size plain.items plain.position) {reads : List (Bytes × Int64)}
    (hreads : ∀ r ∈ reads, (FileCall.read r.1 r.2).Valid) :
    handle.drain src reads = plain.drain (reads.map fun r => r.2.toNatClampNeg) := by
  induction reads generalizing handle plain with
  | nil => rfl
  | cons r reads ih =>
    obtain ⟨buf, nrBytes⟩ := r
    have hc : (FileCall.read buf nrBytes).Valid := hreads _ List.mem_cons_self
    obtain ⟨hn, hnat⟩ := exists_ofNat hc.1
    have hread := h.read hn hc.2
    rw [← hnat] at hread
    obtain ⟨hresult, hbuf, hover⟩ := hread
    have hlength := plain.length_read nrBytes.toNatClampNeg
    rw [← hlength] at hresult hbuf hover
    have hgot : (plain.items.drop plain.position).take (plain.read nrBytes.toNatClampNeg).1.length =
        (plain.read nrBytes.toNatClampNeg).1 := by
      rw [hlength, ← List.length_drop, ← List.take_eq_take_min]
      rfl
    rw [hgot] at hbuf
    have hlt : (plain.read nrBytes.toNatClampNeg).1.length < 2 ^ 63 := by omega
    have hnext : (handle.read src buf nrBytes).handle.Over src size
        (plain.read nrBytes.toNatClampNeg).2.items (plain.read nrBytes.toNatClampNeg).2.position :=
      hover
    have hrest := ih hnext fun r hr => hreads r (List.mem_cons_of_mem _ hr)
    rw [FlockFileHandle.drain, List.map_cons, Reader.drain, hresult]
    simp only [hbuf, hrest, (not_ofNat_neg hlt).2, List.isEmpty_iff_length_eq_zero,
      Int64.toNatClampNeg_ofNat_of_lt hlt, List.take_left]

/-- A path opens a file: the path of a log, which is empty, or one that wakes a database
which answers correctly for the file. -/
def Opens (src : PageSource E σ) (size : ℕ)
    (wake : String → Except FlockException (Option (FlockVfs σ))) (path : String) (file : Bytes) :
    Prop :=
  if isWalPath path then file = []
  else ∃ vfs : FlockVfs σ, wake path = .ok (some vfs) ∧ vfs.Backs src size file

/-- A path that opens a file shorter than `2 ^ 63` bytes is opened for reading, with the
cursor at the start. -/
theorem openFile_over {wake : String → Except FlockException (Option (FlockVfs σ))}
    {path : String} (hopens : Opens src size wake path file) (hlength : file.length < 2 ^ 63) :
    ∃ handle, openFile wake path false = .ok handle ∧ handle.Over src size file 0 := by
  rw [Opens] at hopens
  rw [openFile, if_neg Bool.false_ne_true]
  by_cases hwal : isWalPath path
  · rw [if_pos hwal] at hopens ⊢
    exact ⟨_, rfl, hlength, rfl, Nat.two_pow_pos 63, hopens⟩
  · rw [if_neg hwal] at hopens ⊢
    obtain ⟨vfs, hwake, hbacks⟩ := hopens
    have hfits : vfs.totalLen.toNat < 2 ^ 63 := hbacks.length_eq ▸ hlength
    have hsigned : vfs.totalLen.toInt64 = Int64.ofNat vfs.totalLen.toNat := by
      rw [← UInt64.toInt64_ofNat', UInt64.ofNat_toNat]
    have hsize : ¬flockVfsLen (some vfs) < 0 := by
      rw [flockVfsLen, if_pos hfits, hsigned]
      exact (not_ofNat_neg hfits).1
    simp only [hwake, if_neg hsize]
    exact ⟨_, rfl, hlength, rfl, Nat.two_pow_pos 63, hbacks⟩

/-- **A handle is a plain read-only file.** Opened over a file of fewer than `2 ^ 63`
bytes whose source answers correctly, it answers every sequence of calls as the plain
file does and has its cursor where the plain file has it; and reading on sequentially
from there until nothing comes back yields the rest of the file once. -/
theorem flock_handle_refines {wake : String → Except FlockException (Option (FlockVfs σ))}
    {path : String} (hopens : Opens src size wake path file) (hlength : file.length < 2 ^ 63)
    {calls : List FileCall} (hcalls : ∀ c ∈ calls, c.Valid) {reads : List (Bytes × Int64)}
    (hreads : ∀ r ∈ reads, 0 < r.2 ∧ (FileCall.read r.1 r.2).Valid) :
    ∃ handle, openFile wake path false = .ok handle ∧
      let out := run (FlockFileHandle.call src) handle calls
      let plain := run plainCall ⟨file, 0⟩ calls
      out.1 = plain.1.map .ok ∧ out.2.position.toNat = plain.2.position ∧
        (∀ got, out.2.drain src reads = some got → got = file.drop plain.2.position) ∧
        (file.length - plain.2.position < reads.length →
          out.2.drain src reads = some (file.drop plain.2.position)) := by
  obtain ⟨handle, hopen, hover⟩ := openFile_over hopens hlength
  refine ⟨handle, hopen, ?_⟩
  intro out plain
  have hitems : ∀ (file : Reader UInt8) (c : FileCall),
      (plainCall file c).2.items = file.items := by
    intro file c
    cases c with
    | readAt buf nrBytes location =>
      simp only [plainCall]
      split <;> rfl
    | _ => rfl
  have hkept : plain.2.items = file :=
    run_keeps (fun r c hr => (hitems r c).trans hr) calls rfl
  have hstep : ∀ (h : FlockFileHandle σ) (r : Reader UInt8) (c : FileCall), c.Valid →
      h.Over src size r.items r.position →
        (h.call src c).1 = .ok (plainCall r c).1 ∧
          (h.call src c).2.Over src size (plainCall r c).2.items (plainCall r c).2.position :=
    fun _ _ _ hc hover => hover.call hc
  obtain ⟨hanswers, hfinal⟩ := run_refines (t := (⟨file, 0⟩ : Reader UInt8)) _ hstep hcalls hover
  have hdrain := hfinal.drain fun r hr => (hreads r hr).2
  have hpos : ∀ n ∈ reads.map fun r => r.2.toNatClampNeg, 0 < n := by
    intro n hn
    obtain ⟨r, hr, rfl⟩ := List.mem_map.mp hn
    have := (hreads r hr).1
    rw [Int64.lt_iff_toInt_lt, Int64.toInt_zero] at this
    exact Int.pos_iff_toNat_pos.mp this
  obtain ⟨hgot, hends⟩ := Reader.drain_spec plain.2 hpos
  rw [hkept, List.length_map] at hends
  rw [hkept] at hgot
  exact ⟨hanswers, hfinal.position_eq, hdrain ▸ hgot, hdrain ▸ hends⟩

/-- Five bytes, in pages of two. -/
def fiveBytes : Bytes := [10, 20, 30, 40, 50]

/-- A source that answers with the pages of the five bytes. -/
def fiveBytesSource : PageSource Empty Unit where
  pageSize := fun _ => 2
  readPage := fun s pageNo => (.ok (chunkAt 2 fiveBytes pageNo), s)

/-- Of the five bytes a handle delivers three, refuses the three from the third on, and
reads on to the end. -/
theorem flock_handle_refines_fiveBytes :
    let calls : List FileCall := [.read [0, 0, 0] 3, .readAt [0, 0, 0] 3 3]
    let reads : List (Bytes × Int64) := [([0, 0], 2), ([0, 0], 2), ([0, 0], 2)]
    ∃ handle, openFile (fun _ => .ok (some ⟨(), 5⟩)) "flock:pool/00" false = .ok handle ∧
      (run (FlockFileHandle.call fiveBytesSource) handle calls).1 =
        [.ok (.count 3 [10, 20, 30]), .ok .thrown] ∧
      (run (FlockFileHandle.call fiveBytesSource) handle calls).2.drain fiveBytesSource reads =
        some [40, 50] := by
  have hserves : ServesFile fiveBytesSource 2 fiveBytes () :=
    ⟨by decide, fun _ => rfl, fun _ _ _ => rfl⟩
  have hopens :
      Opens fiveBytesSource 2 (fun _ => .ok (some ⟨(), 5⟩)) "flock:pool/00" fiveBytes := by
    rw [Opens, if_neg (by decide)]
    exact ⟨_, rfl, rfl, hserves⟩
  intro calls reads
  obtain ⟨handle, hopen, hanswers, -, -, hends⟩ :=
    @flock_handle_refines _ _ _ _ _ _ _ hopens (by decide) calls (by decide) reads (by decide)
  exact ⟨handle, hopen, hanswers, hends (by decide)⟩

end FlockDb
