import FlockDb.Extension.Session

/-!
# Many handles, many files

As far as the sources answer correctly, each handle that the engine has is a plain read-only file
of its own. The calls on it do not move or close the others, over one path or over many.
-/

namespace FlockDb

open Runs

variable {E σ : Type}

/-- A plain read-only file that is open, and the size that it was opened with. -/
structure PlainFile where
  reader : Reader UInt8
  fileSize : ℕ

/-- A call on a plain file that is open. -/
def PlainFile.use (files : Heap PlainFile) (address : ℕ)
    (f : PlainFile → SessionAnswer × Heap PlainFile) :
    Except Misuse SessionAnswer × Heap PlainFile :=
  match files.boxes address with
  | none => (.error .useAfterFree, files)
  | some plain =>
    let (answer, files) := f plain
    (.ok answer, files)

/-- Open a plain file, with the cursor at its start. -/
def PlainFile.make (files : Heap PlainFile) (file : Bytes) :
    Except Misuse SessionAnswer × Heap PlainFile :=
  let (address, files) := files.alloc ⟨⟨file, 0⟩, file.length⟩
  (.ok (.opened address), files)

/-- The same call on plain read-only files, given the file that each woken database holds. A closed
file has no bytes. -/
def plainStep (file : FlockVfs σ → Bytes) (files : Heap PlainFile) :
    SessionCall σ → Except Misuse SessionAnswer × Heap PlainFile
  | .openFile path forWriting woken =>
    if forWriting then (.ok (.threw .readOnly), files)
    else if isWalPath path then PlainFile.make files []
    else
      match woken with
      | .error e => (.ok (.threw e), files)
      | .ok none => (.ok (.threw .wakeFailed), files)
      | .ok (some vfs) =>
        if (file vfs).length < 2 ^ 63 then PlainFile.make files (file vfs)
        else (.ok (.threw .lengthUnavailable), files)
  | .call address c =>
    PlainFile.use files address fun plain =>
      let (answer, reader) := plainCall plain.reader c
      (.answered (.ok answer), files.write address { plain with reader })
  | .getFileSize address =>
    PlainFile.use files address fun plain => (.size (.ofNat plain.fileSize), files)
  | .write address => PlainFile.use files address fun _ => (.threw .readOnly, files)
  | .close address =>
    PlainFile.use files address fun plain =>
      (.done, files.write address { plain with reader := { plain.reader with items := [] } })
  | .destroy address => PlainFile.use files address fun _ => (.done, files.free address)

/-- A path wakes to a database that answers correctly for its file, if it is woken and wakes to any,
and a call on an open file is one that the engine makes. -/
def SessionCall.Backed (src : PageSource E σ) (file : FlockVfs σ → Bytes) : SessionCall σ → Prop
  | .openFile path forWriting woken => forWriting = true ∨ isWalPath path = true ∨
    ∀ vfs, woken = .ok (some vfs) → ∃ size, vfs.Backs src size (file vfs)
  | .call _ c => c.Valid
  | _ => True

/-- A read leaves a handle that has a database with one. -/
theorem isSome_flockVfsPread (src : PageSource E σ) (vfs : Option (FlockVfs σ)) (offset : Int64)
    (buf : Option Bytes) (len : UInt64) :
    (flockVfsPread src vfs offset buf len).handle.isSome = vfs.isSome := by
  unfold flockVfsPread
  cases vfs with
  | none => rfl
  | some h =>
    cases buf <;> simp only <;> split_ifs <;> try rfl
    split <;> rfl

/-- A positional read leaves a handle that has a database with one. -/
theorem isSome_readAtLoop (src : PageSource E σ) (location : UInt64) (nrBytes : Int64)
    (handle : FlockFileHandle σ) (fuel : ℕ) (filled : Int64) (buf : Bytes)
    (vfs : Option (FlockVfs σ)) :
    (readAtLoop src location nrBytes handle fuel filled buf vfs).handle.vfs.isSome =
      vfs.isSome := by
  induction fuel generalizing filled buf vfs with
  | zero =>
    rw [readAtLoop]
    split <;> rfl
  | succ fuel ih =>
    have hpread := isSome_flockVfsPread src vfs
    rw [readAtLoop]
    by_cases hmore : filled < nrBytes
    · rw [if_pos hmore]
      cases addSigned location.toInt64 filled with
      | error trap => rfl
      | ok offset =>
        simp only
        split
        · exact hpread ..
        · split_ifs
          · exact hpread ..
          · exact hpread ..
          · split
            · exact hpread ..
            · rw [ih]
              exact hpread ..
    · rw [if_neg hmore]

/-- A call leaves a handle that has a database with one. -/
theorem isSome_call (src : PageSource E σ) (handle : FlockFileHandle σ) (c : FileCall) :
    (handle.call src c).2.vfs.isSome = handle.vfs.isSome := by
  cases c with
  | seek location => rfl
  | reset => rfl
  | read buf nrBytes =>
    have hread : (handle.read src buf nrBytes).handle.vfs.isSome = handle.vfs.isSome := by
      obtain ⟨vfs, position, fileSize⟩ := handle
      unfold FlockFileHandle.read
      cases vfs with
      | none => rfl
      | some vfs =>
        simp only
        split
        · exact isSome_flockVfsPread ..
        · split_ifs <;> exact isSome_flockVfsPread ..
    simp only [FlockFileHandle.call]
    split <;> exact hread
  | readAt buf nrBytes location =>
    have hread : (handle.readAt src buf nrBytes location).handle.vfs.isSome =
        handle.vfs.isSome := by
      obtain ⟨vfs, position, fileSize⟩ := handle
      unfold FlockFileHandle.readAt
      cases vfs with
      | none =>
        simp only
        split_ifs <;> rfl
      | some vfs => exact isSome_readAtLoop ..
    simp only [FlockFileHandle.call]
    split <;> exact hread

namespace Session

/-- The handle that an object and its database are. -/
def handleOf (databases : Heap (FlockVfs σ)) (object : FileObject) : FlockFileHandle σ :=
  ⟨object.vfs.bind databases.boxes, object.position, object.fileSize⟩

/-- An object whose handle is over a plain file, at its cursor. -/
def IsFile (src : PageSource E σ) (databases : Heap (FlockVfs σ)) (object : FileObject)
    (plain : PlainFile) : Prop :=
  object.fileSize = .ofNat plain.fileSize ∧
    ∃ size, (handleOf databases object).Over src size plain.reader.items plain.reader.position

/-- A session whose objects are plain files, each with the box that it owns. -/
structure Serves (src : PageSource E σ) (s : Session σ) (files : Heap PlainFile) : Prop where
  owned : s.Owned
  files : Heap.Related (IsFile src s.databases) s.objects files

variable {src : PageSource E σ} {file : FlockVfs σ → Bytes}

/-- An object stays the file that it is when another box changes. -/
theorem IsFile.of_boxes_eq {databases databases' : Heap (FlockVfs σ)} {object : FileObject}
    {plain : PlainFile} (h : IsFile src databases object plain)
    (hsame : ∀ n, object.vfs = some n → databases'.boxes n = databases.boxes n) :
    IsFile src databases' object plain := by
  have hhandle : handleOf databases' object = handleOf databases object := by
    unfold handleOf
    cases hvfs : object.vfs with
    | none => rfl
    | some n => rw [Option.bind_some, Option.bind_some, hsame n hvfs]
  rw [IsFile, hhandle]
  exact h

/-- A call through a handle leaves the handle that it made of its object. -/
theorem Owned.handleOf_keep {s : Session σ} (h : s.Owned) {address : ℕ} {object : FileObject}
    (hobject : s.objects.boxes address = some object) {handle : FlockFileHandle σ}
    (hsome : handle.vfs.isSome = (object.vfs.bind s.databases.boxes).isSome) :
    handleOf (s.keep address object handle).databases
        { object with position := handle.position } =
      ⟨handle.vfs, handle.position, object.fileSize⟩ := by
  unfold handleOf Session.keep
  cases hvfs : object.vfs with
  | none =>
    have hnone : handle.vfs = none := by
      rw [hvfs] at hsome
      exact Option.isNone_iff_eq_none.mp (Option.isSome_eq_false_iff.mp hsome)
    rw [Option.bind_none, hnone]
  | some n =>
    obtain ⟨old, hbox⟩ := Option.isSome_iff_exists.mp (h.live hobject hvfs)
    rw [hvfs, Option.bind_some, hbox] at hsome
    obtain ⟨vfs, hafter⟩ := Option.isSome_iff_exists.mp hsome
    simp only [hafter, Option.bind_some, Heap.boxes_write_self hbox]

/-- A call through a handle writes into no box but that of its object. -/
theorem boxes_keep_of_ne (s : Session σ) (address : ℕ) (object : FileObject)
    (handle : FlockFileHandle σ) {n : ℕ} (hne : object.vfs ≠ some n) :
    (s.keep address object handle).databases.boxes n = s.databases.boxes n := by
  unfold Session.keep
  cases hvfs : object.vfs with
  | none => rfl
  | some m =>
    cases handle.vfs with
    | none => rfl
    | some vfs =>
      refine Heap.boxes_write_of_ne _ ?_ _
      rintro rfl
      exact hne hvfs

/-- A file that is opened is a plain file at its start, whose length is its size. -/
theorem Serves.make {s : Session σ} {files : Heap PlainFile} (h : s.Serves src files)
    {object : FileObject} {databases : Heap (FlockVfs σ)} {bytes : Bytes}
    (hobject : object.vfs = none ∧ databases = s.databases ∨
      ∃ vfs, object.vfs = some s.databases.next ∧ databases = (s.databases.alloc vfs).2)
    (hfile : IsFile src databases object ⟨⟨bytes, 0⟩, bytes.length⟩) :
    (({ s with databases } : Session σ).make object).1 = (PlainFile.make files bytes).1 ∧
      (({ s with databases } : Session σ).make object).2.Serves src
        (PlainFile.make files bytes).2 := by
  refine ⟨?_, (h.owned.make object hobject).2, h.files.alloc hfile ?_⟩
  · change Except.ok (SessionAnswer.opened s.objects.next) = .ok (.opened files.next)
    rw [h.files.next_eq]
  · intro address old plain hold hplain
    refine hplain.of_boxes_eq fun n hn => ?_
    rcases hobject with ⟨-, rfl⟩ | ⟨vfs, -, rfl⟩
    · rfl
    · obtain ⟨vfs', hbox⟩ := Option.isSome_iff_exists.mp (h.owned.live hold hn)
      exact Heap.boxes_alloc_of_ne _ _ (Heap.ne_next hbox)

/-- A path is opened as a plain file is. -/
theorem Serves.openFile {s : Session σ} {files : Heap PlainFile} (h : s.Serves src files)
    (path : String) (forWriting : Bool) {woken : Except FlockException (Option (FlockVfs σ))}
    (hbacked : (SessionCall.openFile path forWriting woken).Backed src file) :
    (s.openFile path forWriting woken).1 =
        (plainStep file files (.openFile path forWriting woken)).1 ∧
      (s.openFile path forWriting woken).2.Serves src
        (plainStep file files (.openFile path forWriting woken)).2 := by
  have howned := (h.owned.openFile path forWriting woken).2
  unfold Session.openFile at howned ⊢
  simp only [plainStep]
  cases forWriting with
  | true => exact ⟨rfl, h⟩
  | false =>
    simp only [Bool.false_eq_true, if_false] at howned ⊢
    by_cases hwal : isWalPath path = true
    · rw [if_pos hwal, if_pos hwal]
      exact h.make (.inl ⟨rfl, rfl⟩) ⟨rfl, 0, Nat.two_pow_pos 63, rfl, Nat.two_pow_pos 63, rfl⟩
    rw [if_neg hwal] at howned ⊢
    rw [if_neg hwal]
    have hwoken : ∀ vfs, woken = .ok (some vfs) → ∃ size, vfs.Backs src size (file vfs) :=
      (hbacked.resolve_left Bool.false_ne_true).resolve_left hwal
    rcases woken with e | _ | vfs
    · exact ⟨rfl, h⟩
    · exact ⟨rfl, h⟩
    obtain ⟨size, hbacks⟩ := hwoken vfs rfl
    simp only [Session.deref, Heap.alloc_fst, Heap.boxes_alloc_self] at howned ⊢
    by_cases hfits : (file vfs).length < 2 ^ 63
    · have hlength : flockVfsLen (some vfs) = .ofNat (file vfs).length := by
        rw [flockVfsLen, if_pos (hbacks.length_eq ▸ hfits), ← hbacks.length_eq,
          ← UInt64.toInt64_ofNat', UInt64.ofNat_toNat]
      rw [hlength, if_neg (not_ofNat_neg hfits).1, if_pos hfits]
      refine h.make (.inr ⟨vfs, rfl, rfl⟩) ⟨rfl, size, hfits, rfl, Nat.two_pow_pos 63, ?_⟩
      rw [handleOf]
      simp only [Option.bind_some, Heap.boxes_alloc_self]
      exact hbacks
    · have hlength : flockVfsLen (some vfs) = -1 := by
        rw [flockVfsLen, if_neg (hbacks.length_eq ▸ hfits)]
      rw [hlength, if_pos (by decide)] at howned ⊢
      rw [if_neg hfits]
      simp only [vfsClose, Heap.boxes_alloc_self] at howned ⊢
      refine ⟨trivial, howned, h.files.next_eq, fun address => ?_⟩
      refine h.files.boxes_of_eq rfl rfl fun old plain hold hplain => ?_
      refine hplain.of_boxes_eq fun n hn => ?_
      obtain ⟨vfs', hbox⟩ := Option.isSome_iff_exists.mp (h.owned.live hold hn)
      have hne := Heap.ne_next hbox
      exact (Heap.boxes_free_of_ne _ hne).trans (Heap.boxes_alloc_of_ne _ _ hne)

/-- A call through a handle is the call on the plain file, and leaves the other files alone. -/
theorem Serves.call {s : Session σ} {files : Heap PlainFile} (h : s.Serves src files)
    (address : ℕ) {c : FileCall} (hvalid : c.Valid) :
    (s.call src address c).1 = (plainStep file files (.call address c)).1 ∧
      (s.call src address c).2.Serves src (plainStep file files (.call address c)).2 := by
  simp only [plainStep, PlainFile.use]
  rcases h.files.box address with ⟨hnone, hnone'⟩ | ⟨object, plain, hobject, hplain, hfile⟩
  · simp only [Session.call, hnone, hnone']
    exact ⟨trivial, h⟩
  obtain ⟨hsize, size, hover⟩ := hfile
  obtain ⟨hanswer, hafter⟩ := hover.call hvalid
  have hsome := isSome_call src (handleOf s.databases object) c
  simp only [Session.call, hobject, hplain, h.owned.deref hobject]
  rw [handleOf] at hanswer hafter hsome
  rw [hanswer]
  refine ⟨rfl, h.owned.keep hobject _, ?_⟩
  generalize (FlockFileHandle.call src _ c).2 = handle at hafter hsome
  refine h.files.write ⟨hsize, size, ?_⟩ fun address' hne old plain' hold hplain' => ?_
  · rw [h.owned.handleOf_keep hobject hsome]
    exact ⟨hafter.length_lt, hafter.position_eq, hafter.position_lt, hafter.vfs⟩
  · refine hplain'.of_boxes_eq fun n hn => boxes_keep_of_ne s address object handle ?_
    -- The box that is written is no other object's.
    exact fun hobjectVfs => hne (h.owned.unique hold hobject hn hobjectVfs)

/-- Closing a handle empties its file, and leaves the others alone. -/
theorem Serves.close {s : Session σ} {files : Heap PlainFile} (h : s.Serves src files)
    (address : ℕ) :
    (s.close address).1 = (plainStep file files (.close address)).1 ∧
      (s.close address).2.Serves src (plainStep file files (.close address)).2 := by
  simp only [plainStep, PlainFile.use]
  rcases h.files.box address with ⟨hnone, hnone'⟩ | ⟨object, plain, hobject, hplain, hfile⟩
  · simp only [Session.close, hnone, hnone']
    exact ⟨trivial, h⟩
  obtain ⟨hok, hclosed⟩ := h.owned.closed hobject
  obtain ⟨hsize, size, hover⟩ := hfile
  simp only [hplain]
  refine ⟨hok, hclosed.owned h.owned hobject, ?_⟩
  rw [hclosed.objects_eq]
  refine h.files.write ⟨hsize, size, ?_⟩ fun address' hne old plain' hold hplain' => ?_
  · exact ⟨Nat.two_pow_pos 63, hover.position_eq, hover.position_lt, rfl⟩
  · exact hplain'.of_boxes_eq fun n hn => hclosed.others h.owned hobject hne hold hn

/-- Letting go of a handle is letting go of its file. -/
theorem Serves.destroy {s : Session σ} {files : Heap PlainFile} (h : s.Serves src files)
    (address : ℕ) :
    (s.step src (.destroy address)).1 = (plainStep file files (.destroy address)).1 ∧
      (s.step src (.destroy address)).2.Serves src (plainStep file files (.destroy address)).2 := by
  have howned := h.owned.step src (.destroy address)
  simp only [plainStep, PlainFile.use]
  rcases h.files.box address with ⟨hnone, hnone'⟩ | ⟨object, plain, hobject, hplain, -⟩
  · simp only [Session.step, Session.destroy, Session.close, hnone, hnone']
    exact ⟨trivial, h⟩
  obtain ⟨hok, hclosed⟩ := h.owned.closed hobject
  simp only [hplain]
  simp only [Session.step, Session.destroy] at howned ⊢
  rcases hresult : s.close address with ⟨result, s'⟩
  rw [hresult] at hok hclosed howned
  obtain rfl : result = .ok .done := hok
  refine ⟨rfl, howned, ?_⟩
  change Heap.Related (IsFile src s'.databases) (s'.objects.free address) (files.free address)
  rw [hclosed.objects_eq, Heap.free_write]
  exact h.files.free address fun address' hne old plain' hold hplain' =>
    hplain'.of_boxes_eq fun n hn => hclosed.others h.owned hobject hne hold hn

/-- A call on files that are served is the call on the plain files. -/
theorem Serves.step {s : Session σ} {files : Heap PlainFile} {c : SessionCall σ}
    (hbacked : c.Backed src file) (h : s.Serves src files) :
    (s.step src c).1 = (plainStep file files c).1 ∧
      (s.step src c).2.Serves src (plainStep file files c).2 := by
  cases c with
  | openFile path forWriting woken => exact h.openFile path forWriting hbacked
  | call address c => exact h.call address hbacked
  | getFileSize address =>
    simp only [Session.step, look, plainStep, PlainFile.use]
    rcases h.files.box address with ⟨hnone, hnone'⟩ | ⟨object, plain, hobject, hplain, hfile⟩
    · rw [hnone, hnone']
      exact ⟨rfl, h⟩
    · rw [hobject, hplain]
      exact ⟨congrArg (Except.ok ∘ SessionAnswer.size) hfile.1, h⟩
  | write address =>
    simp only [Session.step, look, plainStep, PlainFile.use]
    rcases h.files.box address with ⟨hnone, hnone'⟩ | ⟨object, plain, hobject, hplain, hfile⟩
    · rw [hnone, hnone']
      exact ⟨rfl, h⟩
    · rw [hobject, hplain]
      exact ⟨rfl, h⟩
  | close address => exact h.close address
  | destroy address => exact h.destroy address

/-- **Each handle is a file of its own.** If every path that wakes to a database wakes to one that
answers correctly for its file, then in any order of calls on any handles, opened and closed on the
way, the engine gets the answers that plain read-only files give it. -/
theorem refines_plain_files {calls : List (SessionCall σ)}
    (hbacked : ∀ c ∈ calls, c.Backed src file) :
    (run (step src) (start : Session σ) calls).1 = (run (plainStep file) Heap.empty calls).1 := by
  have hstart : (start : Session σ).Serves src Heap.empty := ⟨owned_start, .empty⟩
  have hstep (s : Session σ) (files : Heap PlainFile) (c : SessionCall σ)
      (hbacked : c.Backed src file) (h : s.Serves src files) :
      (s.step src c).1 = (plainStep file files c).1 ∧
        (s.step src c).2.Serves src (plainStep file files c).2 := h.step hbacked
  obtain ⟨hanswers, -⟩ := run_refines id hstep hbacked hstart
  rw [hanswers, List.map_id]

/-- Two handles on five bytes, read in turns while one is closed, with the empty log between
them. -/
def turns : List (SessionCall Unit) :=
  [.openFile "flock:pool/00" false (.ok (some ⟨(), 5⟩)),
    .openFile "flock:pool/00.wal" false (.ok none),
    .openFile "flock:pool/00" false (.ok (some ⟨(), 5⟩)),
    .call 0 (.read [0, 0, 0] 3), .call 2 (.readAt [0, 0] 2 1), .close 0, .call 2 (.read [0] 1),
    .call 0 (.read [0] 1), .destroy 0, .getFileSize 2]

/-- The handle that is not closed goes on with the five bytes, and the closed one has none. -/
theorem refines_plain_files_turns :
    (run (step fiveBytesSource) start turns).1 =
      [.ok (.opened 0), .ok (.opened 1), .ok (.opened 2),
        .ok (.answered (.ok (.count 3 [10, 20, 30]))), .ok (.answered (.ok (.filled [20, 30]))),
        .ok .done, .ok (.answered (.ok (.count 1 [10]))), .ok (.answered (.ok (.count 0 [0]))),
        .ok .done, .ok (.size 5)] := by
  have hbacks : (⟨(), 5⟩ : FlockVfs Unit).Backs fiveBytesSource 2 fiveBytes :=
    ⟨rfl, by decide, fun _ => rfl, fun _ _ _ => rfl⟩
  have hopen : (SessionCall.openFile "flock:pool/00" false (.ok (some ⟨(), 5⟩))).Backed
      fiveBytesSource fun _ => fiveBytes := by
    refine .inr (.inr ?_)
    rintro vfs ⟨⟩
    exact ⟨2, hbacks⟩
  have hbacked : ∀ c ∈ turns, c.Backed fiveBytesSource fun _ => fiveBytes := by
    have hcall {address : ℕ} {c : FileCall} (h : c.Valid) :
        (SessionCall.call address c : SessionCall Unit).Backed fiveBytesSource fun _ => fiveBytes :=
      h
    simp only [turns, List.forall_mem_cons]
    exact ⟨hopen, .inr (.inl (by decide)), hopen, hcall (by decide), hcall (by decide), trivial,
      hcall (by decide), hcall (by decide), trivial, trivial, fun _ h => by cases h⟩
  exact refines_plain_files hbacked

end Session

end FlockDb
