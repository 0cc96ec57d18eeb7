import FlockDb.Vfs.Read

/-!
# The file handle that the engine reads through

The engine holds a `FlockFileHandle`: a woken database, a cursor and a size. Its reads
pass through two seams. `flock_vfs_len` and `flock_vfs_pread` translate between signed
and unsigned numbers and answer `-1` for every error; the file system above them keeps
the cursor, asks again until a positional read is filled, and throws.
-/

namespace FlockDb

open Checked

variable {E σ : Type}

/-- `FlockVfs`: a woken database, as the source of its pages and the declared length. -/
structure FlockVfs (σ : Type) where
  source : σ
  totalLen : UInt64

/-- `flock_vfs_len`: the length as a signed number, or `-1`. -/
def flockVfsLen : Option (FlockVfs σ) → Int64
  | some h => if h.totalLen.toNat < 2 ^ 63 then h.totalLen.toInt64 else -1
  | none => -1

/-- What `flock_vfs_pread` leaves: its answer unless it trapped, the memory that the
buffer points at, and the database. -/
structure PreadOut (σ : Type) where
  result : Except Trap Int64
  buf : Bytes
  handle : Option (FlockVfs σ)

/-- `flock_vfs_pread`: serve a range into a buffer, which is `none` for a null pointer.
That the slice it makes of the buffer is inside it is the caller's duty. -/
def flockVfsPread (src : PageSource E σ) (handle : Option (FlockVfs σ)) (offset : Int64)
    (buf : Option Bytes) (len : UInt64) : PreadOut σ :=
  match handle with
  | none => ⟨.ok (-1), buf.getD [], none⟩
  | some h =>
    if offset < 0 then ⟨.ok (-1), buf.getD [], some h⟩
    else if len = 0 then ⟨.ok 0, buf.getD [], some h⟩
    else
      match buf with
      | none => ⟨.ok (-1), [], some h⟩
      | some buf =>
        if hlen : len.toNat ≤ buf.length ∧ len.toNat < 2 ^ 63 then
          let out := serveRead src h.totalLen offset.toUInt64
            ⟨buf.take len.toNat, (List.length_take_le _ _).trans_lt hlen.2⟩ h.source
          let after := out.buf ++ buf.drop len.toNat
          let h' : FlockVfs σ := ⟨out.src, h.totalLen⟩
          match out.result with
          | .error trap => ⟨.error trap, after, some h'⟩
          | .ok (.ok n) => ⟨.ok (Int64.ofNat n), after, some h'⟩
          | .ok (.error _) => ⟨.ok (-1), after, some h'⟩
        else ⟨.error .outOfBounds, buf, some h⟩

/-- The exceptions that the file system throws on the read path. -/
inductive FlockException where
  | readOnly
  | wakeFailed
  | lengthUnavailable
  | invalidInput
  | pastEmptyLog
  | readFailed (offset : UInt64)
  | endOfFile (short : Int64) (offset : UInt64)
  | sequentialReadFailed (offset : UInt64)

/-- `FlockFileHandle`: a woken database, or none for the empty log, with a cursor. -/
structure FlockFileHandle (σ : Type) where
  vfs : Option (FlockVfs σ)
  position : UInt64
  fileSize : Int64

/-- `IsWalPath`: the path without its query ends in `.wal`. -/
def isWalPath (path : String) : Bool :=
  ['.', 'w', 'a', 'l'].isSuffixOf (path.toList.takeWhile (· ≠ '?'))

/-- `OpenFile`. Parsing the path and waking the database it names is `wake`, which may
refuse the path or return a null pointer. -/
def openFile (wake : String → Except FlockException (Option (FlockVfs σ))) (path : String)
    (forWriting : Bool) : Except FlockException (FlockFileHandle σ) :=
  if forWriting then .error .readOnly
  else if isWalPath path then .ok ⟨none, 0, 0⟩
  else
    match wake path with
    | .error e => .error e
    | .ok none => .error .wakeFailed
    | .ok (some vfs) =>
      let size := flockVfsLen (some vfs)
      if size < 0 then .error .lengthUnavailable else .ok ⟨some vfs, 0, size⟩

/-- Addition of `int64_t`, which must not overflow. -/
def addSigned (a b : Int64) : Except Trap Int64 :=
  if (a + b).toInt = a.toInt + b.toInt then .ok (a + b) else .error .overflow

/-- What a call of the file system leaves: its result unless it trapped, the memory that
the buffer points at, and the handle. -/
structure CallOut (σ α : Type) where
  result : Except Trap (Except FlockException α)
  buf : Bytes
  handle : FlockFileHandle σ

/-- The loop of the positional `Read`, with what is filled so far. -/
def readAtLoop (src : PageSource E σ) (location : UInt64) (nrBytes : Int64)
    (handle : FlockFileHandle σ) : ℕ → Int64 → Bytes → Option (FlockVfs σ) → CallOut σ Unit
  | 0, filled, buf, vfs =>
    if filled < nrBytes then ⟨.error .outOfFuel, buf, { handle with vfs }⟩
    else ⟨.ok (.ok ()), buf, { handle with vfs }⟩
  | fuel + 1, filled, buf, vfs =>
    if filled < nrBytes then
      match addSigned location.toInt64 filled with
      | .error trap => ⟨.error trap, buf, { handle with vfs }⟩
      | .ok offset =>
        let out := flockVfsPread src vfs offset (some (buf.drop filled.toNatClampNeg))
          (nrBytes - filled).toUInt64
        let after := buf.take filled.toNatClampNeg ++ out.buf
        let handle' := { handle with vfs := out.handle }
        let place := location + filled.toUInt64
        match out.result with
        | .error trap => ⟨.error trap, after, handle'⟩
        | .ok n =>
          if n < 0 then ⟨.ok (.error (.readFailed place)), after, handle'⟩
          else if n = 0 then ⟨.ok (.error (.endOfFile (nrBytes - filled) place)), after, handle'⟩
          else
            match addSigned filled n with
            | .error trap => ⟨.error trap, after, handle'⟩
            | .ok filled => readAtLoop src location nrBytes handle fuel filled after out.handle
    else ⟨.ok (.ok ()), buf, { handle with vfs }⟩

namespace FlockFileHandle

/-- `Seek`: put the cursor somewhere. -/
def seek (handle : FlockFileHandle σ) (location : UInt64) : FlockFileHandle σ :=
  { handle with position := location }

/-- `Reset`: put the cursor at the start. -/
def reset (handle : FlockFileHandle σ) : FlockFileHandle σ := { handle with position := 0 }

/-- The positional `Read`: exactly so many bytes from a place, or an exception. -/
def readAt (src : PageSource E σ) (handle : FlockFileHandle σ) (buf : Bytes) (nrBytes : Int64)
    (location : UInt64) : CallOut σ Unit :=
  match handle.vfs with
  | none =>
    if nrBytes = 0 then ⟨.ok (.ok ()), buf, handle⟩
    else ⟨.ok (.error .pastEmptyLog), buf, handle⟩
  | some vfs => readAtLoop src location nrBytes handle nrBytes.toNatClampNeg 0 buf (some vfs)

/-- The sequential `Read`: at most so many bytes at the cursor, which moves past them. -/
def read (src : PageSource E σ) (handle : FlockFileHandle σ) (buf : Bytes) (nrBytes : Int64) :
    CallOut σ Int64 :=
  match handle.vfs with
  | none => ⟨.ok (.ok 0), buf, handle⟩
  | some vfs =>
    let out := flockVfsPread src (some vfs) handle.position.toInt64 (some buf) nrBytes.toUInt64
    let handle' := { handle with vfs := out.handle }
    match out.result with
    | .error trap => ⟨.error trap, out.buf, handle'⟩
    | .ok n =>
      if n < 0 then ⟨.ok (.error (.sequentialReadFailed handle.position)), out.buf, handle'⟩
      else ⟨.ok (.ok n), out.buf, { handle' with position := handle.position + n.toUInt64 }⟩

end FlockFileHandle

end FlockDb
