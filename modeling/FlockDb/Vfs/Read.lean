import FlockDb.Library.Checked
import FlockDb.Substrate

/-!
# The read boundary

A `pread` of the database file becomes page faults: `serve_read` turns a byte range
into page numbers, asks a `PageSource` for each page and copies its bytes into the
caller's buffer. The source keeps a state of its own, so it may answer the same
question differently, and every operation that could stop the machine says so.
-/

namespace FlockDb

open Checked

/-- `VfsError`, as far as a read can return it. `E` is substrate's error type. -/
inductive VfsError (E : Type) where
  | zeroPageSize
  | offsetOverflow (offset : ℕ)
  | oversizePage (pageNo pageLen pageSize : ℕ)
  | shortPage (pageNo neededOffset pageLen : ℕ)
  | fault (pageNo : ℕ) (source : E)

/-- `PageSource`: pages of a virtual file, from a source with a state. -/
structure PageSource (E σ : Type) where
  pageSize : σ → UInt64
  readPage : σ → ℕ → Except (VfsError E) Bytes × σ

variable {E σ : Type}

namespace PageSource

/-- A source that also records the pages it returned. -/
def recorded (src : PageSource E σ) : PageSource E (σ × List (ℕ × Bytes)) where
  pageSize := fun s => src.pageSize s.1
  readPage := fun s pageNo =>
    match src.readPage s.1 pageNo with
    | (.error e, s') => (.error e, (s', s.2))
    | (.ok page, s') => (.ok page, (s', s.2 ++ [(pageNo, page)]))

/-- A source answers as a function of the page number, whatever it is asked. -/
def Consistent (src : PageSource E σ) (answer : ℕ → Except (VfsError E) Bytes) (s : σ) : Prop :=
  ∀ (asked : List ℕ) (pageNo : ℕ),
    (src.readPage (asked.foldl (fun s q => (src.readPage s q).2) s) pageNo).1 = answer pageNo

end PageSource

/-- What a read leaves: its result unless it trapped, the buffer and the source. -/
structure ReadOut (E σ : Type) where
  result : Except Trap (Except (VfsError E) ℕ)
  buf : Bytes
  src : σ

/-- The copy of one page into the buffer: how much it takes, and the buffer after. -/
def copyPage (page : Bytes) (pageOff want done : ℕ) (buf : Bytes) : Except Trap (ℕ × Bytes) := do
  let available ← sub page.length pageOff
  let needed ← sub want done
  let take := min available needed
  let bufEnd ← add done take
  let pageEnd ← add pageOff take
  let chunk ← slice page pageOff pageEnd
  let buf ← copyInto buf done bufEnd chunk
  return (bufEnd, buf)

/-- The page and the offset in it where a file position lies. -/
def locate (filePos pageSize : ℕ) : Except Trap (ℕ × ℕ) := do
  let pageNo ← div filePos pageSize
  let pageOff ← rem filePos pageSize
  return (pageNo, pageOff)

/-- The loop of `serve_read`, with what is done so far. -/
def readLoop (src : PageSource E σ) (pageSize want offset : ℕ) :
    ℕ → ℕ → Bytes → σ → ReadOut E σ
  | 0, done, buf, s =>
    if done < want then ⟨.error .outOfFuel, buf, s⟩ else ⟨.ok (.ok done), buf, s⟩
  | fuel + 1, done, buf, s =>
    if done < want then
      match add offset done with
      | .error _ => ⟨.ok (.error (.offsetOverflow offset)), buf, s⟩
      | .ok filePos =>
        match locate filePos pageSize with
        | .error trap => ⟨.error trap, buf, s⟩
        | .ok (pageNo, pageOff) =>
          match src.readPage s pageNo with
          | (.error e, s) => ⟨.ok (.error e), buf, s⟩
          | (.ok page, s) =>
            if pageSize < page.length then
              ⟨.ok (.error (.oversizePage pageNo page.length pageSize)), buf, s⟩
            else if page.length ≤ pageOff then
              ⟨.ok (.error (.shortPage pageNo pageOff page.length)), buf, s⟩
            else
              match copyPage page pageOff want done buf with
              | .error trap => ⟨.error trap, buf, s⟩
              | .ok (done, buf) => readLoop src pageSize want offset fuel done buf s
    else ⟨.ok (.ok done), buf, s⟩

/-- `serve_read`: fill a buffer from an offset of a virtual file of a length. -/
def serveRead (src : PageSource E σ) (totalLen offset : UInt64) (buf : ByteVec) (s : σ) :
    ReadOut E σ :=
  if totalLen ≤ offset then ⟨.ok (.ok 0), buf.bytes, s⟩
  else
    match sub totalLen.toNat offset.toNat with
    | .error trap => ⟨.error trap, buf.bytes, s⟩
    | .ok remaining =>
      let want := min remaining buf.bytes.length
      if want = 0 then ⟨.ok (.ok 0), buf.bytes, s⟩
      else
        let pageSize := src.pageSize s
        if pageSize = 0 then ⟨.ok (.error .zeroPageSize), buf.bytes, s⟩
        else readLoop src pageSize.toNat want offset.toNat want 0 buf.bytes s

end FlockDb
