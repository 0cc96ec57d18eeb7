import FlockDb.Kernel.Duck

/-!
# An in-memory engine

The laws of DuckDB are hypotheses of the development. This module gives one engine that
satisfies them: a database is the list of its statements' lengths, its file is that list
behind a header byte, and a `SELECT` is the one statement that changes nothing. The closed
examples run on it.
-/

namespace FlockDb

namespace MemoryEngine

/-- What a statement does to a database. -/
def run (content : Bytes) (sql : String) : Bytes :=
  if sql = "SELECT" ∨ sql = "CHECKPOINT" then content else content ++ [UInt8.ofNat sql.length]

/-- The file of a database. -/
def toFile (content : Bytes) : Except IoError ByteVec :=
  if h : (0 :: content).length < 2 ^ 63 then .ok ⟨0 :: content, h⟩
  else .error (.other "file too large")

/-- The database in a file; where there is no file, a new one. -/
def ofFile : Option Bytes → Except String Bytes
  | none => .ok []
  | some (0 :: content) => .ok content
  | some _ => .error "not a valid database file"

end MemoryEngine

/-- The in-memory engine. -/
def memoryEngine : Engine where
  Config := Unit
  Connection := Bytes
  Error := String
  Batches := Bytes
  Content := Bytes
  defaultConfig := ()
  threads := fun _ n => if 0 < n then .ok () else .error "threads must be positive"
  maxMemory := fun _ _ => .ok ()
  openWithFlags := fun file _ => MemoryEngine.ofFile file
  executeBatch := fun conn sql => (.ok (), MemoryEngine.run conn sql)
  execute := fun conn sql => (.ok 1, MemoryEngine.run conn sql)
  queryArrow := fun conn sql => (.ok (MemoryEngine.run conn sql), MemoryEngine.run conn sql)
  mainFile := MemoryEngine.toFile
  walLen := fun _ => none
  content := id

/-- A file that was written is the header and the database. -/
theorem MemoryEngine.bytes_of_toFile {content : Bytes} {file : ByteVec}
    (h : MemoryEngine.toFile content = .ok file) : file.bytes = 0 :: content := by
  unfold toFile at h
  split at h
  · cases h
    rfl
  · cases h

/-- The in-memory engine satisfies every law of an engine. -/
theorem memoryEngine_laws : memoryEngine.Laws where
  content_checkpoint := fun _ => rfl
  mainFile_ne_nil := by
    intro conn conn' file _ hfile
    rw [MemoryEngine.bytes_of_toFile hfile]
    exact List.cons_ne_nil _ _
  content_open := by
    intro conn conn' file config conn'' _ _ hfile hopen
    have hopen : MemoryEngine.ofFile (some file.bytes) = .ok conn'' := hopen
    rw [MemoryEngine.bytes_of_toFile hfile] at hopen
    exact (Except.ok.inj hopen).symm

/-- The in-memory engine reopens what it wrote. -/
theorem memoryEngine_reopens : memoryEngine.Reopens where
  openWithFlags := by
    intro conn conn' file _ _ hfile
    refine ⟨conn', ?_⟩
    rw [MemoryEngine.bytes_of_toFile hfile]
    rfl

end FlockDb
