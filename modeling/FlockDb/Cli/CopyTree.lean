import FlockDb.Library.Runs
import FlockDb.Substrate

/-!
# Copying a store file by file

A wake fetches into a cache of its own and copies that into the pool's store, file by file. A
file whose name is there already is skipped, for its name is the hash of its bytes. A file that
is not there is made and then filled, so a process that dies may leave any prefix of it behind.
-/

namespace FlockDb

/-- A directory as it is listed: its files, and its directories with what is in them. -/
inductive Listing where
  | nil
  | file (name : String) (bytes : Bytes) (rest : Listing)
  | dir (name : String) (inner : Listing) (rest : Listing)

/-- What is at a path. -/
inductive Entry where
  | dir
  | file (bytes : Bytes)

/-- The pool's store on the disk, each path from `cas/` on. -/
abbrev Disk := List String → Option Entry

namespace Disk

/-- A file is at a path. -/
def isFile (disk : Disk) (path : List String) : Bool :=
  match disk path with
  | some (.file _) => true
  | _ => false

/-- The directories of a path that are not there yet are made. -/
def fill (disk : Disk) (path : List String) : Disk :=
  fun p => if p <+: path ∧ (disk p).isNone then some .dir else disk p

/-- `create_dir_all`, which fails where a file is in the way. -/
def createDirAll (disk : Disk) (path : List String) : Option Disk :=
  if path.inits.any disk.isFile then none else some (disk.fill path)

/-- What is at the destination of one file: it is left alone, or the file is copied there. -/
def adopt (disk : Disk) (path : List String) (bytes : Bytes) : Disk :=
  if (disk path).isSome then disk else Function.update disk path (some (.file bytes))

end Disk

/-- The loop of `copy_tree` over the entries of a directory, with the number of files copied. -/
def copyEntries (disk : Disk) : Listing → List String → Option (ℕ × Disk)
  | .nil, _ => some (0, disk)
  | .file name bytes rest, dst => do
    let copied := if (disk (dst ++ [name])).isSome then 0 else 1
    let (more, disk) ← copyEntries (disk.adopt (dst ++ [name]) bytes) rest dst
    some (copied + more, disk)
  | .dir name inner rest, dst => do
    let disk ← disk.createDirAll (dst ++ [name])
    let (copied, disk) ← copyEntries disk inner (dst ++ [name])
    let (more, disk) ← copyEntries disk rest dst
    some (copied + more, disk)

/-- `copy_tree`, of a directory that may not be there. -/
def copyTree (disk : Disk) (src : Option Listing) (dst : List String) : Option (ℕ × Disk) :=
  match src with
  | none => some (0, disk)
  | some entries => do
    let disk ← disk.createDirAll dst
    copyEntries disk entries dst

/-- What `copy_tree` asks of the file system: to make a directory, or to copy a file unless its
name is there. -/
inductive Call where
  | createDirAll (path : List String)
  | copy (path : List String) (bytes : Bytes)

/-- One call that goes through. -/
def Disk.call (disk : Disk) : Call → Option Disk
  | .createDirAll path => disk.createDirAll path
  | .copy path bytes => some (disk.adopt path bytes)

/-- One call that is cut off: it has made some of its directories, or written some of its
bytes. -/
def Disk.part (disk : Disk) (k : ℕ) : Call → Disk
  | .createDirAll path => disk.fill (path.take k)
  | .copy path bytes => disk.adopt path (bytes.take k)

/-- Calls in their order, up to one that fails. -/
def Disk.calls (disk : Disk) : List Call → Bool × Disk
  | [] => (true, disk)
  | call :: calls =>
    match disk.call call with
    | none => (false, disk)
    | some disk => disk.calls calls

/-- The calls for the entries of a directory. -/
def Listing.calls : Listing → List String → List Call
  | .nil, _ => []
  | .file name bytes rest, dst => .copy (dst ++ [name]) bytes :: rest.calls dst
  | .dir name inner rest, dst =>
    .createDirAll (dst ++ [name]) :: (inner.calls (dst ++ [name]) ++ rest.calls dst)

/-- The calls of `copy_tree`. -/
def treeCalls (src : Option Listing) (dst : List String) : List Call :=
  match src with
  | none => []
  | some entries => .createDirAll dst :: entries.calls dst

/-- Where a process dies: not at all, before one of its calls, or in one of them. -/
inductive Stop where
  | never
  | before (n : ℕ)
  | within (n k : ℕ)

/-- Calls of a process that may die. It has come to its end if they all went through. -/
def Disk.callsUntil (disk : Disk) (calls : List Call) : Stop → Bool × Disk
  | .never => disk.calls calls
  | .before n =>
    if n < calls.length then (false, (disk.calls (calls.take n)).2) else disk.calls calls
  | .within n k =>
    match calls[n]? with
    | none => disk.calls calls
    | some call =>
      match disk.calls (calls.take n) with
      | (false, disk) => (false, disk)
      | (true, disk) => (false, disk.part k call)

/-! ### The calls are those of the copy -/

/-- Calls after calls. -/
theorem Disk.calls_append (disk : Disk) (first second : List Call) :
    disk.calls (first ++ second) =
      match disk.calls first with
      | (false, disk) => (false, disk)
      | (true, disk) => disk.calls second := by
  induction first generalizing disk with
  | nil => rfl
  | cons call first ih =>
    rw [List.cons_append, calls, calls]
    cases disk.call call with
    | none => rfl
    | some disk' => exact ih disk'

/-- A copy of entries that comes to its end leaves what its calls leave, and one that fails has
a call that fails. -/
theorem copyEntries_eq (disk : Disk) (entries : Listing) (dst : List String) :
    (copyEntries disk entries dst).map Prod.snd =
      if (disk.calls (entries.calls dst)).1 then some (disk.calls (entries.calls dst)).2
      else none := by
  induction entries generalizing disk dst with
  | nil => rfl
  | file name bytes rest ih =>
    have hrest := ih (disk.adopt (dst ++ [name]) bytes) dst
    rw [copyEntries, Listing.calls, Disk.calls, Disk.call, ← hrest]
    cases copyEntries (disk.adopt (dst ++ [name]) bytes) rest dst <;> rfl
  | dir name inner rest ihinner ihrest =>
    rw [copyEntries, Listing.calls, Disk.calls, Disk.call]
    cases hdir : disk.createDirAll (dst ++ [name]) with
    | none => rfl
    | some disk₁ =>
      have hinner := ihinner disk₁ (dst ++ [name])
      simp only [Disk.calls_append]
      rcases hcalls : disk₁.calls (inner.calls (dst ++ [name])) with ⟨_ | _, disk₂⟩
      · rw [hcalls] at hinner
        have hnone : copyEntries disk₁ inner (dst ++ [name]) = none := by simpa using hinner
        simp [hnone]
      · rw [hcalls] at hinner
        obtain ⟨copied, hsome⟩ : ∃ copied,
            copyEntries disk₁ inner (dst ++ [name]) = some (copied, disk₂) := by
          simpa using hinner
        have hrest := ihrest disk₂ dst
        simp only [← hrest]
        simp only [hsome, Option.bind_eq_bind, Option.bind_some]
        cases copyEntries disk₂ rest dst <;> rfl

/-- `copy_tree` is its calls. -/
theorem copyTree_eq (disk : Disk) (src : Option Listing) (dst : List String) :
    (copyTree disk src dst).map Prod.snd =
      if (disk.calls (treeCalls src dst)).1 then some (disk.calls (treeCalls src dst)).2
      else none := by
  cases src with
  | none => rfl
  | some entries =>
    rw [copyTree, treeCalls, Disk.calls, Disk.call]
    cases disk.createDirAll dst with
    | none => rfl
    | some disk' => exact copyEntries_eq disk' entries dst

/-- The calls of a `copy_tree` that returns go through, and leave what it leaves. -/
theorem calls_of_copyTree {disk disk' : Disk} {src : Option Listing} {dst : List String} {n : ℕ}
    (h : copyTree disk src dst = some (n, disk')) :
    disk.calls (treeCalls src dst) = (true, disk') := by
  have heq := copyTree_eq disk src dst
  rw [h, Option.map_some] at heq
  rcases hcalls : disk.calls (treeCalls src dst) with ⟨_ | _, disk₁⟩
  all_goals
    rw [hcalls] at heq
    cases heq
  rfl

/-! ### What a file's name says -/

/-- The names in the store. A file's name is the hash of its bytes, and no directory has the name
of a file. No two of the byte strings that come up have one hash. -/
structure Naming where
  hash : Bytes → String
  /-- The byte strings that come up: the files that are stored or fetched, and what is left of
  one that is cut off. -/
  known : Set Bytes
  directories : Set String
  take_mem : ∀ bytes ∈ known, ∀ k, bytes.take k ∈ known
  injOn : Set.InjOn hash known
  not_directory : ∀ bytes ∈ known, hash bytes ∉ directories
  pages_mem : "pages" ∈ directories
  manifests_mem : "manifests" ∈ directories

namespace Naming

variable {N : Naming}

/-- The name at the end of a path is the hash of some bytes. -/
def Names (N : Naming) (path : List String) (bytes : Bytes) : Prop :=
  path.getLast? = some (N.hash bytes)

/-- Every name of a path is a directory's. -/
def DirPath (N : Naming) (path : List String) : Prop := ∀ name ∈ path, name ∈ N.directories

/-- A store with directories and files where their names belong, whatever the files hold. -/
structure Formed (N : Naming) (disk : Disk) : Prop where
  file : ∀ path bytes, disk path = some (.file bytes) →
    bytes ∈ N.known ∧ ∃ whole ∈ N.known, N.Names path whole
  dir : ∀ path, disk path = some .dir → N.DirPath path

/-- Every file holds the bytes that its name is the hash of. -/
def Addressed (N : Naming) (disk : Disk) : Prop :=
  ∀ path bytes, disk path = some (.file bytes) → N.Names path bytes

/-- What is already at the path of a file is that file. -/
def Trusted (N : Naming) (disk : Disk) : Prop :=
  ∀ path bytes, bytes ∈ N.known → N.Names path bytes → (disk path).isSome →
    disk path = some (.file bytes)

/-- A call that keeps directories and files apart, and copies a file to where its name says. -/
def Proper (N : Naming) : Call → Prop
  | .createDirAll path => N.DirPath path
  | .copy path bytes => bytes ∈ N.known ∧ N.Names path bytes

/-- The path of a file is not one of directories. -/
theorem not_dirPath {path : List String} {bytes : Bytes} (hbytes : bytes ∈ N.known)
    (hname : N.Names path bytes) : ¬N.DirPath path :=
  fun hdir => N.not_directory bytes hbytes (hdir _ (List.mem_of_getLast? hname))

/-- The front of a path of directories is one too. -/
theorem DirPath.front {path front : List String} (h : N.DirPath path) (hfront : front <+: path) :
    N.DirPath front :=
  fun name hname => h name (hfront.subset hname)

/-- A path of directories can be made: no file is in the way. -/
theorem createDirAll_eq {disk : Disk} (hformed : N.Formed disk) {path : List String}
    (hpath : N.DirPath path) : disk.createDirAll path = some (disk.fill path) := by
  refine if_neg fun hfile => ?_
  obtain ⟨front, hfront, hisFile⟩ := List.any_eq_true.mp hfile
  have hdir : N.DirPath front := hpath.front ((List.mem_inits _ _).mp hfront)
  unfold Disk.isFile at hisFile
  split at hisFile
  · next bytes hentry =>
    obtain ⟨-, whole, hwhole, hname⟩ := hformed.file front bytes hentry
    exact not_dirPath hwhole hname hdir
  · cases hisFile

/-- What is there stays there when directories are made. -/
theorem fill_keeps (disk : Disk) (path : List String) {p : List String} (h : (disk p).isSome) :
    disk.fill path p = disk p := by
  refine if_neg fun hnew => ?_
  rw [Option.isNone_iff_eq_none.mp hnew.2] at h
  cases h

/-- What is at a path after directories were made: what was there, or a directory. -/
theorem fill_cases (disk : Disk) (path p : List String) :
    disk.fill path p = disk p ∨ disk.fill path p = some .dir ∧ p <+: path := by
  by_cases hnew : p <+: path ∧ (disk p).isNone
  · exact .inr ⟨if_pos hnew, hnew.1⟩
  · exact .inl (if_neg hnew)

/-- Directories are made where their names belong, and no file changes. -/
theorem formed_fill {disk : Disk} (hformed : N.Formed disk) {path : List String}
    (hpath : N.DirPath path) :
    N.Formed (disk.fill path) ∧ (N.Addressed disk → N.Addressed (disk.fill path)) := by
  refine ⟨⟨fun p bytes hfile => ?_, fun p hdir => ?_⟩, fun haddressed p bytes hfile => ?_⟩
  · rcases fill_cases disk path p with hsame | ⟨hmade, -⟩
    · exact hformed.file p bytes (hsame ▸ hfile)
    · rw [hmade] at hfile
      cases hfile
  · rcases fill_cases disk path p with hsame | ⟨-, hfront⟩
    · exact hformed.dir p (hsame ▸ hdir)
    · exact hpath.front hfront
  · rcases fill_cases disk path p with hsame | ⟨hmade, -⟩
    · exact haddressed p bytes (hsame ▸ hfile)
    · rw [hmade] at hfile
      cases hfile

/-- What is there stays there when a file is copied. -/
theorem adopt_keeps (disk : Disk) (path : List String) (bytes : Bytes) {p : List String}
    (h : (disk p).isSome) : disk.adopt path bytes p = disk p := by
  unfold Disk.adopt
  split
  · rfl
  · next hnew =>
    refine Function.update_of_ne (fun heq => hnew ?_) _ _
    rw [← heq]
    exact h

/-- A file that is copied, or what is left of one that is cut off, is where its name belongs. -/
theorem formed_adopt {disk : Disk} (hformed : N.Formed disk) {path : List String}
    {bytes whole : Bytes} (hbytes : bytes ∈ N.known) (hwhole : whole ∈ N.known)
    (hname : N.Names path whole) :
    N.Formed (disk.adopt path bytes) ∧
      (N.Names path bytes → N.Addressed disk → N.Addressed (disk.adopt path bytes)) := by
  unfold Disk.adopt
  split
  · exact ⟨hformed, fun _ => id⟩
  · refine ⟨⟨fun p b hfile => ?_, fun p hdir => ?_⟩, fun hhash haddressed p b hfile => ?_⟩
    · by_cases hp : p = path
      · subst hp
        rw [Function.update_self] at hfile
        obtain rfl := Entry.file.inj (Option.some.inj hfile)
        exact ⟨hbytes, whole, hwhole, hname⟩
      · exact hformed.file p b (by rwa [Function.update_of_ne hp] at hfile)
    · by_cases hp : p = path
      · subst hp
        rw [Function.update_self] at hdir
        cases hdir
      · exact hformed.dir p (by rwa [Function.update_of_ne hp] at hdir)
    · by_cases hp : p = path
      · subst hp
        rw [Function.update_self] at hfile
        obtain rfl := Entry.file.inj (Option.some.inj hfile)
        exact hhash
      · exact haddressed p b (by rwa [Function.update_of_ne hp] at hfile)

/-- What proper calls make of a store. -/
structure Grown (N : Naming) (disk : Disk) (calls : List Call) (disk' : Disk) : Prop where
  formed : N.Formed disk'
  addressed : N.Addressed disk → N.Addressed disk'
  keeps : ∀ path, (disk path).isSome → disk' path = disk path
  copied : ∀ path bytes, .copy path bytes ∈ calls → (disk' path).isSome
  fresh : ∀ path bytes, bytes ∈ N.known → N.Names path bytes → disk path = none →
    (∀ b, .copy path b ∉ calls) → disk' path = none

/-- One proper call goes through. -/
theorem call_grown {disk : Disk} (hformed : N.Formed disk) {call : Call} (hcall : N.Proper call) :
    ∃ disk', disk.call call = some disk' ∧ N.Grown disk [call] disk' := by
  cases call with
  | createDirAll path =>
    obtain ⟨hfill, haddressed⟩ := formed_fill hformed hcall
    refine ⟨_, createDirAll_eq hformed hcall, hfill, haddressed, fun p => fill_keeps disk path,
      fun p b hmem => ?_, fun p b hb hname hnone _ => ?_⟩
    · simp at hmem
    · rcases fill_cases disk path p with hsame | ⟨-, hfront⟩
      · exact hsame.trans hnone
      · exact absurd (DirPath.front hcall hfront) (not_dirPath hb hname)
  | copy path bytes =>
    obtain ⟨hadopt, haddressed⟩ := formed_adopt hformed hcall.1 hcall.1 hcall.2
    refine ⟨_, rfl, hadopt, haddressed hcall.2, fun p => adopt_keeps disk path bytes,
      fun p b hmem => ?_, fun p b hb hname hnone hother => ?_⟩
    · obtain ⟨rfl, rfl⟩ : p = path ∧ b = bytes := by simpa using hmem
      unfold Disk.adopt
      split
      · assumption
      · rw [Function.update_self]
        rfl
    · have hp : p ≠ path := fun hp => hother bytes (by simp [hp])
      unfold Disk.adopt
      split
      · exact hnone
      · rw [Function.update_of_ne hp]
        exact hnone

/-- Proper calls all go through. -/
theorem calls_grown {disk : Disk} (hformed : N.Formed disk) {calls : List Call}
    (hcalls : ∀ call ∈ calls, N.Proper call) :
    (disk.calls calls).1 = true ∧ N.Grown disk calls (disk.calls calls).2 := by
  induction calls generalizing disk with
  | nil => exact ⟨rfl, hformed, id, fun _ _ => rfl, by simp, fun _ _ _ _ h _ => h⟩
  | cons call calls ih =>
    rw [List.forall_mem_cons] at hcalls
    obtain ⟨disk', hcall, hone⟩ := call_grown hformed hcalls.1
    obtain ⟨hdone, hrest⟩ := ih hone.formed hcalls.2
    have hcons : disk.calls (call :: calls) = disk'.calls calls := by rw [Disk.calls, hcall]
    rw [hcons]
    refine ⟨hdone, hrest.formed, hrest.addressed ∘ hone.addressed, fun path hpath => ?_,
      fun path bytes hmem => ?_, fun path bytes hbytes hname hnone hother => ?_⟩
    · rw [hrest.keeps path ((hone.keeps path hpath).symm ▸ hpath), hone.keeps path hpath]
    · rcases List.mem_cons.mp hmem with rfl | hmem
      · have hsome := hone.copied path bytes (by simp)
        rw [hrest.keeps path hsome]
        exact hsome
      · exact hrest.copied path bytes hmem
    · have hfirst := hone.fresh path bytes hbytes hname hnone fun b hb =>
        hother b (List.mem_cons.mpr (.inl (List.mem_singleton.mp hb)))
      exact hrest.fresh path bytes hbytes hname hfirst fun b hb =>
        hother b (List.mem_cons_of_mem call hb)

/-- What is at the path of a file is not a directory. -/
theorem Formed.not_dir {disk : Disk} (h : N.Formed disk) {path : List String} {bytes : Bytes}
    (hbytes : bytes ∈ N.known) (hname : N.Names path bytes) : disk path ≠ some .dir :=
  fun hdir => not_dirPath hbytes hname (h.dir path hdir)

/-- In a store whose files hold what their names say, a file that is already there is the right
one. -/
theorem Formed.trusted {disk : Disk} (h : N.Formed disk) (haddressed : N.Addressed disk) :
    N.Trusted disk := by
  intro path bytes hbytes hname hsome
  obtain ⟨entry, hentry⟩ := Option.isSome_iff_exists.mp hsome
  cases entry with
  | dir => exact absurd hentry (h.not_dir hbytes hname)
  | file found =>
    have hfound : N.Names path found := haddressed path found hentry
    have hhash : N.hash found = N.hash bytes := Option.some.inj (hfound.symm.trans hname)
    rw [hentry, N.injOn (h.file path found hentry).1 hbytes hhash]

end Naming

/-- A process dies while it fills a file that was not there before: in a call that copies more
bytes than it has written, to a path where nothing is and nothing was copied to. -/
def Stop.Tears (disk : Disk) (calls : List Call) (stop : Stop) : Prop :=
  ∃ n k path bytes, stop = .within n k ∧ calls[n]? = some (.copy path bytes) ∧ k < bytes.length ∧
    disk path = none ∧ ∀ b, .copy path b ∉ calls.take n

namespace Naming

variable {N : Naming}

/-- Calls that are not cut off in a file leave a store as it should be, and all of them are made
if the process does not die. -/
theorem callsUntil_whole {disk : Disk} (hformed : N.Formed disk) {calls : List Call}
    (hcalls : ∀ call ∈ calls, N.Proper call) {stop : Stop} (hwhole : ¬stop.Tears disk calls) :
    N.Formed (disk.callsUntil calls stop).2 ∧
      (N.Addressed disk → N.Addressed (disk.callsUntil calls stop).2) ∧
      ((disk.callsUntil calls stop).1 = true →
        N.Grown disk calls (disk.callsUntil calls stop).2) := by
  obtain ⟨-, hall⟩ := calls_grown hformed hcalls
  have hend : N.Formed (disk.calls calls).2 ∧
      (N.Addressed disk → N.Addressed (disk.calls calls).2) ∧
      ((disk.calls calls).1 = true → N.Grown disk calls (disk.calls calls).2) :=
    ⟨hall.formed, hall.addressed, fun _ => hall⟩
  have hfront (n : ℕ) : (disk.calls (calls.take n)).1 = true ∧
      N.Grown disk (calls.take n) (disk.calls (calls.take n)).2 :=
    calls_grown hformed fun call hcall => hcalls call (List.mem_of_mem_take hcall)
  cases stop with
  | never => exact hend
  | before n =>
    rw [Disk.callsUntil]
    split
    · exact ⟨(hfront n).2.formed, (hfront n).2.addressed, fun h => by cases h⟩
    · exact hend
  | within n k =>
    rw [Disk.callsUntil]
    cases hcall : calls[n]? with
    | none => exact hend
    | some call =>
      have hproper : N.Proper call := hcalls call (List.mem_of_getElem? hcall)
      obtain ⟨hdone, hgrown⟩ := hfront n
      rcases hdisk : disk.calls (calls.take n) with ⟨_ | _, disk'⟩
      all_goals rw [hdisk] at hdone hgrown
      · cases hdone
      cases call with
      | createDirAll path =>
        obtain ⟨hfill, haddressed⟩ :=
          formed_fill hgrown.formed (DirPath.front hproper (List.take_prefix k path))
        exact ⟨hfill, haddressed ∘ hgrown.addressed, fun h => by cases h⟩
      | copy path bytes =>
        obtain ⟨hadopt, haddressed⟩ := formed_adopt hgrown.formed
          (N.take_mem bytes hproper.1 k) hproper.1 hproper.2
        refine ⟨hadopt, fun h => ?_, fun h => by cases h⟩
        by_cases hthere : (disk' path).isSome
        · simp only [Disk.part, Disk.adopt, if_pos hthere]
          exact hgrown.addressed h
        · -- Nothing was there, so all of the bytes were written.
          have hnone : disk path = none := by
            by_contra hsome
            have hsome : (disk path).isSome := Option.isSome_iff_ne_none.mpr hsome
            have hkept : disk' path = disk path := hgrown.keeps path hsome
            exact hthere (hkept ▸ hsome)
          have hlength : bytes.length ≤ k := by
            by_contra hshort
            exact hwhole ⟨n, k, path, bytes, rfl, hcall, not_le.mp hshort, hnone,
              fun b hb => hthere (hgrown.copied path b hb)⟩
          refine haddressed ?_ (hgrown.addressed h)
          rw [List.take_of_length_le hlength]
          exact hproper.2

/-- Calls that are cut off in a file leave a part of it under its name. -/
theorem callsUntil_torn {disk : Disk} (hformed : N.Formed disk) {calls : List Call}
    (hcalls : ∀ call ∈ calls, N.Proper call) {stop : Stop} (htears : stop.Tears disk calls) :
    ¬N.Addressed (disk.callsUntil calls stop).2 := by
  obtain ⟨n, k, path, bytes, rfl, hcall, hshort, hnone, hnew⟩ := htears
  obtain ⟨hbytes, hname⟩ : bytes ∈ N.known ∧ N.Names path bytes :=
    hcalls _ (List.mem_of_getElem? hcall)
  obtain ⟨hdone, hgrown⟩ := calls_grown hformed fun call hmem =>
    hcalls call (List.mem_of_mem_take (i := n) hmem)
  have hpart : (disk.callsUntil calls (.within n k)).2 path = some (.file (bytes.take k)) := by
    have hfresh := hgrown.fresh path bytes hbytes hname hnone hnew
    rw [Disk.callsUntil, hcall]
    rcases hdisk : disk.calls (calls.take n) with ⟨_ | _, disk'⟩
    all_goals rw [hdisk] at hdone hfresh
    · cases hdone
    · simp only at hfresh
      simp [Disk.part, Disk.adopt, hfresh]
  intro haddressed
  have hhash : N.hash (bytes.take k) = N.hash bytes :=
    Option.some.inj ((haddressed path _ hpart).symm.trans hname)
  have hsame : bytes.take k = bytes := N.injOn (N.take_mem bytes hbytes k) hbytes hhash
  have hlength := congrArg List.length hsame
  rw [List.length_take] at hlength
  omega

end Naming

/-- The files of a directory are named by their hashes, and its directories are not. -/
def Listing.Named (N : Naming) : Listing → Prop
  | .nil => True
  | .file name bytes rest => (bytes ∈ N.known ∧ name = N.hash bytes) ∧ rest.Named N
  | .dir name inner rest => name ∈ N.directories ∧ inner.Named N ∧ rest.Named N

/-- The calls for a directory of hash-named files are proper. -/
theorem Listing.Named.proper {N : Naming} {entries : Listing} (h : entries.Named N)
    {dst : List String} (hdst : N.DirPath dst) : ∀ call ∈ entries.calls dst, N.Proper call := by
  induction entries generalizing dst with
  | nil => simp [Listing.calls]
  | file name bytes rest ih =>
    obtain ⟨⟨hbytes, hname⟩, hrest⟩ := h
    rw [Listing.calls, List.forall_mem_cons]
    refine ⟨⟨hbytes, ?_⟩, ih hrest hdst⟩
    rw [Naming.Names, List.getLast?_append, hname]
    rfl
  | dir name inner rest ihinner ihrest =>
    obtain ⟨hname, hinner, hrest⟩ := h
    have hdir : N.DirPath (dst ++ [name]) := by
      intro n hn
      rcases List.mem_append.mp hn with hn | hn
      · exact hdst n hn
      · exact List.mem_singleton.mp hn ▸ hname
    rw [Listing.calls, List.forall_mem_cons]
    refine ⟨hdir, fun call hcall => ?_⟩
    rcases List.mem_append.mp hcall with hcall | hcall
    · exact ihinner hinner hdir call hcall
    · exact ihrest hrest hdst call hcall

/-- What a wake has in its cache when it comes to adopt the pages: hash-named pages and manifests,
among them every page of the head, for the head was hydrated through the cache. -/
structure Cache (N : Naming) where
  pages : Option Listing
  manifests : Option Listing
  /-- The pages of the woken head. -/
  head : List Bytes
  pages_named : ∀ entries ∈ pages, entries.Named N
  manifests_named : ∀ entries ∈ manifests, entries.Named N
  hydrated : ∀ page ∈ head, ∃ path, .copy path page ∈ treeCalls pages ["pages"]

namespace Cache

variable {N : Naming}

/-- What a wake asks of the file system when it adopts the pages. -/
def calls (cache : Cache N) : List Call :=
  treeCalls cache.pages ["pages"] ++ treeCalls cache.manifests ["manifests"]

/-- The part of a wake that adopts the pages, by a process that may die in it. -/
def adopt (disk : Disk) (wake : Cache N × Stop) : Bool × Disk :=
  disk.callsUntil wake.1.calls wake.2

/-- A wake whose two copies return comes to its end. -/
theorem adopt_of_copyTree {disk disk₁ disk₂ : Disk} {cache : Cache N} {n m : ℕ}
    (hpages : copyTree disk cache.pages ["pages"] = some (n, disk₁))
    (hmanifests : copyTree disk₁ cache.manifests ["manifests"] = some (m, disk₂)) :
    adopt disk (cache, .never) = (true, disk₂) := by
  rw [adopt, Disk.callsUntil, calls, Disk.calls_append, calls_of_copyTree hpages]
  exact calls_of_copyTree hmanifests

/-- The calls of a wake are proper. -/
theorem proper (cache : Cache N) : ∀ call ∈ cache.calls, N.Proper call := by
  have htree (src : Option Listing) (hsrc : ∀ entries ∈ src, entries.Named N) (dir : String)
      (hdir : dir ∈ N.directories) : ∀ call ∈ treeCalls src [dir], N.Proper call := by
    have hpath : N.DirPath [dir] := by simpa [Naming.DirPath] using hdir
    cases src with
    | none => simp [treeCalls]
    | some entries =>
      rw [treeCalls, List.forall_mem_cons]
      exact ⟨hpath, (hsrc entries rfl).proper hpath⟩
  intro call hcall
  rcases List.mem_append.mp hcall with hcall | hcall
  · exact htree cache.pages cache.pages_named "pages" N.pages_mem call hcall
  · exact htree cache.manifests cache.manifests_named "manifests" N.manifests_mem call hcall

/-- What is promised of one wake: every file in the store holds the bytes that its name is the hash
of, a file that is there already is the right one, and a wake that comes to its end leaves every
page of the woken head. -/
structure Safe (disk : Disk) (wake : Cache N × Stop) : Prop where
  addressed : N.Addressed (adopt disk wake).2
  trusted : N.Trusted (adopt disk wake).2
  woken : (adopt disk wake).1 = true →
    ∀ page ∈ wake.1.head, ∃ path, N.Names path page ∧ (adopt disk wake).2 path = some (.file page)

/-- A wake from a store that is as it should be keeps it so exactly if its process does not die in
the middle of a file. -/
theorem wake_safe_iff {disk : Disk} (h : N.Formed disk ∧ N.Addressed disk) (wake : Cache N × Stop) :
    Safe disk wake ↔ ¬wake.2.Tears disk wake.1.calls := by
  obtain ⟨hformed, haddressed⟩ := h
  refine ⟨fun hsafe htears =>
    Naming.callsUntil_torn hformed wake.1.proper htears hsafe.addressed, fun hwhole => ?_⟩
  obtain ⟨hformed', haddressed', hgrown⟩ :=
    Naming.callsUntil_whole hformed wake.1.proper hwhole
  have htrusted : N.Trusted (adopt disk wake).2 := hformed'.trusted (haddressed' haddressed)
  refine ⟨haddressed' haddressed, htrusted, fun hdone page hpage => ?_⟩
  obtain ⟨path, hcopy⟩ := wake.1.hydrated page hpage
  have hmem : .copy path page ∈ wake.1.calls := List.mem_append_left _ hcopy
  obtain ⟨hknown, hname⟩ : page ∈ N.known ∧ N.Names path page := wake.1.proper _ hmem
  exact ⟨path, hname, htrusted path page hknown hname ((hgrown hdone).copied path page hmem)⟩

/-- Along any number of wakes, each of which may die anywhere, the store stays content-addressed,
what is there already is right, and a wake that comes to its end leaves every page of its head,
exactly if no process dies in the middle of a file. -/
theorem along_safe_iff {disk : Disk} (hformed : N.Formed disk) (haddressed : N.Addressed disk)
    (wakes : List (Cache N × Stop)) :
    Runs.Along adopt Safe disk wakes ↔
      Runs.Along adopt (fun disk wake => ¬wake.2.Tears disk wake.1.calls) disk wakes := by
  refine Runs.along_congr (fun disk wake h => wake_safe_iff h wake)
    (fun disk wake h hsafe => ?_) wakes ⟨hformed, haddressed⟩
  obtain ⟨hformed', -⟩ :=
    Naming.callsUntil_whole h.1 wake.1.proper ((wake_safe_iff h wake).mp hsafe)
  exact ⟨hformed', hsafe.addressed⟩

end Cache

/-! ### Two wakes of one page -/

/-- A hash, written in hexadecimal digits. -/
def hexName (bytes : Bytes) : String :=
  String.ofList ('x' :: bytes.flatMap fun b =>
    [Nat.digitChar (b.toNat / 16), Nat.digitChar (b.toNat % 16)])

/-- The names of a store with one page of two bytes, in the directories of its name. -/
def hexNaming : Naming where
  hash := hexName
  known := {[], [1], [1, 2]}
  directories := {"pages", "manifests", "01", "02"}
  take_mem := by
    rintro bytes (rfl | rfl | rfl) k
    · simp
    · cases k <;> simp
    · rcases k with _ | _ | k <;> simp
  injOn := by
    rintro bytes (rfl | rfl | rfl) bytes' (rfl | rfl | rfl) hhash
    all_goals first | rfl | exact absurd hhash (by decide)
  not_directory := by
    rintro bytes (rfl | rfl | rfl) <;> simp only [Set.mem_insert_iff, Set.mem_singleton_iff] <;>
      decide
  pages_mem := by simp
  manifests_mem := by simp

/-- The cache of a wake that fetched that page. -/
def pageCache : Cache hexNaming where
  pages := some (.dir "01" (.dir "02" (.file "x0102" [1, 2] .nil) .nil) .nil)
  manifests := none
  head := [[1, 2]]
  pages_named := by
    rintro entries ⟨⟩
    refine ⟨by simp [hexNaming], ⟨by simp [hexNaming], ⟨⟨by simp [hexNaming], by decide⟩, trivial⟩,
      trivial⟩, trivial⟩
  manifests_named := by simp
  hydrated := by
    intro page hpage
    obtain rfl := List.mem_singleton.mp hpage
    exact ⟨["pages", "01", "02", "x0102"], by simp [treeCalls, Listing.calls]⟩

namespace Cache

/-- A wake that dies between two calls, and then one that comes to its end. -/
theorem along_safe_iff_between :
    hexNaming.Formed (fun _ => none) ∧
      Runs.Along adopt Safe (fun _ => none)
        [(pageCache, Stop.before 3), (pageCache, Stop.never)] := by
  have hformed : hexNaming.Formed fun _ => none :=
    ⟨fun _ _ h => (nomatch h), fun _ h => (nomatch h)⟩
  refine ⟨hformed, (along_safe_iff hformed (fun _ _ h => (nomatch h)) _).mpr ⟨?_, ?_, trivial⟩⟩
  · rintro ⟨n, k, path, bytes, hstop, -⟩
    cases hstop
  · rintro ⟨n, k, path, bytes, hstop, -⟩
    cases hstop

/-- A wake that dies after the first byte of a page leaves that byte under the page's name, and the
next wake takes it for the page: it copies no file, it comes to its end, and the page is cut
short. -/
theorem truncated_page_is_skipped :
    (∃ disk, copyTree (adopt (fun _ => none) (pageCache, .within 3 1)).2 pageCache.pages
      ["pages"] = some (0, disk)) ∧
    (adopt (adopt (fun _ => none) (pageCache, .within 3 1)).2 (pageCache, .never)).1 = true ∧
      (adopt (adopt (fun _ => none) (pageCache, .within 3 1)).2 (pageCache, .never)).2
        ["pages", "01", "02", "x0102"] = some (.file [1]) ∧
      ¬Runs.Along adopt Safe (fun _ => none)
        [(pageCache, Stop.within 3 1), (pageCache, Stop.never)] := by
  have hpart : (adopt (fun _ => none) (pageCache, .within 3 1)).2 ["pages", "01", "02", "x0102"] =
      some (.file [1]) := rfl
  obtain ⟨disk, hpages⟩ : ∃ disk, copyTree (adopt (fun _ => none) (pageCache, .within 3 1)).2
      pageCache.pages ["pages"] = some (0, disk) := ⟨_, rfl⟩
  have hmanifests : copyTree disk pageCache.manifests ["manifests"] = some (0, disk) := rfl
  have hadopt := adopt_of_copyTree hpages hmanifests
  refine ⟨⟨disk, hpages⟩, congrArg Prod.fst hadopt, rfl, fun hsafe => ?_⟩
  have hname : hexNaming.Names ["pages", "01", "02", "x0102"] [1] :=
    hsafe.1.addressed _ _ hpart
  have hhash : ("x0102" : String) = hexName [1] := Option.some.inj hname
  exact absurd hhash (by decide)

end Cache

end FlockDb
