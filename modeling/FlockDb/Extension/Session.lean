import FlockDb.Library.Heap
import FlockDb.Vfs.File

/-!
# The file system of the extension

The engine opens handles, calls them in any order, closes them and lets go of them. Behind each is
a woken database, a box on the other side of the C interface that one call makes and one call
frees. Whatever the sources answer, each box has one handle until it is freed, and is freed once.
-/

namespace FlockDb

open Runs

variable {E σ : Type}

/-- What the caller must not do with a box or an object: use it after it was freed, or free it
again. -/
inductive Misuse where
  | useAfterFree
  | doubleFree
  deriving DecidableEq

/-- An object of the class `FlockFileHandle`: the pointer to its database, null for the empty log,
its cursor and its size. -/
structure FileObject where
  vfs : Option ℕ
  position : UInt64
  fileSize : Int64

/-- The databases that `flock_vfs_open` boxed, and the objects that `OpenFile` made. -/
structure Session (σ : Type) where
  databases : Heap (FlockVfs σ)
  objects : Heap FileObject

/-- A call of the engine: to open a path that wakes to something, to read or move a cursor, to ask
for the size, to write or truncate, to close a handle, or to let go of it. -/
inductive SessionCall (σ : Type) where
  | openFile (path : String) (forWriting : Bool)
      (woken : Except FlockException (Option (FlockVfs σ)))
  | call (object : ℕ) (call : FileCall)
  | getFileSize (object : ℕ)
  | write (object : ℕ)
  | close (object : ℕ)
  | destroy (object : ℕ)

/-- What the engine gets back. -/
inductive SessionAnswer where
  | opened (object : ℕ)
  | threw (e : FlockException)
  | answered (result : Except Checked.Trap FileAnswer)
  | size (n : Int64)
  | done

namespace Session

/-- Before the first call. -/
def start : Session σ := ⟨.empty, .empty⟩

/-- Follow a pointer to a database. -/
def deref (s : Session σ) : Option ℕ → Except Misuse (Option (FlockVfs σ))
  | none => .ok none
  | some n =>
    match s.databases.boxes n with
    | none => .error .useAfterFree
    | some vfs => .ok (some vfs)

/-- `flock_vfs_close`. -/
def vfsClose (s : Session σ) : Option ℕ → Except Misuse Unit × Session σ
  | none => (.ok (), s)
  | some n =>
    match s.databases.boxes n with
    | none => (.error .doubleFree, s)
    | some _ => (.ok (), { s with databases := s.databases.free n })

/-- `make_uniq<FlockFileHandle>`. -/
def make (s : Session σ) (object : FileObject) : Except Misuse SessionAnswer × Session σ :=
  let (address, objects) := s.objects.alloc object
  (.ok (.opened address), { s with objects })

/-- `OpenFile`. -/
def openFile (s : Session σ) (path : String) (forWriting : Bool)
    (woken : Except FlockException (Option (FlockVfs σ))) :
    Except Misuse SessionAnswer × Session σ :=
  if forWriting then (.ok (.threw .readOnly), s)
  else if isWalPath path then s.make ⟨none, 0, 0⟩
  else
    match woken with
    | .error e => (.ok (.threw e), s)
    | .ok none => (.ok (.threw .wakeFailed), s)
    | .ok (some vfs) =>
      let (database, databases) := s.databases.alloc vfs
      let s := { s with databases }
      match s.deref (some database) with
      | .error misuse => (.error misuse, s)
      | .ok vfs =>
        let size := flockVfsLen vfs
        if size < 0 then
          match s.vfsClose (some database) with
          | (.error misuse, s) => (.error misuse, s)
          | (.ok (), s) => (.ok (.threw .lengthUnavailable), s)
        else s.make ⟨some database, 0, size⟩

/-- What a call through a handle leaves: the cursor in the object, the database in its box. -/
def keep (s : Session σ) (address : ℕ) (object : FileObject) (handle : FlockFileHandle σ) :
    Session σ where
  databases :=
    match object.vfs, handle.vfs with
    | some n, some vfs => s.databases.write n vfs
    | _, _ => s.databases
  objects := s.objects.write address { object with position := handle.position }

/-- A call on an open file, through the pointer of its object. -/
def call (src : PageSource E σ) (s : Session σ) (address : ℕ) (c : FileCall) :
    Except Misuse SessionAnswer × Session σ :=
  match s.objects.boxes address with
  | none => (.error .useAfterFree, s)
  | some object =>
    match s.deref object.vfs with
    | .error misuse => (.error misuse, s)
    | .ok vfs =>
      let handle : FlockFileHandle σ := ⟨vfs, object.position, object.fileSize⟩
      let (answer, handle) := handle.call src c
      (.ok (.answered answer), s.keep address object handle)

/-- A call that looks at the object only. -/
def look (s : Session σ) (address : ℕ) (answer : FileObject → SessionAnswer) :
    Except Misuse SessionAnswer × Session σ :=
  match s.objects.boxes address with
  | none => (.error .useAfterFree, s)
  | some object => (.ok (answer object), s)

/-- `Close`: the database is freed, and the pointer to it null. -/
def close (s : Session σ) (address : ℕ) : Except Misuse SessionAnswer × Session σ :=
  match s.objects.boxes address with
  | none => (.error .useAfterFree, s)
  | some object =>
    match s.vfsClose object.vfs with
    | (.error misuse, s) => (.error misuse, s)
    | (.ok (), s) =>
      (.ok .done, { s with objects := s.objects.write address { object with vfs := none } })

/-- `~FlockFileHandle`: close it, and the object is gone. -/
def destroy (s : Session σ) (address : ℕ) : Except Misuse SessionAnswer × Session σ :=
  match s.close address with
  | (.error misuse, s) => (.error misuse, s)
  | (.ok answer, s) => (.ok answer, { s with objects := s.objects.free address })

/-- One call of the engine. -/
def step (src : PageSource E σ) (s : Session σ) :
    SessionCall σ → Except Misuse SessionAnswer × Session σ
  | .openFile path forWriting woken => s.openFile path forWriting woken
  | .call address c => s.call src address c
  | .getFileSize address => s.look address fun object => .size object.fileSize
  | .write address => s.look address fun _ => .threw .readOnly
  | .close address => s.close address
  | .destroy address => s.destroy address

/-- Every box belongs to one object, and every object that is open has its box. -/
structure Owned (s : Session σ) : Prop where
  live : ∀ {address object n}, s.objects.boxes address = some object → object.vfs = some n →
    (s.databases.boxes n).isSome
  unique : ∀ {address address' object object' n}, s.objects.boxes address = some object →
    s.objects.boxes address' = some object' → object.vfs = some n → object'.vfs = some n →
      address = address'
  owner : ∀ {n}, (s.databases.boxes n).isSome →
    ∃ address object, s.objects.boxes address = some object ∧ object.vfs = some n

/-- The engine uses no object that it let go of. -/
def Uses (s : Session σ) : SessionCall σ → Prop
  | .openFile _ _ _ => True
  | .call address _ | .getFileSize address | .write address | .close address | .destroy address =>
    (s.objects.boxes address).isSome

/-- Before the first call nothing is owned. -/
theorem owned_start : (start : Session σ).Owned := by
  constructor
  · intro address object n hobject
    cases hobject
  · intro address address' object object' n hobject
    cases hobject
  · intro n hn
    cases hn

/-- The pointer of an object leads to its database, or it is null. -/
theorem Owned.deref {s : Session σ} (h : s.Owned) {address : ℕ} {object : FileObject}
    (hobject : s.objects.boxes address = some object) :
    s.deref object.vfs = .ok (object.vfs.bind s.databases.boxes) := by
  cases hvfs : object.vfs with
  | none => rfl
  | some n =>
    obtain ⟨vfs, hbox⟩ := Option.isSome_iff_exists.mp (h.live hobject hvfs)
    simp only [Session.deref, Option.bind_some, hbox]

/-- An object that is made with a null pointer, or with the pointer to a new box. -/
theorem Owned.make {s : Session σ} (h : s.Owned) (object : FileObject)
    {databases : Heap (FlockVfs σ)}
    (hobject : object.vfs = none ∧ databases = s.databases ∨
      ∃ vfs, object.vfs = some s.databases.next ∧ databases = (s.databases.alloc vfs).2) :
    (∃ answer, (({ s with databases } : Session σ).make object).1 = .ok answer) ∧
      (({ s with databases } : Session σ).make object).2.Owned := by
  refine ⟨⟨_, rfl⟩, ?_⟩
  have hboxes {address : ℕ} {made : FileObject}
      (hmade : (s.objects.alloc object).2.boxes address = some made) :
      address = s.objects.next ∧ made = object ∨ s.objects.boxes address = some made := by
    by_cases hnext : address = s.objects.next
    · subst hnext
      rw [Heap.boxes_alloc_self] at hmade
      exact .inl ⟨rfl, (Option.some.inj hmade).symm⟩
    · rw [Heap.boxes_alloc_of_ne _ _ hnext] at hmade
      exact .inr hmade
  have hkept {address : ℕ} {old : FileObject} (hold : s.objects.boxes address = some old) :
      (s.objects.alloc object).2.boxes address = some old := by
    rw [Heap.boxes_alloc_of_ne _ _ (Heap.ne_next hold)]
    exact hold
  rcases hobject with ⟨hnull, rfl⟩ | ⟨vfs, hnew, rfl⟩
  · constructor
    · intro address made n hmade hn
      rcases hboxes hmade with ⟨-, rfl⟩ | hold
      · rw [hnull] at hn
        cases hn
      · exact h.live hold hn
    · intro address address' made made' n hmade hmade' hn hn'
      rcases hboxes hmade with ⟨-, rfl⟩ | hold
      · rw [hnull] at hn
        cases hn
      · rcases hboxes hmade' with ⟨-, rfl⟩ | hold'
        · rw [hnull] at hn'
          cases hn'
        · exact h.unique hold hold' hn hn'
    · intro n hn
      obtain ⟨address, old, hold, hvfs⟩ := h.owner hn
      exact ⟨address, old, hkept hold, hvfs⟩
  · -- No object has a pointer to the new box.
    have hother {address : ℕ} {old : FileObject} {n : ℕ} (hold : s.objects.boxes address = some old)
        (hn : old.vfs = some n) : n ≠ s.databases.next := by
      obtain ⟨vfs', hbox⟩ := Option.isSome_iff_exists.mp (h.live hold hn)
      exact Heap.ne_next hbox
    constructor
    · intro address made n hmade hn
      change ((s.databases.alloc vfs).2.boxes n).isSome
      rcases hboxes hmade with ⟨-, rfl⟩ | hold
      · obtain rfl : s.databases.next = n := Option.some.inj (hnew.symm.trans hn)
        rw [Heap.boxes_alloc_self]
        rfl
      · rw [Heap.boxes_alloc_of_ne _ _ (hother hold hn)]
        exact h.live hold hn
    · intro address address' made made' n hmade hmade' hn hn'
      rcases hboxes hmade with ⟨haddress, rfl⟩ | hold <;>
        rcases hboxes hmade' with ⟨haddress', rfl⟩ | hold'
      · exact haddress.trans haddress'.symm
      · exact absurd (Option.some.inj (hn.symm.trans hnew)) (hother hold' hn')
      · exact absurd (Option.some.inj (hn'.symm.trans hnew)) (hother hold hn)
      · exact h.unique hold hold' hn hn'
    · intro n hn
      change ((s.databases.alloc vfs).2.boxes n).isSome at hn
      by_cases hnext : n = s.databases.next
      · subst hnext
        exact ⟨s.objects.next, object, Heap.boxes_alloc_self _ _, hnew⟩
      · rw [Heap.boxes_alloc_of_ne _ _ hnext] at hn
        obtain ⟨address, old, hold, hvfs⟩ := h.owner hn
        exact ⟨address, old, hkept hold, hvfs⟩

/-- Opening a path misuses nothing, and no box that it makes is left without an object. -/
theorem Owned.openFile {s : Session σ} (h : s.Owned) (path : String) (forWriting : Bool)
    (woken : Except FlockException (Option (FlockVfs σ))) :
    (∃ answer, (s.openFile path forWriting woken).1 = .ok answer) ∧
      (s.openFile path forWriting woken).2.Owned := by
  unfold Session.openFile
  cases forWriting with
  | true => exact ⟨⟨_, rfl⟩, h⟩
  | false =>
    simp only [Bool.false_eq_true, if_false]
    by_cases hwal : isWalPath path = true
    · rw [if_pos hwal]
      exact h.make ⟨none, 0, 0⟩ (.inl ⟨rfl, rfl⟩)
    rw [if_neg hwal]
    rcases woken with e | _ | vfs
    · exact ⟨⟨_, rfl⟩, h⟩
    · exact ⟨⟨_, rfl⟩, h⟩
    simp only [Session.deref, Heap.alloc_fst, Heap.boxes_alloc_self]
    by_cases hsize : flockVfsLen (some vfs) < 0
    · rw [if_pos hsize]
      simp only [vfsClose, Heap.boxes_alloc_self]
      have hfreed : ((s.databases.alloc vfs).2.free s.databases.next).boxes =
          s.databases.boxes := by
        funext n
        by_cases hn : n = s.databases.next
        · subst hn
          rw [Heap.boxes_free_self, Heap.boxes_next]
        · rw [Heap.boxes_free_of_ne _ hn, Heap.boxes_alloc_of_ne _ _ hn]
      refine ⟨⟨_, rfl⟩, fun hobject hn => ?_, h.unique, fun hn => h.owner ?_⟩
      · change (((s.databases.alloc vfs).2.free s.databases.next).boxes _).isSome
        rw [hfreed]
        exact h.live hobject hn
      · exact hfreed ▸ hn
    · rw [if_neg hsize]
      exact h.make ⟨some s.databases.next, 0, flockVfsLen (some vfs)⟩ (.inr ⟨vfs, rfl, rfl⟩)

/-- A box is there after a call exactly if it was before. -/
theorem isSome_keep (s : Session σ) (address : ℕ) (object : FileObject)
    (handle : FlockFileHandle σ) (n : ℕ) :
    ((s.keep address object handle).databases.boxes n).isSome = (s.databases.boxes n).isSome := by
  unfold keep
  cases object.vfs with
  | none => rfl
  | some m =>
    cases handle.vfs with
    | none => rfl
    | some vfs => exact Heap.isSome_boxes_write _ _ _ _

/-- The pointers after a change of one object that leaves its pointer. -/
theorem vfs_write {objects : Heap FileObject} {address : ℕ} {object : FileObject}
    (hobject : objects.boxes address = some object) (changed : FileObject)
    (hvfs : changed.vfs = object.vfs)
    {address' : ℕ} {made : FileObject}
    (hmade : (objects.write address changed).boxes address' = some made) :
    ∃ old, objects.boxes address' = some old ∧ old.vfs = made.vfs := by
  by_cases haddress : address' = address
  · subst haddress
    rw [Heap.boxes_write_self hobject] at hmade
    obtain rfl := Option.some.inj hmade
    exact ⟨object, hobject, hvfs.symm⟩
  · rw [Heap.boxes_write_of_ne _ haddress] at hmade
    exact ⟨made, hmade, rfl⟩

/-- A call through a handle frees nothing and makes nothing. -/
theorem Owned.keep {s : Session σ} (h : s.Owned) {address : ℕ} {object : FileObject}
    (hobject : s.objects.boxes address = some object) (handle : FlockFileHandle σ) :
    (s.keep address object handle).Owned := by
  have hpointers {address' : ℕ} {made : FileObject}
      (hmade : (s.keep address object handle).objects.boxes address' = some made) :
      ∃ old, s.objects.boxes address' = some old ∧ old.vfs = made.vfs :=
    vfs_write hobject { object with position := handle.position } rfl hmade
  constructor
  · intro address' made n hmade hn
    obtain ⟨old, hold, hvfs⟩ := hpointers hmade
    rw [isSome_keep]
    exact h.live hold (hvfs.trans hn)
  · intro address' address'' made made' n hmade hmade' hn hn'
    obtain ⟨old, hold, hvfs⟩ := hpointers hmade
    obtain ⟨old', hold', hvfs'⟩ := hpointers hmade'
    exact h.unique hold hold' (hvfs.trans hn) (hvfs'.trans hn')
  · intro n hn
    rw [isSome_keep] at hn
    obtain ⟨address', old, hold, hvfs⟩ := h.owner hn
    by_cases haddress : address' = address
    · subst haddress
      obtain rfl := Option.some.inj (hobject.symm.trans hold)
      exact ⟨address', _, Heap.boxes_write_self hobject _, hvfs⟩
    · exact ⟨address', old, (Heap.boxes_write_of_ne _ haddress _).trans hold, hvfs⟩

/-- What closing an object leaves: its box is gone, if it had one, and its pointer is null. -/
structure Closed (address : ℕ) (object : FileObject) (s s' : Session σ) : Prop where
  objects_eq : s'.objects = s.objects.write address { object with vfs := none }
  databases : (object.vfs = none ∧ s'.databases = s.databases) ∨
    ∃ n, object.vfs = some n ∧ s'.databases = s.databases.free n

/-- An object that is there is closed. -/
theorem Owned.closed {s : Session σ} (h : s.Owned) {address : ℕ} {object : FileObject}
    (hobject : s.objects.boxes address = some object) :
    (s.close address).1 = .ok .done ∧ Closed address object s (s.close address).2 := by
  unfold Session.close
  rw [hobject]
  simp only
  cases hvfs : object.vfs with
  | none => exact ⟨rfl, rfl, .inl ⟨hvfs, rfl⟩⟩
  | some n =>
    obtain ⟨vfs, hbox⟩ := Option.isSome_iff_exists.mp (h.live hobject hvfs)
    simp only [vfsClose, hbox]
    exact ⟨trivial, rfl, .inr ⟨n, hvfs, rfl⟩⟩

/-- Closing an object leaves the boxes of the others as they are. -/
theorem Closed.others {s s' : Session σ} {address : ℕ} {object : FileObject} (h : s.Owned)
    (hobject : s.objects.boxes address = some object) (hclosed : Closed address object s s')
    {address' : ℕ} {other : FileObject} {n : ℕ} (hne : address' ≠ address)
    (hother : s.objects.boxes address' = some other) (hn : other.vfs = some n) :
    s'.databases.boxes n = s.databases.boxes n := by
  rcases hclosed.databases with ⟨-, hsame⟩ | ⟨m, hm, hfreed⟩
  · rw [hsame]
  · rw [hfreed, Heap.boxes_free_of_ne]
    rintro rfl
    exact hne (h.unique hother hobject hn hm)

/-- Closing an object leaves the other boxes to the other objects. -/
theorem Closed.owned {s s' : Session σ} {address : ℕ} {object : FileObject} (h : s.Owned)
    (hobject : s.objects.boxes address = some object) (hclosed : Closed address object s s') :
    s'.Owned := by
  have hobjects := hclosed.objects_eq
  have hdatabases := hclosed.databases
  have hmade {address' : ℕ} {made : FileObject} {n : ℕ}
      (hbox : s'.objects.boxes address' = some made) (hn : made.vfs = some n) :
      address' ≠ address ∧ s.objects.boxes address' = some made := by
    rw [hobjects] at hbox
    by_cases haddress : address' = address
    · subst haddress
      rw [Heap.boxes_write_self hobject] at hbox
      obtain rfl := Option.some.inj hbox
      cases hn
    · rw [Heap.boxes_write_of_ne _ haddress] at hbox
      exact ⟨haddress, hbox⟩
  have hkept {address' : ℕ} {made : FileObject} (haddress : address' ≠ address)
      (hold : s.objects.boxes address' = some made) : s'.objects.boxes address' = some made := by
    rw [hobjects, Heap.boxes_write_of_ne _ haddress]
    exact hold
  refine ⟨fun hbox hn => ?_, fun hbox hbox' hn hn' =>
    h.unique (hmade hbox hn).2 (hmade hbox' hn').2 hn hn', fun {n} hn => ?_⟩
  · obtain ⟨haddress, hold⟩ := hmade hbox hn
    rw [hclosed.others h hobject haddress hold hn]
    exact h.live hold hn
  · have howned : (s.databases.boxes n).isSome ∧ object.vfs ≠ some n := by
      rcases hdatabases with ⟨hnull, hsame⟩ | ⟨m, hm, hfreed⟩
      · exact ⟨hsame ▸ hn, fun h => by rw [hnull] at h; cases h⟩
      · rw [hfreed] at hn
        have hne : n ≠ m := by
          rintro rfl
          rw [Heap.boxes_free_self] at hn
          cases hn
        rw [Heap.boxes_free_of_ne _ hne] at hn
        exact ⟨hn, fun h => hne (Option.some.inj (h.symm.trans hm))⟩
    obtain ⟨address', old, hold, hvfs⟩ := h.owner howned.1
    refine ⟨address', old, hkept ?_ hold, hvfs⟩
    rintro rfl
    obtain rfl := Option.some.inj (hobject.symm.trans hold)
    exact howned.2 hvfs

/-- Letting go of a closed object leaves no box behind. -/
theorem Closed.destroyed {s s' : Session σ} {address : ℕ} {object : FileObject}
    (hobject : s.objects.boxes address = some object) (hclosed : Closed address object s s')
    (h : s'.Owned) : ({ s' with objects := s'.objects.free address } : Session σ).Owned := by
  have hold {address' : ℕ} {made : FileObject}
      (hbox : (s'.objects.free address).boxes address' = some made) :
      s'.objects.boxes address' = some made := by
    by_cases haddress : address' = address
    · subst haddress
      rw [Heap.boxes_free_self] at hbox
      cases hbox
    · rwa [Heap.boxes_free_of_ne _ haddress] at hbox
  refine ⟨fun hbox => h.live (hold hbox), fun hbox hbox' => h.unique (hold hbox) (hold hbox'),
    fun hn => ?_⟩
  obtain ⟨address', made, hmade, hvfs⟩ := h.owner hn
  refine ⟨address', made, ?_, hvfs⟩
  change (s'.objects.free address).boxes address' = some made
  rw [Heap.boxes_free_of_ne]
  · exact hmade
  · -- Its pointer is null.
    rintro rfl
    rw [hclosed.objects_eq, Heap.boxes_write_self hobject] at hmade
    obtain rfl := Option.some.inj hmade
    cases hvfs

/-- A call on an object that is gone is not done. -/
theorem step_of_not_uses (src : PageSource E σ) {s : Session σ} {c : SessionCall σ}
    (h : ¬s.Uses c) : s.step src c = (.error .useAfterFree, s) := by
  cases c with
  | openFile path forWriting woken => exact absurd trivial h
  | call address c =>
    have hnone : s.objects.boxes address = none := Option.not_isSome_iff_eq_none.mp h
    simp only [Session.step, Session.call, hnone]
  | getFileSize address =>
    have hnone : s.objects.boxes address = none := Option.not_isSome_iff_eq_none.mp h
    simp only [Session.step, look, hnone]
  | write address =>
    have hnone : s.objects.boxes address = none := Option.not_isSome_iff_eq_none.mp h
    simp only [Session.step, look, hnone]
  | close address =>
    have hnone : s.objects.boxes address = none := Option.not_isSome_iff_eq_none.mp h
    simp only [Session.step, Session.close, hnone]
  | destroy address =>
    have hnone : s.objects.boxes address = none := Option.not_isSome_iff_eq_none.mp h
    simp only [Session.step, Session.destroy, Session.close, hnone]

/-- A call on objects that are there misuses no box, and leaves every box with one object. -/
theorem Owned.step_of_uses (src : PageSource E σ) {s : Session σ} (h : s.Owned)
    {c : SessionCall σ} (huses : s.Uses c) :
    (∃ answer, (s.step src c).1 = .ok answer) ∧ (s.step src c).2.Owned := by
  cases c with
  | openFile path forWriting woken => exact h.openFile path forWriting woken
  | call address c =>
    obtain ⟨object, hobject⟩ := Option.isSome_iff_exists.mp huses
    simp only [Session.step, Session.call, hobject, h.deref hobject]
    exact ⟨⟨_, rfl⟩, h.keep hobject _⟩
  | getFileSize address =>
    obtain ⟨object, hobject⟩ := Option.isSome_iff_exists.mp huses
    simp only [Session.step, look, hobject]
    exact ⟨⟨_, rfl⟩, h⟩
  | write address =>
    obtain ⟨object, hobject⟩ := Option.isSome_iff_exists.mp huses
    simp only [Session.step, look, hobject]
    exact ⟨⟨_, rfl⟩, h⟩
  | close address =>
    obtain ⟨object, hobject⟩ := Option.isSome_iff_exists.mp huses
    obtain ⟨hok, hclosed⟩ := h.closed hobject
    exact ⟨⟨_, hok⟩, hclosed.owned h hobject⟩
  | destroy address =>
    obtain ⟨object, hobject⟩ := Option.isSome_iff_exists.mp huses
    obtain ⟨hok, hclosed⟩ := h.closed hobject
    simp only [Session.step, Session.destroy]
    rcases hresult : s.close address with ⟨result, s'⟩
    rw [hresult] at hok hclosed
    obtain rfl : result = .ok .done := hok
    exact ⟨⟨_, rfl⟩, hclosed.destroyed hobject (hclosed.owned h hobject)⟩

/-- A call leaves every box with one object. -/
theorem Owned.step (src : PageSource E σ) {s : Session σ} (h : s.Owned) (c : SessionCall σ) :
    (s.step src c).2.Owned := by
  by_cases huses : s.Uses c
  · exact (h.step_of_uses src huses).2
  · rw [step_of_not_uses src huses]
    exact h

/-- **No box is misused and none is lost.** Whatever the sources answer, and whichever paths fail to
open, after any calls each box has exactly one object, so that none is left when all of them are
closed; and the next call does nothing forbidden, unless the engine makes it on an object that it
let go of. -/
theorem owned_of_run (src : PageSource E σ) (calls : List (SessionCall σ)) :
    let s := (run (step src) (start : Session σ) calls).2
    s.Owned ∧
      (∀ c, (∃ answer, (s.step src c).1 = .ok answer) ∧ s.Uses c ∨
        (s.step src c).1 = .error .useAfterFree ∧ ¬s.Uses c) ∧
      ((∀ address object, s.objects.boxes address = some object → object.vfs = none) →
        ∀ n, s.databases.boxes n = none) := by
  intro s
  have howned : s.Owned := run_keeps (fun s c h => h.step src c) calls owned_start
  refine ⟨howned, fun c => ?_, fun hclosed n => ?_⟩
  · by_cases huses : s.Uses c
    · exact .inl ⟨(howned.step_of_uses src huses).1, huses⟩
    · exact .inr ⟨congrArg Prod.fst (step_of_not_uses src huses), huses⟩
  · by_contra hbox
    obtain ⟨address, object, hobject, hvfs⟩ := howned.owner (Option.isSome_iff_ne_none.mpr hbox)
    rw [hclosed address object hobject] at hvfs
    cases hvfs

end Session

end FlockDb
