import FlockDb.Library.Runs
import FlockDb.Vfs.Lazy

/-!
# A store that moves under its source

A `TieredPageSource` hands its store out, so commits and rewinds may move the head
between two faults of one read. Each fault looks the head up again. Here the moves are
interleaved with the faults of a read, and with the reads of a source: as long as no move
changes the pages of the head, every byte comes from one manifest, and one commit between
two faults is enough to serve half of each of two databases.
-/

namespace FlockDb

open Runs

variable {S : Substrate}

/-- What the other holders of a store do to it. -/
inductive StoreMove (S : Substrate) where
  | write (faults : Faults S) (txn : S.Txn) (pageNo : PageNo) (bytes : Bytes)
  | commit (faults : Faults S) (txn : S.Txn) (nowMs : ℕ)
  | rewind (faults : Faults S) (m : S.ManifestId)

/-- Two manifests of a store are one, or resolve to the same pages. -/
def SamePages (cas : S.Cas) (m m' : S.ManifestId) : Prop :=
  m = m' ∨ ∃ pages, S.resolve cas m = .ok pages ∧ S.resolve cas m' = .ok pages

/-- Having the same pages composes. -/
theorem SamePages.trans {cas : S.Cas} {m m' m'' : S.ManifestId} (h : SamePages cas m m')
    (h' : SamePages cas m' m'') : SamePages cas m m'' := by
  rcases h with rfl | ⟨pages, hm, hm'⟩
  · exact h'
  · rcases h' with rfl | ⟨pages', hpages', hm''⟩
    · exact .inr ⟨pages, hm, hm'⟩
    · obtain rfl : pages = pages' := Except.ok.inj (hm'.symm.trans hpages')
      exact .inr ⟨pages, hm, hm''⟩

/-- A store that grew still has the same pages for both. -/
theorem SamePages.grows {cas cas' : S.Cas} {m m' : S.ManifestId} (h : SamePages cas m m')
    (hgrows : S.Grows cas cas') : SamePages cas' m m' := by
  refine h.imp_right ?_
  rintro ⟨pages, hm, hm'⟩
  exact ⟨pages, hgrows.resolve hm, hgrows.resolve hm'⟩

/-- A page that is read at one of them is read at the other. -/
theorem SamePages.read (hS : S.ContentAddressed) {cas : S.Cas} {m m' : S.ManifestId}
    (h : SamePages cas m m') {p : PageNo} {page : Bytes} (hread : S.read cas m p = .ok page) :
    S.read cas m' p = .ok page := by
  rcases h with rfl | ⟨pages, hm, hm'⟩
  · exact hread
  · obtain ⟨pages', id, hpages', hid, hget⟩ := hS.read_ok_iff.mp hread
    obtain rfl : pages = pages' := Except.ok.inj (hm.symm.trans hpages')
    exact hS.read_ok_iff.mpr ⟨pages, id, hm', hid, hget⟩

namespace Pager

/-- The store after a move. -/
def moved (pager : Pager S) : StoreMove S → Pager S
  | .write faults txn pageNo bytes => (pager.write faults txn pageNo bytes).2
  | .commit faults txn nowMs => (pager.commit faults txn nowMs).2
  | .rewind faults m => (pager.rewind faults m).2

/-- The store after several moves. -/
def movedBy (pager : Pager S) (moves : List (StoreMove S)) : Pager S := moves.foldl moved pager

/-- The move does not change the pages of the head: a commit is refused or its changes are
what the head has, a rewind is refused or goes to a manifest with the head's pages. -/
def KeepsPages (pager : Pager S) : StoreMove S → Prop
  | .write _ _ _ _ => True
  | .commit faults txn _ => faults .commit ≠ none ∨
      ∃ pages, S.resolve pager.cas pager.head = .ok pages ∧
        Overlay.overlay pages (S.staged txn) = pages
  | .rewind faults m => (∃ e, faults.guard .rewind (S.rewind pager.cas m) = .error e) ∨
      SamePages pager.cas m pager.head

/-- No move of several changes the pages of the head that it finds. -/
def AllKeepPages (pager : Pager S) : List (StoreMove S) → Prop
  | [] => True
  | move :: moves => pager.KeepsPages move ∧ (pager.moved move).AllKeepPages moves

/-- A move loses nothing, and leaves the page size. -/
theorem moved_grows (hS : S.Laws) (pager : Pager S) (move : StoreMove S) :
    S.Grows pager.cas (pager.moved move).cas ∧ (pager.moved move).pageSize = pager.pageSize := by
  cases move with
  | write faults txn pageNo bytes =>
    rw [moved, write]
    cases faults (.write pageNo) with
    | some e => exact ⟨.refl _, rfl⟩
    | none => exact ⟨hS.grows_write _ _ _ _, rfl⟩
  | commit faults txn nowMs =>
    rw [moved, commit]
    cases faults .commit with
    | some e => exact ⟨.refl _, rfl⟩
    | none => exact ⟨hS.grows_install _ _ _ _, rfl⟩
  | rewind faults m =>
    rw [moved, rewind]
    cases faults.guard .rewind (S.rewind pager.cas m) with
    | error e => exact ⟨.refl _, rfl⟩
    | ok done => exact ⟨.refl _, rfl⟩

/-- After a move that does not change its pages, the head has the pages it had. -/
theorem KeepsPages.samePages (hS : S.Laws) {pager : Pager S} {move : StoreMove S}
    (h : pager.KeepsPages move) : SamePages (pager.moved move).cas (pager.moved move).head
      pager.head := by
  cases move with
  | write faults txn pageNo bytes =>
    rw [moved, write]
    cases faults (.write pageNo) with
    | some e => exact .inl rfl
    | none => exact .inl rfl
  | commit faults txn nowMs =>
    rw [moved, commit]
    cases hfault : faults .commit with
    | some e => exact .inl rfl
    | none =>
      rcases h with hrefused | ⟨pages, hresolve, hsame⟩
      · exact absurd hfault hrefused
      · have hinstalled := hS.resolve_install txn nowMs hresolve
        rw [hsame] at hinstalled
        exact .inr ⟨pages, hinstalled, (hS.grows_install _ _ _ _).resolve hresolve⟩
  | rewind faults m =>
    rw [moved, rewind]
    cases hrewind : faults.guard .rewind (S.rewind pager.cas m) with
    | error e => exact .inl rfl
    | ok done =>
      rcases h with ⟨e, hrefused⟩ | hsame
      · rw [hrewind] at hrefused
        cases hrefused
      · exact hsame

/-- Moves that keep the pages of the head do so in two parts. -/
theorem allKeepPages_append {pager : Pager S} {moves moves' : List (StoreMove S)} :
    pager.AllKeepPages (moves ++ moves') ↔
      pager.AllKeepPages moves ∧ (pager.movedBy moves).AllKeepPages moves' := by
  induction moves generalizing pager with
  | nil => exact (and_iff_right trivial).symm
  | cons move moves ih =>
    have hrest := @ih (pager.moved move)
    simp only [List.cons_append, AllKeepPages, hrest, and_assoc]
    rfl

/-- Moves lose nothing, and leave the page size. -/
theorem movedBy_grows (hS : S.Laws) (pager : Pager S) (moves : List (StoreMove S)) :
    S.Grows pager.cas (pager.movedBy moves).cas ∧
      (pager.movedBy moves).pageSize = pager.pageSize := by
  induction moves generalizing pager with
  | nil => exact ⟨.refl _, rfl⟩
  | cons move moves ih =>
    obtain ⟨hgrows, hsize⟩ := pager.moved_grows hS move
    obtain ⟨hgrows', hsize'⟩ := ih (pager.moved move)
    exact ⟨hgrows.trans hgrows', hsize'.trans hsize⟩

/-- After moves that do not change its pages, the head has the pages it had. -/
theorem AllKeepPages.samePages (hS : S.Laws) {pager : Pager S} {moves : List (StoreMove S)}
    (h : pager.AllKeepPages moves) :
    SamePages (pager.movedBy moves).cas (pager.movedBy moves).head pager.head := by
  induction moves generalizing pager with
  | nil => exact .inl rfl
  | cons move moves ih =>
    have hgrows := ((pager.moved move).movedBy_grows hS moves).1
    exact (ih h.2).trans ((h.1.samePages hS).grows hgrows)

end Pager

/-- What happens to a store around one fault: before the fault looks up the head, and
between that and the read of the page. -/
structure Meanwhile (S : Substrate) where
  before : List (StoreMove S)
  during : List (StoreMove S)

/-- The moves of a schedule, in order. -/
def scheduled (schedule : List (Meanwhile S)) : List (StoreMove S) :=
  schedule.flatMap fun meanwhile => meanwhile.before ++ meanwhile.during

/-- `TieredPageSource` over a store that others move: a fault looks up the head, then
reads that head's page. -/
def sharedPageSource : PageSource S.Error (TieredPageSource S × List (Meanwhile S)) where
  pageSize := fun s => tieredPageSource.pageSize s.1
  readPage := fun s pageNo =>
    let meanwhile := s.2.headD ⟨[], []⟩
    let found := s.1.store.movedBy meanwhile.before
    let store := found.movedBy meanwhile.during
    let after := ({ s.1 with store }, s.2.tail)
    match S.read store.cas found.head pageNo with
    | .error source => (.error (.fault pageNo source), after)
    | .ok page => (.ok page, after)

namespace TieredPageSource

/-- A read through a source whose store moves by a schedule. -/
def read (src : TieredPageSource S) (schedule : List (Meanwhile S)) (offset : UInt64)
    (buf : ByteVec) : ReadOut S.Error (TieredPageSource S × List (Meanwhile S)) :=
  serveRead sharedPageSource src.totalLen offset buf (src, schedule)

/-- Where nothing moves, the shared source is the tiered one. -/
theorem maps_shared :
    (tieredPageSource (S := S)).Maps sharedPageSource fun src => (src, []) where
  pageSize_eq := fun _ => rfl
  readPage_eq := by
    intro src pageNo
    cases hread : S.read src.store.cas src.store.head pageNo <;>
      simp only [sharedPageSource, tieredPageSource, List.headD_nil, Pager.movedBy, List.foldl_nil,
        List.tail_nil, hread]

/-- Where nothing moves, a read is a read through the tiered source. -/
theorem read_nil (src : TieredPageSource S) (offset : UInt64) (buf : ByteVec) :
    let out := serveRead tieredPageSource src.totalLen offset buf src
    src.read [] offset buf = ⟨out.result, out.buf, (out.src, [])⟩ :=
  serveRead_maps maps_shared src.totalLen offset buf src

/-- The bytes of an answered read are those of the file that a manifest's pages make up. -/
def ServedFrom (src : TieredPageSource S) (cas : S.Cas) (m : S.ManifestId) (offset : UInt64)
    (buf : ByteVec) (out : ReadOut S.Error (TieredPageSource S × List (Meanwhile S))) : Prop :=
  let size := (tieredPageSource.pageSize src).toNat
  ∀ n, out.result = .ok (.ok n) →
    n = min buf.bytes.length (src.totalLen.toNat - offset.toNat) ∧
      ∀ j < n, ∃ page, S.read cas m ((offset.toNat + j) / size) = .ok page ∧
        (offset.toNat + j) % size < page.length ∧
        out.buf[j]? = page[(offset.toNat + j) % size]?

/-- What holds throughout a read whose moves keep the pages of the head: the head has the
pages of the manifest, and the manifest has every page that a fault returned. -/
structure Steady (m : S.ManifestId)
    (st : (TieredPageSource S × List (Meanwhile S)) × List (ℕ × Bytes)) : Prop where
  moves : st.1.1.store.AllKeepPages (scheduled st.1.2)
  head : SamePages st.1.1.store.cas st.1.1.store.head m
  log : ∀ entry ∈ st.2, S.read st.1.1.store.cas m entry.1 = .ok entry.2

/-- Every fault leaves the source steady. -/
theorem Steady.fault (hS : S.Laws) {m : S.ManifestId}
    {st : (TieredPageSource S × List (Meanwhile S)) × List (ℕ × Bytes)} (h : Steady m st)
    (pageNo : ℕ) : Steady m (sharedPageSource.recorded.readPage st pageNo).2 := by
  obtain ⟨⟨src, schedule⟩, log⟩ := st
  set meanwhile := schedule.headD ⟨[], []⟩ with hmeanwhile
  set found := src.store.movedBy meanwhile.before with hfound
  set store := found.movedBy meanwhile.during with hstore
  have hmoves : src.store.AllKeepPages meanwhile.before ∧ found.AllKeepPages meanwhile.during ∧
      store.AllKeepPages (scheduled schedule.tail) := by
    have hmoves := h.moves
    cases schedule with
    | nil => exact ⟨trivial, trivial, trivial⟩
    | cons first rest =>
      simp only [scheduled, List.flatMap_cons, List.append_assoc, Pager.allKeepPages_append]
        at hmoves
      exact hmoves
  obtain ⟨hbefore, hduring, hrest⟩ := hmoves
  have hgrows : S.Grows src.store.cas found.cas := (src.store.movedBy_grows hS _).1
  have hgrows' : S.Grows found.cas store.cas := (found.movedBy_grows hS _).1
  have hfoundHead : SamePages store.cas found.head m :=
    (((hbefore.samePages hS).trans (h.head.grows hgrows))).grows hgrows'
  have hstoreHead : SamePages store.cas store.head m := (hduring.samePages hS).trans hfoundHead
  have hlog : ∀ entry ∈ log, S.read store.cas m entry.1 = .ok entry.2 := fun entry hentry =>
    hS.read_grows (hgrows.trans hgrows') (h.log entry hentry)
  rw [recorded_readPage]
  simp only [sharedPageSource, ← hmeanwhile, ← hfound, ← hstore]
  cases hread : S.read store.cas found.head pageNo with
  | error e => exact ⟨hrest, hstoreHead, hlog⟩
  | ok page =>
    refine ⟨hrest, hstoreHead, fun entry hentry => ?_⟩
    rcases List.mem_append.mp hentry with hold | hnew
    · exact hlog entry hold
    · rw [List.mem_singleton.mp hnew]
      exact hfoundHead.read hS.toContentAddressed hread

/-- A read whose moves keep the pages of the head is served from one manifest. -/
theorem servedFrom_of_keepPages (hS : S.Laws) {src : TieredPageSource S}
    {schedule : List (Meanwhile S)} (hmoves : src.store.AllKeepPages (scheduled schedule))
    {m : S.ManifestId} (hhead : SamePages src.store.cas src.store.head m) (offset : UInt64)
    (buf : ByteVec) :
    let out := src.read schedule offset buf
    src.ServedFrom out.src.1.store.cas m offset buf out ∧
      SamePages out.src.1.store.cas out.src.1.store.head m := by
  have hsteady : Steady m (serveRead sharedPageSource.recorded src.totalLen offset buf
      ((src, schedule), [])).src :=
    serveRead_keeps (fun _ pageNo h => h.fault hS pageNo) src.totalLen offset buf
      ⟨hmoves, hhead, fun entry hentry => by cases hentry⟩
  have hcontract := serveRead_contract sharedPageSource src.totalLen offset buf (src, schedule)
  have hsrc : (src.read schedule offset buf).src = _ :=
    congrArg ReadOut.src hcontract.recorded
  intro out
  rw [show out.src = _ from hsrc]
  refine ⟨fun n hn => ?_, hsteady.head⟩
  obtain ⟨hcount, -, hbytes, -⟩ := hcontract.served n hn
  refine ⟨hcount, fun j hj => ?_⟩
  obtain ⟨page, hmem, hreach, hbyte⟩ := hbytes j hj
  exact ⟨page, hsteady.log _ hmem, hreach, hbyte⟩

/-- The bytes that an answered read served are there in a store that has gone on. -/
theorem ServedFrom.grows (hS : S.ContentAddressed) {src : TieredPageSource S} {cas cas' : S.Cas}
    {m : S.ManifestId} {offset : UInt64} {buf : ByteVec}
    {out : ReadOut S.Error (TieredPageSource S × List (Meanwhile S))}
    (h : src.ServedFrom cas m offset buf out) (hgrows : S.Grows cas cas') :
    src.ServedFrom cas' m offset buf out := by
  intro n hn
  obtain ⟨hcount, hbytes⟩ := h n hn
  refine ⟨hcount, fun j hj => ?_⟩
  obtain ⟨page, hread, hrest⟩ := hbytes j hj
  exact ⟨page, hS.read_grows hgrows hread, hrest⟩

end TieredPageSource

/-- What happens to a source: a move of its store, or a read with the moves around its
faults. -/
inductive SourceEvent (S : Substrate) where
  | move (move : StoreMove S)
  | read (schedule : List (Meanwhile S)) (offset : UInt64) (buf : ByteVec)

/-- The moves of an event, in order. -/
def SourceEvent.moves : SourceEvent S → List (StoreMove S)
  | .move storeMove => [storeMove]
  | .read schedule _ _ => scheduled schedule

namespace TieredPageSource

/-- One event, with what a read gives. -/
def step (src : TieredPageSource S) : SourceEvent S →
    Option (ReadOut S.Error (TieredPageSource S × List (Meanwhile S))) × TieredPageSource S
  | .move move => (none, { src with store := src.store.moved move })
  | .read schedule offset buf =>
    let out := src.read schedule offset buf
    (some out, out.src.1)

/-- No move of the event changes the pages of the head. -/
def KeepsPages (src : TieredPageSource S) (event : SourceEvent S) : Prop :=
  src.store.AllKeepPages event.moves

/-- A source that went on: it lost nothing, and has its page size and its length. -/
structure Onward (src src' : TieredPageSource S) : Prop where
  grows : S.Grows src.store.cas src'.store.cas
  pageSize_eq : src'.store.pageSize = src.store.pageSize
  totalLen_eq : src'.totalLen = src.totalLen

/-- Going on composes. -/
theorem Onward.trans {src src' src'' : TieredPageSource S} (h : src.Onward src')
    (h' : src'.Onward src'') : src.Onward src'' :=
  ⟨h.grows.trans h'.grows, h'.pageSize_eq.trans h.pageSize_eq,
    h'.totalLen_eq.trans h.totalLen_eq⟩

/-- A source whose store was moved went on. -/
theorem onward_movedBy (hS : S.Laws) (src : TieredPageSource S) (moves : List (StoreMove S)) :
    src.Onward { src with store := src.store.movedBy moves } := by
  obtain ⟨hgrows, hsize⟩ := src.store.movedBy_grows hS moves
  exact ⟨hgrows, hsize, rfl⟩

/-- A read goes on. -/
theorem onward_read (hS : S.Laws) (src : TieredPageSource S) (schedule : List (Meanwhile S))
    (offset : UInt64) (buf : ByteVec) : src.Onward (src.read schedule offset buf).src.1 := by
  have hfault : ∀ (st : TieredPageSource S × List (Meanwhile S)) pageNo, src.Onward st.1 →
      src.Onward (sharedPageSource.readPage st pageNo).2.1 := by
    intro st pageNo h
    have hbefore := h.trans (onward_movedBy hS st.1 (st.2.headD ⟨[], []⟩).before)
    have hduring := hbefore.trans (onward_movedBy hS _ (st.2.headD ⟨[], []⟩).during)
    simp only [sharedPageSource]
    split <;> exact hduring
  exact serveRead_keeps hfault src.totalLen offset buf ⟨.refl _, rfl, rfl⟩

/-- Every event goes on. -/
theorem onward_step (hS : S.Laws) (src : TieredPageSource S) (event : SourceEvent S) :
    src.Onward (src.step event).2 := by
  cases event with
  | move move => exact onward_movedBy hS src [move]
  | read schedule offset buf => exact onward_read hS src schedule offset buf

/-- Every run goes on. -/
theorem onward_run (hS : S.Laws) (src : TieredPageSource S) (events : List (SourceEvent S)) :
    src.Onward (run step src events).2 := by
  have hstep : ∀ (src' : TieredPageSource S) event, src.Onward src' →
      src.Onward (src'.step event).2 := fun src' event h => h.trans (onward_step hS src' event)
  exact run_keeps hstep events ⟨.refl _, rfl, rfl⟩

/-- An event whose moves keep the pages of the head leaves it those of a manifest. -/
theorem samePages_step (hS : S.Laws) {m : S.ManifestId} {src : TieredPageSource S}
    {event : SourceEvent S} (hmoves : src.KeepsPages event)
    (h : SamePages src.store.cas src.store.head m) :
    SamePages (src.step event).2.store.cas (src.step event).2.store.head m := by
  cases event with
  | move move =>
    have hgrows := (src.store.moved_grows hS move).1
    exact (hmoves.1.samePages hS).trans (h.grows hgrows)
  | read schedule offset buf => exact (servedFrom_of_keepPages hS hmoves h offset buf).2

/-- **One file while the pages of the head are kept.** A read during which no commit and no
rewind changes the pages of the head serves the bytes of that head, whatever else happens
around it. If none does so in the whole run, every read serves the bytes of the one file
that the source was made over. -/
theorem one_file_of_keepPages (hS : S.Laws) (src : TieredPageSource S)
    (before : List (SourceEvent S)) (schedule : List (Meanwhile S)) (offset : UInt64)
    (buf : ByteVec) (after : List (SourceEvent S)) :
    let events := before ++ .read schedule offset buf :: after
    let final := (run step src events).2
    let found := (run step src before).2
    let out := found.read schedule offset buf
    (run step src events).1[before.length]? = some (some out) ∧
      (found.store.AllKeepPages (scheduled schedule) →
        found.ServedFrom final.store.cas found.store.head offset buf out) ∧
      (Along step KeepsPages src events →
        src.ServedFrom final.store.cas src.store.head offset buf out) := by
  intro events final found out
  have hrun : run step src events = ((run step src before).1 ++ (some out) ::
      (run step out.src.1 after).1, (run step out.src.1 after).2) := run_append _ _ _ _
  have hgrows : S.Grows out.src.1.store.cas final.store.cas := by
    change S.Grows _ (run step src events).2.store.cas
    rw [hrun]
    exact (onward_run hS out.src.1 after).grows
  refine ⟨?_, fun hmoves => ?_, fun halong => ?_⟩
  · rw [hrun, ← length_run step src before, List.getElem?_append_right le_rfl, Nat.sub_self,
      List.getElem?_cons_zero]
  · exact (servedFrom_of_keepPages hS hmoves (.inl rfl) offset buf).1.grows
      hS.toContentAddressed hgrows
  · obtain ⟨hbefore, hread, -⟩ := along_append.mp halong
    have hstep : ∀ (src' : TieredPageSource S) event, src'.KeepsPages event →
        SamePages src'.store.cas src'.store.head src.store.head →
        SamePages (src'.step event).2.store.cas (src'.step event).2.store.head src.store.head :=
      fun _ _ hmoves h => samePages_step hS hmoves h
    have hhead := run_invariant_along hstep hbefore (.inl rfl)
    have hserved := (servedFrom_of_keepPages hS hread hhead offset buf).1.grows
      hS.toContentAddressed hgrows
    have honward := onward_run hS src before
    simp only [ServedFrom, tieredPageSource] at hserved ⊢
    rwa [honward.pageSize_eq, honward.totalLen_eq] at hserved

/-- A source over two pages of two bytes. -/
def twoPages : TieredPageSource (memory []) :=
  let head : Memory.ManifestId := [⟨[(0, some [1, 1]), (1, some [2, 2])], 0⟩]
  ⟨⟨⟨[[1, 1], [2, 2]], [head]⟩, head, 2⟩, 4⟩

/-- A buffer of four bytes. -/
def fourZeros : ByteVec := ⟨[0, 0, 0, 0], by decide⟩

/-- A staged page, a rewind to the same head between two faults and a refused commit keep
the file of a source. -/
theorem one_file_of_keepPages_quiet :
    let schedule : List (Meanwhile (memory [])) := [⟨[], [.rewind .none twoPages.store.head]⟩]
    let before : List (SourceEvent (memory [])) :=
      [.move (.write .none (∅ : Changes Bytes) 0 [3, 3])]
    let after : List (SourceEvent (memory [])) :=
      [.move (.commit (fun _ => some Memory.Error.refused) (∅ : Changes Bytes) 9)]
    let found := (run step twoPages before).2
    let out := found.read schedule 0 fourZeros
    (out.result = .ok (.ok 4) ∧ out.buf = [1, 1, 2, 2]) ∧
      twoPages.ServedFrom
        (run step twoPages (before ++ .read schedule 0 fourZeros :: after)).2.store.cas
        twoPages.store.head 0 fourZeros out := by
  refine ⟨⟨rfl, by decide⟩, ?_⟩
  obtain ⟨-, -, hserved⟩ := one_file_of_keepPages (Memory.laws []) twoPages
    [.move (.write .none (∅ : Changes Bytes) 0 [3, 3])]
    [⟨[], [.rewind .none twoPages.store.head]⟩] 0 fourZeros
    [.move (.commit (fun _ => some Memory.Error.refused) (∅ : Changes Bytes) 9)]
  exact hserved ⟨⟨trivial, trivial⟩, ⟨.inr (.inl rfl), trivial⟩, ⟨.inl nofun, trivial⟩, trivial⟩

/-- A commit that writes both pages anew. -/
def rewrite : List (StoreMove (memory [])) :=
  let first : Changes Bytes := (∅ : Changes Bytes).insert 0 (some [3, 3])
  [.write .none (∅ : Changes Bytes) 0 [3, 3], .write .none first 1 [4, 4],
    .commit .none (first.insert 1 (some [4, 4])) 5]

/-- A commit between the two faults of a read mixes two manifests, and two reads around it
differ, though every one of them is answered. -/
theorem rewrite_mixes :
    let mixed := twoPages.read [⟨[], []⟩, ⟨rewrite, []⟩] 0 fourZeros
    let after : TieredPageSource (memory []) :=
      { twoPages with store := twoPages.store.movedBy rewrite }
    mixed.result = .ok (.ok 4) ∧ mixed.buf = [1, 1, 4, 4] ∧
      (¬∃ m, twoPages.ServedFrom mixed.src.1.store.cas m 0 fourZeros mixed) ∧
      (twoPages.read [] 0 fourZeros).result = .ok (.ok 4) ∧
      (twoPages.read [] 0 fourZeros).buf = [1, 1, 2, 2] ∧
      (after.read [] 0 fourZeros).result = .ok (.ok 4) ∧
      (after.read [] 0 fourZeros).buf = [3, 3, 4, 4] := by
  refine ⟨rfl, by decide, ?_, rfl, by decide, rfl, by decide⟩
  rintro ⟨m, hserved⟩
  obtain ⟨-, hbytes⟩ := hserved 4 rfl
  obtain ⟨page, hread, -, hbyte⟩ := hbytes 0 (by decide)
  obtain ⟨page', hread', -, hbyte'⟩ := hbytes 2 (by decide)
  obtain ⟨pages, -, hresolve, -⟩ := Memory.read_ok_iff.mp hread
  -- the store resolves the empty root, the old head and the new one
  have hm : m = [] ∨ m ∈ [(twoPages.store.movedBy rewrite).head, twoPages.store.head] := by
    by_contra hm
    have hmissing : Memory.resolve (twoPages.store.movedBy rewrite).cas m = .error .missing :=
      if_neg hm
    cases hresolve.symm.trans hmissing
  simp only [List.mem_cons, List.not_mem_nil, or_false] at hm
  rcases hm with rfl | rfl | rfl
  · cases hread
  · cases hread
    exact absurd hbyte (by decide)
  · cases hread'
    exact absurd hbyte' (by decide)

end TieredPageSource

end FlockDb
