import FlockDb.Kernel.RoundTrip

/-!
# What a checkpoint commits

Forks share pages because a checkpoint commits the difference between the head and the file
and nothing else. The difference is taken page by page, so an old head with holes, a longer
file or a shorter one are no special cases.
-/

namespace FlockDb

variable {S : Substrate} {σ D : Type}

/-- The changes that turn some pages into others: the pages that differ, and no more. -/
def Contents.difference (old new : Contents) : Edits := fun p =>
  if old p = new p then none else some (new p)

/-- Pages do not differ from themselves. -/
theorem Contents.difference_self (contents : Contents) :
    contents.difference contents = fun _ => none := by
  funext p
  rw [Contents.difference, if_pos rfl]

/-- A page is written exactly if the new pages have it and the old ones lack it or differ. -/
theorem Contents.difference_write_iff {old new : Contents} {p : PageNo} {bytes : Bytes} :
    old.difference new p = some (some bytes) ↔ new p = some bytes ∧ old p ≠ some bytes := by
  rw [Contents.difference]
  by_cases hsame : old p = new p
  · rw [if_pos hsame, hsame]
    simp
  · rw [if_neg hsame, Option.some.injEq]
    exact ⟨fun h => ⟨h, fun hold => hsame (hold.trans h.symm)⟩, fun h => h.1⟩

/-- A page is removed exactly if the old pages have it and the new ones do not. -/
theorem Contents.difference_remove_iff {old new : Contents} {p : PageNo} :
    old.difference new p = some none ↔ new p = none ∧ (old p).isSome := by
  rw [Contents.difference, Option.isSome_iff_ne_none]
  by_cases hsame : old p = new p
  · rw [if_pos hsame, hsame]
    simp
  · rw [if_neg hsame, Option.some.injEq]
    exact ⟨fun h => ⟨h, fun hold => hsame (hold.trans h.symm)⟩, fun h => h.1⟩

namespace PageStore

/-- A page store that shares what a commit leaves alone: nothing it had is lost, a page without
a change keeps its name, one name reads the same under every manifest, and a transaction
without changes returns the head. -/
structure Shares (ps : PageStore S σ) (Holding : σ → S.Txn → Edits → Prop) : Prop
    extends ps.Applies Holding where
  commit_resolve : ∀ {st txn m}, (ps.commit st txn).1 = .ok m → ∀ {m' pages},
    ps.resolve st m' = .ok pages → ps.resolve (ps.commit st txn).2 m' = .ok pages
  commit_read : ∀ {st txn m}, (ps.commit st txn).1 = .ok m → ∀ {m' p bytes},
    ps.read st m' p = .ok bytes → ps.read (ps.commit st txn).2 m' p = .ok bytes
  commit_empty : ∀ {st txn m}, Holding st txn (fun _ => none) →
    (ps.commit st txn).1 = .ok m → m = ps.head st
  commit_untouched : ∀ {st txn edits pages pages' m}, Holding st txn edits →
    ps.resolve st (ps.head st) = .ok pages → (ps.commit st txn).1 = .ok m →
    ps.resolve (ps.commit st txn).2 m = .ok pages' → ∀ {p}, edits p = none →
    pages'[p]? = pages[p]?
  read_congr : ∀ {st m m' pages pages'}, ps.resolve st m = .ok pages →
    ps.resolve st m' = .ok pages' → ∀ {p bytes}, pages[p]? = pages'[p]? →
    ps.read st m p = .ok bytes → ps.read st m' p = .ok bytes

/-- Every change of a transaction was made by a call that went through. -/
structure Made (ps : PageStore S σ) (edits : Edits) : Prop where
  write : ∀ p bytes, edits p = some (some bytes) →
    ∃ st txn result, (ps.write st txn p bytes).1 = .ok result
  remove : ∀ p, edits p = some none → ∃ st txn txn', ps.remove st txn p = .ok txn'

variable {ps : PageStore S σ} {Holding : σ → S.Txn → Edits → Prop}

/-- A page store also keeps track of which calls made the changes. -/
theorem Shares.made (hps : ps.Shares Holding) :
    ps.Shares fun st txn edits => Holding st txn edits ∧ ps.Made edits where
  begin := by
    intro st txn hbegin
    refine ⟨hps.begin hbegin, ?_, ?_⟩
    · intro p bytes hp
      cases hp
    · intro p hp
      cases hp
  write := by
    rintro st txn edits ⟨hholding, hmade⟩ p bytes
    obtain ⟨hundisturbed, hok⟩ := hps.write hholding p bytes
    refine ⟨hundisturbed, fun id txn' hwrite => ⟨hok id txn' hwrite, ?_, ?_⟩⟩
    · intro q bytes' hq
      by_cases hqp : q = p
      · subst hqp
        rw [Function.update_self] at hq
        obtain rfl : bytes = bytes' := by simpa using hq
        exact ⟨st, txn, _, hwrite⟩
      · rw [Function.update_of_ne hqp] at hq
        exact hmade.write q bytes' hq
    · intro q hq
      by_cases hqp : q = p
      · subst hqp
        rw [Function.update_self] at hq
        cases hq
      · rw [Function.update_of_ne hqp] at hq
        exact hmade.remove q hq
  remove := by
    rintro st txn edits ⟨hholding, hmade⟩ p txn' hremove
    refine ⟨hps.remove hholding hremove, ?_, ?_⟩
    · intro q bytes hq
      by_cases hqp : q = p
      · subst hqp
        rw [Function.update_self] at hq
        cases hq
      · rw [Function.update_of_ne hqp] at hq
        exact hmade.write q bytes hq
    · intro q hq
      by_cases hqp : q = p
      · subst hqp
        exact ⟨st, txn, txn', hremove⟩
      · rw [Function.update_of_ne hqp] at hq
        exact hmade.remove q hq
  commit_error := hps.commit_error
  commit_ok := fun h => hps.commit_ok h.1
  commit_resolve := hps.commit_resolve
  commit_read := hps.commit_read
  commit_empty := fun h => hps.commit_empty h.1
  commit_untouched := fun h => hps.commit_untouched h.1
  read_congr := hps.read_congr

end PageStore

namespace Paging

open Chunks

variable {ps : PageStore S σ} {Holding : σ → S.Txn → Edits → Prop}

/-- What the chunk loop compares a chunk with: the page of the head, if there is one. -/
def existing (ps : PageStore S σ) (head : S.ManifestId) (pages : PageMap S.PageId) (st : σ)
    (p : PageNo) : Except S.Error (Option Bytes) :=
  if p ∈ pages then (ps.read st head p).map some else .ok none

/-- What an undisturbed handle compares a chunk with stays the same. -/
theorem existing_undisturbed {head : S.ManifestId} {pages : PageMap S.PageId} {st st' : σ}
    (h : ps.Undisturbed st st') {p : PageNo} {page : Option Bytes}
    (hpage : existing ps head pages st p = .ok page) :
    existing ps head pages st' p = .ok page := by
  unfold existing at hpage ⊢
  by_cases hp : p ∈ pages
  · rw [if_pos hp] at hpage ⊢
    cases hread : ps.read st head p with
    | error e =>
      rw [hread] at hpage
      cases hpage
    | ok bytes =>
      rw [hread] at hpage
      rwa [h.read hread]
  · rwa [if_neg hp] at hpage ⊢

/-- What the chunk loop adds: a write of the chunk, unless the head has it there. -/
def writeEdit (old : Contents) (edits : Edits) (page : Bytes × PageNo) : Edits :=
  if old page.2 = some page.1 then edits
  else Function.update edits page.2 (some (some page.1))

/-- The chunk loop leaves the other pages as they were. -/
theorem writeEdit_of_ne (old : Contents) (edits : Edits) {page : Bytes × PageNo} {p : PageNo}
    (hp : p ≠ page.2) : writeEdit old edits page p = edits p := by
  unfold writeEdit
  by_cases hsame : old page.2 = some page.1
  · rw [if_pos hsame]
  · rw [if_neg hsame, Function.update_of_ne hp]

/-- The chunk loop writes the chunks that differ and no others. -/
theorem foldl_writeEdit (old : Contents) (chunks : List Bytes) (first : ℕ) (edits : Edits)
    (p : ℕ) :
    (chunks.zipIdx first).foldl (writeEdit old) edits p =
      if first ≤ p then
        match chunks[p - first]? with
        | some chunk => if old p = some chunk then edits p else some (some chunk)
        | none => edits p
      else edits p := by
  induction chunks generalizing first edits with
  | nil => simp
  | cons bytes chunks ih =>
    rw [List.zipIdx_cons, List.foldl_cons, ih]
    rcases Nat.lt_trichotomy p first with hlt | rfl | hgt
    · rw [if_neg (by omega), if_neg (by omega), writeEdit_of_ne old edits (Nat.ne_of_lt hlt)]
    · rw [if_neg (by omega), if_pos le_rfl, Nat.sub_self, List.getElem?_cons_zero]
      by_cases hsame : old p = some bytes
      · simp [writeEdit, hsame]
      · simp [writeEdit, hsame]
    · have hnext : p - first = (p - (first + 1)) + 1 := by omega
      rw [if_pos (by omega), if_pos (by omega), hnext, List.getElem?_cons_succ,
        writeEdit_of_ne old edits (Nat.ne_of_gt hgt)]

/-- What both loops add to an empty transaction is the difference. -/
theorem foldl_edits_eq {old : Contents} {pages : PageMap S.PageId}
    (hmem : ∀ p, p ∈ pages ↔ (old p).isSome) (chunks : List Bytes) :
    (pages.keys.filter fun n => chunks.length ≤ n).foldl removeEdit
        (chunks.zipIdx.foldl (writeEdit old) fun _ => none) =
      old.difference fun p => chunks[p]? := by
  funext p
  have hfilter : p ∈ (pages.keys.filter fun n => chunks.length ≤ n) ↔
      (old p).isSome ∧ chunks.length ≤ p := by
    rw [List.mem_filter, Std.ExtTreeMap.mem_keys, decide_eq_true_iff, hmem]
  rw [foldl_removeEdit, foldl_writeEdit, if_pos (Nat.zero_le p), Nat.sub_zero,
    Contents.difference]
  simp only [hfilter]
  cases hchunk : chunks[p]? with
  | some chunk =>
    have hlt : p < chunks.length := (List.getElem?_eq_some_iff.mp hchunk).1
    rw [if_neg fun h => absurd hlt (not_lt.mpr h.2)]
  | none =>
    have hle : chunks.length ≤ p := List.getElem?_eq_none_iff.mp hchunk
    cases hold : old p with
    | some bytes => simp [hle]
    | none => simp

/-- When the chunk loop succeeds, the transaction holds the chunks that differ and no others. -/
theorem stageChunks_edits (hps : ps.Applies Holding) {head : S.ManifestId}
    {pages : PageMap S.PageId} {old : Contents} (chunks : List (Bytes × PageNo)) {st : σ}
    {txn txn' : S.Txn} {edits : Edits}
    (hold : ∀ chunk ∈ chunks, existing ps head pages st chunk.2 = .ok (old chunk.2))
    (hholding : Holding st txn edits) {st' : σ}
    (hok : (stageChunks ps pages head chunks st txn : Except (KernelError S D) S.Txn × σ) =
      (.ok txn', st')) :
    ps.Undisturbed st st' ∧ Holding st' txn' (chunks.foldl (writeEdit old) edits) := by
  induction chunks generalizing st txn edits with
  | nil =>
    obtain ⟨rfl, rfl⟩ : txn = txn' ∧ st = st' := by simpa [stageChunks] using hok
    exact ⟨.refl st, hholding⟩
  | cons chunk chunks ih =>
    rw [List.forall_mem_cons] at hold
    have hexisting := hold.1
    rw [existing] at hexisting
    rw [List.foldl_cons, writeEdit]
    simp only [stageChunks, hexisting] at hok
    by_cases hsame : old chunk.2 = some chunk.1
    · rw [if_pos hsame] at hok ⊢
      exact ih hold.2 hholding hok
    · rw [if_neg hsame] at hok ⊢
      obtain ⟨hundisturbed, hwrite⟩ := hps.write hholding chunk.2 chunk.1
      rcases hstep : ps.write st txn chunk.2 chunk.1 with ⟨e | ⟨id, txn₁⟩, st₁⟩
      · rw [hstep] at hok
        cases hok
      · rw [hstep] at hok hundisturbed hwrite
        obtain ⟨hrest, hholding'⟩ := ih
          (fun chunk' hchunk' => existing_undisturbed hundisturbed (hold.2 chunk' hchunk'))
          (hwrite id txn₁ rfl) hok
        exact ⟨hundisturbed.trans hrest, hholding'⟩

/-- When the chunk loop succeeds, it could read what it compared the chunks with. -/
theorem stageChunks_reads (hps : ps.Applies Holding) {head : S.ManifestId}
    {pages : PageMap S.PageId} (chunks : List (Bytes × PageNo)) {st : σ} {txn txn' : S.Txn}
    {edits : Edits} (hholding : Holding st txn edits) {st' : σ}
    (hok : (stageChunks ps pages head chunks st txn : Except (KernelError S D) S.Txn × σ) =
      (.ok txn', st')) :
    ∀ chunk ∈ chunks, ∃ st₁ page, ps.Undisturbed st st₁ ∧
      existing ps head pages st₁ chunk.2 = .ok page := by
  induction chunks generalizing st txn edits with
  | nil => simp
  | cons chunk chunks ih =>
    rw [List.forall_mem_cons]
    cases hexisting : existing ps head pages st chunk.2 with
    | error e =>
      rw [existing] at hexisting
      simp only [stageChunks, hexisting] at hok
      cases hok
    | ok page =>
      refine ⟨⟨st, page, .refl st, hexisting⟩, ?_⟩
      rw [existing] at hexisting
      simp only [stageChunks, hexisting] at hok
      by_cases hsame : page = some chunk.1
      · rw [if_pos hsame] at hok
        exact ih hholding hok
      · rw [if_neg hsame] at hok
        obtain ⟨hundisturbed, hwrite⟩ := hps.write hholding chunk.2 chunk.1
        rcases hstep : ps.write st txn chunk.2 chunk.1 with ⟨e | ⟨id, txn₁⟩, st₁⟩
        · rw [hstep] at hok
          cases hok
        · rw [hstep] at hok hundisturbed hwrite
          intro chunk' hchunk'
          obtain ⟨st₂, page', hundisturbed', hpage'⟩ := ih (hwrite id txn₁ rfl) hok chunk' hchunk'
          exact ⟨st₂, page', hundisturbed.trans hundisturbed', hpage'⟩

/-- A checkpoint that succeeds went through its two loops and its commit. -/
theorem persist_ok {st st' : σ} {path : String} {file : ByteVec} {pages : PageMap S.PageId}
    {m : S.ManifestId} (hresolve : ps.resolve st (ps.head st) = .ok pages)
    (hok : (persist ps st path (.ok file) : Except (KernelError S D) S.ManifestId × σ) =
      (.ok m, st')) :
    ∃ txn txn₁ st₁ txn₂, ps.begin st = .ok txn ∧
      (stageChunks ps pages (ps.head st) (chunks (ps.pageSize st) file.bytes).zipIdx st txn :
        Except (KernelError S D) S.Txn × σ) = (.ok txn₁, st₁) ∧
      (stageRemovals ps st₁ (pages.keys.filter fun n =>
        (chunks (ps.pageSize st) file.bytes).length ≤ n) txn₁ :
        Except (KernelError S D) S.Txn) = .ok txn₂ ∧
      ps.commit st₁ txn₂ = (.ok m, st') := by
  simp only [persist, hresolve] at hok
  cases hbegin : ps.begin st with
  | error e =>
    rw [hbegin] at hok
    cases hok
  | ok txn =>
    simp only [hbegin] at hok
    rcases hstage : (stageChunks ps pages (ps.head st)
        (chunks (ps.pageSize st) file.bytes).zipIdx st txn :
        Except (KernelError S D) S.Txn × σ) with ⟨e | txn₁, st₁⟩
    · rw [hstage] at hok
      cases hok
    · simp only [hstage] at hok
      cases hremove : (stageRemovals ps st₁ (pages.keys.filter fun n =>
          (chunks (ps.pageSize st) file.bytes).length ≤ n) txn₁ :
          Except (KernelError S D) S.Txn) with
      | error e =>
        rw [hremove] at hok
        cases hok
      | ok txn₂ =>
        simp only [hremove] at hok
        refine ⟨txn, txn₁, st₁, txn₂, rfl, hstage, hremove, ?_⟩
        rcases hcommit : ps.commit st₁ txn₂ with ⟨e | m', st₂⟩
        · rw [hcommit] at hok
          cases hok
        · rw [hcommit] at hok
          obtain ⟨rfl, rfl⟩ : m' = m ∧ st₂ = st' := by simpa using hok
          rfl

/-- What a checkpoint compares a file of some pages with: which pages the head has, and what
those below the new end read as. -/
structure Compared (ps : PageStore S σ) (st : σ) (pages : PageMap S.PageId) (old : Contents)
    (count : ℕ) : Prop where
  resolve : ps.resolve st (ps.head st) = .ok pages
  mem_iff : ∀ p, p ∈ pages ↔ (old p).isSome
  read : ∀ p < count, ∀ bytes, old p = some bytes → ps.read st (ps.head st) p = .ok bytes

/-- The pages that a handle reads at its head are what a checkpoint compares with. -/
theorem Compared.of_reads {st : σ} {old : Contents} (h : ps.Reads st (ps.head st) old)
    (count : ℕ) : ∃ pages, Compared ps st pages old count := by
  obtain ⟨pages, hresolve, hpages⟩ := h
  exact ⟨pages, hresolve, fun p => (hpages p).1, fun p _ => (hpages p).2⟩

/-- The number of pages of a file. -/
def pageCount (size : ℕ) (file : ByteVec) : ℕ := (chunks size file.bytes).length

/-- A page of a file is below its end. -/
theorem lt_pageCount {size : ℕ} {file : ByteVec} {p : PageNo} {bytes : Bytes}
    (h : chunkMap size file p = some bytes) : p < pageCount size file :=
  (List.getElem?_eq_some_iff.mp h).1

/-- A checkpoint commits the difference between the head and the file. -/
theorem persist_commits (hps : ps.Applies Holding) {st st' : σ} {path : String} {file : ByteVec}
    {pages : PageMap S.PageId} {old : Contents} {m : S.ManifestId}
    (hold : Compared ps st pages old (pageCount (ps.pageSize st) file))
    (hok : (persist ps st path (.ok file) : Except (KernelError S D) S.ManifestId × σ) =
      (.ok m, st')) :
    ∃ st₁ txn, ps.Undisturbed st st₁ ∧
      Holding st₁ txn (old.difference (chunkMap (ps.pageSize st) file)) ∧
      ps.commit st₁ txn = (.ok m, st') := by
  obtain ⟨txn, txn₁, st₁, txn₂, hbegin, hstage, hremove, hcommit⟩ := persist_ok hold.resolve hok
  have hexisting : ∀ chunk ∈ (chunks (ps.pageSize st) file.bytes).zipIdx,
      existing ps (ps.head st) pages st chunk.2 = .ok (old chunk.2) := by
    intro chunk hchunk
    have hlt : chunk.2 < pageCount (ps.pageSize st) file := by
      have hindex := (List.mem_zipIdx hchunk).2.1
      rwa [Nat.zero_add] at hindex
    rw [existing]
    cases hp : old chunk.2 with
    | none => rw [if_neg (by simp [hold.mem_iff, hp])]
    | some bytes =>
      rw [if_pos (by simp [hold.mem_iff, hp]), hold.read _ hlt bytes hp]
      rfl
  obtain ⟨hundisturbed, hholding⟩ := stageChunks_edits hps _ hexisting (hps.begin hbegin) hstage
  have hall := stageRemovals_spec hps _ hholding hremove
  rw [foldl_edits_eq hold.mem_iff] at hall
  exact ⟨st₁, txn₂, hundisturbed, hall, hcommit⟩

/-- A checkpoint loses nothing the handle could read. -/
theorem persist_keeps (hps : ps.Shares Holding) {st st' : σ} {path : String} {file : ByteVec}
    {pages : PageMap S.PageId} {old : Contents} {m : S.ManifestId}
    (hold : Compared ps st pages old (pageCount (ps.pageSize st) file))
    (hok : (persist ps st path (.ok file) : Except (KernelError S D) S.ManifestId × σ) =
      (.ok m, st')) :
    ps.resolve st' (ps.head st) = .ok pages ∧
      ∀ p < pageCount (ps.pageSize st) file, ∀ bytes, old p = some bytes →
        ps.read st' (ps.head st) p = .ok bytes := by
  obtain ⟨st₁, txn, hundisturbed, -, hcommit⟩ := persist_commits hps.toApplies hold hok
  obtain rfl : (ps.commit st₁ txn).2 = st' := congrArg Prod.snd hcommit
  have hfirst : (ps.commit st₁ txn).1 = .ok m := congrArg Prod.fst hcommit
  exact ⟨hps.commit_resolve hfirst (hundisturbed.resolve hold.resolve), fun p hp bytes hbytes =>
    hps.commit_read hfirst (hundisturbed.read (hold.read p hp bytes hbytes))⟩

/-- A checkpoint that succeeds leaves the pages of the file at its head. -/
theorem persist_reads (hps : ps.Applies Holding) {st st' : σ} {path : String} {file : ByteVec}
    {m : S.ManifestId}
    (hok : (persist ps st path (.ok file) : Except (KernelError S D) S.ManifestId × σ) =
      (.ok m, st')) :
    ps.head st' = m ∧ ps.pageSize st' = ps.pageSize st ∧
      ps.Reads st' m (chunkMap (ps.pageSize st) file) := by
  rcases persist_spec hps st path file hok with ⟨e, herror, -⟩ | ⟨m', hm', hhead, hsize, hreads⟩
  · cases herror
  · obtain rfl := Except.ok.inj hm'
    exact ⟨hhead, hsize, hreads⟩

/-- Pages that are there in both and read the same where the file has them are the same. -/
theorem old_eq_of_reads {size : ℕ} {file : ByteVec} {pages : PageMap S.PageId} {old : Contents}
    {st : σ} {m : S.ManifestId} (hreads : ps.Reads st m (chunkMap size file)) {p : PageNo}
    (hmem : p ∈ pages ↔ (old p).isSome) {pages' : PageMap S.PageId}
    (hresolve : ps.resolve st m = .ok pages') (hsame : p ∈ pages' ↔ p ∈ pages)
    (hread : p < pageCount size file → ∀ bytes, old p = some bytes → ps.read st m p = .ok bytes) :
    old p = chunkMap size file p := by
  obtain ⟨pages'', hresolve', hpages⟩ := hreads
  obtain rfl : pages' = pages'' := Except.ok.inj (hresolve.symm.trans hresolve')
  have hboth : (old p).isSome ↔ (chunkMap size file p).isSome :=
    hmem.symm.trans (hsame.symm.trans (hpages p).1)
  cases hchunk : chunkMap size file p with
  | none =>
    rw [hchunk] at hboth
    simpa using hboth
  | some chunk =>
    rw [hchunk] at hboth
    obtain ⟨bytes, hbytes⟩ := Option.isSome_iff_exists.mp (hboth.mpr rfl)
    have hthis := hread (lt_pageCount hchunk) bytes hbytes
    rw [(hpages p).2 chunk hchunk] at hthis
    rw [hbytes, Except.ok.inj hthis]

/-- A checkpoint returns the head it found exactly if the head has the pages of the file. -/
theorem persist_head_iff (hps : ps.Shares Holding) {st st' : σ} {path : String} {file : ByteVec}
    {pages : PageMap S.PageId} {old : Contents} {m : S.ManifestId}
    (hold : Compared ps st pages old (pageCount (ps.pageSize st) file))
    (hok : (persist ps st path (.ok file) : Except (KernelError S D) S.ManifestId × σ) =
      (.ok m, st')) :
    m = ps.head st ↔ old = chunkMap (ps.pageSize st) file := by
  constructor
  · rintro rfl
    obtain ⟨hresolve, hread⟩ := persist_keeps hps hold hok
    obtain ⟨-, -, hreads⟩ := persist_reads hps.toApplies hok
    funext p
    exact old_eq_of_reads hreads (hold.mem_iff p) hresolve Iff.rfl (hread p)
  · rintro rfl
    obtain ⟨st₁, txn, hundisturbed, hholding, hcommit⟩ := persist_commits hps.toApplies hold hok
    rw [Contents.difference_self] at hholding
    rw [← hundisturbed.head]
    exact hps.commit_empty hholding (congrArg Prod.fst hcommit)

/-- The names that a checkpoint changes are those of the pages that differ. -/
theorem persist_diff_iff (hps : ps.Shares Holding) {st st' : σ} {path : String} {file : ByteVec}
    {pages pages' : PageMap S.PageId} {old : Contents} {m : S.ManifestId}
    (hold : Compared ps st pages old (pageCount (ps.pageSize st) file))
    (hok : (persist ps st path (.ok file) : Except (KernelError S D) S.ManifestId × σ) =
      (.ok m, st')) (hresolve' : ps.resolve st' m = .ok pages') (p : PageNo) :
    pages'[p]? ≠ pages[p]? ↔ old p ≠ chunkMap (ps.pageSize st) file p := by
  refine not_congr ⟨fun hsame => ?_, fun hsame => ?_⟩
  · obtain ⟨hresolve, hread⟩ := persist_keeps hps hold hok
    obtain ⟨-, -, hreads⟩ := persist_reads hps.toApplies hok
    have hmem : p ∈ pages' ↔ p ∈ pages := by
      rw [Std.ExtTreeMap.mem_iff_isSome_getElem?, hsame, ← Std.ExtTreeMap.mem_iff_isSome_getElem?]
    exact old_eq_of_reads hreads (hold.mem_iff p) hresolve' hmem fun hlt bytes hbytes =>
      hps.read_congr hresolve hresolve' hsame.symm (hread p hlt bytes hbytes)
  · obtain ⟨st₁, txn, hundisturbed, hholding, hcommit⟩ := persist_commits hps.toApplies hold hok
    obtain rfl : (ps.commit st₁ txn).2 = st' := congrArg Prod.snd hcommit
    have hresolve₁ : ps.resolve st₁ (ps.head st₁) = .ok pages := by
      rw [hundisturbed.head]
      exact hundisturbed.resolve hold.resolve
    refine hps.commit_untouched hholding hresolve₁ (congrArg Prod.fst hcommit) hresolve' ?_
    rw [Contents.difference, if_pos hsame]

/-- What a checkpoint that succeeds does to a handle: one commit of the difference between the
head and the file, all of whose changes went through. It returns the head itself exactly if the
file is what the head has, and the names it changes are those of the pages that differ. -/
structure CommitsDifference (ps : PageStore S σ) (Holding : σ → S.Txn → Edits → Prop) (st : σ)
    (pages : PageMap S.PageId) (old new : Contents) (m : S.ManifestId) (st' : σ) : Prop where
  commits : ∃ st₁ txn, ps.Undisturbed st st₁ ∧ Holding st₁ txn (old.difference new) ∧
    ps.commit st₁ txn = (.ok m, st')
  made : ps.Made (old.difference new)
  head_iff : m = ps.head st ↔ old = new
  diff_iff : ∀ {pages'}, ps.resolve st' m = .ok pages' →
    ∀ p, pages'[p]? ≠ pages[p]? ↔ old p ≠ new p

/-- A checkpoint that succeeds commits the difference. -/
theorem commitsDifference_of_ok (hps : ps.Shares Holding) {st st' : σ} {path : String}
    {file : ByteVec} {pages : PageMap S.PageId} {old : Contents} {m : S.ManifestId}
    (hold : Compared ps st pages old (pageCount (ps.pageSize st) file))
    (hok : (persist ps st path (.ok file) : Except (KernelError S D) S.ManifestId × σ) =
      (.ok m, st')) :
    CommitsDifference ps Holding st pages old (chunkMap (ps.pageSize st) file) m st' where
  commits := persist_commits hps.toApplies hold hok
  made := by
    obtain ⟨-, -, -, ⟨-, hmade⟩, -⟩ := persist_commits hps.made.toApplies hold hok
    exact hmade
  head_iff := persist_head_iff hps hold hok
  diff_iff := persist_diff_iff hps hold hok

/-- A checkpoint of a file that is the head already returns the head, if it succeeds. -/
theorem persist_again (hps : ps.Shares Holding) {st st' : σ} {path : String} {file : ByteVec}
    {m : S.ManifestId} (hhead : ps.head st = m)
    (hreads : ps.Reads st m (chunkMap (ps.pageSize st) file))
    (hok : (persist ps st path (.ok file) : Except (KernelError S D) S.ManifestId × σ) =
      (.ok m', st')) : m' = m := by
  subst hhead
  obtain ⟨pages, hold⟩ := Compared.of_reads hreads (pageCount (ps.pageSize st) file)
  exact (persist_head_iff hps hold hok).mpr rfl

/-- A checkpoint that succeeds could read every page it compared. -/
theorem persist_could_read (hps : ps.Applies Holding) {st st' : σ} {path : String}
    {file : ByteVec} {pages : PageMap S.PageId} {m : S.ManifestId}
    (hresolve : ps.resolve st (ps.head st) = .ok pages)
    (hok : (persist ps st path (.ok file) : Except (KernelError S D) S.ManifestId × σ) =
      (.ok m, st')) {p : PageNo} (hp : p ∈ pages) (hlt : p < pageCount (ps.pageSize st) file) :
    ∃ st₁ bytes, ps.Undisturbed st st₁ ∧ ps.read st₁ (ps.head st) p = .ok bytes := by
  obtain ⟨txn, txn₁, st₁, txn₂, hbegin, hstage, -⟩ := persist_ok hresolve hok
  obtain ⟨chunk, hchunk⟩ : ∃ chunk, (chunks (ps.pageSize st) file.bytes)[p]? = some chunk :=
    ⟨_, List.getElem?_eq_getElem hlt⟩
  have hmem : (chunk, p) ∈ (chunks (ps.pageSize st) file.bytes).zipIdx :=
    List.mem_zipIdx_iff_getElem?.mpr hchunk
  obtain ⟨st₂, page, hundisturbed, hpage⟩ :=
    stageChunks_reads hps _ (hps.begin hbegin) hstage (chunk, p) hmem
  rw [existing, if_pos hp] at hpage
  cases hread : ps.read st₂ (ps.head st) p with
  | error e =>
    rw [hread] at hpage
    cases hpage
  | ok bytes => exact ⟨st₂, bytes, hundisturbed, hread⟩

/-- **A checkpoint commits what changed and nothing else.** Whatever pages the head has, a
checkpoint that succeeds could read each page it compared and has committed the difference to
the file: a page is written exactly if it differs from its chunk or is absent, and removed
exactly if it lies past the end. The head is returned exactly if nothing differs, a second
checkpoint of the file returns it again, and the names it changes are those of the pages that
differ. A checkpoint that fails leaves the handle undisturbed at its head. -/
theorem persist_minimal (hps : ps.Shares Holding) (st : σ) (path : String) (file : ByteVec) :
    let new := chunkMap (ps.pageSize st) file
    let result : Except (KernelError S D) S.ManifestId × σ := persist ps st path (.ok file)
    (∀ m, result.1 = .ok m →
      (∀ {pages old}, Compared ps st pages old (pageCount (ps.pageSize st) file) →
        CommitsDifference ps Holding st pages old new m result.2) ∧
      (∀ {pages}, ps.resolve st (ps.head st) = .ok pages →
        ∀ p ∈ pages, p < pageCount (ps.pageSize st) file →
          ∃ st₁ bytes, ps.Undisturbed st st₁ ∧ ps.read st₁ (ps.head st) p = .ok bytes) ∧
      let again : Except (KernelError S D) S.ManifestId × σ :=
        persist ps result.2 path (.ok file)
      (∀ m', again.1 = .ok m' → m' = m) ∧ (ps.NeverFails → again.1 = .ok m)) ∧
    ∀ e, result.1 = .error e → ps.Undisturbed st result.2 := by
  intro new result
  refine ⟨fun m hm => ?_, fun e he => ?_⟩
  · have hok : (persist ps st path (.ok file) : Except (KernelError S D) S.ManifestId × σ) =
        (.ok m, result.2) := Prod.ext hm rfl
    obtain ⟨hhead, hsize, hreads⟩ := persist_reads hps.toApplies hok
    rw [← hsize] at hreads
    refine ⟨fun hold => commitsDifference_of_ok hps hold hok,
      fun hresolve p hp hlt => persist_could_read hps.toApplies hresolve hok hp hlt, ?_⟩
    intro again
    have hagain : ∀ m', again.1 = .ok m' → m' = m := by
      intro m' hm'
      have hok' : again = (.ok m', again.2) := Prod.ext hm' rfl
      exact persist_again hps hhead hreads hok'
    refine ⟨hagain, fun hnever => ?_⟩
    obtain ⟨m', hm'⟩ := persist_isOk (D := D) hps.toApplies hnever (hhead ▸ hreads) path file
    rw [← hagain m' hm']
    exact hm'
  · rcases persist_spec (D := D) hps.toApplies st path file rfl with
      ⟨-, -, hundisturbed⟩ | ⟨m, hm, -⟩
    · exact hundisturbed
    · have hm : result.1 = .ok m := hm
      rw [he] at hm
      cases hm

end Paging

/-- A substrate in which a transaction without changes names the head it began at. -/
def Substrate.Idles (S : Substrate) : Prop := ∀ head now, S.deriveNext head ∅ now = head

/-- A handle that delegates to its pager shares what its commits leave alone. -/
theorem delegateToPager_shares (hS : S.Laws) {pager : σ → Pager S}
    {setPager : σ → Pager S → σ} (hset : ∀ st pg, pager (setPager st pg) = pg)
    (faults : Faults S) {commit : σ → S.Txn → Except S.Error S.ManifestId × σ}
    (hcommit : ∀ st txn, CommitOutcome pager st txn (commit st txn))
    (hidle : ∀ {st txn m}, S.staged txn = ∅ → (commit st txn).1 = .ok m → m = (pager st).head) :
    (delegateToPager pager setPager faults commit).Shares
      fun st txn edits => HoldsEdits (pager st) txn edits where
  toApplies := delegateToPager_applies hS hset faults hcommit
  commit_resolve := by
    intro st txn m hm m' pages hresolve
    have houtcome := hcommit st txn
    have hm : (commit st txn).1 = .ok m := hm
    have hresolve : S.resolve (pager st).cas m' = .ok pages := hresolve
    change S.resolve (pager (commit st txn).2).cas m' = .ok pages
    generalize commit st txn = result at houtcome hm
    cases houtcome with
    | refused _ => cases hm
    | moved _ _ hgrows _ => exact hgrows.resolve hresolve
  commit_read := by
    intro st txn m hm m' p bytes hread
    have houtcome := hcommit st txn
    have hm : (commit st txn).1 = .ok m := hm
    have hread : S.read (pager st).cas m' p = .ok bytes := hread
    change S.read (pager (commit st txn).2).cas m' p = .ok bytes
    generalize commit st txn = result at houtcome hm
    cases houtcome with
    | refused _ => cases hm
    | moved _ _ hgrows _ => exact hS.toContentAddressed.read_grows hgrows hread
  commit_empty := by
    intro st txn m hholds hm
    have hstaged : S.staged txn = ∅ := by
      refine Std.ExtTreeMap.ext_getElem? fun p => ?_
      rw [hholds.staged p, Std.ExtTreeMap.getElem?_empty]
      rfl
    exact hidle hstaged hm
  commit_untouched := by
    intro st txn edits pages pages' m hholds hresolve hm hresolve' p hp
    have houtcome := hcommit st txn
    have hm : (commit st txn).1 = .ok m := hm
    have hresolve : S.resolve (pager st).cas (pager st).head = .ok pages := hresolve
    have hresolve' : S.resolve (pager (commit st txn).2).cas m = .ok pages' := hresolve'
    generalize commit st txn = result at houtcome hm hresolve'
    cases houtcome with
    | refused _ => cases hm
    | moved _ _ _ hoverlay =>
      obtain rfl := Except.ok.inj hm
      obtain rfl := Except.ok.inj (hresolve'.symm.trans (hoverlay hresolve))
      rw [Overlay.getElem?_overlay, hholds.staged p, hp, Option.map_none, Option.getD_none]
  read_congr := by
    intro st m m' pages pages' hresolve hresolve' p bytes hsame hread
    obtain ⟨pages₁, id, hpages₁, hid, hget⟩ := hS.read_ok_iff.mp hread
    obtain rfl : pages₁ = pages := Except.ok.inj (hpages₁.symm.trans hresolve)
    exact hS.read_ok_iff.mpr ⟨pages', id, hresolve', hsame ▸ hid, hget⟩

/-- A durable handle shares what its commits leave alone. -/
theorem durableHandle_shares (hS : S.Laws) (hidles : S.Idles) (faults : Faults S) (nowMs : ℕ) :
    (durableHandle faults nowMs).Shares fun st txn edits => HoldsEdits st.pager txn edits := by
  refine delegateToPager_shares hS (fun _ _ => rfl) faults (fun st txn => ?_)
    fun {st txn m} hstaged hm => ?_
  · rcases DurableStore.commit_cases hS.toCommits faults st txn nowMs with
      ⟨e, -, herror⟩ | ⟨-, store', hok, hcommitted⟩
    · rw [herror]
      exact .refused _
    · rw [hok]
      exact .moved rfl hcommitted.pageSize_eq hcommitted.grows hcommitted.resolve
  · rcases DurableStore.commit_cases hS.toCommits faults st txn nowMs with
      ⟨e, -, herror⟩ | ⟨-, store', hok, hcommitted⟩
    · rw [herror] at hm
      cases hm
    · rw [hok] at hm
      obtain rfl := Except.ok.inj hm
      rw [hcommitted.head_eq, hstaged]
      exact hidles _ _

/-- A tiered handle shares what its commits leave alone. -/
theorem tieredHandle_shares (hS : S.Laws) (hidles : S.Idles) (faults : Faults S) (nowMs : ℕ) :
    (tieredHandle faults nowMs).Shares fun st txn edits => HoldsEdits st txn edits := by
  refine delegateToPager_shares hS (fun _ _ => rfl) faults (fun st txn => ?_)
    fun {st txn m} hstaged hm => ?_
  · rw [Pager.commit]
    cases faults .commit with
    | some e => exact .refused e
    | none =>
      exact .moved rfl rfl (hS.grows_install _ _ _ _) fun hresolve =>
        hS.resolve_install _ _ hresolve
  · rw [Pager.commit] at hm
    cases hfault : faults .commit with
    | some e =>
      rw [hfault] at hm
      cases hm
    | none =>
      rw [hfault] at hm
      obtain rfl := Except.ok.inj hm
      rw [hS.install_id, hstaged]
      exact hidles _ _

/-- In memory a commit that changes nothing names its base. -/
theorem Memory.deriveNext_empty (base : Memory.ManifestId) (createdAtMs : ℕ) :
    Memory.deriveNext base ∅ createdAtMs = base := by
  rw [Memory.deriveNext, Overlay.overlay_empty, if_pos rfl]

/-- The in-memory substrate names the head when nothing changes. -/
theorem Memory.idles (frames : List (Record Bytes Memory.ManifestId)) : (memory frames).Idles := by
  intro head now
  exact Memory.deriveNext_empty head now

/-- Nine bytes checkpointed twice over are committed once. -/
theorem Paging.persist_minimal_nineBytes :
    let ps := durableHandle (S := memory []) .none 7
    ∃ m st', Paging.persist ps Paging.emptyStore "flock.duckdb" (.ok Paging.nineBytes) =
        ((.ok m, st') : Except (KernelError (memory []) Empty) Memory.ManifestId × _) ∧
      m ≠ [] ∧
      (Paging.persist ps st' "flock.duckdb" (.ok Paging.nineBytes) :
        Except (KernelError (memory []) Empty) Memory.ManifestId × _).1 = .ok m := by
  intro ps
  have hshares := durableHandle_shares (Memory.laws []) (Memory.idles []) .none 7
  have hreads : ps.Reads Paging.emptyStore (ps.head Paging.emptyStore) fun _ => none :=
    ⟨∅, rfl, fun p => ⟨by simp, fun bytes hp => by cases hp⟩⟩
  obtain ⟨m, hm⟩ := Paging.persist_isOk (D := Empty) hshares.toApplies (durableHandle_neverFails 7)
    hreads "flock.duckdb" Paging.nineBytes
  obtain ⟨hok, -⟩ := Paging.persist_minimal (D := Empty) hshares Paging.emptyStore "flock.duckdb"
    Paging.nineBytes
  obtain ⟨hcommits, -, -, hagain⟩ := hok m hm
  refine ⟨m, _, Prod.ext hm rfl, fun hroot => ?_, hagain (durableHandle_neverFails 7)⟩
  obtain ⟨pages, hold⟩ := Paging.Compared.of_reads hreads
    (Paging.pageCount (ps.pageSize Paging.emptyStore) Paging.nineBytes)
  have hnone : (none : Option Bytes) = some [1, 2, 3, 4] :=
    congrFun ((hcommits hold).head_iff.mp hroot) 0
  cases hnone

end FlockDb
