import FlockDb.Core.Store
import FlockDb.Kernel.Paging
import FlockDb.Library.Runs
import FlockDb.Substrate.Memory

/-!
# Persisting and hydrating

`persist` is differential: what it commits depends on the pages that were there.
Its effect does not. It settles each page of the file, by a change or because the head
has the chunk already, and `hydrate` joins the chunks again.
-/

namespace FlockDb.Paging

open Chunks Runs

variable {S : Substrate} {σ D : Type} {ps : PageStore S σ}
  {Holding : σ → S.Txn → Edits → Prop}

/-- The page numbers of a map that has exactly the pages below a bound. -/
theorem keys_eq_range {α : Type} {pages : PageMap α} {n : ℕ} (h : ∀ p, p ∈ pages ↔ p < n) :
    pages.keys = List.range n := by
  have hkeys : pages.keys.Pairwise (· < ·) :=
    Std.ExtTreeMap.ordered_keys.imp fun hlt => compare_lt_iff_lt.mp hlt
  refine hkeys.eq_of_mem_iff List.pairwise_lt_range fun p => ?_
  rw [Std.ExtTreeMap.mem_keys, List.mem_range, h p]

/-- What the chunk loop finds at a page: what the head has there. -/
theorem existing_eq {st : σ} {head : S.ManifestId} {old : Contents} {pages : PageMap S.PageId}
    (hpages : ∀ p, p ∈ pages ↔ (old p).isSome) (hreads : ps.Reads st head old) (p : PageNo) :
    (if p ∈ pages then (ps.read st head p).map some else .ok none) =
      (.ok (old p) : Except S.Error (Option Bytes)) := by
  obtain ⟨_, _, hread⟩ := hreads
  cases hp : old p with
  | none =>
    have hnotMem : p ∉ pages := by simp [hpages p, hp]
    rw [if_neg hnotMem]
  | some bytes =>
    have hmem : p ∈ pages := by simp [hpages p, hp]
    rw [if_pos hmem, (hread p).2 bytes hp]
    rfl

/-- A page that reads back equal to a chunk is a page of the head with that chunk. -/
theorem finds_of_existing {st : σ} {head : S.ManifestId} {pages : PageMap S.PageId} {p : PageNo}
    {chunk : Bytes} (hresolve : ps.resolve st head = .ok pages)
    (h : (if p ∈ pages then (ps.read st head p).map some else .ok none) =
      (.ok (some chunk) : Except S.Error (Option Bytes))) :
    ps.Finds st head p (some chunk) := by
  by_cases hmem : p ∈ pages
  · rw [if_pos hmem] at h
    cases hread : ps.read st head p with
    | error e =>
      rw [hread] at h
      cases h
    | ok bytes =>
      rw [hread] at h
      cases h
      refine ⟨pages, hresolve, by simpa using hmem, fun bytes' hbytes => ?_⟩
      rw [hread, Option.some.inj hbytes]
  · rw [if_neg hmem] at h
    cases h

/-- A page that a checkpoint is done with: the transaction holds the chunk, or it leaves
the page alone and the head has the chunk there. -/
def Settled (ps : PageStore S σ) (st : σ) (head : S.ManifestId) (edits : Edits) (p : PageNo)
    (chunk : Bytes) : Prop :=
  edits p = some (some chunk) ∨ (edits p = none ∧ ps.Finds st head p (some chunk))

/-- The chunk loop leaves the handle undisturbed, and when it succeeds it is done with
the pages of its chunks and has touched no others. -/
theorem stageChunks_spec (hps : ps.Applies Holding) {head : S.ManifestId}
    {pages : PageMap S.PageId} (chunks : List Bytes) {first : ℕ} {st : σ} {txn : S.Txn}
    {edits : Edits} (hresolve : ps.resolve st head = .ok pages) (hholding : Holding st txn edits)
    (hfresh : ∀ p, first ≤ p → edits p = none)
    {result : Except (KernelError S D) S.Txn × σ}
    (hresult : stageChunks ps pages head (chunks.zipIdx first) st txn = result) :
    ps.Undisturbed st result.2 ∧ ∀ txn', result.1 = .ok txn' →
      ∃ edits', Holding result.2 txn' edits' ∧ (∀ p < first, edits' p = edits p) ∧
        (∀ i chunk, chunks[i]? = some chunk →
          Settled ps result.2 head edits' (first + i) chunk) ∧
        ∀ p, first + chunks.length ≤ p → edits' p = none := by
  induction chunks generalizing first st txn edits with
  | nil =>
    subst hresult
    refine ⟨.refl st, fun txn' htxn => ?_⟩
    obtain rfl : txn = txn' := Except.ok.inj htxn
    exact ⟨edits, hholding, fun p _ => rfl, fun i chunk hi => by simp at hi, hfresh⟩
  | cons bytes chunks ih =>
    simp only [List.zipIdx_cons, stageChunks] at hresult
    cases hexisting : (if first ∈ pages then (ps.read st head first).map some else .ok none :
        Except S.Error (Option Bytes)) with
    | error e =>
      simp only [hexisting] at hresult
      subst hresult
      exact ⟨.refl st, fun txn' htxn => by cases htxn⟩
    | ok existing =>
      simp only [hexisting] at hresult
      by_cases hsame : existing = some bytes
      · -- the page stays as the head has it
        rw [if_pos hsame] at hresult
        rw [hsame] at hexisting
        have hfinds := finds_of_existing hresolve hexisting
        obtain ⟨hrest, hok⟩ := ih hresolve hholding (fun p hp => hfresh p (by omega)) hresult
        refine ⟨hrest, fun txn' htxn => ?_⟩
        obtain ⟨edits', hholding', hbelow, hsettled, habove⟩ := hok txn' htxn
        refine ⟨edits', hholding', fun p hp => hbelow p (by omega), fun i chunk hi => ?_,
          fun p hp => habove p (by simp only [List.length_cons] at hp; omega)⟩
        cases i with
        | zero =>
          obtain rfl : bytes = chunk := by simpa using hi
          refine .inr ⟨?_, hrest.finds hfinds⟩
          rw [Nat.add_zero, hbelow first (Nat.lt_succ_self first)]
          exact hfresh first le_rfl
        | succ i =>
          rw [List.getElem?_cons_succ] at hi
          have hthis := hsettled i chunk hi
          rwa [Nat.add_assoc, Nat.add_comm 1 i] at hthis
      · rw [if_neg hsame] at hresult
        obtain ⟨hundisturbed, hwrite⟩ := hps.write hholding first bytes
        rcases hstep : ps.write st txn first bytes with ⟨e | ⟨id, txn₁⟩, st₁⟩
        · rw [hstep] at hundisturbed hresult
          subst hresult
          exact ⟨hundisturbed, fun txn' htxn => by cases htxn⟩
        · rw [hstep] at hundisturbed hwrite hresult
          have hfresh₁ : ∀ p, first + 1 ≤ p →
              Function.update edits first (some (some bytes)) p = none := fun p hp => by
            rw [Function.update_of_ne (Nat.ne_of_gt hp)]
            exact hfresh p (Nat.le_of_succ_le hp)
          obtain ⟨hrest, hok⟩ :=
            ih (hundisturbed.resolve hresolve) (hwrite id txn₁ rfl) hfresh₁ hresult
          refine ⟨hundisturbed.trans hrest, fun txn' htxn => ?_⟩
          obtain ⟨edits', hholding', hbelow, hsettled, habove⟩ := hok txn' htxn
          refine ⟨edits', hholding', fun p hp => ?_, fun i chunk hi => ?_,
            fun p hp => habove p (by simp only [List.length_cons] at hp; omega)⟩
          · rw [hbelow p (by omega), Function.update_of_ne (Nat.ne_of_lt hp)]
          · cases i with
            | zero =>
              obtain rfl : bytes = chunk := by simpa using hi
              refine .inl ?_
              rw [Nat.add_zero, hbelow first (Nat.lt_succ_self first), Function.update_self]
            | succ i =>
              rw [List.getElem?_cons_succ] at hi
              have hthis := hsettled i chunk hi
              rwa [Nat.add_assoc, Nat.add_comm 1 i] at hthis

/-- The chunk loop succeeds when no call fails. -/
theorem stageChunks_isOk (hps : ps.Applies Holding) (hnever : ps.NeverFails)
    {head : S.ManifestId} {old : Contents} {pages : PageMap S.PageId}
    (hpages : ∀ p, p ∈ pages ↔ (old p).isSome) (chunks : List (Bytes × PageNo)) {st : σ}
    {txn : S.Txn} {edits : Edits} (hreads : ps.Reads st head old)
    (hholding : Holding st txn edits) :
    ∃ txn' st', (stageChunks ps pages head chunks st txn :
      Except (KernelError S D) S.Txn × σ) = (.ok txn', st') := by
  induction chunks generalizing st txn edits with
  | nil => exact ⟨txn, st, rfl⟩
  | cons chunk chunks ih =>
    obtain ⟨bytes, pageNo⟩ := chunk
    simp only [stageChunks, existing_eq hpages hreads]
    by_cases hsame : old pageNo = some bytes
    · rw [if_pos hsame]
      exact ih hreads hholding
    · rw [if_neg hsame]
      obtain ⟨hundisturbed, hwrite⟩ := hps.write hholding pageNo bytes
      obtain ⟨⟨id, txn₁⟩, hok⟩ := hnever.write st txn pageNo bytes
      rcases hstep : ps.write st txn pageNo bytes with ⟨_, st₁⟩
      rw [hstep] at hok hundisturbed hwrite
      subst hok
      exact ih (hundisturbed.reads hreads) (hwrite id txn₁ rfl)

/-- What the removal loop adds: a removal for each of its pages. -/
def removeEdit (edits : Edits) (p : PageNo) : Edits := Function.update edits p (some none)

/-- The removal loop removes its pages and no others. -/
theorem foldl_removeEdit (pageNos : List PageNo) (edits : Edits) (p : PageNo) :
    pageNos.foldl removeEdit edits p = if p ∈ pageNos then some none else edits p := by
  induction pageNos generalizing edits with
  | nil => simp
  | cons pageNo pageNos ih =>
    rw [List.foldl_cons, ih]
    by_cases hmem : p ∈ pageNos
    · rw [if_pos hmem, if_pos (List.mem_cons_of_mem _ hmem)]
    · rw [if_neg hmem]
      by_cases heq : p = pageNo
      · subst heq
        rw [if_pos List.mem_cons_self, removeEdit, Function.update_self]
      · have hnotMem : p ∉ pageNo :: pageNos := by simp [heq, hmem]
        rw [if_neg hnotMem, removeEdit, Function.update_of_ne heq]

/-- When the removal loop succeeds, the transaction holds its removals too. -/
theorem stageRemovals_spec (hps : ps.Applies Holding) {st : σ} (pageNos : List PageNo)
    {txn txn' : S.Txn} {edits : Edits} (hholding : Holding st txn edits)
    (hok : (stageRemovals ps st pageNos txn : Except (KernelError S D) S.Txn) = .ok txn') :
    Holding st txn' (pageNos.foldl removeEdit edits) := by
  induction pageNos generalizing txn edits with
  | nil =>
    obtain rfl : txn = txn' := Except.ok.inj hok
    exact hholding
  | cons pageNo pageNos ih =>
    rw [stageRemovals] at hok
    cases hstep : ps.remove st txn pageNo with
    | error e =>
      rw [hstep] at hok
      cases hok
    | ok txn₁ =>
      rw [hstep] at hok
      exact ih (hps.remove hholding hstep) hok

/-- The removal loop succeeds when no call fails. -/
theorem stageRemovals_isOk (hnever : ps.NeverFails) (st : σ) (pageNos : List PageNo)
    (txn : S.Txn) :
    ∃ txn', (stageRemovals ps st pageNos txn : Except (KernelError S D) S.Txn) = .ok txn' := by
  induction pageNos generalizing txn with
  | nil => exact ⟨txn, rfl⟩
  | cons pageNo pageNos ih =>
    obtain ⟨txn₁, hstep⟩ := hnever.remove st txn pageNo
    simp only [stageRemovals, hstep]
    exact ih txn₁

/-- The pages of a file: page `i` is its `i`-th chunk. -/
def chunkMap (size : ℕ) (file : ByteVec) : Contents := fun p => (chunks size file.bytes)[p]?

/-- The page of a file at a number. -/
theorem chunkMap_eq (size : ℕ) (file : ByteVec) (p : ℕ) :
    chunkMap size file p =
      if p < chunkCount size file.bytes.length then some (chunkAt size file.bytes p) else none :=
  getElem?_chunks size file.bytes p

/-- What the two loops of a checkpoint settle, its commit installs: exactly the chunks. -/
theorem finds_chunk (hps : ps.Applies Holding) {st : σ} {pages : PageMap S.PageId}
    {chunks : List Bytes} {txn : S.Txn} {edits : Edits} {m : S.ManifestId}
    (hresolve : ps.resolve st (ps.head st) = .ok pages)
    (hsettled : ∀ i chunk, chunks[i]? = some chunk → Settled ps st (ps.head st) edits i chunk)
    (habove : ∀ p, chunks.length ≤ p → edits p = none)
    (hholding : Holding st txn
      ((pages.keys.filter fun n => chunks.length ≤ n).foldl removeEdit edits))
    (hcommit : (ps.commit st txn).1 = .ok m) (p : PageNo) :
    ps.Finds (ps.commit st txn).2 m p chunks[p]? := by
  obtain ⟨-, -, hpage⟩ := hps.commit_ok hholding hresolve hcommit
  obtain ⟨hedited, huntouched⟩ := hpage p
  have hmem : p ∈ (pages.keys.filter fun n => chunks.length ≤ n) ↔
      p ∈ pages ∧ chunks.length ≤ p := by
    rw [List.mem_filter, Std.ExtTreeMap.mem_keys, decide_eq_true_iff]
  simp only [foldl_removeEdit, hmem] at hedited huntouched
  cases hchunk : chunks[p]? with
  | some chunk =>
    have hlt : p < chunks.length := (List.getElem?_eq_some_iff.mp hchunk).1
    have hkept : ¬(p ∈ pages ∧ chunks.length ≤ p) := fun h => absurd hlt (not_lt.mpr h.2)
    rw [if_neg hkept] at hedited huntouched
    rcases hsettled p chunk hchunk with hwritten | ⟨hleft, hfinds⟩
    · exact hedited _ hwritten
    · exact huntouched hleft _ hfinds
  | none =>
    have hle : chunks.length ≤ p := List.getElem?_eq_none_iff.mp hchunk
    by_cases hp : p ∈ pages
    · rw [if_pos ⟨hp, hle⟩] at hedited
      exact hedited _ rfl
    · rw [if_neg fun h => hp h.1] at huntouched
      exact huntouched (habove p hle) none
        ⟨pages, hresolve, by simpa using hp, fun bytes hbytes => by cases hbytes⟩

/-- What a checkpoint leaves, wherever it started: the chunks of the file under the head
it returns, or an undisturbed handle under an error. -/
theorem persist_spec (hps : ps.Applies Holding) (st : σ) (path : String) (file : ByteVec)
    {result : Except (KernelError S D) S.ManifestId × σ}
    (hresult : persist ps st path (.ok file) = result) :
    (∃ e, result.1 = .error e ∧ ps.Undisturbed st result.2) ∨
    (∃ m, result.1 = .ok m ∧ ps.head result.2 = m ∧ ps.pageSize result.2 = ps.pageSize st ∧
      ps.Reads result.2 m (chunkMap (ps.pageSize st) file)) := by
  simp only [persist] at hresult
  cases hresolve : ps.resolve st (ps.head st) with
  | error e =>
    simp only [hresolve] at hresult
    subst hresult
    exact .inl ⟨_, rfl, .refl st⟩
  | ok pages =>
    simp only [hresolve] at hresult
    cases hbegin : ps.begin st with
    | error e =>
      simp only [hbegin] at hresult
      subst hresult
      exact .inl ⟨_, rfl, .refl st⟩
    | ok txn =>
      simp only [hbegin] at hresult
      rcases hstage : (stageChunks ps pages (ps.head st)
          (chunks (ps.pageSize st) file.bytes).zipIdx st txn :
          Except (KernelError S D) S.Txn × σ) with ⟨e | txn₁, st₁⟩
      · have hspec := stageChunks_spec hps _ hresolve (hps.begin hbegin) (fun _ _ => rfl) hstage
        simp only [hstage] at hresult
        subst hresult
        exact .inl ⟨e, rfl, hspec.1⟩
      · obtain ⟨hundisturbed, hstaged⟩ :=
          stageChunks_spec hps _ hresolve (hps.begin hbegin) (fun _ _ => rfl) hstage
        obtain ⟨edits, hholding, -, hsettled, habove⟩ := hstaged txn₁ rfl
        simp only [Nat.zero_add] at hsettled habove
        have hhead : ps.head st₁ = ps.head st := hundisturbed.head
        have hresolve₁ : ps.resolve st₁ (ps.head st₁) = .ok pages := by
          rw [hhead]
          exact hundisturbed.resolve hresolve
        simp only [hstage] at hresult
        cases hremove : (stageRemovals ps st₁ (pages.keys.filter fun n =>
            (chunks (ps.pageSize st) file.bytes).length ≤ n) txn₁ :
            Except (KernelError S D) S.Txn) with
        | error e =>
          simp only [hremove] at hresult
          subst hresult
          exact .inl ⟨e, rfl, hundisturbed⟩
        | ok txn₂ =>
          simp only [hremove] at hresult
          have hholding₂ := stageRemovals_spec hps _ hholding hremove
          rcases hcommit : ps.commit st₁ txn₂ with ⟨e | m, st₂⟩
          · simp only [hcommit] at hresult
            subst hresult
            have hkept := hps.commit_error (congrArg Prod.fst hcommit)
            rw [hcommit] at hkept
            exact .inl ⟨_, rfl, hundisturbed.trans hkept⟩
          · simp only [hcommit] at hresult
            subst hresult
            obtain ⟨hsize, hhead₂, -⟩ :=
              hps.commit_ok hholding₂ hresolve₁ (congrArg Prod.fst hcommit)
            have hfinds := finds_chunk hps hresolve₁ (hhead.symm ▸ hsettled) habove hholding₂
              (congrArg Prod.fst hcommit)
            rw [hcommit] at hsize hhead₂ hfinds
            exact .inr ⟨m, rfl, hhead₂, hsize.trans hundisturbed.pageSize,
              PageStore.reads_iff.mpr hfinds⟩

/-- The chunk loop moves its handle only through writes. -/
theorem stageChunks_related {R : σ → σ → Prop} (hrefl : ∀ st, R st st)
    (htrans : ∀ {st st' st''}, R st st' → R st' st'' → R st st'')
    (hwrite : ∀ st txn p bytes, R st (ps.write st txn p bytes).2) (pages : PageMap S.PageId)
    (head : S.ManifestId) (chunks : List (Bytes × PageNo)) (st : σ) (txn : S.Txn) :
    R st (stageChunks ps pages head chunks st txn :
      Except (KernelError S D) S.Txn × σ).2 := by
  induction chunks generalizing st txn with
  | nil => exact hrefl st
  | cons chunk chunks ih =>
    obtain ⟨bytes, pageNo⟩ := chunk
    rw [stageChunks]
    cases (if pageNo ∈ pages then (ps.read st head pageNo).map some else .ok none :
        Except S.Error (Option Bytes)) with
    | error e => exact hrefl st
    | ok existing =>
      simp only
      by_cases hsame : existing = some bytes
      · rw [if_pos hsame]
        exact ih st txn
      · rw [if_neg hsame]
        have hstep := hwrite st txn pageNo bytes
        rcases hresult : ps.write st txn pageNo bytes with ⟨e | ⟨id, txn₁⟩, st₁⟩
        · rw [hresult] at hstep
          exact hstep
        · rw [hresult] at hstep
          exact htrans hstep (ih st₁ txn₁)

/-- What holds of every handle that only writes moved, and of every such handle after one
commit, holds of the handle that a checkpoint leaves. -/
theorem persist_rule {W : σ → σ → Prop} {Q : σ → Prop} (hrefl : ∀ st, W st st)
    (htrans : ∀ {st st' st''}, W st st' → W st' st'' → W st st'')
    (hwrite : ∀ st txn p bytes, W st (ps.write st txn p bytes).2) {st : σ}
    (hstaged : ∀ st', W st st' → Q st')
    (hcommit : ∀ st' txn, W st st' → Q (ps.commit st' txn).2) (path : String)
    (file : Except IoError ByteVec) :
    Q (persist ps st path file : Except (KernelError S D) S.ManifestId × σ).2 := by
  unfold persist
  cases file with
  | error source => exact hstaged st (hrefl st)
  | ok file =>
    simp only
    cases ps.resolve st (ps.head st) with
    | error e => exact hstaged st (hrefl st)
    | ok pages =>
      simp only
      cases ps.begin st with
      | error e => exact hstaged st (hrefl st)
      | ok txn =>
        simp only
        have hstage := stageChunks_related (D := D) hrefl htrans hwrite pages (ps.head st)
          (chunks (ps.pageSize st) file.bytes).zipIdx st txn
        rcases hresult : (stageChunks ps pages (ps.head st)
            (chunks (ps.pageSize st) file.bytes).zipIdx st txn :
            Except (KernelError S D) S.Txn × σ) with ⟨e | txn₁, st₁⟩
        · rw [hresult] at hstage
          exact hstaged st₁ hstage
        · rw [hresult] at hstage
          simp only
          cases (stageRemovals ps st₁ (pages.keys.filter fun n =>
              (chunks (ps.pageSize st) file.bytes).length ≤ n) txn₁ :
              Except (KernelError S D) S.Txn) with
          | error e => exact hstaged st₁ hstage
          | ok txn₂ =>
            simp only
            have hlast := hcommit st₁ txn₂ hstage
            rcases hresult : ps.commit st₁ txn₂ with ⟨e | m, st₂⟩
            · rw [hresult] at hlast
              exact hlast
            · rw [hresult] at hlast
              exact hlast

/-- A checkpoint succeeds when no call fails. -/
theorem persist_isOk (hps : ps.Applies Holding) (hnever : ps.NeverFails) {st : σ}
    {old : Contents} (hold : ps.Reads st (ps.head st) old) (path : String) (file : ByteVec) :
    ∃ m, (persist ps st path (.ok file) : Except (KernelError S D) S.ManifestId × σ).1 =
      .ok m := by
  obtain ⟨pages, hresolve, hread⟩ := id hold
  obtain ⟨txn, hbegin⟩ := hnever.begin st
  obtain ⟨txn₁, st₁, hstage⟩ := stageChunks_isOk (D := D) hps hnever (fun p => (hread p).1)
    (chunks (ps.pageSize st) file.bytes).zipIdx hold (hps.begin hbegin)
  obtain ⟨txn₂, hremove⟩ := stageRemovals_isOk (D := D) hnever st₁ (pages.keys.filter fun n =>
    (chunks (ps.pageSize st) file.bytes).length ≤ n) txn₁
  obtain ⟨m, hcommit⟩ := hnever.commit st₁ txn₂
  refine ⟨m, ?_⟩
  rcases hresult : ps.commit st₁ txn₂ with ⟨_, st₂⟩
  rw [hresult] at hcommit
  subst hcommit
  simp only [persist, hresolve, hbegin, hstage, hremove, hresult]

/-- The page loop of `hydrate` joins the chunks of a file from one position on. -/
theorem hydratePages_eq {st : σ} {m : S.ManifestId} {file : ByteVec}
    (hsize : 0 < ps.pageSize st)
    (hreads : ps.Reads st m (chunkMap (ps.pageSize st) file)) (first : ℕ)
    {count : ℕ} (hcount : first + count = chunkCount (ps.pageSize st) file.bytes.length) :
    hydratePages ps st m (List.range' first count) (file.bytes.take (first * ps.pageSize st)) =
      (.ok file.bytes : Except (KernelError S D) Bytes) := by
  induction count generalizing first with
  | zero =>
    have hlength := length_le_chunkCount_mul hsize file.bytes.length
    rw [← hcount, Nat.add_zero] at hlength
    exact congrArg Except.ok (List.take_of_length_le hlength)
  | succ count ih =>
    have hlt : first < chunkCount (ps.pageSize st) file.bytes.length := by omega
    have hinside := (lt_chunkCount_iff hsize).mp hlt
    have hsmall := file.length_lt
    have hoffset : first * ps.pageSize st % 2 ^ 64 = first * ps.pageSize st :=
      Nat.mod_eq_of_lt (by omega)
    have hlength : (file.bytes.take (first * ps.pageSize st)).length =
        first * ps.pageSize st := by
      rw [List.length_take]
      omega
    obtain ⟨_, _, hread⟩ := id hreads
    have hpage : ps.read st m first = .ok (chunkAt (ps.pageSize st) file.bytes first) :=
      (hread first).2 _ (by rw [chunkMap_eq, if_pos hlt])
    have happend : file.bytes.take (first * ps.pageSize st) ++
        chunkAt (ps.pageSize st) file.bytes first =
          file.bytes.take ((first + 1) * ps.pageSize st) := by
      rw [Nat.succ_mul, List.take_add]
      rfl
    rw [List.range'_succ, hydratePages]
    simp only [hoffset, hlength, ne_eq, not_true_eq_false, if_false, hpage, happend]
    exact ih (first + 1) (by omega)

/-- What `hydrate` leaves at a path for a file: the file, and nothing for an empty
one. -/
def written (file : ByteVec) : Option Bytes :=
  if file.bytes = [] then none else some file.bytes

/-- The page loop of `hydrate` over a head with the chunks of a file gives the file. -/
theorem hydratePages_keys {st : σ} {m : S.ManifestId} {file : ByteVec}
    (hsize : 0 < ps.pageSize st)
    (hreads : ps.Reads st m (chunkMap (ps.pageSize st) file)) :
    ∃ pages, ps.resolve st m = .ok pages ∧
      hydratePages ps st m pages.keys [] = (.ok file.bytes : Except (KernelError S D) Bytes) := by
  obtain ⟨pages, hresolve, hread⟩ := id hreads
  have hkeys : pages.keys = List.range (chunkCount (ps.pageSize st) file.bytes.length) := by
    refine keys_eq_range fun p => ?_
    rw [(hread p).1, chunkMap_eq]
    by_cases hlt : p < chunkCount (ps.pageSize st) file.bytes.length
    · simp [hlt]
    · simp [hlt]
  have hall := hydratePages_eq (D := D) hsize hreads 0 (Nat.zero_add _)
  rw [Nat.zero_mul, List.take_zero, ← List.range_eq_range', ← hkeys] at hall
  exact ⟨pages, hresolve, hall⟩

/-- Hydrating the chunks of a file writes the file. -/
theorem hydrate_eq {st : σ} {m : S.ManifestId} {file : ByteVec} (hsize : 0 < ps.pageSize st)
    (hreads : ps.Reads st m (chunkMap (ps.pageSize st) file)) (path : String)
    (existing : Option Bytes) :
    (hydrate ps st m path .none existing : Except (KernelError S D) Unit × Option Bytes) =
      (.ok (), written file) := by
  obtain ⟨pages, hresolve, hpages⟩ := hydratePages_keys (D := D) hsize hreads
  simp only [hydrate, hresolve, hpages, written]
  cases hbytes : file.bytes with
  | nil => cases existing <;> rfl
  | cons b bytes => rfl

/-- Hydrating the chunks of a file that is not empty can fail at the write only. -/
theorem hydrate_eq_of_ne_nil {st : σ} {m : S.ManifestId} {file : ByteVec}
    (hsize : 0 < ps.pageSize st) (hreads : ps.Reads st m (chunkMap (ps.pageSize st) file))
    (hne : file.bytes ≠ []) (path : String) (faults : ScratchFaults) (existing : Option Bytes) :
    (hydrate ps st m path faults existing : Except (KernelError S D) Unit × Option Bytes) =
      match faults.write with
      | some (source, left) => (.error (.scratch "write hydrated database" path source), left)
      | none => (.ok (), some file.bytes) := by
  obtain ⟨pages, hresolve, hpages⟩ := hydratePages_keys (D := D) hsize hreads
  obtain ⟨b, bytes, hbytes⟩ := List.exists_cons_of_ne_nil hne
  cases hwrite : faults.write with
  | none => simp only [hydrate, hresolve, hpages, hbytes, hwrite]
  | some fault => simp only [hydrate, hresolve, hpages, hbytes, hwrite]

/-- A checkpoint of a file that was read from a path, as one step of a store. -/
def checkpointStep (D : Type) (ps : PageStore S σ) (path : String) (st : σ) (file : ByteVec) :
    Except (KernelError S D) S.ManifestId × σ :=
  persist ps st path (.ok file)

/-- A handle with a page size whose head can be read. -/
def Readable (ps : PageStore S σ) (size : ℕ) (st : σ) : Prop :=
  ps.pageSize st = size ∧ ∃ contents, ps.Reads st (ps.head st) contents

/-- A checkpoint keeps a handle readable, whether or not it succeeds. -/
theorem Readable.checkpointStep (hps : ps.Applies Holding) {size : ℕ} {st : σ}
    (h : Readable ps size st) (path : String) (file : ByteVec) :
    Readable ps size (checkpointStep D ps path st file).2 := by
  obtain ⟨hsize, contents, hreads⟩ := h
  rcases persist_spec (D := D) hps st path file rfl with
    ⟨e, -, hundisturbed⟩ | ⟨m, -, hhead, hsize', hreads'⟩
  · refine ⟨hundisturbed.pageSize.trans hsize, contents, ?_⟩
    have hhead : ps.head (Paging.checkpointStep D ps path st file).2 = ps.head st :=
      hundisturbed.head
    rw [hhead]
    exact hundisturbed.reads hreads
  · have hhead' : ps.head (Paging.checkpointStep D ps path st file).2 = m := hhead
    exact ⟨hsize'.trans hsize, _, hhead' ▸ hreads'⟩

/-- A run of checkpoints keeps a handle readable. -/
theorem Readable.run (hps : ps.Applies Holding) {size : ℕ} {st : σ}
    (h : Readable ps size st) (path : String) (files : List ByteVec) :
    Readable ps size (run (Paging.checkpointStep D ps path) st files).2 := by
  have hstep : ∀ st file, True → Readable ps size st →
      Readable ps size (Paging.checkpointStep D ps path st file).2 :=
    fun st file _ h => h.checkpointStep hps path file
  exact run_invariant hstep (fun _ _ => trivial) h

/-- **Hydrating what was persisted gives the file back.** Whatever pages the head
had and whatever was checkpointed since, a checkpoint of a file that returns a head
leaves exactly the chunks of the file there, and hydrating that head writes exactly
the file, or no file for an empty one. A store that never fails never fails it. -/
theorem hydrate_persist (hps : ps.Applies Holding) {st : σ} (hsize : 0 < ps.pageSize st)
    {old : Contents} (hold : ps.Reads st (ps.head st) old) (path : String)
    (earlier : List ByteVec) (file : ByteVec) :
    let st₁ := (run (checkpointStep D ps path) st earlier).2
    let result := checkpointStep D ps path st₁ file
    (∀ m, result.1 = .ok m →
      ps.head result.2 = m ∧ ps.Reads result.2 m (chunkMap (ps.pageSize st) file) ∧
      ∀ scratch existing, (hydrate ps result.2 m scratch .none existing :
        Except (KernelError S D) Unit × Option Bytes) = (.ok (), written file)) ∧
    (ps.NeverFails → ∃ m, result.1 = .ok m) := by
  intro st₁ result
  have hreadable : Readable ps (ps.pageSize st) st₁ :=
    Readable.run hps ⟨rfl, old, hold⟩ path earlier
  obtain ⟨hsize₁, contents, hreads₁⟩ := hreadable
  refine ⟨fun m hm => ?_, fun hnever => persist_isOk hps hnever hreads₁ path file⟩
  rcases persist_spec (D := D) hps st₁ path file (rfl : _ = result) with
    ⟨e, herror, -⟩ | ⟨m', hok, hhead, hsize', hreads⟩
  · rw [herror] at hm
    cases hm
  · obtain rfl : m' = m := Except.ok.inj (hok.symm.trans hm)
    rw [hsize₁] at hreads hsize'
    refine ⟨hhead, hreads, fun scratch existing => ?_⟩
    exact hydrate_eq (by rwa [hsize']) (by rwa [hsize']) scratch existing

/-- A store with pages of four bytes, at the empty root. -/
def emptyStore : DurableStore (memory []) where
  pager := { cas := ⟨[], []⟩, head := [], pageSize := 4 }
  wal := none

/-- A file of two pages and a byte. -/
def nineBytes : ByteVec := ⟨[1, 2, 3, 4, 5, 6, 7, 8, 9], by decide⟩

/-- A file that ends in its second page. -/
def sixBytes : ByteVec := ⟨[1, 2, 3, 4, 5, 0], by decide⟩

/-- A file that shrank is hydrated at its new length. -/
theorem hydrate_persist_shrunk :
    let ps := durableHandle (S := memory []) .none 7
    let st := (run (checkpointStep Empty ps "flock.duckdb") emptyStore [nineBytes]).2
    let result := checkpointStep Empty ps "flock.duckdb" st sixBytes
    ∃ m, result.1 = .ok m ∧ (hydrate ps result.2 m "flock.duckdb" .none none :
      Except (KernelError (memory []) Empty) Unit × Option Bytes) =
        (.ok (), some [1, 2, 3, 4, 5, 0]) := by
  have hps := durableHandle_applies (Memory.laws []) .none 7
  have hempty : (durableHandle (S := memory []) .none 7).Reads emptyStore [] fun _ => none := by
    refine ⟨∅, rfl, fun p => ⟨by simp, fun bytes hp => by cases hp⟩⟩
  obtain ⟨hfile, hok⟩ := hydrate_persist (D := Empty) hps (by decide) hempty "flock.duckdb"
    [nineBytes] sixBytes
  obtain ⟨m, hm⟩ := hok (durableHandle_neverFails 7)
  exact ⟨m, hm, (hfile m hm).2.2 _ _⟩

end FlockDb.Paging
