import FlockDb.Kernel.Duck
import FlockDb.Library.Fallible

/-!
# A page store in the place of another one

The kernel does not know what page store it sits on. Two page stores mirror each other if, from
handles that have the same head and the same pages of it, each call does the same on both or fails
on both. A kernel that is moved from one onto the other then goes on as it would have.
-/

namespace FlockDb

open Fallible

variable {S : Substrate} {σ τ D : Type}

/-- A page store that does what another one does. `Same` says when two handles have the same head
and the same pages of it, `Staging` when they have the same changes in a transaction besides. -/
structure PageStore.Mirrors (ps : PageStore S σ) (ps' : PageStore S τ) (Same : σ → τ → Prop)
    (Staging : σ → S.Txn → τ → S.Txn → Prop) : Prop where
  head_eq : ∀ {st st'}, Same st st' → ps'.head st' = ps.head st
  pageSize_eq : ∀ {st st'}, Same st st' → ps'.pageSize st' = ps.pageSize st
  resolve : ∀ {st st'}, Same st st' → ∃ pages, ps.resolve st (ps.head st) = .ok pages ∧
    ps'.resolve st' (ps.head st) = .ok pages
  read : ∀ {st st'}, Same st st' → ∀ {pages}, ps.resolve st (ps.head st) = .ok pages →
    ∀ p ∈ pages, ∃ bytes, ps.read st (ps.head st) p = .ok bytes ∧
      ps'.read st' (ps.head st) p = .ok bytes
  same : ∀ {st txn st' txn'}, Staging st txn st' txn' → Same st st'
  begin : ∀ {st st'}, Same st st' →
    Alike (fun txn txn' => Staging st txn st' txn') (ps.begin st) (ps'.begin st')
  write : ∀ {st txn st' txn'}, Staging st txn st' txn' → ∀ p bytes,
    ps.Undisturbed st (ps.write st txn p bytes).2 ∧
      Same (ps.write st txn p bytes).2 (ps'.write st' txn' p bytes).2 ∧
        Alike (fun r r' => Staging (ps.write st txn p bytes).2 r.2
          (ps'.write st' txn' p bytes).2 r'.2)
          (ps.write st txn p bytes).1 (ps'.write st' txn' p bytes).1
  remove : ∀ {st txn st' txn'}, Staging st txn st' txn' → ∀ p,
    Alike (fun t t' => Staging st t st' t') (ps.remove st txn p) (ps'.remove st' txn' p)
  commit : ∀ {st txn st' txn'}, Staging st txn st' txn' →
    Alike Eq (ps.commit st txn).1 (ps'.commit st' txn').1 ∧
      Same (ps.commit st txn).2 (ps'.commit st' txn').2

section Paging

open Paging

variable {ps : PageStore S σ} {ps' : PageStore S τ} {Same : σ → τ → Prop}
  {Staging : σ → S.Txn → τ → S.Txn → Prop}

/-- The chunk loop stages the same on both. -/
theorem PageStore.Mirrors.stageChunks (h : ps.Mirrors ps' Same Staging) {head : S.ManifestId}
    {old : PageMap S.PageId} (chunks : List (Bytes × PageNo)) {st : σ} {txn : S.Txn} {st' : τ}
    {txn' : S.Txn} (hstaging : Staging st txn st' txn') (hhead : ps.head st = head)
    (hold : ps.resolve st head = .ok old)
    {result : Except (KernelError S D) S.Txn × σ} {result' : Except (KernelError S D) S.Txn × τ}
    (hresult : stageChunks ps old head chunks st txn = result)
    (hresult' : stageChunks ps' old head chunks st' txn' = result') :
    Same result.2 result'.2 ∧
      Alike (fun t t' => Staging result.2 t result'.2 t') result.1 result'.1 := by
  induction chunks generalizing st txn st' txn' with
  | nil =>
    subst hresult hresult'
    exact ⟨h.same hstaging, .ok hstaging⟩
  | cons chunk chunks ih =>
    obtain ⟨bytes, pageNo⟩ := chunk
    have hsame := h.same hstaging
    simp only [Paging.stageChunks] at hresult hresult'
    -- Both find the same page there, or none.
    obtain ⟨existing, hexisting, hexisting'⟩ : ∃ existing : Option Bytes,
        (if pageNo ∈ old then (ps.read st head pageNo).map some else .ok none :
          Except S.Error (Option Bytes)) = .ok existing ∧
        (if pageNo ∈ old then (ps'.read st' head pageNo).map some else .ok none :
          Except S.Error (Option Bytes)) = .ok existing := by
      by_cases hmem : pageNo ∈ old
      · subst hhead
        obtain ⟨page, hread, hread'⟩ := h.read hsame hold pageNo hmem
        refine ⟨some page, ?_, ?_⟩
        · rw [if_pos hmem, hread]
          rfl
        · rw [if_pos hmem, hread']
          rfl
      · exact ⟨none, if_neg hmem, if_neg hmem⟩
    simp only [hexisting] at hresult
    simp only [hexisting'] at hresult'
    by_cases hkept : existing = some bytes
    · rw [if_pos hkept] at hresult hresult'
      exact ih hstaging hhead hold hresult hresult'
    · rw [if_neg hkept] at hresult hresult'
      obtain ⟨hundisturbed, hsame₁, halike⟩ := h.write hstaging pageNo bytes
      generalize ps.write st txn pageNo bytes = written at hresult hundisturbed hsame₁ halike
      generalize ps'.write st' txn' pageNo bytes = written' at hresult' hsame₁ halike
      obtain ⟨answer, st₁⟩ := written
      obtain ⟨answer', st₁'⟩ := written'
      cases halike with
      | error e e' =>
        subst hresult hresult'
        exact ⟨hsame₁, .error _ _⟩
      | ok hstaging₁ =>
        exact ih hstaging₁ (hundisturbed.head.trans hhead) (hundisturbed.resolve hold) hresult
          hresult'

/-- The removal loop stages the same on both. -/
theorem PageStore.Mirrors.stageRemovals (h : ps.Mirrors ps' Same Staging) (pageNos : List PageNo)
    {st : σ} {txn : S.Txn} {st' : τ} {txn' : S.Txn} (hstaging : Staging st txn st' txn') :
    Alike (fun t t' => Staging st t st' t')
      (stageRemovals ps st pageNos txn : Except (KernelError S D) S.Txn)
      (stageRemovals ps' st' pageNos txn' : Except (KernelError S D) S.Txn) := by
  induction pageNos generalizing txn txn' with
  | nil => exact .ok hstaging
  | cons pageNo pageNos ih =>
    rw [Paging.stageRemovals, Paging.stageRemovals]
    have halike := h.remove hstaging pageNo
    generalize ps.remove st txn pageNo = removed at halike
    generalize ps'.remove st' txn' pageNo = removed' at halike
    cases halike with
    | error e e' => exact .error _ _
    | ok hstaging₁ => exact ih hstaging₁

/-- A checkpoint of one file commits the same on both. -/
theorem PageStore.Mirrors.persist (h : ps.Mirrors ps' Same Staging) {st : σ} {st' : τ}
    (hsame : Same st st') (path path' : String) (file : Except IoError ByteVec)
    {result : Except (KernelError S D) S.ManifestId × σ}
    {result' : Except (KernelError S D) S.ManifestId × τ}
    (hresult : persist ps st path file = result) (hresult' : persist ps' st' path' file = result') :
    Same result.2 result'.2 ∧ Alike Eq result.1 result'.1 := by
  obtain ⟨old, hold, hold'⟩ := h.resolve hsame
  cases file with
  | error source =>
    subst hresult hresult'
    exact ⟨hsame, .error _ _⟩
  | ok file =>
    simp only [Paging.persist, hold] at hresult
    simp only [Paging.persist, h.head_eq hsame, h.pageSize_eq hsame, hold'] at hresult'
    have hbegun := h.begin hsame
    generalize ps.begin st = begun at hresult hbegun
    generalize ps'.begin st' = begun' at hresult' hbegun
    cases hbegun with
    | error e e' =>
      subst hresult hresult'
      exact ⟨hsame, .error _ _⟩
    | ok hstaging =>
      simp only at hresult hresult'
      obtain ⟨hsame₁, hstaged⟩ :=
        h.stageChunks (D := D) (Chunks.chunks (ps.pageSize st) file.bytes).zipIdx hstaging rfl hold
          rfl rfl
      generalize (Paging.stageChunks ps old (ps.head st)
        (Chunks.chunks (ps.pageSize st) file.bytes).zipIdx st _ :
          Except (KernelError S D) S.Txn × σ) = staged at hresult hsame₁ hstaged
      generalize (Paging.stageChunks ps' old (ps.head st)
        (Chunks.chunks (ps.pageSize st) file.bytes).zipIdx st' _ :
          Except (KernelError S D) S.Txn × τ) = staged' at hresult' hsame₁ hstaged
      obtain ⟨answer, st₁⟩ := staged
      obtain ⟨answer', st₁'⟩ := staged'
      cases hstaged with
      | error e e' =>
        subst hresult hresult'
        exact ⟨hsame₁, .error _ _⟩
      | ok hstaging₁ =>
        simp only at hresult hresult'
        have hremoved := h.stageRemovals (D := D) (old.keys.filter fun n =>
          (Chunks.chunks (ps.pageSize st) file.bytes).length ≤ n) hstaging₁
        generalize (Paging.stageRemovals ps st₁ (old.keys.filter fun n =>
          (Chunks.chunks (ps.pageSize st) file.bytes).length ≤ n) _ :
            Except (KernelError S D) S.Txn) = removed at hresult hremoved
        generalize (Paging.stageRemovals ps' st₁' (old.keys.filter fun n =>
          (Chunks.chunks (ps.pageSize st) file.bytes).length ≤ n) _ :
            Except (KernelError S D) S.Txn) = removed' at hresult' hremoved
        cases hremoved with
        | error e e' =>
          subst hresult hresult'
          exact ⟨hsame₁, .error _ _⟩
        | @ok txn₂ txn₂' hstaging₂ =>
          simp only at hresult hresult'
          obtain ⟨hcommitted, hsame₂⟩ := h.commit hstaging₂
          generalize ps.commit st₁ txn₂ = committed at hresult hcommitted hsame₂
          generalize ps'.commit st₁' txn₂' = committed' at hresult' hcommitted hsame₂
          obtain ⟨answer, st₂⟩ := committed
          obtain ⟨answer', st₂'⟩ := committed'
          cases hcommitted with
          | error e e' =>
            subst hresult hresult'
            exact ⟨hsame₂, .error _ _⟩
          | ok heq =>
            subst hresult hresult'
            exact ⟨hsame₂, .ok heq⟩

/-- The page loop of `hydrate` writes the same file from both. -/
theorem PageStore.Mirrors.hydratePages (h : ps.Mirrors ps' Same Staging) {st : σ} {st' : τ}
    (hsame : Same st st') {pages : PageMap S.PageId}
    (hpages : ps.resolve st (ps.head st) = .ok pages) {pageNos : List PageNo}
    (hmem : ∀ p ∈ pageNos, p ∈ pages) (file : Bytes) :
    (hydratePages ps st (ps.head st) pageNos file : Except (KernelError S D) Bytes) =
      hydratePages ps' st' (ps.head st) pageNos file := by
  induction pageNos generalizing file with
  | nil => rfl
  | cons pageNo pageNos ih =>
    obtain ⟨hpage, hrest⟩ := List.forall_mem_cons.mp hmem
    obtain ⟨bytes, hread, hread'⟩ := h.read hsame hpages pageNo hpage
    simp only [Paging.hydratePages, h.pageSize_eq hsame, hread, hread', ih hrest]

end Paging

namespace DuckDbKernel

variable {E : Engine} {ps : PageStore S σ} {ps' : PageStore S τ} {Same : σ → τ → Prop}
  {Staging : σ → S.Txn → τ → S.Txn → Prop}

/-- A kernel opens on both, or on neither. -/
theorem open_mirrors (h : ps.Mirrors ps' Same Staging) {st : σ} {st' : τ} (hsame : Same st st')
    (opts : KernelOpts) (faults : KernelFaults E) :
    («open» ps st opts faults : Except (KernelError S E.Error) (DuckDbKernel E)) =
      «open» ps' st' opts faults := by
  obtain ⟨pages, hpages, hpages'⟩ := h.resolve hsame
  have hfile : (Paging.hydratePages ps st (ps.head st) pages.keys [] :
      Except (KernelError S E.Error) Bytes) =
        Paging.hydratePages ps' st' (ps.head st) pages.keys [] :=
    h.hydratePages hsame hpages (fun p hp => Std.ExtTreeMap.mem_keys.mp hp) []
  simp only [«open», Paging.hydrate, h.head_eq hsame, hpages, hpages', hfile]

/-- Two kernels on one connection fold their logs alike. -/
theorem fold_alike {kernel kernel' : DuckDbKernel E} (hconn : kernel'.conn = kernel.conn)
    (faults : KernelFaults E)
    {result result' : Except (KernelError S E.Error) Unit × DuckDbKernel E}
    (hresult : foldWalIntoMainFile kernel faults = result)
    (hresult' : foldWalIntoMainFile kernel' faults = result') :
    result'.2.conn = result.2.conn ∧ Alike Eq result.1 result'.1 := by
  simp only [foldWalIntoMainFile, executeBatch, hconn] at hresult hresult'
  cases hfault : faults.checkpoint with
  | some source =>
    simp only [hfault] at hresult hresult'
    subst hresult hresult'
    exact ⟨hconn, .error _ _⟩
  | none =>
    simp only [hfault] at hresult hresult'
    rcases hbatch : E.executeBatch kernel.conn "CHECKPOINT" with ⟨source | ⟨⟩, conn⟩
    · simp only [hbatch] at hresult hresult'
      subst hresult hresult'
      exact ⟨rfl, .error _ _⟩
    · simp only [hbatch] at hresult hresult'
      cases hstat : faults.stat with
      | some source =>
        simp only [hstat] at hresult hresult'
        subst hresult hresult'
        exact ⟨rfl, .error _ _⟩
      | none =>
        simp only [hstat] at hresult hresult'
        rcases hwal : E.walLen conn with - | - | len
        all_goals
          simp only [hwal] at hresult hresult'
          subst hresult hresult'
        · exact ⟨rfl, .ok rfl⟩
        · exact ⟨rfl, .ok rfl⟩
        · exact ⟨rfl, .error _ _⟩

/-- Two kernels on one connection checkpoint alike, one on each page store. -/
theorem checkpoint_mirrors (h : ps.Mirrors ps' Same Staging) {st : σ} {st' : τ}
    (hsame : Same st st') {kernel kernel' : DuckDbKernel E} (hconn : kernel'.conn = kernel.conn)
    (faults : KernelFaults E)
    {result : Except (KernelError S E.Error) S.ManifestId × DuckDbKernel E × σ}
    {result' : Except (KernelError S E.Error) S.ManifestId × DuckDbKernel E × τ}
    (hresult : kernel.checkpoint ps faults st = result)
    (hresult' : kernel'.checkpoint ps' faults st' = result') :
    Same result.2.2 result'.2.2 ∧ result'.2.1.conn = result.2.1.conn ∧
      Alike Eq result.1 result'.1 := by
  simp only [checkpoint] at hresult hresult'
  obtain ⟨hconn₁, hfolded⟩ := fold_alike (S := S) hconn faults rfl rfl
  generalize (foldWalIntoMainFile kernel faults :
    Except (KernelError S E.Error) Unit × DuckDbKernel E) = folded at hresult hconn₁ hfolded
  generalize (foldWalIntoMainFile kernel' faults :
    Except (KernelError S E.Error) Unit × DuckDbKernel E) = folded' at hresult' hconn₁ hfolded
  obtain ⟨answer, kernel₁⟩ := folded
  obtain ⟨answer', kernel₁'⟩ := folded'
  cases hfolded with
  | error e e' =>
    subst hresult hresult'
    exact ⟨hsame, hconn₁, .error _ _⟩
  | ok _ =>
    have hmain : kernel₁'.readMain faults = kernel₁.readMain faults := by
      rw [readMain, readMain, hconn₁]
    simp only [hmain] at hresult hresult'
    obtain ⟨hsame₁, halike⟩ := h.persist (D := E.Error) hsame kernel₁.path kernel₁'.path
      (kernel₁.readMain faults) rfl rfl
    subst hresult hresult'
    exact ⟨hsame₁, hconn₁, halike⟩

end DuckDbKernel

end FlockDb
