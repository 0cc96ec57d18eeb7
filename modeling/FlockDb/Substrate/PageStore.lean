import FlockDb.Substrate.Store

/-!
# The page store interface

`PageStore` is the interface through which the SQL kernel reads and writes pages.
It says nothing about where a commit goes. What a caller relies on is that a
commit applies the transaction's changes to the head's pages: `Applies` states
this about the bytes a handle reads, without speaking of hashes.
-/

namespace FlockDb

variable {S : Substrate} {σ : Type}

/-- The `PageStore` trait as the kernel uses it, over handles of a type. -/
structure PageStore (S : Substrate) (σ : Type) where
  pageSize : σ → ℕ
  head : σ → S.ManifestId
  resolve : σ → S.ManifestId → Except S.Error (PageMap S.PageId)
  read : σ → S.ManifestId → PageNo → Except S.Error Bytes
  begin : σ → Except S.Error S.Txn
  write : σ → S.Txn → PageNo → Bytes → Except S.Error (S.PageId × S.Txn) × σ
  remove : σ → S.Txn → PageNo → Except S.Error S.Txn
  commit : σ → S.Txn → Except S.Error S.ManifestId × σ

/-- The pages of a database, by number. -/
abbrev Contents := PageNo → Option Bytes

/-- Page changes, by number; `some none` is a removal. -/
abbrev Edits := PageNo → Option (Option Bytes)

namespace PageStore

variable (ps : PageStore S σ)

/-- At a manifest a handle finds exactly these pages. -/
def Reads (st : σ) (m : S.ManifestId) (contents : Contents) : Prop :=
  ∃ pages, ps.resolve st m = .ok pages ∧
    ∀ p, (p ∈ pages ↔ (contents p).isSome) ∧
      ∀ bytes, contents p = some bytes → ps.read st m p = .ok bytes

/-- At a manifest a handle finds this for one page: its bytes, or no page. -/
def Finds (st : σ) (m : S.ManifestId) (p : PageNo) (page : Option Bytes) : Prop :=
  ∃ pages, ps.resolve st m = .ok pages ∧ (p ∈ pages ↔ page.isSome) ∧
    ∀ bytes, page = some bytes → ps.read st m p = .ok bytes

/-- A handle that still stands where it stood and reads whatever it read. -/
structure Undisturbed (st st' : σ) : Prop where
  pageSize : ps.pageSize st' = ps.pageSize st
  head : ps.head st' = ps.head st
  resolve : ∀ {m pages}, ps.resolve st m = .ok pages → ps.resolve st' m = .ok pages
  read : ∀ {m p bytes}, ps.read st m p = .ok bytes → ps.read st' m p = .ok bytes

/-- A page store whose commits apply what their transactions hold to the pages of
the head, page by page. `Holding` says what a transaction holds. -/
structure Applies (Holding : σ → S.Txn → Edits → Prop) : Prop where
  begin : ∀ {st txn}, ps.begin st = .ok txn → Holding st txn fun _ => none
  write : ∀ {st txn edits}, Holding st txn edits → ∀ p bytes,
    ps.Undisturbed st (ps.write st txn p bytes).2 ∧
      ∀ id txn', (ps.write st txn p bytes).1 = .ok (id, txn') →
        Holding (ps.write st txn p bytes).2 txn' (Function.update edits p (some (some bytes)))
  remove : ∀ {st txn edits}, Holding st txn edits → ∀ {p txn'},
    ps.remove st txn p = .ok txn' → Holding st txn' (Function.update edits p (some none))
  commit_error : ∀ {st txn e}, (ps.commit st txn).1 = .error e →
    ps.Undisturbed st (ps.commit st txn).2
  commit_ok : ∀ {st txn edits pages m}, Holding st txn edits →
    ps.resolve st (ps.head st) = .ok pages → (ps.commit st txn).1 = .ok m →
    ps.pageSize (ps.commit st txn).2 = ps.pageSize st ∧ ps.head (ps.commit st txn).2 = m ∧
      ∀ p, (∀ page, edits p = some page → ps.Finds (ps.commit st txn).2 m p page) ∧
        (edits p = none → ∀ page, ps.Finds st (ps.head st) p page →
          ps.Finds (ps.commit st txn).2 m p page)

/-- A page store none of whose calls fails. -/
structure NeverFails : Prop where
  begin : ∀ st, ∃ txn, ps.begin st = .ok txn
  write : ∀ st txn p bytes, ∃ result, (ps.write st txn p bytes).1 = .ok result
  remove : ∀ st txn p, ∃ txn', ps.remove st txn p = .ok txn'
  commit : ∀ st txn, ∃ m, (ps.commit st txn).1 = .ok m

variable {ps}

/-- A handle reads pages at a manifest when it finds each of them there. -/
theorem reads_iff {st : σ} {m : S.ManifestId} {contents : Contents} :
    ps.Reads st m contents ↔ ∀ p, ps.Finds st m p (contents p) := by
  constructor
  · rintro ⟨pages, hresolve, hpages⟩ p
    exact ⟨pages, hresolve, hpages p⟩
  · intro h
    obtain ⟨pages, hresolve, -⟩ := h 0
    refine ⟨pages, hresolve, fun p => ?_⟩
    obtain ⟨pages', hresolve', hpage⟩ := h p
    obtain rfl : pages = pages' := Except.ok.inj (hresolve.symm.trans hresolve')
    exact hpage

/-- A handle that nothing happened to is undisturbed. -/
theorem Undisturbed.refl (st : σ) : ps.Undisturbed st st := ⟨rfl, rfl, id, id⟩

/-- Leaving a handle undisturbed composes. -/
theorem Undisturbed.trans {st st' st'' : σ} (h : ps.Undisturbed st st')
    (h' : ps.Undisturbed st' st'') : ps.Undisturbed st st'' :=
  ⟨h'.pageSize.trans h.pageSize, h'.head.trans h.head, h'.resolve ∘ h.resolve,
    h'.read ∘ h.read⟩

/-- An undisturbed handle finds what it found. -/
theorem Undisturbed.finds {st st' : σ} (h : ps.Undisturbed st st') {m : S.ManifestId}
    {p : PageNo} {page : Option Bytes} (hfinds : ps.Finds st m p page) :
    ps.Finds st' m p page := by
  obtain ⟨pages, hresolve, hmem, hread⟩ := hfinds
  exact ⟨pages, h.resolve hresolve, hmem, fun bytes hpage => h.read (hread bytes hpage)⟩

/-- An undisturbed handle reads what it read. -/
theorem Undisturbed.reads {st st' : σ} (h : ps.Undisturbed st st') {m : S.ManifestId}
    {contents : Contents} (hreads : ps.Reads st m contents) : ps.Reads st' m contents :=
  reads_iff.mpr fun p => h.finds (reads_iff.mp hreads p)

/-- What a handle reads at a manifest is determined. -/
theorem Reads.unique {st : σ} {m : S.ManifestId} {contents contents' : Contents}
    (h : ps.Reads st m contents) (h' : ps.Reads st m contents') : contents = contents' := by
  obtain ⟨pages, hresolve, hpages⟩ := h
  obtain ⟨pages', hresolve', hpages'⟩ := h'
  obtain rfl : pages = pages' := Except.ok.inj (hresolve.symm.trans hresolve')
  funext p
  have hsame : (contents p).isSome ↔ (contents' p).isSome := (hpages p).1.symm.trans (hpages' p).1
  cases hp : contents p with
  | none =>
    cases hp' : contents' p with
    | none => rfl
    | some bytes' => simp [hp, hp'] at hsame
  | some bytes =>
    cases hp' : contents' p with
    | none => simp [hp, hp'] at hsame
    | some bytes' =>
      have hread := ((hpages p).2 bytes hp).symm.trans ((hpages' p).2 bytes' hp')
      rw [Except.ok.inj hread]

end PageStore

end FlockDb
