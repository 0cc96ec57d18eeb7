import FlockDb.Kernel.RoundTrip

/-!
# Which page maps make up a file

`hydrate` is to take the maps whose pages follow each other without a gap, each full but the
last, and to refuse all others before it touches the file. Its check compares the length so
far with a product of 64 bits, so it takes every map whose pages line up modulo `2 ^ 64`.
-/

namespace FlockDb.Paging

variable {S : Substrate} {σ D : Type} {ps : PageStore S σ}

/-- Pages with their numbers, in the order of the numbers. -/
abbrev Layout := List (PageNo × Bytes)

namespace Layout

/-- The layout of a page map, given what its pages read as. -/
def ofMap {α : Type} (pages : PageMap α) (contents : PageNo → Bytes) : Layout :=
  pages.keys.map fun p => (p, contents p)

/-- The pages, joined. -/
def joined (layout : Layout) : Bytes := layout.flatMap Prod.snd

/-- The pages are numbered from zero on without a gap. -/
def Numbered (layout : Layout) : Prop :=
  ∀ i (page : PageNo × Bytes), layout[i]? = some page → page.1 = i

/-- The pages make up a file: they are numbered without a gap, and all but the last are full. -/
def Contiguous (size : ℕ) (layout : Layout) : Prop :=
  layout.Numbered ∧ ∀ page ∈ layout.dropLast, page.2.length = size

/-- Each page lies, modulo `2 ^ 64`, where the pages before it end. -/
def LinesUp (size : ℕ) : ℕ → Layout → Prop
  | _, [] => True
  | length, page :: layout =>
    length = page.1 * size % 2 ^ 64 ∧ LinesUp size (length + page.2.length) layout

/-- Pages numbered from some number on, all full but the last, line up from there. -/
theorem linesUp_of_full {size first : ℕ} {layout : Layout}
    (hnumbers : ∀ i (page : PageNo × Bytes), layout[i]? = some page → page.1 = first + i)
    (hfull : ∀ page ∈ layout.dropLast, page.2.length = size)
    (hlength : first * size + layout.joined.length < 2 ^ 64) :
    LinesUp size (first * size) layout := by
  induction layout generalizing first with
  | nil => exact trivial
  | cons page layout ih =>
    have hpage : page.1 = first := hnumbers 0 page rfl
    rw [joined, List.flatMap_cons, List.length_append, ← joined] at hlength
    refine ⟨by rw [hpage, Nat.mod_eq_of_lt (by omega)], ?_⟩
    cases layout with
    | nil => exact trivial
    | cons next layout =>
      rw [List.dropLast_cons_cons, List.forall_mem_cons] at hfull
      have hnext : first * size + page.2.length = (first + 1) * size := by
        rw [hfull.1, Nat.succ_mul]
      rw [hnext]
      refine ih (fun i page' hi => ?_) hfull.2 (by rw [← hnext]; omega)
      rw [hnumbers (i + 1) page' (by rwa [List.getElem?_cons_succ]), Nat.add_assoc, Nat.add_comm 1]

/-- Pages numbered from some number on that line up from there are all full but the last. -/
theorem full_of_linesUp {size first : ℕ} {layout : Layout} (hsize : size < 2 ^ 64)
    (hnumbers : ∀ i (page : PageNo × Bytes), layout[i]? = some page → page.1 = first + i)
    (hlength : first * size + layout.joined.length < 2 ^ 63)
    (hlinesUp : LinesUp size (first * size) layout) :
    ∀ page ∈ layout.dropLast, page.2.length = size := by
  induction layout generalizing first with
  | nil => simp
  | cons page layout ih =>
    cases layout with
    | nil => simp
    | cons next layout =>
      obtain ⟨-, hnext, hrest⟩ := hlinesUp
      have hnumber : next.1 = first + 1 := hnumbers 1 next rfl
      rw [joined, List.flatMap_cons, List.length_append, ← joined] at hlength
      -- the offset of the next page does not overflow: it is one page past a length
      have hoffset : (first + 1) * size % 2 ^ 64 = (first + 1) * size := by
        refine Nat.mod_eq_of_lt ?_
        rw [Nat.succ_mul]
        rcases Nat.eq_zero_or_pos first with rfl | hfirst
        · omega
        · have hle : size ≤ first * size := Nat.le_mul_of_pos_left size hfirst
          omega
      rw [hnumber, hoffset] at hnext
      have hfull : page.2.length = size := by
        rw [Nat.succ_mul] at hnext
        omega
      rw [List.dropLast_cons_cons, List.forall_mem_cons]
      refine ⟨hfull, ?_⟩
      have hrest' : LinesUp size ((first + 1) * size) (next :: layout) := by
        rw [← hnext]
        exact ⟨by rw [hnumber, hoffset, hnext], hrest⟩
      refine ih (fun i page' hi => ?_) (by rw [Nat.succ_mul]; omega) hrest'
      rw [hnumbers (i + 1) page' (by rwa [List.getElem?_cons_succ]), Nat.add_assoc, Nat.add_comm 1]

/-- Pages make up a file exactly if they line up and are numbered without a gap. -/
theorem contiguous_iff {size : ℕ} {layout : Layout} (hsize : size < 2 ^ 64)
    (hlength : layout.joined.length < 2 ^ 63) :
    layout.Contiguous size ↔ LinesUp size 0 layout ∧ layout.Numbered := by
  have hzero : 0 * size + layout.joined.length = layout.joined.length := by omega
  have hnumbers (h : layout.Numbered) i (page : PageNo × Bytes) (hi : layout[i]? = some page) :
      page.1 = 0 + i :=
    (h i page hi).trans (Nat.zero_add i).symm
  constructor
  · rintro ⟨hnumbered, hfull⟩
    have hlinesUp := linesUp_of_full (hnumbers hnumbered) hfull (by omega)
    exact ⟨Nat.zero_mul size ▸ hlinesUp, hnumbered⟩
  · rintro ⟨hlinesUp, hnumbered⟩
    have hlinesUp' : LinesUp size (0 * size) layout := by rwa [Nat.zero_mul]
    exact ⟨hnumbered, full_of_linesUp hsize (hnumbers hnumbered) (by omega) hlinesUp'⟩

end Layout

/-- The page loop joins pages that line up. -/
theorem hydratePages_of_linesUp {st : σ} {m : S.ManifestId} {contents : PageNo → Bytes}
    {pageNos : List PageNo} (hread : ∀ p ∈ pageNos, ps.read st m p = .ok (contents p))
    (file : Bytes) (hlinesUp : Layout.LinesUp (ps.pageSize st) file.length
      (pageNos.map fun p => (p, contents p))) :
    (hydratePages ps st m pageNos file : Except (KernelError S D) Bytes) =
      .ok (file ++ Layout.joined (pageNos.map fun p => (p, contents p))) := by
  induction pageNos generalizing file with
  | nil => simp [hydratePages, Layout.joined]
  | cons pageNo pageNos ih =>
    rw [List.forall_mem_cons] at hread
    obtain ⟨hoffset, hrest⟩ := hlinesUp
    have hnext := ih hread.2 (file ++ contents pageNo) (by rwa [List.length_append])
    rw [hydratePages]
    simp only [← hoffset, ne_eq, not_true_eq_false, if_false, hread.1, hnext]
    simp [Layout.joined]

/-- The page loop refuses pages that do not line up. -/
theorem hydratePages_of_not_linesUp {st : σ} {m : S.ManifestId} {contents : PageNo → Bytes}
    {pageNos : List PageNo} (hread : ∀ p ∈ pageNos, ps.read st m p = .ok (contents p))
    (file : Bytes) (hlinesUp : ¬Layout.LinesUp (ps.pageSize st) file.length
      (pageNos.map fun p => (p, contents p))) :
    ∃ pageNo expected actual,
      (hydratePages ps st m pageNos file : Except (KernelError S D) Bytes) =
        .error (.corruptLayout m pageNo expected actual) := by
  induction pageNos generalizing file with
  | nil => exact absurd trivial hlinesUp
  | cons pageNo pageNos ih =>
    rw [List.forall_mem_cons] at hread
    rw [hydratePages]
    by_cases hoffset : file.length = pageNo * ps.pageSize st % 2 ^ 64
    · simp only [← hoffset, ne_eq, not_true_eq_false, if_false, hread.1]
      refine ih hread.2 _ fun hrest => hlinesUp ⟨hoffset, ?_⟩
      rwa [List.length_append] at hrest
    · simp only [ne_eq, hoffset, not_false_eq_true, if_true]
      exact ⟨_, _, _, rfl⟩

/-- `hydrate` takes the pages of a manifest for what they are: pages that make up a file are
written, and any others are refused before the path is touched. -/
def ChecksLayout (D : Type) (ps : PageStore S σ) (st : σ) (m : S.ManifestId) (layout : Layout)
    (file : ByteVec) : Prop :=
  ∀ path existing,
    (layout.Contiguous (ps.pageSize st) →
      (hydrate ps st m path .none existing : Except (KernelError S D) Unit × Option Bytes) =
        (.ok (), written file)) ∧
    (¬layout.Contiguous (ps.pageSize st) → ∀ faults, ∃ pageNo expected actual,
      (hydrate ps st m path faults existing : Except (KernelError S D) Unit × Option Bytes) =
        (.error (.corruptLayout m pageNo expected actual), existing))

/-- **When the layout is checked.** `hydrate` writes the pages that make up a file and refuses
all others, unless pages that line up modulo `2 ^ 64` are not numbered without a gap: there it
writes a file although pages are missing. -/
theorem checksLayout_iff {st : σ} {m : S.ManifestId} {pages : PageMap S.PageId}
    (hresolve : ps.resolve st m = .ok pages) {contents : PageNo → Bytes}
    (hread : ∀ p ∈ pages, ps.read st m p = .ok (contents p)) (hsize : ps.pageSize st < 2 ^ 64)
    {file : ByteVec} (hfile : file.bytes = (Layout.ofMap pages contents).joined) :
    ChecksLayout D ps st m (.ofMap pages contents) file ↔
      ¬(Layout.LinesUp (ps.pageSize st) 0 (.ofMap pages contents) ∧
        ¬(Layout.ofMap pages contents).Numbered) := by
  have hread' : ∀ p ∈ pages.keys, ps.read st m p = .ok (contents p) := fun p hp =>
    hread p (Std.ExtTreeMap.mem_keys.mp hp)
  have hcontiguous := Layout.contiguous_iff hsize (hfile ▸ file.length_lt)
  -- pages that line up are written
  have hwrites (hlinesUp : Layout.LinesUp (ps.pageSize st) 0 (.ofMap pages contents))
      (path : String) (existing : Option Bytes) :
      (hydrate ps st m path .none existing : Except (KernelError S D) Unit × Option Bytes) =
        (.ok (), written file) := by
    have hpages := hydratePages_of_linesUp (D := D) hread' [] hlinesUp
    rw [List.nil_append] at hpages
    change _ = Except.ok (Layout.ofMap pages contents).joined at hpages
    rw [← hfile] at hpages
    simp only [hydrate, hresolve, hpages, written]
    cases hbytes : file.bytes with
    | nil => cases existing <;> rfl
    | cons b bytes => rfl
  constructor
  · rintro hchecks ⟨hlinesUp, hnumbered⟩
    obtain ⟨-, hrefuses⟩ := hchecks "" none
    obtain ⟨pageNo, expected, actual, hrefused⟩ :=
      hrefuses (fun h => hnumbered (hcontiguous.mp h).2) .none
    rw [hwrites hlinesUp] at hrefused
    cases hrefused
  · intro hgap path existing
    refine ⟨fun h => hwrites (hcontiguous.mp h).1 path existing, fun h faults => ?_⟩
    have hlinesUp : ¬Layout.LinesUp (ps.pageSize st) 0 (.ofMap pages contents) := fun hlinesUp =>
      hgap ⟨hlinesUp, fun hnumbered => h (hcontiguous.mpr ⟨hlinesUp, hnumbered⟩)⟩
    obtain ⟨pageNo, expected, actual, hpages⟩ :=
      hydratePages_of_not_linesUp (D := D) hread' [] hlinesUp
    exact ⟨pageNo, expected, actual, by simp only [hydrate, hresolve, hpages]⟩

/-- A commit whose one page has the number `2 ^ 52`. -/
def strayChange : Memory.Change := ⟨[(2 ^ 52, some [1])], 0⟩

/-- A store with pages of 4096 bytes that stands at the stray page. -/
def strayStore : DurableStore (memory []) where
  pager := { cas := ⟨[[1]], [[strayChange]]⟩, head := [strayChange], pageSize := 2 ^ 12 }
  wal := none

/-- The pages under the stray commit. -/
abbrev strayPages : PageMap (memory []).PageId := Memory.pageMap [strayChange]

/-- The only page is the stray one. -/
theorem strayPages_keys : strayPages.keys = [2 ^ 52] := by decide +kernel

/-- The stray page can be read. -/
theorem strayStore_read (p : PageNo) (hp : p ∈ strayPages) :
    (durableHandle (S := memory []) .none 0).read strayStore [strayChange] p = .ok [1] := by
  have hp' : p ∈ strayPages.keys := Std.ExtTreeMap.mem_keys.mpr hp
  rw [strayPages_keys, List.mem_singleton] at hp'
  subst hp'
  exact Memory.read_ok_iff.mpr ⟨strayPages, [1], rfl, by decide +kernel, rfl⟩

/-- The layout of the stray page. -/
theorem strayPages_layout : Layout.ofMap strayPages (fun _ => [1]) = [(2 ^ 52, [1])] := by
  rw [Layout.ofMap, strayPages_keys]
  rfl

/-- **A page far beyond the end passes for the first.** With pages of 4096 bytes the offset of
page `2 ^ 52` is `2 ^ 64`, which wraps around to zero: a manifest with that page alone is
written out as a file of one byte. -/
theorem hydrate_accepts_stray :
    let ps := durableHandle (S := memory []) .none 0
    let layout := Layout.ofMap strayPages fun _ => [1]
    (∀ p ∈ strayPages, ps.read strayStore [strayChange] p = .ok [1]) ∧
    ¬layout.Contiguous (ps.pageSize strayStore) ∧
    (hydrate ps strayStore [strayChange] "flock.duckdb" .none none :
      Except (KernelError (memory []) Empty) Unit × Option Bytes) = (.ok (), some [1]) := by
  intro ps layout
  refine ⟨strayStore_read, fun h => ?_, ?_⟩
  · have hnumbered := h.1
    rw [show layout = [(2 ^ 52, [1])] from strayPages_layout] at hnumbered
    exact absurd (hnumbered 0 (2 ^ 52, [1]) rfl) (by decide)
  · have hoffset : (2 ^ 52 : ℕ) * 2 ^ 12 % 2 ^ 64 = 0 := by decide
    have hlinesUp : Layout.LinesUp (ps.pageSize strayStore) 0 [(2 ^ 52, [1])] :=
      ⟨hoffset.symm, trivial⟩
    have hpages : (hydratePages ps strayStore [strayChange] strayPages.keys [] :
        Except (KernelError (memory []) Empty) Bytes) = .ok [1] := by
      have hread (p : PageNo) (hp : p ∈ strayPages.keys) :
          ps.read strayStore [strayChange] p = .ok [1] :=
        strayStore_read p (Std.ExtTreeMap.mem_keys.mp hp)
      rw [hydratePages_of_linesUp hread [] (by rw [strayPages_keys]; exact hlinesUp),
        strayPages_keys]
      rfl
    have hresolve : ps.resolve strayStore [strayChange] = .ok strayPages := rfl
    simp only [hydrate, hresolve, hpages]
    rfl

/-- A commit of nine bytes: two full pages of four and a short one. -/
def nineChange : Memory.Change :=
  ⟨[(0, some [1, 2, 3, 4]), (1, some [5, 6, 7, 8]), (2, some [9])], 0⟩

/-- What its pages hold. -/
def ninePages : PageNo → Bytes
  | 0 => [1, 2, 3, 4]
  | 1 => [5, 6, 7, 8]
  | _ => [9]

/-- The pages of that commit. -/
abbrev nineMap : PageMap (memory []).PageId := Memory.pageMap [nineChange]

/-- A store with pages of four bytes that stands at that commit. -/
def nineStore : DurableStore (memory []) where
  pager :=
    { cas := ⟨[[1, 2, 3, 4], [5, 6, 7, 8], [9]], [[nineChange]]⟩
      head := [nineChange]
      pageSize := 4 }
  wal := none

/-- Two full pages and a short one are written out. -/
theorem checksLayout_nine :
    ChecksLayout Empty (durableHandle (S := memory []) .none 0) nineStore [nineChange]
      (.ofMap nineMap ninePages)
      ⟨[1, 2, 3, 4, 5, 6, 7, 8, 9], by decide⟩ := by
  have hkeys : nineMap.keys = [0, 1, 2] := by decide +kernel
  have hlayout : Layout.ofMap nineMap ninePages =
      [(0, [1, 2, 3, 4]), (1, [5, 6, 7, 8]), (2, [9])] := by
    rw [Layout.ofMap, hkeys]
    rfl
  have hresolve : (durableHandle (S := memory []) .none 0).resolve nineStore [nineChange] =
      .ok nineMap := rfl
  have hread (p : PageNo) (hp : p ∈ nineMap) :
      (durableHandle (S := memory []) .none 0).read nineStore [nineChange] p =
        .ok (ninePages p) := by
    have hp' : p ∈ [0, 1, 2] := hkeys ▸ Std.ExtTreeMap.mem_keys.mpr hp
    have hnames : ∀ p ∈ [0, 1, 2], (Memory.pageMap [nineChange])[p]? = some (ninePages p) := by
      decide +kernel
    have hstored : ∀ p ∈ [0, 1, 2],
        Memory.get nineStore.pager.cas (ninePages p) = .ok (ninePages p) := by
      simp only [List.forall_mem_cons]
      exact ⟨rfl, rfl, rfl, fun _ h => by cases h⟩
    exact Memory.read_ok_iff.mpr ⟨nineMap, ninePages p, rfl, hnames p hp', hstored p hp'⟩
  have hnumbered : (Layout.ofMap nineMap ninePages).Numbered := by
    rw [hlayout]
    rintro (_ | _ | _ | i) page hi
    all_goals cases hi
    all_goals rfl
  have hsize : (durableHandle (S := memory []) .none 0).pageSize nineStore < 2 ^ 64 := by decide
  exact (checksLayout_iff hresolve hread hsize (by rw [hlayout]; rfl)).mpr fun h => h.2 hnumbered

end FlockDb.Paging
