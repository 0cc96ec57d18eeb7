import FlockDb.Substrate.PageStore

/-!
# The store behind a database

A database sits on a durable store or on a tiered one. The kernel sees either as a
page store whose algebra is the pager's and whose commit is its own: a durable
handle commits through the log, a tiered handle through the pager.
-/

namespace FlockDb

variable {S : Substrate} {σ : Type}

/-- `delegate_to_pager!`: everything but the commit goes to the pager inside a
handle. -/
def delegateToPager (pager : σ → Pager S) (setPager : σ → Pager S → σ) (faults : Faults S)
    (commit : σ → S.Txn → Except S.Error S.ManifestId × σ) : PageStore S σ where
  pageSize := fun st => (pager st).pageSize
  head := fun st => (pager st).head
  resolve := fun st m => S.resolve (pager st).cas m
  read := fun st m p => S.read (pager st).cas m p
  begin := fun st => (pager st).begin faults
  write := fun st txn p bytes =>
    let (result, pg) := (pager st).write faults txn p bytes
    (result, setPager st pg)
  remove := fun _ txn p => Pager.remove faults txn p
  commit

/-- `DurableHandle`: a page store whose commit is substrate's commit protocol. -/
def durableHandle (faults : Faults S) (nowMs : ℕ) : PageStore S (DurableStore S) :=
  delegateToPager DurableStore.pager (fun d pager => { d with pager }) faults fun d txn =>
    match d.commit faults txn nowMs with
    | (.error e, d) => (.error (S.backend e), d)
    | (.ok m, d) => (.ok m, d)

/-- `TieredHandle`: a page store over the pager of a tiered store. -/
def tieredHandle (faults : Faults S) (nowMs : ℕ) : PageStore S (Pager S) :=
  delegateToPager id (fun _ pager => pager) faults fun pager txn =>
    pager.commit faults txn nowMs

/-- A store whose transaction holds page changes: their names are staged, and
their bytes are in the store. -/
structure HoldsEdits (pager : Pager S) (txn : S.Txn) (edits : Edits) : Prop where
  staged : ∀ p, (S.staged txn)[p]? = (edits p).map (Option.map S.pageHash)
  stored : ∀ p bytes, edits p = some (some bytes) →
    S.get pager.cas (S.pageHash bytes) = .ok bytes

/-- A page whose change is staged reads as the change, once it is laid over the head. -/
theorem finds_edited (hS : S.ContentAddressed) {cas cas' : S.Cas} {m : S.ManifestId}
    {pages : PageMap S.PageId} {txn : S.Txn} {p : PageNo} {page : Option Bytes}
    (hgrows : S.Grows cas cas') (hstaged : (S.staged txn)[p]? = some (page.map S.pageHash))
    (hstored : ∀ bytes, page = some bytes → S.get cas (S.pageHash bytes) = .ok bytes)
    (hresolve : S.resolve cas' m = .ok (Overlay.overlay pages (S.staged txn))) :
    (p ∈ Overlay.overlay pages (S.staged txn) ↔ page.isSome) ∧
      ∀ bytes, page = some bytes → S.read cas' m p = .ok bytes := by
  have hlookup : (Overlay.overlay pages (S.staged txn))[p]? = page.map S.pageHash := by
    rw [Overlay.getElem?_overlay, hstaged, Option.getD_some]
  rw [Std.ExtTreeMap.mem_iff_isSome_getElem?, hlookup, Option.isSome_map]
  refine ⟨Iff.rfl, fun bytes hpage => hS.read_ok_iff.mpr ⟨_, S.pageHash bytes, hresolve, ?_, ?_⟩⟩
  · rw [hlookup, hpage, Option.map_some]
  · exact hgrows.get (hstored bytes hpage)

/-- A page without a staged change reads as at the head. -/
theorem finds_untouched (hS : S.ContentAddressed) {cas cas' : S.Cas} {head m : S.ManifestId}
    {pages : PageMap S.PageId} {txn : S.Txn} {p : PageNo} {page : Option Bytes}
    (hgrows : S.Grows cas cas') (hhead : S.resolve cas head = .ok pages)
    (hstaged : (S.staged txn)[p]? = none) (hmem : p ∈ pages ↔ page.isSome)
    (hread : ∀ bytes, page = some bytes → S.read cas head p = .ok bytes)
    (hresolve : S.resolve cas' m = .ok (Overlay.overlay pages (S.staged txn))) :
    (p ∈ Overlay.overlay pages (S.staged txn) ↔ page.isSome) ∧
      ∀ bytes, page = some bytes → S.read cas' m p = .ok bytes := by
  have hlookup : (Overlay.overlay pages (S.staged txn))[p]? = pages[p]? := by
    rw [Overlay.getElem?_overlay, hstaged, Option.getD_none]
  rw [Std.ExtTreeMap.mem_iff_isSome_getElem?, hlookup, ← Std.ExtTreeMap.mem_iff_isSome_getElem?]
  refine ⟨hmem, fun bytes hpage => ?_⟩
  obtain ⟨pages', id, hpages', hid, hget⟩ := hS.read_ok_iff.mp (hread bytes hpage)
  obtain rfl : pages' = pages := Except.ok.inj (hpages'.symm.trans hhead)
  exact hS.read_ok_iff.mpr ⟨_, id, hresolve, hlookup.trans hid, hgrows.get hget⟩

/-- What a handle's commit may do: refuse and change nothing, or move the pager to a
manifest whose pages are the head's with the staged names laid over. -/
inductive CommitOutcome (pager : σ → Pager S) (st : σ) (txn : S.Txn) :
    Except S.Error S.ManifestId × σ → Prop
  | refused (e : S.Error) : CommitOutcome pager st txn (.error e, st)
  | moved {m : S.ManifestId} {st' : σ} (head : (pager st').head = m)
      (pageSize : (pager st').pageSize = (pager st).pageSize)
      (grows : S.Grows (pager st).cas (pager st').cas)
      (resolve : ∀ {pages}, S.resolve (pager st).cas (pager st).head = .ok pages →
        S.resolve (pager st').cas m = .ok (Overlay.overlay pages (S.staged txn))) :
      CommitOutcome pager st txn (.ok m, st')

/-- A change staged for a page is the change of that page. -/
theorem staged_update {changes : Changes S.PageId} {edits : Edits}
    (h : ∀ p, changes[p]? = (edits p).map (Option.map S.pageHash)) (p : PageNo)
    (edit : Option Bytes) (q : PageNo) :
    (changes.insert p (edit.map S.pageHash))[q]? =
      (Function.update edits p (some edit) q).map (Option.map S.pageHash) := by
  rw [Std.ExtTreeMap.getElem?_insert]
  by_cases hpq : compare p q = .eq
  · obtain rfl : p = q := compare_eq_iff_eq.mp hpq
    rw [if_pos hpq, Function.update_self]
    rfl
  · have hne : q ≠ p := by
      rintro rfl
      exact hpq (compare_eq_iff_eq.mpr rfl)
    rw [if_neg hpq, Function.update_of_ne hne, h q]

/-- Staging a page through a pager: a refusal, or a page more and its name staged. -/
theorem holdsEdits_write (hS : S.Stages) {pager : Pager S} {txn : S.Txn} {edits : Edits}
    (h : HoldsEdits pager txn edits) (faults : Faults S) (p : PageNo) (bytes : Bytes) :
    (pager.write faults txn p bytes).2.head = pager.head ∧
      (pager.write faults txn p bytes).2.pageSize = pager.pageSize ∧
      S.Grows pager.cas (pager.write faults txn p bytes).2.cas ∧
      ∀ id txn', (pager.write faults txn p bytes).1 = .ok (id, txn') →
        HoldsEdits (pager.write faults txn p bytes).2 txn'
          (Function.update edits p (some (some bytes))) := by
  unfold Pager.write
  cases hfault : faults (.write p) with
  | some e => exact ⟨rfl, rfl, .refl _, fun id txn' htxn => by cases htxn⟩
  | none =>
    have hgrows := hS.grows_write pager.cas txn p bytes
    refine ⟨rfl, rfl, hgrows, fun id txn' htxn => ?_⟩
    obtain ⟨-, rfl⟩ : _ ∧ (S.write pager.cas txn p bytes).2.1 = txn' := by
      simpa using htxn
    constructor
    · intro q
      rw [hS.staged_write]
      exact staged_update h.staged p (some bytes) q
    · intro q bytes' hq
      by_cases hqp : q = p
      · subst hqp
        rw [Function.update_self] at hq
        obtain rfl : bytes = bytes' := by simpa using hq
        exact hS.get_write pager.cas txn q bytes
      · rw [Function.update_of_ne hqp] at hq
        exact hgrows.get (h.stored q bytes' hq)

/-- A removal is a change more. -/
theorem HoldsEdits.remove (hS : S.Stages) {pager : Pager S} {txn : S.Txn} {edits : Edits}
    (h : HoldsEdits pager txn edits) (p : PageNo) :
    HoldsEdits pager (S.remove txn p) (Function.update edits p (some none)) where
  staged := by
    intro q
    rw [hS.staged_remove]
    exact staged_update h.staged p none q
  stored := by
    intro q bytes hq
    by_cases hqp : q = p
    · subst hqp
      rw [Function.update_self] at hq
      cases hq
    · rw [Function.update_of_ne hqp] at hq
      exact h.stored q bytes hq

/-- A handle that delegates to its pager applies its commits, if its commit moves the
pager as a commit does. -/
theorem delegateToPager_applies (hS : S.Laws) {pager : σ → Pager S}
    {setPager : σ → Pager S → σ} (hset : ∀ st pg, pager (setPager st pg) = pg)
    (faults : Faults S) {commit : σ → S.Txn → Except S.Error S.ManifestId × σ}
    (hcommit : ∀ st txn, CommitOutcome pager st txn (commit st txn)) :
    (delegateToPager pager setPager faults commit).Applies
      fun st txn edits => HoldsEdits (pager st) txn edits where
  begin := by
    intro st txn hbegin
    have hstaged : S.staged txn = ∅ := by
      have hbegin : faults.guard .begin (.ok (S.begin (pager st).head)) = .ok txn := hbegin
      cases hfault : faults .begin with
      | some e => simp [Faults.guard, hfault] at hbegin
      | none =>
        obtain rfl : S.begin (pager st).head = txn := by simpa [Faults.guard, hfault] using hbegin
        exact hS.staged_begin _
    exact ⟨fun p => by simp [hstaged], fun p bytes hp => by cases hp⟩
  write := by
    intro st txn edits hholds p bytes
    obtain ⟨hhead, hsize, hgrows, hok⟩ := holdsEdits_write hS.toStages hholds faults p bytes
    have hpager : pager ((delegateToPager pager setPager faults commit).write st txn p bytes).2 =
        ((pager st).write faults txn p bytes).2 := hset _ _
    refine ⟨⟨?_, ?_, fun hresolve => ?_, fun hread => ?_⟩, fun id txn' htxn => ?_⟩
    · exact (congrArg Pager.pageSize hpager).trans hsize
    · exact (congrArg Pager.head hpager).trans hhead
    · exact (hpager.symm ▸ hgrows).resolve hresolve
    · exact hS.toContentAddressed.read_grows (hpager.symm ▸ hgrows) hread
    · rw [hpager]
      exact hok id txn' htxn
  remove := by
    intro st txn edits hholds p txn' hremove
    have hremove : faults.guard (.remove p) (.ok (S.remove txn p)) = .ok txn' := hremove
    cases hfault : faults (.remove p) with
    | some e => simp [Faults.guard, hfault] at hremove
    | none =>
      obtain rfl : S.remove txn p = txn' := by simpa [Faults.guard, hfault] using hremove
      exact hholds.remove hS.toStages p
  commit_error := by
    intro st txn e herror
    have houtcome := hcommit st txn
    have herror : (commit st txn).1 = .error e := herror
    change PageStore.Undisturbed _ st (commit st txn).2
    generalize commit st txn = result at houtcome herror
    cases houtcome with
    | refused _ => exact .refl st
    | moved _ _ _ _ => cases herror
  commit_ok := by
    intro st txn edits pages m hholds hresolve hok
    have houtcome := hcommit st txn
    have hok : (commit st txn).1 = .ok m := hok
    have hresolve : S.resolve (pager st).cas (pager st).head = .ok pages := hresolve
    change (pager (commit st txn).2).pageSize = (pager st).pageSize ∧
      (pager (commit st txn).2).head = m ∧ ∀ p,
        (∀ page, edits p = some page →
          (delegateToPager pager setPager faults commit).Finds (commit st txn).2 m p page) ∧
        (edits p = none → ∀ page,
          (delegateToPager pager setPager faults commit).Finds st (pager st).head p page →
          (delegateToPager pager setPager faults commit).Finds (commit st txn).2 m p page)
    generalize commit st txn = result at houtcome hok
    cases houtcome with
    | refused _ => cases hok
    | moved hhead hsize hgrows hresolve' =>
      obtain rfl := Except.ok.inj hok
      have hoverlay := hresolve' hresolve
      refine ⟨hsize, hhead, fun p => ⟨fun page hedit => ?_, fun hedit page hfinds => ?_⟩⟩
      · refine ⟨_, hoverlay, finds_edited hS.toContentAddressed hgrows ?_ ?_ hoverlay⟩
        · rw [hholds.staged p, hedit, Option.map_some]
        · rintro bytes rfl
          exact hholds.stored p bytes hedit
      · obtain ⟨pages', hpages', hmem, hread⟩ := hfinds
        obtain rfl : pages = pages' := Except.ok.inj (hresolve.symm.trans hpages')
        refine ⟨_, hoverlay, finds_untouched hS.toContentAddressed hgrows hresolve ?_ hmem hread
          hoverlay⟩
        rw [hholds.staged p, hedit, Option.map_none]

/-- A commit through a durable handle is refused, or moves its pager. -/
theorem durableHandle_outcome (hS : S.Commits) (faults : Faults S) (nowMs : ℕ)
    (store : DurableStore S) (txn : S.Txn) :
    CommitOutcome DurableStore.pager store txn
      ((durableHandle faults nowMs).commit store txn) := by
  change CommitOutcome DurableStore.pager store txn (match store.commit faults txn nowMs with
    | (.error e, d) => (.error (S.backend e), d)
    | (.ok m, d) => (.ok m, d))
  rcases DurableStore.commit_cases hS faults store txn nowMs with
    ⟨e, -, herror⟩ | ⟨-, store', hok, hcommitted⟩
  · rw [herror]
    exact .refused _
  · rw [hok]
    exact .moved rfl hcommitted.pageSize_eq hcommitted.grows hcommitted.resolve

/-- A commit through a tiered handle is refused, or moves its pager. -/
theorem tieredHandle_outcome (hS : S.Installs) (faults : Faults S) (nowMs : ℕ) (pager : Pager S)
    (txn : S.Txn) : CommitOutcome id pager txn ((tieredHandle faults nowMs).commit pager txn) := by
  change CommitOutcome id pager txn (pager.commit faults txn nowMs)
  rw [Pager.commit]
  cases faults .commit with
  | some e => exact .refused e
  | none =>
    exact .moved rfl rfl (hS.grows_install _ _ _ _) fun hresolve => hS.resolve_install _ _ hresolve

/-- A durable handle applies its commits. -/
theorem durableHandle_applies (hS : S.Laws) (faults : Faults S) (nowMs : ℕ) :
    (durableHandle faults nowMs).Applies
      fun st txn edits => HoldsEdits st.pager txn edits :=
  delegateToPager_applies hS (fun _ _ => rfl) faults
    (durableHandle_outcome hS.toCommits faults nowMs)

/-- A tiered handle applies its commits. -/
theorem tieredHandle_applies (hS : S.Laws) (faults : Faults S) (nowMs : ℕ) :
    (tieredHandle faults nowMs).Applies
      fun st txn edits => HoldsEdits st txn edits :=
  delegateToPager_applies hS (fun _ _ => rfl) faults
    (tieredHandle_outcome hS.toInstalls faults nowMs)

/-- A store in which a manifest resolves to exactly these pages, all of them readable. -/
def Substrate.Stores (S : Substrate) (cas : S.Cas) (m : S.ManifestId) (contents : Contents) :
    Prop :=
  ∃ pages, S.resolve cas m = .ok pages ∧ ∀ p, (p ∈ pages ↔ (contents p).isSome) ∧
    ∀ bytes, contents p = some bytes → S.read cas m p = .ok bytes

/-- A store that grew still has the pages of a manifest. -/
theorem Substrate.Stores.grows (hS : S.ContentAddressed) {cas cas' : S.Cas} {m : S.ManifestId}
    {contents : Contents} (h : S.Stores cas m contents) (hgrows : S.Grows cas cas') :
    S.Stores cas' m contents := by
  obtain ⟨pages, hresolve, hpages⟩ := h
  exact ⟨pages, hgrows.resolve hresolve, fun p =>
    ⟨(hpages p).1, fun bytes hp => hS.read_grows hgrows ((hpages p).2 bytes hp)⟩⟩

/-- What a durable handle reads is what its store has. -/
theorem durableHandle_reads_iff {faults : Faults S} {nowMs : ℕ} {store : DurableStore S}
    {m : S.ManifestId} {contents : Contents} :
    (durableHandle faults nowMs).Reads store m contents ↔
      S.Stores store.pager.cas m contents := Iff.rfl

/-- A durable store that went on: it has everything it had, under the same page size. -/
structure DurableStore.Onward (store store' : DurableStore S) : Prop where
  grows : S.Grows store.pager.cas store'.pager.cas
  pageSize_eq : store'.pager.pageSize = store.pager.pageSize

/-- Going on composes. -/
theorem DurableStore.Onward.trans {store store' store'' : DurableStore S}
    (h : store.Onward store') (h' : store'.Onward store'') : store.Onward store'' :=
  ⟨h.grows.trans h'.grows, h'.pageSize_eq.trans h.pageSize_eq⟩

/-- A write through a durable handle goes on. -/
theorem durableHandle_write_onward (hS : S.Stages) (faults : Faults S) (nowMs : ℕ)
    (store : DurableStore S) (txn : S.Txn) (p : PageNo) (bytes : Bytes) :
    store.Onward ((durableHandle faults nowMs).write store txn p bytes).2 := by
  change store.Onward { store with pager := (store.pager.write faults txn p bytes).2 }
  rw [Pager.write]
  cases faults (.write p) with
  | some e => exact ⟨.refl _, rfl⟩
  | none => exact ⟨hS.grows_write _ _ _ _, rfl⟩

/-- A commit through a durable handle leaves what the durable store's commit leaves. -/
theorem durableHandle_commit_snd (faults : Faults S) (nowMs : ℕ) (store : DurableStore S)
    (txn : S.Txn) :
    ((durableHandle faults nowMs).commit store txn).2 = (store.commit faults txn nowMs).2 := by
  change (match store.commit faults txn nowMs with
    | (.error e, d) => (.error (S.backend e), d)
    | (.ok m, d) => (.ok m, d) : Except S.Error S.ManifestId × DurableStore S).2 = _
  rcases store.commit faults txn nowMs with ⟨e | m, store'⟩ <;> rfl

/-- A commit through a durable handle goes on. -/
theorem durableHandle_commit_onward (hS : S.Commits) (faults : Faults S) (nowMs : ℕ)
    (store : DurableStore S) (txn : S.Txn) :
    store.Onward ((durableHandle faults nowMs).commit store txn).2 := by
  rw [durableHandle_commit_snd]
  rcases DurableStore.commit_cases hS faults store txn nowMs with
    ⟨e, -, herror⟩ | ⟨-, store', hok, hcommitted⟩
  · rw [herror]
    exact ⟨.refl _, rfl⟩
  · rw [hok]
    exact ⟨hcommitted.grows, hcommitted.pageSize_eq⟩

/-- Without faults, a handle whose commit never fails never fails. -/
theorem delegateToPager_neverFails (pager : σ → Pager S) (setPager : σ → Pager S → σ)
    {commit : σ → S.Txn → Except S.Error S.ManifestId × σ}
    (hcommit : ∀ st txn, ∃ m, (commit st txn).1 = .ok m) :
    (delegateToPager pager setPager .none commit).NeverFails where
  begin := fun _ => ⟨_, rfl⟩
  write := fun _ _ _ _ => ⟨_, rfl⟩
  remove := fun _ _ _ => ⟨_, rfl⟩
  commit := hcommit

/-- Without faults, a durable handle never fails. -/
theorem durableHandle_neverFails (nowMs : ℕ) :
    (durableHandle .none nowMs : PageStore S (DurableStore S)).NeverFails :=
  delegateToPager_neverFails _ _ fun _ _ => ⟨_, rfl⟩

/-- Without faults, a tiered handle never fails. -/
theorem tieredHandle_neverFails (nowMs : ℕ) :
    (tieredHandle .none nowMs : PageStore S (Pager S)).NeverFails :=
  delegateToPager_neverFails _ _ fun _ _ => ⟨_, rfl⟩

end FlockDb
