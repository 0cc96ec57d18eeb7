import FlockDb.Library.Runs
import FlockDb.Vfs.Read
import FlockDb.Substrate.Memory

/-!
# Concurrent page faults

Many threads fault pages through one source. A cold page is fetched and filled into the local
cache through a temporary file that is named by the page's content and then renamed, so two
threads that fill the same content at once lose the file to each other. A gate keeps them
apart, and the gate is chosen by the page number. Every thread takes its steps one at a time,
in any order with the other threads' steps.
-/

namespace FlockDb

open Runs

variable {S : Substrate} {τ : Type}

/-- `FAULT_STRIPES`. -/
def faultStripes : ℕ := 1024

/-- The gate of a page, `page_no as usize % FAULT_STRIPES`. -/
def gateOf (pageNo : UInt64) : ℕ := pageNo.toNat % faultStripes

/-- Why the pager could not read a page: the store's error, or a rename whose temporary file
is gone. -/
inductive FillError (S : Substrate) where
  | store (source : S.Error)
  | noEntity

/-- What one `read_page` returns. -/
abbrev PageResult (S : Substrate) := Except (VfsError (FillError S)) Bytes

/-- Where a thread is in `read_page`. From `holding` on it holds the gate of its page. -/
inductive Phase (S : Substrate) where
  | idle
  | waiting (pageNo : UInt64)
  | holding (pageNo : UInt64)
  | filling (pageNo : UInt64) (bytes : Bytes)
  | renaming (pageNo : UInt64) (bytes : Bytes)
  | returning (pageNo : UInt64) (result : PageResult S)

/-- The page whose gate a thread holds. -/
def Phase.gated : Phase S → Option UInt64
  | .idle | .waiting _ => none
  | .holding pageNo | .filling pageNo _ | .renaming pageNo _ | .returning pageNo _ => some pageNo

/-- The page that a thread is filling into the cache, and its bytes. -/
def Phase.fills : Phase S → Option (UInt64 × Bytes)
  | .filling pageNo bytes | .renaming pageNo bytes => some (pageNo, bytes)
  | _ => none

/-- The threads, the gates and the local cache: its files, and the temporary files next to
them, both named by content. -/
structure FaultState (S : Substrate) (τ : Type) where
  phase : τ → Phase S
  owner : ℕ → Option τ
  cached : S.PageId → Option Bytes
  temp : S.PageId → Option Bytes

/-- A thread calls `read_page`, or takes its next step. -/
inductive FaultEvent (τ : Type) where
  | begin (t : τ) (pageNo : UInt64)
  | advance (t : τ)

namespace FaultState

/-- Move a thread to a phase. -/
def setPhase [DecidableEq τ] (s : FaultState S τ) (t : τ) (phase : Phase S) : FaultState S τ :=
  { s with phase := Function.update s.phase t phase }

/-- All threads idle, all gates free, and nothing in the cache. -/
def cold : FaultState S τ := ⟨fun _ => .idle, fun _ => none, fun _ => none, fun _ => none⟩

/-- One step of a thread: take the gate, look for the page in the cache, fetch it from the
tier, write its temporary file, rename it into place, return and let the gate go. A thread
whose gate is taken waits. The output is what a call returned. -/
def step [DecidableEq τ] (tier : S.Cas) (head : S.ManifestId) (s : FaultState S τ) :
    FaultEvent τ → Option (UInt64 × PageResult S) × FaultState S τ
  | .begin t pageNo =>
    match s.phase t with
    | .idle => (none, s.setPhase t (.waiting pageNo))
    | _ => (none, s)
  | .advance t =>
    match s.phase t with
    | .idle => (none, s)
    | .waiting pageNo =>
      match s.owner (gateOf pageNo) with
      | some _ => (none, s)
      | none =>
        (none, { s with owner := Function.update s.owner (gateOf pageNo) (some t) }.setPhase t
          (.holding pageNo))
    | .holding pageNo =>
      match S.read tier head pageNo.toNat with
      | .error source =>
        (none, s.setPhase t (.returning pageNo (.error (.fault pageNo.toNat (.store source)))))
      | .ok bytes =>
        match s.cached (S.pageHash bytes) with
        | some page => (none, s.setPhase t (.returning pageNo (.ok page)))
        | none => (none, s.setPhase t (.filling pageNo bytes))
    | .filling pageNo bytes =>
      (none, { s with temp := Function.update s.temp (S.pageHash bytes) (some bytes) }.setPhase t
        (.renaming pageNo bytes))
    | .renaming pageNo bytes =>
      match s.temp (S.pageHash bytes) with
      | none => (none, s.setPhase t (.returning pageNo (.error (.fault pageNo.toNat .noEntity))))
      | some page =>
        (none, { s with
          cached := Function.update s.cached (S.pageHash bytes) (some page)
          temp := Function.update s.temp (S.pageHash bytes) none }.setPhase t
          (.returning pageNo (.ok bytes)))
    | .returning pageNo result =>
      (some (pageNo, result),
        { s with owner := Function.update s.owner (gateOf pageNo) none }.setPhase t .idle)

/-- At most one thread at a time fills the cache entry of any content. -/
def Exclusive (s : FaultState S τ) : Prop :=
  ∀ t t' pageNo pageNo' bytes, (s.phase t).fills = some (pageNo, bytes) →
    (s.phase t').fills = some (pageNo', bytes) → t = t'

/-- A call for a page that the tier has returned its bytes. -/
def Unbroken (tier : S.Cas) (head : S.ManifestId) : Option (UInt64 × PageResult S) → Prop
  | none => True
  | some (pageNo, result) =>
    ∀ bytes, S.read tier head pageNo.toNat = .ok bytes → result = .ok bytes

/-- What holds between two steps when no content is filled by two threads: a gated thread owns
its gate, the cache and the temporary files have the content they are named by, and a thread
that has written its file finds it. -/
structure Gated (tier : S.Cas) (head : S.ManifestId) (s : FaultState S τ) : Prop where
  owns : ∀ t pageNo, (s.phase t).gated = some pageNo → s.owner (gateOf pageNo) = some t
  fetched : ∀ t pageNo bytes, (s.phase t).fills = some (pageNo, bytes) →
    S.read tier head pageNo.toNat = .ok bytes
  cached : ∀ bytes page, s.cached (S.pageHash bytes) = some page → page = bytes
  temp : ∀ bytes page, s.temp (S.pageHash bytes) = some page → page = bytes
  written : ∀ t pageNo bytes, s.phase t = .renaming pageNo bytes →
    s.temp (S.pageHash bytes) = some bytes
  returning : ∀ t pageNo result, s.phase t = .returning pageNo result →
    Unbroken tier head (some (pageNo, result))

/-- The gate of a page keeps every other page apart that has the same content. -/
def SharesGate (tier : S.Cas) (head : S.ManifestId) : Prop :=
  ∀ pageNo pageNo' bytes, S.read tier head (UInt64.toNat pageNo) = .ok bytes →
    S.read tier head (UInt64.toNat pageNo') = .ok bytes → gateOf pageNo = gateOf pageNo'

variable {tier : S.Cas} {head : S.ManifestId}

/-- A thread that fills a page holds its gate. -/
theorem Phase.gated_of_fills {phase : Phase S} {pageNo : UInt64} {bytes : Bytes}
    (h : phase.fills = some (pageNo, bytes)) : phase.gated = some pageNo := by
  cases phase with
  | filling q b => exact congrArg (Option.map Prod.fst) h
  | «renaming» q b => exact congrArg (Option.map Prod.fst) h
  | _ => cases h

/-- Two threads that fill the same content hold the same gate, so they are one thread. -/
theorem Gated.exclusive {s : FaultState S τ} (h : Gated tier head s)
    (hgates : Subsingleton τ ∨ SharesGate (S := S) tier head) : Exclusive s := by
  intro t t' pageNo pageNo' bytes hfills hfills'
  rcases hgates with hsingle | hshares
  · exact hsingle.elim t t'
  · have howner := h.owns t pageNo (Phase.gated_of_fills hfills)
    rw [hshares pageNo pageNo' bytes (h.fetched t pageNo bytes hfills)
      (h.fetched t' pageNo' bytes hfills'),
      h.owns t' pageNo' (Phase.gated_of_fills hfills')] at howner
    exact (Option.some.inj howner).symm

/-- A thread takes a gate that is free. -/
theorem Gated.take {s : FaultState S τ} (h : Gated tier head s) {gate : ℕ}
    (hfree : s.owner gate = none) (t : τ) :
    Gated tier head { s with owner := Function.update s.owner gate (some t) } where
  owns := by
    intro u pageNo hgated
    have howner := h.owns u pageNo hgated
    have hne : gateOf pageNo ≠ gate := by
      rintro rfl
      rw [hfree] at howner
      cases howner
    exact (Function.update_of_ne hne ..).trans howner
  fetched := h.fetched
  cached := h.cached
  temp := h.temp
  written := h.written
  returning := h.returning

/-- A gate that no thread has can be let go. -/
theorem Gated.release {s : FaultState S τ} (h : Gated tier head s) {gate : ℕ}
    (hunheld : ∀ u pageNo, (s.phase u).gated = some pageNo → gateOf pageNo ≠ gate) :
    Gated tier head { s with owner := Function.update s.owner gate none } where
  owns := by
    intro u pageNo hgated
    exact (Function.update_of_ne (hunheld u pageNo hgated) ..).trans (h.owns u pageNo hgated)
  fetched := h.fetched
  cached := h.cached
  temp := h.temp
  written := h.written
  returning := h.returning

/-- A file under the name of its content is right for every content. -/
theorem update_named {S : Substrate} (hS : S.ContentAddressed) {files : S.PageId → Option Bytes}
    (hfiles : ∀ bytes page, files (S.pageHash bytes) = some page → page = bytes) (filed : Bytes)
    (bytes page : Bytes)
    (h : Function.update files (S.pageHash filed) (some filed) (S.pageHash bytes) = some page) :
    page = bytes := by
  by_cases heq : S.pageHash bytes = S.pageHash filed
  · rw [heq, Function.update_self] at h
    rw [hS.pageHash_injective heq]
    exact (Option.some.inj h).symm
  · rw [Function.update_of_ne heq] at h
    exact hfiles bytes page h

/-- A thread writes its temporary file, over that of another thread if there is one. -/
theorem Gated.writeTemp (hS : S.ContentAddressed) {s : FaultState S τ} (h : Gated tier head s)
    (filed : Bytes) :
    Gated tier head { s with
      temp := Function.update s.temp (S.pageHash filed) (some filed) } where
  owns := h.owns
  fetched := h.fetched
  cached := h.cached
  temp := update_named hS h.temp filed
  written := by
    intro t pageNo bytes hphase
    by_cases heq : S.pageHash bytes = S.pageHash filed
    · rw [hS.pageHash_injective heq]
      exact Function.update_self ..
    · exact (Function.update_of_ne heq ..).trans (h.written t pageNo bytes hphase)
  returning := h.returning

/-- The temporary file of a content that no thread has yet to rename goes into the cache. -/
theorem Gated.rename (hS : S.ContentAddressed) {s : FaultState S τ} (h : Gated tier head s)
    {filed : Bytes} (hunused : ∀ t pageNo, s.phase t ≠ .renaming pageNo filed) :
    Gated tier head { s with
      cached := Function.update s.cached (S.pageHash filed) (some filed)
      temp := Function.update s.temp (S.pageHash filed) none } where
  owns := h.owns
  fetched := h.fetched
  cached := update_named hS h.cached filed
  temp := by
    intro bytes page hpage
    change Function.update s.temp (S.pageHash filed) none (S.pageHash bytes) = some page at hpage
    by_cases heq : S.pageHash bytes = S.pageHash filed
    · rw [heq, Function.update_self] at hpage
      cases hpage
    · rw [Function.update_of_ne heq] at hpage
      exact h.temp bytes page hpage
  written := by
    intro t pageNo bytes hphase
    have hne : S.pageHash bytes ≠ S.pageHash filed := by
      intro heq
      rw [hS.pageHash_injective heq] at hphase
      exact hunused t pageNo hphase
    exact (Function.update_of_ne hne ..).trans (h.written t pageNo bytes hphase)
  returning := h.returning

variable [DecidableEq τ]

@[simp] theorem setPhase_phase_self (s : FaultState S τ) (t : τ) (phase : Phase S) :
    (s.setPhase t phase).phase t = phase := Function.update_self ..

theorem setPhase_phase_of_ne (s : FaultState S τ) {t u : τ} (hne : u ≠ t) (phase : Phase S) :
    (s.setPhase t phase).phase u = s.phase u := Function.update_of_ne hne ..

/-- A thread moves to a phase for which it has what the phase needs. -/
theorem Gated.setPhase {s : FaultState S τ} (h : Gated tier head s) {t : τ} {phase : Phase S}
    (howns : ∀ pageNo, phase.gated = some pageNo → s.owner (gateOf pageNo) = some t)
    (hfetched : ∀ pageNo bytes, phase.fills = some (pageNo, bytes) →
      S.read tier head pageNo.toNat = .ok bytes)
    (hwritten : ∀ pageNo bytes, phase = .renaming pageNo bytes →
      s.temp (S.pageHash bytes) = some bytes)
    (hreturning : ∀ pageNo result, phase = .returning pageNo result →
      Unbroken tier head (some (pageNo, result))) :
    Gated tier head (s.setPhase t phase) := by
  have hcases {P : Phase S → τ → Prop} (hself : P phase t) (hrest : ∀ u, P (s.phase u) u)
      (u : τ) : P ((s.setPhase t phase).phase u) u := by
    by_cases hu : u = t
    · subst hu
      rwa [setPhase_phase_self]
    · rw [setPhase_phase_of_ne s hu]
      exact hrest u
  exact {
    owns := hcases (P := fun phase u => ∀ pageNo, phase.gated = some pageNo →
      s.owner (gateOf pageNo) = some u) howns h.owns
    fetched := hcases (P := fun phase _ => ∀ pageNo bytes, phase.fills = some (pageNo, bytes) →
      S.read tier head pageNo.toNat = .ok bytes) hfetched h.fetched
    cached := h.cached
    temp := h.temp
    written := hcases (P := fun phase _ => ∀ pageNo bytes, phase = .renaming pageNo bytes →
      s.temp (S.pageHash bytes) = some bytes) hwritten h.written
    returning := hcases (P := fun phase _ => ∀ pageNo result,
      phase = .returning pageNo result → Unbroken tier head (some (pageNo, result)))
      hreturning h.returning }

omit [DecidableEq τ] in
/-- A cold cache has no fault under way. -/
theorem gated_cold : Gated tier head (cold : FaultState S τ) := by
  constructor <;> intros <;> contradiction

/-- A thread that waits moves on to hold its gate, when the gate is free. -/
theorem Gated.hold {s : FaultState S τ} (h : Gated tier head s) (t : τ) {pageNo : UInt64}
    (hfree : s.owner (gateOf pageNo) = none) :
    Gated tier head ({ s with owner := Function.update s.owner (gateOf pageNo) (some t) }.setPhase
      t (.holding pageNo)) := by
  refine (h.take hfree t).setPhase ?_ (by rintro _ _ ⟨⟩) (by rintro _ _ ⟨⟩) (by rintro _ _ ⟨⟩)
  rintro _ ⟨⟩
  exact Function.update_self ..

/-- A thread that holds its gate returns. -/
theorem Gated.return {s : FaultState S τ} (h : Gated tier head s) {t : τ} {pageNo : UInt64}
    (hgated : (s.phase t).gated = some pageNo) {result : PageResult S}
    (hresult : Unbroken tier head (some (pageNo, result))) :
    Gated tier head (s.setPhase t (.returning pageNo result)) := by
  refine h.setPhase ?_ (by rintro _ _ ⟨⟩) (by rintro _ _ ⟨⟩) ?_
  · rintro _ ⟨⟩
    exact h.owns t pageNo hgated
  · rintro _ _ ⟨⟩
    exact hresult

/-- A thread that has returned lets its gate go. -/
theorem Gated.finish {s : FaultState S τ} (h : Gated tier head s) {t : τ} {pageNo : UInt64}
    (hgated : (s.phase t).gated = some pageNo) :
    Gated tier head ({ s with owner := Function.update s.owner (gateOf pageNo) none }.setPhase
      t .idle) := by
  have hidle : Gated tier head (s.setPhase t .idle) :=
    h.setPhase (by rintro _ ⟨⟩) (by rintro _ _ ⟨⟩) (by rintro _ _ ⟨⟩) (by rintro _ _ ⟨⟩)
  refine hidle.release fun u pageNo' hgated' hsame => ?_
  by_cases hu : u = t
  · subst hu
    rw [setPhase_phase_self] at hgated'
    cases hgated'
  · rw [setPhase_phase_of_ne s hu] at hgated'
    have howner := h.owns u pageNo' hgated'
    rw [hsame, h.owns t pageNo hgated] at howner
    exact hu (Option.some.inj howner).symm

/-- Every step of a thread keeps the invariant. -/
theorem Gated.step (hS : S.ContentAddressed)
    (hgates : Subsingleton τ ∨ SharesGate (S := S) tier head) (s : FaultState S τ)
    (event : FaultEvent τ) (h : Gated tier head s) :
    Gated tier head (step tier head s event).2 := by
  cases event with
  | begin t pageNo =>
    cases hphase : s.phase t with
    | idle =>
      simp only [FaultState.step, hphase]
      exact h.setPhase (by rintro _ ⟨⟩) (by rintro _ _ ⟨⟩) (by rintro _ _ ⟨⟩) (by rintro _ _ ⟨⟩)
    | _ => simpa only [FaultState.step, hphase] using h
  | advance t =>
    cases hphase : s.phase t with
    | idle => simpa only [FaultState.step, hphase] using h
    | waiting pageNo =>
      cases howner : s.owner (gateOf pageNo) with
      | some u => simpa only [FaultState.step, hphase, howner] using h
      | none =>
        simp only [FaultState.step, hphase, howner]
        exact h.hold t howner
    | holding pageNo =>
      have hgated : (s.phase t).gated = some pageNo := by rw [hphase]; rfl
      cases hread : S.read tier head pageNo.toNat with
      | error source =>
        simp only [FaultState.step, hphase, hread]
        exact h.return hgated fun bytes hbytes => by rw [hread] at hbytes; cases hbytes
      | ok bytes =>
        cases hcached : s.cached (S.pageHash bytes) with
        | some page =>
          -- the page is in the cache already, under the name of these bytes
          simp only [FaultState.step, hphase, hread, hcached]
          refine h.return hgated fun bytes' hbytes' => ?_
          rw [h.cached bytes page hcached, Except.ok.inj (hread.symm.trans hbytes')]
        | none =>
          simp only [FaultState.step, hphase, hread, hcached]
          refine h.setPhase ?_ ?_ (by rintro _ _ ⟨⟩) (by rintro _ _ ⟨⟩)
          · rintro _ ⟨⟩
            exact h.owns t pageNo hgated
          · rintro _ _ ⟨⟩
            exact hread
    | filling pageNo bytes =>
      have hfills : (s.phase t).fills = some (pageNo, bytes) := by rw [hphase]; rfl
      simp only [FaultState.step, hphase]
      refine (h.writeTemp hS bytes).setPhase ?_ ?_ ?_ (by rintro _ _ ⟨⟩)
      · rintro _ ⟨⟩
        exact h.owns t pageNo (Phase.gated_of_fills hfills)
      · rintro _ _ ⟨⟩
        exact h.fetched t pageNo bytes hfills
      · rintro _ _ ⟨⟩
        exact Function.update_self ..
    | «renaming» pageNo bytes =>
      have hfills : (s.phase t).fills = some (pageNo, bytes) := by rw [hphase]; rfl
      have hread := h.fetched t pageNo bytes hfills
      simp only [FaultState.step, hphase, h.written t pageNo bytes hphase]
      have hreturn : Gated tier head (s.setPhase t (.returning pageNo (.ok bytes))) :=
        h.return (Phase.gated_of_fills hfills) fun bytes' hbytes' => by
          rw [Except.ok.inj (hread.symm.trans hbytes')]
      -- no other thread waits for this temporary file: it would be filling the same content
      refine hreturn.rename hS fun u pageNo' hrenaming => ?_
      by_cases hu : u = t
      · subst hu
        rw [setPhase_phase_self] at hrenaming
        cases hrenaming
      · rw [setPhase_phase_of_ne s hu] at hrenaming
        exact hu (h.exclusive hgates u t pageNo' pageNo bytes (by rw [hrenaming]; rfl) hfills)
    | returning pageNo result =>
      simp only [FaultState.step, hphase]
      exact h.finish (by rw [hphase]; rfl)

/-- What a step returns is what an undisturbed read returns. -/
theorem Gated.unbroken {s : FaultState S τ} (h : Gated tier head s) (event : FaultEvent τ) :
    Unbroken tier head (FaultState.step tier head s event).1 := by
  cases event with
  | begin t pageNo => cases hphase : s.phase t <;> simp [FaultState.step, hphase, Unbroken]
  | advance t =>
    cases hphase : s.phase t with
    | returning pageNo result =>
      simp only [FaultState.step, hphase]
      exact h.returning t pageNo result hphase
    | idle => simp [FaultState.step, hphase, Unbroken]
    | _ =>
      simp only [FaultState.step, hphase]
      repeat' split
      all_goals trivial

/-- Two threads find two pages of one content missing from the cache, and fetch them. -/
def collide (t t' : τ) (pageNo pageNo' : UInt64) : List (FaultEvent τ) :=
  [.begin t pageNo, .begin t' pageNo', .advance t, .advance t', .advance t, .advance t']

/-- Both threads write their temporary file and rename it, and the second one returns. -/
def lose (t t' : τ) : List (FaultEvent τ) :=
  [.advance t, .advance t', .advance t, .advance t', .advance t']

variable {t t' : τ} {pageNo pageNo' : UInt64} {bytes : Bytes}

/-- When the two pages have different gates, both threads are filling the same content. -/
theorem phase_collide (hne : t ≠ t') (hread : S.read tier head pageNo.toNat = .ok bytes)
    (hread' : S.read tier head pageNo'.toNat = .ok bytes)
    (hgate : gateOf pageNo ≠ gateOf pageNo') :
    let s := (run (step tier head) cold (collide t t' pageNo pageNo')).2
    s.phase t = .filling pageNo bytes ∧ s.phase t' = .filling pageNo' bytes := by
  simp [collide, step, cold, setPhase, hne, hne.symm, hread, hread', hgate.symm]

/-- From there the second rename finds no temporary file, and its read fails. -/
theorem lost_mem_outputs (hne : t ≠ t') {s : FaultState S τ}
    (hfilling : s.phase t = .filling pageNo bytes)
    (hfilling' : s.phase t' = .filling pageNo' bytes) :
    some (pageNo', .error (.fault pageNo'.toNat .noEntity)) ∈
      (run (step tier head) s (lose t t')).1 := by
  simp [lose, step, setPhase, hne, hne.symm, hfilling, hfilling']

/-- **Which concurrent faults are apart.** The gates keep two threads from filling one content,
and keep a read from breaking another, exactly when there is one thread at most or every two
pages of one content have one gate. -/
theorem exclusive_iff (hS : S.ContentAddressed) (tier : S.Cas) (head : S.ManifestId) :
    ((∀ events : List (FaultEvent τ), Exclusive (run (step tier head) cold events).2) ↔
      Subsingleton τ ∨ SharesGate (S := S) tier head) ∧
    ((∀ events : List (FaultEvent τ), ∀ o ∈ (run (step tier head) cold events).1,
      Unbroken tier head o) ↔ Subsingleton τ ∨ SharesGate (S := S) tier head) := by
  have hcollide (happart : ¬(Subsingleton τ ∨ SharesGate (S := S) tier head)) :
      ∃ (t t' : τ) (pageNo pageNo' : UInt64) (bytes : Bytes), t ≠ t' ∧
        S.read tier head pageNo.toNat = .ok bytes ∧ S.read tier head pageNo'.toNat = .ok bytes ∧
        gateOf pageNo ≠ gateOf pageNo' := by
    rw [not_or, not_subsingleton_iff_nontrivial] at happart
    obtain ⟨⟨t, t', hne⟩, hgates⟩ := happart
    simp only [SharesGate, not_forall] at hgates
    obtain ⟨pageNo, pageNo', bytes, hread, hread', hgate⟩ := hgates
    exact ⟨t, t', pageNo, pageNo', bytes, hne, hread, hread', hgate⟩
  refine ⟨⟨fun hexclusive => ?_, fun hgates events => ?_⟩,
    ⟨fun hunbroken => ?_, fun hgates events => ?_⟩⟩
  · by_contra happart
    obtain ⟨t, t', pageNo, pageNo', bytes, hne, hread, hread', hgate⟩ := hcollide happart
    obtain ⟨hfilling, hfilling'⟩ := phase_collide hne hread hread' hgate
    exact hne (hexclusive (collide t t' pageNo pageNo') t t' pageNo pageNo' bytes
      (by rw [hfilling]; rfl) (by rw [hfilling']; rfl))
  · have hgated := run_keeps (fun s event => Gated.step hS hgates s event) events gated_cold
    exact hgated.exclusive hgates
  · by_contra happart
    obtain ⟨t, t', pageNo, pageNo', bytes, hne, hread, hread', hgate⟩ := hcollide happart
    obtain ⟨hfilling, hfilling'⟩ := phase_collide hne hread hread' hgate
    have hlost := hunbroken (collide t t' pageNo pageNo' ++ lose t t')
      (some (pageNo', .error (.fault pageNo'.toNat .noEntity))) (by
        rw [run_append]
        exact List.mem_append_right _ (lost_mem_outputs hne hfilling hfilling'))
    cases hlost bytes hread'
  · exact run_outputs (fun s event => Gated.step hS hgates s event)
      (fun s event h => h.unbroken event) events gated_cold

/-- A tier with one page, under two page numbers. -/
def twice (pageNo pageNo' : ℕ) : Memory.Cas × Memory.ManifestId :=
  let head : Memory.ManifestId := [⟨[(pageNo, some [7]), (pageNo', some [7])], 0⟩]
  (⟨[[7]], [head]⟩, head)

/-- Pages 0 and 1024 of one content have one gate, and no two threads break each other. -/
theorem exclusive_twice :
    let tier : (memory []).Cas := (twice 0 1024).1
    (∀ events : List (FaultEvent Bool),
      Exclusive (run (step tier (twice 0 1024).2) cold events).2) ∧
    ∀ events : List (FaultEvent Bool), ∀ o ∈ (run (step tier (twice 0 1024).2) cold events).1,
      Unbroken tier (twice 0 1024).2 o := by
  intro tier
  have hS := (Memory.laws []).toContentAddressed
  have hpages : (Memory.pageMap (twice 0 1024).2).keys = [0, 1024] := by decide
  have hgate {pageNo : UInt64} {bytes : Bytes}
      (hread : (memory []).read tier (twice 0 1024).2 pageNo.toNat = .ok bytes) :
      gateOf pageNo = 0 := by
    obtain ⟨pages, id, hresolve, hid, -⟩ := hS.read_ok_iff.mp hread
    have hmem : pageNo.toNat ∈ pages := by simp [Std.ExtTreeMap.mem_iff_isSome_getElem?, hid]
    rw [hS.eq_pageMap_of_resolve hresolve, ← Std.ExtTreeMap.mem_keys] at hmem
    have hmem' : pageNo.toNat ∈ [0, 1024] := hpages ▸ hmem
    rw [gateOf]
    rcases List.mem_pair.mp hmem' with h | h <;> rw [h] <;> rfl
  have hshares : SharesGate (S := memory []) tier (twice 0 1024).2 :=
    fun pageNo pageNo' bytes hread hread' => (hgate hread).trans (hgate hread').symm
  obtain ⟨hexclusive, hunbroken⟩ := exclusive_iff (τ := Bool) hS tier (twice 0 1024).2
  exact ⟨hexclusive.mpr (.inr hshares), hunbroken.mpr (.inr hshares)⟩

/-- Pages 0 and 1 of one content have two gates: two threads fill the content at once, and one
of the reads fails. -/
theorem aliased_pages_collide :
    let tier : (memory []).Cas := (twice 0 1).1
    let after := run (step tier (twice 0 1).2) cold (collide true false 0 1)
    ¬Exclusive after.2 ∧ (memory []).read tier (twice 0 1).2 1 = .ok [7] ∧
      (run (step tier (twice 0 1).2) after.2 (lose true false)).1 =
        [none, none, none, none, some (1, .error (.fault 1 .noEntity))] := by
  refine ⟨fun hexclusive => ?_, rfl, rfl⟩
  cases hexclusive true false 0 1 [7] rfl rfl

end FaultState

end FlockDb
