import FlockDb.Sync.Following

/-!
# What a failed apply leaves behind

A failed `apply` is meant to leave the replica where it was. It does, except on
one exit: the manifest is compared after the transaction has been committed, so a
shipment that diverges has moved the durable head by the time it is refused.
-/

namespace FlockDb.Replica

variable {S : Substrate}

/-- What decides every later answer of `apply`: both heads and the position. -/
structure SamePlace (r r' : Replica S) : Prop where
  head : r'.head = r.head
  recovered : r'.store.recoveredHead = r.store.recoveredHead
  appliedLsn : r'.appliedLsn = r.appliedLsn

/-- A replica stands where it stands. -/
theorem SamePlace.refl (r : Replica S) : SamePlace r r := ⟨rfl, rfl, rfl⟩

/-- A call that left the durable state alone left the replica in its place. -/
theorem Kept.samePlace {r r' : Replica S} (h : Kept r r') : SamePlace r r' :=
  ⟨h.store.head, h.store.recoveredHead_eq, h.appliedLsn⟩

/-- Two stores that replay the same shipment from the same head reach the same
head, and record it alike. -/
theorem Replayed.head_eq_of_head_eq {store₁ store₂ store₁' store₂' : DurableStore S}
    {s : Shipment S} (h₁ : Replayed store₁ s store₁') (h₂ : Replayed store₂ s store₂')
    (hhead : store₂.head = store₁.head)
    (hrecovered : store₂.recoveredHead = store₁.recoveredHead) :
    store₂'.head = store₁'.head ∧ store₂'.recoveredHead = store₁'.recoveredHead := by
  have heq : store₂'.head = store₁'.head := by rw [h₂.head_eq, h₁.head_eq, hhead]
  refine ⟨heq, ?_⟩
  by_cases hsame : store₁'.head = store₁.head
  · have hsame₂ : store₂'.head = store₂.head := by rw [heq, hsame, hhead]
    rw [h₁.recoveredHead_eq hsame, h₂.recoveredHead_eq hsame₂, hrecovered]
  · have hmoved : store₂'.head ≠ store₂.head := by rwa [heq, hhead]
    rw [h₁.recovered hsame, h₂.recovered hmoved, heq]

/-- Replicas in the same place answer every shipment alike, and stay together. -/
theorem SamePlace.apply (hS : S.Laws) {r r' : Replica S} (h : SamePlace r r')
    (faults : Faults S) (s : Shipment S) :
    (r'.apply faults s).1 = (r.apply faults s).1 ∧
      SamePlace (r.apply faults s).2 (r'.apply faults s).2 := by
  have houtcome := apply_outcome hS faults r s
  have houtcome' := apply_outcome hS faults r' s
  generalize r.apply faults s = result at houtcome
  generalize r'.apply faults s = result' at houtcome'
  have hhead := h.head
  cases houtcome with
  | present hpresent =>
    cases houtcome' with
    | present _ => exact ⟨rfl, h.head, h.recovered, by simp [h.appliedLsn]⟩
    | outOfOrder hne _ => exact absurd (hhead.trans hpresent) hne
    | stopped hne _ _ _ => exact absurd (hhead.trans hpresent) hne
    | diverged hne _ _ _ _ => exact absurd (hhead.trans hpresent) hne
    | advanced hne _ _ _ _ => exact absurd (hhead.trans hpresent) hne
  | outOfOrder hne hbase =>
    cases houtcome' with
    | present hpresent => exact absurd (hhead.symm.trans hpresent) hne
    | outOfOrder _ _ => exact ⟨by rw [hhead], h⟩
    | stopped _ heq _ _ => exact absurd (hhead.symm.trans heq) hbase
    | diverged _ heq _ _ _ => exact absurd (hhead.symm.trans heq) hbase
    | advanced _ heq _ _ _ => exact absurd (hhead.symm.trans heq) hbase
  | stopped hne heq hstop hkept =>
    cases houtcome' with
    | present hpresent => exact absurd (hhead.symm.trans hpresent) hne
    | outOfOrder _ hbase => exact absurd (hhead.trans heq) hbase
    | stopped _ _ hstop' hkept' =>
      rw [hstop] at hstop'
      obtain rfl := Option.some.inj hstop'
      have hplace := hkept.samePlace
      have hplace' := hkept'.samePlace
      refine ⟨rfl, ?_, ?_, ?_⟩
      · exact (hplace'.head.trans h.head).trans hplace.head.symm
      · exact (hplace'.recovered.trans h.recovered).trans hplace.recovered.symm
      · exact (hplace'.appliedLsn.trans h.appliedLsn).trans hplace.appliedLsn.symm
    | diverged _ _ hthrough _ _ => simp [hthrough] at hstop
    | advanced _ _ hthrough _ _ => simp [hthrough] at hstop
  | diverged hne heq hthrough hreplayed hgot =>
    cases houtcome' with
    | present hpresent => exact absurd (hhead.symm.trans hpresent) hne
    | outOfOrder _ hbase => exact absurd (hhead.trans heq) hbase
    | stopped _ _ hstop _ => simp [hthrough] at hstop
    | diverged _ _ _ hreplayed' _ =>
      obtain ⟨hstep, hrecovered⟩ :=
        hreplayed.head_eq_of_head_eq hreplayed' hhead h.recovered
      exact ⟨by rw [hstep], hstep, hrecovered, h.appliedLsn⟩
    | advanced _ _ _ hreplayed' hgot' =>
      have hstep := (hreplayed.head_eq_of_head_eq hreplayed' hhead h.recovered).1
      exact absurd (hstep.symm.trans hgot') hgot
  | advanced hne heq hthrough hreplayed hgot =>
    cases houtcome' with
    | present hpresent => exact absurd (hhead.symm.trans hpresent) hne
    | outOfOrder _ hbase => exact absurd (hhead.trans heq) hbase
    | stopped _ _ hstop _ => simp [hthrough] at hstop
    | diverged _ _ _ hreplayed' hgot' =>
      have hstep := (hreplayed.head_eq_of_head_eq hreplayed' hhead h.recovered).1
      exact absurd (hstep.trans hgot) hgot'
    | advanced _ _ _ hreplayed' _ =>
      obtain ⟨hstep, hrecovered⟩ :=
        hreplayed.head_eq_of_head_eq hreplayed' hhead h.recovered
      exact ⟨rfl, hstep, hrecovered, rfl⟩

/-- The replica has not advanced: it is in its place, reads what it read, and
answers the next shipment as if nothing had happened. A page can only become
readable, and only where the store lacked pages of its own head. -/
structure Unmoved (r r' : Replica S) : Prop extends SamePlace r r' where
  read : ∀ p bytes, r.read r.head p = .ok bytes → r'.read r'.head p = .ok bytes
  read_eq : S.Holds r.store.pager.cas r.head →
    ∀ p bytes, r'.read r'.head p = .ok bytes → r.read r.head p = .ok bytes
  later : ∀ faults s, (r'.apply faults s).1 = (r.apply faults s).1 ∧
    SamePlace (r.apply faults s).2 (r'.apply faults s).2

/-- In its place, with a store that only grew, a replica is unmoved. -/
theorem SamePlace.unmoved (hS : S.Laws) {r r' : Replica S} (h : SamePlace r r')
    (hgrows : S.Grows r.store.pager.cas r'.store.pager.cas) : Unmoved r r' where
  toSamePlace := h
  read := by
    intro p bytes hread
    rw [read_ok_iff] at hread ⊢
    rw [h.head]
    exact hS.read_grows hgrows hread
  read_eq := by
    intro hholds p bytes hread
    rw [read_ok_iff] at hread ⊢
    rw [h.head] at hread
    exact (hS.read_ok_iff_names hholds p bytes).mpr (hS.names_of_read hread)
  later := h.apply hS

/-- **When a failed apply leaves the replica unmoved.** It does for every shipment
that does not build on the head or whose transaction stops short of its commit,
and past the commit exactly for those whose derived manifest is the shipped one
or the head itself. -/
theorem unmoved_of_error_iff (hS : S.Laws) (faults : Faults S) (r : Replica S)
    (s : Shipment S) :
    (∀ e, (r.apply faults s).1 = .error e → Unmoved r (r.apply faults s).2) ↔
      r.head = s.manifest ∨ r.head ≠ s.base ∨ (stopError faults s).isSome ∨ s.Derived ∨
        S.deriveNext s.base s.changes s.createdAtMs = s.base := by
  have houtcome := apply_outcome hS faults r s
  generalize r.apply faults s = result at houtcome
  cases houtcome with
  | present hhead => exact iff_of_true (by simp) (.inl hhead)
  | outOfOrder hmanifest hbase =>
    exact iff_of_true (fun e _ => (SamePlace.refl r).unmoved hS (.refl _)) (.inr (.inl hbase))
  | stopped hmanifest hbase hstop hkept =>
    refine iff_of_true (fun e _ => hkept.samePlace.unmoved hS hkept.store.grows) ?_
    exact .inr (.inr (.inl (by simp [hstop])))
  | diverged hmanifest hbase hthrough hreplayed hgot =>
    have hderive := hreplayed.head_eq
    rw [show r.store.head = s.base from hbase] at hderive
    constructor
    · intro h
      have hsame := (h _ rfl).head
      refine .inr (.inr (.inr (.inr ?_)))
      rw [← hderive, ← hbase]
      exact hsame
    · rintro (heq | hne | hstop | hderived | hsame) e -
      · exact absurd heq hmanifest
      · exact absurd hbase hne
      · simp [hthrough] at hstop
      · exact absurd (hderive.trans hderived.symm) hgot
      · have hhead := (hderive.trans hsame).trans hbase.symm
        have hplace : SamePlace r { r with store := _, clock := r.clock.set s.createdAtMs } :=
          ⟨hhead, hreplayed.recoveredHead_eq hhead, rfl⟩
        exact hplace.unmoved hS hreplayed.grows
  | advanced hmanifest hbase hthrough hreplayed hgot =>
    refine iff_of_true (by simp) (.inr (.inr (.inr (.inl ?_))))
    rw [Shipment.Derived, ← hgot, hreplayed.head_eq, ← hbase]
    rfl

/-- The first shipment of the log of two commits with another page in its blob. -/
def swapped : Shipment (memory Memory.twoCommits) :=
  { Memory.firstShipment with pages := [⟨[7], [9]⟩] }

/-- A shipment whose blob was swapped is refused and leaves the replica unmoved. -/
theorem unmoved_of_error_swapped :
    let r := Memory.freshReplica Memory.twoCommits
    Unmoved r (r.apply .none swapped).2 := by
  have hiff := unmoved_of_error_iff (Memory.laws _) .none
    (Memory.freshReplica Memory.twoCommits) swapped
  exact hiff.mpr (.inr (.inr (.inl rfl))) _ rfl

/-- The first shipment of the log of two commits with another timestamp. -/
def restamped : Shipment (memory Memory.twoCommits) :=
  { Memory.firstShipment with createdAtMs := 11 }

/-- A restamped shipment diverges, and the replica has advanced: its head has
moved, and so has the head it would recover. -/
theorem restamped_advances :
    let r := Memory.freshReplica Memory.twoCommits
    let result := r.apply .none restamped
    result.1 = .error (.diverged 1 "root/10" "root/11") ∧ result.2.head ≠ r.head ∧
      result.2.store.recoveredHead ≠ r.store.recoveredHead ∧
      (result.2.apply .none Memory.firstShipment).1 ≠
        (r.apply .none Memory.firstShipment).1 := by
  refine ⟨rfl, by decide, by decide, ?_⟩
  intro h
  cases h

end FlockDb.Replica
