import Mathlib

/-!
# Runs of a deterministic machine

A machine takes an input in a state, answers with an output and moves to a new
state. A run feeds it a list of inputs. The rules below turn facts about one step
into facts about a whole run; states, inputs and outputs are arbitrary.
-/

namespace Runs

variable {σ ι ω : Type*}

/-- Feed a list of inputs to a machine, collecting its outputs in order. -/
def run (step : σ → ι → ω × σ) : σ → List ι → List ω × σ
  | s, [] => ([], s)
  | s, i :: inputs =>
    let (o, s') := step s i
    let (outputs, final) := run step s' inputs
    (o :: outputs, final)

variable (step : σ → ι → ω × σ)

@[simp] theorem run_nil (s : σ) : run step s [] = ([], s) := rfl

@[simp] theorem run_cons (s : σ) (i : ι) (inputs : List ι) :
    run step s (i :: inputs) =
      ((step s i).1 :: (run step (step s i).2 inputs).1, (run step (step s i).2 inputs).2) := rfl

/-- A run over a concatenation is the second run from where the first ended. -/
theorem run_append (s : σ) (first second : List ι) :
    run step s (first ++ second) =
      ((run step s first).1 ++ (run step (run step s first).2 second).1,
        (run step (run step s first).2 second).2) := by
  induction first generalizing s with
  | nil => rfl
  | cons i first ih => simp only [List.cons_append, run_cons, ih]

/-- A run answers every input. -/
theorem length_run (s : σ) (inputs : List ι) : (run step s inputs).1.length = inputs.length := by
  induction inputs generalizing s with
  | nil => rfl
  | cons i inputs ih => rw [run_cons, List.length_cons, List.length_cons, ih]

variable {step}

/-- What one step on an allowed input preserves, every run on allowed inputs
preserves. -/
theorem run_invariant {inv : σ → Prop} {allowed : ι → Prop}
    (hstep : ∀ s i, allowed i → inv s → inv (step s i).2) {s : σ} {inputs : List ι}
    (hinputs : ∀ i ∈ inputs, allowed i) (hs : inv s) : inv (run step s inputs).2 := by
  induction inputs generalizing s with
  | nil => exact hs
  | cons i inputs ih =>
    have hi := hinputs i (by simp)
    exact ih (fun j hj => hinputs j (by simp [hj])) (hstep s i hi hs)

/-- What every step preserves, every run preserves. -/
theorem run_keeps {inv : σ → Prop} (hstep : ∀ s i, inv s → inv (step s i).2) {s : σ}
    (inputs : List ι) (hs : inv s) : inv (run step s inputs).2 := by
  have hallowed : ∀ i ∈ inputs, True := fun _ _ => trivial
  exact run_invariant (fun s i _ => hstep s i) hallowed hs

/-- Every input of a run meets a condition in the state where it arrives. -/
def Along (step : σ → ι → ω × σ) (good : σ → ι → Prop) : σ → List ι → Prop
  | _, [] => True
  | s, i :: inputs => good s i ∧ Along step good (step s i).2 inputs

/-- The inputs of a run over a concatenation meet a condition in both its parts. -/
theorem along_append {good : σ → ι → Prop} {s : σ} {first second : List ι} :
    Along step good s (first ++ second) ↔
      Along step good s first ∧ Along step good (run step s first).2 second := by
  induction first generalizing s with
  | nil => exact (and_iff_right trivial).symm
  | cons i first ih =>
    rw [List.cons_append, Along, Along, ih, and_assoc]
    rfl

/-- The inputs of a run meet two conditions when they meet each of them. -/
theorem along_and {good good' : σ → ι → Prop} {s : σ} {inputs : List ι} :
    Along step (fun s i => good s i ∧ good' s i) s inputs ↔
      Along step good s inputs ∧ Along step good' s inputs := by
  induction inputs generalizing s with
  | nil => exact (and_iff_right trivial).symm
  | cons i inputs ih =>
    rw [Along, Along, Along, ih]
    exact and_and_and_comm

/-- Two conditions that agree wherever an invariant holds agree along a run, if a step on an input
that meets them keeps the invariant. -/
theorem along_congr {inv : σ → Prop} {good good' : σ → ι → Prop}
    (hiff : ∀ s i, inv s → (good s i ↔ good' s i))
    (hstep : ∀ s i, inv s → good s i → inv (step s i).2) {s : σ} (inputs : List ι) (hs : inv s) :
    Along step good s inputs ↔ Along step good' s inputs := by
  induction inputs generalizing s with
  | nil => exact Iff.rfl
  | cons i inputs ih =>
    rw [Along, Along, ← hiff s i hs]
    exact and_congr_right fun hgood => ih (hstep s i hs hgood)

/-- What one step on an input that meets a condition there preserves, every run along
the condition preserves. -/
theorem run_invariant_along {inv : σ → Prop} {good : σ → ι → Prop}
    (hstep : ∀ s i, good s i → inv s → inv (step s i).2) {s : σ} {inputs : List ι}
    (hinputs : Along step good s inputs) (hs : inv s) : inv (run step s inputs).2 := by
  induction inputs generalizing s with
  | nil => exact hs
  | cons i inputs ih => exact ih hinputs.2 (hstep s i hinputs.1 hs)

/-- What one step with an allowed output preserves, every run with allowed outputs
preserves. -/
theorem run_invariant_of_outputs {inv : σ → Prop} {allowed : ω → Prop}
    (hstep : ∀ s i, allowed (step s i).1 → inv s → inv (step s i).2) {s : σ} {inputs : List ι}
    (houtputs : ∀ o ∈ (run step s inputs).1, allowed o) (hs : inv s) :
    inv (run step s inputs).2 := by
  induction inputs generalizing s with
  | nil => exact hs
  | cons i inputs ih =>
    rw [run_cons, List.forall_mem_cons] at houtputs
    exact ih houtputs.2 (hstep s i houtputs.1 hs)

/-- If a step from an invariant state answers well and keeps the invariant, every output of a
run from there is good. -/
theorem run_outputs {inv : σ → Prop} {good : ω → Prop} (hstep : ∀ s i, inv s → inv (step s i).2)
    (hgood : ∀ s i, inv s → good (step s i).1) {s : σ} (inputs : List ι) (hs : inv s) :
    ∀ o ∈ (run step s inputs).1, good o := by
  induction inputs generalizing s with
  | nil => simp
  | cons i inputs ih =>
    rw [run_cons, List.forall_mem_cons]
    exact ⟨hgood s i hs, ih (hstep s i hs)⟩

/-- A machine whose steps match the steps of another one, from related states into related
states, answers a run as the other one does, each output read through a map. -/
theorem run_refines {τ ω' : Type*} {step' : τ → ι → ω' × τ} {related : σ → τ → Prop}
    {allowed : ι → Prop} (read : ω' → ω)
    (hstep : ∀ s t i, allowed i → related s t →
      (step s i).1 = read (step' t i).1 ∧ related (step s i).2 (step' t i).2)
    {s : σ} {t : τ} {inputs : List ι} (hinputs : ∀ i ∈ inputs, allowed i) (hst : related s t) :
    (run step s inputs).1 = (run step' t inputs).1.map read ∧
      related (run step s inputs).2 (run step' t inputs).2 := by
  induction inputs generalizing s t with
  | nil => exact ⟨rfl, hst⟩
  | cons i inputs ih =>
    obtain ⟨hout, hnext⟩ := hstep s t i (hinputs i (by simp)) hst
    obtain ⟨houts, hfinal⟩ := ih (fun j hj => hinputs j (by simp [hj])) hnext
    exact ⟨by rw [run_cons, run_cons, List.map_cons, hout, houts], hfinal⟩

/-- Two machines whose steps answer alike and go into related states, from related states and on
inputs that meet a condition in the first one's, answer a run alike. -/
theorem run_related {τ ω' : Type*} {step' : τ → ι → ω' × τ}
    {related : σ → τ → Prop} {alike : ω → ω' → Prop} {good : σ → ι → Prop}
    (hstep : ∀ s t i, good s i → related s t →
      alike (step s i).1 (step' t i).1 ∧ related (step s i).2 (step' t i).2)
    {s : σ} {t : τ} {inputs : List ι} (hinputs : Along step good s inputs) (hst : related s t) :
    List.Forall₂ alike (run step s inputs).1 (run step' t inputs).1 ∧
      related (run step s inputs).2 (run step' t inputs).2 := by
  induction inputs generalizing s t with
  | nil => exact ⟨.nil, hst⟩
  | cons i inputs ih =>
    obtain ⟨halike, hnext⟩ := hstep s t i hinputs.1 hst
    obtain ⟨hrest, hfinal⟩ := ih hinputs.2 hnext
    exact ⟨.cons halike hrest, hfinal⟩

/-- An invariant indexed by how many outputs of a kind have been seen so far is
kept by every run when a step advances the index exactly on such an output. -/
theorem run_countP {inv : ℕ → σ → Prop} {allowed : ι → Prop} {counted : ω → Bool}
    (hstep : ∀ k s i, allowed i → inv k s →
      inv (k + if counted (step s i).1 then 1 else 0) (step s i).2)
    {k : ℕ} {s : σ} {inputs : List ι} (hinputs : ∀ i ∈ inputs, allowed i) (hs : inv k s) :
    inv (k + (run step s inputs).1.countP counted) (run step s inputs).2 := by
  induction inputs generalizing k s with
  | nil => exact hs
  | cons i inputs ih =>
    have hi := hinputs i (by simp)
    have hnext := ih (fun j hj => hinputs j (by simp [hj])) (hstep k s i hi hs)
    rw [run_cons, List.countP_cons]
    convert hnext using 1
    omega

end Runs
