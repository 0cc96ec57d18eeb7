import FlockDb.Cli.Waking

/-!
# The commands in memory

The code outside of the repository is a parameter of the commands. This module gives one
choice of it, over the in-memory substrate and engine, on which the closed examples run.
-/

namespace FlockDb

open Overlay

namespace Memory

/-- The head that a database slept at. -/
def sleptHead (uploaded : Uploaded (memory [])) : ManifestId := uploaded.token.manifest

/-- What the cache of a woken in-memory store holds: the pages of the head, and the manifests
that it was derived through. -/
def cached (uploaded : Uploaded (memory [])) : Cas :=
  ⟨(wake uploaded).pages.filter (· ∈ (pageMap (sleptHead uploaded)).values),
    (wake uploaded).manifests.filter (· <:+ sleptHead uploaded)⟩

/-- The cache in memory resolves the head. -/
theorem resolve_cached {uploaded : Uploaded (memory [])} {pages : PageMap Bytes}
    (h : resolve (wake uploaded) (sleptHead uploaded) = .ok pages) :
    resolve (cached uploaded) (sleptHead uploaded) = .ok pages := by
  unfold resolve at h ⊢
  by_cases hknown : sleptHead uploaded = [] ∨ sleptHead uploaded ∈ (wake uploaded).manifests
  · rw [if_pos hknown] at h
    rw [if_pos, h]
    exact hknown.imp_right fun hmem =>
      List.mem_filter.mpr ⟨hmem, decide_eq_true (List.suffix_refl (sleptHead uploaded))⟩
  · rw [if_neg hknown] at h
    cases h

/-- The cache in memory has the pages of the head. -/
theorem get_cached {uploaded : Uploaded (memory [])} {id bytes : Bytes}
    (hvalue : id ∈ (pageMap (sleptHead uploaded)).values)
    (h : get (wake uploaded) id = .ok bytes) : get (cached uploaded) id = .ok bytes := by
  unfold get at h ⊢
  by_cases hmem : id ∈ (wake uploaded).pages
  · rw [if_pos hmem] at h
    rw [if_pos, h]
    exact List.mem_filter.mpr ⟨hmem, decide_eq_true hvalue⟩
  · rw [if_neg hmem] at h
    cases h

/-- The pages that are copied, and what the copy leaves. -/
def copyTree (cas fetched : Cas) : ℕ × Cas :=
  ((fetched.pages.filter (· ∉ cas.pages)).length,
    ⟨cas.pages ++ fetched.pages, cas.manifests ++ fetched.manifests⟩)

/-- The code outside of the repository, in memory. The pool is in `flock`. -/
def outside : Outside (memory []) memoryEngine where
  canonicalRoot := some [[0x66, 0x6C, 0x6F, 0x63, 0x6B]]
  canonicalTier := id
  wakeCas := wake
  cached := cached
  copyTree := copyTree
  firstI64 := fun _ => some 0
  table := fun _ => .ok "OK"

/-- The copy in memory has both. -/
theorem outside_copies : outside.Copies where
  grows := fun _ _ => grows (List.subset_append_left _ _) (List.subset_append_left _ _)
  adds := fun _ _ => grows (List.subset_append_right _ _) (List.subset_append_right _ _)

/-- The cache in memory has the head that was hydrated. -/
theorem outside_caches : outside.Caches where
  resolve := fun {uploaded pages} h => @resolve_cached uploaded pages h
  manifest := by
    intro uploaded pages h
    have hcached : resolve (cached uploaded) (sleptHead uploaded) = .ok pages := resolve_cached h
    have hmanifest : manifest (cached uploaded) (sleptHead uploaded) =
        .ok ⟨(sleptHead uploaded).tail?, (sleptHead uploaded).tail?⟩ := by
      rw [manifest, hcached]
      rfl
    exact ⟨_, hmanifest⟩
  read := by
    intro uploaded p bytes h
    obtain ⟨pages, id, hresolve, hpage, hget⟩ := read_ok_iff.mp h
    have hpages : pages = pageMap (sleptHead uploaded) := eq_of_resolve hresolve
    have hvalue : id ∈ (pageMap (sleptHead uploaded)).values := by
      rw [← hpages]
      exact mem_values_iff.mpr ⟨p, hpage⟩
    exact read_ok_iff.mpr ⟨pages, id, resolve_cached hresolve, hpage, get_cached hvalue hget⟩

/-- A new database in memory. -/
theorem newDatabase (pageSize : ℕ) : NewDatabase (memory []) memoryEngine pageSize where
  root := ⟨[], rfl⟩
  resolve := by
    intro root hroot cas
    obtain rfl : ([] : ManifestId) = root := Except.ok.inj hroot
    have hresolve : resolve cas [] = .ok (pageMap []) := if_pos (.inl rfl)
    exact hresolve
  connects := ⟨[], rfl⟩

/-- What a command meets when every call goes through. -/
def cliEnv : CliEnv (memory []) memoryEngine where
  io := .none
  opening := .none
  working := .none
  forking := .none
  sleeping := ⟨none, none, fun _ => none, fun _ => none, none, none⟩
  fuel := 9
  strayed := ⟨[], []⟩
  leftover := id
  copiedSome := fun cas _ => cas
  copiedSome_grows := fun cas _ => .refl cas
  cacheRoot := "/cache"
  hydrating := .none
  waking := ⟨none, none⟩
  restoring := .none

/-- An empty directory, and no tiers. -/
def emptyWorkspace : Workspace (memory []) :=
  .start "flock" 4 ⟨[], []⟩ fun _ _ => ⟨[], []⟩

/-- A file that can be imported. -/
def trades : ImportFile := ⟨"trades.csv", "trades.csv", true⟩

end Memory

end FlockDb
