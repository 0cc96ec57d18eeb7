import FlockDb.Core.ReadReplica
import FlockDb.Core.Standing

/-!
# A follower

A follower is a read replica on a pool of its own. Whatever commits arrive, in whatever order, its
store stays at the root or at the head of one of them with every page of it, and so does the
manifest that its kernel was hydrated from.
-/

namespace FlockDb

variable {S : Substrate} {E : Engine} {root : S.ManifestId}

namespace ReadReplica

/-- Opening a read replica recovers the head that its log records, and hydrates a kernel from it,
or leaves that head where it is. -/
theorem openWith_cases (hS : S.Recovers) (env : Env S E) (pool : Pool S) (name : String)
    (opts : KernelOpts) :
    pool.Beside name (openWith env pool name opts).2 ∧
      (openWith env pool name opts).2.recoveredHead name = pool.recoveredHead name ∧
      ∀ r, (openWith env pool name opts).1 = .ok r →
        ((openWith env pool name opts).2.dbs name).isSome ∧ r.opts = opts ∧
          r.visible = r.replica.head ∧ r.replica.store =
              (openWith env pool name opts).2.durable name (pool.recoveredHead name) ∧
          (DuckDbKernel.open pageStore r.replica.store opts env.kernel :
            Except (KernelError S E.Error) (DuckDbKernel E)) = .ok r.kernel := by
  rw [openWith]
  cases validateName (S := S) (E := E) name with
  | error e => exact ⟨.refl _ _, rfl, fun r hr => by cases hr⟩
  | ok _ =>
    obtain ⟨hbeside, hsome⟩ := beside_openStore (E := E) hS env pool name
      "open the replica's durable store" "replay the replica's log"
    obtain ⟨hleft, hstands⟩ := openStore_recoveredHead (E := E) hS env pool name
      "open the replica's durable store" "replay the replica's log"
    simp only
    rcases hopened : (openStore env pool name "open the replica's durable store"
        "replay the replica's log" : Except (FlockError S E) S.ManifestId × Pool S) with
      ⟨e | head, pool₁⟩
    all_goals rw [hopened] at hbeside hsome hleft hstands
    · exact ⟨hbeside, hleft, fun r hr => by cases hr⟩
    · obtain rfl : head = pool.recoveredHead name := hstands head rfl
      simp only
      cases hkernel : (DuckDbKernel.open pageStore
          (pool₁.durable name (pool.recoveredHead name)) opts env.kernel :
            Except (KernelError S E.Error) (DuckDbKernel E)) with
      | error source => exact ⟨hbeside, hleft, fun r hr => by cases hr⟩
      | ok kernel =>
        refine ⟨hbeside, hleft, fun r hr => ?_⟩
        obtain rfl := Except.ok.inj hr
        exact ⟨hsome _ rfl, rfl, rfl, rfl, hkernel⟩

/-- A kernel that opens on a store with the pages of a file has the content of the file. -/
theorem content_of_open {pool : Pool S} {m : S.ManifestId} {file : ByteVec} {content : E.Content}
    (hS : S.ContentAddressed) (hcaptures : Captures pool m file content)
    {store : DurableStore S} (hhead : store.head = m)
    (hpageSize : store.pager.pageSize = pool.pageSize) (hpos : 0 < pool.pageSize)
    (hholds : S.Holds store.pager.cas m) {opts : KernelOpts} {faults : KernelFaults E}
    {kernel : DuckDbKernel E}
    (h : (DuckDbKernel.open pageStore store opts faults :
      Except (KernelError S E.Error) (DuckDbKernel E)) = .ok kernel) :
    E.content kernel.conn = content := by
  subst hhead
  have hstores :
      S.Stores store.pager.cas store.head (Paging.chunkMap store.pager.pageSize file) := by
    rw [hpageSize]
    exact Db.stores_of_holds hS hcaptures.stores hholds
  have hreads : pageStore.Reads store store.head (Paging.chunkMap store.pager.pageSize file) :=
    hstores
  have hpos' : 0 < store.pager.pageSize := hpageSize ▸ hpos
  rw [DuckDbKernel.open_eq hpos' hreads hcaptures.ne_nil] at h
  obtain ⟨config, hconn⟩ := DuckDbKernel.openWithFlags_of_openFile h
  exact hcaptures.content_eq config kernel.conn hconn

/-- A connection to the file of a captured manifest has its content. -/
theorem content_of_hydrates (hS : S.ContentAddressed) {pool : Pool S} {m : S.ManifestId}
    {file : ByteVec} {content : E.Content} (hcaptures : Captures pool m file content)
    {store : DurableStore S} (hpageSize : store.pager.pageSize = pool.pageSize)
    (hpos : 0 < pool.pageSize) (hholds : S.Holds store.pager.cas m) {opts : KernelOpts}
    {conn : E.Connection} (h : DuckDbKernel.Hydrates pageStore store opts m conn) :
    E.content conn = content := by
  let there : DurableStore S := { store with pager := { store.pager with head := m } }
  have hthere : DuckDbKernel.Hydrates pageStore there opts (pageStore.head there) conn :=
    DuckDbKernel.Hydrates.mono h rfl (fun _ => id) fun _ _ => id
  let unhindered : KernelFaults E := .none
  have hopens : ∃ kernel, (DuckDbKernel.open pageStore there opts unhindered :
      Except (KernelError S E.Error) (DuckDbKernel E)) = .ok kernel ∧ kernel.conn = conn :=
    DuckDbKernel.open_of_hydrates hthere rfl rfl rfl
  obtain ⟨kernel, hopen, rfl⟩ := hopens
  have hhead : there.head = m := rfl
  exact content_of_open hS hcaptures hhead hpageSize hpos hholds hopen

/-- A store that has a manifest is opened there as another one is. -/
theorem hydrates_of_headOpens (hS : S.ContentAddressed) {cas : S.Cas} {m : S.ManifestId}
    {conn : E.Connection} {store : DurableStore S}
    (h : HeadOpens cas store.pager.pageSize m conn) (hholds : S.Holds store.pager.cas m) :
    DuckDbKernel.Hydrates pageStore store ⟨none, none⟩ m conn := by
  refine DuckDbKernel.Hydrates.mono h rfl (fun pages hresolve => ?_) fun p bytes hread => ?_
  · obtain rfl := hS.eq_pageMap_of_resolve hresolve
    exact hholds.resolve
  · exact (hS.read_ok_iff_names hholds p bytes).mpr (hS.names_of_read hread)

/-- A replica whose head opens is refreshed if nothing fails, and a refresh that goes through shows
what is there. -/
theorem refresh_of_hydrates {r : ReadReplica S E} {conn : E.Connection}
    (hopts : r.opts = ⟨none, none⟩)
    (h : DuckDbKernel.Hydrates pageStore r.replica.store ⟨none, none⟩ r.replica.head conn) :
    (r.refresh .none).1 = .ok () ∧ ∀ faults r', r.refresh faults = (.ok (), r') →
      E.content r'.kernel.conn = E.content conn := by
  let unhindered : KernelFaults E := .none
  have hopens : ∃ kernel, (DuckDbKernel.open pageStore r.replica.store ⟨none, none⟩
      unhindered : Except (KernelError S E.Error) (DuckDbKernel E)) = .ok kernel ∧
        kernel.conn = conn := DuckDbKernel.open_of_hydrates h rfl rfl rfl
  obtain ⟨kernel, hopen, -⟩ := hopens
  refine ⟨?_, fun faults r' hrefreshed => ?_⟩
  · rw [refresh, hopts, hopen]
  · rw [refresh, hopts] at hrefreshed
    cases hkernel : (DuckDbKernel.open pageStore r.replica.store ⟨none, none⟩ faults :
        Except (KernelError S E.Error) (DuckDbKernel E)) with
    | error source =>
      rw [hkernel] at hrefreshed
      cases hrefreshed
    | ok kernel =>
      rw [hkernel] at hrefreshed
      cases hrefreshed
      have hconn := (DuckDbKernel.hydrates_of_open hkernel).unique h
      exact congrArg E.content hconn

end ReadReplica

namespace Replication

/-- A head that a follower stands at: the root, or one that the primary's log ships. -/
def Shipped (root : S.ManifestId) (commits : List (Commit S)) (m : S.ManifestId) : Prop :=
  m = root ∨ ∃ c ∈ commits, c.manifest = m

/-- A head is still shipped when more commits are. -/
theorem Shipped.mono {commits commits' : List (Commit S)} {m : S.ManifestId}
    (h : Shipped root commits m) (hsubset : ∀ c ∈ commits, c ∈ commits') :
    Shipped root commits' m := by
  refine h.imp id ?_
  rintro ⟨c, hc, hm⟩
  exact ⟨c, hsubset c hc, hm⟩

/-- A follower's store: at a shipped head, with every page of it, and recovered there. -/
structure Follows (root : S.ManifestId) (commits : List (Commit S)) (pageSize : ℕ)
    (r : Replica S) : Prop where
  pageSize_eq : r.store.pager.pageSize = pageSize
  durable : r.Durable
  complete : r.Complete
  shipped : Shipped root commits r.head

/-- A shipment of a commit of the log is applied, or leaves the store where it was. -/
theorem Follows.apply (hS : S.Laws) {commits : List (Commit S)}
    (hderived : ∀ c ∈ commits, c.Derived) {pageSize : ℕ} {r : Replica S} {s : Shipment S}
    (faults : Faults S) (hs : ∃ c ∈ commits, Carries s c) (h : Follows root commits pageSize r) :
    Follows root commits pageSize (r.apply faults s).2 := by
  obtain ⟨c, hc, hcarries⟩ := hs
  refine ⟨(Replica.onward_apply hS faults r s).pageSize_eq.trans h.pageSize_eq,
    h.durable.apply hS faults s, h.complete.apply hS faults s, ?_⟩
  have houtcome := Replica.apply_outcome hS faults r s
  generalize r.apply faults s = result at houtcome
  cases houtcome with
  | present _ => exact h.shipped
  | outOfOrder _ _ => exact h.shipped
  | @stopped _ r' _ _ _ hkept =>
    have hhead : r'.head = r.head := hkept.store.head
    rw [hhead]
    exact h.shipped
  | diverged _ hbase _ hreplayed hgot =>
    refine absurd ?_ hgot
    rw [hreplayed.head_eq, hcarries.derived (hderived c hc), ← hbase]
    rfl
  | advanced _ _ _ _ hgot => exact .inr ⟨c, hc, (hgot.trans hcarries.manifest).symm⟩

/-- A follower's process: its store, and the manifest that its kernel was hydrated from, which is
shipped too and whose pages the store has. -/
structure Live (root : S.ManifestId) (commits : List (Commit S)) (pageSize : ℕ)
    (r : ReadReplica S E) : Prop where
  opts_eq : r.opts = ⟨none, none⟩
  follows : Follows root commits pageSize r.replica
  visible : Shipped root commits r.visible
  holds : S.Holds r.replica.store.pager.cas r.visible

/-- An operation from shipments of the log keeps a follower following. -/
theorem Live.step (hS : S.Laws) {commits : List (Commit S)} (hderived : ∀ c ∈ commits, c.Derived)
    {pageSize : ℕ} {r : ReadReplica S E} (h : Live root commits pageSize r)
    {op : ReplicaOp S E} (hop : op.From fun s => ∃ c ∈ commits, Carries s c) :
    Live root commits pageSize (r.step op).2 := by
  have hfollows : Follows root commits pageSize (r.step op).2.replica :=
    ReadReplica.step_replica (fun _ _ faults hs h => h.apply hS hderived faults hs) hop h.follows
  have honward : r.replica.store.Onward (r.step op).2.replica.store :=
    ReadReplica.step_replica (P := fun replica => r.replica.store.Onward replica.store)
      (fun replica s faults _ h => h.trans (Replica.onward_apply hS faults replica s)) hop
      ⟨.refl _, rfl⟩
  have hseen := ReadReplica.step_seen r op
  generalize r.step op = result at hfollows honward hseen
  cases hseen with
  | @kept result r' _ hvisible hopts =>
    refine ⟨hopts.trans h.opts_eq, hfollows, ?_, ?_⟩
    · exact hvisible.symm ▸ h.visible
    · exact hvisible.symm ▸ h.holds.grows honward.grows
  | queried _ => exact ⟨h.opts_eq, hfollows, h.visible, h.holds⟩
  | @refreshed reply r' _ hrefreshed =>
    refine ⟨hrefreshed.opts_eq.trans h.opts_eq, hfollows, ?_, ?_⟩
    · exact hrefreshed.visible_eq.symm ▸ hfollows.shipped
    · exact hrefreshed.visible_eq.symm ▸ hfollows.complete

end Replication

end FlockDb
