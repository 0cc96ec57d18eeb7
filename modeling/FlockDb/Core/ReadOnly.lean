import FlockDb.Core.ReadReplica

/-!
# Queries that only read

A read replica has no `execute`, but its `query` hands every statement to a connection that may
write. While the statements only read, every query answers from the file of the visible manifest;
one that writes changes the answers of the queries after it, up to the next refresh.
-/

namespace FlockDb

open Runs

variable {S : Substrate} {E : Engine}

namespace Engine

/-- Two connections answer every sequence of statements alike. -/
def Alike (E : Engine) (conn conn' : E.Connection) : Prop :=
  ∀ sqls, (run E.queryArrow conn sqls).1 = (run E.queryArrow conn' sqls).1

/-- A statement that only reads a connection: nothing that follows tells that it ran. -/
def OnlyReads (E : Engine) (conn : E.Connection) (sql : String) : Prop :=
  E.Alike (E.queryArrow conn sql).2 conn

/-- Connections that are alike answer a statement alike. -/
theorem Alike.answer_eq {conn conn' : E.Connection} (h : E.Alike conn conn') (sql : String) :
    (E.queryArrow conn sql).1 = (E.queryArrow conn' sql).1 := by
  have hone := h [sql]
  rw [run_cons, run_cons] at hone
  exact (List.cons.inj hone).1

/-- A connection each of whose answers, whatever ran before, is that of another one answers a
sequence of statements one by one as the other does. -/
theorem answers_eq_map {conn conn' : E.Connection}
    (h : ∀ sqls sql, (E.queryArrow (run E.queryArrow conn sqls).2 sql).1 =
      (E.queryArrow conn' sql).1) (sqls : List String) :
    (run E.queryArrow conn sqls).1 = sqls.map fun sql => (E.queryArrow conn' sql).1 := by
  induction sqls generalizing conn with
  | nil => rfl
  | cons sql sqls ih =>
    have hrest := @ih (E.queryArrow conn sql).2 fun before => h (sql :: before)
    rw [run_cons, List.map_cons, hrest]
    exact congrArg (· :: _) (h [] sql)

end Engine

namespace ReadReplica

/-- A query answers as on a new connection to the file of the visible manifest. -/
def AnswersVisible (r : ReadReplica S E) (sql : String) : Prop :=
  ∃ conn, r.Hydrated conn ∧
    (r.query sql).1 = ({ r with kernel := ⟨conn, r.kernel.path⟩ }.query sql).1

/-- Every query of a run only reads the connection it finds. -/
def QueriesOnlyRead (r : ReadReplica S E) : List (ReplicaOp S E) → Prop
  | [] => True
  | op :: ops =>
    (∀ sql, op = .query sql → E.OnlyReads r.kernel.conn sql) ∧ QueriesOnlyRead (r.step op).2 ops

/-- No refresh and no restore of a run goes through. -/
def Unrefreshed (r : ReadReplica S E) : List (ReplicaOp S E) → Prop
  | [] => True
  | op :: ops =>
    (op.Refreshes → ∃ e, (r.step op).1 = .error e) ∧ Unrefreshed (r.step op).2 ops

/-- What a run leaves for the next query: it answers from the visible manifest, and as at any
time of the run since the last refresh. -/
structure Consistent (r : ReadReplica S E) (ops : List (ReplicaOp S E)) : Prop where
  visible : ∀ sql, (run step r ops).2.AnswersVisible sql
  stable : ∀ before after, ops = before ++ after → Unrefreshed (run step r before).2 after →
    ∀ sql, ((run step r ops).2.query sql).1 = ((run step r before).2.query sql).1

/-- A query answers what the connection answers. -/
theorem query_fst (r : ReadReplica S E) (sql : String) :
    (r.query sql).1 = match (E.queryArrow r.kernel.conn sql).1 with
      | .error source => .error (.kernel (.sql sql source))
      | .ok batches => .ok batches := by
  rw [query, DuckDbKernel.query]
  rcases E.queryArrow r.kernel.conn sql with ⟨source | batches, conn⟩ <;> rfl

/-- Queries on two replicas answer alike exactly when their connections do. -/
theorem query_fst_eq_iff {r r' : ReadReplica S E} {sql : String} :
    (r.query sql).1 = (r'.query sql).1 ↔
      (E.queryArrow r.kernel.conn sql).1 = (E.queryArrow r'.kernel.conn sql).1 := by
  rw [query_fst, query_fst]
  constructor
  · intro h
    cases hanswer : (E.queryArrow r.kernel.conn sql).1 <;>
      cases hanswer' : (E.queryArrow r'.kernel.conn sql).1 <;>
      simp_all
  · intro h
    rw [h]

/-- The kernel's connection cannot be told from a new one to the file of the visible manifest. -/
def Fresh (r : ReadReplica S E) : Prop := ∃ conn, r.Hydrated conn ∧ E.Alike r.kernel.conn conn

/-- A replica with a fresh kernel answers from the visible manifest. -/
theorem Fresh.answersVisible {r : ReadReplica S E} (h : Fresh r) (sql : String) :
    r.AnswersVisible sql := by
  obtain ⟨conn, hhydrated, halike⟩ := h
  exact ⟨conn, hhydrated, query_fst_eq_iff.mpr (halike.answer_eq sql)⟩

/-- An operation that is no query, or whose statement only reads, leaves the kernel fresh. -/
theorem fresh_step (hS : S.Laws) {r : ReadReplica S E} (h : Fresh r) {op : ReplicaOp S E}
    (hop : ∀ sql, op = .query sql → E.OnlyReads r.kernel.conn sql) : Fresh (r.step op).2 := by
  have honward := onward_step hS r op
  have hseen := step_seen r op
  generalize r.step op = result at honward hseen
  obtain ⟨conn, hhydrated, halike⟩ := h
  cases hseen with
  | kept hkernel hvisible hopts =>
    exact ⟨conn, hhydrated.onward hS honward hvisible hopts, hkernel ▸ halike⟩
  | @queried _ sql heq =>
    exact ⟨conn, hhydrated, fun sqls => (hop sql heq sqls).trans (halike sqls)⟩
  | refreshed _ hrefreshed => exact ⟨_, hrefreshed.hydrated, fun _ => rfl⟩

/-- A run whose queries only read leaves the kernel fresh. -/
theorem fresh_run (hS : S.Laws) {r : ReadReplica S E} (h : Fresh r) {ops : List (ReplicaOp S E)}
    (hops : QueriesOnlyRead r ops) : Fresh (run step r ops).2 := by
  induction ops generalizing r with
  | nil => exact h
  | cons op ops ih => exact ih (fresh_step hS h hops.1) hops.2

/-- The queries of a part of a run only read. -/
theorem queriesOnlyRead_append {r : ReadReplica S E} {before after : List (ReplicaOp S E)} :
    QueriesOnlyRead r (before ++ after) ↔
      QueriesOnlyRead r before ∧ QueriesOnlyRead (run step r before).2 after := by
  induction before generalizing r with
  | nil => simp [QueriesOnlyRead]
  | cons op before ih => simp [QueriesOnlyRead, ih, and_assoc]

/-- While no refresh goes through, a connection stays one to the file of the visible manifest. -/
theorem Hydrated.unrefreshed (hS : S.Laws) {r : ReadReplica S E} {conn : E.Connection}
    (h : r.Hydrated conn) {ops : List (ReplicaOp S E)} (hops : Unrefreshed r ops) :
    (run step r ops).2.Hydrated conn := by
  induction ops generalizing r with
  | nil => exact h
  | cons op ops ih =>
    have hnext : (r.step op).2.Hydrated conn := by
      have honward := onward_step hS r op
      have hseen := step_seen r op
      have hfails := hops.1
      generalize r.step op = result at honward hseen hfails
      cases hseen with
      | kept hkernel hvisible hopts => exact h.onward hS honward hvisible hopts
      | queried heq => exact h
      | refreshed hop _ =>
        obtain ⟨e, he⟩ := hfails hop
        cases he
    exact ih hnext hops.2

/-- A run whose queries only read is consistent. -/
theorem consistent_of_queriesOnlyRead (hS : S.Laws) {r : ReadReplica S E} (h : Fresh r)
    {ops : List (ReplicaOp S E)} (hops : QueriesOnlyRead r ops) : Consistent r ops where
  visible := (fresh_run hS h hops).answersVisible
  stable := by
    rintro before after rfl hafter sql
    obtain ⟨hbefore, -⟩ := queriesOnlyRead_append.mp hops
    obtain ⟨conn, hhydrated, halike⟩ := fresh_run hS h hbefore
    obtain ⟨conn', hhydrated', halike'⟩ := fresh_run hS h hops
    have hsame : (run step r (before ++ after)).2.Hydrated conn := by
      rw [run_append]
      exact hhydrated.unrefreshed hS hafter
    obtain rfl := hsame.unique hhydrated'
    exact query_fst_eq_iff.mpr ((halike'.answer_eq sql).trans (halike.answer_eq sql).symm)

/-- Queries move nothing but the connection. -/
theorem run_queries (r : ReadReplica S E) (sqls : List String) :
    (run step r (sqls.map .query)).2 =
      { r with kernel := ⟨(run E.queryArrow r.kernel.conn sqls).2, r.kernel.path⟩ } := by
  induction sqls generalizing r with
  | nil => rfl
  | cons sql sqls ih =>
    have hstep : (r.step (.query sql)).2 =
        { r with kernel := ⟨(E.queryArrow r.kernel.conn sql).2, r.kernel.path⟩ } := by
      rw [step, query, DuckDbKernel.query]
      rcases E.queryArrow r.kernel.conn sql with ⟨source | batches, conn⟩ <;> rfl
    rw [List.map_cons, run_cons, run_cons]
    simp only [hstep, ih]

/-- If no run of queries makes a query answer otherwise than from the visible manifest, then
every statement only reads. -/
theorem onlyReads_of_answersVisible {r : ReadReplica S E}
    (h : ∀ (sqls : List String) sql, (run step r (sqls.map .query)).2.AnswersVisible sql)
    (sql : String) : E.OnlyReads r.kernel.conn sql := by
  obtain ⟨conn, hhydrated, -⟩ := h [] sql
  have hanswer (sqls : List String) (sql' : String) :
      (E.queryArrow (run E.queryArrow r.kernel.conn sqls).2 sql').1 =
        (E.queryArrow conn sql').1 := by
    obtain ⟨conn', hhydrated', heq⟩ := h sqls sql'
    rw [run_queries] at hhydrated' heq
    obtain rfl := DuckDbKernel.Hydrates.unique hhydrated hhydrated'
    exact query_fst_eq_iff.mp heq
  intro sqls
  rw [Engine.answers_eq_map hanswer sqls]
  exact Engine.answers_eq_map (fun before => hanswer (sql :: before)) sqls

/-- **When the queries of a read replica are consistent.** In every run whose queries only read,
each query answers from the file of the visible manifest; and if that is so in every run, then
no run has a query that does more than read. -/
theorem consistent_iff (hS : S.Laws) {env : Env S E} {pool pool' : Pool S} {dbName : String}
    {opts : KernelOpts} {r : ReadReplica S E}
    (hopen : openWith env pool dbName opts = (.ok r, pool')) :
    (∀ ops, QueriesOnlyRead r ops → Consistent r ops) ∧
      ((∀ ops, Consistent r ops) ↔ ∀ ops, QueriesOnlyRead r ops) := by
  have hfresh : Fresh r := ⟨_, (hydrated_of_openWith hopen).2, fun _ => rfl⟩
  have hsound (ops : List (ReplicaOp S E)) (hops : QueriesOnlyRead r ops) : Consistent r ops :=
    consistent_of_queriesOnlyRead hS hfresh hops
  refine ⟨hsound, fun hconsistent ops => ?_, fun hreads ops => hsound ops (hreads ops)⟩
  have hvisible (ops : List (ReplicaOp S E)) (sql : String) :
      (run step r ops).2.AnswersVisible sql := (hconsistent ops).visible sql
  clear hconsistent hsound hfresh hopen
  induction ops generalizing r with
  | nil => trivial
  | cons op ops ih =>
    exact ⟨fun sql _ => onlyReads_of_answersVisible (fun sqls => hvisible (sqls.map .query)) sql,
      ih fun more => hvisible (op :: more)⟩

/-- Two `SELECT`s on a new replica are consistent. -/
theorem consistent_selects : Consistent follower [.query "SELECT", .query "SELECT"] := by
  obtain ⟨pool, hopen⟩ := openWith_followerPool
  exact (consistent_iff (Memory.laws []) hopen).1 _
    ⟨fun sql hsql => by cases hsql; exact fun _ => rfl,
      fun sql hsql => by cases hsql; exact fun _ => rfl, trivial⟩

/-- An `INSERT` through `query` is accepted, and the next query sees it: the visible manifest is
still the same. -/
theorem insert_is_seen :
    let r := (run step follower [.query "INSERT"]).2
    (∃ pool, openWith .none followerPool "sales" ⟨none, none⟩ = (.ok follower, pool)) ∧
      (follower.query "SELECT").1 = .ok [] ∧ (r.query "SELECT").1 = .ok [6] ∧
      r.visibleHead = follower.visibleHead ∧ ¬Consistent follower [.query "INSERT"] := by
  refine ⟨⟨_, rfl⟩, rfl, rfl, rfl, fun h => ?_⟩
  have hsame := h.stable [] [.query "INSERT"] rfl ⟨fun hop => hop.elim, trivial⟩ "SELECT"
  cases hsame

end ReadReplica

end FlockDb
