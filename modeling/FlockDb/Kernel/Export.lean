import FlockDb.Kernel.Duck
import FlockDb.Library.Sql

/-!
# Exporting a database

`export` attaches a new database under a fixed name, copies everything into it and detaches
it, in one script. What the script touches is outside of the scratch file: the catalogs of the
connection and a file at the destination. A script stops at its first statement that fails, and
what the statements before it did stays done.
-/

namespace FlockDb.Export

open Sql

/-- `sql_string_literal`. -/
def sqlStringLiteral (s : String) : String := String.ofList (inQuotes '\'' s.toList)

/-- `sql_identifier`. -/
def sqlIdentifier (s : String) : String := String.ofList (inQuotes '"' s.toList)

/-- The script of `export`. -/
def exportScript (path source : String) : String :=
  "ATTACH " ++ sqlStringLiteral path ++
    " AS flock_export (TYPE DUCKDB); COPY FROM DATABASE " ++ sqlIdentifier source ++
    " TO flock_export; DETACH flock_export;"

/-- A statement of the script. -/
inductive Statement where
  | attach (path catalog : String)
  | copyFromDatabase (source target : String)
  | detach (catalog : String)
  deriving DecidableEq

/-- The tokens of a statement. -/
def Statement.tokens : Statement → List Token
  | .attach path catalog =>
    [.word "ATTACH".toList, .literal path.toList, .word "AS".toList, .word catalog.toList,
      .symbol '(', .word "TYPE".toList, .word "DUCKDB".toList, .symbol ')', .symbol ';']
  | .copyFromDatabase source target =>
    [.word "COPY".toList, .word "FROM".toList, .word "DATABASE".toList,
      .identifier source.toList, .word "TO".toList, .word target.toList, .symbol ';']
  | .detach catalog => [.word "DETACH".toList, .word catalog.toList, .symbol ';']

/-- The statements of the script. -/
def exportStatements (path source : String) : List Statement :=
  [.attach path "flock_export", .copyFromDatabase source "flock_export", .detach "flock_export"]

/-- The script says its statements, whatever the path and the catalog are called. -/
theorem tokenise_exportScript (path source : String) :
    tokenise (exportScript path source).toList =
      some ((exportStatements path source).flatMap Statement.tokens) := by
  have htext : (exportScript path source).toList = "ATTACH ".toList ++
      (inQuotes '\'' path.toList ++ (" AS flock_export (TYPE DUCKDB); COPY FROM DATABASE ".toList ++
        (inQuotes '"' source.toList ++ " TO flock_export; DETACH flock_export;".toList))) := by
    simp only [exportScript, sqlStringLiteral, sqlIdentifier, String.toList_append,
      String.toList_ofList, List.append_assoc]
  have hattach : tokenise "ATTACH ".toList = some [.word "ATTACH".toList] := by decide +kernel
  have hcopy : tokenise " AS flock_export (TYPE DUCKDB); COPY FROM DATABASE ".toList =
      some [.word "AS".toList, .word "flock_export".toList, .symbol '(', .word "TYPE".toList,
        .word "DUCKDB".toList, .symbol ')', .symbol ';', .word "COPY".toList, .word "FROM".toList,
        .word "DATABASE".toList] := by decide +kernel
  have hdetach : tokenise " TO flock_export; DETACH flock_export;".toList =
      some [.word "TO".toList, .word "flock_export".toList, .symbol ';', .word "DETACH".toList,
        .word "flock_export".toList, .symbol ';'] := by decide +kernel
  rw [htext, tokenise_append_literal hattach (by decide) (by decide) _ (by simp),
    tokenise_append_identifier hcopy (by decide) (by decide) _ (by decide), hdetach]
  rfl

/-- What an export needs to know of DuckDB: the file that `ATTACH` creates, the file that a
whole copy of the current database is, its complaints about catalogs, and how it words them. -/
structure Duck (D F : Type) where
  fresh : F
  whole : F
  alreadyAttached : String → D
  notAttached : String → D
  cannotDetach : String → D
  describe : D → String

/-- What an export can touch: the catalogs of the connection, each with its path, among them
the current one, and the files outside of the kernel. -/
structure Session (F : Type) where
  current : String
  catalogs : String → Option String
  current_attached : (catalogs current).isSome
  files : String → Option F

/-- Which steps of an export fail on their own. An `ATTACH` that fails may have made its file
before it did, and a copy that fails leaves something in its file. -/
structure ExportFaults (D F : Type) where
  currentDatabase : Option D
  attach : Option (D × Option F)
  copy : Option (D × F)
  detach : Option D

/-- The plan under which every step goes through. -/
def ExportFaults.none {D F : Type} : ExportFaults D F :=
  ⟨Option.none, Option.none, Option.none, Option.none⟩

namespace Session

variable {S : Substrate} {D F : Type}

/-- The session with one more catalog. -/
def attach (session : Session F) (catalog path : String) : Session F where
  current := session.current
  catalogs := Function.update session.catalogs catalog (some path)
  current_attached := by
    by_cases h : session.current = catalog
    · rw [h, Function.update_self]
      rfl
    · rw [Function.update_of_ne h]
      exact session.current_attached
  files := session.files

/-- Attaching a catalog leaves the files alone. -/
@[simp] theorem attach_files (session : Session F) (catalog path : String) :
    (session.attach catalog path).files = session.files := rfl

/-- The session without a catalog that is not the current one. -/
def detach (session : Session F) (catalog : String) (h : session.current ≠ catalog) :
    Session F where
  current := session.current
  catalogs := Function.update session.catalogs catalog none
  current_attached := by
    rw [Function.update_of_ne h]
    exact session.current_attached
  files := session.files

/-- The session with a file written. -/
def write (session : Session F) (path : String) (file : F) : Session F :=
  { session with files := Function.update session.files path (some file) }

/-- The session with a file made, unless there is one. -/
def create (session : Session F) (path : String) (file : F) : Session F :=
  if (session.files path).isSome then session else session.write path file

/-- Making a file attaches and detaches nothing. -/
@[simp] theorem create_catalogs (session : Session F) (path : String) (file : F) :
    (session.create path file).catalogs = session.catalogs := by
  rw [create]
  split <;> rfl

/-- One statement. `ATTACH` opens its file, which it makes unless there is one, before it looks
for its catalog; a copy goes into the file of its target, and an attached catalog stays attached
until it is detached. -/
def run (duck : Duck D F) (faults : ExportFaults D F) (session : Session F) :
    Statement → Except D Unit × Session F
  | .attach path catalog =>
    match faults.attach with
    | some (e, none) => (.error e, session)
    | some (e, some left) => (.error e, session.create path left)
    | none =>
      let session := session.create path duck.fresh
      if (session.catalogs catalog).isSome then (.error (duck.alreadyAttached catalog), session)
      else (.ok (), session.attach catalog path)
  | .copyFromDatabase source target =>
    if (session.catalogs source).isNone then (.error (duck.notAttached source), session)
    else
      match session.catalogs target with
      | none => (.error (duck.notAttached target), session)
      | some path =>
        match faults.copy with
        | some (e, partly) => (.error e, session.write path partly)
        | none => (.ok (), session.write path duck.whole)
  | .detach catalog =>
    if (session.catalogs catalog).isNone then (.error (duck.notAttached catalog), session)
    else if h : session.current = catalog then (.error (duck.cannotDetach catalog), session)
    else
      match faults.detach with
      | some e => (.error e, session)
      | none => (.ok (), session.detach catalog h)

/-- `Connection::execute_batch`: the statements in their order, up to the first that fails. -/
def runBatch (duck : Duck D F) (faults : ExportFaults D F) (session : Session F) :
    List Statement → Except D Unit × Session F
  | [] => (.ok (), session)
  | statement :: statements =>
    match session.run duck faults statement with
    | (.error e, session) => (.error e, session)
    | (.ok (), session) => session.runBatch duck faults statements

/-- What `export` says of a script that DuckDB refused. -/
def refusal (duck : Duck D F) (script : String) (source : D) : String :=
  "DuckDB refused to write it: SQL failed: " ++ duck.describe source ++
    "\nThe statement was:\n  " ++ script ++
    "\nIf the object is missing, `SHOW TABLES` lists what this database actually contains."

/-- `DuckDbKernel::export`. -/
def «export» (duck : Duck D F) (faults : ExportFaults D F) (session : Session F) (path : String) :
    Except (KernelError S D) Unit × Session F :=
  if (session.files path).isSome then
    (.error (.export path "a file already exists there"), session)
  else
    match faults.currentDatabase with
    | some source => (.error (.sql "SELECT current_database()" source), session)
    | none =>
      match session.runBatch duck faults (exportStatements path session.current) with
      | (.error source, session) =>
        let script := exportScript path session.current
        (.error (.export path (refusal duck script source)), session)
      | (.ok (), session) => (.ok (), session)

end Session

section AllOrNothing

variable {S : Substrate} {D F : Type} (duck : Duck D F)

/-- An export is all or nothing: one that fails leaves the catalogs and the files as they were,
and every path that was free can still be exported to. A file that was at the destination is
there unchanged either way. -/
def AllOrNothing (S : Substrate) (faults : ExportFaults D F) (session : Session F)
    (path : String) : Prop :=
  let result : Except (KernelError S D) Unit × Session F := session.export duck faults path
  (∀ e, result.1 = .error e →
    result.2.catalogs = session.catalogs ∧ result.2.files = session.files ∧
      ∀ path', session.files path' = none →
        (result.2.export duck .none path' : Except (KernelError S D) Unit × Session F).1 =
          .ok ()) ∧
  ∀ file, session.files path = some file → result.2.files path = some file

/-- The export gets to its `ATTACH`, and no catalog has the name that is attached. -/
structure Reaches (faults : ExportFaults D F) (session : Session F) (path : String) : Prop where
  free : session.files path = none
  catalog : session.catalogs "flock_export" = none
  currentDatabase : faults.currentDatabase = none

/-- The export gets past its `ATTACH`. -/
structure Attaches (faults : ExportFaults D F) (session : Session F) (path : String) : Prop
    extends Reaches faults session path where
  attach : faults.attach = none

/-- The export's `ATTACH` fails and leaves a file, or it fails past its `ATTACH`, or its catalog
is there already and some path is free. -/
def Interrupted (faults : ExportFaults D F) (session : Session F) (path : String) : Prop :=
  (Reaches faults session path ∧ ∃ e left, faults.attach = some (e, some left)) ∨
  (Attaches faults session path ∧ (faults.copy ≠ none ∨ faults.detach ≠ none)) ∨
  ((session.catalogs "flock_export").isSome ∧ ∃ path', session.files path' = none)

variable {faults : ExportFaults D F} {session : Session F} {path : String}

/-- The session in which the copy of an export runs. -/
def Session.attached (duck : Duck D F) (session : Session F) (path : String) : Session F :=
  (session.write path duck.fresh).attach "flock_export" path

/-- An export that gets past its `ATTACH` goes on with the copy. -/
theorem Attaches.export_eq (h : Attaches faults session path) :
    (session.export duck faults path : Except (KernelError S D) Unit × Session F) =
      match (session.attached duck path).runBatch duck faults
        [.copyFromDatabase session.current "flock_export", .detach "flock_export"] with
      | (.error source, session) =>
        (.error (.export path
          (Session.refusal duck (exportScript path session.current) source)), session)
      | (.ok (), session) => (.ok (), session) := by
  have hrun : session.run duck faults (.attach path "flock_export") =
      (.ok (), session.attached duck path) := by
    simp [Session.run, Session.create, Session.write, h.catalog, h.attach, h.free,
      Session.attached]
  simp only [Session.export, h.free, h.currentDatabase, exportStatements, Session.runBatch, hrun,
    Option.isSome_none, Bool.false_eq_true, if_false]

/-- The catalog of an export that got past its `ATTACH` is attached to its file. -/
theorem Session.attached_catalogs (session : Session F) (path : String) :
    (session.attached duck path).catalogs "flock_export" = some path := by
  rw [Session.attached, Session.attach]
  exact Function.update_self "flock_export" (some path) session.catalogs

/-- The copy of an export finds its source. -/
theorem Session.attached_current (session : Session F) (path : String) :
    ((session.attached duck path).catalogs session.current).isNone = false := by
  have hcurrent := (session.attached duck path).current_attached
  have hsame : (session.attached duck path).current = session.current := rfl
  rw [hsame] at hcurrent
  simpa using hcurrent

/-- The current catalog is not the one an export attaches. -/
theorem Attaches.current_ne (h : Attaches faults session path) :
    session.current ≠ "flock_export" := by
  intro hcurrent
  have hattached := session.current_attached
  rw [hcurrent, h.catalog] at hattached
  cases hattached

/-- An export that gets past its `ATTACH` and no further leaves its catalog attached. -/
theorem Attaches.fails (h : Attaches faults session path)
    (hfails : faults.copy ≠ none ∨ faults.detach ≠ none) :
    ∃ e session', (session.export duck faults path : Except (KernelError S D) Unit × Session F) =
      (.error e, session') ∧ session'.catalogs "flock_export" = some path := by
  have hcatalog := session.attached_catalogs duck path
  have hcurrent := session.attached_current duck path
  rw [h.export_eq]
  cases hcopy : faults.copy with
  | some failure =>
    obtain ⟨e, partly⟩ := failure
    simp only [Session.runBatch, Session.run, hcurrent, hcatalog, hcopy, Bool.false_eq_true,
      if_false]
    exact ⟨_, _, rfl, hcatalog⟩
  | none =>
    cases hdetach : faults.detach with
    | none => exact absurd hfails (by simp [hcopy, hdetach])
    | some e =>
      have hne : ((session.attached duck path).write path duck.whole).current ≠ "flock_export" :=
        h.current_ne
      have hcatalog' : ((session.attached duck path).write path duck.whole).catalogs
          "flock_export" = some path := hcatalog
      simp only [Session.runBatch, Session.run, hcurrent, hcatalog, hcatalog', hcopy, hdetach,
        Bool.false_eq_true, if_false, Option.isNone_some, dif_neg hne]
      exact ⟨_, _, rfl, hcatalog⟩

/-- An export none of whose statements fails succeeds. -/
theorem Attaches.succeeds (h : Attaches faults session path) (hcopy : faults.copy = none)
    (hdetach : faults.detach = none) :
    (session.export duck faults path : Except (KernelError S D) Unit × Session F).1 = .ok () := by
  have hcatalog := session.attached_catalogs duck path
  have hcurrent := session.attached_current duck path
  have hne : ((session.attached duck path).write path duck.whole).current ≠ "flock_export" :=
    h.current_ne
  have hcatalog' : ((session.attached duck path).write path duck.whole).catalogs
      "flock_export" = some path := hcatalog
  rw [h.export_eq]
  simp only [Session.runBatch, Session.run, hcurrent, hcatalog, hcatalog', hcopy, hdetach,
    Bool.false_eq_true, if_false, Option.isNone_some, dif_neg hne]

/-- An export that does not get past its `ATTACH` fails, and attaches and detaches nothing. It
touches no file either, unless it is interrupted. -/
theorem export_of_not_attaches (h : ¬Attaches faults session path) :
    ∃ e session', (session.export duck faults path : Except (KernelError S D) Unit × Session F) =
      (.error e, session') ∧ session'.catalogs = session.catalogs ∧
        (session' = session ∨ Interrupted faults session path) := by
  rw [Session.export]
  cases hfree : session.files path with
  | some file =>
    rw [Option.isSome_some, if_pos rfl]
    exact ⟨_, session, rfl, rfl, .inl rfl⟩
  | none =>
    rw [Option.isSome_none, if_neg Bool.false_ne_true]
    cases hcurrent : faults.currentDatabase with
    | some source => exact ⟨_, session, rfl, rfl, .inl rfl⟩
    | none =>
      have htaken (path' : String) (hcatalog : session.catalogs "flock_export" = some path') :
          Interrupted faults session path :=
        .inr (.inr ⟨Option.isSome_of_eq_some hcatalog, path, hfree⟩)
      cases hattach : faults.attach with
      | some failure =>
        obtain ⟨e, _ | left⟩ := failure
        · simp only [exportStatements, Session.runBatch, Session.run, hattach]
          exact ⟨_, session, rfl, rfl, .inl rfl⟩
        · simp only [exportStatements, Session.runBatch, Session.run, hattach]
          refine ⟨_, session.create path left, rfl, session.create_catalogs path left, .inr ?_⟩
          cases hcatalog : session.catalogs "flock_export" with
          | none => exact .inl ⟨⟨hfree, hcatalog, hcurrent⟩, e, left, hattach⟩
          | some path' => exact htaken path' hcatalog
      | none =>
        cases hcatalog : session.catalogs "flock_export" with
        | none => exact absurd ⟨⟨hfree, hcatalog, hcurrent⟩, hattach⟩ h
        | some path' =>
          simp only [exportStatements, Session.runBatch, Session.run, hattach,
            Session.create_catalogs, hcatalog, Option.isSome_some, if_true]
          exact ⟨_, session.create path duck.fresh, rfl, session.create_catalogs path _,
            .inr (htaken path' hcatalog)⟩

/-- An export whose catalog is there already fails, and leaves it there. -/
theorem export_of_taken (faults : ExportFaults D F) (path : String)
    (h : (session.catalogs "flock_export").isSome) :
    ∃ e session', (session.export duck faults path : Except (KernelError S D) Unit × Session F) =
      (.error e, session') ∧ (session'.catalogs "flock_export").isSome := by
  have hnot : ¬Attaches faults session path := fun hattaches => by
    rw [hattaches.catalog] at h
    cases h
  obtain ⟨e, session', hexport, hcatalogs, -⟩ := export_of_not_attaches (S := S) duck hnot
  rw [← hcatalogs] at h
  exact ⟨e, session', hexport, h⟩

/-- The file that a failing `ATTACH` leaves is at the destination after the export. -/
theorem Reaches.leaves (h : Reaches faults session path) {e : D} {left : F}
    (hattach : faults.attach = some (e, some left)) :
    ∃ e' session', (session.export duck faults path : Except (KernelError S D) Unit × Session F) =
      (.error e', session') ∧ session'.files path = some left := by
  have hrun : session.run duck faults (.attach path "flock_export") =
      (.error e, session.write path left) := by
    simp [Session.run, Session.create, hattach, h.free]
  have hleft : (session.write path left).files path = some left := by
    rw [Session.write]
    exact Function.update_self path (some left) session.files
  simp only [Session.export, h.free, h.currentDatabase, exportStatements, Session.runBatch, hrun,
    Option.isSome_none, Bool.false_eq_true, if_false]
  exact ⟨_, _, rfl, hleft⟩

/-- An export that is interrupted is not all or nothing. -/
theorem Interrupted.not_allOrNothing (h : Interrupted faults session path) :
    ¬AllOrNothing duck S faults session path := by
  rintro ⟨hfails, -⟩
  rcases h with ⟨hreaches, e, left, hattach⟩ | ⟨hattaches, hinterrupted⟩ | ⟨hcatalog, path', hfree⟩
  · -- the file stays at the destination
    obtain ⟨e', session', hexport, hleft⟩ := hreaches.leaves (S := S) duck hattach
    rw [hexport] at hfails
    obtain ⟨-, hfiles, -⟩ := hfails e' rfl
    rw [hfiles, hreaches.free] at hleft
    cases hleft
  · -- the catalog stays attached
    obtain ⟨e, session', hexport, hleft⟩ := hattaches.fails (S := S) duck hinterrupted
    rw [hexport] at hfails
    obtain ⟨hcatalogs, -⟩ := hfails e rfl
    rw [hcatalogs, hattaches.catalog] at hleft
    cases hleft
  · -- no export attaches a catalog that is there
    obtain ⟨e, session', hexport, hcatalog'⟩ := export_of_taken (S := S) duck faults path hcatalog
    rw [hexport] at hfails
    obtain ⟨-, -, hlater⟩ := hfails e rfl
    obtain ⟨e', session'', hexport', -⟩ := export_of_taken (S := S) duck .none path' hcatalog'
    have hok := hlater path' hfree
    rw [hexport'] at hok
    cases hok

/-- **When an export is all or nothing.** It is unless its `ATTACH` fails and leaves a file, or
it fails past its `ATTACH`, or the catalog it attaches is there already while some path is
free. -/
theorem export_allOrNothing_iff (duck : Duck D F) (faults : ExportFaults D F) (session : Session F)
    (path : String) :
    AllOrNothing duck S faults session path ↔ ¬Interrupted faults session path := by
  constructor
  · intro hall hinterrupted
    exact hinterrupted.not_allOrNothing duck hall
  · intro hinterrupted
    by_cases hattaches : Attaches faults session path
    · -- nothing fails
      have hall : faults.copy = none ∧ faults.detach = none := by
        by_contra hfails
        rw [not_and_or] at hfails
        exact hinterrupted (.inr (.inl ⟨hattaches, hfails⟩))
      have hok := hattaches.succeeds (S := S) duck hall.1 hall.2
      refine ⟨fun e he => ?_, fun file hfile => ?_⟩
      · rw [hok] at he
        cases he
      · rw [hattaches.free] at hfile
        cases hfile
    · -- nothing is touched
      obtain ⟨e, session', hexport, -, hsame⟩ := export_of_not_attaches (S := S) duck hattaches
      obtain rfl : session' = session := hsame.resolve_right hinterrupted
      rw [AllOrNothing, hexport]
      refine ⟨fun _ _ => ⟨rfl, rfl, fun path' hfree => ?_⟩, fun file hfile => hfile⟩
      have hcatalog : session'.catalogs "flock_export" = none := by
        by_contra hattached
        exact hinterrupted (.inr (.inr ⟨Option.isSome_iff_ne_none.mpr hattached, path', hfree⟩))
      have hlater : Attaches (ExportFaults.none : ExportFaults D F) session' path' :=
        ⟨⟨hfree, hcatalog, rfl⟩, rfl⟩
      exact hlater.succeeds duck rfl rfl

end AllOrNothing

/-- DuckDB with complaints that are texts and files that are numbers. -/
def plainDuck : Duck String ℕ :=
  ⟨0, 2, ("already attached: " ++ ·), ("not attached: " ++ ·), ("cannot detach: " ++ ·), id⟩

/-- A connection to its scratch file, and no other file. -/
def plainSession : Session ℕ where
  current := "flock"
  catalogs := fun catalog => if catalog = "flock" then some "/tmp/flock.duckdb" else none
  current_attached := by decide
  files := fun _ => none

/-- The copy fails halfway. -/
def copyFails : ExportFaults String ℕ := ⟨none, none, some ("disk full", 1), none⟩

/-- **A copy that fails spoils every export after it.** Its catalog stays attached and half a
file stays at the destination, so that neither that path nor another can be exported to. -/
theorem export_not_all_or_nothing :
    let result : Except (KernelError (memory []) String) Unit × Session ℕ :=
      plainSession.export plainDuck copyFails "/home/out.duckdb"
    (∃ e, result.1 = .error e) ∧
    result.2.catalogs "flock_export" = some "/home/out.duckdb" ∧
    result.2.files "/home/out.duckdb" = some 1 ∧
    (∃ e, (result.2.export plainDuck .none "/home/out.duckdb" :
      Except (KernelError (memory []) String) Unit × Session ℕ).1 = .error e) ∧
    (∃ e, (result.2.export plainDuck .none "/home/other.duckdb" :
      Except (KernelError (memory []) String) Unit × Session ℕ).1 = .error e) ∧
    ¬AllOrNothing plainDuck (memory []) copyFails plainSession "/home/out.duckdb" := by
  intro result
  have hattached : result.2.catalogs "flock_export" = some "/home/out.duckdb" := rfl
  have htaken : (result.2.catalogs "flock_export").isSome := by rw [hattached, Option.isSome_some]
  have hrefused (path : String) : ∃ e, (result.2.export plainDuck .none path :
      Except (KernelError (memory []) String) Unit × Session ℕ).1 = .error e := by
    obtain ⟨e, session', hexport, -⟩ := export_of_taken (S := memory []) plainDuck .none path htaken
    exact ⟨e, congrArg Prod.fst hexport⟩
  refine ⟨⟨_, rfl⟩, hattached, rfl, hrefused _, hrefused _, fun h => ?_⟩
  obtain ⟨hcatalogs, -⟩ := h.1 _ rfl
  have hsame : some "/home/out.duckdb" = (none : Option String) := congrFun hcatalogs "flock_export"
  cases hsame

end FlockDb.Export
