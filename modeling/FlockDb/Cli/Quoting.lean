import FlockDb.Cli.Commands
import FlockDb.Kernel.Export

/-!
# Names and paths in SQL

The commands put paths and names into the SQL that they run. A path goes into a literal with
its quotes doubled, a catalog into a quoted identifier with its quotes doubled, and a table into
a quoted identifier as it is, for which it has been checked.
-/

namespace FlockDb

open Sql Export

variable {S : Substrate} {E : Engine}

/-- The tokens of the statement of `import` that creates the table. -/
def createTableTokens (reader path table : String) : List Token :=
  [.word "CREATE".toList, .word "TABLE".toList, .identifier table.toList, .word "AS".toList,
    .word "SELECT".toList, .symbol '*', .word "FROM".toList, .word reader.toList, .symbol '(',
    .literal path.toList, .symbol ')']

/-- The names that pass the check: a letter or an underscore first, and nothing but letters,
digits and underscores. -/
theorem checkIdentifier_ok_iff {name : String} :
    (checkIdentifier name : Except (CliError S E) Unit) = .ok () ↔
      (∃ c, name.toList.head? = some c ∧ (c.isAlpha = true ∨ c = '_')) ∧
        ∀ c ∈ name.toList, c.isAlphanum = true ∨ c = '_' := by
  rw [checkIdentifier]
  cases hname : name.toList with
  | nil => simp
  | cons c text =>
    simp only [List.isEmpty_cons, Bool.not_false, Bool.true_and, List.head?_cons, Option.any_some,
      Option.some.injEq]
    by_cases hok : ((c.isAlpha || decide (c = '_')) &&
        (c :: text).all fun c => c.isAlphanum || decide (c = '_')) = true
    · rw [if_pos hok]
      simpa using hok
    · rw [if_neg hok]
      constructor
      · intro h
        cases h
      · rintro ⟨⟨d, rfl, hfirst⟩, hall⟩
        refine absurd ?_ hok
        simpa [hfirst] using hall

/-- A name that passes the check has no quote in it. -/
theorem quote_notMem_of_checkIdentifier {name : String}
    (h : (checkIdentifier name : Except (CliError S E) Unit) = .ok ()) : '"' ∉ name.toList := by
  intro hquote
  rcases (checkIdentifier_ok_iff.mp h).2 '"' hquote with halpha | hunderscore
  · cases halpha
  · cases hunderscore

/-- The stem that a derived table name is made of: the file name up to its first dot. -/
def ImportFile.stem (file : ImportFile) : List Char := file.fileName.toList.takeWhile (· ≠ '.')

/-- A table name made of a stem: other characters become underscores, and a name does not
start with a digit. -/
def nameOfStem (stem : List Char) : List Char :=
  let cleaned := stem.map fun c => if c.isAlphanum then c else '_'
  if cleaned.head?.any Char.isDigit then 't' :: '_' :: cleaned else cleaned

/-- The name made of a stem passes the check. -/
theorem checkIdentifier_nameOfStem {stem : List Char} (hstem : stem ≠ []) :
    (checkIdentifier (String.ofList (nameOfStem stem)) : Except (CliError S E) Unit) = .ok () := by
  obtain ⟨first, rest, rfl⟩ := List.exists_cons_of_ne_nil hstem
  have hclean (c : Char) : (if c.isAlphanum then c else '_').isAlphanum = true ∨
      (if c.isAlphanum then c else '_') = '_' := by
    by_cases hc : c.isAlphanum = true
    · rw [if_pos hc]
      exact .inl hc
    · rw [if_neg hc]
      exact .inr rfl
  have hchars : ∀ c ∈ (first :: rest).map (fun c => if c.isAlphanum then c else '_'),
      c.isAlphanum = true ∨ c = '_' := by
    intro c hc
    obtain ⟨d, -, rfl⟩ := List.mem_map.mp hc
    exact hclean d
  rw [checkIdentifier_ok_iff, String.toList_ofList, nameOfStem]
  simp only [List.map_cons, List.head?_cons, Option.any_some]
  by_cases hdigit : (if first.isAlphanum then first else '_').isDigit = true
  · rw [if_pos hdigit]
    refine ⟨⟨'t', rfl, .inl (by decide)⟩, fun c hc => ?_⟩
    rw [List.mem_cons, List.mem_cons] at hc
    rcases hc with rfl | rfl | hc
    · exact .inl (by decide)
    · exact .inr rfl
    · exact hchars c hc
  · rw [if_neg hdigit]
    refine ⟨⟨_, rfl, ?_⟩, hchars⟩
    rcases hclean first with halphanum | hunderscore
    · rw [Char.isAlphanum, Bool.or_eq_true] at halphanum
      exact .inl (halphanum.resolve_right hdigit)
    · exact .inr hunderscore

/-- Every file name with a stem has a table name, which passes the check. -/
theorem tableNameFrom_of_stem {file : ImportFile} (hstem : file.stem ≠ []) :
    (tableNameFrom file : Except (CliError S E) String) =
      .ok (String.ofList (nameOfStem file.stem)) := by
  have hcheck := checkIdentifier_nameOfStem (S := S) (E := E) hstem
  unfold nameOfStem ImportFile.stem at hcheck
  unfold tableNameFrom nameOfStem ImportFile.stem
  simp only [hcheck]

/-- The readers that an import may use. -/
theorem readerFor_ok {file : ImportFile} {reader : String}
    (h : (readerFor file : Except (CliError S E) String) = .ok reader) :
    reader = "read_csv_auto" ∨ reader = "read_parquet" := by
  rw [readerFor] at h
  simp only at h
  split_ifs at h
  · exact .inl (Except.ok.inj h).symm
  · exact .inr (Except.ok.inj h).symm

/-- What an import goes on with has passed its checks. -/
theorem importTable_ok {file : ImportFile} {table : Option String} {reader name : String}
    (h : (Workspace.importTable file table : Except (CliError S E) (String × String)) =
      .ok (reader, name)) :
    (reader = "read_csv_auto" ∨ reader = "read_parquet") ∧
      (checkIdentifier name : Except (CliError S E) Unit) = .ok () := by
  rw [Workspace.importTable] at h
  cases hreader : (readerFor file : Except (CliError S E) String) with
  | error e =>
    rw [hreader] at h
    cases h
  | ok reader' =>
    rw [hreader] at h
    have hchecked (name' : String) (h : (do
        checkIdentifier name'
        .ok (reader', name') : Except (CliError S E) (String × String)) = .ok (reader, name)) :
        (reader = "read_csv_auto" ∨ reader = "read_parquet") ∧
          (checkIdentifier name : Except (CliError S E) Unit) = .ok () := by
      cases hcheck : (checkIdentifier name' : Except (CliError S E) Unit) with
      | error e =>
        rw [hcheck] at h
        cases h
      | ok _ =>
        rw [hcheck] at h
        obtain ⟨rfl, rfl⟩ := Prod.mk.inj (Except.ok.inj h)
        exact ⟨readerFor_ok hreader, hcheck⟩
    cases table with
    | some table => exact hchecked table h
    | none =>
      cases hname : (tableNameFrom file : Except (CliError S E) String) with
      | error e =>
        simp only [hname] at h
        cases h
      | ok name' =>
        simp only [hname] at h
        exact hchecked name' h

/-- A path or a name in the statement of an import stays one token. -/
theorem tokenise_createTable {reader : String}
    (hreader : reader = "read_csv_auto" ∨ reader = "read_parquet") (path : String) {table : String}
    (htable : '"' ∉ table.toList) :
    tokenise (createTable reader path table).toList =
      some (createTableTokens reader path table) := by
  have htext : (createTable reader path table).toList = "CREATE TABLE ".toList ++
      (inQuotes '"' table.toList ++ ((" AS SELECT * FROM " ++ reader ++ "(").toList ++
        (inQuotes '\'' path.toList ++ ")".toList))) := by
    have hquotes : inQuotes '"' table.toList = '"' :: (table.toList ++ ['"']) := by
      rw [inQuotes, doubled_of_notMem htable]
    rw [hquotes]
    unfold createTable quoted
    simp [inQuotes, doubled]
  have hcreate : tokenise "CREATE TABLE ".toList =
      some [.word "CREATE".toList, .word "TABLE".toList] := by decide +kernel
  have hselect : tokenise (" AS SELECT * FROM " ++ reader ++ "(").toList =
      some [.word "AS".toList, .word "SELECT".toList, .symbol '*', .word "FROM".toList,
        .word reader.toList, .symbol '('] := by
    rcases hreader with rfl | rfl <;> decide +kernel
  have hplain : '\'' ∉ (" AS SELECT * FROM " ++ reader ++ "(").toList ∧
      '"' ∉ (" AS SELECT * FROM " ++ reader ++ "(").toList := by
    rcases hreader with rfl | rfl <;> decide +kernel
  have hend : tokenise ")".toList = some [.symbol ')'] := by decide +kernel
  rw [htext, tokenise_append_identifier hcreate (by decide) (by decide) _ (by simp),
    tokenise_append_literal hselect hplain.1 hplain.2 _ (by decide), hend]
  rfl

/-- **No path and no name injects SQL.** Whatever a destination and a catalog are called, the
script of an export says its three statements with them as values; whatever a file and a table
are called, the statement of an import that passed its checks says what it is meant to with
them as values; and every file name with a stem has a table name that passes the check. -/
theorem no_injection (S : Substrate) (E : Engine) :
    (∀ path source, tokenise (exportScript path source).toList =
      some ((exportStatements path source).flatMap Statement.tokens)) ∧
    (∀ (file : ImportFile) (table : Option String) (reader name : String),
      (Workspace.importTable file table : Except (CliError S E) (String × String)) =
        .ok (reader, name) →
      tokenise (createTable reader file.path name).toList =
        some (createTableTokens reader file.path name)) ∧
    ∀ file : ImportFile, file.stem ≠ [] →
      ∃ name, (tableNameFrom file : Except (CliError S E) String) = .ok name ∧
        (checkIdentifier name : Except (CliError S E) Unit) = .ok () := by
  refine ⟨tokenise_exportScript, fun file table reader name h => ?_, fun file hstem => ?_⟩
  · obtain ⟨hreader, hcheck⟩ := importTable_ok h
    exact tokenise_createTable hreader file.path (quote_notMem_of_checkIdentifier hcheck)
  · exact ⟨_, tableNameFrom_of_stem hstem, checkIdentifier_nameOfStem hstem⟩

/-- A file called with quotes and digits is imported under a plain name. -/
theorem no_injection_quotes :
    let file : ImportFile := ⟨"/home/o'brien/1'\"x.csv", "1'\"x.csv", true⟩
    tokenise (createTable "read_csv_auto" file.path "t_1__x").toList =
      some (createTableTokens "read_csv_auto" file.path "t_1__x") :=
  (no_injection (memory []) memoryEngine).2.1 ⟨"/home/o'brien/1'\"x.csv", "1'\"x.csv", true⟩ none
    "read_csv_auto" "t_1__x" rfl

end FlockDb
