import FlockDb.Cli.InMemory

/-!
# The names that a listing gives

`dbs/` has a directory for each branch that is awake and `asleep/` a file for each that is
asleep, the branch's name with `.json` behind it. One rule reads both: strip the suffix. It
gives back what is asleep, and what is awake as far as no name ends in `.json` itself.
-/

namespace FlockDb

variable {S : Substrate} {E : Engine}

/-- A name that ends like a sleep record. -/
def EndsJson (name : String) : Prop := ∃ stem, name = Workspace.sleepRecordFile stem

namespace Workspace

/-- The characters of a record's file name. -/
theorem toList_sleepRecordFile (branch : String) :
    (sleepRecordFile branch).toList = branch.toList ++ ['.', 'j', 's', 'o', 'n'] :=
  String.toList_append

/-- The file of a branch's record names that branch only. -/
theorem sleepRecordFile_injective : Function.Injective sleepRecordFile := by
  intro a b h
  have hchars := congrArg String.toList h
  rw [toList_sleepRecordFile, toList_sleepRecordFile] at hchars
  exact String.toList_inj.mp (List.append_cancel_right hchars)

/-- Stripping the suffix gives a branch back from the file of its record. -/
@[simp] theorem stripJson_sleepRecordFile (branch : String) :
    stripJson (sleepRecordFile branch) = branch := by
  have hsuffix : ['.', 'j', 's', 'o', 'n'].isSuffixOf (sleepRecordFile branch).toList = true := by
    rw [List.isSuffixOf_iff_suffix, toList_sleepRecordFile]
    exact List.suffix_append _ _
  rw [stripJson, if_pos hsuffix, toList_sleepRecordFile, List.length_append]
  simp

/-- Any other name stays as it is. -/
theorem stripJson_of_not {name : String} (h : ¬EndsJson name) : stripJson name = name := by
  rw [stripJson, if_neg]
  rw [List.isSuffixOf_iff_suffix]
  rintro ⟨stem, hstem⟩
  refine h ⟨String.ofList stem, String.toList_inj.mp ?_⟩
  rw [toList_sleepRecordFile, String.toList_ofList, hstem]

/-- The names of a listing before they are sorted. -/
theorem mem_names_iff {n : String} (entries names : List String) :
    n ∈ entries.foldl (fun names entry =>
      let name := stripJson entry
      if names.contains name then names else names ++ [name]) names ↔
      n ∈ names ∨ ∃ entry ∈ entries, stripJson entry = n := by
  induction entries generalizing names with
  | nil => simp
  | cons entry entries ih =>
    rw [List.foldl_cons, ih]
    simp only [List.mem_cons, exists_eq_or_imp]
    by_cases hmem : stripJson entry ∈ names
    · simp only [List.contains_iff_mem.mpr hmem, if_true]
      constructor
      · rintro (hn | hn)
        · exact .inl hn
        · exact .inr (.inr hn)
      · rintro (hn | rfl | hn)
        · exact .inl hn
        · exact .inl hmem
        · exact .inr hn
    · simp only [List.contains_iff_mem, hmem, if_false, List.mem_append, List.mem_singleton,
        or_assoc]
      rw [@eq_comm _ n]

/-- What a listing has: every entry of the two directories, without the suffix. -/
theorem mem_branchNames_iff {dbs files : List String} {n : String} :
    n ∈ branchNames dbs files ↔ ∃ entry ∈ dbs ++ files, stripJson entry = n := by
  rw [branchNames, List.mem_insertionSort, mem_names_iff]
  simp

/-- A branch is there, awake or asleep. -/
def Present (ws : Workspace S) (n : String) : Prop := n ∈ ws.dbs ∨ ws.isAsleep n = true

/-- A branch is asleep if there is the file of its record. -/
theorem isAsleep_iff {ws : Workspace S} {n : String} :
    ws.isAsleep n = true ↔ sleepRecordFile n ∈ ws.asleep.keys := by
  rw [isAsleep, AList.lookup_isSome, AList.mem_keys]

/-- A pool with the same `HEAD` is there as before. -/
theorem exists_of_head_eq {ws ws' : Workspace S} (hhead : ws'.head = ws.head)
    (h : ws.exists = true) : ws'.exists = true := by rwa [«exists», hhead]

/-- A workspace in which no name ends in `.json`, and `HEAD` names a branch. -/
structure Named (ws : Workspace S) : Prop where
  listed : ws.Listed
  plain : ∀ n ∈ ws.dbs, ¬EndsJson n
  files : ∀ file ∈ ws.asleep.keys, ∃ n, file = sleepRecordFile n ∧ ¬EndsJson n
  head : ∀ n, ws.head = some n → ws.Present n

/-- What such a workspace lists is what is there. -/
theorem Named.mem_listing_iff {ws : Workspace S} (h : ws.Named) (n : String) :
    n ∈ branchNames ws.dbs ws.asleep.keys ↔ ws.Present n := by
  rw [mem_branchNames_iff, Present, isAsleep_iff]
  constructor
  · rintro ⟨entry, hentry, rfl⟩
    rcases List.mem_append.mp hentry with hdb | hfile
    · rw [stripJson_of_not (h.plain entry hdb)]
      exact .inl hdb
    · obtain ⟨n, rfl, -⟩ := h.files entry hfile
      rw [stripJson_sleepRecordFile]
      exact .inr hfile
  · rintro (hdb | hfile)
    · exact ⟨n, List.mem_append_left _ hdb, stripJson_of_not (h.plain n hdb)⟩
    · exact ⟨_, List.mem_append_right _ hfile, stripJson_sleepRecordFile n⟩

/-- A name that is there does not end in `.json`. -/
theorem Named.not_endsJson {ws : Workspace S} (h : ws.Named) {n : String} (hn : ws.Present n) :
    ¬EndsJson n := by
  rcases hn with hdb | hasleep
  · exact h.plain n hdb
  · obtain ⟨m, hfile, hm⟩ := h.files _ (isAsleep_iff.mp hasleep)
    rwa [sleepRecordFile_injective hfile]

/-- A branch that resolves is there and awake. -/
theorem Named.mem_dbs_of_resolve {ws : Workspace S} (h : ws.Named) {io : CliFaults}
    {explicit : Option String} {name : String}
    (hresolve : (ws.resolve io explicit : Except (CliError S E) String) = .ok name) :
    name ∈ ws.dbs := by
  obtain ⟨-, -, hlisted, hawake⟩ := resolve_ok hresolve
  rcases (h.mem_listing_iff name).mp hlisted with hdb | hasleep
  · exact hdb
  · rw [hawake] at hasleep
    cases hasleep

/-- The names are as good as they were, and every branch is still there. -/
structure KeepsNames (ws ws' : Workspace S) : Prop where
  named : ws'.Named
  present : ∀ n, ws.Present n → ws'.Present n
  «exists» : ws.exists = true → ws'.exists = true

/-- Nothing happened to the names. -/
theorem Named.same {ws : Workspace S} (h : ws.Named) : KeepsNames ws ws := ⟨h, fun _ => id, id⟩

/-- Work on a branch keeps the names. -/
theorem Named.active {ws ws' : Workspace S} (h : ws.Named) {name : String}
    (hname : ¬EndsJson name) (hactive : ws.Active name ws') : KeepsNames ws ws' := by
  have hlisted := hactive.listed h.listed
  have hpresent : ∀ n, ws.Present n → ws'.Present n := by
    rintro n (hdb | hasleep)
    · exact .inl ((hlisted.mem_iff n).mpr (hactive.beside.isSome_of ((h.listed.mem_iff n).mp hdb)))
    · exact .inr (by rwa [isAsleep, hactive.asleep_eq])
  refine ⟨⟨hlisted, fun n hn => ?_, hactive.asleep_eq ▸ h.files, fun n hn => ?_⟩, hpresent,
    exists_of_head_eq hactive.head_eq⟩
  · by_cases hself : n = name
    · exact hself ▸ hname
    · have hsome := (hlisted.mem_iff n).mp hn
      rw [hactive.beside.dbs_eq n hself] at hsome
      exact h.plain n ((h.listed.mem_iff n).mpr hsome)
  · exact hpresent n (h.head n (hactive.head_eq ▸ hn))

/-- Moving `HEAD` to a branch that is there keeps the names. -/
theorem Named.headMoved {ws ws' : Workspace S} (h : ws.Named) {name : String}
    (hpresent : ws.Present name) (hmoved : HeadMoved name ws ws') : KeepsNames ws ws' := by
  have hsame (n : String) (hn : ws.Present n) : ws'.Present n := by
    rwa [Present, isAsleep, hmoved.dbs_eq, hmoved.asleep_eq]
  refine ⟨⟨h.listed.of_isSome hmoved.dbs_eq fun n => by rw [hmoved.pool_eq],
    hmoved.dbs_eq ▸ h.plain, hmoved.asleep_eq ▸ h.files, fun n hn => ?_⟩, hsame,
    fun _ => by rw [«exists», hmoved.head_eq]; rfl⟩
  obtain rfl : name = n := Option.some.inj (hmoved.head_eq.symm.trans hn)
  exact hsame name hpresent

/-- Keeping the names composes. -/
theorem KeepsNames.trans {ws ws' ws'' : Workspace S} (h : KeepsNames ws ws')
    (h' : KeepsNames ws' ws'') : KeepsNames ws ws'' :=
  ⟨h'.named, fun n hn => h'.present n (h.present n hn), h'.exists ∘ h.exists⟩

/-- The end of a sleep keeps the names: a branch whose directory goes has a record. -/
theorem Named.filedAway {env : CliEnv S E} {ws ws' : Workspace S} (h : ws.Named) {branch : String}
    (hbranch : branch ∈ ws.dbs) {record : SleepRecord S}
    (hfiled : FiledAway env branch record ws ws') : KeepsNames ws ws' := by
  have hplain := h.plain branch hbranch
  have hrecorded (content : RecordFile S)
      (hasleep : ws'.asleep = ws.asleep.insert (sleepRecordFile branch) content)
      (hhead : ws'.head = ws.head) (hlisted : ws'.Listed)
      (hdbs : ∀ n, n ∈ ws'.dbs → n ∈ ws.dbs)
      (hkept : ∀ n ∈ ws.dbs, n ≠ branch → n ∈ ws'.dbs) : KeepsNames ws ws' := by
    have hkeys (n : String) : ws'.isAsleep n = true ↔ n = branch ∨ ws.isAsleep n = true := by
      rw [isAsleep_iff, isAsleep_iff, hasleep, ← AList.mem_keys, ← AList.mem_keys,
        AList.mem_insert, sleepRecordFile_injective.eq_iff]
    have hpresent : ∀ n, ws.Present n → ws'.Present n := by
      rintro n (hdb | hslept)
      · by_cases hself : n = branch
        · exact .inr ((hkeys n).mpr (.inl hself))
        · exact .inl (hkept n hdb hself)
      · exact .inr ((hkeys n).mpr (.inr hslept))
    refine ⟨⟨hlisted, fun n hn => h.plain n (hdbs n hn), fun file hfile => ?_,
      fun n hn => hpresent n (h.head n (hhead ▸ hn))⟩, hpresent, exists_of_head_eq hhead⟩
    rw [hasleep, ← AList.mem_keys, AList.mem_insert] at hfile
    rcases hfile with rfl | hold
    · exact ⟨branch, rfl, hplain⟩
    · exact h.files file (AList.mem_keys.mp hold)
  cases hfiled with
  | unrecorded hactive => exact h.active hplain (hactive branch)
  | cut hfault hpool hdbs hhead htiers hasleep =>
    exact hrecorded .cut hasleep hhead (h.listed.of_isSome hdbs fun n => by rw [hpool])
      (fun n hn => hdbs ▸ hn) fun n hn _ => hdbs ▸ hn
  | left hfault hpool hdbs hhead htiers hasleep =>
    exact hrecorded _ hasleep hhead (h.listed.updateDir hpool hdbs) (fun n hn => hdbs ▸ hn)
      fun n hn _ => hdbs ▸ hn
  | gone hpool hdbs hhead htiers hasleep =>
    have hmem (n : String) : n ∈ ws'.dbs ↔ n ≠ branch ∧ n ∈ ws.dbs := by
      rw [hdbs, h.listed.nodup.mem_erase_iff]
    exact hrecorded _ hasleep hhead (h.listed.gone hpool hdbs) (fun n hn => ((hmem n).mp hn).2)
      fun n hn hne => (hmem n).mpr ⟨hne, hn⟩

/-- The end of a wake keeps the names: a branch whose record goes has a directory. -/
theorem Named.broughtBack {ws ws' : Workspace S} (h : ws.Named) {branch : String}
    (hback : BroughtBack branch ws ws') : KeepsNames ws ws' := by
  have hlisted : ws'.Listed := h.listed.of_isSome hback.dbs_eq fun n => by rw [hback.pool_eq]
  have hkeys (n : String) (hne : n ≠ branch) : ws'.isAsleep n = ws.isAsleep n := by
    rw [isAsleep, isAsleep, hback.asleep_eq,
      AList.lookup_erase_ne fun hfile => hne (sleepRecordFile_injective hfile)]
  have hpresent : ∀ n, ws.Present n → ws'.Present n := by
    intro n hn
    by_cases hself : n = branch
    · subst hself
      exact .inl ((hlisted.mem_iff n).mpr hback.isSome)
    · rwa [Present, hkeys n hself, hback.dbs_eq]
  refine ⟨⟨hlisted, hback.dbs_eq ▸ h.plain, fun file hfile => ?_, fun n hn =>
    hpresent n (h.head n (hback.head_eq ▸ hn))⟩, hpresent,
    exists_of_head_eq hback.head_eq⟩
  rw [hback.asleep_eq, AList.keys_erase] at hfile
  exact h.files file (List.mem_of_mem_erase hfile)

end Workspace

/-- The name that a command gives to a branch that it may make. -/
def Invocation.gives (cli : Invocation S E) : Option String :=
  match cli.command with
  | .import _ _ => cli.branch
  | .branch name _ => some name
  | _ => none

/-- No branch gets a name that ends in `.json`. -/
def Invocation.Plain (cli : Invocation S E) : Prop :=
  ∀ name, cli.gives = some name → ¬EndsJson name

namespace Workspace

/-- The branch of a fresh pool has a plain name. -/
theorem not_endsJson_main : ¬EndsJson "main" := by
  rintro ⟨stem, hstem⟩
  have hchars := congrArg String.toList hstem
  rw [toList_sleepRecordFile] at hchars
  have hlength := congrArg List.length hchars
  rw [List.length_append] at hlength
  have hmain : "main".toList.length = 4 := rfl
  have hjson : (['.', 'j', 's', 'o', 'n'] : List Char).length = 5 := rfl
  omega

/-- An import that gives a plain name keeps the names, and makes its branch. -/
theorem Named.import (hS : S.Laws) {out : Outside S E} {env : CliEnv S E} {ws : Workspace S}
    (h : ws.Named) {branch : Option String} (hplain : ∀ name, branch = some name → ¬EndsJson name)
    (file : ImportFile) (table : Option String) :
    KeepsNames ws (ws.import out env branch file table).2 ∧
      ∀ lines name, branch = some name → (ws.import out env branch file table).1 = .ok lines →
        (ws.import out env branch file table).2.exists = true ∧
          (ws.import out env branch file table).2.Present name := by
  rcases import_cases hS out env ws branch file table with
    ⟨e, -, himport⟩ | ⟨name, reader, table', hplan, ws₁, hactive, hend, hmade⟩
  · rw [himport]
    exact ⟨h.same, fun lines name _ hok => by cases hok⟩
  · obtain ⟨hbranch, -⟩ := importPlan_ok hplan
    have hname : ¬EndsJson name := by
      rcases importBranch_ok hbranch with hgiven | ⟨-, hhead | ⟨-, rfl⟩⟩
      · exact hplain name hgiven
      · exact h.not_endsJson (h.head name hhead)
      · exact not_endsJson_main
    have hworked := h.active hname hactive
    have hkeeps : KeepsNames ws (ws.import out env branch file table).2 := by
      rcases hend with heq | ⟨-, hsome, hmoved⟩
      · exact heq ▸ hworked
      · have hpresent : ws₁.Present name := .inl ((hworked.named.listed.mem_iff name).mpr hsome)
        exact hworked.trans (hworked.named.headMoved hpresent hmoved)
    refine ⟨hkeeps, fun lines given hgiven hok => ?_⟩
    obtain rfl : name = given := by
      rcases importBranch_ok hbranch with hsome | ⟨hnone, -⟩
      · exact Option.some.inj (hsome.symm.trans hgiven)
      · rw [hnone] at hgiven
        cases hgiven
    obtain ⟨hsome, hhead⟩ := hmade lines hok
    exact ⟨hhead, .inl ((hkeeps.named.listed.mem_iff name).mpr hsome)⟩

/-- A fork that gives a plain name keeps the names, and makes its branch. -/
theorem Named.fork (hS : S.Laws) {env : CliEnv S E} {ws : Workspace S} (h : ws.Named)
    (source : Option String) {name : String} (hplain : ¬EndsJson name) (noCheckout : Bool) :
    KeepsNames ws (ws.fork env source name noCheckout).2 ∧
      ∀ lines, (ws.fork env source name noCheckout).1 = .ok lines →
        (ws.fork env source name noCheckout).2.exists = true ∧
          (ws.fork env source name noCheckout).2.Present name := by
  rcases fork_cases hS env ws source name noCheckout with ⟨e, -, hfork⟩ | ⟨parent, hresolve, hrest⟩
  · rw [hfork]
    exact ⟨h.same, fun lines hok => by cases hok⟩
  have hparent : ¬EndsJson parent := h.plain parent (h.mem_dbs_of_resolve hresolve)
  obtain ⟨-, hexists, -, -⟩ := resolve_ok hresolve
  rcases hrest with ⟨⟨e, herror⟩, hactive⟩ | ⟨ws₁, ws₂, hactive, -, hnew, hend⟩
  · refine ⟨h.active hparent hactive, fun lines hok => ?_⟩
    rw [herror] at hok
    cases hok
  · have hworked := h.active hparent hactive
    have hmade := hworked.trans (hworked.named.active hplain hnew)
    rcases hend with ⟨⟨e, herror⟩, heq⟩ | ⟨hsome, hend⟩
    · refine ⟨heq ▸ hmade, fun lines hok => ?_⟩
      rw [herror] at hok
      cases hok
    · have hpresent : ws₂.Present name := .inl ((hmade.named.listed.mem_iff name).mpr hsome)
      rcases hend with heq | hmoved
      · exact ⟨heq ▸ hmade, fun _ _ => heq ▸ ⟨hmade.exists hexists, hpresent⟩⟩
      · have hkeeps := hmade.named.headMoved hpresent hmoved
        have hall := hmade.trans hkeeps
        exact ⟨hall, fun _ _ => ⟨hall.exists hexists, hkeeps.present name hpresent⟩⟩

/-- A sleep keeps the names. -/
theorem Named.sleep (hS : S.Laws) (out : Outside S E) (env : CliEnv S E) {ws : Workspace S}
    (h : ws.Named) (branch tier : Option String) :
    KeepsNames ws (ws.sleep out env branch tier).2 := by
  rcases sleep_cases hS out env ws branch tier with ⟨-, hactive⟩ | ⟨name, hresolve, hrest⟩
  · exact h.active not_endsJson_main (hactive "main")
  have hname : ¬EndsJson name := h.plain name (h.mem_dbs_of_resolve hresolve)
  rcases hrest with ⟨-, hactive⟩ |
    ⟨ws₀, ws₁, ws₂, db, dir, token, uploaded, -, -, -, hactive, hsome, hslept⟩
  · exact h.active hname hactive
  · have hworked := h.active hname hactive
    rw [hslept]
    exact hworked.trans (hworked.named.filedAway ((hworked.named.listed.mem_iff name).mpr hsome)
      (fileAway_cases env ws₂ name _))

/-- A wake keeps the names. -/
theorem Named.wake (hS : S.Laws) {out : Outside S E} (hout : out.Copies) (env : CliEnv S E)
    {ws : Workspace S} (h : ws.Named) (branch : String) :
    KeepsNames ws (ws.wake out env branch).2 := by
  rcases wake_cases hout env ws branch with
    ⟨-, hactive⟩ | ⟨record, manifest, pages, ws₁, hrecord, -, -, hactive, hwake⟩
  · exact h.active not_endsJson_main (hactive "main")
  · obtain ⟨hknown, -⟩ := wakeRecord_ok hrecord
    have hbranch := h.not_endsJson ((h.mem_listing_iff branch).mp (known_ok hknown))
    have hadopted := h.active hbranch (hactive branch)
    rw [hwake]
    rcases bringBack_cases hS env ws₁ branch record manifest pages with
      ⟨-, hend⟩ | ⟨ws₂, hend, hback⟩
    · exact hadopted.trans (hadopted.named.active hbranch hend)
    · have hworked := hadopted.trans (hadopted.named.active hbranch hend)
      exact hworked.trans (hworked.named.broughtBack hback)

/-- **A command that gives no name in `.json` keeps the names**, and the branch that it made,
if it succeeds, is there. -/
theorem Named.run (hS : S.Laws) {out : Outside S E} (hout : out.Copies) {ws : Workspace S}
    (h : ws.Named) {cli : Invocation S E} (hplain : cli.Plain) :
    KeepsNames ws (ws.run out cli).2 ∧
      ∀ lines name, cli.gives = some name → (ws.run out cli).1 = .ok lines →
        (ws.run out cli).2.exists = true ∧ (ws.run out cli).2.Present name := by
  obtain ⟨command, branch, env⟩ := cli
  cases command with
  | «import» file table => exact h.import hS hplain file table
  | sql query =>
    refine ⟨?_, fun lines name hgives => by cases hgives⟩
    rcases sql_cases hS out env ws branch query with ⟨e, -, hsql⟩ | ⟨name, hresolve, hactive⟩
    · change KeepsNames ws (ws.sql out env branch query).2
      rw [hsql]
      exact h.same
    · exact h.active (h.plain name (h.mem_dbs_of_resolve hresolve)) hactive
  | branch name noCheckout =>
    obtain ⟨hkeeps, hmade⟩ := h.fork hS branch (hplain name rfl) noCheckout
    refine ⟨hkeeps, fun lines given hgives hok => ?_⟩
    obtain rfl : name = given := Option.some.inj hgives
    exact hmade lines hok
  | branches => exact ⟨h.same, fun lines name hgives => by cases hgives⟩
  | checkout name =>
    refine ⟨?_, fun lines name hgives => by cases hgives⟩
    rcases checkout_cases env ws name with ⟨-, hactive⟩ | ⟨hknown, hmoved⟩
    · exact h.active not_endsJson_main (hactive "main")
    · exact h.headMoved ((h.mem_listing_iff name).mp (known_ok hknown)) hmoved
  | sleep tier => exact ⟨h.sleep hS out env branch tier, fun lines name hgives => by cases hgives⟩
  | wake name => exact ⟨h.wake hS hout env name, fun lines name hgives => by cases hgives⟩

/-- An empty directory has no names. -/
theorem named_start (root : String) (pageSize : ℕ) (cas : S.Cas) (tiers : Tiers S) :
    (start root pageSize cas tiers).Named where
  listed := ⟨List.nodup_nil, fun n => by simp [start]⟩
  plain := fun n hn => by cases hn
  files := fun file hfile => by cases hfile
  head := fun n hn => by cases hn

end Workspace

end FlockDb
