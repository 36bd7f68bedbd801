import ShortClass.CommandLine
import ShortClass.Proofs.BundlePass

/-!
How the commands end. `minify` reads its settings and files, compares their names and renames every artifact before
it writes the first of them, so whatever it refuses, it leaves the tree as it was.
-/

namespace ShortClass

namespace Bundle

open Stylesheet

theorem minify_of_patterns {c : Config} {exclude : List Pattern} (h : c.patterns = .ok exclude) (tries : Nat)
    (as : List Artifact) : minify tries none c as = minifyWith tries { exclude } c as := by
  rw [minify, h]

inductive Unreadable (tries : Nat) (m₀ : Minifier) (as : List Artifact) (e : StylesheetError) : Prop
  | joined (h : classes (joinedSheets as) = .error e)
  | alone {m : Minifier} {before after : List Artifact} {a : Artifact}
      (named : (analyze m₀ as).extract tries (joinedSheets as) = .ok m) (split : as = before ++ a :: after)
      (kind : a.kind = .stylesheet) (error : classes a.text = .error e)
      (readable : ∀ b ∈ before, b.kind = .stylesheet → ∃ cs, classes b.text = .ok cs)

theorem exists_classes_of_renameSheet {m : Minifier} {a : Artifact} {r : Rewritten}
    (h : renameSheet m a = .ok r) : ∃ cs, classes a.text = .ok cs := by
  cases hcs : classes a.text with
  | ok cs => exact ⟨cs, rfl⟩
  | error e =>
    rw [renameSheet_of_error m hcs] at h
    simp at h

theorem unreadable_iff {tries : Nat} {m₀ : Minifier} {c : Config} {as : List Artifact} {e : StylesheetError} :
    Unreadable tries m₀ as e ↔ ∃ err, (minifyWith tries m₀ c as).outcome = .error err ∧ fault? err = some e := by
  constructor
  · rintro (hjoined | @⟨m, before, after, a, named, rfl, kind, error, readable⟩)
    · exact ⟨_, outcome_minifyWith_of_error tries m₀ c hjoined, rfl⟩
    · have hbefore : Succeeds .stylesheet (renameSheet m) before := by
        intro b hb hk
        obtain ⟨cs, hcs⟩ := readable b hb hk
        exact exists_renameSheet (Minifier.allocated_of_extract named).1 hcs
      rw [minifyWith, named]
      exact ⟨_, (renameAll_of_fails c ⟨kind, renameSheet_of_error m error, hbefore⟩ after).1, rfl⟩
  · rintro ⟨err, houtcome, hfault⟩
    rcases minifyWith_error houtcome with
      rfl | ⟨e', rfl, hjoined, -⟩ | ⟨e', m, before, a, after, rfl, hm, hsplit, hkind, ha, hbefore, -⟩
    · simp [fault?] at hfault
    · obtain rfl : e' = e := by simpa [fault?] using hfault
      exact .joined hjoined
    · obtain rfl : e' = e := by simpa [fault?] using hfault
      refine .alone hm hsplit hkind ha fun b hb hk => ?_
      obtain ⟨r, hr⟩ := hbefore b hb hk
      exact exists_classes_of_renameSheet hr

end Bundle

namespace CommandLine

variable {tries : Nat} {t : FileTree} {a : Arguments} {c : Config} {found : List Located} {message : String}
  {summary : Bundle.Summary} {args : List Argument} {s : Scope}

section Settings

def fileSettings (t : FileTree) : Option Argument → Except SettingsError Config
  | none => .ok {}
  | some [] => .ok {}
  | some file =>
    match t.readText (Path.ofChars file) with
    | .ok text => (Config.load (Path.ofChars file) (some text)).mapError .config
    | .error .notFound => (Config.load (Path.ofChars file) none).mapError .config
    | .error e => .error (.file e)

def overrides (a : Arguments) : Overrides where
  exclude := a.values .exclude
  verbose := if a.has .verbose then some true else none
  mapFile := a.value? .mapFile

theorem settings_eq (t : FileTree) (a : Arguments) :
    settings t a = do
      let base ← fileSettings t (a.value? .config)
      let _ ← (base.merge (overrides a)).patterns.mapError .config
      return base.merge (overrides a) := by
  unfold settings
  cases hconfig : a.value? .config with
  | none => rfl
  | some file =>
    cases file with
    | nil => rfl
    | cons ch cs =>
      simp only [fileSettings]
      cases t.readText (Path.ofChars (ch :: cs)) with
      | ok text => rfl
      | error e => cases e <;> rfl

theorem settings_eq_ok_iff : settings t a = .ok c ↔
    ∃ base exclude, fileSettings t (a.value? .config) = .ok base ∧ base.merge (overrides a) = c ∧
      c.patterns = .ok exclude := by
  simp only [settings_eq, bind_eq_ok_iff, mapError_eq_ok_iff, pure, Except.pure, Except.ok.injEq]
  constructor
  · rintro ⟨base, hbase, exclude, hp, rfl⟩
    exact ⟨base, exclude, hbase, rfl, hp⟩
  · rintro ⟨base, exclude, hbase, rfl, hp⟩
    exact ⟨base, hbase, exclude, hp, rfl⟩

end Settings

section Names

theorem mem_duplicates {n : List Char} {names : List (List Char)} : n ∈ duplicates names ↔ 1 < names.count n := by
  simp only [duplicates, List.mem_mergeSort, List.mem_eraseDups, List.mem_filter, decide_eq_true_eq]
  exact ⟨And.right, fun h => ⟨List.count_pos_iff.1 (by omega), h⟩⟩

theorem duplicates_eq_nil_iff {names : List (List Char)} : duplicates names = [] ↔ names.Nodup := by
  simp only [List.eq_nil_iff_forall_not_mem, mem_duplicates, List.nodup_iff_count_le_one, Nat.not_lt]

end Names

section Stages

abbrev artifacts (found : List Located) : List Artifact := found.map Located.artifact

abbrev names (found : List Located) : List (List Char) := (artifacts found).map Artifact.name

structure Ready (a : Arguments) (t : FileTree) (c : Config) (found : List Located) : Prop where
  settings : settings t a = .ok c
  collected : collect t a.others = .ok found
  hasSheet : ∃ b ∈ artifacts found, b.kind = .stylesheet
  distinct : (outDir? a).isSome = true → (names found).Nodup

/-- Why `minify` turns a tree down, and what it says. -/
inductive Refusal (tries : Nat) (a : Arguments) (t : FileTree) : String → Prop
  | config {e : ConfigError} (h : settings t a = .error (.config e)) :
      Refusal tries a t ("Config error: " ++ e.message)
  | noSheet {c : Config} {found : List Located} (hc : settings t a = .ok c)
      (hfound : collect t a.others = .ok found) (h : ∀ b ∈ artifacts found, b.kind ≠ .stylesheet) :
      Refusal tries a t "No stylesheets found; nothing to minify."
  | sameName {c : Config} {found : List Located} (hc : settings t a = .ok c)
      (hfound : collect t a.others = .ok found) (hsheet : ∃ b ∈ artifacts found, b.kind = .stylesheet)
      (hout : (outDir? a).isSome = true) (h : ¬(names found).Nodup) :
      Refusal tries a t ("Duplicate output name(s) under --out-dir: " ++
        ", ".intercalate ((duplicates (names found)).map String.ofList))
  | unreadable {c : Config} {found : List Located} {exclude : List Pattern} {e : StylesheetError}
      (hready : Ready a t c found) (hp : c.patterns = .ok exclude)
      (h : Bundle.Unreadable tries { exclude } (artifacts found) e) :
      Refusal tries a t (logText (a.count .verbose) (Bundle.minify tries none c (artifacts found)).log ++
        "Parse error: " ++ e.message)

abbrev writes (tries : Nat) (a : Arguments) (t : FileTree) (c : Config) (found : List Located) :
    List (Path × List Char) :=
  targets t (outDir? a) a.others found (Bundle.minify tries none c (artifacts found)).artifacts

theorem any_sheet (h : ∃ b ∈ artifacts found, b.kind = .stylesheet) :
    (artifacts found).any (·.kind = .stylesheet) = true := by
  obtain ⟨b, hb, hk⟩ := h
  exact List.any_eq_true.2 ⟨b, hb, by simpa using hk⟩

theorem Ready.duplicates_eq_nil (h : Ready a t c found) :
    (if (outDir? a).isSome = true then duplicates (names found) else []) = [] := by
  split
  · next hout => exact duplicates_eq_nil_iff.2 (h.distinct hout)
  · rfl

theorem Ready.minify_of_error (h : Ready a t c found) {err : BundleError}
    (herr : (Bundle.minify tries none c (artifacts found)).outcome = .error err) :
    minify tries a t =
      bundleFailure t (logText (a.count .verbose) (Bundle.minify tries none c (artifacts found)).log) err := by
  simp only [minify, h.settings, h.collected, any_sheet h.hasSheet, h.duplicates_eq_nil, herr]
  rfl

theorem Ready.minify_of_ok (h : Ready a t c found)
    (hok : (Bundle.minify tries none c (artifacts found)).outcome = .ok summary) :
    (minify tries a t).tree = (writeAll t (writes tries a t c found)).1 ∧
      (minify tries a t).breakdown = (writeAll t (writes tries a t c found)).2.map .file ∧
      ((minify tries a t).exitCode = 0 ↔ (writeAll t (writes tries a t c found)).2 = none) := by
  simp only [minify, h.settings, h.collected, any_sheet h.hasSheet, h.duplicates_eq_nil, hok]
  rcases writeAll t (writes tries a t c found) with ⟨u, _ | e⟩
  · exact ⟨rfl, rfl, by simp⟩
  · exact ⟨rfl, rfl, by simp [Outcome.broken]⟩

theorem bundleFailure_of_fault {err : BundleError} {e : StylesheetError} (h : Bundle.fault? err = some e)
    (t : FileTree) (log : String) : bundleFailure t log err = parseFailure t log e := by
  unfold Bundle.fault? at h
  split at h <;> cases h <;> rfl

theorem Refusal.refused (h : Refusal tries a t message) : minify tries a t = .refused t 1 message := by
  cases h with
  | config h =>
    rw [minify, h]
    rfl
  | @noSheet c found hc hfound h =>
    have hnone : (artifacts found).any (·.kind = .stylesheet) = false := by simpa using h
    simp only [minify, hc, hfound, hnone]
    rfl
  | @sameName c found hc hfound hsheet hout h =>
    have htwice : (duplicates (names found)).isEmpty = false :=
      List.isEmpty_eq_false_iff.2 fun hnil => h (duplicates_eq_nil_iff.1 hnil)
    simp only [minify, hc, hfound, any_sheet hsheet, hout, if_true, htwice]
    rfl
  | unreadable hready hp h =>
    obtain ⟨err, herr, hfault⟩ := Bundle.unreadable_iff.1 h
    rw [← Bundle.minify_of_patterns hp] at herr
    rw [hready.minify_of_error herr, bundleFailure_of_fault hfault]
    rfl

theorem minify_cases (tries : Nat) (a : Arguments) (t : FileTree) :
    (∃ message, Refusal tries a t message) ∨
    (∃ b log, minify tries a t = { Outcome.broken t b with errors := log }) ∨
    ∃ c found summary, Ready a t c found ∧
      (Bundle.minify tries none c (artifacts found)).outcome = .ok summary := by
  cases hc : settings t a with
  | error e =>
    cases e with
    | config e => exact .inl ⟨_, .config hc⟩
    | file e =>
      refine .inr (.inl ⟨.file e, "", ?_⟩)
      rw [minify, hc]
      rfl
  | ok c =>
  cases hfound : collect t a.others with
  | error e =>
    refine .inr (.inl ⟨.file e, "", ?_⟩)
    simp only [minify, hc, hfound]
    rfl
  | ok found =>
  by_cases hsheet : ∃ b ∈ artifacts found, b.kind = .stylesheet
  · by_cases hdistinct : (outDir? a).isSome = true → (names found).Nodup
    · have hready : Ready a t c found := ⟨hc, hfound, hsheet, hdistinct⟩
      obtain ⟨-, exclude, -, -, hp⟩ := settings_eq_ok_iff.1 hc
      cases hpass : (Bundle.minify tries none c (artifacts found)).outcome with
      | ok summary => exact .inr (.inr ⟨c, found, summary, hready, hpass⟩)
      | error err =>
        have hfails := hpass
        rw [Bundle.minify_of_patterns hp] at hfails
        rcases Bundle.minifyWith_error hfails with rfl | ⟨e, rfl, -⟩ | ⟨e, -, -, -, -, rfl, -⟩
        · exact .inr (.inl ⟨.outOfNames, _, hready.minify_of_error hpass⟩)
        · exact .inl ⟨_, .unreadable hready hp (Bundle.unreadable_iff.2 ⟨_, hfails, rfl⟩)⟩
        · exact .inl ⟨_, .unreadable hready hp (Bundle.unreadable_iff.2 ⟨_, hfails, rfl⟩)⟩
    · obtain ⟨hout, htwice⟩ := Classical.not_imp.1 hdistinct
      exact .inl ⟨_, .sameName hc hfound hsheet hout htwice⟩
  · exact .inl ⟨_, .noSheet hc hfound fun b hb hk => hsheet ⟨b, hb, hk⟩⟩

end Stages

section Lines

theorem run_minify (tries : Nat) (args : List Argument) (t : FileTree) :
    run tries ("minify".toList :: args) t = runCommand tries .minify args t := rfl

theorem run_inspect (tries : Nat) (args : List Argument) (t : FileTree) :
    run tries ("inspect".toList :: args) t = runCommand tries .inspect args t := rfl

theorem runCommand_of_checkPaths (ha : readArguments s {} none args = .ok a) (hhelp : a.has .help = false)
    (hpaths : checkPaths t a = .ok ()) :
    runCommand tries s args t = if s = .inspect then inspect tries a t else minify tries a t := by
  simp [runCommand, ha, hhelp, hpaths]

structure Called (s : Scope) (args : List Argument) (t : FileTree) (a : Arguments) : Prop where
  read : readArguments s {} none args = .ok a
  noHelp : a.has .help = false
  paths : checkPaths t a = .ok ()

theorem Called.runCommand (h : Called s args t a) (tries : Nat) :
    runCommand tries s args t = if s = .inspect then inspect tries a t else minify tries a t :=
  runCommand_of_checkPaths h.read h.noHelp h.paths

theorem runCommand_cases (tries : Nat) (s : Scope) (args : List Argument) (t : FileTree) :
    (∃ a, Called s args t a) ∨ runCommand tries s args t = help t s ∨
      ∃ e, runCommand tries s args t = usageError t s e := by
  cases ha : readArguments s {} none args with
  | error e => exact .inr (.inr ⟨e, by rw [runCommand, ha]⟩)
  | ok a =>
    cases hhelp : a.has .help with
    | true => exact .inr (.inl (by simp [runCommand, ha, hhelp]))
    | false =>
      cases hpaths : checkPaths t a with
      | error e => exact .inr (.inr ⟨e, by simp [runCommand, ha, hhelp, hpaths]⟩)
      | ok x => exact .inl ⟨a, ha, hhelp, hpaths⟩

theorem Called.run_minify (h : Called .minify args t a) (tries : Nat) :
    run tries ("minify".toList :: args) t = minify tries a t := by
  rw [CommandLine.run_minify, h.runCommand, if_neg (by decide)]

theorem run_minify_cases (tries : Nat) (args : List Argument) (t : FileTree) :
    (∃ a message, Called .minify args t a ∧ Refusal tries a t message) ∨
    ((run tries ("minify".toList :: args) t).tree = t ∧
      ((run tries ("minify".toList :: args) t).exitCode = 1 →
        (run tries ("minify".toList :: args) t).breakdown ≠ none)) ∨
    ∃ a c found summary, Called .minify args t a ∧ Ready a t c found ∧
      (Bundle.minify tries none c (artifacts found)).outcome = .ok summary := by
  rcases runCommand_cases tries .minify args t with ⟨a, ha⟩ | hhelp | ⟨e, he⟩
  · rcases minify_cases tries a t with ⟨message, h⟩ | ⟨b, log, h⟩ | ⟨c, found, summary, hready, hpass⟩
    · exact .inl ⟨a, message, ha, h⟩
    · rw [ha.run_minify, h]
      exact .inr (.inl ⟨rfl, nofun⟩)
    · exact .inr (.inr ⟨a, c, found, summary, ha, hready, hpass⟩)
  · rw [run_minify, hhelp]
    exact .inr (.inl ⟨rfl, nofun⟩)
  · rw [run_minify, he]
    exact .inr (.inl ⟨rfl, nofun⟩)

theorem tree_settingsFailure (t : FileTree) (e : SettingsError) : (settingsFailure t e).tree = t := by
  cases e <;> rfl

theorem tree_extractFailure (t : FileTree) (log : String) (e : ExtractError) : (extractFailure t log e).tree = t := by
  cases e <;> rfl

theorem tree_inspect (tries : Nat) (a : Arguments) (t : FileTree) : (inspect tries a t).tree = t := by
  unfold inspect
  split
  · exact tree_settingsFailure t _
  split
  · rfl
  · exact tree_settingsFailure t _
  dsimp only
  split
  · exact tree_extractFailure t "" _
  · rfl

theorem tree_run_inspect (tries : Nat) (args : List Argument) (t : FileTree) :
    (run tries ("inspect".toList :: args) t).tree = t := by
  rw [run_inspect]
  rcases runCommand_cases tries .inspect args t with ⟨a, ha⟩ | hhelp | ⟨e, he⟩
  · rw [ha.runCommand, if_pos rfl, tree_inspect]
  · rw [hhelp]
    rfl
  · rw [he]
    rfl

end Lines

theorem refused_minify_keeps_tree (tries : Nat) (args : List Argument) (t : FileTree) :
    (∀ a message, Called .minify args t a → Refusal tries a t message →
      run tries ("minify".toList :: args) t = .refused t 1 message) ∧
    ((run tries ("minify".toList :: args) t).exitCode = 1 → (run tries ("minify".toList :: args) t).breakdown = none →
      ∃ a message, Called .minify args t a ∧ Refusal tries a t message ∧
        run tries ("minify".toList :: args) t = .refused t 1 message) ∧
    ((run tries ("minify".toList :: args) t).tree ≠ t →
      ∃ a c found summary, Called .minify args t a ∧ Ready a t c found ∧
        (Bundle.minify tries none c (artifacts found)).outcome = .ok summary ∧
        (run tries ("minify".toList :: args) t).tree = (writeAll t (writes tries a t c found)).1) ∧
    (run tries ("inspect".toList :: args) t).tree = t := by
  refine ⟨fun a message ha h => (ha.run_minify tries).trans h.refused, fun hexit hbreakdown => ?_, fun htree => ?_,
    tree_run_inspect tries args t⟩
  · rcases run_minify_cases tries args t with
      ⟨a, message, ha, h⟩ | ⟨-, hbroken⟩ | ⟨a, c, found, summary, ha, hready, hpass⟩
    · exact ⟨a, message, ha, h, (ha.run_minify tries).trans h.refused⟩
    · exact absurd hbreakdown (hbroken hexit)
    · -- what is left to fail is a file that cannot be written, and that is no message of the command's own
      obtain ⟨-, hfile, hzero⟩ := hready.minify_of_ok hpass
      rw [ha.run_minify] at hexit hbreakdown
      rw [hbreakdown] at hfile
      rw [hzero.2 (Option.map_eq_none_iff.1 hfile.symm)] at hexit
      cases hexit
  · rcases run_minify_cases tries args t with
      ⟨a, message, ha, h⟩ | ⟨hsame, -⟩ | ⟨a, c, found, summary, ha, hready, hpass⟩
    · rw [ha.run_minify, h.refused] at htree
      exact absurd rfl htree
    · exact absurd hsame htree
    · exact ⟨a, c, found, summary, ha, hready, hpass, by rw [ha.run_minify, (hready.minify_of_ok hpass).1]⟩

section Halves

def halvedTree : FileTree where
  files := [(["1".toList, "a.css".toList], .text ".sm\\:x\x7b\x7d".toList),
    (["2".toList, "a.css".toList], .text ".a \x7b".toList), (["3".toList, "a.css".toList], .text "\x7d".toList)]

def halvedPaths : List Argument := ["1/a.css", "2/a.css", "3/a.css"].map String.toList

def halvedFound : List Located :=
  (halvedPaths.zip Bundle.halvedSheets).map fun (path, b) => ⟨Path.ofChars path, b⟩

theorem refused_minify_keeps_tree_halved :
    (∃ message text n, run 1 ("minify".toList :: halvedPaths) halvedTree = .refused halvedTree 1 message ∧
      (Bundle.minify 1 none {} (artifacts halvedFound)).artifacts =
        { Bundle.sheet ".sm\\:x\x7b\x7d" with text } :: Bundle.halvedSheets.tail ∧
      Stylesheet.classes text = .ok [n] ∧ IsShortName n) ∧
    run 1 ("minify".toList :: "--out-dir=out".toList :: halvedPaths) halvedTree =
      .refused halvedTree 1 "Duplicate output name(s) under --out-dir: a.css" := by
  have hcollect : collect halvedTree halvedPaths = .ok halvedFound := rfl
  have hsheet : ∃ b ∈ artifacts halvedFound, b.kind = .stylesheet := ⟨_, List.mem_cons_self, rfl⟩
  constructor
  · obtain ⟨e, text, n, houtcome, hartifacts, hclasses, hshort⟩ := Bundle.minify_halvedSheets
    have hcalled : Called .minify halvedPaths halvedTree { others := halvedPaths } := ⟨rfl, rfl, rfl⟩
    have hready : Ready { others := halvedPaths } halvedTree {} halvedFound := ⟨rfl, hcollect, hsheet, nofun⟩
    have hp : ({} : Config).patterns = .ok [] := rfl
    rw [Bundle.minify_of_patterns hp] at houtcome
    have hunreadable : Bundle.Unreadable 1 { exclude := [] } (artifacts halvedFound) e :=
      Bundle.unreadable_iff.2 ⟨_, houtcome, rfl⟩
    exact ⟨_, text, n, (refused_minify_keeps_tree 1 halvedPaths halvedTree).1 _ _ hcalled
      (.unreadable hready hp hunreadable), hartifacts, hclasses, hshort⟩
  · have hcalled : Called .minify ("--out-dir=out".toList :: halvedPaths) halvedTree
        { options := [(.outDir, "out".toList)], others := halvedPaths } := ⟨rfl, rfl, rfl⟩
    have htwice : ¬(names halvedFound).Nodup := by decide
    have hnames : duplicates (names halvedFound) = ["a.css".toList] := by decide +kernel
    have hrefusal : Refusal 1 { options := [(.outDir, "out".toList)], others := halvedPaths } halvedTree
        ("Duplicate output name(s) under --out-dir: " ++
          ", ".intercalate ((duplicates (names halvedFound)).map String.ofList)) :=
      .sameName rfl hcollect hsheet rfl htwice
    rw [hnames] at hrefusal
    exact (refused_minify_keeps_tree 1 _ halvedTree).1 _ _ hcalled hrefusal

end Halves

end CommandLine

end ShortClass
