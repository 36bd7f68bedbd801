import ShortClass.Proofs.RefusedCommands

namespace ShortClass

namespace Bundle

variable {tries : Nat} {c : Config} {as : List Artifact} {summary : Summary}

theorem exists_extract_of_minify (h : (minify tries none c as).outcome = .ok summary) :
    ∃ exclude m, c.patterns = .ok exclude ∧
      (analyze { exclude } as).extract tries (joinedSheets as) = .ok m ∧ summary.classMap = m.classMap ∧
      (minify tries none c as).artifacts = as.map (renamed m) ++ mapArtifact c m.classMap := by
  cases hp : c.patterns with
  | error e => simp [minify, hp] at h
  | ok exclude =>
    rw [minify_of_patterns hp, minifyWith] at h ⊢
    cases hx : (analyze { exclude } as).extract tries (joinedSheets as) with
    | error e => simp [hx] at h
    | ok m =>
      rw [hx] at h
      rcases succeeds_or_fails .stylesheet (renameSheet m) as with hsheets | ⟨before, a, after, e, rfl, hfails⟩
      · obtain ⟨houtcome, hartifacts⟩ := renameAll_of_succeeds c hsheets
        obtain rfl : _ = summary := Except.ok.inj (houtcome.symm.trans h)
        exact ⟨exclude, m, rfl, hx, rfl, hartifacts⟩
      · simp [(renameAll_of_fails c hfails after).1] at h

end Bundle

namespace CommandLine

variable {tries : Nat} {t u : FileTree} {a a' : Arguments} {c : Config} {found : List Located}
  {summary : Bundle.Summary} {args args' : List Argument} {s : Scope}

/-- A run of `minify` to its end: the settings and files it read, what its pass has found, and the tree it left. -/
structure Minified (tries : Nat) (a : Arguments) (t : FileTree) (c : Config) (found : List Located)
    (summary : Bundle.Summary) (u : FileTree) : Prop where
  settings : settings t a = .ok c
  collected : collect t a.others = .ok found
  hasSheet : (found.map Located.artifact).any (·.kind = .stylesheet) = true
  distinct : (outDir? a).isSome = true → duplicates ((found.map Located.artifact).map Artifact.name) = []
  passed : (Bundle.minify tries none c (found.map Located.artifact)).outcome = .ok summary
  written : writeAll t (targets t (outDir? a) a.others found
    (Bundle.minify tries none c (found.map Located.artifact)).artifacts) = (u, none)

theorem exists_minified (h : (minify tries a t).exitCode = 0) :
    ∃ c found summary, Minified tries a t c found summary (minify tries a t).tree := by
  rcases minify_cases tries a t with ⟨message, hrefusal⟩ | ⟨b, log, hbroken⟩ | ⟨c, found, summary, hready, hpass⟩
  · rw [hrefusal.refused] at h
    cases h
  · rw [hbroken] at h
    cases h
  · obtain ⟨htree, -, hexit⟩ := hready.minify_of_ok hpass
    rw [htree]
    exact ⟨c, found, summary, hready.settings, hready.collected, any_sheet hready.hasSheet,
      fun hout => duplicates_eq_nil_iff.2 (hready.distinct hout), hpass, Prod.ext rfl (hexit.1 h)⟩

theorem Minified.ready (h : Minified tries a t c found summary u) : Ready a t c found where
  settings := h.settings
  collected := h.collected
  hasSheet := by simpa using h.hasSheet
  distinct hout := duplicates_eq_nil_iff.1 (h.distinct hout)

theorem Minified.exitCode (h : Minified tries a t c found summary u) : (minify tries a t).exitCode = 0 :=
  (h.ready.minify_of_ok h.passed).2.2.2 (congrArg Prod.snd h.written)

section Arguments

theorem checkPaths_of_exitCode (ha : readArguments s {} none args = .ok a) (hhelp : a.has .help = false)
    (h : (runCommand tries s args t).exitCode = 0) : checkPaths t a = .ok () := by
  cases hpaths : checkPaths t a with
  | error e => simp [runCommand, ha, hhelp, hpaths, usageError, Outcome.refused] at h
  | ok x => rfl

theorem checkPaths_congr (hothers : a'.others = a.others) (hconfig : a'.value? .config = a.value? .config)
    (t : FileTree) : checkPaths t a' = checkPaths t a := by
  simp only [checkPaths, hothers, hconfig]

theorem exists_settings (hexclude : a'.values .exclude = a.values .exclude)
    (hconfig : a'.value? .config = a.value? .config) (h : settings t a = .ok c) :
    ∃ c', settings t a' = .ok c' ∧ c'.patterns = c.patterns := by
  obtain ⟨base, exclude, hbase, rfl, hp⟩ := settings_eq_ok_iff.1 h
  have hpatterns : (base.merge (overrides a')).patterns = (base.merge (overrides a)).patterns := by
    simp only [Config.patterns, Config.merge, overrides, hexclude]
  exact ⟨_, settings_eq_ok_iff.2 ⟨base, exclude, hconfig ▸ hbase, rfl, hpatterns.trans hp⟩, hpatterns⟩

end Arguments

theorem analyzePrograms_eq (m : Minifier) (as : List Artifact) : analyzePrograms m as = Bundle.analyze m as := by
  rw [analyzePrograms, Bundle.analyze, Bundle.ofKind, List.foldl_filter]
  simp only [decide_eq_true_eq]

theorem joinStylesheets_eq (as : List Artifact) : joinStylesheets as = Bundle.joinedSheets as := by
  rw [joinStylesheets, Bundle.joinedSheets, Bundle.ofKind, ← List.filterMap_eq_map, ← List.filterMap_eq_filter,
    List.filterMap_filterMap]
  congr 1
  refine List.filterMap_congr fun a _ => ?_
  by_cases hk : a.kind = .stylesheet <;> simp [hk, Option.guard]

theorem inspect_prints_map (ha : readArguments .minify {} none args = .ok a)
    (ha' : readArguments .inspect {} none args' = .ok a') (hhelp : a.has .help = false) (hhelp' : a'.has .help = false)
    (hothers : a'.others = a.others) (hexclude : a'.values .exclude = a.values .exclude)
    (hconfig : a'.value? .config = a.value? .config)
    (h : (run tries ("minify".toList :: args) t).exitCode = 0) :
    ∃ c found summary, settings t a = .ok c ∧ collect t a.others = .ok found ∧
      (Bundle.minify tries none c (found.map Located.artifact)).outcome = .ok summary ∧
      run tries ("inspect".toList :: args') t =
        { output := String.ofList (JsonText.object summary.classMap.entries) ++ "\n", tree := t } := by
  rw [run_minify] at h
  have hpaths := checkPaths_of_exitCode ha hhelp h
  rw [runCommand_of_checkPaths ha hhelp hpaths, if_neg (by decide)] at h
  obtain ⟨c, found, summary, hrun⟩ := exists_minified h
  obtain ⟨c', hc', hpatterns⟩ := exists_settings hexclude hconfig hrun.settings
  obtain ⟨exclude, m, hp, hm, hmap, -⟩ := Bundle.exists_extract_of_minify hrun.passed
  have hpaths' : checkPaths t a' = .ok () := (checkPaths_congr hothers hconfig t).trans hpaths
  refine ⟨c, found, summary, hrun.settings, hrun.collected, hrun.passed, ?_⟩
  rw [run_inspect, runCommand_of_checkPaths ha' hhelp' hpaths', if_pos rfl, inspect, hc']
  simp only [hothers, hrun.collected, hpatterns, hp, analyzePrograms_eq, joinStylesheets_eq, hm, hmap]

section Small

def smallTree : FileTree where
  files := [(["a.css".toList], .text ".btn .card\x7b\x7d".toList), (["b.js".toList], .text "y='btn'".toList),
    (["c.toml".toList], .text "exclude='card'".toList)]

def smallArtifacts : List Artifact :=
  [⟨"a.css".toList, .stylesheet, ".btn .card\x7b\x7d".toList⟩, ⟨"b.js".toList, .program, "y='btn'".toList⟩]

def smallFound : List Located :=
  smallArtifacts.map fun a => ⟨[a.name], a⟩

def smallArguments : Arguments where
  options := [(.config, "c.toml".toList), (.mapFile, "m.json".toList), (.verbose, [])]
  others := ["a.css".toList, "b.js".toList]

theorem exists_minify_smallArtifacts (hc : c.exclude = ["card".toList]) :
    ∃ summary, (Bundle.minify 1 none c smallArtifacts).outcome = .ok summary := by
  have hcompiled : (Config.compileAll ["card".toList]).toOption.map (fun exclude =>
      Alphabet.baseLeading.all fun ch => !(Bundle.analyze { exclude } smallArtifacts).isExcluded [ch]) = some true := by
    decide +kernel
  obtain ⟨exclude, hexclude, hfree⟩ := Option.map_eq_some_iff.1 hcompiled
  have hp : c.patterns = .ok exclude := by
    rw [Config.patterns, hc]
    exact eq_ok_of_toOption hexclude
  have hjoined : Stylesheet.classes (Bundle.joinedSheets smallArtifacts) = .ok ["btn".toList, "card".toList] :=
    eq_ok_of_toOption (by decide +kernel)
  have hsheets : ∀ a ∈ smallArtifacts, a.kind = .stylesheet → ∃ cs, Stylesheet.classes a.text = .ok cs := by
    simp only [smallArtifacts, List.forall_mem_cons]
    exact ⟨fun _ => ⟨_, hjoined⟩, by simp, by simp⟩
  have hnames : ∀ (a : Alphabet) (i : Nat), a.IsOrder → i < 2 →
      (Bundle.analyze { exclude } smallArtifacts).isExcluded (a.name i) = false := by
    intro a i ha hi
    obtain ⟨ch, hch⟩ := ha.name_eq_singleton (i := i) (by omega)
    have hshort := ha.isShortName i
    rw [hch] at hshort ⊢
    simpa using List.all_eq_true.1 hfree ch hshort.1
  obtain ⟨summary, hok, -⟩ := (Bundle.outcome_minifyWith 1 { exclude } c hjoined hsheets).resolve_left
    fun h => Minifier.extract_ne_outOfNames 0 hjoined hnames h.1
  rw [Bundle.minify, hp]
  exact ⟨summary, hok⟩

theorem minified_smallTree : ∃ c summary u, Minified 1 smallArguments smallTree c smallFound summary u := by
  have hsettings : (settings smallTree smallArguments).toOption.map (fun c => (c.exclude, c.verbose, c.mapFile)) =
      some (["card".toList], true, "m.json".toList) := by decide +kernel
  obtain ⟨c, hc, hread⟩ := Option.map_eq_some_iff.1 hsettings
  obtain ⟨hexclude, hverbose, hmapFile⟩ :
      c.exclude = ["card".toList] ∧ c.verbose = true ∧ c.mapFile = "m.json".toList := by simpa using hread
  obtain ⟨summary, hpass⟩ := exists_minify_smallArtifacts hexclude
  obtain ⟨-, m, -, -, -, hartifacts⟩ := Bundle.exists_extract_of_minify hpass
  have hmap : Bundle.mapArtifact c m.classMap = [⟨"m.json".toList, .other, JsonText.object m.classMap.entries⟩] := by
    rw [Bundle.mapArtifact, if_pos hverbose, hmapFile]
  obtain ⟨u, hu⟩ : ∃ u, writeAll smallTree (targets smallTree none smallArguments.others smallFound
      (Bundle.minify 1 none c smallArtifacts).artifacts) = (u, none) := by
    rw [hartifacts, hmap]
    exact ⟨_, rfl⟩
  have hout : outDir? smallArguments = none := rfl
  exact ⟨c, summary, u, eq_ok_of_toOption hc, rfl, rfl, by simp [hout], hpass, hout ▸ hu⟩

theorem inspect_prints_map_small :
    ∃ c summary, settings smallTree smallArguments = .ok c ∧
      (Bundle.minify 1 none c smallArtifacts).outcome = .ok summary ∧
      run 1 (["inspect", "--config=c.toml", "a.css", "b.js"].map String.toList) smallTree =
        { output := String.ofList (JsonText.object summary.classMap.entries) ++ "\n", tree := smallTree } := by
  obtain ⟨c, summary, u, hrun⟩ := minified_smallTree
  have hread : readArguments .minify {} none
      (["--config", "c.toml", "--map-file=m.json", "-v", "a.css", "b.js"].map String.toList) = .ok smallArguments := rfl
  have hpaths : checkPaths smallTree smallArguments = .ok () := rfl
  have hsuccess : (run 1 ("minify".toList :: ["--config", "c.toml", "--map-file=m.json", "-v", "a.css", "b.js"].map
      String.toList) smallTree).exitCode = 0 := by
    rw [run_minify, runCommand_of_checkPaths hread rfl hpaths, if_neg (by decide)]
    exact hrun.exitCode
  have hread' : readArguments .inspect {} none (["--config=c.toml", "a.css", "b.js"].map String.toList) =
      .ok { options := [(.config, "c.toml".toList)], others := ["a.css".toList, "b.js".toList] } := rfl
  obtain ⟨c', found, summary', hc, hfound, hpass, hinspect⟩ :=
    inspect_prints_map hread hread' rfl rfl rfl rfl rfl hsuccess
  obtain rfl : smallFound = found := Except.ok.inj (hrun.collected.symm.trans hfound)
  exact ⟨c', summary', hc, hpass, hinspect⟩

end Small

end CommandLine

end ShortClass
