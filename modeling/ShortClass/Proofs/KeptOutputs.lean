import ShortClass.Proofs.CommandRuns
import ShortClass.Proofs.ForeignArtifacts
import ShortClass.Proofs.PathNames
import ShortClass.Proofs.WrittenFiles

/-!
What a run of `minify` leaves where. Two files that are written to one place are one file, read twice and renamed
alike, or have one name, which is refused under another directory. So each destination holds the renamed text of its
file, unless the class map, which is written last and compared with nothing, leads there too.
-/

namespace ShortClass

namespace FileTree

variable {t : FileTree} {p q r : Path} {cs : List Char}

def contentsAt? (t : FileTree) (p : Path) : Option Contents := (t.resolve? p).bind t.get?

def Named (t : FileTree) : Prop := ∀ f ∈ t.files, f.1.unrooted.Named

instance (t : FileTree) : Decidable t.Named := inferInstanceAs (Decidable (∀ f ∈ t.files, f.1.unrooted.Named))

theorem exists_of_readText (h : t.readText p = .ok cs) :
    ∃ raw, t.get? p.place = some (.text raw) ∧ cs = lineFeeds raw := by
  unfold readText at h
  split at h
  · cases h
  · next q hq =>
    split at h
    · next raw hraw =>
      obtain rfl := eq_place_of_resolve? hq
      exact ⟨raw, hraw, (Except.ok.inj h).symm⟩
    · cases h
    · cases h

theorem Named.of_mem_below (h : t.Named) (hr : r ∈ t.below q) : r.Named ∧ r ≠ [] := by
  simp only [below, List.mem_mergeSort, List.mem_map, List.mem_filter, Bool.and_eq_true, bne_iff_ne, beq_iff_eq] at hr
  obtain ⟨f, ⟨hf, ⟨hstart, hne⟩, hroot⟩, rfl⟩ := hr
  have hq := List.isPrefixOf_iff_prefix.1 hstart
  constructor
  · intro part hpart
    refine h f hf part ?_
    cases q with
    | nil =>
      -- what lies below the working directory has no root
      rw [Path.unrooted, hroot]
      exact hpart
    | cons first rest =>
      rw [List.length_cons, ← List.drop_tail] at hpart
      exact Path.mem_unrooted_of_mem_tail (List.mem_of_mem_drop hpart)
  · intro hnil
    have hlength := List.drop_eq_nil_iff.1 hnil
    exact hne (hq.eq_of_length (Nat.le_antisymm hq.length_le hlength)).symm

end FileTree

namespace Bundle

variable {a b : Artifact}

theorem text_changed_congr {k : Artifact.Kind} {f : Change} (hkind : a.kind = b.kind) (htext : a.text = b.text)
    (hf : (f a).toOption.map Rewritten.text = (f b).toOption.map Rewritten.text) :
    (changed k f a).text = (changed k f b).text := by
  unfold changed
  rw [hkind]
  split
  · cases ha : f a <;> cases hb : f b <;> simp_all [Except.toOption]
  · exact htext

theorem text_renameSheet (m : Minifier) (a : Artifact) :
    (renameSheet m a).toOption.map Rewritten.text = (m.renameSheet a.text).toOption := by
  unfold renameSheet
  cases m.renameSheet a.text <;> rfl

theorem text_renameProgram (m : Minifier) (a : Artifact) :
    (renameProgram m a).toOption.map Rewritten.text =
      match Program.parse? a.text with
      | none => some a.text
      | some p => (m.renameProgram p).toOption := by
  unfold renameProgram
  cases Program.parse? a.text with
  | none => rfl
  | some p =>
    dsimp only
    cases m.renameProgram p <;> rfl

theorem text_renamed_congr (m : Minifier) (hkind : a.kind = b.kind) (htext : a.text = b.text) :
    (renamed m a).text = (renamed m b).text := by
  have hsheet : (changed .stylesheet (renameSheet m) a).text = (changed .stylesheet (renameSheet m) b).text :=
    text_changed_congr hkind htext (by rw [text_renameSheet, text_renameSheet, htext])
  refine text_changed_congr ?_ hsheet (by rw [text_renameProgram, text_renameProgram, hsheet])
  rw [kind_changed, kind_changed, hkind]

end Bundle

namespace CommandLine

variable {tries : Nat} {t u : FileTree} {a : Arguments} {c : Config} {found : List Located} {l l' : Located}
  {summary : Bundle.Summary} {args : List Argument} {base base' r r' : Path} {text text' : List Char}

section Found

/-- A file that was found and read: it is called by the last parts of its path, which are names. -/
structure FoundAt (t : FileTree) (l : Located) (base r : Path) (text : List Char) : Prop where
  path : l.path = base ++ r
  names : r.Named
  ne_nil : r ≠ []
  read : t.readText l.path = .ok text
  artifact : l.artifact = .ofFile r.toChars text

theorem readCandidate_eq_some {path : Path} {name : List Char} (h : readCandidate t path name = .ok (some l)) :
    Artifact.Kind.ofPath (Path.ofChars name) ≠ .other ∧
      ∃ text, t.readText path = .ok text ∧ l = ⟨path, .ofFile name text⟩ := by
  unfold readCandidate at h
  split at h
  · cases h
  · next hkeep =>
    obtain ⟨text, hread, hl⟩ := bind_eq_ok_iff.1 h
    simp only [Bool.or_eq_true, decide_eq_true_eq, not_or] at hkeep
    exact ⟨hkeep.2, text, hread, (Option.some.inj (Except.ok.inj hl)).symm⟩

theorem mem_candidates {arg : Argument} {x : Path × List Char} (h : x ∈ candidates t arg) :
    x = (Path.ofChars arg, (Path.ofChars arg).name) ∨
      ∃ q, ∃ r ∈ t.below q, x = (Path.ofChars arg ++ r, r.toChars) := by
  unfold candidates at h
  dsimp only at h
  split at h
  · next q _ =>
    split at h
    · obtain ⟨r, hr, rfl⟩ := List.mem_map.1 h
      exact .inr ⟨q, r, hr, rfl⟩
    · exact .inl (List.mem_singleton.1 h)
  · exact .inl (List.mem_singleton.1 h)

theorem exists_foundAt_of_candidate (ht : t.Named) {arg : Argument} {x : Path × List Char}
    (hx : x ∈ candidates t arg) (h : readCandidate t x.1 x.2 = .ok (some l)) :
    ∃ base r text, FoundAt t l base r text := by
  obtain ⟨hkind, text, hread, rfl⟩ := readCandidate_eq_some h
  rcases mem_candidates hx with rfl | ⟨q, r, hr, rfl⟩
  · obtain ⟨base, part, hpath, hpart, hname⟩ := Path.exists_name_of_kind hkind
    refine ⟨base, [part], text, hpath, by simpa [Path.Named] using hpart, by simp, hread, ?_⟩
    rw [hname, Path.toChars_singleton hpart]
  · obtain ⟨hnames, hne⟩ := ht.of_mem_below hr
    exact ⟨Path.ofChars arg, r, text, rfl, hnames, hne, hread, rfl⟩

theorem exists_foundAt (ht : t.Named) (h : collect t args = .ok found) (hl : l ∈ found) :
    ∃ base r text, FoundAt t l base r text := by
  obtain ⟨read, hread, hfound⟩ := bind_eq_ok_iff.1 h
  obtain rfl : read.filterMap id = found := Except.ok.inj hfound
  obtain ⟨x, hx, hfx⟩ := exists_of_mapM hread (by simpa using hl)
  obtain ⟨arg, -, hcandidate⟩ := List.mem_flatMap.1 hx
  exact exists_foundAt_of_candidate ht hcandidate hfx

theorem FoundAt.place (h : FoundAt t l base r text) : l.path.place = base.place ++ r := by
  rw [h.path, Path.place_append_of_names fun part hpart => (h.names part hpart).ne_dots]

theorem FoundAt.kind (h : FoundAt t l base r text) (p : Path) : .ofPath (p ++ r) = l.artifact.kind := by
  rw [Path.kind_append h.ne_nil, h.artifact, Artifact.ofFile, Path.ofChars_toChars h.names]

theorem FoundAt.congr (h : FoundAt t l base r text) (h' : FoundAt t l' base' r' text')
    (hplace : l.path.place = l'.path.place) :
    l.artifact.kind = l'.artifact.kind ∧ l.artifact.text = l'.artifact.text := by
  obtain ⟨raw, hraw, rfl⟩ := FileTree.exists_of_readText h.read
  obtain ⟨raw', hraw', rfl⟩ := FileTree.exists_of_readText h'.read
  rw [hplace, hraw'] at hraw
  cases hraw
  constructor
  · rw [← h.kind base.place, ← h'.kind base'.place, ← h.place, ← h'.place, hplace]
  · rw [h.artifact, h'.artifact]
    rfl

end Found

section Destinations

def destination (outDir : Option Path) (l : Located) : Path :=
  match outDir with
  | some p => p.join (Path.ofChars l.artifact.name)
  | none => l.path

def mapDestination (a : Arguments) (t : FileTree) (c : Config) : Path :=
  (baseDirectory t (outDir? a) a.others).join (Path.ofChars c.mapFile)

theorem FoundAt.place_destination (h : FoundAt t l base r text) (outDir : Option Path) :
    (destination outDir l).place = (outDir.getD base).place ++ r := by
  cases outDir with
  | none => exact h.place
  | some p =>
    rw [destination, h.artifact, Artifact.ofFile, Path.ofChars_toChars h.names, Path.join,
      if_neg (by simp [h.names.not_isAbsolute]),
      Path.place_append_of_names fun part hpart => (h.names part hpart).ne_dots]
    rfl

theorem Ready.text_renamed_congr (hready : Ready a t c found) (ht : t.Named) (m : Minifier) (hl : l ∈ found)
    (hl' : l' ∈ found) (hplace : (destination (outDir? a) l).place = (destination (outDir? a) l').place) :
    (Bundle.renamed m l.artifact).text = (Bundle.renamed m l'.artifact).text := by
  obtain ⟨base, r, text, h⟩ := exists_foundAt ht hready.collected hl
  obtain ⟨base', r', text', h'⟩ := exists_foundAt ht hready.collected hl'
  cases hout : outDir? a with
  | none =>
    rw [hout] at hplace
    obtain ⟨hkind, htext⟩ := h.congr h' hplace
    exact Bundle.text_renamed_congr m hkind htext
  | some p =>
    rw [hout, h.place_destination, h'.place_destination] at hplace
    obtain rfl : r = r' := List.append_cancel_left hplace
    have hname : l.artifact.name = l'.artifact.name := by rw [h.artifact, h'.artifact]; rfl
    have hnodup := hready.distinct (by rw [hout]; rfl)
    rw [List.inj_on_of_nodup_map hnodup (List.mem_map_of_mem hl) (List.mem_map_of_mem hl') hname]

end Destinations

section Runs

theorem zip_renamed (m : Minifier) (found : List Located) (rest : List Artifact) :
    found.zip ((artifacts found).map (Bundle.renamed m) ++ rest) =
      found.map fun l => (l, Bundle.renamed m l.artifact) := by
  induction found with
  | nil => rfl
  | cons l found ih => simpa using ih

theorem writes_eq {m : Minifier} (h : (Bundle.minify tries none c (artifacts found)).artifacts =
      (artifacts found).map (Bundle.renamed m) ++ Bundle.mapArtifact c m.classMap) :
    writes tries a t c found =
      (found.map fun l => (destination (outDir? a) l, (Bundle.renamed m l.artifact).text)) ++
        if c.verbose then [(mapDestination a t c, JsonText.object m.classMap.entries)] else [] := by
  have hdrop : ((artifacts found).map (Bundle.renamed m) ++ Bundle.mapArtifact c m.classMap).drop found.length =
      Bundle.mapArtifact c m.classMap := List.drop_left' (by simp)
  rw [writes, targets, h, zip_renamed, hdrop]
  congr 1
  · simp only [List.map_map]
    refine List.map_congr_left fun l _ => ?_
    cases outDir? a <;> simp [destination, Bundle.name_kind_renamed]
  · unfold Bundle.mapArtifact
    split <;> rfl

/-- The class map is written, and to where another path leads. -/
def MapCovers (a : Arguments) (t : FileTree) (c : Config) (u : FileTree) (p : Path) : Prop :=
  c.verbose = true ∧ u.resolve? (mapDestination a t c) = u.resolve? p

theorem Ready.resolve?_get?_written (hready : Ready a t c found) (ht : t.Named) {m : Minifier}
    (h : writeAll t (found.map fun l => (destination (outDir? a) l, (Bundle.renamed m l.artifact).text)) = (u, none))
    (hl : l ∈ found) :
    u.resolve? (destination (outDir? a) l) = some (destination (outDir? a) l).place ∧
      u.get? (destination (outDir? a) l).place = some (.text (Bundle.renamed m l.artifact).text) := by
  have hw := List.mem_map_of_mem
    (f := fun l => (destination (outDir? a) l, (Bundle.renamed m l.artifact).text)) hl
  refine ⟨resolve?_writeAll h hw, get?_writeAll h hw fun w hw' hplace => ?_⟩
  obtain ⟨l', hl', rfl⟩ := List.mem_map.1 hw'
  exact hready.text_renamed_congr ht m hl' hl hplace

theorem kind_place_of_writeText {p : Path} {cs : List Char} (h : t.writeText p cs = (u, none)) :
    Artifact.Kind.ofPath p.place = Artifact.Kind.ofPath p := by
  obtain ⟨last, hp, hlast⟩ := FileTree.exists_last_of_writeText h
  rw [hp, Path.place_append_of_names (by simpa using hlast), Path.kind_append (by simp), Path.kind_append (by simp)]

theorem Minified.tree (hrun : Minified tries a t c found summary u) : (minify tries a t).tree = u := by
  rw [(hrun.ready.minify_of_ok hrun.passed).1, hrun.written]

theorem Minified.contentsAt? (hrun : Minified tries a t c found summary u) (ht : t.Named) {i : Nat}
    (hl : found[i]? = some l) :
    ∃ b, (Bundle.minify tries none c (artifacts found)).artifacts[i]? = some b ∧ b.name = l.artifact.name ∧
      (¬MapCovers a t c u (destination (outDir? a) l) →
        u.contentsAt? (destination (outDir? a) l) = some (.text b.text)) ∧
      (MapCovers a t c u (destination (outDir? a) l) → .ofPath (mapDestination a t c) = l.artifact.kind ∧
        u.contentsAt? (destination (outDir? a) l) = some (.text (JsonText.object summary.classMap.entries))) := by
  obtain ⟨exclude, m, -, -, hmap, hartifacts⟩ := Bundle.exists_extract_of_minify hrun.passed
  have hi : i < found.length := (List.getElem?_eq_some_iff.1 hl).1
  have hmem : l ∈ found := List.mem_of_getElem? hl
  have hwritten := hrun.written
  rw [← writes, writes_eq hartifacts] at hwritten
  refine ⟨Bundle.renamed m l.artifact, ?_, (Bundle.name_kind_renamed m l.artifact).1, ?_⟩
  · rw [hartifacts, List.getElem?_append_left (by simpa using hi)]
    simp [hl]
  · unfold MapCovers FileTree.contentsAt?
    split at hwritten
    · next hverbose =>
      obtain ⟨v, hv, hlast⟩ := writeAll_concat hwritten
      obtain ⟨hresolve, hget⟩ := hrun.ready.resolve?_get?_written ht hv hmem
      obtain ⟨hkeep, hresolveMap, hgetMap⟩ := FileTree.writeText_leads hlast
      obtain ⟨base, r, text, hfound⟩ := exists_foundAt ht hrun.collected hmem
      rw [hkeep.resolve? hresolve, hresolveMap, Option.bind_some, hgetMap, hmap]
      constructor
      · intro hother
        rw [if_neg fun hplace => hother ⟨hverbose, by rw [hplace]⟩, hget]
      · rintro ⟨-, hplace⟩
        have hsame := Option.some.inj hplace
        refine ⟨?_, if_pos hsame.symm⟩
        rw [← kind_place_of_writeText hlast, hsame, hfound.place_destination, hfound.kind]
    · next hquiet =>
      rw [List.append_nil] at hwritten
      obtain ⟨hresolve, hget⟩ := hrun.ready.resolve?_get?_written ht hwritten hmem
      rw [hresolve]
      exact ⟨fun _ => hget, fun hcovers => absurd hcovers.1 hquiet⟩

theorem destinations_hold_outputs (ht : t.Named) (ha : readArguments .minify {} none args = .ok a)
    (hhelp : a.has .help = false) (h : (run tries ("minify".toList :: args) t).exitCode = 0) :
    ∃ c found summary u, settings t a = .ok c ∧ collect t a.others = .ok found ∧
      (Bundle.minify tries none c (artifacts found)).outcome = .ok summary ∧
      (run tries ("minify".toList :: args) t).tree = u ∧
      ∀ (i : Nat) (l : Located), found[i]? = some l →
        ∃ b, (Bundle.minify tries none c (artifacts found)).artifacts[i]? = some b ∧ b.name = l.artifact.name ∧
          (¬MapCovers a t c u (destination (outDir? a) l) →
            u.contentsAt? (destination (outDir? a) l) = some (.text b.text)) ∧
          (MapCovers a t c u (destination (outDir? a) l) → .ofPath (mapDestination a t c) = l.artifact.kind ∧
            u.contentsAt? (destination (outDir? a) l) =
              some (.text (JsonText.object summary.classMap.entries))) := by
  have hcalled : Called .minify args t a := ⟨ha, hhelp, checkPaths_of_exitCode ha hhelp h⟩
  rw [hcalled.run_minify] at h ⊢
  obtain ⟨c, found, summary, hrun⟩ := exists_minified h
  exact ⟨c, found, summary, _, hrun.settings, hrun.collected, hrun.passed, rfl,
    fun i l hl => hrun.contentsAt? ht hl⟩

end Runs

theorem exists_minified_of_stems {cs : List ClassName} (hsettings : settings t a = .ok c)
    (hcollect : collect t a.others = .ok found) (hout : outDir? a = none) (hc : c.exclude = [])
    (hsheet : (artifacts found).any (·.kind = .stylesheet) = true)
    (hjoined : Stylesheet.classes (Bundle.joinedSheets (artifacts found)) = .ok cs)
    (hsheets : ∀ b ∈ artifacts found, b.kind = .stylesheet → ∃ cs, Stylesheet.classes b.text = .ok cs)
    (hexclude : (Bundle.analyze {} (artifacts found)).exclude = [])
    (hstems : (Bundle.analyze {} (artifacts found)).usage.stems = [])
    (hwrites : ∀ m : Minifier, ∃ u, writeAll t (targets t none a.others found
      ((artifacts found).map (Bundle.renamed m) ++ Bundle.mapArtifact c m.classMap)) = (u, none)) :
    ∃ summary u, Minified 1 a t c found summary u := by
  have hp : c.patterns = .ok [] := by
    rw [Config.patterns, hc]
    rfl
  have hfree : ∀ d, (Bundle.analyze {} (artifacts found)).isExcluded d = false := by
    intro d
    simp [Minifier.isExcluded, Usage.isBuilt, hexclude, hstems]
  obtain ⟨summary, hok, -⟩ := (Bundle.outcome_minifyWith 1 {} c hjoined hsheets).resolve_left
    fun h => Minifier.extract_ne_outOfNames 0 hjoined (fun a i _ _ => hfree _) h.1
  rw [← Bundle.minify_of_patterns hp] at hok
  obtain ⟨-, m, -, -, -, hartifacts⟩ := Bundle.exists_extract_of_minify hok
  obtain ⟨u, hu⟩ := hwrites m
  rw [← hartifacts, ← hout] at hu
  exact ⟨summary, u, hsettings, hcollect, hsheet, by simp [hout], hok, hu⟩

section Shared

def sharedTree : FileTree where
  files := [(["a".toList, "x.css".toList], .text ".btn .card\x7b\x7d".toList),
    (["a".toList, "y.js".toList], .text "y='btn'".toList)]

def sharedArguments : Arguments where
  options := [(.verbose, [])]
  others := ["a".toList, "a/../a/x.css".toList]

def sharedFound : List Located :=
  [⟨["a".toList, "x.css".toList], "x.css".toList, .stylesheet, ".btn .card\x7b\x7d".toList⟩,
    ⟨["a".toList, "y.js".toList], "y.js".toList, .program, "y='btn'".toList⟩,
    ⟨["a".toList, "..".toList, "a".toList, "x.css".toList], "x.css".toList, .stylesheet,
      ".btn .card\x7b\x7d".toList⟩]

def sharedLine : List Argument := "-v".toList :: sharedArguments.others

theorem collect_sharedTree : collect sharedTree sharedArguments.others = .ok sharedFound := by
  have hbelow : sharedTree.below ["a".toList] = [["x.css".toList], ["y.js".toList]] := by
    rw [FileTree.below, List.mergeSort_of_pairwise (by decide +kernel)]
    rfl
  have hcandidates : candidates sharedTree "a".toList =
      (sharedTree.below ["a".toList]).map fun r => (["a".toList] ++ r, Path.toChars r) := rfl
  rw [collect, sharedArguments, List.flatMap_cons, hcandidates, hbelow]
  rfl

theorem minified_sharedTree : ∃ summary u,
    Minified 1 sharedArguments sharedTree { verbose := true } sharedFound summary u := by
  have hjoined : Stylesheet.classes (Bundle.joinedSheets (artifacts sharedFound)) =
      .ok (["btn", "card", "btn", "card"].map String.toList) := eq_ok_of_toOption (by decide +kernel)
  have hsheet : ∃ cs, Stylesheet.classes ".btn .card\x7b\x7d".toList = .ok cs :=
    ⟨["btn", "card"].map String.toList, eq_ok_of_toOption (by decide +kernel)⟩
  refine exists_minified_of_stems rfl collect_sharedTree rfl rfl rfl hjoined ?_
    (List.isEmpty_iff.1 (by decide +kernel)) (by decide +kernel) fun m => ⟨_, rfl⟩
  simp only [sharedFound, List.map_cons, List.forall_mem_cons]
  exact ⟨fun _ => hsheet, by simp, fun _ => hsheet, by simp⟩

theorem destinations_hold_outputs_shared :
    sharedTree.Named ∧ (run 1 ("minify".toList :: sharedLine) sharedTree).exitCode = 0 ∧
      ∃ summary, (Bundle.minify 1 none { verbose := true } (artifacts sharedFound)).outcome = .ok summary ∧
        ∀ (i : Nat) (l : Located), sharedFound[i]? = some l →
          ∃ b, (Bundle.minify 1 none { verbose := true } (artifacts sharedFound)).artifacts[i]? = some b ∧
            (run 1 ("minify".toList :: sharedLine) sharedTree).tree.contentsAt? l.path = some (.text b.text) := by
  obtain ⟨summary, u, hrun⟩ := minified_sharedTree
  have hnamed : sharedTree.Named := by decide
  have hcalled : Called .minify sharedLine sharedTree sharedArguments := ⟨rfl, rfl, rfl⟩
  have hsuccess : (run 1 ("minify".toList :: sharedLine) sharedTree).exitCode = 0 := by
    rw [hcalled.run_minify]
    exact hrun.exitCode
  refine ⟨hnamed, hsuccess, summary, hrun.passed, ?_⟩
  obtain ⟨c, found, summary', u', hc, hfound, -, rfl, hall⟩ :=
    destinations_hold_outputs hnamed hcalled.read rfl hsuccess
  obtain rfl : { verbose := true } = c := Except.ok.inj (hrun.settings.symm.trans hc)
  obtain rfl : sharedFound = found := Except.ok.inj (collect_sharedTree.symm.trans hfound)
  intro i l hl
  obtain ⟨b, hb, -, hholds, hcovers⟩ := hall i l hl
  -- the name of the map promises neither a stylesheet nor a program
  have hother : Artifact.Kind.ofPath (mapDestination sharedArguments sharedTree { verbose := true }) = .other := by
    decide +kernel
  have hkind : ∀ l ∈ sharedFound, l.artifact.kind ≠ .other := by decide
  refine ⟨b, hb, hholds fun h => hkind l (List.mem_of_getElem? hl) ?_⟩
  rw [← (hcovers h).1, hother]

end Shared

section Covered

def coveredSheet : Artifact := ⟨"a.css".toList, .stylesheet, ".btn\x7b\x7d".toList⟩

def coveredTree : FileTree where
  files := [(["a.css".toList], .text coveredSheet.text)]

def coveredArguments : Arguments where
  options := [(.verbose, []), (.mapFile, "a.css".toList)]
  others := ["a.css".toList]

def coveredLine : List Argument := ["-v", "--map-file=a.css", "a.css"].map String.toList

def coveredConfig : Config where
  verbose := true
  mapFile := "a.css".toList

def coveredFound : List Located := [⟨["a.css".toList], coveredSheet⟩]

theorem head?_renameSheet_coveredSheet {m : Minifier} {text : List Char}
    (h : m.renameSheet coveredSheet.text = .ok text) : text.head? = some '.' := by
  have hcomponents : (Stylesheet.parse coveredSheet.text).toOption.map Stylesheet.components =
      some [⟨"btn".toList, 1, 4⟩] := by decide +kernel
  obtain ⟨ss, hss, hone⟩ := Option.map_eq_some_iff.1 hcomponents
  rw [Minifier.renameSheet, Stylesheet.renameClasses, eq_ok_of_toOption hss] at h
  have happly : EditBuffer.applyAll coveredSheet.text (Stylesheet.renameEdits m.newName? [⟨"btn".toList, 1, 4⟩]) =
      .ok text := hone ▸ mapError_eq_ok_iff.1 h
  have hedits : Stylesheet.renameEdits m.newName? [⟨"btn".toList, 1, 4⟩] = [] ∨
      ∃ name, Stylesheet.renameEdits m.newName? [⟨"btn".toList, 1, 4⟩] = [⟨1, 4, name⟩] := by
    cases hnew : m.newName? "btn".toList with
    | none => exact .inl (by simp only [Stylesheet.renameEdits, List.filterMap_cons, hnew, List.filterMap_nil])
    | some name =>
      by_cases hsame : name = "btn".toList
      · exact .inl (by
          simp only [Stylesheet.renameEdits, List.filterMap_cons, hnew, hsame, if_true, List.filterMap_nil])
      · exact .inr ⟨name, by
          simp only [Stylesheet.renameEdits, List.filterMap_cons, hnew, hsame, if_false, List.filterMap_nil]⟩
  -- the dot stands before the one edit there may be
  rcases hedits with hnone | ⟨name, hname⟩
  · rw [hnone] at happly
    rw [← Except.ok.inj ((EditBuffer.apply_nil coveredSheet.text).symm.trans happly)]
    rfl
  · have hspliced : EditBuffer.applyAll coveredSheet.text [⟨1, 4, name⟩] =
        .ok ('.' :: (name ++ "\x7b\x7d".toList)) := by
      simp [coveredSheet, EditBuffer.applyAll, EditBuffer.replace, EditBuffer.apply, Edit.splice, bind, Except.bind,
        pure, Except.pure]
    rw [hname, hspliced] at happly
    rw [← Except.ok.inj happly]
    rfl

theorem head?_renamed_coveredSheet (m : Minifier) : (Bundle.renamed m coveredSheet).text.head? = some '.' := by
  have hkind : (Bundle.changed .stylesheet (Bundle.renameSheet m) coveredSheet).kind ≠ .program := by
    rw [Bundle.kind_changed]
    decide
  rw [Bundle.renamed, Bundle.changed_of_ne hkind, Bundle.changed, if_pos (by rfl)]
  split
  · next r hrename =>
    obtain ⟨text, htext, hr⟩ := bind_eq_ok_iff.1 hrename
    obtain rfl := Except.ok.inj hr
    exact head?_renameSheet_coveredSheet (mapError_eq_ok_iff.1 htext)
  · rfl

theorem head?_object (entries : List (List Char × List Char)) : (JsonText.object entries).head? = some '\x7b' := by
  unfold JsonText.object
  split <;> rfl

theorem minified_coveredTree : ∃ summary u,
    Minified 1 coveredArguments coveredTree coveredConfig coveredFound summary u := by
  have hjoined : Stylesheet.classes (Bundle.joinedSheets (artifacts coveredFound)) = .ok ["btn".toList] :=
    eq_ok_of_toOption (by decide +kernel)
  refine exists_minified_of_stems rfl rfl rfl rfl rfl hjoined ?_ rfl rfl fun m => ⟨_, rfl⟩
  simp only [coveredFound, List.map_cons, List.forall_mem_cons]
  exact ⟨fun _ => ⟨_, hjoined⟩, by simp⟩

theorem map_written_over_sheet :
    ∃ summary b, (run 1 ("minify".toList :: coveredLine) coveredTree).exitCode = 0 ∧
      collect coveredTree coveredArguments.others = .ok coveredFound ∧
      (Bundle.minify 1 none coveredConfig (artifacts coveredFound)).outcome = .ok summary ∧
      (Bundle.minify 1 none coveredConfig (artifacts coveredFound)).artifacts[0]? = some b ∧
      (run 1 ("minify".toList :: coveredLine) coveredTree).tree.contentsAt? ["a.css".toList] ≠
        some (.text b.text) := by
  obtain ⟨summary, u, hrun⟩ := minified_coveredTree
  have hcalled : Called .minify coveredLine coveredTree coveredArguments := ⟨rfl, rfl, rfl⟩
  obtain ⟨-, m, -, -, -, hartifacts⟩ := Bundle.exists_extract_of_minify hrun.passed
  have hnamed : coveredTree.Named := by decide
  obtain ⟨b, hb, -, -, hcovers⟩ := hrun.contentsAt? hnamed (i := 0) rfl
  have htext : b.text.head? = some '.' := by
    rw [hartifacts] at hb
    obtain rfl := Option.some.inj hb
    exact head?_renamed_coveredSheet m
  rw [hcalled.run_minify, hrun.tree]
  refine ⟨summary, b, hrun.exitCode, rfl, hrun.passed, hb, fun hkept => ?_⟩
  have hmap := (hcovers ⟨rfl, rfl⟩).2.symm.trans hkept
  rw [← (Contents.text.inj (Option.some.inj hmap)), head?_object] at htext
  exact absurd htext (by decide)

end Covered

end CommandLine

end ShortClass
