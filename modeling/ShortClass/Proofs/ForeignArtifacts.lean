import ShortClass.Proofs.BundlePass

namespace ShortClass.Bundle

open Stylesheet

variable {as : List Artifact} {m : Minifier} {c : Config}

def isForeign (a : Artifact) : Bool := a.kind = .other || a.kind = .program && !isReadable a

def withoutForeign (as : List Artifact) : List Artifact := as.filter (!isForeign ·)

theorem ofKind_stylesheet_withoutForeign (as : List Artifact) :
    ofKind .stylesheet (withoutForeign as) = ofKind .stylesheet as := by
  rw [ofKind, ofKind, withoutForeign, List.filter_filter]
  apply List.filter_congr
  intro a _
  cases hk : a.kind <;> simp [isForeign, hk]

theorem ofKind_program_withoutForeign (as : List Artifact) :
    ofKind .program (withoutForeign as) = (ofKind .program as).filter isReadable := by
  rw [ofKind, ofKind, withoutForeign, List.filter_filter, List.filter_filter]
  apply List.filter_congr
  intro a _
  cases hk : a.kind <;> simp [isForeign, hk]

theorem unreadablePrograms_withoutForeign (as : List Artifact) : unreadablePrograms (withoutForeign as) = [] := by
  rw [unreadablePrograms, ofKind_program_withoutForeign, List.filter_filter]
  simp

theorem foldl_analyze_readable (m : Minifier) (as : List Artifact) :
    (as.filter isReadable).foldl (fun m a => m.analyze a.text) m = as.foldl (fun m a => m.analyze a.text) m := by
  induction as generalizing m with
  | nil => rfl
  | cons a as ih =>
    by_cases ha : isReadable a = true
    · rw [List.filter_cons_of_pos ha, List.foldl_cons, List.foldl_cons, ih]
    · have hnone : Program.parse? a.text = none := by simpa [isReadable] using ha
      have hskip : m.analyze a.text = m := by simp [Minifier.analyze, Minifier.analyze?, hnone]
      rw [List.filter_cons_of_neg ha, List.foldl_cons, hskip, ih]

theorem analyze_withoutForeign (m : Minifier) (as : List Artifact) : analyze m (withoutForeign as) = analyze m as := by
  rw [analyze, analyze, ofKind_program_withoutForeign, foldl_analyze_readable]

theorem joinedSheets_withoutForeign (as : List Artifact) : joinedSheets (withoutForeign as) = joinedSheets as := by
  rw [joinedSheets, joinedSheets, ofKind_stylesheet_withoutForeign]

theorem renamed_of_isForeign (m : Minifier) {a : Artifact} (h : isForeign a = true) : renamed m a = a := by
  have hk : a.kind ≠ .stylesheet := by
    intro hk
    simp [isForeign, hk] at h
  rw [renamed, changed_of_ne hk]
  by_cases hp : a.kind = .program
  · have hnone : Program.parse? a.text = none := by simpa [isForeign, hp, isReadable] using h
    rw [changed, if_pos hp, renameProgram, hnone]
  · exact changed_of_ne hp _

theorem name_kind_renamed (m : Minifier) (a : Artifact) :
    (renamed m a).name = a.name ∧ (renamed m a).kind = a.kind := by
  simp [renamed, name_changed, kind_changed]

theorem minify_withoutForeign {tries : Nat} {minifier : Option Minifier} {summary : Summary}
    (h : (minify tries minifier c as).outcome = .ok summary) :
    summary.skipped = (as.filter fun a => a.kind = .program && !isReadable a).map Artifact.name ∧
    (minify tries minifier c (withoutForeign as)).outcome = .ok ⟨summary.classMap, []⟩ ∧
    ∃ rename : Artifact → Artifact,
      (∀ a, (rename a).name = a.name ∧ (rename a).kind = a.kind) ∧ (∀ a, isForeign a = true → rename a = a) ∧
      (minify tries minifier c as).artifacts = as.map rename ++ mapArtifact c summary.classMap ∧
      (minify tries minifier c (withoutForeign as)).artifacts =
        (withoutForeign as).map rename ++ mapArtifact c summary.classMap := by
  cases hstart : starter minifier c with
  | error e => simp [minify_of_starter_error hstart] at h
  | ok m₀ =>
    simp only [minify_of_starter hstart] at h ⊢
    unfold minifyWith at h ⊢
    -- both passes analyse the same programs and name the classes of the same text
    rw [analyze_withoutForeign, joinedSheets_withoutForeign]
    cases hx : (analyze m₀ as).extract tries (joinedSheets as) with
    | error x =>
      rw [hx] at h
      simp at h
    | ok m =>
      rw [hx] at h
      rcases succeeds_or_fails .stylesheet (renameSheet m) as with hsheets | ⟨before, a, after, e, rfl, hfails⟩
      · have hkept : Succeeds .stylesheet (renameSheet m) (withoutForeign as) :=
          fun a ha => hsheets a (List.mem_of_mem_filter ha)
        obtain ⟨houtcome, hartifacts⟩ := renameAll_of_succeeds c hsheets
        obtain ⟨houtcome', hartifacts'⟩ := renameAll_of_succeeds c hkept
        obtain rfl : _ = summary := Except.ok.inj (houtcome.symm.trans h)
        rw [unreadablePrograms_withoutForeign] at houtcome'
        refine ⟨?_, houtcome', renamed m, name_kind_renamed m, fun a => renamed_of_isForeign m, hartifacts,
          hartifacts'⟩
        simp only [unreadablePrograms, ofKind, List.filter_filter, Bool.and_comm]
      · simp [(renameAll_of_fails c hfails after).1] at h

def strayBundle : List Artifact :=
  [⟨"a.html".toList, .other, "<p class=a>".toList⟩, ⟨"a.js".toList, .program, "y='a b'".toList⟩,
    ⟨"b.js".toList, .program, "y='a".toList⟩, sheet ".a .b\x7b\x7d"]

theorem exists_minify_strayBundle : ∃ summary, (minify 1 none {} strayBundle).outcome = .ok summary := by
  have hjoined : classes (joinedSheets strayBundle) = .ok ["a".toList, "b".toList] :=
    eq_ok_of_toOption (by decide +kernel)
  have hsheets : ∀ a ∈ strayBundle, a.kind = .stylesheet → ∃ cs, classes a.text = .ok cs := by
    simp only [strayBundle, sheet, List.forall_mem_cons]
    exact ⟨by simp, by simp, by simp, fun _ => ⟨_, hjoined⟩, by simp⟩
  have hexclude : (analyze {} strayBundle).exclude = [] := List.isEmpty_iff.1 (by decide +kernel)
  have hstems : (analyze {} strayBundle).usage.stems = [] := by decide +kernel
  have hfree : ∀ d, (analyze {} strayBundle).isExcluded d = false := by
    intro d
    simp [Minifier.isExcluded, Usage.isBuilt, hexclude, hstems]
  obtain ⟨summary, hok, -⟩ := (outcome_minifyWith 1 {} {} hjoined hsheets).resolve_left
    fun h => Minifier.extract_ne_outOfNames 0 hjoined (fun a i _ _ => hfree _) h.1
  exact ⟨summary, hok⟩

theorem minify_withoutForeign_stray :
    ∃ summary rename, (minify 1 none {} strayBundle).outcome = .ok summary ∧ summary.skipped = ["b.js".toList] ∧
      (minify 1 none {} (withoutForeign strayBundle)).outcome = .ok ⟨summary.classMap, []⟩ ∧
      (minify 1 none {} strayBundle).artifacts = strayBundle.map rename ++ mapArtifact {} summary.classMap ∧
      (minify 1 none {} (withoutForeign strayBundle)).artifacts =
        (withoutForeign strayBundle).map rename ++ mapArtifact {} summary.classMap := by
  obtain ⟨summary, hok⟩ := exists_minify_strayBundle
  obtain ⟨hskipped, hkept, rename, -, -, hartifacts, hartifacts'⟩ := minify_withoutForeign hok
  refine ⟨summary, rename, hok, hskipped.trans (by decide +kernel), hkept, hartifacts, hartifacts'⟩

end ShortClass.Bundle
