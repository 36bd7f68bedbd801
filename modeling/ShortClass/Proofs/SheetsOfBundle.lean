import ShortClass.Bundle
import ShortClass.Proofs.CallHistory
import ShortClass.Proofs.Stylesheet.JoinedSheets

namespace ShortClass.Bundle

open Stylesheet

variable {as : List Artifact} {css : List (List ClassName)}

theorem error_changeAll {k : Artifact.Kind} {f : Change} (h : ∀ a ∈ as, a.kind = k → ∃ r, f a = .ok r) :
    (changeAll k f as).error = none := by
  induction as with
  | nil => rfl
  | cons a as ih =>
    have hrest := ih fun b hb => h b (List.mem_cons_of_mem a hb)
    rw [changeAll]
    split
    · next hk =>
      obtain ⟨r, hf⟩ := h a List.mem_cons_self hk
      rw [hf]
      exact hrest
    · exact hrest

theorem exists_renameSheet {m : Minifier} (hm : m.Allocated) {a : Artifact} {cs : List ClassName}
    (h : classes a.text = .ok cs) : ∃ r, renameSheet m a = .ok r := by
  obtain ⟨text, htext, -⟩ := hm.renameSheet h
  rw [renameSheet, htext]
  exact ⟨_, rfl⟩

theorem exists_renameProgram (m : Minifier) (a : Artifact) : ∃ r, renameProgram m a = .ok r := by
  rw [renameProgram]
  split
  · exact ⟨_, rfl⟩
  · next p hp =>
    rw [Minifier.renameProgram, (Program.wellNested_of_parse hp).rename]
    exact ⟨_, rfl⟩

theorem outcome_renameAll (c : Config) {m : Minifier} (hm : m.Allocated)
    (h : ∀ a ∈ as, a.kind = .stylesheet → ∃ cs, classes a.text = .ok cs) :
    ∃ skipped, (renameAll c m as).outcome = .ok ⟨m.classMap, skipped⟩ := by
  have hsheets : (changeAll .stylesheet (renameSheet m) as).error = none := by
    apply error_changeAll
    intro a ha hk
    obtain ⟨cs, hcs⟩ := h a ha hk
    exact exists_renameSheet hm hcs
  have hprograms (bs : List Artifact) : (changeAll .program (renameProgram m) bs).error = none :=
    error_changeAll fun a _ _ => exists_renameProgram m a
  rw [renameAll]
  simp only [hsheets, hprograms]
  exact ⟨_, rfl⟩

theorem outcome_minifyWith (tries : Nat) (m : Minifier) (c : Config) {cs : List ClassName}
    (hjoined : classes (joinedSheets as) = .ok cs)
    (h : ∀ a ∈ as, a.kind = .stylesheet → ∃ cs, classes a.text = .ok cs) :
    (analyze m as).extract tries (joinedSheets as) = .error .outOfNames ∧
        (minifyWith tries m c as).outcome = .error (.extract .outOfNames) ∨
      ∃ summary, (minifyWith tries m c as).outcome = .ok summary ∧ ∀ d, d ∈ summary.classMap.keys ↔ d ∈ cs := by
  rw [minifyWith]
  rcases Minifier.extract_cases tries (analyze m as) hjoined with herr | ⟨m', hok, hm', -, hkeys⟩
  · rw [herr]
    exact .inl ⟨rfl, rfl⟩
  · obtain ⟨skipped, hall⟩ := outcome_renameAll c hm' h
    rw [hok]
    exact .inr ⟨_, hall, hkeys⟩

def Covers (css : List (List ClassName)) : Except BundleError Summary → Prop
  | .ok summary => ∀ cs ∈ css, ∀ c ∈ cs, c ∈ summary.classMap.keys
  | .error (.config _) => True
  | .error (.extract .outOfNames) => True
  | .error _ => False

theorem covers_minifyWith (tries : Nat) (m : Minifier) (c : Config)
    (hjoined : classes (joinedSheets as) = .ok css.flatten)
    (h : ∀ a ∈ as, a.kind = .stylesheet → ∃ cs, classes a.text = .ok cs) :
    Covers css (minifyWith tries m c as).outcome := by
  rcases outcome_minifyWith tries m c hjoined h with ⟨-, herr⟩ | ⟨summary, hok, hkeys⟩
  · rw [herr]
    trivial
  · rw [hok]
    intro cs hcs d hd
    exact (hkeys d).2 (List.mem_flatten_of_mem hcs hd)

theorem covers_minify (tries : Nat) (minifier : Option Minifier) (c : Config)
    (hjoined : classes (joinedSheets as) = .ok css.flatten)
    (h : ∀ a ∈ as, a.kind = .stylesheet → ∃ cs, classes a.text = .ok cs) :
    Covers css (minify tries minifier c as).outcome := by
  cases minifier with
  | some m => exact covers_minifyWith tries m c hjoined h
  | none =>
    simp only [minify]
    cases c.patterns with
    | error e => trivial
    | ok exclude => exact covers_minifyWith tries _ c hjoined h

theorem exists_classes_of_forall₂
    (h : List.Forall₂ (fun a cs => classes a.text = .ok cs) (ofKind .stylesheet as) css) :
    ∀ a ∈ as, a.kind = .stylesheet → ∃ cs, classes a.text = .ok cs := by
  intro a ha hk
  have hmem : a ∈ ofKind .stylesheet as := List.mem_filter.2 ⟨ha, by simpa using hk⟩
  obtain ⟨i, hi, rfl⟩ := List.getElem_of_mem hmem
  obtain ⟨hlen, hget⟩ := List.forall₂_iff_get.1 h
  exact ⟨_, hget i hi (hlen ▸ hi)⟩

theorem joinedSheets_pair {a b : Artifact} (ha : a.kind = .stylesheet) (hb : b.kind = .stylesheet) :
    joinedSheets [a, b] = a.text ++ '\n' :: b.text := by
  simp [joinedSheets, ofKind, ha, hb, List.intercalate]

theorem minify_covers_sheets
    (h : List.Forall₂ (fun a cs => classes a.text = .ok cs) (ofKind .stylesheet as) css)
    (hopen : ∀ a ∈ (ofKind .stylesheet as).dropLast, leavesOpen a.text = false) :
    classes (joinedSheets as) = .ok css.flatten ∧
      (∀ tries minifier c, Covers css (minify tries minifier c as).outcome) ∧
      ∀ a ∈ ofKind .stylesheet as, ∀ cs, classes a.text = .ok cs → (leavesOpen a.text = false ↔
        ∀ b ds, b.kind = .stylesheet → classes b.text = .ok ds → classes (joinedSheets [a, b]) = .ok (cs ++ ds)) := by
  have hjoined : classes (joinedSheets as) = .ok css.flatten := by
    apply classes_intercalate
    · exact List.forall₂_map_left_iff.2 h
    · intro u hu
      rw [← List.map_dropLast] at hu
      obtain ⟨a, ha, rfl⟩ := List.mem_map.1 hu
      exact hopen a ha
  refine ⟨hjoined, fun tries minifier c => covers_minify tries minifier c hjoined (exists_classes_of_forall₂ h),
    fun a ha cs hcs => ?_⟩
  have hkind : a.kind = .stylesheet := by simpa using (List.mem_filter.1 ha).2
  rw [leavesOpen_eq_false_iff hcs]
  constructor
  · intro hall b ds hb hds
    rw [joinedSheets_pair hkind hb]
    exact hall b.text ds hds
  · intro hall v ds hds
    have hpair := hall ⟨[], .stylesheet, v⟩ ds rfl hds
    rwa [joinedSheets_pair hkind rfl] at hpair

section Sheets

def sheet (text : String) : Artifact := ⟨"a.css".toList, .stylesheet, text.toList⟩

def nestedSheets : List Artifact :=
  [sheet ".a:not(.b:is(.c))\x7b\x7d", ⟨"a.js".toList, .program, ")".toList⟩, sheet "/* ) */ .d\x7bx:')'\x7d"]

theorem minify_covers_sheets_nested :
    ∃ summary, (minify 1 (some {}) {} nestedSheets).outcome = .ok summary ∧
      ∀ c ∈ ["a", "b", "c", "d"], c.toList ∈ summary.classMap.keys := by
  have hsheets : List.Forall₂ (fun a cs => classes a.text = .ok cs) (ofKind .stylesheet nestedSheets)
      [["a", "b", "c"].map String.toList, ["d"].map String.toList] :=
    .cons (eq_ok_of_toOption (by decide +kernel)) (.cons (eq_ok_of_toOption (by decide +kernel)) .nil)
  obtain ⟨hjoined, hcovers, -⟩ := minify_covers_sheets hsheets (by decide +kernel)
  have hempty : analyze {} nestedSheets = {} := by
    have hnone : Program.parse? [')'] = none := by decide +kernel
    simp [analyze, ofKind, nestedSheets, sheet, Minifier.analyze, Minifier.analyze?, hnone]
  have hfree : ∀ c, Minifier.isExcluded (analyze {} nestedSheets) c = false := by
    intro c
    simp [hempty, Minifier.isExcluded, Usage.isBuilt]
  obtain ⟨summary, hok, -⟩ := (outcome_minifyWith 1 {} {} hjoined (exists_classes_of_forall₂ hsheets)).resolve_left
    fun h => Minifier.extract_ne_outOfNames 0 hjoined (fun a i _ _ => hfree _) h.1
  have houtcome : (minify 1 (some {}) {} nestedSheets).outcome = .ok summary := hok
  have hkeys := hcovers 1 (some {}) {}
  rw [houtcome] at hkeys
  refine ⟨summary, houtcome, ?_⟩
  simpa [Covers, and_assoc] using hkeys

theorem outcome_minifyWith_of_error (tries : Nat) (m : Minifier) (c : Config) {e : StylesheetError}
    (h : classes (joinedSheets as) = .error e) :
    (minifyWith tries m c as).outcome = .error (.extract (.sheet e)) := by
  rw [minifyWith, Minifier.extract_of_error h]

def openComment : String := ".a\x7bwidth:calc(1px /* it's */ + 2px)\x7d"

def quotedParenthesis : String := ".c:before\x7bcontent:')'\x7d"

theorem minify_refuses_open_group :
    classes openComment.toList = .ok ["a".toList] ∧ classes quotedParenthesis.toList = .ok ["c".toList] ∧
    (∀ tries m c, ∃ e, (minify tries (some m) c [sheet openComment, sheet quotedParenthesis]).outcome =
      .error (.extract (.sheet e))) ∧
    classes ".a:not(.b\x7b\x7d".toList = .ok ["a".toList, "b".toList] ∧
    classes ".c\x7b\x7d );".toList = .ok ["c".toList] ∧
    classes (joinedSheets [sheet ".a:not(.b\x7b\x7d", sheet ".c\x7b\x7d );"]) = .ok [] := by
  refine ⟨eq_ok_of_toOption (by decide +kernel), eq_ok_of_toOption (by decide +kernel), fun tries m c => ?_,
    eq_ok_of_toOption (by decide +kernel), eq_ok_of_toOption (by decide +kernel), eq_ok_of_toOption (by decide +kernel)⟩
  obtain ⟨e, hjoined⟩ : ∃ e, classes (joinedSheets [sheet openComment, sheet quotedParenthesis]) = .error e :=
    exists_error_of_toOption (by decide +kernel)
  exact ⟨e, outcome_minifyWith_of_error tries m c hjoined⟩

end Sheets

end ShortClass.Bundle
