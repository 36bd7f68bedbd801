import ShortClass.Proofs.SheetsOfBundle

namespace ShortClass.Bundle

open Stylesheet

variable {as : List Artifact} {m : Minifier} {c : Config}

def changed (k : Artifact.Kind) (f : Change) (a : Artifact) : Artifact :=
  if a.kind = k then
    match f a with
    | .ok r => { a with text := r.text }
    | .error _ => a
  else a

theorem changed_of_ne {k : Artifact.Kind} {a : Artifact} (h : a.kind ≠ k) (f : Change) : changed k f a = a := if_neg h

theorem changed_of_ok {k : Artifact.Kind} {f : Change} {a : Artifact} {r : Rewritten} (hk : a.kind = k)
    (hf : f a = .ok r) : changed k f a = { a with text := r.text } := by
  rw [changed, if_pos hk, hf]

theorem name_changed (k : Artifact.Kind) (f : Change) (a : Artifact) : (changed k f a).name = a.name := by
  unfold changed
  split
  · split <;> rfl
  · rfl

theorem kind_changed (k : Artifact.Kind) (f : Change) (a : Artifact) : (changed k f a).kind = a.kind := by
  unfold changed
  split
  · split <;> rfl
  · rfl

def Succeeds (k : Artifact.Kind) (f : Change) (as : List Artifact) : Prop :=
  ∀ a ∈ as, a.kind = k → ∃ r, f a = .ok r

structure FailsAt (k : Artifact.Kind) (f : Change) (before : List Artifact) (a : Artifact) (e : BundleError) :
    Prop where
  kind : a.kind = k
  error : f a = .error e
  before : Succeeds k f before

theorem succeeds_or_fails (k : Artifact.Kind) (f : Change) (as : List Artifact) :
    Succeeds k f as ∨ ∃ before a after e, as = before ++ a :: after ∧ FailsAt k f before a e := by
  induction as with
  | nil => exact .inl fun a ha => absurd ha List.not_mem_nil
  | cons a as ih =>
    by_cases ha : ∃ e, a.kind = k ∧ f a = .error e
    · obtain ⟨e, hk, he⟩ := ha
      exact .inr ⟨[], a, as, e, rfl, hk, he, fun b hb => absurd hb List.not_mem_nil⟩
    · have hok : a.kind = k → ∃ r, f a = .ok r := by
        intro hk
        cases hf : f a with
        | error e => exact absurd ⟨e, hk, hf⟩ ha
        | ok r => exact ⟨r, rfl⟩
      rcases ih with hall | ⟨before, b, after, e, rfl, hk, he, hbefore⟩
      · exact .inl (List.forall_mem_cons.2 ⟨hok, hall⟩)
      · exact .inr ⟨a :: before, b, after, e, rfl, hk, he, List.forall_mem_cons.2 ⟨hok, hbefore⟩⟩

def skips (k : Artifact.Kind) (f : Change) (a : Artifact) : Bool :=
  a.kind = k && (f a).toOption.any Rewritten.isSkipped

theorem changeAll_append {k : Artifact.Kind} {f : Change} (h : Succeeds k f as) (bs : List Artifact) :
    (changeAll k f (as ++ bs)).artifacts = as.map (changed k f) ++ (changeAll k f bs).artifacts ∧
      (changeAll k f (as ++ bs)).skipped = (as.filter (skips k f)).map Artifact.name ++ (changeAll k f bs).skipped ∧
      (changeAll k f (as ++ bs)).error = (changeAll k f bs).error := by
  induction as with
  | nil => exact ⟨rfl, rfl, rfl⟩
  | cons a as ih =>
    obtain ⟨ha, hrest⟩ := List.forall_mem_cons.1 h
    obtain ⟨hartifacts, hskipped, herror⟩ := ih hrest
    rw [List.cons_append, changeAll, List.filter_cons]
    by_cases hk : a.kind = k
    · obtain ⟨r, hf⟩ := ha hk
      cases hr : r.isSkipped <;>
        simp [hk, hf, hr, skips, Except.toOption, changed_of_ok hk hf, hartifacts, hskipped, herror]
    · simp [hk, skips, changed_of_ne hk, hartifacts, hskipped, herror]

def renamed (m : Minifier) (a : Artifact) : Artifact :=
  changed .program (renameProgram m) (changed .stylesheet (renameSheet m) a)

def unreadablePrograms (as : List Artifact) : List Artifact := (ofKind .program as).filter (!isReadable ·)

theorem skips_renameProgram (m : Minifier) (a : Artifact) :
    skips .program (renameProgram m) a = (a.kind = .program && !isReadable a) := by
  rw [skips, renameProgram, isReadable]
  cases hp : Program.parse? a.text with
  | none => rfl
  | some p =>
    dsimp only
    cases m.renameProgram p <;> rfl

theorem skipped_renamePrograms (m : Minifier) (f : Change) (as : List Artifact) :
    ((as.map (changed .stylesheet f)).filter (skips .program (renameProgram m))).map Artifact.name =
      (unreadablePrograms as).map Artifact.name := by
  have hskips (a : Artifact) : skips .program (renameProgram m) (changed .stylesheet f a) =
      (a.kind = .program && !isReadable a) := by
    rw [skips_renameProgram, kind_changed]
    by_cases hk : a.kind = .program
    · rw [changed_of_ne (by simp [hk])]
    · simp [hk]
  rw [List.filter_map, List.map_map, unreadablePrograms, ofKind, List.filter_filter]
  have hname : Artifact.name ∘ changed .stylesheet f = Artifact.name := funext (name_changed .stylesheet f)
  rw [hname]
  congr 1
  refine List.filter_congr fun a _ => ?_
  rw [Function.comp_apply, hskips, Bool.and_comm]

theorem renameAll_of_succeeds (c : Config) (h : Succeeds .stylesheet (renameSheet m) as) :
    (renameAll c m as).outcome = .ok ⟨m.classMap, (unreadablePrograms as).map Artifact.name⟩ ∧
      (renameAll c m as).artifacts = as.map (renamed m) ++ mapArtifact c m.classMap := by
  obtain ⟨hsheets, -, hnone⟩ := changeAll_append h []
  -- a program that cannot be read is passed over, so the second half of the pass does not fail
  have hprograms (bs : List Artifact) : Succeeds .program (renameProgram m) bs := fun a _ _ => exists_renameProgram m a
  obtain ⟨hall, hskipped, hnone'⟩ := changeAll_append (hprograms (as.map (changed .stylesheet (renameSheet m)))) []
  simp only [List.append_nil, changeAll, skipped_renamePrograms] at hsheets hnone hall hskipped hnone'
  rw [renameAll]
  simp only [hsheets, hnone, hall, hskipped, hnone', List.map_map, true_and]
  rfl

theorem renameAll_of_fails (c : Config) {before : List Artifact} {a : Artifact} {e : BundleError}
    (h : FailsAt .stylesheet (renameSheet m) before a e) (after : List Artifact) :
    (renameAll c m (before ++ a :: after)).outcome = .error e ∧
      (renameAll c m (before ++ a :: after)).artifacts =
        before.map (changed .stylesheet (renameSheet m)) ++ a :: after := by
  obtain ⟨hsheets, -, herror⟩ := changeAll_append h.before (a :: after)
  have ha : changeAll .stylesheet (renameSheet m) (a :: after) = { artifacts := a :: after, error := some e } := by
    rw [changeAll, if_pos h.kind, h.error]
  rw [ha] at hsheets herror
  rw [renameAll]
  simp only [herror, true_and]
  exact hsheets

def starter (minifier : Option Minifier) (c : Config) : Except ConfigError Minifier :=
  match minifier with
  | some m => .ok m
  | none => c.patterns.map fun exclude => { exclude }

theorem minify_of_starter {minifier : Option Minifier} (h : starter minifier c = .ok m) (tries : Nat)
    (as : List Artifact) : minify tries minifier c as = minifyWith tries m c as := by
  cases minifier with
  | some m' =>
    obtain rfl : m' = m := Except.ok.inj h
    rfl
  | none =>
    rw [minify]
    cases hp : c.patterns with
    | error e => simp [starter, hp, Except.map] at h
    | ok exclude =>
      obtain rfl : { exclude } = m := by simpa [starter, hp, Except.map] using h
      rfl

theorem minify_of_starter_error {minifier : Option Minifier} {e : ConfigError} (h : starter minifier c = .error e)
    (tries : Nat) (as : List Artifact) : minify tries minifier c as = ⟨as, [], .error (.config e)⟩ := by
  cases minifier with
  | some m => simp [starter] at h
  | none =>
    rw [minify]
    cases hp : c.patterns with
    | error e' =>
      obtain rfl : e' = e := by simpa [starter, hp, Except.map] using h
      rfl
    | ok exclude => simp [starter, hp, Except.map] at h

theorem renameSheet_of_error (m : Minifier) {a : Artifact} {e : StylesheetError} (h : classes a.text = .error e) :
    renameSheet m a = .error (.sheet (.sheet e)) := by
  have hparse : parse a.text = .error e := by
    cases hp : parse a.text with
    | error e' =>
      rw [classes, hp] at h
      exact congrArg _ (Except.error.inj h)
    | ok ss =>
      rw [classes_of_parse hp] at h
      simp at h
  rw [renameSheet, Minifier.renameSheet, renameClasses, hparse]
  rfl

theorem classes_of_renameSheet_error (hm : m.Allocated) {a : Artifact} {err : BundleError}
    (h : renameSheet m a = .error err) : ∃ e, err = .sheet (.sheet e) ∧ classes a.text = .error e := by
  cases hcs : classes a.text with
  | ok cs =>
    obtain ⟨r, hr⟩ := exists_renameSheet hm hcs
    rw [h] at hr
    simp at hr
  | error e =>
    rw [renameSheet_of_error m hcs] at h
    exact ⟨e, (Except.error.inj h).symm, rfl⟩

def fault? : BundleError → Option StylesheetError
  | .extract (.sheet e) => some e
  | .sheet (.sheet e) => some e
  | _ => none

/-- How a pass fails. Before any class has a name, the names run out or the joined text cannot be read; after that,
only a sheet that cannot be read by itself is left to fail. -/
theorem minifyWith_error {tries : Nat} {m₀ : Minifier} {err : BundleError}
    (h : (minifyWith tries m₀ c as).outcome = .error err) :
    err = .extract .outOfNames ∨
    (∃ e, err = .extract (.sheet e) ∧ classes (joinedSheets as) = .error e ∧
      (minifyWith tries m₀ c as).artifacts = as) ∨
    ∃ e m before a after, err = .sheet (.sheet e) ∧ (analyze m₀ as).extract tries (joinedSheets as) = .ok m ∧
      as = before ++ a :: after ∧ a.kind = .stylesheet ∧ classes a.text = .error e ∧
      Succeeds .stylesheet (renameSheet m) before ∧
      (minifyWith tries m₀ c as).artifacts = before.map (changed .stylesheet (renameSheet m)) ++ a :: after := by
  unfold minifyWith at h ⊢
  cases hx : (analyze m₀ as).extract tries (joinedSheets as) with
  | error x =>
    rw [hx] at h
    cases h
    cases hcs : classes (joinedSheets as) with
    | error e =>
      rw [Minifier.extract_of_error hcs] at hx
      cases hx
      exact .inr (.inl ⟨e, rfl, rfl, rfl⟩)
    | ok cs =>
      rcases Minifier.extract_cases tries (analyze m₀ as) hcs with hnone | ⟨m, hok, -⟩
      · rw [hx] at hnone
        cases hnone
        exact .inl rfl
      · simp [hx] at hok
  | ok m =>
    rw [hx] at h
    right; right
    rcases succeeds_or_fails .stylesheet (renameSheet m) as with hall | ⟨before, a, after, err', rfl, hfails⟩
    · simp [(renameAll_of_succeeds c hall).1] at h
    · obtain ⟨herror, hartifacts⟩ := renameAll_of_fails c hfails after
      obtain rfl : err' = err := Except.error.inj (herror.symm.trans h)
      obtain ⟨e, rfl, ha⟩ := classes_of_renameSheet_error (Minifier.allocated_of_extract hx).1 hfails.error
      exact ⟨e, m, before, a, after, rfl, rfl, rfl, hfails.kind, ha, hfails.before, hartifacts⟩

theorem minify_refused {tries : Nat} {minifier : Option Minifier} {err : BundleError} {e : StylesheetError}
    (h : (minify tries minifier c as).outcome = .error err) (he : fault? err = some e) :
    classes (joinedSheets as) = .error e ∧ (minify tries minifier c as).artifacts = as ∨
    ∃ m₀ m before a after, starter minifier c = .ok m₀ ∧ (analyze m₀ as).extract tries (joinedSheets as) = .ok m ∧
      as = before ++ a :: after ∧ a.kind = .stylesheet ∧ classes a.text = .error e ∧
      Succeeds .stylesheet (renameSheet m) before ∧
      (minify tries minifier c as).artifacts = before.map (changed .stylesheet (renameSheet m)) ++ a :: after := by
  cases hstart : starter minifier c with
  | error e' =>
    rw [minify_of_starter_error hstart] at h
    cases h
    simp [fault?] at he
  | ok m₀ =>
    rw [minify_of_starter hstart] at h ⊢
    rcases minifyWith_error h with rfl | ⟨e', rfl, hjoined⟩ | ⟨e', m, before, a, after, rfl, hrest⟩
    · simp [fault?] at he
    · obtain rfl : e' = e := by simpa [fault?] using he
      exact .inl hjoined
    · obtain rfl : e' = e := by simpa [fault?] using he
      exact .inr ⟨m₀, m, before, a, after, rfl, hrest⟩

section Halves

def halvedSheets : List Artifact := [sheet ".sm\\:x\x7b\x7d", sheet ".a \x7b", sheet "\x7d"]

theorem minify_halvedSheets : ∃ e text n, (minify 1 none {} halvedSheets).outcome = .error (.sheet (.sheet e)) ∧
    (minify 1 none {} halvedSheets).artifacts = { sheet ".sm\\:x\x7b\x7d" with text } :: halvedSheets.tail ∧
    classes text = .ok [n] ∧ IsShortName n := by
  have hjoined : classes (joinedSheets halvedSheets) = .ok ["sm:x".toList, "a".toList] :=
    eq_ok_of_toOption (by decide +kernel)
  have hfirst : classes (sheet ".sm\\:x\x7b\x7d").text = .ok ["sm:x".toList] :=
    eq_ok_of_toOption (by decide +kernel)
  obtain ⟨e, hsecond⟩ : ∃ e, classes (sheet ".a \x7b").text = .error e := exists_error_of_toOption (by decide +kernel)
  have hfree : ∀ d, Minifier.isExcluded {} d = false := fun d => rfl
  obtain ⟨m, hm, hallocated, hx, hkeys⟩ := (Minifier.extract_cases 1 {} hjoined).resolve_left
    (Minifier.extract_ne_outOfNames 0 hjoined fun a i _ _ => hfree _)
  obtain ⟨text, htext, hclasses⟩ := hallocated.renameSheet hfirst
  obtain ⟨n, hn⟩ := ClassMap.mem_keys_iff.1 ((hkeys "sm:x".toList).2 (by simp))
  have hrename : m.classMap.rename "sm:x".toList = n := by rw [ClassMap.rename, hn, Option.getD_some]
  have hshort : IsShortName n := (hallocated.isShortName hn (by rw [hx, hfree])).2
  obtain ⟨entry, hrenamed⟩ : ∃ entry, renameSheet m (sheet ".sm\\:x\x7b\x7d") = .ok { text, entry } := by
    rw [renameSheet, htext]
    exact ⟨_, rfl⟩
  have hfails : FailsAt .stylesheet (renameSheet m) [sheet ".sm\\:x\x7b\x7d"] (sheet ".a \x7b")
      (.sheet (.sheet e)) := ⟨rfl, renameSheet_of_error m hsecond, by simp [Succeeds, hrenamed]⟩
  obtain ⟨herror, hartifacts⟩ := renameAll_of_fails {} hfails [sheet "\x7d"]
  have hpass : minify 1 none {} halvedSheets = minifyWith 1 {} {} halvedSheets := rfl
  have hnamed : (analyze {} halvedSheets).extract 1 (joinedSheets halvedSheets) = .ok m := hm
  rw [hpass, minifyWith, hnamed]
  rw [List.map_singleton, changed_of_ok (k := .stylesheet) rfl hrenamed] at hartifacts
  exact ⟨e, text, n, herror, hartifacts, by rw [hclasses, List.map_singleton, hrename], hshort⟩

theorem minify_refused_halved :
    ∃ e before a after m, (minify 1 none {} halvedSheets).outcome = .error (.sheet (.sheet e)) ∧
      halvedSheets = before ++ a :: after ∧ classes a.text = .error e ∧
      (minify 1 none {} halvedSheets).artifacts = before.map (changed .stylesheet (renameSheet m)) ++ a :: after := by
  obtain ⟨e, -, -, houtcome, -⟩ := minify_halvedSheets
  rcases minify_refused houtcome rfl with
    ⟨hjoined, -⟩ | ⟨m₀, m, before, a, after, -, -, hsplit, -, ha, -, hartifacts⟩
  · have hread : (classes (joinedSheets halvedSheets)).toOption.isSome = true := by decide +kernel
    simp [hjoined, Except.toOption] at hread
  · exact ⟨e, before, a, after, m, houtcome, hsplit, ha, hartifacts⟩

theorem minify_changes_before_refusal :
    ∃ e, (minify 1 none {} halvedSheets).outcome = .error (.sheet (.sheet e)) ∧
      (minify 1 none {} halvedSheets).artifacts ≠ halvedSheets := by
  obtain ⟨e, text, n, houtcome, hartifacts, hclasses, hshort⟩ := minify_halvedSheets
  refine ⟨e, houtcome, fun hsame => ?_⟩
  have htext : text = ".sm\\:x\x7b\x7d".toList := by
    rw [hsame] at hartifacts
    exact (congrArg Artifact.text (List.cons.inj hartifacts).1).symm
  have hfirst : classes ".sm\\:x\x7b\x7d".toList = .ok ["sm:x".toList] := eq_ok_of_toOption (by decide +kernel)
  rw [htext, hfirst] at hclasses
  obtain rfl : "sm:x".toList = n := by simpa using hclasses
  exact absurd hshort (by decide)

end Halves

end ShortClass.Bundle
