import ShortClass.Proofs.InPlace
import ShortClass.Proofs.MergedUsage

namespace ShortClass

namespace Alphabet

variable {a b : Alphabet}

theorem counts_foldl_record (h : a.counts = b.counts) (cs : List ClassName) :
    (cs.foldl (fun a c => a.record (Text.ofChars c) 1) a).counts =
      (cs.foldl (fun a c => a.record (Text.ofChars c) 1) b).counts := by
  induction cs generalizing a b with
  | nil => exact h
  | cons c cs ih =>
    refine ih ?_
    simp only [record, h]

theorem sort_eq_of_counts (h : a.counts = b.counts) : a.sort = b.sort := by
  have hcount : a.count = b.count := by
    funext c
    rw [count, count, h]
  rw [sort, sort, hcount, h]

end Alphabet

namespace Minifier

variable {m m' m₁ m₂ : Minifier} {tries : Nat} {css : List Char}

theorem prepared_eq (hexclude : m₁.exclude = m₂.exclude) (husage : m₁.usage = m₂.usage) (cs : List ClassName) :
    m₁.prepared cs = m₂.prepared cs := by
  have hcounts : m₁.alphabet.reset.counts = m₂.alphabet.reset.counts := rfl
  have hsort := Alphabet.sort_eq_of_counts (Alphabet.counts_foldl_record hcounts cs)
  simp only [prepared, hexclude, husage, hsort]

theorem extract_congr (hexclude : m₁.exclude = m₂.exclude) (husage : m₁.usage = m₂.usage) :
    m₁.extract tries css = m₂.extract tries css := by
  simp only [extract, byUse, prepared_eq hexclude husage, husage]

theorem extract_of_same (hexclude : m₁.exclude = m₂.exclude) (husage : m₁.usage.Same m₂.usage) :
    m₂.extract tries css = (m₁.extract tries css).map fun m' => { m' with usage := m₂.usage } := by
  rw [← extract_withUsage husage]
  exact extract_congr hexclude.symm rfl

theorem kept_of_extract (h : m.extract tries css = .ok m') : m'.exclude = m.exclude ∧ m'.usage = m.usage := by
  obtain ⟨cs, hcs⟩ := exists_classes_of_extract h
  rcases extract_steps tries m hcs with herr | ⟨m₁, hok, -, hs, -⟩
  · rw [herr] at h
    cases h
  · obtain rfl := Except.ok.inj (hok.symm.trans h)
    exact ⟨hs.exclude, hs.usage⟩

theorem extractIn_starts_over (hexclude : m₁.exclude = m₂.exclude) (husage : m₁.usage.Same m₂.usage) (tries : Nat)
    (css : List Char) :
    (∀ m, outcome ((extractIn tries css).run m) = m.extract tries css) ∧
      (∀ e, Stylesheet.classes css = .error e → ∀ m, (extractIn tries css).run m = .error (.sheet e) m) ∧
      ∀ cs, Stylesheet.classes css = .ok cs → m₁.extract tries css ≠ .error .outOfNames →
        ∃ m₁' m₂', (extractIn tries css).run m₁ = .ok () m₁' ∧ (extractIn tries css).run m₂ = .ok () m₂' ∧
          m₁'.classMap = m₂'.classMap ∧ m₁'.alphabet = m₂'.alphabet ∧ m₁'.next = m₂'.next ∧
          (m₁'.exclude = m₁.exclude ∧ m₁'.usage = m₁.usage) ∧ (m₂'.exclude = m₂.exclude ∧ m₂'.usage = m₂.usage) ∧
          (extractIn tries css).run m₁' = .ok () m₁' := by
  have hrun {m m' : Minifier} (h : m.extract tries css = .ok m') : (extractIn tries css).run m = .ok () m' :=
    outcome_eq_ok_iff.1 ((outcome_extractIn tries css m).trans h)
  refine ⟨outcome_extractIn tries css, fun e he => run_extractIn_of_error he tries, fun cs hcs hnames => ?_⟩
  obtain ⟨m₁', hok₁, -⟩ := (extract_cases tries m₁ hcs).resolve_left hnames
  have hok₂ : m₂.extract tries css = .ok { m₁' with usage := m₂.usage } := by
    rw [extract_of_same hexclude husage, hok₁]
    rfl
  have hkept := kept_of_extract hok₁
  have hagain : m₁'.extract tries css = m₁.extract tries css := extract_congr hkept.1 hkept.2
  exact ⟨m₁', _, hrun hok₁, hrun hok₂, rfl, rfl, rfl, hkept, kept_of_extract hok₂, hrun (hagain.trans hok₁)⟩

def newMinifier : Minifier where
  usage := { counts := [(Text.ofString "b", 2), (Text.ofString "x", 1)], stems := [Text.ofString "b-"] }

def oldMinifier : Minifier where
  usage := { counts := [(Text.ofString "x", 1), (Text.ofString "b", 2)], stems := [Text.ofString "b-"] }
  classMap := ⟨[("old".toList, "o".toList)], ["o".toList]⟩
  alphabet := (Alphabet.record {} (Text.ofString "old") 3).sort
  next := 1

theorem same_oldMinifier : oldMinifier.usage.Same newMinifier.usage := by
  refine ⟨fun t => ?_, fun t => Iff.rfl⟩
  by_cases hb : Text.ofString "b" = t
  · rw [← hb]
    decide
  · simp [newMinifier, oldMinifier, Usage.count, Usage.countIn, hb]

theorem extractIn_starts_over_old :
    (∃ e, (extractIn 1 "\x7d".toList).run oldMinifier = .error (.sheet e) oldMinifier) ∧
      ∃ m₁' m₂', (extractIn 1 builtSheet).run oldMinifier = .ok () m₁' ∧
        (extractIn 1 builtSheet).run newMinifier = .ok () m₂' ∧ m₁'.classMap = m₂'.classMap ∧
        m₁'.alphabet = m₂'.alphabet ∧ m₁'.next = m₂'.next ∧ m₁'.usage = oldMinifier.usage ∧
        (extractIn 1 builtSheet).run m₁' = .ok () m₁' := by
  have hexclude : oldMinifier.exclude = newMinifier.exclude := rfl
  have hfree : ∀ (a : Alphabet) (i : Nat), a.IsOrder → i < 3 → oldMinifier.isExcluded (a.name i) = false := by
    intro a i ha hi
    obtain ⟨c, hc⟩ := ha.name_eq_singleton (i := i) (by omega)
    simp [hc, oldMinifier, isExcluded, Usage.isBuilt, Text.ofString, Text.ofChars, List.isPrefixOf]
  constructor
  · obtain ⟨e, he⟩ : ∃ e, Stylesheet.classes "\x7d".toList = .error e := exists_error_of_toOption (by decide +kernel)
    exact ⟨e, (extractIn_starts_over hexclude same_oldMinifier 1 _).2.1 e he oldMinifier⟩
  · obtain ⟨m₁', m₂', h₁, h₂, hmap, halphabet, hnext, ⟨-, hkept⟩, -, hagain⟩ :=
      (extractIn_starts_over hexclude same_oldMinifier 1 builtSheet).2.2 _ classes_builtSheet
        (extract_ne_outOfNames 0 classes_builtSheet hfree)
    exact ⟨m₁', m₂', h₁, h₂, hmap, halphabet, hnext, hkept, hagain⟩

end Minifier

end ShortClass
