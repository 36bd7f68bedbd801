import ShortClass.Proofs.CallHistory
import ShortClass.Proofs.ClassListStems
import ShortClass.Proofs.Program.LiteralSpans

namespace ShortClass

section Fold

variable {σ α τ : Type} {f : σ → α → σ} {g : σ → List τ}

theorem subset_foldl (hf : ∀ s a, g s ⊆ g (f s a)) (as : List α) (s : σ) : g s ⊆ g (as.foldl f s) := by
  induction as generalizing s with
  | nil => exact List.Subset.refl _
  | cons a as ih => exact List.Subset.trans (hf s a) (ih (f s a))

theorem mem_foldl (hf : ∀ s a, g s ⊆ g (f s a)) {as : List α} {a : α} (ha : a ∈ as) {t : τ}
    (ht : ∀ s, t ∈ g (f s a)) (s : σ) : t ∈ g (as.foldl f s) := by
  obtain ⟨before, after, rfl⟩ := List.append_of_mem ha
  rw [List.foldl_append, List.foldl_cons]
  exact subset_foldl hf after _ (ht _)

end Fold

namespace Usage

variable {u : Usage} {s : Program.Span} {t : Text}

theorem stems_subset_recordStem (u : Usage) (t : Text) : u.stems ⊆ (u.recordStem t).stems := by
  rw [recordStem]
  split
  · exact List.subset_append_left _ _
  · exact List.Subset.refl _

theorem mem_stems_recordStem (u : Usage) (ht : t.isFragment = true) : t ∈ (u.recordStem t).stems := by
  rw [recordStem]
  split
  · simp
  · next h => simpa [ht] using h

theorem stems_subset_recordSpan (u : Usage) (s : Program.Span) : u.stems ⊆ (u.recordSpan s).stems := by
  rw [recordSpan]
  split
  · split
    · exact stems_subset_recordStem (u.recordList s.value) _
    · exact List.Subset.refl _
  · exact List.Subset.refl _

theorem mem_stems_recordSpan (u : Usage) (hs : ClassList.HasStem s.joins s.value)
    (ht : s.value.tokens.getLast? = some t) : t ∈ (u.recordSpan s).stems := by
  obtain ⟨hglued, t', ht', hfragment⟩ := hs
  obtain rfl : t = t' := Option.some.inj (ht.symm.trans ht')
  rw [recordSpan, if_pos hglued, ht]
  exact mem_stems_recordStem _ hfragment

theorem stems_subset_recordProgram (u : Usage) (p : Program) : u.stems ⊆ (u.recordProgram p).stems :=
  subset_foldl stems_subset_recordSpan _ u

theorem mem_stems_recordProgram (u : Usage) {p : Program} {l : Program.Literal} (hl : l ∈ p.literals)
    (hs : s ∈ l.spans) (hstem : ClassList.HasStem s.joins s.value) (ht : s.value.tokens.getLast? = some t) :
    t ∈ (u.recordProgram p).stems :=
  mem_foldl stems_subset_recordSpan (List.mem_flatMap.2 ⟨l, hl, hs⟩) (fun u => mem_stems_recordSpan u hstem ht) u

theorem isBuilt_append (ht : t ∈ u.stems) (r : Text) : u.isBuilt (t ++ r) = true :=
  List.any_eq_true.2 ⟨t, ht, List.isPrefixOf_iff_prefix.2 (List.prefix_append t r)⟩

end Usage

namespace Minifier

open ClassList Program

variable {m : Minifier} {t : Text}

theorem stems_subset_analyze (m : Minifier) (source : List Char) :
    m.usage.stems ⊆ (m.analyze source).usage.stems := by
  rw [analyze, analyze?]
  cases parse? source with
  | none => exact List.Subset.refl _
  | some p => exact Usage.stems_subset_recordProgram m.usage p

theorem mem_stems_foldl_analyze {sources : List (List Char)} {source : List Char} (hmem : source ∈ sources)
    {p : Program} (hp : parse? source = some p) {l : Literal} (hl : l ∈ p.literals) {s : Span} (hs : s ∈ l.spans)
    (hstem : HasStem s.joins s.value) (ht : s.value.tokens.getLast? = some t) (m : Minifier) :
    t ∈ (sources.foldl analyze m).usage.stems := by
  refine mem_foldl (g := fun m => m.usage.stems) stems_subset_analyze hmem (fun m => ?_) m
  rw [analyze_of_parse hp]
  exact Usage.mem_stems_recordProgram m.usage hl hs hstem ht

theorem isExcluded_of_mem_stems (ht : t ∈ m.usage.stems) {c : ClassName} (hc : t <+: Text.ofChars c) :
    m.isExcluded c = true := by
  obtain ⟨r, hr⟩ := hc
  rw [isExcluded, ← hr, Usage.isBuilt_append ht, Bool.or_true]

/-- Do classes that begin with `stem` keep their names, and does no other class get a name that begins so? -/
structure KeepsBuilt (m : Minifier) (stem : Text) : Prop where
  sheet : ∀ r, m.sheetName (stem ++ r) = stem ++ r
  program : ∀ r, ClassList.rename m.classMap.lookup (stem ++ r) = stem ++ r
  fresh : ∀ c n, m.classMap.get? c = some n → m.isExcluded c = false → ¬stem <+: Text.ofChars n

theorem Allocated.keepsBuilt (hm : m.Allocated) (ht : ∀ c, t <+: Text.ofChars c → m.isExcluded c = true) :
    m.KeepsBuilt t := by
  have hprogram (r : Text) : ClassList.rename m.classMap.lookup (t ++ r) = t ++ r := by
    rw [ClassList.rename]
    cases hlookup : m.classMap.lookup (t ++ r) with
    | none => rfl
    | some u =>
      obtain ⟨c, n, hc, hget, rfl⟩ := ClassMap.lookup_eq_some hlookup
      rw [Option.getD_some, hc, hm.eq_of_excluded hget (ht c (hc ▸ List.prefix_append t r))]
  refine ⟨fun r => (hm.sheetName _).trans (hprogram r), hprogram, fun c n hget hfree hn => ?_⟩
  have hx := (hm.isShortName hget hfree).1
  rw [ht n hn] at hx
  exact absurd hx (by decide)

theorem exists_literalText_append {p : Program} (hp : p.WellNested) {l : Literal} (hl : l ∈ p.literals) {s : Span}
    (hs : s ∈ l.spans) (hstem : HasStem s.joins s.value) (ht : s.value.tokens.getLast? = some t)
    (lookup : Text → Option Text) :
    ∃ before, readBody s.raw (p.literalText lookup l.isProtected s) = before ++ t ∧
      (before = [] ∨ before.endsBlank = true) := by
  have hvalue := hp.value_of_mem_spans hl hs
  have hraw : s.raw = false := by
    by_contra hraw
    have hjoins := hp.joins_of_raw hl hs (by simpa using hraw)
    rw [hjoins] at hstem
    exact not_hasStem_of_joins rfl _ hstem
  rw [literalText]
  cases l.isProtected with
  | true =>
    obtain ⟨hglued, -⟩ := hstem
    rw [gluedRight, Bool.and_eq_true] at hglued
    obtain ⟨before, heq, hblank⟩ := Text.exists_append_of_getLast?_tokens ht (by simpa using hglued.2)
    exact ⟨before, by rw [if_pos rfl, ← hvalue, heq], hblank⟩
  | false =>
    rw [if_neg (by decide), readBody_spanText lookup hvalue (by simp [hraw])]
    exact exists_newValue_append lookup hstem ht

theorem extract_keepsBuilt {tries : Nat} {m₀ m : Minifier} {sources : List (List Char)} {css : List Char}
    (h : extract tries (sources.foldl analyze m₀) css = .ok m)
    {source : List Char} (hmem : source ∈ sources) {p : Program} (hp : parse? source = some p)
    {l : Literal} (hl : l ∈ p.literals) {s : Span} (hs : s ∈ l.spans)
    (hjoined : s.joins.right = true) (hblank : s.value.endsBlank = false)
    (ht : s.value.tokens.getLast? = some t) (hfragment : t.isFragment = true) :
    m.KeepsBuilt t ∧ ∀ lookup : Text → Option Text,
      (∃ new, p.rename lookup = .ok new ∧
        p.Rewrites lookup s.start s.stop (p.literalText lookup l.isProtected s) new) ∧
      ∃ before, readBody s.raw (p.literalText lookup l.isProtected s) = before ++ t ∧
        (before = [] ∨ before.endsBlank = true) := by
  have hstem : HasStem s.joins s.value := ⟨by simp [gluedRight, hjoined, hblank], t, ht, hfragment⟩
  have hwell := wellNested_of_parse hp
  obtain ⟨hm, hx⟩ := allocated_of_extract h
  refine ⟨hm.keepsBuilt fun c hc => ?_, fun lookup => ?_⟩
  · rw [hx]
    exact isExcluded_of_mem_stems (mem_stems_foldl_analyze hmem hp hl hs hstem ht m₀) hc
  · obtain ⟨new, hnew, hspans⟩ := hwell.rename_spans lookup
    exact ⟨⟨new, hnew, hspans l hl s hs⟩, exists_literalText_append hwell hl hs hstem ht lookup⟩

def builtSpan : Span := ⟨3, 5, cook (Text.ofString "b-"), .backtick, ⟨false, true⟩, false⟩

def builtLiteral : Literal :=
  .template [builtSpan, ⟨9, 9, cook [], .backtick, ⟨true, false⟩, false⟩] false false

theorem literals_builtProgram : builtProgram.literals = [builtLiteral] := rfl

theorem extract_keepsBuilt_template :
    ∃ m, extract 1 (analyze {} builtProgram.source) builtSheet = .ok m ∧
      m.sheetName (Text.ofString "b-1") = Text.ofString "b-1" ∧
      ClassList.rename m.classMap.lookup (Text.ofString "b-1") = Text.ofString "b-1" ∧
      ∀ lookup, (∃ new, builtProgram.rename lookup = .ok new ∧
          builtProgram.Rewrites lookup 3 5 (builtProgram.literalText lookup false builtSpan) new) ∧
        ∃ before, readBody false (builtProgram.literalText lookup false builtSpan) = before ++ Text.ofString "b-" ∧
          (before = [] ∨ before.endsBlank = true) := by
  obtain ⟨m, hok⟩ := extract_builtSheet
  have hrun : extract 1 ([builtProgram.source].foldl analyze {}) builtSheet = .ok m := hok
  have hl : builtLiteral ∈ builtProgram.literals := by simp [literals_builtProgram]
  have hs : builtSpan ∈ builtLiteral.spans := by simp [builtLiteral, Literal.spans]
  have ht : builtSpan.value.tokens.getLast? = some (Text.ofString "b-") := by decide +kernel
  obtain ⟨hkeeps, htext⟩ := extract_keepsBuilt hrun List.mem_cons_self parse_builtProgram hl hs rfl
    (by decide +kernel) ht (by decide)
  exact ⟨m, hok, hkeeps.sheet (Text.ofString "1"), hkeeps.program (Text.ofString "1"), htext⟩

end Minifier

end ShortClass
