import ShortClass.Proofs.ClassMatching
import ShortClass.Proofs.Program.LiteralPlaces
import ShortClass.Proofs.Program.LiteralSpans
import ShortClass.Proofs.RenamedSource

namespace ShortClass

namespace ClassList

variable {lookup : Text → Option Text} {j : Joins} {value t : Text}

def KeepsNames (lookup : Text → Option Text) : Prop := ∀ t u, lookup t = some u → u = t

namespace KeepsNames

theorem givesTokens (h : KeepsNames lookup) : GivesTokens lookup := by
  intro t u ht hu
  rwa [h t u hu]

theorem rename (h : KeepsNames lookup) : ClassList.rename lookup = id := by
  funext t
  rw [ClassList.rename]
  cases hu : lookup t with
  | none => rfl
  | some u => exact h t u hu

theorem newTokens (h : KeepsNames lookup) (j : Joins) (value : Text) :
    ClassList.newTokens lookup j value = value.tokens := by
  rw [ClassList.newTokens, h.rename, List.map_id, List.map_id]
  by_cases hstem : HasStem j value
  · obtain ⟨last, hlast, -⟩ := hstem.2
    rw [if_pos hstem, hlast]
    exact List.dropLast_append_getLast? last hlast
  · exact if_neg hstem

theorem of_classMap {m : ClassMap} (h : ∀ c n, m.get? c = some n → n = c) : KeepsNames m.lookup := by
  intro t u hu
  obtain ⟨c, n, rfl, hn, rfl⟩ := ClassMap.lookup_eq_some hu
  rw [h c n hn]

end KeepsNames

def Qualifies (lookup : Text → Option Text) (j : Joins) (value : Text) : Prop :=
  if HasStem j value then value.tokens.dropLast ≠ [] ∧ ∀ t ∈ value.tokens.dropLast, (lookup t).isSome = true
  else ∃ t ∈ value.tokens, (lookup t).isSome = true

theorem qualifies_iff : Qualifies lookup j value ↔ ∃ t, (renamed lookup j value).text? = some t := by
  rw [← Option.ne_none_iff_exists', Ne, text?_renamed_eq_none_iff, Qualifies]
  by_cases hstem : HasStem j value
  · rw [if_pos hstem]
    simp only [hstem, true_and, not_or, not_exists, not_and, ← Ne.eq_def, ← Option.isSome_iff_ne_none]
    refine ⟨fun ⟨hne, hkeys⟩ => ⟨fun hnone => ?_, hne, hkeys⟩, fun ⟨_, hne, hkeys⟩ => ⟨hne, hkeys⟩⟩
    obtain ⟨t, ht⟩ := List.exists_mem_of_ne_nil _ hne
    simpa [hnone t (List.dropLast_subset _ ht)] using hkeys t ht
  · rw [if_neg hstem]
    simp [hstem, Option.isSome_iff_ne_none]

theorem eq_value_iff (hl : GivesTokens lookup) (h : (renamed lookup j value).text? = some t) :
    t = value ↔ Relisted lookup j value value := by
  have ht := relisted_of_text? hl h
  constructor
  · rintro rfl
    exact ht
  · intro hvalue
    obtain ⟨u, hu, -⟩ := exists_key_of_text? h
    exact ht.eq hvalue (newTokens_ne_nil (List.ne_nil_of_mem hu))

end ClassList

namespace Program

open ClassList

variable {p : Program} {lookup : Text → Option Text} {l : Literal} {s : Span} {e : Edit Char}

theorem source_of_parse {source : List Char} (h : parse? source = some p) : p.source = source := by
  unfold parse? at h
  obtain ⟨⟨root, d⟩, -, h⟩ := Option.bind_eq_some_iff.1 h
  obtain ⟨-, h⟩ := Option.ite_none_left_eq_some.1 h
  rw [← Option.some.inj h]

def Span.Untidy (lookup : Text → Option Text) (s : Span) : Prop :=
  Qualifies lookup s.joins s.value ∧ ¬Relisted lookup s.joins s.value s.value

theorem untidy_iff (hl : GivesTokens lookup) : s.Untidy lookup ↔ ∃ e, s.edit? lookup = some e := by
  rw [← Option.ne_none_iff_exists', Ne, Span.edit?, Option.map_eq_none_iff, source?_eq_none_iff, not_or, Span.Untidy,
    qualifies_iff, ← Option.ne_none_iff_exists']
  refine and_congr_right fun hne => not_congr ?_
  obtain ⟨t, ht⟩ := Option.ne_none_iff_exists'.1 hne
  rw [ht, Option.some_inj]
  exact (eq_value_iff hl ht).symm

theorem plain_of_raw (hkept : KeepsNames lookup) (hp : p.WellNested) (hl : l ∈ p.literals) (hs : s ∈ l.spans)
    (hraw : s.raw = true) : ∀ a ∈ newValue lookup s.joins s.value, a.toChar?.isSome = true := by
  have hvalue : s.value = Text.ofChars (p.text s.start s.stop) := by
    rw [hp.value_of_mem_spans hl hs, hraw]
    rfl
  have hplain : ∀ a ∈ s.value, a.toChar?.isSome = true := by
    rw [hvalue]
    intro a ha
    obtain ⟨c, -, rfl⟩ := List.mem_map.1 ha
    rfl
  have hstem : ¬HasStem s.joins s.value := Minifier.not_hasStem_of_joins (by rw [hp.joins_of_raw hl hs hraw]) _
  intro a ha
  rcases mem_newValue hstem ha with ha | rfl | ⟨t, ht, u, hu, ha⟩
  · exact hplain a ha
  · rfl
  · rw [hkept t u hu] at ha
    exact hplain a (Text.mem_of_mem_tokens ht ha)

theorem relisted_replacement (hkept : KeepsNames lookup) (hp : p.WellNested) (hl : l ∈ p.literals) (hs : s ∈ l.spans)
    (he : s.edit? lookup = some e) : Relisted lookup s.joins s.value (readBody s.raw e.replacement) := by
  obtain ⟨source, hsource, -⟩ := Option.map_eq_some_iff.1 he
  have htext := exists_text?_of_source? hsource
  have hread := readBody_spanText lookup (hp.value_of_mem_spans hl hs) (plain_of_raw hkept hp hl hs)
  rw [spanText, he, newValue, htext] at hread
  have hread : readBody s.raw e.replacement = readBack s.raw source := hread
  rw [hread]
  exact relisted_of_text? hkept.givesTokens htext

theorem rename_of_kept {source : List Char} (hp : parse? source = some p) (hkept : KeepsNames lookup) :
    ∃ new, p.rename lookup = .ok new ∧ Spliced 0 source (p.edits lookup) new ∧
      (∀ e ∈ p.edits lookup, ∃ l ∈ p.literals, l.isProtected = false ∧ ∃ s ∈ l.spans, s.Untidy lookup ∧
        e.start = s.start ∧ e.stop = s.stop ∧ readBody s.raw (p.text s.start s.stop) = s.value ∧
        (readBody s.raw e.replacement).tokens = s.value.tokens ∧
        Relisted lookup s.joins s.value (readBody s.raw e.replacement)) ∧
      (∀ l ∈ p.literals, l.isProtected = false → ∀ s ∈ l.spans, s.Untidy lookup →
        ∃ e ∈ p.edits lookup, e.start = s.start ∧ e.stop = s.stop) ∧
      ((∀ l ∈ p.literals, l.isProtected = false → ∀ s ∈ l.spans, ¬s.Untidy lookup) → new = source) := by
  have hnested := wellNested_of_parse hp
  obtain rfl := source_of_parse hp
  have hspliced := hnested.spliced_edits lookup
  refine ⟨_, hnested.rename lookup, hspliced, fun e he => ?_, fun l hl hfree s hs hs' => ?_, fun htidy => ?_⟩
  · obtain ⟨l, hl, hfree, s, hs, he⟩ := mem_edits_iff.1 he
    obtain ⟨hstart, hstop, -⟩ := edit?_eq_some he
    have hrelisted := relisted_replacement hkept hnested hl hs he
    exact ⟨l, hl, hfree, s, hs, (untidy_iff hkept.givesTokens).2 ⟨e, he⟩, hstart, hstop,
      (hnested.value_of_mem_spans hl hs).symm, hrelisted.tokens.trans (hkept.newTokens _ _), hrelisted⟩
  · obtain ⟨e, he⟩ := (untidy_iff hkept.givesTokens).1 hs'
    obtain ⟨hstart, hstop, -⟩ := edit?_eq_some he
    exact ⟨e, mem_edits_iff.2 ⟨l, hl, hfree, s, hs, he⟩, hstart, hstop⟩
  · have hnone : p.edits lookup = [] := by
      refine List.eq_nil_iff_forall_not_mem.2 fun e he => ?_
      obtain ⟨l, hl, hfree, s, hs, he⟩ := mem_edits_iff.1 he
      exact htidy l hl hfree s hs ((untidy_iff hkept.givesTokens).2 ⟨e, he⟩)
    rw [hnone] at hspliced
    have hcopy := EditBuffer.applyAll_of_spliced (Spliced.copy 0 p.source)
    exact Except.ok.inj ((EditBuffer.applyAll_of_spliced hspliced).symm.trans hcopy)

def keptMap : ClassMap := ⟨[("btn".toList, "btn".toList)], []⟩

theorem keepsNames_keptMap : KeepsNames keptMap.lookup := by
  apply KeepsNames.of_classMap
  intro c n hn
  obtain ⟨rfl, rfl⟩ : c = "btn".toList ∧ n = "btn".toList := by
    simpa [keptMap] using ClassMap.mem_entries_of_get? hn
  rfl

theorem rename_of_toOption {source new : List Char}
    (h : ((parse? source).bind fun p => (p.rename lookup).toOption) = some new) :
    ∃ p, parse? source = some p ∧ p.rename lookup = .ok new := by
  obtain ⟨p, hp, hnew⟩ := Option.bind_eq_some_iff.1 h
  exact ⟨p, hp, eq_ok_of_toOption hnew⟩

def looseSource : List Char := "y=\x60a  btn\x60+x".toList

def tightSource : List Char := "y=\x60a btn \x60+x".toList

theorem rename_of_kept_loose :
    (∃ p, parse? looseSource = some p ∧ p.rename keptMap.lookup = .ok tightSource ∧
      Spliced 0 looseSource (p.edits keptMap.lookup) tightSource) ∧
    ∃ p, parse? tightSource = some p ∧ p.rename keptMap.lookup = .ok tightSource := by
  constructor
  · obtain ⟨p, hp, htight⟩ : ∃ p, parse? looseSource = some p ∧ p.rename keptMap.lookup = .ok tightSource :=
      rename_of_toOption (by decide +kernel)
    obtain ⟨new, hnew, hspliced, -⟩ := rename_of_kept hp keepsNames_keptMap
    obtain rfl := Except.ok.inj (hnew.symm.trans htight)
    exact ⟨p, hp, hnew, hspliced⟩
  · have hread : (parse? tightSource).map (fun p => (p.edits keptMap.lookup).length) = some 0 := by decide +kernel
    obtain ⟨p, hp, hnone⟩ := Option.map_eq_some_iff.1 hread
    obtain ⟨new, hnew, -, -, hall, hsame⟩ := rename_of_kept hp keepsNames_keptMap
    have hkept : new = tightSource := by
      refine hsame fun l hl hfree s hs huntidy => ?_
      obtain ⟨e, he, -⟩ := hall l hl hfree s hs huntidy
      rw [List.length_eq_zero_iff.1 hnone] at he
      cases he
    exact ⟨p, hp, hkept ▸ hnew⟩

theorem rename_kept_changed :
    KeepsNames keptMap.lookup ∧
      (∃ p, parse? "y=\"btn  btn\"".toList = some p ∧ p.rename keptMap.lookup = .ok "y=\"btn btn\"".toList) ∧
      ∃ p, parse? "y=\"btn\"+x".toList = some p ∧ p.rename keptMap.lookup = .ok "y=\"btn \"+x".toList :=
  ⟨keepsNames_keptMap, rename_of_toOption (by decide +kernel), rename_of_toOption (by decide +kernel)⟩

end Program

end ShortClass
