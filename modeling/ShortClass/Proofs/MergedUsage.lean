import ShortClass.Proofs.BuiltNames

namespace ShortClass

open Program (Span Literal)

def Program.Span.stem? (s : Span) : Option Text :=
  if ClassList.gluedRight s.joins s.value then s.value.tokens.getLast?.filter Text.isFragment else none

namespace Usage

variable {u v : Usage} {ts ts' ss ss' : List Text} {t : Text}

section Counts

variable {counts : List (Text × Nat)}

theorem mem_keys_bump (n : Nat) (s : Text) :
    t ∈ (bump n s counts).map Prod.fst ↔ t = s ∨ t ∈ counts.map Prod.fst := by
  induction counts with
  | nil => simp [bump]
  | cons e counts ih =>
    obtain ⟨r, k⟩ := e
    by_cases hr : r = s
    · simp [bump, hr]
    · simp only [bump, if_neg hr, List.map_cons, List.mem_cons, ih]
      tauto

theorem nodup_keys_bump (h : (counts.map Prod.fst).Nodup) (n : Nat) (s : Text) :
    ((bump n s counts).map Prod.fst).Nodup := by
  induction counts with
  | nil => simp [bump]
  | cons e counts ih =>
    obtain ⟨r, k⟩ := e
    rw [List.map_cons, List.nodup_cons] at h
    by_cases hr : r = s
    · simpa [bump, hr] using h
    · rw [bump, if_neg hr, List.map_cons, List.nodup_cons, mem_keys_bump]
      exact ⟨by tauto, ih h.2⟩

theorem nodup_keys_foldl {α : Type} (key : α → Text) (n : α → Nat) (as : List α)
    (h : (counts.map Prod.fst).Nodup) :
    ((as.foldl (fun counts a => bump (n a) (key a) counts) counts).map Prod.fst).Nodup := by
  induction as generalizing counts with
  | nil => exact h
  | cons a as ih => exact ih (nodup_keys_bump h (n a) (key a))

theorem countIn_eq_zero (h : t ∉ counts.map Prod.fst) : countIn t counts = 0 := by
  induction counts with
  | nil => rfl
  | cons e counts ih =>
    obtain ⟨r, k⟩ := e
    rw [List.map_cons, List.mem_cons, not_or] at h
    rw [countIn, if_neg fun hr => h.1 hr.symm, ih h.2]

theorem countIn_foldl_bump {more : List (Text × Nat)} (h : (more.map Prod.fst).Nodup) :
    countIn t (more.foldl (fun counts (s, n) => bump n s counts) counts) = countIn t counts + countIn t more := by
  induction more generalizing counts with
  | nil => rfl
  | cons e more ih =>
    obtain ⟨s, n⟩ := e
    rw [List.map_cons, List.nodup_cons] at h
    -- a count is that of the first entry for its token, so the entries must not repeat one
    rw [List.foldl_cons, ih h.2, countIn_bump, countIn]
    by_cases hs : s = t
    · subst hs
      simp [countIn_eq_zero h.1]
    · rw [if_neg fun ht => hs ht.symm, if_neg hs, Nat.add_zero]

end Counts

structure Holds (u : Usage) (ts ss : List Text) : Prop where
  keys : (u.counts.map Prod.fst).Nodup
  count : ∀ t, u.count t = ts.count t
  stems : ∀ t, t ∈ u.stems ↔ t ∈ ss

theorem holds_empty : Holds {} [] [] := ⟨List.nodup_nil, fun _ => rfl, fun _ => Iff.rfl⟩

theorem mem_stems_recordStem_iff {s : Text} :
    t ∈ (u.recordStem s).stems ↔ t ∈ u.stems ∨ s.isFragment = true ∧ t = s := by
  unfold recordStem
  by_cases hs : s.isFragment = true
  · by_cases hmem : s ∈ u.stems
    · have hsame : t = s → t ∈ u.stems := fun ht => ht ▸ hmem
      simpa [hs, hmem] using hsame
    · simp [hs, hmem]
  · simp [hs]

theorem counts_recordStem (u : Usage) (t : Text) : (u.recordStem t).counts = u.counts := by
  unfold recordStem
  split <;> rfl

theorem counts_recordSpan (u : Usage) (s : Span) : (u.recordSpan s).counts = (u.recordList s.value).counts := by
  unfold recordSpan
  split
  · split
    · exact counts_recordStem _ _
    · rfl
  · rfl

theorem mem_stems_recordSpan_iff {s : Span} : t ∈ (u.recordSpan s).stems ↔ t ∈ u.stems ∨ s.stem? = some t := by
  have hlist : (u.recordList s.value).stems = u.stems := rfl
  unfold recordSpan Span.stem?
  by_cases hglued : ClassList.gluedRight s.joins s.value = true
  · cases hlast : s.value.tokens.getLast? with
    | none => simp [hglued, hlist]
    | some r =>
      simp [hglued, mem_stems_recordStem_iff, hlist, Option.filter_some, eq_comm (a := t)]
  · simp [hglued, hlist]

theorem mem_stems_merge : t ∈ (u.merge v).stems ↔ t ∈ u.stems ∨ t ∈ v.stems := by
  simp only [merge]
  generalize u.stems = us
  generalize v.stems = vs
  induction vs generalizing us with
  | nil => simp
  | cons s vs ih =>
    rw [List.foldl_cons, ih]
    by_cases hs : s ∈ us
    · have hsame : t = s → t ∈ us := fun ht => ht ▸ hs
      simp only [List.contains_iff_mem, hs, if_true, List.mem_cons]
      tauto
    · simp [hs, or_assoc]

namespace Holds

theorem recordSpan (h : u.Holds ts ss) (s : Span) :
    (u.recordSpan s).Holds (ts ++ s.value.tokens) (ss ++ s.stem?.toList) where
  keys := by
    rw [counts_recordSpan]
    exact nodup_keys_foldl id (fun _ => 1) s.value.tokens h.keys
  count t := by
    have hlist : (u.recordSpan s).count t = (u.recordList s.value).count t := by
      rw [Usage.count, counts_recordSpan]
      rfl
    rw [hlist, count_recordList, h.count, List.count_append]
  stems t := by simp [mem_stems_recordSpan_iff, h.stems]

theorem foldl_recordSpan (h : u.Holds ts ss) (spans : List Span) :
    (spans.foldl Usage.recordSpan u).Holds (ts ++ spans.flatMap fun s => s.value.tokens)
      (ss ++ spans.filterMap Span.stem?) := by
  induction spans generalizing u ts ss with
  | nil => simpa using h
  | cons s spans ih =>
    have hrest := ih (h.recordSpan s)
    cases hs : s.stem? <;> simpa [hs] using hrest

theorem merge (hu : u.Holds ts ss) (hv : v.Holds ts' ss') : (u.merge v).Holds (ts ++ ts') (ss ++ ss') where
  keys := nodup_keys_foldl Prod.fst Prod.snd v.counts hu.keys
  count t := by
    rw [List.count_append, ← hu.count, ← hv.count]
    exact countIn_foldl_bump hv.keys
  stems t := by rw [mem_stems_merge, hu.stems, hv.stems, List.mem_append]

end Holds

structure Same (u v : Usage) : Prop where
  count : ∀ t, u.count t = v.count t
  stems : ∀ t, t ∈ u.stems ↔ t ∈ v.stems

theorem Holds.same (hu : u.Holds ts ss) (hv : v.Holds ts' ss') (hts : ts.Perm ts') (hss : ss.Perm ss') :
    u.Same v where
  count t := by rw [hu.count, hv.count, hts.count_eq]
  stems t := by rw [hu.stems, hv.stems, hss.mem_iff]

theorem Same.isBuilt (h : u.Same v) (t : Text) : u.isBuilt t = v.isBuilt t := by
  rw [Bool.eq_iff_iff, Usage.isBuilt, Usage.isBuilt, List.any_eq_true, List.any_eq_true]
  simp only [h.stems]

theorem foldl_recordProgram (u : Usage) (ps : List Program) :
    ps.foldl recordProgram u = ((ps.flatMap Program.literals).flatMap Literal.spans).foldl recordSpan u := by
  rw [List.flatMap_assoc, List.foldl_flatMap]
  rfl

end Usage

def spansOf (sources : List (List Char)) : List Span :=
  ((sources.filterMap Program.parse?).flatMap Program.literals).flatMap Literal.spans

/-- How usage is gathered: sources are scanned into a new index, or an index is merged into another. -/
inductive Analysis where
  | scan (sources : List (List Char))
  | merge (a b : Analysis)

namespace Analysis

def sources : Analysis → List (List Char)
  | scan sources => sources
  | merge a b => a.sources ++ b.sources

def usage : Analysis → Usage
  | scan sources => (sources.filterMap Program.parse?).foldl Usage.recordProgram {}
  | merge a b => a.usage.merge b.usage

theorem holds (a : Analysis) :
    a.usage.Holds ((spansOf a.sources).flatMap fun s => s.value.tokens) ((spansOf a.sources).filterMap Span.stem?) := by
  induction a with
  | scan sources =>
    rw [usage, Usage.foldl_recordProgram]
    exact Usage.holds_empty.foldl_recordSpan (spansOf sources)
  | merge a b iha ihb =>
    have happend : spansOf (merge a b).sources = spansOf a.sources ++ spansOf b.sources := by
      simp [sources, spansOf]
    rw [happend, List.flatMap_append, List.filterMap_append]
    exact iha.merge ihb

end Analysis

namespace Minifier

variable {m m' : Minifier} {u : Usage} {tries : Nat}

theorem foldl_analyze (m : Minifier) (sources : List (List Char)) :
    sources.foldl analyze m =
      { m with usage := (sources.filterMap Program.parse?).foldl Usage.recordProgram m.usage } := by
  induction sources generalizing m with
  | nil => rfl
  | cons source sources ih =>
    rw [List.foldl_cons, ih]
    cases hp : Program.parse? source with
    | none => simp [analyze, analyze?, hp]
    | some p => simp [analyze_of_parse hp, hp]

theorem isExcluded_withUsage (h : m.usage.Same u) : isExcluded { m with usage := u } = m.isExcluded := by
  funext c
  rw [isExcluded, isExcluded, h.isBuilt]

theorem byUse_withUsage (h : m.usage.Same u) (cs : List ClassName) :
    byUse { m with usage := u } cs = m.byUse cs := by
  simp only [byUse, h.count]

theorem allocate_withUsage (h : m.usage.Same u) (c : ClassName) :
    allocate tries { m with usage := u } c = (m.allocate tries c).map fun m' => { m' with usage := u } := by
  simp only [allocate, isExcluded_withUsage h]
  split
  · cases m.classMap.assign c c <;> rfl
  · split
    · rfl
    · next name next _ => cases m.classMap.assign c name <;> rfl

theorem usage_allocate {c : ClassName} (h : m.allocate tries c = .ok m') : m'.usage = m.usage := by
  have hsame : m.usage.Same m.usage := ⟨fun _ => rfl, fun _ => Iff.rfl⟩
  have hkept : m.allocate tries c = (m.allocate tries c).map fun m' => { m' with usage := m.usage } :=
    allocate_withUsage hsame c
  rw [h] at hkept
  have heq : m' = { m' with usage := m.usage } := Except.ok.inj hkept
  rw [heq]

theorem foldlM_allocate_withUsage (h : m.usage.Same u) (cs : List ClassName) :
    cs.foldlM (allocate tries) { m with usage := u } =
      (cs.foldlM (allocate tries) m).map fun m' => { m' with usage := u } := by
  induction cs generalizing m with
  | nil => rfl
  | cons c cs ih =>
    rw [List.foldlM_cons, List.foldlM_cons, allocate_withUsage h]
    cases hc : m.allocate tries c with
    | error e => rfl
    | ok m' => exact ih (m := m') (usage_allocate hc ▸ h)

theorem extract_withUsage (h : m.usage.Same u) (css : List Char) :
    extract tries { m with usage := u } css = (m.extract tries css).map fun m' => { m' with usage := u } := by
  cases hcs : Stylesheet.classes css with
  | error e =>
    rw [extract_of_error hcs, extract_of_error hcs]
    rfl
  | ok cs =>
    rw [extract_eq hcs, extract_eq hcs, byUse_withUsage h]
    exact foldlM_allocate_withUsage (m := m.prepared cs) h _

theorem extract_analysis (a : Analysis) {sources : List (List Char)} (h : a.sources.Perm sources) (m : Minifier) :
    (sources.foldl analyze { m with usage := {} }).usage.Same a.usage ∧
      (∀ t, a.usage.count t = ((spansOf sources).flatMap fun s => s.value.tokens).count t) ∧
      ∀ tries css, extract tries { m with usage := a.usage } css =
        (extract tries (sources.foldl analyze { m with usage := {} }) css).map
          fun m' => { m' with usage := a.usage } := by
  have hspans : (spansOf sources).Perm (spansOf a.sources) :=
    ((h.symm.filterMap _).flatMap_right _).flatMap_right _
  have hone := (Analysis.scan sources).holds
  have hsame : (sources.foldl analyze { m with usage := {} }).usage.Same a.usage := by
    rw [foldl_analyze]
    exact hone.same a.holds (hspans.flatMap_right _) (hspans.filterMap _)
  refine ⟨hsame, fun t => ?_, fun tries css => ?_⟩
  · rw [a.holds.count, (hspans.flatMap_right _).count_eq]
  · rw [← extract_withUsage hsame, foldl_analyze]

def partedAnalysis : Analysis := .merge (.scan [")".toList, "y='b x b'".toList]) (.scan [builtProgram.source])

theorem extract_analysis_parted :
    partedAnalysis.usage.count (Text.ofString "b") = 2 ∧
      Text.ofString "b-" ∈ ([builtProgram.source, "y='b x b'".toList, ")".toList].foldl analyze {}).usage.stems ∧
      ∀ tries css, extract tries { usage := partedAnalysis.usage } css =
        (extract tries ([builtProgram.source, "y='b x b'".toList, ")".toList].foldl analyze {}) css).map
          fun m => { m with usage := partedAnalysis.usage } := by
  have hperm : partedAnalysis.sources.Perm [builtProgram.source, "y='b x b'".toList, ")".toList] := by decide +kernel
  obtain ⟨hsame, hcount, hextract⟩ := extract_analysis partedAnalysis hperm {}
  refine ⟨(hcount _).trans (by decide +kernel), (hsame.stems _).2 (by decide +kernel), hextract⟩

end Minifier

end ShortClass
