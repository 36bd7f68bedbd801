import Mathlib.Data.Set.Finite.Basic
import ShortClass.Proofs.MergedUsage
import ShortClass.Proofs.NameOrder

/-!
Names do not give out. What programs complete at run time goes on with a hyphen or a colon, so names without a
hyphen stay free of it, and unless the patterns themselves leave no more than finitely many of these, every
search for a name and with it the naming of every sheet comes to an end.
-/

namespace ShortClass

/-- From some number of tries on the answer is `b`. -/
def EndsWith {β : Type} (f : Nat → β) (b : β) : Prop := ∃ n, ∀ tries, n ≤ tries → f tries = b

section EndsWith

variable {β γ ε : Type} {b : β}

theorem EndsWith.const (b : β) : EndsWith (fun _ => b) b := ⟨0, fun _ _ => rfl⟩

theorem EndsWith.bind {f : Nat → Except ε β} {g : Nat → β → Except ε γ} {r : Except ε γ} (hf : EndsWith f (.ok b))
    (hg : EndsWith (g · b) r) : EndsWith (fun tries => f tries >>= g tries) r := by
  obtain ⟨n, hn⟩ := hf
  obtain ⟨k, hk⟩ := hg
  refine ⟨max n k, fun tries htries => ?_⟩
  change f tries >>= g tries = r
  rw [hn tries (le_trans (le_max_left n k) htries)]
  exact hk tries (le_trans (le_max_right n k) htries)

end EndsWith

section PlainWords

def IsPlainWord (w : ClassName) : Prop := IsShortName w ∧ '-' ∉ w

theorem infinite_plainWords : {w | IsPlainWord w}.Infinite := by
  have hinj : Function.Injective fun n => List.replicate (n + 1) 'a' := by
    intro i j hij
    simpa using congrArg List.length hij
  refine Set.infinite_of_injective_forall_mem hinj fun n => ?_
  constructor
  · refine ⟨by decide, fun d hd => ?_⟩
    obtain rfl := List.eq_of_mem_replicate hd
    decide
  · intro hmem
    exact absurd (List.eq_of_mem_replicate hmem) (by decide)

end PlainWords

namespace Usage

variable {u : Usage}

inductive Gathered : Usage → Prop where
  | empty : Gathered {}
  | list {u : Usage} (text : Text) : Gathered u → Gathered (u.recordList text)
  | stem {u : Usage} (t : Text) : Gathered u → Gathered (u.recordStem t)
  | merge {u v : Usage} : Gathered u → Gathered v → Gathered (u.merge v)

theorem Gathered.isFragment (h : u.Gathered) : ∀ t ∈ u.stems, Text.isFragment t = true := by
  induction h with
  | empty => simp
  | list text _ ih => exact ih
  | stem s _ ih =>
    intro t ht
    rcases mem_stems_recordStem_iff.1 ht with ht | ⟨hs, rfl⟩
    · exact ih t ht
    · exact hs
  | merge _ _ ihu ihv =>
    intro t ht
    rcases mem_stems_merge.1 ht with ht | ht
    · exact ihu t ht
    · exact ihv t ht

theorem Gathered.recordSpan (h : u.Gathered) (s : Program.Span) : (u.recordSpan s).Gathered := by
  unfold Usage.recordSpan
  split
  · split
    · exact .stem _ (.list _ h)
    · exact .list _ h
  · exact .list _ h

theorem Gathered.recordProgram (h : u.Gathered) (p : Program) : (u.recordProgram p).Gathered := by
  unfold Usage.recordProgram
  generalize p.literals.flatMap Program.Literal.spans = spans
  induction spans generalizing u with
  | nil => exact h
  | cons s spans ih => exact ih (h.recordSpan s)

theorem Gathered.isBuilt_of_plain (h : u.Gathered) {w : ClassName} (hw : IsPlainWord w) :
    u.isBuilt (Text.ofChars w) = false := by
  rw [isBuilt, List.any_eq_false]
  intro t ht hprefix
  have hsub : t ⊆ Text.ofChars w := (List.isPrefixOf_iff_prefix.1 hprefix).subset
  have hmem {c : Char} (hlast : t.getLast? = some (.scalar c)) : c ∈ w := by
    obtain ⟨d, hd, heq⟩ := List.mem_map.1 (hsub (List.mem_of_getLast? hlast))
    exact CodePoint.scalar.inj heq ▸ hd
  have hfragment := h.isFragment t ht
  simp only [Text.isFragment, Bool.or_eq_true, beq_iff_eq] at hfragment
  rcases hfragment with hlast | hlast
  · exact hw.2 (hmem hlast)
  · exact absurd (hw.1.mem_base (hmem hlast)) (by decide)

end Usage

namespace Alphabet

variable {a : Alphabet} {isRefused : ClassName → Bool}

theorem IsOrder.exists_name_ge (ha : a.IsOrder) {words : Set ClassName} (hwords : words.Infinite)
    (hshort : ∀ w ∈ words, IsShortName w) (i : Nat) : ∃ j ≥ i, a.name j ∈ words := by
  by_contra hnone
  apply hwords
  -- all of the words are among the names before `i`
  refine ((Set.finite_lt_nat i).image a.name).subset fun w hw => ?_
  obtain ⟨j, rfl⟩ := ha.exists_name (hshort w hw)
  refine ⟨j, ?_, rfl⟩
  by_contra hj
  exact hnone ⟨j, Nat.le_of_not_lt hj, hw⟩

theorem nextName?_succ_of_some {tries i : Nat} {r : ClassName × Nat} (h : a.nextName? isRefused tries i = some r) :
    a.nextName? isRefused (tries + 1) i = some r := by
  induction tries generalizing i with
  | zero => simp [nextName?] at h
  | succ tries ih =>
    rw [nextName?] at h ⊢
    split at h
    · next hi =>
      rw [if_pos hi]
      exact ih h
    · next hi => rw [if_neg hi, h]

theorem nextName?_mono {tries tries' i : Nat} {r : ClassName × Nat} (h : a.nextName? isRefused tries i = some r)
    (hle : tries ≤ tries') : a.nextName? isRefused tries' i = some r := by
  induction hle with
  | refl => exact h
  | step _ ih => exact nextName?_succ_of_some ih

theorem exists_nextName? {i j : Nat} (hij : i ≤ j) (hj : isRefused (a.name j) = false) :
    ∃ tries r, a.nextName? isRefused tries i = some r := by
  induction hn : j - i generalizing i with
  | zero =>
    obtain rfl : i = j := by omega
    exact ⟨1, (a.name i, i + 1), by simp [nextName?, hj]⟩
  | succ n ih =>
    cases hi : isRefused (a.name i) with
    | true =>
      obtain ⟨tries, r, hr⟩ := ih (i := i + 1) (by omega) (by omega)
      exact ⟨tries + 1, r, by rw [nextName?, if_pos hi, hr]⟩
    | false => exact ⟨1, (a.name i, i + 1), by simp [nextName?, hi]⟩

theorem endsWith_nextName? {i : Nat} (h : ∃ j ≥ i, isRefused (a.name j) = false) :
    ∃ w next, EndsWith (fun tries => a.nextName? isRefused tries i) (some (w, next)) := by
  obtain ⟨j, hij, hj⟩ := h
  obtain ⟨tries, ⟨w, next⟩, hr⟩ := exists_nextName? hij hj
  exact ⟨w, next, tries, fun _ hle => nextName?_mono hr hle⟩

end Alphabet

namespace Minifier

variable {m m' : Minifier} {c : ClassName}

def HasNames (m : Minifier) : Prop :=
  ∀ (a : Alphabet) (i : Nat), a.IsOrder → ∃ j ≥ i, m.isExcluded (a.name j) = false

theorem hasNames_of_infinite (husage : m.usage.Gathered)
    (hwords : {w | IsPlainWord w ∧ ∀ p ∈ m.exclude, p.occursIn w = false}.Infinite) : m.HasNames := by
  intro a i ha
  obtain ⟨j, hij, hplain, hpatterns⟩ := ha.exists_name_ge hwords (fun w hw => hw.1.1) i
  refine ⟨j, hij, ?_⟩
  rw [isExcluded, husage.isBuilt_of_plain hplain, Bool.or_false, List.any_eq_false]
  intro p hp
  simp [hpatterns p hp]

theorem SameSetting.hasNames (h : m.SameSetting m') (hm : m.HasNames) : m'.HasNames := by
  unfold HasNames
  rw [h.isExcluded]
  exact hm

theorem nextName?_of_outOfNames {tries : Nat} (h : m.allocate tries c = .error .outOfNames) :
    m.alphabet.nextName? m.isExcluded tries m.next = none := by
  unfold allocate at h
  split at h
  · cases ht : m.classMap.assign c c <;> rw [ht] at h <;> cases h
  · split at h
    · assumption
    · next name next _ => cases ht : m.classMap.assign c name <;> rw [ht] at h <;> cases h

theorem Allocated.endsWith_allocate (hm : m.Allocated) (hnames : m.HasNames) (hc : c ∉ m.classMap.keys) :
    ∃ m', EndsWith (fun tries => m.allocate tries c) (.ok m') ∧ m'.Allocated ∧ m.SameSetting m' ∧
      m'.classMap.keys = m.classMap.keys ++ [c] := by
  obtain ⟨w, next, n, hends⟩ := Alphabet.endsWith_nextName? (hnames m.alphabet m.next hm.order)
  have hn : ∀ tries, n ≤ tries → m.alphabet.nextName? m.isExcluded tries m.next = some (w, next) := hends
  have hsame : ∀ tries, n ≤ tries → m.allocate tries c = m.allocate n c := by
    intro tries htries
    unfold Minifier.allocate
    rw [hn tries htries, hn n (Nat.le_refl n)]
  rcases hm.allocate hc n with herr | ⟨m', hok, hrest⟩
  · have hnone := nextName?_of_outOfNames herr
    rw [hn n (Nat.le_refl n)] at hnone
    cases hnone
  · exact ⟨m', ⟨n, fun tries htries => (hsame tries htries).trans hok⟩, hrest⟩

theorem Allocated.endsWith_foldlM (hm : m.Allocated) (hnames : m.HasNames) {cs : List ClassName} (hcs : cs.Nodup)
    (hfresh : ∀ c ∈ cs, c ∉ m.classMap.keys) :
    ∃ m', EndsWith (fun tries => cs.foldlM (Minifier.allocate tries) m) (.ok m') := by
  induction cs generalizing m with
  | nil => exact ⟨m, .const _⟩
  | cons c cs ih =>
    obtain ⟨hc, hcs⟩ := List.nodup_cons.1 hcs
    obtain ⟨m₁, hstep, hm₁, hs, hkeys⟩ := hm.endsWith_allocate hnames (hfresh c (by simp))
    obtain ⟨m₂, hrest⟩ := ih hm₁ (hs.hasNames hnames) hcs (notMem_keys_of_cons hkeys hc hfresh)
    refine ⟨m₂, ?_⟩
    simp only [List.foldlM_cons]
    exact hstep.bind hrest

theorem HasNames.endsWith_extract (hnames : m.HasNames) {css : List Char} {cs : List ClassName}
    (hcs : Stylesheet.classes css = .ok cs) : ∃ m', EndsWith (fun tries => m.extract tries css) (.ok m') := by
  have hprepared : (m.prepared cs).HasNames := hnames
  simp only [extract_eq hcs]
  exact (allocated_prepared m cs).endsWith_foldlM hprepared ((perm_byUse m _).nodup_iff.2 (nodup_eraseDups cs))
    fun c _ => List.not_mem_nil

theorem extract_ends (husage : m.usage.Gathered) {calls : List Alphabet.Call}
    (halphabet : m.alphabet = Alphabet.after calls)
    (hwords : m.exclude = [] ∨ {w | IsPlainWord w ∧ ∀ p ∈ m.exclude, p.occursIn w = false}.Infinite) :
    (∀ i, ∃ w next, EndsWith (fun tries => m.alphabet.nextName? m.isExcluded tries i) (some (w, next))) ∧
      ∀ css, (∃ m', EndsWith (fun tries => m.extract tries css) (.ok m')) ∨
        ∃ e, Stylesheet.classes css = .error e ∧ EndsWith (fun tries => m.extract tries css) (.error (.sheet e)) := by
  have hinfinite : {w | IsPlainWord w ∧ ∀ p ∈ m.exclude, p.occursIn w = false}.Infinite := by
    rcases hwords with hnil | hwords
    · simpa [hnil] using infinite_plainWords
    · exact hwords
  have hnames := hasNames_of_infinite husage hinfinite
  constructor
  · intro i
    exact Alphabet.endsWith_nextName? (hnames m.alphabet i (halphabet ▸ Alphabet.isOrder_after calls))
  · intro css
    cases hcs : Stylesheet.classes css with
    | ok cs => exact .inl (hnames.endsWith_extract hcs)
    | error e => exact .inr ⟨e, rfl, 0, fun tries _ => extract_of_error hcs⟩

def hyphenPattern : Pattern := ⟨"-".toList, [], .seq [.code 45]⟩

theorem occursFrom_hyphenPattern {w : ClassName} (hw : '-' ∉ w) (before : List Char) :
    hyphenPattern.occursFrom before w = false := by
  induction w generalizing before with
  | nil => rfl
  | cons c w ih =>
    rw [List.mem_cons, not_or] at hw
    have hc : c.toNat ≠ 45 := fun h => hw.1 (Char.toNat_inj.1 h.symm)
    rw [Pattern.occursFrom, ih hw.2]
    simp [hyphenPattern, Pattern.Term.run, Pattern.Term.runSeq, Pattern.Spot.step?, Pattern.Flags.isCode,
      Pattern.Flags.ignoresCase, hc]

def hyphenMinifier : Minifier :=
  { analyze {} builtProgram.source with
    exclude := [hyphenPattern], alphabet := Alphabet.after [.record (Text.ofString "b-b") 2, .sort], next := 60 }

theorem extract_ends_hyphen :
    Pattern.compile "-".toList = .ok hyphenPattern ∧ Text.ofString "b-" ∈ hyphenMinifier.usage.stems ∧
      (∃ w next, EndsWith (fun tries => hyphenMinifier.alphabet.nextName? hyphenMinifier.isExcluded tries 60)
        (some (w, next))) ∧
      ∃ m', EndsWith (fun tries => hyphenMinifier.extract tries builtSheet) (.ok m') := by
  have husage : hyphenMinifier.usage = Usage.recordProgram {} builtProgram :=
    congrArg Minifier.usage (analyze_of_parse parse_builtProgram {})
  have hwords : {w | IsPlainWord w ∧ ∀ p ∈ hyphenMinifier.exclude, p.occursIn w = false}.Infinite := by
    refine infinite_plainWords.mono fun w hw => ⟨hw, fun p hp => ?_⟩
    obtain rfl := List.mem_singleton.1 hp
    exact occursFrom_hyphenPattern hw.2 []
  have hgathered : hyphenMinifier.usage.Gathered := husage ▸ Usage.Gathered.empty.recordProgram builtProgram
  obtain ⟨hsearch, hextract⟩ := extract_ends hgathered rfl (.inr hwords)
  refine ⟨rfl, ?_, hsearch 60, (hextract builtSheet).resolve_right ?_⟩
  · rw [husage, stems_builtProgram]
    exact List.mem_singleton.2 rfl
  · rintro ⟨e, he, -⟩
    rw [classes_builtSheet] at he
    cases he

end Minifier

end ShortClass
