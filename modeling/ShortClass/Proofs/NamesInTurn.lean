import Mathlib.Data.Nat.Count
import ShortClass.Proofs.AlphabetOrder
import ShortClass.Proofs.Allocation
import ShortClass.Proofs.NameOrder

namespace ShortClass

namespace Alphabet

variable {a : Alphabet} {isRefused : ClassName → Bool} {k : Nat} {w : ClassName}

def freeNames (a : Alphabet) (isRefused : ClassName → Bool) (n : Nat) : List ClassName :=
  ((List.range n).map a.name).filter fun w => !isRefused w

theorem freeNames_of_refused {n : Nat} (h : isRefused (a.name n) = true) :
    a.freeNames isRefused (n + 1) = a.freeNames isRefused n := by
  simp [freeNames, List.range_succ, h]

theorem freeNames_of_free {n : Nat} (h : isRefused (a.name n) = false) :
    a.freeNames isRefused (n + 1) = a.freeNames isRefused n ++ [a.name n] := by
  simp [freeNames, List.range_succ, h]

theorem freeNames_nextName? {tries i j : Nat} (h : a.nextName? isRefused tries i = some (w, j)) :
    a.freeNames isRefused j = a.freeNames isRefused i ++ [w] := by
  induction tries generalizing i with
  | zero => simp [nextName?] at h
  | succ tries ih =>
    unfold nextName? at h
    split at h
    · next hi => rw [ih h, freeNames_of_refused hi]
    · next hi =>
      obtain ⟨rfl, rfl⟩ : a.name i = w ∧ i + 1 = j := by simpa using h
      exact freeNames_of_free (by simpa using hi)

/-- The number `i` is that of the free name before which there are `k` others. -/
structure IsFree (a : Alphabet) (isRefused : ClassName → Bool) (k i : Nat) : Prop where
  free : isRefused (a.name i) = false
  before : Nat.count (fun j => isRefused (a.name j) = false) i = k

theorem length_freeNames (a : Alphabet) (isRefused : ClassName → Bool) (n : Nat) :
    (a.freeNames isRefused n).length = Nat.count (fun j => isRefused (a.name j) = false) n := by
  induction n with
  | zero => rfl
  | succ n ih =>
    rw [Nat.count_succ, ← ih]
    cases h : isRefused (a.name n) with
    | true => simp [freeNames_of_refused h]
    | false => simp [freeNames_of_free h]

theorem isFree_of_getElem? {n : Nat} (h : (a.freeNames isRefused n)[k]? = some w) :
    ∃ i, a.IsFree isRefused k i ∧ a.name i = w := by
  induction n with
  | zero => simp [freeNames] at h
  | succ n ih =>
    cases hn : isRefused (a.name n) with
    | true =>
      rw [freeNames_of_refused hn] at h
      exact ih h
    | false =>
      rw [freeNames_of_free hn, List.getElem?_append] at h
      split at h
      · exact ih h
      · next hk =>
        have hlast : k - (a.freeNames isRefused n).length = 0 ∧ a.name n = w := by
          simpa [List.getElem?_singleton] using h
        refine ⟨n, ⟨hn, ?_⟩, hlast.2⟩
        rw [← length_freeNames]
        omega

theorem IsFree.lt {k' i i' : Nat} (h : a.IsFree isRefused k i) (h' : a.IsFree isRefused k' i') (hk : k < k') :
    i < i' := by
  by_contra hle
  have hcount := Nat.count_monotone (fun j => isRefused (a.name j) = false) (Nat.le_of_not_lt hle)
  rw [h.before, h'.before] at hcount
  omega

end Alphabet

namespace ClassMap

variable {m t : ClassMap} {c n : ClassName}

theorem entries_of_assign (h : m.assign c n = .ok t) : t.entries = m.entries ++ [(c, n)] := by
  unfold assign at h
  split at h
  · simp at h
  · split at h
    · cases h
      rfl
    · split at h
      · simp at h
      · cases h
        rfl

theorem get?_of_mem_entries (hkeys : m.keys.Nodup) (h : (c, n) ∈ m.entries) : m.get? c = some n := by
  obtain ⟨n', hn'⟩ := mem_keys_iff.1 (List.mem_map_of_mem h)
  have hsame := List.inj_on_of_nodup_map hkeys (mem_entries_of_get? hn') h rfl
  rw [hn', (Prod.mk.inj hsame).2]

end ClassMap

namespace Minifier

variable {m m' : Minifier} {tries : Nat} {c : ClassName}

theorem allocate_eq_ok (h : m.allocate tries c = .ok m') :
    (m.isExcluded c = true ∧ ∃ t, m.classMap.assign c c = .ok t ∧ m' = { m with classMap := t }) ∨
      (m.isExcluded c = false ∧ ∃ name next t, m.alphabet.nextName? m.isExcluded tries m.next = some (name, next) ∧
        m.classMap.assign c name = .ok t ∧ m' = { m with classMap := t, next }) := by
  unfold allocate at h
  split at h
  · next hx =>
    obtain ⟨t, ht, hm'⟩ := bind_eq_ok_iff.1 h
    exact .inl ⟨hx, t, mapError_eq_ok_iff.1 ht, (Except.ok.inj hm').symm⟩
  · next hx =>
    split at h
    · cases h
    · next name next hnext =>
      obtain ⟨t, ht, hm'⟩ := bind_eq_ok_iff.1 h
      exact .inr ⟨by simpa using hx, name, next, t, hnext, mapError_eq_ok_iff.1 ht, (Except.ok.inj hm').symm⟩

def givenEntries (m : Minifier) : List (ClassName × ClassName) :=
  m.classMap.entries.filter fun e => !m.isExcluded e.1

def InTurn (m : Minifier) : Prop :=
  m.givenEntries.map Prod.snd = m.alphabet.freeNames m.isExcluded m.next

theorem InTurn.allocate (hm : m.InTurn) (h : m.allocate tries c = .ok m') : m'.InTurn := by
  obtain ⟨hx, t, ht, rfl⟩ | ⟨hx, name, next, t, hnext, ht, rfl⟩ := allocate_eq_ok h
  · have hsame : isExcluded { m with classMap := t } = m.isExcluded := rfl
    simp only [InTurn, givenEntries, hsame, ClassMap.entries_of_assign ht, List.filter_append] at hm ⊢
    simpa [hx] using hm
  · have hsame : isExcluded { m with classMap := t, next } = m.isExcluded := rfl
    simp only [InTurn, givenEntries, hsame, ClassMap.entries_of_assign ht, List.filter_append] at hm ⊢
    rw [List.map_append, hm, Alphabet.freeNames_nextName? hnext]
    simp [hx]

theorem InTurn.foldlM_allocate {cs : List ClassName} (hm : m.InTurn)
    (h : cs.foldlM (Minifier.allocate tries) m = .ok m') : m'.InTurn := by
  induction cs generalizing m with
  | nil =>
    obtain rfl := Except.ok.inj h
    exact hm
  | cons c cs ih =>
    rw [List.foldlM_cons] at h
    obtain ⟨m₁, hc, hcs⟩ := bind_eq_ok_iff.1 h
    exact ih (hm.allocate hc) hcs

theorem inTurn_prepared (m : Minifier) (cs : List ClassName) : (m.prepared cs).InTurn := rfl

theorem InTurn.getElem? (hm : m.InTurn) (hkeys : m.classMap.keys.Nodup) {k : Nat}
    (hk : (m.classMap.keys.filter fun c => !m.isExcluded c)[k]? = some c) :
    ∃ i, m.alphabet.IsFree m.isExcluded k i ∧ m.classMap.get? c = some (m.alphabet.name i) := by
  have hfilter : (m.classMap.keys.filter fun c => !m.isExcluded c) = m.givenEntries.map Prod.fst := by
    rw [ClassMap.keys, List.filter_map]
    rfl
  rw [hfilter, List.getElem?_map] at hk
  obtain ⟨e, he, rfl⟩ := Option.map_eq_some_iff.1 hk
  have hname : (m.alphabet.freeNames m.isExcluded m.next)[k]? = some e.2 := by
    rw [← hm, List.getElem?_map, he]
    rfl
  obtain ⟨i, hi, heq⟩ := Alphabet.isFree_of_getElem? hname
  have hmem : e ∈ m.classMap.entries := List.mem_of_mem_filter (List.mem_of_getElem? he)
  exact ⟨i, hi, heq ▸ ClassMap.get?_of_mem_entries hkeys hmem⟩

def Precedes (m : Minifier) (cs : List ClassName) (c d : ClassName) : Prop :=
  m.usage.count (Text.ofChars d) < m.usage.count (Text.ofChars c) ∨
    m.usage.count (Text.ofChars c) = m.usage.count (Text.ofChars d) ∧ cs.idxOf c < cs.idxOf d

theorem pairwise_byUse (m : Minifier) (cs : List ClassName) :
    (m.byUse cs.eraseDups).Pairwise (m.Precedes cs) :=
  pairwise_mergeSort_stable (fun _ _ => decide_eq_true_iff) (pairwise_idxOf_eraseDups cs)

theorem follows_prepared (m : Minifier) (cs : List ClassName) :
    (m.prepared cs).alphabet.Follows fun c => cs.flatten.count c := by
  have hcount : ∀ c ∈ Alphabet.base,
      (cs.foldl (fun a d => a.record (Text.ofChars d) 1) m.alphabet.reset).count c = cs.flatten.count c := by
    intro c hc
    rw [Alphabet.count_foldl_record (by rwa [Alphabet.characters_reset]), Alphabet.count_reset, Int.zero_add]
  have hfollows := Alphabet.follows_sort (cs.foldl (fun a d => a.record (Text.ofChars d) 1) m.alphabet.reset)
  constructor
  · exact hfollows.leading.congr fun c hc => hcount c (List.mem_append_left _ hc)
  · exact hfollows.all.congr hcount

theorem lt_of_getElem? {cs : List ClassName} {R : ClassName → ClassName → Prop} {a b : ClassName}
    (hcs : cs.Pairwise R) (hab : ¬R b a) (hne : a ≠ b) {j k : Nat} (ha : cs[j]? = some a)
    (hb : cs[k]? = some b) : j < k := by
  obtain ⟨hj, ha⟩ := List.getElem?_eq_some_iff.1 ha
  obtain ⟨hk, hb⟩ := List.getElem?_eq_some_iff.1 hb
  by_contra hle
  rcases Nat.lt_or_eq_of_le (Nat.le_of_not_lt hle) with hkj | rfl
  · have hrel := List.pairwise_iff_getElem.1 hcs k j hk hj hkj
    rw [ha, hb] at hrel
    exact hab hrel
  · exact hne (ha.symm.trans hb)

theorem InTurn.length_le (hm : m.InTurn) (halloc : m.Allocated) {R : ClassName → ClassName → Prop}
    (hkeys : m.classMap.keys.Pairwise R) {a b n o : ClassName} (hab : ¬R b a) (hne : a ≠ b)
    (ha : m.classMap.get? a = some n) (hb : m.classMap.get? b = some o) (hxa : m.isExcluded a = false)
    (hxb : m.isExcluded b = false) : n.length ≤ o.length := by
  have hplace {c n : ClassName} (hc : m.classMap.get? c = some n) (hxc : m.isExcluded c = false) :
      ∃ k : Nat, (m.classMap.keys.filter fun c => !m.isExcluded c)[k]? = some c := by
    apply List.getElem?_of_mem
    exact List.mem_filter.2 ⟨ClassMap.mem_keys_iff.2 ⟨n, hc⟩, by rw [hxc]; rfl⟩
  obtain ⟨j, hj⟩ := hplace ha hxa
  obtain ⟨k, hk⟩ := hplace hb hxb
  have hjk := lt_of_getElem? (hkeys.filter _) hab hne hj hk
  obtain ⟨i, hi, hname⟩ := hm.getElem? halloc.keys hj
  obtain ⟨i', hi', hname'⟩ := hm.getElem? halloc.keys hk
  obtain rfl := Option.some.inj (ha.symm.trans hname)
  obtain rfl := Option.some.inj (hb.symm.trans hname')
  exact halloc.order.length_name_mono (Nat.le_of_lt (hi.lt hi' hjk))

theorem extract_in_turn (tries : Nat) (m : Minifier) {css : List Char} {cs : List ClassName}
    (hcs : Stylesheet.classes css = .ok cs) (hnames : extract tries m css ≠ .error .outOfNames) :
    ∃ m', extract tries m css = .ok m' ∧
      (∀ c, c ∈ m'.classMap.keys ↔ c ∈ cs) ∧ m'.classMap.keys.Pairwise (m.Precedes cs) ∧
      (m'.alphabet.Follows fun c => cs.flatten.count c) ∧
      (∀ k c, (m'.classMap.keys.filter fun c => !m.isExcluded c)[k]? = some c →
        ∃ i, m'.alphabet.IsFree m.isExcluded k i ∧ m'.classMap.get? c = some (m'.alphabet.name i)) ∧
      ∀ a b n o, m'.classMap.get? a = some n → m'.classMap.get? b = some o → m.isExcluded a = false →
        m.isExcluded b = false → m.usage.count (Text.ofChars b) < m.usage.count (Text.ofChars a) →
        n.length ≤ o.length := by
  obtain ⟨m', hok, hm', hs, hkeys⟩ := (extract_steps tries m hcs).resolve_left hnames
  have hx : m'.isExcluded = m.isExcluded := hs.isExcluded
  have hturn := (inTurn_prepared m cs).foldlM_allocate ((extract_eq hcs).symm.trans hok)
  have horder : m'.classMap.keys.Pairwise (m.Precedes cs) := by
    rw [hkeys]
    exact pairwise_byUse m cs
  refine ⟨m', hok, fun c => ?_, horder, hs.alphabet ▸ follows_prepared m cs, ?_, ?_⟩
  · rw [hkeys]
    exact (perm_byUse m _).mem_iff.trans List.mem_eraseDups
  · intro k c hk
    rw [← hx] at hk ⊢
    exact hturn.getElem? hm'.keys hk
  · intro a b n o ha hb hxa hxb hcount
    have hne : a ≠ b := by
      rintro rfl
      exact Nat.lt_irrefl _ hcount
    have hnot : ¬m.Precedes cs b a := by
      rintro (hlt | ⟨heq, -⟩) <;> omega
    rw [← hx] at hxa hxb
    exact hturn.length_le hm' horder hnot hne ha hb hxa hxb

def usedMinifier : Minifier where
  usage := { counts := [(Text.ofString "block", 3)], stems := [Text.ofString "b-"] }

def usedSheet : List Char := ".flex .b-1, .block .flex\x7b\x7d".toList

theorem extract_in_turn_used :
    ∃ m' n o, extract 1 usedMinifier usedSheet = .ok m' ∧
      m'.classMap.keys.Pairwise (usedMinifier.Precedes (["flex", "b-1", "block", "flex"].map String.toList)) ∧
      (m'.alphabet.Follows fun c => "flexb-1blockflex".toList.count c) ∧
      m'.classMap.get? "block".toList = some n ∧ m'.classMap.get? "flex".toList = some o ∧ n.length ≤ o.length := by
  have hcs : Stylesheet.classes usedSheet = .ok (["flex", "b-1", "block", "flex"].map String.toList) :=
    eq_ok_of_toOption (by decide +kernel)
  have hfree : ∀ (a : Alphabet) (i : Nat), a.IsOrder → i < 4 → usedMinifier.isExcluded (a.name i) = false := by
    intro a i ha hi
    obtain ⟨c, hc⟩ := ha.name_eq_singleton (i := i) (by omega)
    simp [hc, isExcluded, usedMinifier, Usage.isBuilt, Text.ofString, Text.ofChars, List.isPrefixOf]
  obtain ⟨m', hok, hkeys, horder, hfollows, -, hlength⟩ :=
    extract_in_turn 1 usedMinifier hcs (extract_ne_outOfNames 0 hcs hfree)
  obtain ⟨n, hn⟩ := ClassMap.mem_keys_iff.1 ((hkeys "block".toList).2 (by simp))
  obtain ⟨o, ho⟩ := ClassMap.mem_keys_iff.1 ((hkeys "flex".toList).2 (by simp))
  exact ⟨m', n, o, hok, horder, hfollows, hn, ho,
    hlength _ _ n o hn ho (by decide +kernel) (by decide +kernel) (by decide +kernel)⟩

end Minifier

end ShortClass
