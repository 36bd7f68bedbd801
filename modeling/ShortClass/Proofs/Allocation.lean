import ShortClass.Minifier
import ShortClass.Proofs.NameNumbers
import ShortClass.Proofs.Outcome

namespace ShortClass

namespace ClassMap

variable {m : ClassMap} {c n : ClassName}

theorem get?_eq_none_iff : m.get? c = none ↔ c ∉ m.keys := by
  simp only [get?, List.lookup_eq_none_iff, keys, List.mem_map, not_exists, not_and]
  constructor
  · intro h e he hec
    simpa [hec] using h e he
  · intro h e he
    have hne := h e he
    rw [bne_iff_ne]
    exact Ne.symm hne

theorem mem_keys_iff : c ∈ m.keys ↔ ∃ n, m.get? c = some n := by
  rw [← not_iff_not, ← get?_eq_none_iff, not_exists, Option.eq_none_iff_forall_ne_some]

theorem mem_entries_of_get? (h : m.get? c = some n) : (c, n) ∈ m.entries := by
  obtain ⟨before, after, heq, -⟩ := List.lookup_eq_some_iff.1 h
  rw [heq]
  simp

theorem assign_fresh (hc : c ∉ m.keys) (hn : c = n ∨ n ∉ m.taken) :
    ∃ m', m.assign c n = .ok m' ∧ m'.entries = m.entries ++ [(c, n)] ∧
      ∀ k ∈ m'.taken, k ∈ m.taken ∨ k = n ∧ c ≠ n := by
  rw [assign, get?_eq_none_iff.2 hc]
  by_cases heq : c = n
  · exact ⟨_, if_pos heq, rfl, fun k hk => .inl hk⟩
  · have hfree : ¬m.taken.contains n = true := by simpa using hn.resolve_left heq
    refine ⟨_, by rw [if_neg heq, if_neg hfree], rfl, fun k hk => ?_⟩
    rcases List.mem_append.1 hk with hk | hk
    · exact .inl hk
    · exact .inr ⟨by simpa using hk, heq⟩

end ClassMap

namespace Minifier

variable {m m' : Minifier} {tries : Nat} {c : ClassName}

structure Allocated (m : Minifier) : Prop where
  order : m.alphabet.IsOrder
  keys : m.classMap.keys.Nodup
  kept : ∀ e ∈ m.classMap.entries, m.isExcluded e.1 = true → e.2 = e.1
  given : ∀ e ∈ m.classMap.entries, m.isExcluded e.1 = false →
    m.isExcluded e.2 = false ∧ ∃ i < m.next, e.2 = m.alphabet.name i
  taken : ∀ n ∈ m.classMap.taken, ∃ i < m.next, n = m.alphabet.name i
  names : (m.classMap.entries.map Prod.snd).Nodup

structure SameSetting (m m' : Minifier) : Prop where
  exclude : m'.exclude = m.exclude
  usage : m'.usage = m.usage
  alphabet : m'.alphabet = m.alphabet

theorem SameSetting.isExcluded (h : m.SameSetting m') : m'.isExcluded = m.isExcluded := by
  funext c
  rw [Minifier.isExcluded, Minifier.isExcluded, h.exclude, h.usage]

theorem SameSetting.trans {m'' : Minifier} (h : m.SameSetting m') (h' : m'.SameSetting m'') : m.SameSetting m'' :=
  ⟨h'.exclude.trans h.exclude, h'.usage.trans h.usage, h'.alphabet.trans h.alphabet⟩

def MayGet (m : Minifier) (next : Nat) (c n : ClassName) : Prop :=
  m.isExcluded c = true ∧ n = c ∨
    m.isExcluded c = false ∧ m.isExcluded n = false ∧ ∃ i, m.next ≤ i ∧ i < next ∧ n = m.alphabet.name i

theorem Allocated.notMem_names (hm : m.Allocated) (hc : c ∉ m.classMap.keys) {next : Nat} {n : ClassName}
    (hn : m.MayGet next c n) : n ∉ m.classMap.entries.map Prod.snd := by
  intro hmem
  obtain ⟨e, he, rfl⟩ := List.mem_map.1 hmem
  have hkey : e.1 ≠ c := by
    rintro rfl
    exact hc (List.mem_map_of_mem he)
  -- kept names are excluded and given ones are not, so a name can only meet one of its own sort
  cases hx : m.isExcluded e.1 with
  | true =>
    have hsame := hm.kept e he hx
    rcases hn with ⟨-, heq⟩ | ⟨-, hfree, -⟩
    · exact hkey (hsame.symm.trans heq)
    · rw [hsame, hx] at hfree
      exact absurd hfree (by decide)
  | false =>
    obtain ⟨hfree, i, hi, hei⟩ := hm.given e he hx
    rcases hn with ⟨hx', heq⟩ | ⟨-, -, j, hj, -, hej⟩
    · rw [heq, hx'] at hfree
      exact absurd hfree (by decide)
    · have hij := hm.order.name_injective (hei.symm.trans hej)
      omega

theorem Allocated.extend (hm : m.Allocated) (hc : c ∉ m.classMap.keys) {n : ClassName}
    (hn : m.MayGet m'.next c n) (hs : m.SameSetting m') (hnext : m.next ≤ m'.next)
    (hentries : m'.classMap.entries = m.classMap.entries ++ [(c, n)])
    (htaken : ∀ k ∈ m'.classMap.taken, k ∈ m.classMap.taken ∨ k = n ∧ c ≠ n) : m'.Allocated := by
  have hmem {e : ClassName × ClassName} (he : e ∈ m'.classMap.entries) : e ∈ m.classMap.entries ∨ e = (c, n) := by
    rw [hentries] at he
    simpa using he
  have hgrow {k : ClassName} (hk : ∃ i < m.next, k = m.alphabet.name i) : ∃ i < m'.next, k = m'.alphabet.name i := by
    obtain ⟨i, hi, heq⟩ := hk
    exact ⟨i, by omega, by rw [hs.alphabet, heq]⟩
  refine ⟨hs.alphabet ▸ hm.order, ?_, fun e he hx => ?_, fun e he hx => ?_, fun k hk => ?_, ?_⟩
  · rw [ClassMap.keys, hentries, List.map_append]
    exact hm.keys.append (List.nodup_singleton _) (by simpa [ClassMap.keys] using hc)
  · rw [hs.isExcluded] at hx
    rcases hmem he with he | rfl
    · exact hm.kept e he hx
    · rcases hn with ⟨-, heq⟩ | ⟨hx', -, -⟩
      · exact heq
      · rw [hx] at hx'
        exact absurd hx' (by decide)
  · rw [hs.isExcluded] at hx ⊢
    rcases hmem he with he | rfl
    · obtain ⟨hfree, hi⟩ := hm.given e he hx
      exact ⟨hfree, hgrow hi⟩
    · rcases hn with ⟨hx', -⟩ | ⟨-, hfree, i, -, hi, heq⟩
      · rw [hx] at hx'
        exact absurd hx' (by decide)
      · exact ⟨hfree, i, hi, hs.alphabet ▸ heq⟩
  · rcases htaken k hk with hk | ⟨rfl, hne⟩
    · exact hgrow (hm.taken k hk)
    · rcases hn with ⟨-, heq⟩ | ⟨-, -, i, -, hi, heq⟩
      · exact absurd heq.symm hne
      · exact ⟨i, hi, hs.alphabet ▸ heq⟩
  · rw [hentries, List.map_append]
    exact hm.names.append (List.nodup_singleton _) (by simpa using hm.notMem_names hc hn)

theorem Allocated.notMem_taken (hm : m.Allocated) {i : Nat} (hi : m.next ≤ i) :
    m.alphabet.name i ∉ m.classMap.taken := by
  intro hmem
  obtain ⟨j, hj, heq⟩ := hm.taken _ hmem
  have hij := hm.order.name_injective heq
  omega

theorem Allocated.allocate (hm : m.Allocated) (hc : c ∉ m.classMap.keys) (tries : Nat) :
    m.allocate tries c = .error .outOfNames ∨
      ∃ m', m.allocate tries c = .ok m' ∧ m'.Allocated ∧ m.SameSetting m' ∧
        m'.classMap.keys = m.classMap.keys ++ [c] := by
  rw [Minifier.allocate]
  split
  · next hx =>
    obtain ⟨t, ht, hentries, htaken⟩ := ClassMap.assign_fresh (n := c) hc (.inl rfl)
    refine .inr ⟨{ m with classMap := t }, by rw [ht]; rfl, ?_, ⟨rfl, rfl, rfl⟩, ?_⟩
    · exact hm.extend hc (.inl ⟨hx, rfl⟩) ⟨rfl, rfl, rfl⟩ (Nat.le_refl _) hentries htaken
    · simp [ClassMap.keys, hentries]
  · next hx =>
    split
    · exact .inl rfl
    · next name next hnext =>
      obtain ⟨hlt, hname, hfree, -⟩ := Alphabet.nextName?_eq_some hnext
      have hmay : m.MayGet next c name :=
        .inr ⟨by simpa using hx, hfree, next - 1, by omega, by omega, hname⟩
      have hnot : name ∉ m.classMap.taken := hname ▸ hm.notMem_taken (by omega)
      obtain ⟨t, ht, hentries, htaken⟩ := ClassMap.assign_fresh hc (.inr hnot)
      refine .inr ⟨{ m with classMap := t, next }, by rw [ht]; rfl, ?_, ⟨rfl, rfl, rfl⟩, ?_⟩
      · exact hm.extend hc hmay ⟨rfl, rfl, rfl⟩ (Nat.le_of_lt hlt) hentries htaken
      · simp [ClassMap.keys, hentries]

theorem notMem_keys_of_cons {cs : List ClassName} (hkeys : m'.classMap.keys = m.classMap.keys ++ [c]) (hc : c ∉ cs)
    (hfresh : ∀ d ∈ c :: cs, d ∉ m.classMap.keys) : ∀ d ∈ cs, d ∉ m'.classMap.keys := by
  intro d hd hmem
  rw [hkeys] at hmem
  rcases List.mem_append.1 hmem with hmem | hmem
  · exact hfresh d (List.mem_cons_of_mem c hd) hmem
  · exact hc (List.mem_singleton.1 hmem ▸ hd)

theorem Allocated.foldlM_allocate (hm : m.Allocated) {cs : List ClassName} (hcs : cs.Nodup)
    (hfresh : ∀ c ∈ cs, c ∉ m.classMap.keys) (tries : Nat) :
    cs.foldlM (Minifier.allocate tries) m = .error .outOfNames ∨
      ∃ m', cs.foldlM (Minifier.allocate tries) m = .ok m' ∧ m'.Allocated ∧ m.SameSetting m' ∧
        m'.classMap.keys = m.classMap.keys ++ cs := by
  induction cs generalizing m with
  | nil => exact .inr ⟨m, rfl, hm, ⟨rfl, rfl, rfl⟩, (List.append_nil _).symm⟩
  | cons c cs ih =>
    obtain ⟨hc, hcs⟩ := List.nodup_cons.1 hcs
    rw [List.foldlM_cons]
    rcases hm.allocate (hfresh c (by simp)) tries with herr | ⟨m₁, hok, hm₁, hs₁, hkeys₁⟩
    · left
      rw [herr]
      rfl
    · rw [hok]
      rcases ih hm₁ hcs (notMem_keys_of_cons hkeys₁ hc hfresh) with herr | ⟨m₂, hok₂, hm₂, hs₂, hkeys₂⟩
      · exact .inl herr
      · exact .inr ⟨m₂, hok₂, hm₂, hs₁.trans hs₂, by rw [hkeys₂, hkeys₁, List.append_assoc]; rfl⟩

namespace Allocated

variable {n : ClassName}

theorem get?_injective (hm : m.Allocated) {a b : ClassName} (ha : m.classMap.get? a = some n)
    (hb : m.classMap.get? b = some n) : a = b := by
  have heq := List.inj_on_of_nodup_map hm.names (ClassMap.mem_entries_of_get? ha)
    (ClassMap.mem_entries_of_get? hb) rfl
  exact (Prod.mk.inj heq).1

theorem eq_of_excluded (hm : m.Allocated) (h : m.classMap.get? c = some n) (hx : m.isExcluded c = true) : n = c :=
  hm.kept _ (ClassMap.mem_entries_of_get? h) hx

theorem isShortName (hm : m.Allocated) (h : m.classMap.get? c = some n) (hx : m.isExcluded c = false) :
    m.isExcluded n = false ∧ IsShortName n := by
  obtain ⟨hfree, i, -, rfl⟩ := hm.given _ (ClassMap.mem_entries_of_get? h) hx
  exact ⟨hfree, hm.order.isShortName i⟩

end Allocated

theorem allocated_prepared (m : Minifier) (cs : List ClassName) : (m.prepared cs).Allocated where
  order := Alphabet.perm_sort _
  keys := List.nodup_nil
  kept _ he := absurd he List.not_mem_nil
  given _ he := absurd he List.not_mem_nil
  taken _ hn := absurd hn List.not_mem_nil
  names := List.nodup_nil

theorem nodup_eraseDups (cs : List ClassName) : cs.eraseDups.Nodup := by
  induction hn : cs.length using Nat.strongRecOn generalizing cs with
  | ind n ih =>
    subst hn
    cases cs with
    | nil => exact List.nodup_nil
    | cons c cs =>
      rw [List.eraseDups_cons]
      refine List.nodup_cons.2 ⟨by simp [List.mem_eraseDups], ih _ ?_ _ rfl⟩
      exact Nat.lt_succ_of_le (List.length_filter_le _ _)

theorem perm_byUse (m : Minifier) (cs : List ClassName) : (m.byUse cs).Perm cs := List.mergeSort_perm _ _

theorem extract_eq {css : List Char} {cs : List ClassName} (hcs : Stylesheet.classes css = .ok cs) :
    extract tries m css = (m.byUse cs.eraseDups).foldlM (allocate tries) (m.prepared cs) := by
  rw [extract, hcs]
  rfl

theorem extract_of_error {css : List Char} {e : StylesheetError} (h : Stylesheet.classes css = .error e) :
    extract tries m css = .error (.sheet e) := by
  rw [extract, h]
  rfl

theorem extract_steps (tries : Nat) (m : Minifier) {css : List Char} {cs : List ClassName}
    (hcs : Stylesheet.classes css = .ok cs) :
    extract tries m css = .error .outOfNames ∨
      ∃ m', extract tries m css = .ok m' ∧ m'.Allocated ∧ (m.prepared cs).SameSetting m' ∧
        m'.classMap.keys = m.byUse cs.eraseDups := by
  rw [extract_eq hcs]
  exact (allocated_prepared m cs).foldlM_allocate ((perm_byUse m _).nodup_iff.2 (nodup_eraseDups cs))
    (fun c _ => List.not_mem_nil) tries

theorem extract_cases (tries : Nat) (m : Minifier) {css : List Char} {cs : List ClassName}
    (hcs : Stylesheet.classes css = .ok cs) :
    extract tries m css = .error .outOfNames ∨
      ∃ m', extract tries m css = .ok m' ∧ m'.Allocated ∧ m'.isExcluded = m.isExcluded ∧
        ∀ c, c ∈ m'.classMap.keys ↔ c ∈ cs := by
  rcases extract_steps tries m hcs with herr | ⟨m', hok, hm', hs, hkeys⟩
  · exact .inl herr
  · refine .inr ⟨m', hok, hm', hs.isExcluded, fun c => ?_⟩
    rw [hkeys]
    exact (perm_byUse m _).mem_iff.trans List.mem_eraseDups

theorem allocate_of_free (tries : Nat) (c : ClassName) (hfree : m.isExcluded (m.alphabet.name m.next) = false) :
    m.allocate (tries + 1) c ≠ .error .outOfNames ∧
      ∀ m', m.allocate (tries + 1) c = .ok m' → m'.next ≤ m.next + 1 := by
  have hname : m.alphabet.nextName? m.isExcluded (tries + 1) m.next = some (m.alphabet.name m.next, m.next + 1) := by
    simp [Alphabet.nextName?, hfree]
  rw [allocate, hname]
  split
  · cases m.classMap.assign c c with
    | error e => simp [Except.mapError, bind, Except.bind]
    | ok t =>
      refine ⟨by simp [Except.mapError, bind, Except.bind, pure, Except.pure], fun m' h => ?_⟩
      cases h
      exact Nat.le_succ _
  · dsimp only
    cases m.classMap.assign c (m.alphabet.name m.next) with
    | error e => simp [Except.mapError, bind, Except.bind]
    | ok t =>
      refine ⟨by simp [Except.mapError, bind, Except.bind, pure, Except.pure], fun m' h => ?_⟩
      cases h
      exact Nat.le_refl _

theorem Allocated.foldlM_allocate_of_free (hm : m.Allocated) {cs : List ClassName} (hcs : cs.Nodup)
    (hfresh : ∀ c ∈ cs, c ∉ m.classMap.keys)
    (hfree : ∀ i < m.next + cs.length, m.isExcluded (m.alphabet.name i) = false) :
    cs.foldlM (Minifier.allocate (tries + 1)) m ≠ .error .outOfNames := by
  induction cs generalizing m with
  | nil => simp [pure, Except.pure]
  | cons c cs ih =>
    obtain ⟨hc, hcs⟩ := List.nodup_cons.1 hcs
    obtain ⟨hne, hnext⟩ := allocate_of_free tries c (hfree m.next (by simp))
    obtain ⟨m₁, hok, hm₁, hs₁, hkeys₁⟩ := (hm.allocate (hfresh c (by simp)) (tries + 1)).resolve_left hne
    have hle := hnext m₁ hok
    rw [List.foldlM_cons, hok]
    apply ih hm₁ hcs (notMem_keys_of_cons hkeys₁ hc hfresh)
    intro i hi
    rw [hs₁.isExcluded, hs₁.alphabet]
    exact hfree i (by simp only [List.length_cons]; omega)

theorem length_eraseDups_le (cs : List ClassName) : cs.eraseDups.length ≤ cs.length :=
  (nodup_eraseDups cs).length_le_of_subset fun _ hc => List.mem_eraseDups.1 hc

theorem extract_ne_outOfNames {m : Minifier} {css : List Char} {cs : List ClassName} (tries : Nat)
    (hcs : Stylesheet.classes css = .ok cs)
    (hfree : ∀ (a : Alphabet) (i : Nat), a.IsOrder → i < cs.length → m.isExcluded (a.name i) = false) :
    extract (tries + 1) m css ≠ .error .outOfNames := by
  have hm := allocated_prepared m cs
  have hlen : (m.byUse cs.eraseDups).length ≤ cs.length := by
    rw [(perm_byUse m _).length_eq]
    exact length_eraseDups_le cs
  rw [extract_eq hcs]
  apply hm.foldlM_allocate_of_free ((perm_byUse m _).nodup_iff.2 (nodup_eraseDups cs))
    (fun c _ => List.not_mem_nil)
  intro i hi
  have hi' : i < cs.length := by
    simp only [prepared, Nat.zero_add] at hi
    omega
  exact hfree _ i hm.order hi'

theorem extract_injective_names (tries : Nat) (m : Minifier) {css : List Char} {cs : List ClassName}
    (hcs : Stylesheet.classes css = .ok cs) (hnames : extract tries m css ≠ .error .outOfNames) :
    ∃ m', extract tries m css = .ok m' ∧
      m'.classMap.keys.Nodup ∧ (∀ c, c ∈ m'.classMap.keys ↔ c ∈ cs) ∧
      (∀ c ∈ m'.classMap.keys, ∃ n, m'.classMap.get? c = some n) ∧
      (∀ a b n, m'.classMap.get? a = some n → m'.classMap.get? b = some n → a = b) ∧
      (∀ c n, m'.classMap.get? c = some n → m.isExcluded c = true → n = c) ∧
      ∀ c n, m'.classMap.get? c = some n → m.isExcluded c = false → m.isExcluded n = false ∧ IsShortName n := by
  obtain ⟨m', hok, hm', hx, hkeys⟩ := (extract_cases tries m hcs).resolve_left hnames
  refine ⟨m', hok, hm'.keys, hkeys, fun c hc => ClassMap.mem_keys_iff.1 hc,
    fun a b n ha hb => hm'.get?_injective ha hb, ?_, ?_⟩
  · intro c n hc hex
    exact hm'.eq_of_excluded hc (hx ▸ hex)
  · intro c n hc hex
    rw [← hx] at hex ⊢
    exact hm'.isShortName hc hex

theorem extract_injective_names_kept :
    ∃ m', extract 1 { usage := { stems := [Text.ofString "b-"] } } ".b .b-1, .x\x7b\x7d".toList = .ok m' ∧
      (∀ c, c ∈ m'.classMap.keys ↔ c ∈ ["b".toList, "b-1".toList, "x".toList]) ∧
      ∀ a b n, m'.classMap.get? a = some n → m'.classMap.get? b = some n → a = b := by
  have hcs : Stylesheet.classes ".b .b-1, .x\x7b\x7d".toList = .ok ["b".toList, "b-1".toList, "x".toList] :=
    eq_ok_of_toOption (by decide +kernel)
  have hfree : ∀ (a : Alphabet) (i : Nat), a.IsOrder → i < 3 →
      isExcluded { usage := { stems := [Text.ofString "b-"] } } (a.name i) = false := by
    intro a i ha hi
    obtain ⟨c, hc⟩ := ha.name_eq_singleton (i := i) (by omega)
    simp [hc, isExcluded, Usage.isBuilt, Text.ofString, Text.ofChars, List.isPrefixOf]
  obtain ⟨m', hok, -, hkeys, -, hinj, -⟩ := extract_injective_names 1 _ hcs (extract_ne_outOfNames 0 hcs hfree)
  exact ⟨m', hok, hkeys, hinj⟩

end Minifier

end ShortClass
