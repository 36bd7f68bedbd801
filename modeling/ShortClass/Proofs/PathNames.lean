import Mathlib.Data.List.SplitBy
import ShortClass.Artifact

namespace ShortClass

namespace Path

structure IsName (part : List Char) : Prop where
  ne_nil : part ≠ []
  noSlash : '/' ∉ part
  ne_dot : part ≠ ['.']
  ne_dots : part ≠ ['.', '.']

instance (part : List Char) : Decidable (IsName part) :=
  decidable_of_iff (part ≠ [] ∧ '/' ∉ part ∧ part ≠ ['.'] ∧ part ≠ ['.', '.'])
    ⟨fun h => ⟨h.1, h.2.1, h.2.2.1, h.2.2.2⟩, fun h => ⟨h.ne_nil, h.noSlash, h.ne_dot, h.ne_dots⟩⟩

def Named (p : Path) : Prop := ∀ part ∈ p, IsName part

instance (p : Path) : Decidable p.Named := inferInstanceAs (Decidable (∀ part ∈ p, IsName part))

def unrooted (p : Path) : Path := if p.isAbsolute then p.tail else p

variable {p : Path} {part s : List Char}

theorem mem_unrooted_of_mem_tail (h : part ∈ p.tail) : part ∈ p.unrooted := by
  unfold unrooted
  split
  · exact h
  · exact List.mem_of_mem_tail h

theorem IsName.not_isRoot (h : IsName part) : isRoot part = false := by
  cases part with
  | nil => rfl
  | cons c cs =>
    have hc : '/' ≠ c := fun heq => h.noSlash (heq ▸ List.mem_cons_self)
    simpa [isRoot] using hc.symm

theorem Named.not_isAbsolute (h : p.Named) : p.isAbsolute = false := by
  cases p with
  | nil => rfl
  | cons part rest => simp [isAbsolute, (h part List.mem_cons_self).not_isRoot]

theorem toChars_singleton (h : IsName part) : toChars [part] = part := by
  simp [toChars, joinParts, h.not_isRoot]

section Slashes

def sameSide (a b : Char) : Bool := a != '/' && b != '/'

theorem splitBy_sameSide_append (s s' : List Char) :
    (s ++ '/' :: s').splitBy sameSide = s.splitBy sameSide ++ ['/'] :: s'.splitBy sameSide := by
  rw [List.splitBy_append_cons s' (by simp [sameSide])]
  have htail : (['/'] ++ s').splitBy sameSide = ['/'].splitBy sameSide ++ s'.splitBy sameSide :=
    List.splitBy_append (by simp [sameSide])
  rw [show '/' :: s' = ['/'] ++ s' from rfl, htail]
  rfl

theorem splitBy_sameSide_of_name (h : IsName part) : part.splitBy sameSide = [part] := by
  have hpair : part.Pairwise fun a b => sameSide a b = true := by
    refine List.pairwise_of_forall_mem_list fun a ha b hb => ?_
    simp only [sameSide, Bool.and_eq_true, bne_iff_ne]
    exact ⟨fun heq => h.noSlash (heq ▸ ha), fun heq => h.noSlash (heq ▸ hb)⟩
  exact List.splitBy_of_isChain h.ne_nil hpair.isChain

theorem noSlash_of_mem_splitBy (h : part ∈ s.splitBy sameSide) (hne : part ≠ ['/']) : '/' ∉ part := by
  intro hmem
  have hchain := List.isChain_of_mem_splitBy h
  obtain ⟨before, after, rfl⟩ := List.append_of_mem hmem
  -- a slash is on no side, so it is alone in its part
  cases after with
  | cons c after => simp [List.isChain_append, sameSide] at hchain
  | nil =>
    rcases List.eq_nil_or_concat before with rfl | ⟨before, c, rfl⟩
    · exact hne rfl
    · simp [List.isChain_append, sameSide] at hchain

end Slashes

section Texts

theorem filter_splitBy_joinParts (h : p.Named) :
    ((joinParts p).splitBy sameSide).filter (fun part => part != ['/'] && part != ['.']) = p := by
  have hkeeps (part : List Char) (hpart : IsName part) :
      (part.splitBy sameSide).filter (fun part => part != ['/'] && part != ['.']) = [part] := by
    have hslash : part ≠ ['/'] := fun heq => hpart.noSlash (heq ▸ List.mem_cons_self)
    simp [splitBy_sameSide_of_name hpart, hslash, hpart.ne_dot]
  fun_induction joinParts p with
  | case1 => rfl
  | case2 part => exact hkeeps part (h part List.mem_cons_self)
  | case3 part rest hrest ih =>
    obtain ⟨hpart, hnames⟩ := List.forall_mem_cons.1 h
    rw [splitBy_sameSide_append, List.filter_append, hkeeps part hpart, List.filter_cons_of_neg (by simp), ih hnames]
    rfl

theorem head?_joinParts (h : IsName part) (rest : Path) : (joinParts (part :: rest)).head? = part.head? := by
  cases rest with
  | nil => rfl
  | cons q rest => simp [joinParts, List.head?_append_of_ne_nil _ h.ne_nil]

theorem root_eq_nil (h : isRoot s = false) : root s = [] := by
  cases s with
  | nil => rfl
  | cons c cs =>
    have hc : c ≠ '/' := by simpa [isRoot] using h
    simp [root, hc]

theorem ofChars_toChars (h : p.Named) : ofChars p.toChars = p := by
  cases p with
  | nil => rfl
  | cons part rest =>
    have hpart := h part List.mem_cons_self
    have hroot : isRoot (joinParts (part :: rest)) = false := by
      rw [isRoot, head?_joinParts hpart]
      exact hpart.not_isRoot
    rw [toChars, if_neg (by simp [hpart.not_isRoot]), ofChars, root_eq_nil hroot, List.nil_append]
    exact filter_splitBy_joinParts h

theorem isRoot_of_mem_root (h : part ∈ root s) : isRoot part = true := by
  unfold root at h
  split at h
  · cases h
  all_goals
    rw [List.mem_singleton.1 h]
    rfl

theorem isName_of_mem_ofChars (h : part ∈ ofChars s) : isRoot part = true ∨ part = ['.', '.'] ∨ IsName part := by
  rcases List.mem_append.1 h with hroot | hpart
  · exact .inl (isRoot_of_mem_root hroot)
  · simp only [List.mem_filter, Bool.and_eq_true, bne_iff_ne] at hpart
    obtain ⟨hsplit, hslash, hdot⟩ := hpart
    by_cases hdots : part = ['.', '.']
    · exact .inr (.inl hdots)
    · exact .inr (.inr ⟨List.ne_nil_of_mem_splitBy hsplit, noSlash_of_mem_splitBy hsplit hslash, hdot, hdots⟩)

end Texts

section Kinds

theorem name_append {r : Path} (hr : r ≠ []) (p : Path) : name (p ++ r) = name r := by
  rw [name, name, List.getLast?_append_of_ne_nil _ hr]

theorem extension_append {r : Path} (hr : r ≠ []) (p : Path) : extension (p ++ r) = extension r := by
  rw [extension, extension, name_append hr]

theorem kind_append {r : Path} (hr : r ≠ []) (p : Path) : Artifact.Kind.ofPath (p ++ r) = Artifact.Kind.ofPath r := by
  rw [Artifact.Kind.ofPath, Artifact.Kind.ofPath, extension_append hr]

theorem exists_name_of_kind (h : Artifact.Kind.ofPath (ofChars (ofChars s).name) ≠ .other) :
    ∃ base part, ofChars s = base ++ [part] ∧ IsName part ∧ (ofChars s).name = part := by
  rcases List.eq_nil_or_concat' (ofChars s) with hnil | ⟨base, part, hconcat⟩
  · rw [hnil] at h
    exact absurd rfl h
  · have hname : (ofChars s).name = if isRoot part then [] else part := by simp [hconcat, name]
    have hmem : part ∈ ofChars s := by simp [hconcat]
    rcases isName_of_mem_ofChars hmem with hroot | rfl | hpart
    · rw [hname, if_pos hroot] at h
      exact absurd rfl h
    · rw [hname] at h
      exact absurd rfl h
    · exact ⟨base, part, hconcat, hpart, by simp [hname, hpart.not_isRoot]⟩

end Kinds

end Path

end ShortClass
