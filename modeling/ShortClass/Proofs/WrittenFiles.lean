import Mathlib.Data.List.Basic
import Mathlib.Data.List.Induction
import ShortClass.CommandLine

namespace ShortClass

namespace Path

def step (p : Path) (part : List Char) : Path := if part = ['.', '.'] then p.parent else p ++ [part]

/-- Where a path leads if every directory on its way is there. -/
def place (p : Path) : Path := p.foldl step []

theorem foldl_step_of_names {r : Path} (h : ∀ part ∈ r, part ≠ ['.', '.']) (p : Path) :
    r.foldl step p = p ++ r := by
  induction r generalizing p with
  | nil => simp
  | cons part rest ih =>
    rw [List.foldl_cons, step, if_neg (h part List.mem_cons_self), ih fun x hx => h x (List.mem_cons_of_mem part hx)]
    simp

theorem place_append_of_names {r : Path} (h : ∀ part ∈ r, part ≠ ['.', '.']) (p : Path) :
    (p ++ r).place = p.place ++ r := by
  rw [place, List.foldl_append, foldl_step_of_names h, place]

theorem name_concat_ne_dots {last : List Char} (front : Path) (h : last ≠ ['.', '.']) :
    name (front ++ [last]) ≠ ['.', '.'] := by
  by_cases hroot : isRoot last = true <;> simp [name, hroot, h]

theorem parent_cases (p : Path) : (p.parent = p ∧ p.name = []) ∨ ∃ last, p = p.parent ++ [last] := by
  rcases List.eq_nil_or_concat' p with rfl | ⟨front, last, rfl⟩
  · exact .inl ⟨rfl, rfl⟩
  · cases front with
    | nil =>
      by_cases hroot : isRoot last = true
      · exact .inl ⟨by simp [parent, hroot], by simp [name, hroot]⟩
      · exact .inr ⟨last, by simp [parent, hroot]⟩
    | cons first rest =>
      have hparent : parent (first :: rest ++ [last]) = first :: rest := by
        unfold parent
        split
        · next heq => simp at heq
        · exact List.dropLast_concat
      exact .inr ⟨last, by rw [hparent]⟩

theorem parent_above (p : Path) : p.parent <+: p := by
  rcases p.parent_cases with ⟨hself, -⟩ | ⟨last, hlast⟩
  · exact ⟨[], by rw [hself, List.append_nil]⟩
  · exact ⟨[last], hlast.symm⟩

end Path

namespace FileTree

variable {t u v : FileTree} {p q r : Path} {cs : List Char}

section Directories

theorem isDirectory_iff : t.isDirectory p = true ↔
    p = [] ∨ (∃ d ∈ t.directories, p <+: d) ∨ ∃ f ∈ t.files, p <+: f.1 ∧ f.1 ≠ p := by
  simp [isDirectory, or_assoc]

theorem isDirectory_above (h : q <+: p) (hp : t.isDirectory p = true) : t.isDirectory q = true := by
  rw [isDirectory_iff] at hp ⊢
  rcases hp with rfl | ⟨d, hd, hpd⟩ | ⟨f, hf, hpf, hne⟩
  · exact .inl (List.prefix_nil.1 h)
  · exact .inr (.inl ⟨d, hd, h.trans hpd⟩)
  · refine .inr (.inr ⟨f, hf, h.trans hpf, ?_⟩)
    rintro rfl
    exact hne (h.eq_of_length (Nat.le_antisymm h.length_le hpf.length_le))

def KeepsDirectories (t u : FileTree) : Prop := ∀ p, t.isDirectory p = true → u.isDirectory p = true

theorem KeepsDirectories.refl (t : FileTree) : t.KeepsDirectories t := fun _ h => h

theorem KeepsDirectories.trans (h : t.KeepsDirectories u) (h' : u.KeepsDirectories v) : t.KeepsDirectories v :=
  fun p hp => h' p (h p hp)

theorem keepsDirectories_addDirectory (t : FileTree) (d : Path) :
    t.KeepsDirectories { t with directories := d :: t.directories } := by
  intro p hp
  rw [isDirectory_iff] at hp ⊢
  rcases hp with h | ⟨x, hx, hpx⟩ | h
  · exact .inl h
  · exact .inr (.inl ⟨x, List.mem_cons_of_mem d hx, hpx⟩)
  · exact .inr (.inr h)

theorem keepsDirectories_putFile (t : FileTree) (q : Path) (cs : List Char) : t.KeepsDirectories (t.putFile q cs) := by
  intro p hp
  rw [isDirectory_iff] at hp ⊢
  rcases hp with h | h | ⟨f, hf, hpf, hne⟩
  · exact .inl h
  · exact .inr (.inl h)
  · refine .inr (.inr ?_)
    -- the file that is replaced is there again, so what lies above it stays a directory
    by_cases hq : f.1 = q
    · exact ⟨(q, .text cs), List.mem_cons_self, hq ▸ hpf, hq ▸ hne⟩
    · exact ⟨f, List.mem_cons_of_mem _ (List.mem_filter.2 ⟨hf, by simpa using hq⟩), hpf, hne⟩

end Directories

section Ways

theorem follow?_append (t : FileTree) (p r r' : Path) :
    t.follow? p (r ++ r') = (t.follow? p r).bind fun q => t.follow? q r' := by
  fun_induction follow? t p r with
  | case1 p => rfl
  | case2 p rest hdir ih => simp [follow?, hdir, ih]
  | case3 p rest hdir => simp [follow?, hdir]
  | case4 p part rest hdots ih => simp [follow?, hdots, ih]

theorem eq_foldl_of_follow? (h : t.follow? p r = some q) : q = r.foldl Path.step p := by
  fun_induction follow? t p r <;> simp_all [Path.step]

theorem eq_place_of_resolve? (h : t.resolve? p = some q) : q = p.place := eq_foldl_of_follow? h

theorem KeepsDirectories.follow? (h : t.KeepsDirectories u) (hq : t.follow? p r = some q) : u.follow? p r = some q := by
  fun_induction FileTree.follow? t p r with
  | case1 p => exact hq
  | case2 p rest hdir ih =>
    simp only [Bool.and_eq_true] at hdir
    simp only [FileTree.follow?, if_true, h p hdir.1, hdir.2, Bool.and_self]
    exact ih hq
  | case3 => cases hq
  | case4 p part rest hdots ih =>
    simp only [FileTree.follow?, hdots, if_false]
    exact ih hq

theorem KeepsDirectories.resolve? (h : t.KeepsDirectories u) (hq : t.resolve? p = some q) : u.resolve? p = some q :=
  h.follow? hq

theorem makeDirectories_leads (h : t.makeDirectories p r = .ok (u, q)) (hp : t.isDirectory p = true) :
    t.KeepsDirectories u ∧ u.isDirectory q = true ∧ u.follow? p r = some q := by
  induction r generalizing t p with
  | nil =>
    simp only [makeDirectories, Except.ok.injEq, Prod.mk.injEq] at h
    obtain ⟨rfl, rfl⟩ := h
    exact ⟨.refl t, hp, rfl⟩
  | cons part rest ih =>
    unfold makeDirectories at h
    split at h
    · next hdots =>
      split at h
      · cases h
      · next hne =>
        obtain ⟨hkeep, hq, hfollow⟩ := ih h (isDirectory_above p.parent_above hp)
        exact ⟨hkeep, hq, by simp [follow?, hdots, hkeep p hp, hne, hfollow]⟩
    · next hdots =>
      dsimp only at h
      have hgo (hfollow : u.follow? (p ++ [part]) rest = some q) : u.follow? p (part :: rest) = some q := by
        simp only [follow?, hdots, if_false, hfollow]
      split at h
      · cases h
      · split at h
        · next hdir =>
          obtain ⟨hkeep, hq, hfollow⟩ := ih h hdir
          exact ⟨hkeep, hq, hgo hfollow⟩
        · have hmade : isDirectory { t with directories := (p ++ [part]) :: t.directories } (p ++ [part]) = true :=
            isDirectory_iff.2 (.inr (.inl ⟨_, List.mem_cons_self, List.prefix_rfl⟩))
          obtain ⟨hkeep, hq, hfollow⟩ := ih h hmade
          exact ⟨(keepsDirectories_addDirectory t _).trans hkeep, hq, hgo hfollow⟩

theorem get?_makeDirectories (h : t.makeDirectories p r = .ok (u, q)) (x : Path) : u.get? x = t.get? x := by
  rw [get?, get?, files_makeDirectories h]

end Ways

section Writes

theorem exists_last_of_writeText (h : t.writeText p cs = (u, none)) :
    ∃ last, p = p.parent ++ [last] ∧ last ≠ ['.', '.'] := by
  unfold writeText at h
  split at h
  · cases h
  · next w above hmade =>
    obtain ⟨-, habove, -⟩ := makeDirectories_leads hmade (by simp [isDirectory])
    rcases p.parent_cases with ⟨hparent, hname⟩ | ⟨last, hp⟩
    · simp [hparent, hname, habove] at h
    · refine ⟨last, hp, ?_⟩
      rintro rfl
      have hname : p.name = ['.', '.'] := by
        rw [hp]
        simp [Path.name, Path.isRoot]
      have hup : w.isDirectory above.dropLast = true := isDirectory_above above.dropLast_prefix habove
      simp [hname, hup] at h

theorem writeText_leads (h : t.writeText p cs = (u, none)) :
    t.KeepsDirectories u ∧ u.resolve? p = some p.place ∧
      ∀ q, u.get? q = if q = p.place then some (.text cs) else t.get? q := by
  obtain ⟨last, hp, hlast⟩ := exists_last_of_writeText h
  unfold writeText at h
  split at h
  · cases h
  · next w above hmade =>
    obtain ⟨hkeep, -, hfollow⟩ := makeDirectories_leads hmade (by simp [isDirectory])
    have hresolve : w.resolve? p = some (above ++ [last]) := by
      rw [hp, resolve?, follow?_append, hfollow]
      simp [follow?, hlast]
    have hname : p.name ≠ ['.', '.'] := by
      rw [hp]
      exact Path.name_concat_ne_dots _ hlast
    have hdrop : p.drop p.parent.length = [last] := (congrArg (List.drop p.parent.length) hp).trans List.drop_left
    simp only [hname, if_false, hdrop] at h
    split at h
    · cases h
    · obtain ⟨rfl, -⟩ := Prod.mk.inj h
      have hput := keepsDirectories_putFile w (above ++ [last]) cs
      rw [← eq_place_of_resolve? hresolve]
      refine ⟨hkeep.trans hput, hput.resolve? hresolve, fun q => ?_⟩
      rw [get?_putFile, get?_makeDirectories hmade]

end Writes

end FileTree

namespace CommandLine

variable {t u : FileTree} {w : Path × List Char} {ws ws' : List (Path × List Char)}

theorem writeAll_append (h : writeAll t (ws ++ ws') = (u, none)) :
    ∃ v, writeAll t ws = (v, none) ∧ writeAll v ws' = (u, none) := by
  induction ws generalizing t with
  | nil => exact ⟨t, rfl, h⟩
  | cons w ws ih =>
    simp only [List.cons_append, writeAll] at h ⊢
    split at h
    · cases h
    · exact ih h

theorem writeAll_concat (h : writeAll t (ws ++ [w]) = (u, none)) :
    ∃ v, writeAll t ws = (v, none) ∧ v.writeText w.1 w.2 = (u, none) := by
  obtain ⟨v, hv, hw⟩ := writeAll_append h
  refine ⟨v, hv, ?_⟩
  simp only [writeAll] at hw
  split at hw
  · cases hw
  · next v' hwrite =>
    obtain ⟨rfl, -⟩ := Prod.mk.inj hw
    exact hwrite

theorem resolve?_writeAll (h : writeAll t ws = (u, none)) (hw : w ∈ ws) : u.resolve? w.1 = some w.1.place := by
  induction ws using List.reverseRecOn generalizing u with
  | nil => cases hw
  | append_singleton ws w' ih =>
    obtain ⟨v, hv, hlast⟩ := writeAll_concat h
    obtain ⟨hkeep, hresolve, -⟩ := FileTree.writeText_leads hlast
    rcases List.mem_append.1 hw with hw | hw
    · exact hkeep.resolve? (ih hv hw)
    · rw [List.mem_singleton.1 hw, hresolve]

theorem get?_writeAll (h : writeAll t ws = (u, none)) (hw : w ∈ ws)
    (hsame : ∀ w' ∈ ws, w'.1.place = w.1.place → w'.2 = w.2) : u.get? w.1.place = some (.text w.2) := by
  induction ws using List.reverseRecOn generalizing u with
  | nil => cases hw
  | append_singleton ws w' ih =>
    obtain ⟨v, hv, hlast⟩ := writeAll_concat h
    rw [(FileTree.writeText_leads hlast).2.2]
    split
    · next hplace => rw [hsame w' (by simp) hplace.symm]
    · next hplace =>
      rcases List.mem_append.1 hw with hw | hw
      · exact ih hv hw fun x hx => hsame x (List.mem_append_left _ hx)
      · exact absurd (by rw [List.mem_singleton.1 hw]) hplace

end CommandLine

end ShortClass
