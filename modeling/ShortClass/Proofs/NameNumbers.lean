import Mathlib.Data.List.GetD
import Mathlib.Data.List.Nodup
import ShortClass.Proofs.ShortName

namespace ShortClass.Alphabet

section Digits

variable {cs : List Char}

theorem getD_mod_mem (h : cs ≠ []) (n : Nat) (d : Char) : cs.getD (n % cs.length) d ∈ cs := by
  have hlt : n % cs.length < cs.length := Nat.mod_lt _ (List.length_pos_of_ne_nil h)
  rw [List.getD_eq_getElem _ _ hlt]
  exact List.getElem_mem hlt

theorem mod_eq_of_getD_eq (hn : cs.Nodup) (h : cs ≠ []) {m n : Nat} {d : Char}
    (heq : cs.getD (m % cs.length) d = cs.getD (n % cs.length) d) : m % cs.length = n % cs.length := by
  have hpos := List.length_pos_of_ne_nil h
  have hm := Nat.mod_lt m hpos
  have hn' := Nat.mod_lt n hpos
  rw [List.getD_eq_getElem _ _ hm, List.getD_eq_getElem _ _ hn'] at heq
  exact (hn.getElem_inj_iff).1 heq

theorem eq_of_digits {m n k : Nat} (hmod : m % k = n % k) (hdiv : m / k = n / k) : m = n := by
  rw [← Nat.div_add_mod m k, ← Nat.div_add_mod n k, hmod, hdiv]

theorem following_zero (cs : List Char) : following cs 0 = [] := by rw [following]

theorem following_succ (cs : List Char) (n : Nat) :
    following cs (n + 1) = cs.getD (n % cs.length) '_' :: following cs (n / cs.length) := by rw [following]

theorem mem_of_mem_following (h : cs ≠ []) {n : Nat} {c : Char} (hc : c ∈ following cs n) : c ∈ cs := by
  fun_induction following cs n with
  | case1 => simp at hc
  | case2 n ih =>
    rcases List.mem_cons.1 hc with rfl | hc
    · exact getD_mod_mem h n '_'
    · exact ih hc

theorem following_injective (hn : cs.Nodup) (h : cs ≠ []) : Function.Injective (following cs) := by
  intro m n heq
  induction m using Nat.strongRecOn generalizing n with
  | ind m ih =>
    cases m with
    | zero =>
      cases n with
      | zero => rfl
      | succ n => simp [following_zero, following_succ] at heq
    | succ m =>
      cases n with
      | zero => simp [following_zero, following_succ] at heq
      | succ n =>
        rw [following_succ, following_succ] at heq
        obtain ⟨hd, hrest⟩ := List.cons.inj heq
        have hdiv := ih (m / cs.length) (Nat.lt_succ_of_le (Nat.div_le_self _ _)) hrest
        rw [eq_of_digits (mod_eq_of_getD_eq hn h hd) hdiv]

end Digits

theorem nodup_baseLeading : baseLeading.Nodup := by decide +kernel

theorem nodup_base : base.Nodup := by decide +kernel

def IsOrder (a : Alphabet) : Prop := a.leading.Perm baseLeading ∧ a.all.Perm base

namespace IsOrder

variable {a : Alphabet}

theorem leading_ne_nil (h : a.IsOrder) : a.leading ≠ [] := by
  intro hnil
  have hlen := h.1.length_eq
  rw [hnil] at hlen
  exact absurd hlen (by decide)

theorem all_ne_nil (h : a.IsOrder) : a.all ≠ [] := by
  intro hnil
  have hlen := h.2.length_eq
  rw [hnil] at hlen
  exact absurd hlen (by decide)

theorem nodup_leading (h : a.IsOrder) : a.leading.Nodup := h.1.nodup_iff.2 nodup_baseLeading

theorem nodup_all (h : a.IsOrder) : a.all.Nodup := h.2.nodup_iff.2 nodup_base

theorem name_injective (h : a.IsOrder) : Function.Injective a.name := by
  intro i j heq
  obtain ⟨hd, hrest⟩ := List.cons.inj heq
  exact eq_of_digits (mod_eq_of_getD_eq h.nodup_leading h.leading_ne_nil hd)
    (following_injective h.nodup_all h.all_ne_nil hrest)

theorem isShortName (h : a.IsOrder) (i : Nat) : IsShortName (a.name i) :=
  ⟨h.1.mem_iff.1 (getD_mod_mem h.leading_ne_nil i '_'),
    fun _ hd => h.2.mem_iff.1 (mem_of_mem_following h.all_ne_nil hd)⟩

theorem name_eq_singleton (h : a.IsOrder) {i : Nat} (hi : i < 53) : ∃ c, a.name i = [c] := by
  have hlen : a.leading.length = 53 := h.1.length_eq
  rw [name, hlen, Nat.div_eq_of_lt hi, following_zero]
  exact ⟨_, rfl⟩

end IsOrder

end ShortClass.Alphabet
