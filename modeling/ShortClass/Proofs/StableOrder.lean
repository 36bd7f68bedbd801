import Mathlib.Data.List.Nodup
import Mathlib.Order.Lattice

namespace ShortClass

variable {α β : Type}

section Sorted

variable [LinearOrder β] {key : α → β} {le : α → α → Bool} {l : List α} {R : α → α → Prop}

theorem trans_of_key (hle : ∀ a b, le a b = true ↔ key b ≤ key a) (a b c : α) (hab : le a b = true)
    (hbc : le b c = true) : le a c = true := by
  rw [hle] at hab hbc ⊢
  exact le_trans hbc hab

theorem total_of_key (hle : ∀ a b, le a b = true ↔ key b ≤ key a) (a b : α) : (le a b || le b a) = true := by
  rw [Bool.or_eq_true, hle, hle]
  exact le_total (key b) (key a)

theorem filter_mergeSort_key (hle : ∀ a b, le a b = true ↔ key b ≤ key a) (l : List α) (k : β) :
    (l.mergeSort le).filter (fun a => key a = k) = l.filter fun a => key a = k := by
  have hsame : (l.filter fun a => key a = k).Pairwise fun a b => le a b = true := by
    apply List.pairwise_of_forall_mem_list
    intro a ha b hb
    simp only [List.mem_filter, decide_eq_true_eq] at ha hb
    rw [hle, ha.2, hb.2]
  have hsub := (List.sublist_mergeSort (trans_of_key hle) (total_of_key hle) hsame List.filter_sublist).filter
    fun a => key a = k
  have hlength := ((List.mergeSort_perm l le).filter fun a => key a = k).length_eq
  rw [List.filter_filter] at hsub
  simp only [Bool.and_self] at hsub
  exact (hsub.eq_of_length hlength.symm).symm

theorem pairwise_mergeSort_stable (hle : ∀ a b, le a b = true ↔ key b ≤ key a) (h : l.Pairwise R) :
    (l.mergeSort le).Pairwise fun a b => key b < key a ∨ key a = key b ∧ R a b := by
  rw [List.pairwise_iff_forall_sublist]
  intro a b hab
  have hsorted := List.pairwise_mergeSort (trans_of_key hle) (total_of_key hle) l
  have hkey : key b ≤ key a := (hle a b).1 (List.pairwise_iff_forall_sublist.1 hsorted hab)
  by_cases heq : key a = key b
  · right
    refine ⟨heq, ?_⟩
    have hsub := hab.filter fun c => key c = key b
    rw [filter_mergeSort_key hle] at hsub
    simp only [heq, decide_true, List.filter_cons_of_pos, List.filter_nil] at hsub
    exact List.pairwise_iff_forall_sublist.1 h (hsub.trans List.filter_sublist)
  · exact .inl (lt_of_le_of_ne hkey fun h => heq h.symm)

theorem mem_of_filter_key {m : List α} {a : α} (h : ∀ k, l.filter (fun a => key a = k) = m.filter fun a => key a = k)
    (ha : a ∈ l) : a ∈ m := by
  have hfilter : a ∈ l.filter fun b => key b = key a := List.mem_filter.2 ⟨ha, by simp⟩
  rw [h] at hfilter
  exact List.mem_of_mem_filter hfilter

theorem key_le_head {a b : α} (hl : (b :: l).Pairwise fun a b => key b ≤ key a) (ha : a ∈ b :: l) : key a ≤ key b := by
  rcases List.mem_cons.1 ha with rfl | ha
  · exact le_refl _
  · exact (List.pairwise_cons.1 hl).1 a ha

theorem eq_of_filter_key {m : List α} (hl : l.Pairwise fun a b => key b ≤ key a)
    (hm : m.Pairwise fun a b => key b ≤ key a)
    (h : ∀ k, l.filter (fun a => key a = k) = m.filter fun a => key a = k) : l = m := by
  induction l generalizing m with
  | nil =>
    cases m with
    | nil => rfl
    | cons b m => exact absurd (mem_of_filter_key (fun k => (h k).symm) List.mem_cons_self) (by simp)
  | cons a l ih =>
    cases m with
    | nil => exact absurd (mem_of_filter_key h List.mem_cons_self) (by simp)
    | cons b m =>
      have hkey : key a = key b :=
        le_antisymm (key_le_head hm (mem_of_filter_key h List.mem_cons_self))
          (key_le_head hl (mem_of_filter_key (fun k => (h k).symm) List.mem_cons_self))
      have hheads := h (key b)
      rw [List.filter_cons_of_pos (by simpa using hkey), List.filter_cons_of_pos (by simp), List.cons.injEq] at hheads
      obtain ⟨rfl, hsame⟩ := hheads
      have htails : ∀ k, l.filter (fun c => key c = k) = m.filter fun c => key c = k := by
        intro k
        by_cases hk : key a = k
        · rwa [← hk]
        · have hrest := h k
          rwa [List.filter_cons_of_neg (by simpa using hk), List.filter_cons_of_neg (by simpa using hk)] at hrest
      rw [ih (List.pairwise_cons.1 hl).2 (List.pairwise_cons.1 hm).2 htails]

end Sorted

section FirstOccurrence

variable [BEq α] [LawfulBEq α] {l : List α}

theorem pairwise_idxOf (h : l.Nodup) : l.Pairwise fun a b => l.idxOf a < l.idxOf b := by
  rw [List.pairwise_iff_getElem]
  intro i j hi hj hij
  rwa [h.idxOf_getElem, h.idxOf_getElem]

theorem idxOf_lt_of_filter {p : α → Bool} {a b : α} (ha : p a = true) (hb : p b = true)
    (h : (l.filter p).idxOf a < (l.filter p).idxOf b) : l.idxOf a < l.idxOf b := by
  induction l with
  | nil => simp at h
  | cons c l ih =>
    by_cases hc : p c = true
    · rw [List.filter_cons_of_pos hc] at h
      by_cases hca : c = a
      · subst hca
        by_cases hcb : c = b
        · simp [hcb] at h
        · rw [List.idxOf_cons_self, List.idxOf_cons_ne l hcb]
          exact Nat.succ_pos _
      · by_cases hcb : c = b
        · subst hcb
          simp at h
        · rw [List.idxOf_cons_ne _ hca, List.idxOf_cons_ne _ hcb] at h ⊢
          exact Nat.succ_lt_succ (ih (Nat.lt_of_succ_lt_succ h))
    · rw [List.filter_cons_of_neg hc] at h
      have hca : c ≠ a := by
        rintro rfl
        exact hc ha
      have hcb : c ≠ b := by
        rintro rfl
        exact hc hb
      rw [List.idxOf_cons_ne l hca, List.idxOf_cons_ne l hcb]
      exact Nat.succ_lt_succ (ih h)

theorem pairwise_idxOf_eraseDups (l : List α) : l.eraseDups.Pairwise fun a b => l.idxOf a < l.idxOf b := by
  induction hn : l.length using Nat.strongRecOn generalizing l with
  | ind n ih =>
    subst hn
    cases l with
    | nil => exact .nil
    | cons c l =>
      have hmem {a : α} (ha : a ∈ (l.filter fun b => !b == c).eraseDups) : c ≠ a := by
        rintro rfl
        simp [List.mem_eraseDups] at ha
      rw [List.eraseDups_cons, List.pairwise_cons]
      constructor
      · intro a ha
        rw [List.idxOf_cons_self, List.idxOf_cons_ne l (hmem ha)]
        exact Nat.succ_pos _
      · have hrest := ih _ (Nat.lt_succ_of_le (List.length_filter_le (fun b => !b == c) l)) _ rfl
        refine hrest.imp_of_mem fun {a b} ha hb hab => ?_
        have hca := hmem ha
        have hcb := hmem hb
        rw [List.idxOf_cons_ne l hca, List.idxOf_cons_ne l hcb]
        apply Nat.succ_lt_succ
        exact idxOf_lt_of_filter (by simpa using hca.symm) (by simpa using hcb.symm) hab

end FirstOccurrence

end ShortClass
