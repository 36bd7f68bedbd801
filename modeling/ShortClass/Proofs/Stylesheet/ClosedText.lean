import ShortClass.Proofs.Stylesheet.MarkedText

namespace ShortClass.Stylesheet

inductive Closed : List Char → Prop where
  | nil : Closed []
  | char {c : Char} {t : List Char} : c ≠ '\\' → Closed t → Closed (c :: t)
  | pair {c : Char} {t : List Char} : Closed t → Closed ('\\' :: c :: t)

namespace Closed

theorem append {s t : List Char} (hs : Closed s) (ht : Closed t) : Closed (s ++ t) := by
  induction hs with
  | nil => exact ht
  | char hc _ ih => exact .char hc ih
  | pair _ ih => exact .pair ih

theorem tail {c : Char} {t : List Char} (h : Closed (c :: t)) (hc : c ≠ '\\') : Closed t := by
  cases h with
  | char _ h => exact h
  | pair _ => exact absurd rfl hc

theorem tail_pair {c : Char} {t : List Char} (h : Closed ('\\' :: c :: t)) : Closed t := by
  cases h with
  | char hc _ => exact absurd rfl hc
  | pair h => exact h

theorem of_append {s t : List Char} (hs : Closed s) (ht : Closed (s ++ t)) : Closed t := by
  induction hs with
  | nil => exact ht
  | char hc _ ih => exact ih (ht.tail hc)
  | pair _ ih => exact ih ht.tail_pair

theorem of_passed {t : List Char} (ht : Passed t) : Closed t := by
  induction ht with
  | nil => exact .nil
  | char hc _ ih => exact .char (by rintro rfl; simp [isPlain] at hc) ih
  | pair _ ih => exact .pair ih

theorem of_getLast? {t : List Char} (ht : t.getLast? ≠ some '\\') : Closed t := by
  induction hn : t.length using Nat.strongRecOn generalizing t with
  | ind n ih =>
    subst hn
    match t with
    | [] => exact .nil
    | [c] => exact .char (by simpa using ht) .nil
    | c :: d :: t =>
      by_cases hc : c = '\\'
      · subst hc
        refine .pair (ih t.length (by simp only [List.length_cons]; omega) ?_ rfl)
        cases t with
        | nil => simp
        | cons e t => simpa using ht
      · exact .char hc (ih (d :: t).length (by simp) (by simpa using ht) rfl)

end Closed

def atoms : List Char → List Mark
  | [] => []
  | ['\\'] => [.char '\\']
  | '\\' :: c :: t => .pair c :: atoms t
  | c :: t => .char c :: atoms t

@[simp] theorem spell_atoms (σ : List Char → List Char) (t : List Char) : spell σ (atoms t) = t := by
  fun_induction atoms t with
  | case1 => rfl
  | case2 => rfl
  | case3 c t ih => simp [Mark.spell, ih]
  | case4 c t _ _ ih => simp [Mark.spell, ih]

theorem atoms_cons {c : Char} (hc : c ≠ '\\') (t : List Char) : atoms (c :: t) = .char c :: atoms t := by
  rw [atoms]
  · intro h; exact absurd h hc
  · intro d u h; exact absurd h hc

theorem Closed.aligned_atoms {t : List Char} (ht : Closed t) (σ : List Char → List Char) :
    Aligned σ (atoms t) := by
  induction ht with
  | nil => simp [Aligned, atoms]
  | @char c t hc _ ih =>
    rw [atoms_cons hc]
    simpa [Aligned, Mark.Sound, hc] using ih
  | pair _ ih => simpa [Aligned, atoms, Mark.Sound] using ih

theorem Aligned.closed {σ : List Char → List Char} {ms : List Mark} (hσ : Aligned σ ms) : Closed (spell σ ms) := by
  induction ms with
  | nil => exact .nil
  | cons m ms ih =>
    have hm := hσ.head
    have hms := ih hσ.tail
    rw [spell_cons]
    cases m with
    | char c => exact .char hm hms
    | pair c => exact .pair hms
    | name w => exact (Closed.of_passed hm.1).append hms

theorem IsTail.le_and_closed {r : List Char → Option Nat} {closes refuses opens : Char → Bool}
    (hr : IsTail r closes refuses opens)
    (ho : ∀ q, opens q = true → ∀ t n, stringTail q t = some n → n ≤ t.length ∧ Closed (t.take n))
    {t : List Char} {n : Nat} (h : r t = some n) : n ≤ t.length ∧ Closed (t.take n) := by
  induction hl : t.length using Nat.strongRecOn generalizing t n with
  | ind l ih =>
    subst hl
    match t with
    | [] => simp [hr.nil] at h
    | c :: t =>
      by_cases hc : c = '\\'
      · subst hc
        match t with
        | [] => simp [hr.lone] at h
        | d :: t =>
          rw [hr.pair] at h
          obtain ⟨m, hm, rfl⟩ := Option.map_eq_some_iff.1 h
          obtain ⟨hle, hcl⟩ := ih t.length (by simp only [List.length_cons]; omega) hm rfl
          exact ⟨by simpa using hle, .pair hcl⟩
      · rw [hr.char c t hc] at h
        split at h
        · cases h
          exact ⟨by simp, .char hc .nil⟩
        split at h
        · simp at h
        split at h
        · next hq =>
          obtain ⟨k, hk, h⟩ := Option.bind_eq_some_iff.1 h
          obtain ⟨m, hm, rfl⟩ := Option.map_eq_some_iff.1 h
          obtain ⟨hkle, hs⟩ := ho c hq t k hk
          obtain ⟨hmle, hd⟩ := ih (t.drop k).length (by rw [List.length_drop, List.length_cons]; omega) hm rfl
          rw [List.length_drop] at hmle
          rw [List.take_succ_cons, Nat.add_comm m k, List.take_add]
          exact ⟨by simp only [List.length_cons]; omega, .char hc (hs.append hd)⟩
        · obtain ⟨m, hm, rfl⟩ := Option.map_eq_some_iff.1 h
          obtain ⟨hle, hcl⟩ := ih t.length (by simp) hm rfl
          exact ⟨by simpa using hle, .char hc hcl⟩

theorem closed_stringTail {q : Char} (hq : isPlain q = false) {t : List Char} {n : Nat}
    (h : stringTail q t = some n) : n ≤ t.length ∧ Closed (t.take n) :=
  (isTail_stringTail hq).le_and_closed (by simp) h

theorem closed_groupTail {t : List Char} {n : Nat} (h : groupTail t = some n) :
    n ≤ t.length ∧ Closed (t.take n) :=
  isTail_groupTail.le_and_closed (fun _ hq _ _ hs => closed_stringTail (not_isPlain_of_isQuote hq) hs) h

theorem closed_attributeTail {t : List Char} {n : Nat} (h : attributeTail t = some n) :
    n ≤ t.length ∧ Closed (t.take n) :=
  isTail_attributeTail.le_and_closed (fun _ hq _ _ hs => closed_stringTail (not_isPlain_of_isQuote hq) hs) h

theorem closed_preludePiece {c : Char} {t : List Char} {n : Nat} (h : preludePiece c t = some n) :
    n ≤ t.length ∧ Closed (c :: t.take n) := by
  rw [preludePiece] at h
  split at h
  · next hc =>
    subst hc
    cases h
    cases hg : groupTail t with
    | none => exact ⟨Nat.zero_le _, .char (by decide) .nil⟩
    | some m =>
      obtain ⟨hle, hcl⟩ := closed_groupTail hg
      exact ⟨hle, .char (by decide) hcl⟩
  split at h
  · next hq =>
    have hne : c ≠ '\\' := by rintro rfl; simp [isQuote] at hq
    obtain ⟨hle, hcl⟩ := closed_stringTail (not_isPlain_of_isQuote hq) h
    exact ⟨hle, .char hne hcl⟩
  split at h
  · next hc =>
    subst hc
    split at h
    · simp at h
    · next ht =>
      cases h
      obtain ⟨d, u, rfl⟩ := List.exists_cons_of_ne_nil (by simpa using ht)
      exact ⟨by simp, .pair .nil⟩
  · next hc =>
    have hn : n = 0 := by
      split at h
      · split at h
        · simp at h
        · simpa using h.symm
      · split at h
        · simp at h
        · simpa using h.symm
    subst hn
    exact ⟨Nat.zero_le _, .char hc .nil⟩

theorem closed_preludeRun (s : List Char) : preludeRun s ≤ s.length ∧ Closed (s.take (preludeRun s)) := by
  fun_induction preludeRun s with
  | case1 => exact ⟨Nat.le_refl _, .nil⟩
  | case2 c t n h ih =>
    obtain ⟨hle, hp⟩ := closed_preludePiece h
    obtain ⟨hrle, hr⟩ := ih
    rw [List.length_drop] at hrle
    rw [Nat.add_right_comm, List.take_succ_cons, List.take_add, ← List.cons_append]
    exact ⟨by simp only [List.length_cons]; omega, hp.append hr⟩
  | case3 c t h => exact ⟨Nat.zero_le _, .nil⟩

end ShortClass.Stylesheet
