import Mathlib.Data.List.Basic
import ShortClass.Stylesheet

/-!
Stylesheet text with its class names marked, so that one and the same text can be written with other
names.

Three readers go over a sheet: the one that cuts it into tokens, the one that looks ahead for the end
of a string or of a group, and the one that scans selectors. They agree on one thing only: a backslash
is taken together with the character after it. A marked text is cut at exactly these places, and none
of the readers stops inside a name. So whatever a reader takes of a marked text is a number of marks
that does not depend on how the names are written.
-/

namespace ShortClass.Stylesheet

inductive Mark where
  | char (c : Char)
  | pair (c : Char)
  | name (written : List Char)
  deriving DecidableEq

namespace Mark

def spell (σ : List Char → List Char) : Mark → List Char
  | char c => [c]
  | pair c => ['\\', c]
  | name w => σ w

end Mark

def spell (σ : List Char → List Char) (ms : List Mark) : List Char := ms.flatMap (Mark.spell σ)

section Spell

variable (σ : List Char → List Char)

@[simp] theorem spell_nil : spell σ [] = [] := rfl

@[simp] theorem spell_cons (m : Mark) (ms : List Mark) : spell σ (m :: ms) = m.spell σ ++ spell σ ms := by
  simp [spell]

@[simp] theorem spell_append (ms ns : List Mark) : spell σ (ms ++ ns) = spell σ ms ++ spell σ ns := by
  simp [spell]

theorem spell_take_drop (k : Nat) (ms : List Mark) :
    spell σ ms = spell σ (ms.take k) ++ spell σ (ms.drop k) := by
  rw [← spell_append, List.take_append_drop]

theorem drop_spell (k : Nat) (ms : List Mark) :
    (spell σ ms).drop (spell σ (ms.take k)).length = spell σ (ms.drop k) := by
  rw [spell_take_drop σ k ms, List.drop_left]

theorem take_spell (k : Nat) (ms : List Mark) :
    (spell σ ms).take (spell σ (ms.take k)).length = spell σ (ms.take k) := by
  rw [spell_take_drop σ k ms, List.take_left]

end Spell

def isPlain (c : Char) : Bool :=
  !(['\\', '"', '\'', '(', ')', '[', ']', '\x7b', '\x7d', ';', '/', '*', '.'].contains c)

theorem isPlain_of_isNameChar {c : Char} (h : isNameChar c = true) : isPlain c = true := by
  by_contra hc
  simp only [isPlain, List.contains_eq_mem, List.mem_cons, List.not_mem_nil, or_false, Bool.not_eq_true,
    Bool.not_eq_false', decide_eq_true_eq] at hc
  rcases hc with rfl | rfl | rfl | rfl | rfl | rfl | rfl | rfl | rfl | rfl | rfl | rfl | rfl <;>
    exact absurd h (by decide)

theorem isPlain_of_endsHex {c : Char} (h : endsHex c = true) : isPlain c = true := by
  simp only [endsHex, Bool.or_eq_true, beq_iff_eq] at h
  rcases h with (((rfl | rfl) | rfl) | rfl) | rfl <;> decide

inductive Passed : List Char → Prop where
  | nil : Passed []
  | char {c : Char} {t : List Char} : isPlain c = true → Passed t → Passed (c :: t)
  | pair {c : Char} {t : List Char} : Passed t → Passed ('\\' :: c :: t)

theorem Passed.append {s t : List Char} (hs : Passed s) (ht : Passed t) : Passed (s ++ t) := by
  induction hs with
  | nil => exact ht
  | char hc _ ih => exact .char hc ih
  | pair _ ih => exact .pair ih

theorem passed_of_all {t : List Char} (h : ∀ c ∈ t, isPlain c = true) : Passed t := by
  induction t with
  | nil => exact .nil
  | cons c t ih => exact .char (h c (by simp)) (ih fun d hd => h d (by simp [hd]))

theorem preludePiece_of_isPlain {c : Char} (t : List Char) (hc : isPlain c = true) :
    preludePiece c t = some 0 := by
  simp only [isPlain, List.contains_eq_mem, List.mem_cons, List.not_mem_nil, or_false, not_or,
    Bool.not_eq_true', decide_eq_false_iff_not] at hc
  simp [preludePiece, isQuote, hc]

theorem preludeRun_of_some {c : Char} {t : List Char} {n : Nat} (h : preludePiece c t = some n) :
    preludeRun (c :: t) = n + 1 + preludeRun (t.drop n) := by
  rw [preludeRun, h]

theorem preludeRun_of_none {c : Char} {t : List Char} (h : preludePiece c t = none) :
    preludeRun (c :: t) = 0 := by
  rw [preludeRun, h]

theorem preludeRun_pair (c : Char) (t : List Char) : preludeRun ('\\' :: c :: t) = 2 + preludeRun t := by
  have hp : preludePiece '\\' (c :: t) = some 1 := by simp [preludePiece, isQuote]
  rw [preludeRun_of_some hp, List.drop_succ_cons, List.drop_zero]

theorem Passed.preludeRun_append {w : List Char} (hw : Passed w) (s : List Char) :
    preludeRun (w ++ s) = w.length + preludeRun s := by
  induction hw with
  | nil => simp
  | char hc _ ih =>
    rw [List.cons_append, preludeRun_of_some (preludePiece_of_isPlain _ hc), List.drop_zero, ih,
      List.length_cons]
    omega
  | pair _ ih =>
    rw [List.cons_append, List.cons_append, preludeRun_pair, ih]
    simp only [List.length_cons]
    omega

/-- What the readers of strings, groups and attribute selectors have in common: `closes` tells which
character ends one, `refuses` which one cannot stand in it, and `opens` which one starts a string. -/
structure IsTail (r : List Char → Option Nat) (closes refuses opens : Char → Bool) : Prop where
  nil : r [] = none
  lone : r ['\\'] = none
  pair : ∀ c t, r ('\\' :: c :: t) = (r t).map (· + 2)
  char : ∀ c t, c ≠ '\\' → r (c :: t) =
    if closes c then some 1 else if refuses c then none
    else if opens c then (stringTail c t).bind fun n => (r (t.drop n)).map (· + n + 1)
    else (r t).map (· + 1)
  plain : ∀ c, isPlain c = true → closes c = false ∧ refuses c = false ∧ opens c = false

theorem isTail_stringTail {q : Char} (hq : isPlain q = false) :
    IsTail (stringTail q) (· == q) (fun _ => false) (fun _ => false) where
  nil := by rw [stringTail]
  lone := by rw [stringTail]
  pair c t := by rw [stringTail]
  char c t hc := by
    rw [stringTail]
    · simp
    · intro h; exact absurd h hc
    · intro d u h; exact absurd h hc
  plain c hc := by
    have hne : c ≠ q := by rintro rfl; simp [hc] at hq
    simp [hne]

theorem isTail_groupTail : IsTail groupTail (· == ')') (· == '(') isQuote where
  nil := by rw [groupTail]
  lone := by rw [groupTail]
  pair c t := by rw [groupTail]
  char c t hc := by
    rw [groupTail]
    · simp
    · intro h; exact absurd h hc
    · intro d u h; exact absurd h hc
  plain c hc := by
    simp only [isPlain, List.contains_eq_mem, List.mem_cons, List.not_mem_nil, or_false, not_or,
      Bool.not_eq_true', decide_eq_false_iff_not] at hc
    simp [isQuote, hc]

theorem isTail_attributeTail : IsTail attributeTail (· == ']') (fun _ => false) isQuote where
  nil := by rw [attributeTail]
  lone := by rw [attributeTail]
  pair c t := by rw [attributeTail]
  char c t hc := by
    rw [attributeTail]
    · simp
    · intro h; exact absurd h hc
    · intro d u h; exact absurd h hc
  plain c hc := by
    simp only [isPlain, List.contains_eq_mem, List.mem_cons, List.not_mem_nil, or_false, not_or,
      Bool.not_eq_true', decide_eq_false_iff_not] at hc
    simp [isQuote, hc]

namespace IsTail

variable {r : List Char → Option Nat} {closes refuses opens : Char → Bool}

theorem passed_append (hr : IsTail r closes refuses opens) {w : List Char} (hw : Passed w) (s : List Char) :
    r (w ++ s) = (r s).map (· + w.length) := by
  induction hw with
  | nil => simp
  | @char c t hc _ ih =>
    have hne : c ≠ '\\' := by rintro rfl; simp [isPlain] at hc
    obtain ⟨h1, h2, h3⟩ := hr.plain c hc
    rw [List.cons_append, hr.char c _ hne, ih]
    simp [h1, h2, h3, Function.comp_def, Nat.add_assoc]
  | pair _ ih =>
    rw [List.cons_append, List.cons_append, hr.pair, ih]
    simp [Function.comp_def, Nat.add_assoc]

end IsTail

def Mark.Sound (σ : List Char → List Char) : Mark → Prop
  | char c => c ≠ '\\'
  | pair _ => True
  | name w => Passed (σ w) ∧ σ w ≠ []

def Aligned (σ : List Char → List Char) (ms : List Mark) : Prop := ∀ m ∈ ms, m.Sound σ

namespace Aligned

variable {σ : List Char → List Char} {m : Mark} {ms : List Mark}

theorem head (h : Aligned σ (m :: ms)) : m.Sound σ := h m List.mem_cons_self

theorem tail (h : Aligned σ (m :: ms)) : Aligned σ ms := fun n hn => h n (List.mem_cons_of_mem m hn)

theorem cons (hm : m.Sound σ) (h : Aligned σ ms) : Aligned σ (m :: ms) := List.forall_mem_cons.2 ⟨hm, h⟩

theorem append {ns : List Mark} (h : Aligned σ ms) (h' : Aligned σ ns) : Aligned σ (ms ++ ns) :=
  List.forall_mem_append.2 ⟨h, h'⟩

theorem take (h : Aligned σ ms) (k : Nat) : Aligned σ (ms.take k) := fun n hn => h n (List.mem_of_mem_take hn)

theorem drop (h : Aligned σ ms) (k : Nat) : Aligned σ (ms.drop k) := fun n hn => h n (List.mem_of_mem_drop hn)

end Aligned

theorem Mark.Sound.spell_ne_nil {σ : List Char → List Char} {m : Mark} (hm : m.Sound σ) : m.spell σ ≠ [] := by
  cases m with
  | char c => simp [Mark.spell]
  | pair c => simp [Mark.spell]
  | name w => exact hm.2

theorem eq_of_length_spell_take {σ : List Char → List Char} {ms : List Mark} (hσ : Aligned σ ms) {j k : Nat}
    (h : (spell σ (ms.take k)).length = (spell σ (ms.take j)).length) :
    ms.take k = ms.take j := by
  induction ms generalizing j k with
  | nil => simp
  | cons m ms ih =>
    have hne := hσ.head.spell_ne_nil
    have hpos := List.length_pos_of_ne_nil hne
    cases k with
    | zero =>
      cases j with
      | zero => rfl
      | succ j =>
        simp only [List.take_zero, spell_nil, List.length_nil, List.take_succ_cons, spell_cons,
          List.length_append] at h
        omega
    | succ k =>
      cases j with
      | zero =>
        simp only [List.take_zero, spell_nil, List.length_nil, List.take_succ_cons, spell_cons,
          List.length_append] at h
        omega
      | succ j =>
        have ht := ih hσ.tail (by simpa using h)
        simp [ht]

def Takes (r : List Char → Option Nat) (ms : List Mark) (k : Option Nat) : Prop :=
  ∀ σ, Aligned σ ms → r (spell σ ms) = k.map fun k => (spell σ (ms.take k)).length

theorem takes_cons {r : List Char → Option Nat} {m : Mark} {ms : List Mark} {k : Option Nat}
    (hk : Takes r ms k)
    (hm : ∀ σ, m.Sound σ → r (m.spell σ ++ spell σ ms) = (r (spell σ ms)).map (· + (m.spell σ).length)) :
    Takes r (m :: ms) (k.map (· + 1)) := by
  intro σ hσ
  rw [spell_cons, hm σ hσ.head, hk σ hσ.tail]
  cases k with
  | none => rfl
  | some k => simp [Nat.add_comm]

theorem IsTail.takes {r : List Char → Option Nat} {closes refuses opens : Char → Bool}
    (hr : IsTail r closes refuses opens)
    (ho : ∀ q, opens q = true → ∀ ms, ∃ k, Takes (stringTail q) ms k) (ms : List Mark) :
    ∃ k, Takes r ms k := by
  induction hn : ms.length using Nat.strongRecOn generalizing ms with
  | ind n ih =>
    subst hn
    cases ms with
    | nil => exact ⟨none, fun σ _ => by simp [hr.nil]⟩
    | cons m ms =>
      obtain ⟨k, hk⟩ := ih ms.length (by simp) ms rfl
      cases m with
      | pair c => exact ⟨_, takes_cons hk fun σ _ => by simp [Mark.spell, hr.pair]⟩
      | name w => exact ⟨_, takes_cons hk fun σ hw => hr.passed_append hw.1 _⟩
      | char c =>
        by_cases hc : closes c = true
        · refine ⟨some 1, fun σ hσ => ?_⟩
          have hne : c ≠ '\\' := hσ.head
          simp [Mark.spell, hr.char c _ hne, hc]
        by_cases hf : refuses c = true
        · refine ⟨none, fun σ hσ => ?_⟩
          have hne : c ≠ '\\' := hσ.head
          simp [Mark.spell, hr.char c _ hne, hc, hf]
        by_cases hq : opens c = true
        · -- the string first, then what stands behind it
          obtain ⟨j, hj⟩ := ho c hq ms
          cases j with
          | none =>
            refine ⟨none, fun σ hσ => ?_⟩
            have hne : c ≠ '\\' := hσ.head
            have hs := hj σ hσ.tail
            simp [Mark.spell, hr.char c _ hne, hc, hf, hq, hs]
          | some j =>
            obtain ⟨i, hi⟩ := ih (ms.drop j).length (by rw [List.length_drop, List.length_cons]; omega) (ms.drop j) rfl
            refine ⟨i.map (· + j + 1), fun σ hσ => ?_⟩
            have hne : c ≠ '\\' := hσ.head
            have hs := hj σ hσ.tail
            have hd := hi σ (hσ.tail.drop j)
            simp only [Option.map_some] at hs
            simp only [spell_cons, Mark.spell, List.singleton_append, hr.char c _ hne, hc, hf, hq, hs,
              Option.bind_some, drop_spell, hd]
            cases i with
            | none => rfl
            | some i =>
              have ht : ms.take (i + j) = ms.take j ++ (ms.drop j).take i := by
                rw [Nat.add_comm, List.take_add]
              simp [Mark.spell, ht]
              omega
        · refine ⟨_, takes_cons hk fun σ hne => ?_⟩
          simp [Mark.spell, hr.char c _ hne, hc, hf, hq]

theorem Takes.spell_eq_some {r : List Char → Option Nat} {ms ns : List Mark} {k : Option Nat}
    (hk : Takes r (ms ++ ns) k) {σ : List Char → List Char} (hσ : Aligned σ (ms ++ ns))
    (hid : Aligned id (ms ++ ns)) (h : r (spell id (ms ++ ns)) = some (spell id ms).length) :
    r (spell σ (ms ++ ns)) = some (spell σ ms).length := by
  rw [hk id hid] at h
  obtain ⟨k, rfl, hl⟩ := Option.map_eq_some_iff.1 h
  have ht : (ms ++ ns).take k = ms := by
    simpa using eq_of_length_spell_take (j := ms.length) hid (by simpa using hl)
  rw [hk σ hσ, Option.map_some, ht]

theorem Takes.spell_eq_none {r : List Char → Option Nat} {ms : List Mark} {k : Option Nat}
    (hk : Takes r ms k) {σ : List Char → List Char} (hσ : Aligned σ ms)
    (hid : Aligned id ms) (h : r (spell id ms) = none) : r (spell σ ms) = none := by
  rw [hk id hid, Option.map_eq_none_iff] at h
  rw [hk σ hσ, h, Option.map_none]

theorem stringTail_takes {q : Char} (hq : isPlain q = false) (ms : List Mark) :
    ∃ k, Takes (stringTail q) ms k :=
  (isTail_stringTail hq).takes (by simp) ms

theorem not_isPlain_of_isQuote {q : Char} (hq : isQuote q = true) : isPlain q = false := by
  simp only [isQuote, Bool.or_eq_true, beq_iff_eq] at hq
  rcases hq with rfl | rfl <;> rfl

theorem groupTail_takes (ms : List Mark) : ∃ k, Takes groupTail ms k :=
  isTail_groupTail.takes (fun _ hq ms => stringTail_takes (not_isPlain_of_isQuote hq) ms) ms

theorem attributeTail_takes (ms : List Mark) : ∃ k, Takes attributeTail ms k :=
  isTail_attributeTail.takes (fun _ hq ms => stringTail_takes (not_isPlain_of_isQuote hq) ms) ms

theorem head?_spell_eq_asterisk {σ : List Char → List Char} {ms : List Mark} (hσ : Aligned σ ms) :
    (spell σ ms).head? = some '*' ↔ ms.head? = some (.char '*') := by
  cases ms with
  | nil => simp
  | cons m ms =>
    cases m with
    | char c => simp [Mark.spell]
    | pair c => simp [Mark.spell]
    | name w =>
      obtain ⟨hw, hne⟩ := hσ.head
      rw [spell_cons, Mark.spell]
      generalize σ w = v at hw hne
      cases hw with
      | nil => exact absurd rfl hne
      | char hc _ =>
        simp only [List.cons_append, List.head?_cons, Option.some.injEq, reduceCtorEq, iff_false]
        rintro rfl
        simp [isPlain] at hc
      | pair _ => simp

theorem preludePiece_takes {c : Char} (hc : c ≠ '\\') (ms : List Mark) :
    ∃ k, Takes (preludePiece c) ms k := by
  by_cases hg : c = '('
  · obtain ⟨k, hk⟩ := groupTail_takes ms
    refine ⟨some (k.getD 0), fun σ hσ => ?_⟩
    rw [preludePiece, if_pos hg, hk σ hσ]
    cases k <;> simp
  by_cases hq : isQuote c = true
  · obtain ⟨k, hk⟩ := stringTail_takes (not_isPlain_of_isQuote hq) ms
    refine ⟨k, fun σ hσ => ?_⟩
    rw [preludePiece, if_neg hg, if_pos hq, hk σ hσ]
  by_cases hs : c = '/'
  · refine ⟨if ms.head? = some (.char '*') then none else some 0, fun σ hσ => ?_⟩
    simp only [preludePiece, if_neg hg, if_neg hq, if_neg hc, if_pos hs, head?_spell_eq_asterisk hσ]
    split <;> simp
  by_cases hb : c = '\x7b' ∨ c = '\x7d' ∨ c = ';'
  · exact ⟨none, fun σ _ => by simp [preludePiece, hg, hq, hc, hs, hb]⟩
  · exact ⟨some 0, fun σ _ => by simp [preludePiece, hg, hq, hc, hs, hb]⟩

theorem preludeRun_takes (ms : List Mark) :
    ∃ k, ∀ σ, Aligned σ ms → preludeRun (spell σ ms) = (spell σ (ms.take k)).length := by
  induction hn : ms.length using Nat.strongRecOn generalizing ms with
  | ind n ih =>
    subst hn
    cases ms with
    | nil => exact ⟨0, fun σ _ => by simp [preludeRun]⟩
    | cons m ms =>
      cases m with
      | pair c =>
        obtain ⟨k, hk⟩ := ih ms.length (by simp) ms rfl
        refine ⟨k + 1, fun σ hσ => ?_⟩
        have h := hk σ hσ.tail
        simp [Mark.spell, preludeRun_pair, h]
        omega
      | name w =>
        obtain ⟨k, hk⟩ := ih ms.length (by simp) ms rfl
        refine ⟨k + 1, fun σ hσ => ?_⟩
        have h := hk σ hσ.tail
        obtain ⟨hw, -⟩ : Passed (σ w) ∧ σ w ≠ [] := hσ.head
        simp [Mark.spell, hw.preludeRun_append, h]
      | char c =>
        by_cases hc : c = '\\'
        · exact ⟨0, fun σ hσ => absurd hc hσ.head⟩
        obtain ⟨j, hj⟩ := preludePiece_takes hc ms
        cases j with
        | none =>
          refine ⟨0, fun σ hσ => ?_⟩
          have hp := hj σ hσ.tail
          simp [Mark.spell, preludeRun_of_none hp]
        | some j =>
          obtain ⟨k, hk⟩ := ih (ms.drop j).length (by rw [List.length_drop, List.length_cons]; omega) (ms.drop j) rfl
          refine ⟨j + k + 1, fun σ hσ => ?_⟩
          have hp := hj σ hσ.tail
          have h := hk σ (hσ.tail.drop j)
          rw [spell_cons, Mark.spell, List.singleton_append, preludeRun_of_some hp, drop_spell, h]
          simp [Mark.spell, List.take_add]
          omega

end ShortClass.Stylesheet
