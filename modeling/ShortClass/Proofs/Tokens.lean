import Mathlib.Data.List.TakeWhile
import Mathlib.Tactic.ByContra
import ShortClass.ClassList

namespace ShortClass

namespace Text

def StartsToken (t : Text) : Prop := ∃ a ∈ t.head?, CodePoint.isBlank a = false

def EndsToken (t : Text) : Prop := ∃ a ∈ t.getLast?, CodePoint.isBlank a = false

def Glued (s t : Text) : Prop := EndsToken s ∧ StartsToken t

instance (s t : Text) : Decidable (Glued s t) :=
  inferInstanceAs (Decidable ((∃ a ∈ s.getLast?, CodePoint.isBlank a = false) ∧
    ∃ a ∈ t.head?, CodePoint.isBlank a = false))

def IsToken (t : Text) : Prop := t ≠ [] ∧ ∀ a ∈ t, CodePoint.isBlank a = false

theorem isToken_of_mem_tokens {t u : Text} (h : u ∈ tokens t) : IsToken u := isBlank_eq_false_of_mem_tokens h

theorem tokens_nil : tokens [] = [] := by rw [tokens]

theorem tokens_cons_blank {a : CodePoint} (t : Text) (ha : a.isBlank = true) : tokens (a :: t) = tokens t := by
  rw [tokens, if_pos ha]

theorem tokens_cons {a : CodePoint} (t : Text) (ha : a.isBlank = false) :
    tokens (a :: t) = (a :: t.takeWhile (!·.isBlank)) :: tokens (t.dropWhile (!·.isBlank)) := by
  rw [tokens, if_neg (by simp [ha])]

theorem Glued.cons {s t : Text} (h : Glued s t) (a : CodePoint) : Glued (a :: s) t := by
  obtain ⟨⟨b, hb, hblank⟩, ht⟩ := h
  refine ⟨⟨b, ?_, hblank⟩, ht⟩
  cases s with
  | nil => simp at hb
  | cons c s => simpa using hb

theorem Glued.append {s t : Text} (h : Glued s t) (r : Text) : Glued (r ++ s) t := by
  induction r with
  | nil => exact h
  | cons a r ih => exact ih.cons a

theorem endsToken_of_forall {s : Text} (hne : s ≠ []) (h : ∀ a ∈ s, CodePoint.isBlank a = false) : EndsToken s :=
  ⟨s.getLast hne, List.getLast?_eq_some_getLast hne, h _ (List.getLast_mem hne)⟩

theorem takeWhile_of_not_glued {s t : Text} (hs : EndsToken s) (h : ¬Glued s t) :
    t.takeWhile (!·.isBlank) = [] ∧ t.dropWhile (!·.isBlank) = t := by
  cases t with
  | nil => simp
  | cons b t =>
    have hb : b.isBlank = true := by
      by_contra hb
      exact h ⟨hs, b, rfl, by simpa using hb⟩
    simp [hb]

theorem takeWhile_append_of_dropWhile {s : Text} (t : Text) (hs : s.dropWhile (!·.isBlank) ≠ []) :
    (s ++ t).takeWhile (!·.isBlank) = s.takeWhile (!·.isBlank) ∧
      (s ++ t).dropWhile (!·.isBlank) = s.dropWhile (!·.isBlank) ++ t := by
  have hlen : (s.takeWhile (!·.isBlank)).length ≠ s.length := by
    intro hlen
    have hall := List.takeWhile_eq_self_iff.1 ((List.takeWhile_prefix _).eq_of_length hlen)
    exact hs (List.dropWhile_eq_nil_iff.2 hall)
  rw [List.takeWhile_append, if_neg hlen, List.dropWhile_append, if_neg (by simpa using hs)]
  exact ⟨rfl, rfl⟩

theorem tokens_append {s t : Text} (h : ¬Glued s t) : tokens (s ++ t) = tokens s ++ tokens t := by
  fun_induction tokens s with
  | case1 => rw [List.nil_append, List.nil_append]
  | case2 a s ha ih =>
    rw [List.cons_append, tokens_cons_blank _ ha]
    exact ih fun hg => h (hg.cons a)
  | case3 a s ha ih =>
    have ha : a.isBlank = false := by simpa using ha
    rw [List.cons_append, tokens_cons _ ha]
    by_cases hs : s.dropWhile (!·.isBlank) = []
    · -- all of `s` belongs to the token, which ends where `t` begins
      have hall := List.dropWhile_eq_nil_iff.1 hs
      have hends : EndsToken (a :: s) := by
        apply endsToken_of_forall (List.cons_ne_nil a s)
        rintro b (_ | ⟨_, hb⟩)
        · exact ha
        · simpa using hall b hb
      obtain ⟨htake, hdrop⟩ := takeWhile_of_not_glued hends h
      rw [List.takeWhile_append_of_pos hall, List.dropWhile_append_of_pos hall, htake, hdrop, List.append_nil,
        List.takeWhile_eq_self_iff.2 hall, hs, tokens_nil]
      rfl
    · obtain ⟨htake, hdrop⟩ := takeWhile_append_of_dropWhile t hs
      rw [htake, hdrop, ih, List.cons_append]
      intro hg
      have hglued := (hg.append (s.takeWhile (!·.isBlank))).cons a
      rw [List.takeWhile_append_dropWhile] at hglued
      exact h hglued

theorem IsToken.tokens {t : Text} (h : IsToken t) : t.tokens = [t] := by
  obtain ⟨hne, hall⟩ := h
  cases t with
  | nil => exact absurd rfl hne
  | cons a t =>
    have ht : ∀ b ∈ t, (!b.isBlank) = true := fun b hb => by simp [hall b (by simp [hb])]
    have hd : t.dropWhile (!·.isBlank) = [] := List.dropWhile_eq_nil_iff.2 ht
    rw [tokens_cons t (hall a (by simp)), List.takeWhile_eq_self_iff.2 ht, hd, tokens_nil]

def Apart (ts : List Text) : Prop := ∀ before after, ts = before ++ after → ¬Glued before.flatten after.flatten

theorem apart_iff {ts : List Text} :
    Apart ts ↔ ∀ i ≤ ts.length, ¬Glued (ts.take i).flatten (ts.drop i).flatten := by
  constructor
  · intro h i _
    exact h _ _ (List.take_append_drop i ts).symm
  · rintro h before after rfl
    simpa using h before.length (by simp)

instance (ts : List Text) : Decidable (Apart ts) := decidable_of_iff _ apart_iff.symm

end Text

namespace ClassList

def labelled (part : Bool × Text) : List (Bool × Text) := part.2.tokens.map fun t => (part.1, t)

theorem isBlank_space : CodePoint.isBlank (.scalar ' ') = true := by decide

theorem tokens_spaced {ts : List Text} (h : ∀ t ∈ ts, Text.IsToken t) : (spaced ts).tokens = ts := by
  induction ts with
  | nil => exact Text.tokens_nil
  | cons t ts ih =>
    cases ts with
    | nil => exact (h t (by simp)).tokens
    | cons u ts =>
      have hseam : ¬Text.Glued t (.scalar ' ' :: spaced (u :: ts)) := by
        rintro ⟨-, b, hb, hblank⟩
        obtain rfl : .scalar ' ' = b := by simpa using hb
        exact absurd hblank (by decide)
      rw [spaced, Text.tokens_append hseam, Text.tokens_cons_blank _ isBlank_space, (h t (by simp)).tokens,
        ih fun v hv => h v (by simp [hv])]
      · rfl
      · simp

end ClassList

end ShortClass
