import ShortClass.Proofs.ClassListRenaming

namespace ShortClass

theorem Text.endsToken_append {s t : Text} : (s ++ t).EndsToken ↔ t.EndsToken ∨ t = [] ∧ s.EndsToken := by
  cases t with
  | nil => simp [Text.EndsToken]
  | cons a t =>
    have hlast : (s ++ a :: t).getLast? = (a :: t).getLast? := by
      rw [List.getLast?_append, List.getLast?_cons, Option.some_or]
    simp [Text.EndsToken, hlast]

theorem Text.startsToken_append {s t : Text} : (s ++ t).StartsToken ↔ s.StartsToken ∨ s = [] ∧ t.StartsToken := by
  cases s with
  | nil => simp [Text.StartsToken]
  | cons a s => simp [Text.StartsToken]

namespace ClassList

inductive Piece where
  | literal (joins : Joins) (value : Text)
  | runtime (value : Text)

namespace Piece

def old : Piece → Bool × Text
  | literal _ v => (true, v)
  | runtime v => (false, v)

def new (lookup : Text → Option Text) : Piece → Bool × Text
  | literal j v => (true, newValue lookup j v)
  | runtime v => (false, v)

def Beside (left right : Bool) : Piece → Prop
  | literal j v => ¬HasStem j v ∧ (left = true → j.left = true) ∧ (right = true → j.right = true)
  | runtime _ => True

end Piece

/-- Does every literal know that something is glued to it, where `left` and `right` tell whether
something comes before and after all of them? -/
def Fits (left right : Bool) : List Piece → Prop
  | [] => True
  | [x] => x.Beside left right
  | x :: y :: xs => x.Beside left true ∧ Fits true right (y :: xs)

section Fits

variable {lookup : Text → Option Text} {left right : Bool} {xs ys : List Piece}

theorem Piece.Beside.mono {x : Piece} {l r : Bool} (h : x.Beside l r) (hl : left = true → l = true)
    (hr : right = true → r = true) : x.Beside left right := by
  cases x with
  | literal j v => exact ⟨h.1, fun h' => h.2.1 (hl h'), fun h' => h.2.2 (hr h')⟩
  | runtime v => trivial

theorem Fits.append (hx : Fits left true xs) (hy : Fits true right ys) (hxs : xs ≠ []) (hys : ys ≠ []) :
    Fits left right (xs ++ ys) := by
  induction xs generalizing left with
  | nil => exact absurd rfl hxs
  | cons x xs ih =>
    cases xs with
    | nil =>
      obtain ⟨y, ys, rfl⟩ := List.exists_cons_of_ne_nil hys
      exact ⟨hx, hy⟩
    | cons x' xs => exact ⟨hx.1, ih hx.2 (by simp)⟩

theorem Fits.cons {x : Piece} (hx : x.Beside left true) (hy : Fits true right ys) (hys : ys ≠ []) :
    Fits left right (x :: ys) := by
  obtain ⟨y, ys, rfl⟩ := List.exists_cons_of_ne_nil hys
  exact ⟨hx, hy⟩

theorem Fits.beside_right (h : Fits left right (xs ++ ys)) (hys : ys ≠ []) {x : Piece} (hx : x ∈ xs) :
    x.Beside false true := by
  induction xs generalizing left with
  | nil => simp at hx
  | cons z xs ih =>
    obtain ⟨y, zs, hzs⟩ : ∃ y zs, xs ++ ys = y :: zs := List.exists_cons_of_ne_nil (by simp [hys])
    rw [List.cons_append, hzs] at h
    obtain ⟨hz, hrest⟩ := h
    rcases List.mem_cons.1 hx with rfl | hx
    · exact hz.mono (by simp) (by simp)
    · exact ih (hzs ▸ hrest) hx

theorem Fits.beside_left (h : Fits left right (xs ++ ys)) (hxs : left = true ∨ xs ≠ []) {y : Piece} (hy : y ∈ ys) :
    y.Beside true false := by
  induction xs generalizing left with
  | nil =>
    obtain rfl : left = true := by simpa using hxs
    clear hxs
    induction ys with
    | nil => simp at hy
    | cons z ys ih =>
      cases ys with
      | nil =>
        obtain rfl : y = z := by simpa using hy
        exact Piece.Beside.mono h (by simp) (by simp)
      | cons z' ys =>
        rcases List.mem_cons.1 hy with rfl | hy
        · exact h.1.mono (by simp) (by simp)
        · exact ih hy h.2
  | cons x xs ih =>
    cases hzs : xs ++ ys with
    | nil =>
      rw [(List.append_eq_nil_iff.1 hzs).2] at hy
      simp at hy
    | cons z zs =>
      rw [List.cons_append, hzs] at h
      exact ih (hzs ▸ h.2) (.inl rfl)

def oldTexts (xs : List Piece) : List Text := xs.map fun x => x.old.2

def newTexts (lookup : Text → Option Text) (xs : List Piece) : List Text := xs.map fun x => (x.new lookup).2

theorem Piece.new_eq_nil_iff (hl : GivesTokens lookup) {x : Piece} {l r : Bool} (hx : x.Beside l r) :
    (x.new lookup).2 = [] ↔ x.old.2 = [] := by
  cases x with
  | literal j v =>
    constructor
    · intro hnew
      by_contra hold
      exact newValue_ne_nil hl hx.1 hold hnew
    · rintro (rfl : v = [])
      exact newValue_nil lookup j
  | runtime v => exact Iff.rfl

theorem newTexts_eq_nil_iff (hl : GivesTokens lookup) {l r : Bool} (h : ∀ x ∈ xs, x.Beside l r) :
    (newTexts lookup xs).flatten = [] ↔ (oldTexts xs).flatten = [] := by
  simp only [newTexts, oldTexts, List.flatten_eq_nil_iff, List.forall_mem_map]
  exact forall₂_congr fun x hx => Piece.new_eq_nil_iff hl (h x hx)

theorem endsToken_of_newTexts (hl : GivesTokens lookup) (h : ∀ x ∈ xs, x.Beside false true)
    (hnew : Text.EndsToken (newTexts lookup xs).flatten) : Text.EndsToken (oldTexts xs).flatten := by
  induction xs with
  | nil => exact hnew
  | cons x xs ih =>
    have hxs : ∀ y ∈ xs, y.Beside false true := fun y hy => h y (by simp [hy])
    simp only [newTexts, oldTexts, List.map_cons, List.flatten_cons, Text.endsToken_append] at hnew ⊢
    rcases hnew with hnew | ⟨hnil, hnew⟩
    · exact .inl (ih hxs hnew)
    · refine .inr ⟨(newTexts_eq_nil_iff hl hxs).1 hnil, ?_⟩
      have hx := h x (by simp)
      cases x with
      | literal j v => exact endsToken_of_newValue hx.1 (hx.2.2 rfl) hnew
      | runtime v => exact hnew

theorem startsToken_of_newTexts (hl : GivesTokens lookup) (h : ∀ x ∈ xs, x.Beside true false)
    (hnew : Text.StartsToken (newTexts lookup xs).flatten) : Text.StartsToken (oldTexts xs).flatten := by
  induction xs with
  | nil => exact hnew
  | cons x xs ih =>
    have hxs : ∀ y ∈ xs, y.Beside true false := fun y hy => h y (by simp [hy])
    have hx := h x (by simp)
    simp only [newTexts, oldTexts, List.map_cons, List.flatten_cons, Text.startsToken_append] at hnew ⊢
    rcases hnew with hnew | ⟨hnil, hnew⟩
    · left
      cases x with
      | literal j v => exact startsToken_of_newValue hx.1 (hx.2.1 rfl) hnew
      | runtime v => exact hnew
    · exact .inr ⟨(Piece.new_eq_nil_iff hl hx).1 hnil, ih hxs hnew⟩

theorem Fits.apart (h : Fits left right xs) (hl : GivesTokens lookup) (ha : Text.Apart (oldTexts xs)) :
    Text.Apart (newTexts lookup xs) := by
  intro before after heq hglued
  obtain ⟨bs, as, rfl, rfl, rfl⟩ := List.map_eq_append_iff.1 heq
  obtain ⟨hends, hstarts⟩ := hglued
  have has : as ≠ [] := by
    rintro rfl
    obtain ⟨a, ha, -⟩ := hstarts
    simp at ha
  have hbs : bs ≠ [] := by
    rintro rfl
    obtain ⟨a, ha, -⟩ := hends
    simp at ha
  refine ha (oldTexts bs) (oldTexts as) (List.map_append ..) ⟨?_, ?_⟩
  · exact endsToken_of_newTexts hl (fun x hx => h.beside_right has hx) hends
  · exact startsToken_of_newTexts hl (fun x hx => h.beside_left (.inr hbs) hx) hstarts

end Fits

end ClassList

end ShortClass
