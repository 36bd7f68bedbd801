import ShortClass.Proofs.ClassListPieces
import ShortClass.Proofs.Program.Concatenation
import ShortClass.Proofs.Program.JoinFlags
import ShortClass.Proofs.Program.LiteralText
import ShortClass.Proofs.Program.ParsedTree
import ShortClass.Proofs.Program.ReachedNodes

namespace ShortClass.Program

open ClassList

variable {p : Program} {lookup : Text → Option Text}

structure BodyRenamed (lookup : Text → Option Text) (q : Quote) (j : Joins) (old new : List Char) : Prop where
  value : cook (Text.ofChars new) = newValue lookup j (cook (Text.ofChars old))
  contained : isContained q old = true → isContained q new = true

theorem bodyRenamed_spanText (lookup : Text → Option Text) {s : Span} (hraw : s.raw = false)
    (hvalue : s.value = cook (Text.ofChars (p.text s.start s.stop))) :
    BodyRenamed lookup s.quote s.joins (p.text s.start s.stop) (p.spanText lookup s) := by
  constructor
  · have hread := readBody_spanText (p := p) lookup (s := s) (by rw [hraw]; exact hvalue) (by simp [hraw])
    rwa [hraw, hvalue] at hread
  · have hbody := isBody_spanText (p := p) lookup (s := s) (by simp [hraw]) (by simp [hraw])
    rwa [hraw] at hbody

structure Renamed (lookup : Text → Option Text) (left right : Bool) (e e' : Expr)
    (xs : (Nat → Text) → List Piece) : Prop where
  skeleton : e'.skeleton = e.skeleton
  readable : e.Readable → e'.Readable
  ne_nil : ∀ ρ, xs ρ ≠ []
  old : ∀ ρ, (xs ρ).map Piece.old = e.parts ρ
  new : ∀ ρ, (xs ρ).map (Piece.new lookup) = e'.parts ρ
  fits : ∀ ρ, Fits left right (xs ρ)

namespace Renamed

variable {left right : Bool} {e e' f f' : Expr} {xs ys : (Nat → Text) → List Piece}

theorem string {q : Quote} {j : Joins} {body body' : List Char} (h : BodyRenamed lookup q j body body')
    (hb : (Piece.literal j (cook (Text.ofChars body))).Beside left right) :
    Renamed lookup left right (.string q body) (.string q body')
      fun _ => [.literal j (cook (Text.ofChars body))] where
  skeleton := rfl
  readable := h.contained
  ne_nil ρ := by simp
  old ρ := rfl
  new ρ := by simp [Piece.new, Expr.parts, h.value]
  fits ρ := hb

theorem value (v : Opaque) (code : List Char) :
    Renamed lookup left right (.value v) (.value ⟨v.index, code⟩) fun ρ => [.runtime (ρ v.index)] where
  skeleton := rfl
  readable := id
  ne_nil ρ := by simp
  old ρ := rfl
  new ρ := rfl
  fits ρ := trivial

theorem parens (h : Renamed lookup left right e e' xs) (opening closing : List Char) :
    Renamed lookup left right (.parens opening e closing) (.parens opening e' closing) xs where
  skeleton := by rw [Expr.skeleton, Expr.skeleton, h.skeleton]
  readable := h.readable
  ne_nil := h.ne_nil
  old := h.old
  new := h.new
  fits := h.fits

theorem sum (he : Renamed lookup left true e e' xs) (hf : Renamed lookup true right f f' ys)
    (operator : List Char) :
    Renamed lookup left right (.sum e operator f) (.sum e' operator f') fun ρ => xs ρ ++ ys ρ where
  skeleton := by rw [Expr.skeleton, Expr.skeleton, he.skeleton, hf.skeleton]
  readable := fun h => ⟨he.readable h.1, hf.readable h.2⟩
  ne_nil ρ := by simp [he.ne_nil ρ]
  old ρ := by rw [List.map_append, he.old, hf.old, Expr.parts]
  new ρ := by rw [List.map_append, he.new, hf.new, Expr.parts]
  fits ρ := (he.fits ρ).append (hf.fits ρ) (he.ne_nil ρ) (hf.ne_nil ρ)

theorem assign (h : Renamed lookup true right e e' xs) (target : Opaque) (code operator : List Char) :
    Renamed lookup left right (.assign target operator e) (.assign ⟨target.index, code⟩ operator e')
      fun ρ => .runtime (ρ target.index) :: xs ρ where
  skeleton := by rw [Expr.skeleton, Expr.skeleton, h.skeleton]
  readable := h.readable
  ne_nil ρ := by simp
  old ρ := by rw [List.map_cons, h.old, Expr.parts, Piece.old]
  new ρ := by rw [List.map_cons, h.new, Expr.parts, Piece.new]
  fits ρ := Fits.cons trivial (h.fits ρ) (h.ne_nil ρ)

end Renamed

section Tree

variable {path : Ancestry} {n : Node} {left right : Bool} {links : Nat}

theorem text_delimited {start stop : Nat} {a b : Char} {body : List Char} (hle : start + 2 ≤ stop)
    (hin : stop ≤ p.source.length) (h : p.text start stop = [a] ++ body ++ [b]) :
    p.text start (start + 1) = [a] ∧ p.text (start + 1) (stop - 1) = body ∧ p.text (stop - 1) stop = [b] := by
  rw [← text_append p (by omega : start ≤ stop - 1) (by omega),
    ← text_append p (by omega : start ≤ start + 1) (by omega)] at h
  have hlast : (p.text (stop - 1) stop).length = [b].length := by
    rw [length_text p hin, List.length_singleton]
    omega
  have hfirst : (p.text start (start + 1)).length = [a].length := by
    rw [length_text p (by omega), List.length_singleton]
    omega
  obtain ⟨hbody, hb⟩ := List.append_inj' h hlast
  obtain ⟨ha, hbody⟩ := List.append_inj hbody hfirst
  exact ⟨ha, hbody, hb⟩

theorem quoteAt_eq {i : Nat} {q : Quote} (h : p.text i (i + 1) = [q.char]) : p.quoteAt i = q := by
  have hchar : p.source[i]? = some q.char := by
    rw [← List.head?_drop]
    rw [text, Nat.add_sub_cancel_left] at h
    cases hd : p.source.drop i with
    | nil => simp [hd] at h
    | cons c t => simpa [hd] using h
  rw [quoteAt, hchar]
  cases q <;> rfl

theorem newText_singleton {m : Node} (hs : n.kind ≠ .string) (ht : n.kind ≠ .template) (hc : n.children = [m]) :
    p.newText lookup path n =
      p.text n.start m.start ++ p.newText lookup (⟨n, 0⟩ :: path) m ++ p.text m.stop n.stop := by
  rw [newText_of_other hs ht, hc, weave, weave]

theorem newText_pair {l r : Node} (hs : n.kind ≠ .string) (ht : n.kind ≠ .template) (hc : n.children = [l, r])
    (hl : l.start = n.start) (hr : r.stop = n.stop) :
    p.newText lookup path n = p.newText lookup (⟨n, 0⟩ :: path) l ++ p.text l.stop r.start ++
      p.newText lookup (⟨n, 1⟩ :: path) r := by
  rw [newText_of_other hs ht, hc, weave, weave, weave, hl, hr, text_self, text_self]
  simp

end Tree

section Mixed

end Mixed

end ShortClass.Program
