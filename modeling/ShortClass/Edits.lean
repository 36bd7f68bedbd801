namespace ShortClass

structure Edit (α : Type) where
  start : Nat
  stop : Nat
  replacement : List α

structure EditBuffer (α : Type) where
  source : List α
  edits : List (Edit α) := []

inductive EditError where
  | outside (start stop : Int) (length : Nat)
  | overlap (start stop : Nat)

def EditError.message : EditError → String
  | outside start stop length => s!"Edit range {start}:{stop} outside text of length {length}"
  | overlap start stop => s!"Overlapping edit at {start}:{stop}"

namespace Edit

variable {α : Type}

def le (e f : Edit α) : Bool := e.start < f.start || (e.start == f.start && e.stop ≤ f.stop)

/-- Splices sorted edits into the elements `rest` that stand from position `cursor` on. -/
def splice (cursor : Nat) (rest : List α) : List (Edit α) → Except EditError (List α)
  | [] => .ok rest
  | e :: es =>
    if e.start < cursor then .error (.overlap e.start e.stop)
    else do
      let tail ← splice e.stop (rest.drop (e.stop - cursor)) es
      .ok (rest.take (e.start - cursor) ++ e.replacement ++ tail)

end Edit

namespace EditBuffer

variable {α : Type}

def replace (b : EditBuffer α) (start stop : Int) (replacement : List α) :
    Except EditError (EditBuffer α) :=
  if 0 ≤ start ∧ start ≤ stop ∧ stop ≤ b.source.length then
    .ok { b with edits := b.edits ++ [⟨start.toNat, stop.toNat, replacement⟩] }
  else .error (.outside start stop b.source.length)

def apply (b : EditBuffer α) : Except EditError (List α) :=
  Edit.splice 0 b.source (b.edits.mergeSort Edit.le)

theorem apply_nil (source : List α) : apply ⟨source, []⟩ = .ok source := by
  simp [apply, Edit.splice]

def applyAll (source : List α) (edits : List (Edit α)) : Except EditError (List α) := do
  (← edits.foldlM (fun b e => b.replace e.start e.stop e.replacement) (⟨source, []⟩ : EditBuffer α)).apply

end EditBuffer

end ShortClass
