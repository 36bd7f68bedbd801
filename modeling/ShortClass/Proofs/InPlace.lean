import ShortClass.Minifier
import ShortClass.Proofs.Outcome

/-!
Assigning and naming in place. Step by step a call changes one map or one minifier, and what has been changed stays
so if a later step fails.
-/

namespace ShortClass

namespace ClassMap

variable {m : ClassMap} {c name : ClassName}

abbrev InPlace := EStateM AssignError ClassMap

def assignIn (c name : ClassName) : InPlace Unit := do
  let m ← get
  if let some current := m.get? c then throw (.mapped c current)
  if c ≠ name then
    if m.taken.contains name then throw (.allocated name)
    modify fun m => { m with taken := m.taken ++ [name] }
  modify fun m => { m with entries := m.entries ++ [(c, name)] }

def clearIn : InPlace Unit := do
  modify ({ · with entries := [] })
  modify ({ · with taken := [] })

theorem assignIn_cases (m : ClassMap) (c name : ClassName) :
    (∃ current, m.get? c = some current ∧ (assignIn c name).run m = .error (.mapped c current) m) ∨
    (m.get? c = none ∧ c ≠ name ∧ name ∈ m.taken ∧ (assignIn c name).run m = .error (.allocated name) m) ∨
    (m.get? c = none ∧ (c = name ∨ name ∉ m.taken) ∧ (assignIn c name).run m =
      .ok () ⟨m.entries ++ [(c, name)], if c = name then m.taken else m.taken ++ [name]⟩) := by
  cases h : m.get? c with
  | some current => exact .inl ⟨current, rfl, by simp [assignIn, h]⟩
  | none =>
    by_cases heq : c = name
    · exact .inr (.inr ⟨rfl, .inl heq, by simp [assignIn, ← heq, h]⟩)
    · by_cases htaken : name ∈ m.taken
      · exact .inr (.inl ⟨rfl, heq, htaken, by simp [assignIn, h, heq, htaken]⟩)
      · exact .inr (.inr ⟨rfl, .inr htaken, by simp [assignIn, h, heq, htaken]⟩)

theorem left_assignIn_of_error {e : AssignError} {m' : ClassMap} (h : (assignIn c name).run m = .error e m') :
    m' = m := by
  rcases assignIn_cases m c name with ⟨current, -, hrun⟩ | ⟨-, -, -, hrun⟩ | ⟨-, -, hrun⟩
  · rw [hrun] at h
    cases h
    rfl
  · rw [hrun] at h
    cases h
    rfl
  · rw [hrun] at h
    cases h

theorem outcome_assignIn (c name : ClassName) (m : ClassMap) :
    outcome ((assignIn c name).run m) = m.assign c name := by
  rw [assign]
  rcases assignIn_cases m c name with ⟨current, hget, hrun⟩ | ⟨hget, hne, htaken, hrun⟩ | ⟨hget, hn, hrun⟩
  · rw [hrun, hget]
    rfl
  · rw [hrun, hget]
    simp [outcome, hne, htaken]
  · rw [hrun, hget]
    by_cases heq : c = name
    · simp [outcome, heq]
    · simp [outcome, heq, hn.resolve_left heq]

end ClassMap

namespace Minifier

abbrev InPlace := EStateM ExtractError Minifier

def onMap (x : ClassMap.InPlace Unit) : InPlace Unit := fun m =>
  match x.run m.classMap with
  | .ok u t => .ok u { m with classMap := t }
  | .error e t => .error (.assign e) { m with classMap := t }

def allocateIn (tries : Nat) (c : ClassName) : InPlace Unit := do
  let m ← get
  if m.isExcluded c then
    onMap (ClassMap.assignIn c c)
  else
    match m.alphabet.nextName? m.isExcluded tries m.next with
    | none => throw .outOfNames
    | some (name, next) =>
      -- the numbers that were tried are passed even if the name turns out to be taken
      modify ({ · with next })
      onMap (ClassMap.assignIn c name)

def recordIn (c : ClassName) : InPlace Unit :=
  modify fun m => { m with alphabet := m.alphabet.record (Text.ofChars c) 1 }

def extractIn (tries : Nat) (css : List Char) : InPlace Unit := do
  let cs ← MonadExcept.ofExcept ((Stylesheet.classes css).mapError .sheet)
  modify fun m => { m with alphabet := m.alphabet.reset }
  onMap ClassMap.clearIn
  modify ({ · with next := 0 })
  forM cs recordIn
  modify fun m => { m with alphabet := m.alphabet.sort }
  let m ← get
  forM (m.byUse cs.eraseDups) (allocateIn tries)

theorem outcome_onMap (x : ClassMap.InPlace Unit) (m : Minifier) :
    outcome ((onMap x).run m) =
      ((outcome (x.run m.classMap)).mapError .assign).map fun t => { m with classMap := t } := by
  simp only [EStateM.run, onMap]
  cases x m.classMap <;> rfl

theorem run_onMap_eq_error {x : ClassMap.InPlace Unit} {m m' : Minifier} {e : ExtractError}
    (h : (onMap x).run m = .error e m') :
    ∃ e' t, x.run m.classMap = .error e' t ∧ m' = { m with classMap := t } := by
  simp only [EStateM.run, onMap] at h ⊢
  cases hx : x m.classMap with
  | ok u t =>
    rw [hx] at h
    cases h
  | error e' t =>
    rw [hx] at h
    cases h
    exact ⟨e', t, rfl, rfl⟩

theorem outcome_allocateIn (tries : Nat) (c : ClassName) (m : Minifier) :
    outcome ((allocateIn tries c).run m) = m.allocate tries c := by
  rw [allocateIn, outcome_get_bind, allocate]
  by_cases hx : m.isExcluded c = true
  · rw [if_pos hx, if_pos hx, outcome_onMap, ClassMap.outcome_assignIn]
    rfl
  · rw [if_neg hx, if_neg hx]
    cases m.alphabet.nextName? m.isExcluded tries m.next with
    | none => rfl
    | some r =>
      simp only [outcome_modify_bind, outcome_onMap, ClassMap.outcome_assignIn]
      rfl

theorem left_allocateIn_of_error {tries : Nat} {c : ClassName} {e : ExtractError} {m m' : Minifier}
    (h : (allocateIn tries c).run m = .error e m') : ∃ next, m.next ≤ next ∧ m' = { m with next } := by
  have hassign {m : Minifier} {n : ClassName} (h : (onMap (ClassMap.assignIn c n)).run m = .error e m') : m' = m := by
    obtain ⟨e', t, hx, rfl⟩ := run_onMap_eq_error h
    rw [ClassMap.left_assignIn_of_error hx]
  simp only [allocateIn, EStateM.run_bind, EStateM.run_get] at h
  split at h
  · exact ⟨m.next, Nat.le_refl _, hassign h⟩
  · split at h
    · cases h
      exact ⟨m.next, Nat.le_refl _, rfl⟩
    · next name next hnext =>
      simp only [EStateM.run_bind, EStateM.run_modify] at h
      exact ⟨next, Nat.le_of_lt (Alphabet.nextName?_eq_some hnext).1, hassign h⟩

theorem run_forM_recordIn (cs : List ClassName) (m : Minifier) :
    (forM cs recordIn).run m =
      .ok () { m with alphabet := cs.foldl (fun a c => a.record (Text.ofChars c) 1) m.alphabet } := by
  induction cs generalizing m with
  | nil => rfl
  | cons c cs ih => simp only [List.forM_cons, recordIn, EStateM.run_bind, EStateM.run_modify, ih, List.foldl_cons]

theorem run_extractIn {css : List Char} {cs : List ClassName} (hcs : Stylesheet.classes css = .ok cs) (tries : Nat)
    (m : Minifier) :
    (extractIn tries css).run m = (forM (m.byUse cs.eraseDups) (allocateIn tries)).run (m.prepared cs) := by
  have hread : (MonadExcept.ofExcept ((Except.ok cs).mapError .sheet) : InPlace (List ClassName)).run m = .ok cs m :=
    rfl
  have hclear (m : Minifier) : (onMap ClassMap.clearIn).run m = .ok () { m with classMap := {} } := rfl
  rw [extractIn, hcs]
  simp only [EStateM.run_bind, hread, EStateM.run_modify, hclear, run_forM_recordIn, EStateM.run_get]
  rfl

theorem run_extractIn_of_error {css : List Char} {e : StylesheetError} (h : Stylesheet.classes css = .error e)
    (tries : Nat) (m : Minifier) : (extractIn tries css).run m = .error (.sheet e) m := by
  rw [extractIn, h]
  rfl

theorem outcome_extractIn (tries : Nat) (css : List Char) (m : Minifier) :
    outcome ((extractIn tries css).run m) = m.extract tries css := by
  rw [extract]
  cases hcs : Stylesheet.classes css with
  | error e =>
    rw [run_extractIn_of_error hcs]
    rfl
  | ok cs =>
    rw [run_extractIn hcs, outcome_forM]
    simp only [outcome_allocateIn]
    rfl

end Minifier

end ShortClass
