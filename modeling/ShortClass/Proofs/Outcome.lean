namespace ShortClass

variable {ε ε' α β : Type}

theorem eq_ok_of_toOption {x : Except ε α} {a : α} (h : x.toOption = some a) : x = .ok a := by
  cases x with
  | error e => simp [Except.toOption] at h
  | ok b => rw [Option.some.inj h]

theorem exists_error_of_toOption {x : Except ε α} (h : x.toOption = none) : ∃ e, x = .error e := by
  cases x with
  | error e => exact ⟨e, rfl⟩
  | ok a => simp [Except.toOption] at h

theorem bind_eq_ok_iff {x : Except ε α} {f : α → Except ε β} {b : β} :
    (x >>= f) = .ok b ↔ ∃ a, x = .ok a ∧ f a = .ok b := by
  cases x <;> simp [bind, Except.bind]

theorem mapError_eq_ok_iff {x : Except ε α} {f : ε → ε'} {a : α} : x.mapError f = .ok a ↔ x = .ok a := by
  cases x with
  | error e => exact ⟨nofun, nofun⟩
  | ok b =>
    constructor
    · intro h
      rw [Except.ok.inj h]
    · intro h
      rw [Except.ok.inj h]
      rfl

theorem exists_of_mapM {f : α → Except ε β} {xs : List α} {ys : List β} (h : xs.mapM f = .ok ys) {y : β}
    (hy : y ∈ ys) : ∃ x ∈ xs, f x = .ok y := by
  induction xs generalizing ys with
  | nil =>
    obtain rfl : [] = ys := Except.ok.inj h
    cases hy
  | cons x xs ih =>
    rw [List.mapM_cons, bind_eq_ok_iff] at h
    obtain ⟨first, hfirst, h⟩ := h
    obtain ⟨rest, hrest, hys⟩ := bind_eq_ok_iff.1 h
    obtain rfl : first :: rest = ys := Except.ok.inj hys
    rcases List.mem_cons.1 hy with rfl | hy
    · exact ⟨x, List.mem_cons_self, hfirst⟩
    · obtain ⟨x', hx', hfx'⟩ := ih hrest hy
      exact ⟨x', List.mem_cons_of_mem x hx', hfx'⟩

section InPlace

variable {σ : Type}

def outcome : EStateM.Result ε σ Unit → Except ε σ
  | .ok _ s => .ok s
  | .error e _ => .error e

/-- The state that a call leaves, whether it ended or failed. -/
def left : EStateM.Result ε σ Unit → σ
  | .ok _ s => s
  | .error _ s => s

theorem outcome_eq_ok_iff {r : EStateM.Result ε σ Unit} {s : σ} : outcome r = .ok s ↔ r = .ok () s := by
  cases r <;> simp [outcome]

theorem outcome_bind (x y : EStateM ε σ Unit) (s : σ) :
    outcome ((x >>= fun _ => y).run s) = outcome (x.run s) >>= fun s' => outcome (y.run s') := by
  rw [EStateM.run_bind]
  cases x.run s <;> rfl

theorem outcome_get_bind (f : σ → EStateM ε σ Unit) (s : σ) :
    outcome ((get >>= f).run s) = outcome ((f s).run s) := rfl

theorem outcome_modify_bind (g : σ → σ) (x : EStateM ε σ Unit) (s : σ) :
    outcome ((modify g >>= fun _ => x).run s) = outcome (x.run (g s)) := rfl

theorem outcome_forM (f : α → EStateM ε σ Unit) (as : List α) (s : σ) :
    outcome ((forM as f).run s) = as.foldlM (fun s a => outcome ((f a).run s)) s := by
  induction as generalizing s with
  | nil => rfl
  | cons a as ih =>
    rw [List.forM_cons, outcome_bind, List.foldlM_cons]
    simp only [ih]

theorem left_forM {P : σ → Prop} {f : α → EStateM ε σ Unit} {as : List α}
    (hf : ∀ a ∈ as, ∀ s, P s → P (left ((f a).run s))) {s : σ} (hs : P s) : P (left ((forM as f).run s)) := by
  induction as generalizing s with
  | nil => exact hs
  | cons a as ih =>
    have hfirst := hf a List.mem_cons_self s hs
    rw [List.forM_cons, EStateM.run_bind]
    cases hr : (f a).run s with
    | ok u s' =>
      rw [hr] at hfirst
      exact ih (fun b hb => hf b (List.mem_cons_of_mem a hb)) hfirst
    | error e s' =>
      rw [hr] at hfirst
      exact hfirst

end InPlace

end ShortClass
