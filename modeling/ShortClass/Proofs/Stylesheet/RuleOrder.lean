import ShortClass.Stylesheet

namespace ShortClass.Stylesheet

def IsOpaque (name : List Char) : Prop :=
  ∃ n ∈ plainAtRules, name.map asciiLower = n.toList.map asciiLower

theorem isPlainAtRule_iff {name : List Char} : isPlainAtRule name = true ↔ IsOpaque name := by
  have hlower : ∀ n ∈ plainAtRules, n.toList.map asciiLower = n.toList := by decide
  rw [isPlainAtRule, List.contains_iff_mem, IsOpaque]
  constructor
  · intro h
    exact ⟨_, h, by rw [hlower _ h, String.toList_ofList]⟩
  · rintro ⟨n, hn, heq⟩
    rw [heq, hlower n hn, String.ofList_toList]
    exact hn

/-- In a statement there is, at the address, a rule with the prelude, and no opaque at-rule around it. -/
inductive Statement.Meets : Statement → List Nat → List Segment → Prop where
  | here {p : List Segment} {children : List Statement} : Meets (.rule p children) [] p
  | inRule {p q : List Segment} {children : List Statement} {i : Nat} {a : List Nat} {s : Statement} :
    children[i]? = some s → s.Meets a q → Meets (.rule p children) (i :: a) q
  | inAtRule {name : List Char} {p q : List Segment} {children : List Statement} {i : Nat} {a : List Nat}
      {s : Statement} :
    ¬IsOpaque name → children[i]? = some s → s.Meets a q → Meets (.atBlock name p children) (i :: a) q

def Meets (ss : List Statement) (a : List Nat) (p : List Segment) : Prop :=
  ∃ i b s, a = i :: b ∧ ss[i]? = some s ∧ s.Meets b p

mutual

def Statement.met : Statement → List (List Nat × List Segment)
  | .rule p children => ([], p) :: metFrom 0 children
  | .atBlock name _ children => if isPlainAtRule name then [] else metFrom 0 children
  | .atLine _ _ => []
  | .declaration _ => []

def metFrom (i : Nat) : List Statement → List (List Nat × List Segment)
  | [] => []
  | s :: ss => s.met.map (fun m => (i :: m.1, m.2)) ++ metFrom (i + 1) ss

end

mutual

theorem Statement.map_snd_met : (s : Statement) → s.met.map Prod.snd = s.selectors
  | .rule p children => by rw [Statement.met, Statement.selectors, List.map_cons, map_snd_metFrom 0 children]
  | .atBlock name p children => by
    rw [Statement.met, Statement.selectors]
    split
    · rfl
    · exact map_snd_metFrom 0 children
  | .atLine _ _ => by rw [Statement.met, Statement.selectors, List.map_nil]
  | .declaration _ => by rw [Statement.met, Statement.selectors, List.map_nil]

theorem map_snd_metFrom (i : Nat) : (ss : List Statement) → (metFrom i ss).map Prod.snd = selectorsOf ss
  | [] => by rw [metFrom, selectorsOf, List.map_nil]
  | s :: ss => by
    rw [metFrom, selectorsOf, List.map_append, List.map_map, map_snd_metFrom (i + 1) ss, ← s.map_snd_met]
    rfl

end

theorem le_of_mem_metFrom {i : Nat} {ss : List Statement} {m : List Nat × List Segment} (h : m ∈ metFrom i ss) :
    ∃ j b, m.1 = j :: b ∧ i ≤ j := by
  induction ss generalizing i with
  | nil => simp [metFrom] at h
  | cons s ss ih =>
    rw [metFrom, List.mem_append] at h
    rcases h with h | h
    · obtain ⟨n, -, rfl⟩ := List.mem_map.1 h
      exact ⟨i, n.1, rfl, Nat.le_refl i⟩
    · obtain ⟨j, b, hj, hle⟩ := ih h
      exact ⟨j, b, hj, by omega⟩

mutual

theorem Statement.met_pairwise : (s : Statement) → s.met.Pairwise fun m n => m.1 < n.1
  | .rule p children => by
    rw [Statement.met]
    refine .cons (fun m hm => ?_) (metFrom_pairwise 0 children)
    obtain ⟨j, b, hj, -⟩ := le_of_mem_metFrom hm
    rw [hj]
    exact List.nil_lt_cons j b
  | .atBlock name _ children => by
    rw [Statement.met]
    split
    · exact .nil
    · exact metFrom_pairwise 0 children
  | .atLine _ _ => by rw [Statement.met]; exact .nil
  | .declaration _ => by rw [Statement.met]; exact .nil

theorem metFrom_pairwise (i : Nat) : (ss : List Statement) → (metFrom i ss).Pairwise fun m n => m.1 < n.1
  | [] => by rw [metFrom]; exact .nil
  | s :: ss => by
    rw [metFrom]
    refine List.pairwise_append.2 ⟨?_, metFrom_pairwise (i + 1) ss, fun m hm n hn => ?_⟩
    · exact List.pairwise_map.2 (s.met_pairwise.imp fun h => List.cons_lt_cons_iff.2 (.inr ⟨rfl, h⟩))
    · obtain ⟨k, -, rfl⟩ := List.mem_map.1 hm
      obtain ⟨j, b, hj, hle⟩ := le_of_mem_metFrom hn
      rw [hj]
      exact List.cons_lt_cons_iff.2 (.inl (by omega))

end

mutual

theorem Statement.mem_met_iff : (s : Statement) → ∀ a p, (a, p) ∈ s.met ↔ s.Meets a p
  | .rule q children => by
    intro a p
    rw [Statement.met, List.mem_cons, mem_metFrom_iff 0 children]
    constructor
    · rintro (h | ⟨i, b, s, rfl, hs, hm⟩)
      · cases h
        exact .here
      · rw [Nat.zero_add]
        exact .inRule hs hm
    · intro h
      cases h with
      | here => exact .inl rfl
      | @inRule _ _ _ i b s hs hm => exact .inr ⟨i, b, s, by rw [Nat.zero_add], hs, hm⟩
  | .atBlock name _ children => by
    intro a p
    rw [Statement.met]
    split
    · next hname =>
      refine ⟨fun h => absurd h List.not_mem_nil, fun h => ?_⟩
      cases h with
      | inAtRule hopen => exact absurd (isPlainAtRule_iff.1 hname) hopen
    · next hname =>
      rw [mem_metFrom_iff 0 children]
      constructor
      · rintro ⟨i, b, s, rfl, hs, hm⟩
        rw [Nat.zero_add]
        exact .inAtRule (fun h => hname (isPlainAtRule_iff.2 h)) hs hm
      · intro h
        cases h with
        | @inAtRule _ _ _ _ i b s _ hs hm => exact ⟨i, b, s, by rw [Nat.zero_add], hs, hm⟩
  | .atLine _ _ => by
    intro a p
    rw [Statement.met]
    exact ⟨fun h => absurd h List.not_mem_nil, nofun⟩
  | .declaration _ => by
    intro a p
    rw [Statement.met]
    exact ⟨fun h => absurd h List.not_mem_nil, nofun⟩

theorem mem_metFrom_iff (i : Nat) : (ss : List Statement) → ∀ a p,
    (a, p) ∈ metFrom i ss ↔ ∃ j b s, a = (i + j) :: b ∧ ss[j]? = some s ∧ s.Meets b p
  | [] => by
    intro a p
    simp [metFrom]
  | s :: ss => by
    intro a p
    rw [metFrom, List.mem_append, List.mem_map, mem_metFrom_iff (i + 1) ss]
    constructor
    · rintro (⟨⟨b, q⟩, hq, heq⟩ | ⟨j, b, t, rfl, ht, hm⟩)
      · cases heq
        exact ⟨0, b, s, rfl, rfl, (s.mem_met_iff b q).1 hq⟩
      · exact ⟨j + 1, b, t, by rw [Nat.add_assoc, Nat.add_comm 1], ht, hm⟩
    · rintro ⟨j, b, t, rfl, ht, hm⟩
      cases j with
      | zero =>
        obtain rfl : s = t := Option.some.inj ht
        exact .inl ⟨(b, p), (s.mem_met_iff b p).2 hm, rfl⟩
      | succ j => exact .inr ⟨j, b, t, by rw [Nat.add_assoc, Nat.add_comm 1], ht, hm⟩

end

theorem mem_met_iff {ss : List Statement} {a : List Nat} {p : List Segment} :
    (a, p) ∈ metFrom 0 ss ↔ Meets ss a p := by
  rw [mem_metFrom_iff]
  simp only [Nat.zero_add]
  rfl

end ShortClass.Stylesheet
