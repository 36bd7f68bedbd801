import ShortClass.Proofs.Program.Stretches

namespace ShortClass.Program

variable {p : Program} {lookup : Text → Option Text}

inductive Reached (p : Program) : Ancestry → Node → Prop where
  | root : Reached p [] p.root
  | child {path : Ancestry} {parent n : Node} {index : Nat} : Reached p path parent → parent.kind ≠ .string →
    parent.children[index]? = some n → Reached p (⟨parent, index⟩ :: path) n

theorem Reached.nested (hp : p.WellNested) {path : Ancestry} {n : Node} (h : p.Reached path n) :
    n.Nested ∧ n.stop ≤ p.source.length := by
  induction h with
  | root => exact ⟨hp.root, hp.inside⟩
  | child _ hk hn ih =>
    obtain ⟨hnested, hle⟩ := ih.1.of_mem hk (List.mem_of_getElem? hn)
    exact ⟨hnested, by omega⟩

def IsLiteralAt (p : Program) (l : Literal) (path : Ancestry) (n : Node) : Prop :=
  n.kind = .string ∧ l = p.stringLiteral path n ∨ n.kind = .template ∧ l = p.templateLiteral path n

theorem mem_literalsIn_cases {l : Literal} {path : Ancestry} {n : Node} (h : l ∈ p.literalsIn path n) :
    p.IsLiteralAt l path n ∨ n.kind ≠ .string ∧ l ∈ p.literalsInAll n path 0 n.children := by
  by_cases hs : n.kind = .string
  · rw [literalsIn_of_string hs] at h
    exact .inl (.inl ⟨hs, List.mem_singleton.1 h⟩)
  by_cases ht : n.kind = .template
  · rw [literalsIn_of_template ht] at h
    rcases List.mem_cons.1 h with h | h
    · exact .inl (.inr ⟨ht, h⟩)
    · exact .inr ⟨hs, h⟩
  · rw [literalsIn_of_other hs ht] at h
    exact .inr ⟨hs, h⟩

mutual

theorem exists_reached_of_mem_literalsIn {l : Literal} :
    (n : Node) → (path : Ancestry) → p.Reached path n → l ∈ p.literalsIn path n →
      ∃ path' n', p.Reached path' n' ∧ p.IsLiteralAt l path' n'
  | .mk _ _ _ children, path, h, hl => by
    rcases mem_literalsIn_cases hl with hat | ⟨hk, hl⟩
    · exact ⟨path, _, h, hat⟩
    · exact exists_reached_of_mem_literalsInAll children h hk 0 (fun k n hn => by rwa [Nat.zero_add]) hl

theorem exists_reached_of_mem_literalsInAll {l : Literal} {path : Ancestry} {parent : Node} :
    (ns : List Node) → p.Reached path parent → parent.kind ≠ .string → (index : Nat) →
      (∀ k n, ns[k]? = some n → parent.children[index + k]? = some n) →
      l ∈ p.literalsInAll parent path index ns → ∃ path' n', p.Reached path' n' ∧ p.IsLiteralAt l path' n'
  | [], _, _, _, _, hl => by simp [literalsInAll] at hl
  | n :: ns, h, hk, index, hns, hl => by
    rw [literalsInAll] at hl
    rcases List.mem_append.1 hl with hl | hl
    · exact exists_reached_of_mem_literalsIn n _ (.child h hk (hns 0 n rfl)) hl
    · refine exists_reached_of_mem_literalsInAll ns h hk (index + 1) (fun k m hm => ?_) hl
      have hm := hns (k + 1) m hm
      rwa [Nat.add_assoc, Nat.add_comm 1 k]

end

theorem exists_reached_of_mem_literals {l : Literal} (h : l ∈ p.literals) :
    ∃ path n, p.Reached path n ∧ p.IsLiteralAt l path n :=
  exists_reached_of_mem_literalsIn p.root [] .root h

theorem Reached.within_root (hp : p.WellNested) {path : Ancestry} {n : Node} (h : p.Reached path n)
    (lookup : Text → Option Text) :
    (p.nodeStretch lookup path n).Within p (p.nodeStretch lookup [] p.root) := by
  induction h with
  | root => exact .refl p _
  | child hparent hk hn ih =>
    obtain ⟨hnested, hin⟩ := hparent.nested hp
    have hle := (hnested.of_mem hk (List.mem_of_getElem? hn)).1.le
    exact (child_within_node hnested hin hk hn).trans hp.inside hle ih

theorem WellNested.rename_stretch (hp : p.WellNested) (lookup : Text → Option Text) :
    ∃ new, p.rename lookup = .ok new ∧ ∀ path n, p.Reached path n → ∀ s : Stretch, s.start ≤ s.stop →
      Spliced s.start (p.text s.start s.stop) s.edits s.text → s.Within p (p.nodeStretch lookup path n) →
      p.Rewrites lookup s.start s.stop s.text new := by
  obtain ⟨new, hnew, hroot⟩ := hp.root_within lookup
  refine ⟨new, hnew, fun path n hn s hle hs hin => ?_⟩
  have hsource := (hin.trans hp.inside hle (hn.within_root hp lookup)).trans (Nat.le_refl _) hle hroot
  exact hsource.rewrites hs

theorem WellNested.rename_reached (hp : p.WellNested) (lookup : Text → Option Text) :
    ∃ new, p.rename lookup = .ok new ∧ ∀ path n, p.Reached path n →
      p.Rewrites lookup n.start n.stop (p.newText lookup path n) new := by
  obtain ⟨new, hnew, hrewrites⟩ := hp.rename_stretch lookup
  refine ⟨new, hnew, fun path n hn => ?_⟩
  obtain ⟨hnested, hin⟩ := hn.nested hp
  exact hrewrites path n hn (p.nodeStretch lookup path n) hnested.le (spliced_newText p lookup n path hnested hin)
    (.refl p _)

end ShortClass.Program
