import ShortClass.Proofs.Stylesheet.Derivation
import ShortClass.Proofs.Stylesheet.JoinedSheets

namespace ShortClass.Stylesheet

open Grammar

variable {b c : Builder} {last : Option Token} {bad : Option (Nat × Char)} {t : Token} {ts : List Token}

namespace Builder

theorem exists_closing (outer : List (Head × List Statement)) (done : List Statement) :
    ∃ (rest : List Token) (ss : List Statement), rest.foldlM step ⟨outer, done, none⟩ = some ⟨[], ss, none⟩ := by
  induction outer generalizing done with
  | nil => exact ⟨[], done, rfl⟩
  | cons o outer ih =>
    obtain ⟨h, before⟩ := o
    obtain ⟨rest, ss, hrest⟩ := ih (before ++ [h.block done])
    exact ⟨⟨.rbrace, ['\x7d'], 0⟩ :: rest, ss, hrest⟩

theorem exists_ending (b : Builder) :
    ∃ (rest : List Token) (ss : List Statement), rest.foldlM step b = some ⟨[], ss, none⟩ := by
  obtain ⟨outer, done, head⟩ := b
  cases head with
  | none => exact exists_closing outer done
  | some h =>
    obtain ⟨rest, ss, hrest⟩ := exists_closing outer (done ++ [h.line])
    exact ⟨⟨.semicolon, [';'], 0⟩ :: rest, ss, hrest⟩

end Builder

namespace Grammar

theorem derivable_iff : Derivable ts ↔ ∃ ss, ts.foldlM Builder.step {} = some ⟨[], ss, none⟩ := by
  constructor
  · rintro ⟨es, hes⟩
    exact ⟨statementsOf es, foldlM_builder_eq_iff.2 ⟨es, hes, rfl⟩⟩
  · rintro ⟨ss, hss⟩
    obtain ⟨es, hes, -⟩ := foldlM_builder_eq_iff.1 hss
    exact ⟨es, hes⟩

theorem viable_iff : Viable ts ↔ ∃ b, ts.foldlM Builder.step {} = some b := by
  constructor
  · rintro ⟨rest, hrest⟩
    obtain ⟨ss, hss⟩ := derivable_iff.1 hrest
    rw [List.foldlM_append] at hss
    obtain ⟨b, hb, -⟩ := Option.bind_eq_some_iff.1 hss
    exact ⟨b, hb⟩
  · rintro ⟨b, hb⟩
    -- the builder never gets stuck: from wherever it stands, some tokens end the sheet
    obtain ⟨rest, ss, hrest⟩ := b.exists_ending
    refine ⟨rest, derivable_iff.2 ⟨ss, ?_⟩⟩
    rw [List.foldlM_append, hb]
    exact hrest

end Grammar

theorem build_of_foldlM (h : ts.foldlM Builder.step b = some c) :
    build b last bad ts = build c (ts.getLast?.or last) bad [] := by
  induction ts generalizing b last with
  | nil =>
    cases h
    rfl
  | cons t ts ih =>
    rw [List.foldlM_cons] at h
    obtain ⟨b₁, hb, hrest⟩ := Option.bind_eq_some_iff.1 h
    rw [build, hb]
    refine (ih hrest).trans ?_
    cases ts with
    | nil => rfl
    | cons s ts => rw [List.getLast?_cons_cons, List.getLast?_cons, Option.some_or, Option.some_or]

theorem build_of_refused {before after : List Token} (h : before.foldlM Builder.step b = some c)
    (ht : c.step t = none) : build b last bad (before ++ t :: after) = .error (.unexpected t) := by
  induction before generalizing b last with
  | nil =>
    cases h
    rw [List.nil_append, build, ht]
  | cons s before ih =>
    rw [List.foldlM_cons] at h
    obtain ⟨b₁, hb, hrest⟩ := Option.bind_eq_some_iff.1 h
    rw [List.cons_append, build, hb]
    exact ih hrest

theorem exists_refused (h : ts.foldlM Builder.step b = none) :
    ∃ before t after c, ts = before ++ t :: after ∧ before.foldlM Builder.step b = some c ∧ c.step t = none := by
  induction ts generalizing b with
  | nil => simp at h
  | cons t ts ih =>
    cases hb : b.step t with
    | none => exact ⟨[], t, ts, b, rfl, rfl, hb⟩
    | some b₁ =>
      rw [List.foldlM_cons, hb] at h
      obtain ⟨before, s, after, c, rfl, hc, hs⟩ := ih h
      refine ⟨t :: before, s, after, c, rfl, ?_, hs⟩
      rw [List.foldlM_cons, hb]
      exact hc

/-- The tokens before `t` begin some sheet, and those with `t` do not. -/
def Grammar.Refuses (ts : List Token) (t : Token) : Prop :=
  ∃ before after, ts = before ++ t :: after ∧ Viable before ∧ ¬Viable (before ++ [t])

theorem build_of_refuses (h : Refuses ts t) : build {} none bad ts = .error (.unexpected t) := by
  obtain ⟨before, after, rfl, hviable, hnot⟩ := h
  obtain ⟨c, hc⟩ := viable_iff.1 hviable
  apply build_of_refused hc
  by_contra hstep
  obtain ⟨c', hc'⟩ := Option.ne_none_iff_exists'.1 hstep
  refine hnot (viable_iff.2 ⟨c', ?_⟩)
  rw [List.foldlM_append, hc]
  simp [hc']

theorem refuses_of_not_viable (h : ¬Viable ts) : ∃ t, Refuses ts t := by
  have hnone : ts.foldlM Builder.step {} = none := by
    by_contra hne
    exact h (viable_iff.2 (Option.ne_none_iff_exists'.1 hne))
  obtain ⟨before, t, after, c, rfl, hc, ht⟩ := exists_refused hnone
  refine ⟨t, before, after, rfl, viable_iff.2 ⟨c, hc⟩, fun hviable => ?_⟩
  obtain ⟨c', hc'⟩ := viable_iff.1 hviable
  rw [List.foldlM_append, hc] at hc'
  simp [ht] at hc'

theorem build_of_unreadable (h : Viable ts) (offset : Nat) (c : Char) :
    build {} none (some (offset, c)) ts = .error (.unreadable offset c) := by
  obtain ⟨b, hb⟩ := viable_iff.1 h
  rw [build_of_foldlM hb, build]

theorem build_of_derivable {es : List Entry} (h : tokensOf es = ts) :
    build {} none none ts = .ok (statementsOf es) :=
  (build_eq_ok_iff fun _ => rfl).2 (foldlM_builder_eq_iff.2 ⟨es, h, rfl⟩)

theorem build_of_unfinished (h : Viable ts) (hnot : ¬Derivable ts) :
    ∃ last, ts.getLast? = some last ∧ build {} none none ts = .error (.unexpectedEnd last) := by
  obtain ⟨b, hb⟩ := viable_iff.1 h
  have hopen : b.isComplete = false := by
    by_contra hc
    rw [Bool.not_eq_false, Builder.isComplete_iff] at hc
    exact hnot (derivable_iff.2 ⟨b.done, hc ▸ hb⟩)
  cases hlast : ts.getLast? with
  | none =>
    rw [List.getLast?_eq_none_iff.1 hlast] at hnot
    exact absurd ⟨[], rfl⟩ hnot
  | some last =>
    refine ⟨last, rfl, ?_⟩
    rw [build_of_foldlM hb, hlast]
    simp [build, hopen]

theorem build_cases (bad : Option (Nat × Char)) (ts : List Token) :
    (∃ t, Refuses ts t ∧ build {} none bad ts = .error (.unexpected t)) ∨
    (∃ offset c, Viable ts ∧ bad = some (offset, c) ∧ build {} none bad ts = .error (.unreadable offset c)) ∨
    (∃ es, tokensOf es = ts ∧ bad = none ∧ build {} none bad ts = .ok (statementsOf es)) ∨
    ∃ last, ts.getLast? = some last ∧ Viable ts ∧ ¬Derivable ts ∧ bad = none ∧
      build {} none bad ts = .error (.unexpectedEnd last) := by
  by_cases hviable : Viable ts
  · right
    cases bad with
    | some p => exact .inl ⟨p.1, p.2, hviable, rfl, build_of_unreadable hviable p.1 p.2⟩
    | none =>
      by_cases hderivable : Derivable ts
      · obtain ⟨es, hes⟩ := hderivable
        exact .inr (.inl ⟨es, hes, rfl, build_of_derivable hes⟩)
      · obtain ⟨last, hlast, herror⟩ := build_of_unfinished hviable hderivable
        exact .inr (.inr ⟨last, hlast, hviable, hderivable, rfl, herror⟩)
  · left
    obtain ⟨t, ht⟩ := refuses_of_not_viable hviable
    exact ⟨t, ht, build_of_refuses ht⟩

theorem build_follows_grammar (bad : Option (Nat × Char)) (ts : List Token) :
    (∀ ss, build {} none bad ts = .ok ss ↔ bad = none ∧ ∃ es, tokensOf es = ts ∧ statementsOf es = ss ∧
      (∀ fs, tokensOf fs = ts → fs = es) ∧ segmentsOf ss = ts.flatMap Token.segments) ∧
    (∀ t, build {} none bad ts = .error (.unexpected t) ↔ Refuses ts t) ∧
    (∀ last, build {} none bad ts = .error (.unexpectedEnd last) ↔
      bad = none ∧ ts.getLast? = some last ∧ Viable ts ∧ ¬Derivable ts) ∧
    ∀ offset c, build {} none bad ts = .error (.unreadable offset c) ↔ bad = some (offset, c) ∧ Viable ts := by
  have hcases := build_cases bad ts
  refine ⟨fun ss => ⟨fun h => ?_, ?_⟩, fun t => ⟨fun h => ?_, build_of_refuses⟩, fun last => ⟨fun h => ?_, ?_⟩,
    fun offset c => ⟨fun h => ?_, ?_⟩⟩
  · rw [h] at hcases
    obtain ⟨es, hes, rfl, hss⟩ : ∃ es, tokensOf es = ts ∧ bad = none ∧ ss = statementsOf es := by
      simpa using hcases
    have hsegments := segmentsOf_build (fun _ => rfl) h
    exact ⟨rfl, es, hes, hss.symm, fun fs hfs => tokensOf_injective (hfs.trans hes.symm), hsegments⟩
  · rintro ⟨rfl, es, hes, rfl, -⟩
    exact build_of_derivable hes
  · rw [h] at hcases
    simpa using hcases
  · rw [h] at hcases
    have hend : ts.getLast? = some last ∧ Viable ts ∧ ¬Derivable ts ∧ bad = none := by simpa using hcases
    exact ⟨hend.2.2.2, hend.1, hend.2.1, hend.2.2.1⟩
  · rintro ⟨rfl, hlast, hviable, hnot⟩
    obtain ⟨last', hlast', herror⟩ := build_of_unfinished hviable hnot
    obtain rfl : last = last' := Option.some.inj (hlast.symm.trans hlast')
    exact herror
  · rw [h] at hcases
    have hread : Viable ts ∧ bad = some (offset, c) := by simpa using hcases
    exact ⟨hread.2, hread.1⟩
  · rintro ⟨rfl, hviable⟩
    exact build_of_unreadable hviable offset c

end ShortClass.Stylesheet
