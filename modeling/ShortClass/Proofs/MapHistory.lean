import Mathlib.Data.List.Induction
import ShortClass.Proofs.Allocation
import ShortClass.Proofs.InPlace

namespace ShortClass.ClassMap

variable {m : ClassMap} {c n : ClassName}

inductive Call where
  | assign (c name : ClassName)
  | clear

def Call.run : Call → InPlace Unit
  | .assign c name => assignIn c name
  | .clear => clearIn

/-- The assignments made since the map was last cleared, after one more call and its answer. -/
def madeBy (made : List (ClassName × ClassName)) : Call → Except AssignError ClassMap → List (ClassName × ClassName)
  | .assign c name, .ok _ => made ++ [(c, name)]
  | .assign _ _, .error _ => made
  | .clear, _ => []

structure History where
  map : ClassMap := {}
  made : List (ClassName × ClassName) := []

def History.call (h : History) (call : Call) : History :=
  let r := call.run.run h.map
  ⟨left r, madeBy h.made call (outcome r)⟩

def history (calls : List Call) : History := calls.foldl History.call {}

theorem history_append (calls : List Call) (call : Call) :
    history (calls ++ [call]) = (history calls).call call := by
  rw [history, List.foldl_append]
  rfl

theorem History.call_assign_of_error {h : History} {e : AssignError} {m' : ClassMap}
    (herror : (assignIn c n).run h.map = .error e m') : h.call (.assign c n) = ⟨m', h.made⟩ := by
  simp [call, Call.run, herror, left, outcome, madeBy]

theorem History.call_assign_of_ok {h : History} {m' : ClassMap} (hok : (assignIn c n).run h.map = .ok () m') :
    h.call (.assign c n) = ⟨m', h.made ++ [(c, n)]⟩ := by
  simp [call, Call.run, hok, left, outcome, madeBy]

theorem History.call_clear (h : History) : h.call .clear = ⟨h.map.clear, []⟩ := rfl

def renamed (m : ClassMap) : List (ClassName × ClassName) := m.entries.filter fun e => e.1 != e.2

theorem mem_names_renamed : n ∈ m.renamed.map Prod.snd ↔ ∃ d, d ≠ n ∧ (d, n) ∈ m.entries := by
  simp only [renamed, List.mem_map, List.mem_filter, bne_iff_ne, Prod.exists, exists_eq_right]
  exact exists_congr fun d => And.comm

structure Consistent (m : ClassMap) : Prop where
  keys : m.keys.Nodup
  taken : m.taken = m.renamed.map Prod.snd
  names : (m.renamed.map Prod.snd).Nodup

theorem consistent_new : Consistent {} := ⟨.nil, rfl, .nil⟩

theorem Consistent.add (h : m.Consistent) (hc : c ∉ m.keys) (hn : c = n ∨ n ∉ m.taken) :
    Consistent ⟨m.entries ++ [(c, n)], if c = n then m.taken else m.taken ++ [n]⟩ := by
  have hrenamed : renamed ⟨m.entries ++ [(c, n)], if c = n then m.taken else m.taken ++ [n]⟩ =
      m.renamed ++ if c = n then [] else [(c, n)] := by
    simp only [renamed, List.filter_append]
    split
    · next heq => simp [heq]
    · next hne => simp [hne]
  have hkeys : (m.entries ++ [(c, n)]).map Prod.fst = m.keys ++ [c] := List.map_append
  refine ⟨?_, ?_, ?_⟩
  · rw [ClassMap.keys, hkeys]
    exact h.keys.append (List.nodup_singleton c) (by simpa using hc)
  · rw [hrenamed, h.taken]
    split <;> simp
  · rw [hrenamed]
    split
    · simpa using h.names
    · next hne =>
      have hfree : n ∉ m.renamed.map Prod.snd := h.taken ▸ hn.resolve_left hne
      rw [List.map_append]
      exact h.names.append (List.nodup_singleton n) (by simpa using hfree)

theorem consistent_call {h : History} (hmap : h.map.Consistent) (hmade : h.map.entries = h.made) (call : Call) :
    (h.call call).map.Consistent ∧ (h.call call).map.entries = (h.call call).made := by
  cases call with
  | clear =>
    rw [History.call_clear]
    exact ⟨consistent_new, rfl⟩
  | assign c n =>
    rcases assignIn_cases h.map c n with ⟨current, -, hrun⟩ | ⟨-, -, -, hrun⟩ | ⟨hc, hn, hrun⟩
    · rw [History.call_assign_of_error hrun]
      exact ⟨hmap, hmade⟩
    · rw [History.call_assign_of_error hrun]
      exact ⟨hmap, hmade⟩
    · rw [History.call_assign_of_ok hrun]
      exact ⟨hmap.add (get?_eq_none_iff.1 hc) hn, by rw [hmade]⟩

theorem consistent_history (calls : List Call) :
    (history calls).map.Consistent ∧ (history calls).map.entries = (history calls).made := by
  induction calls using List.reverseRecOn with
  | nil => exact ⟨consistent_new, rfl⟩
  | append_singleton calls call ih =>
    rw [history_append]
    exact consistent_call ih.1 ih.2 call

theorem Consistent.assignIn_iff (h : m.Consistent) (c n : ClassName) :
    ((∃ current m', (assignIn c n).run m = .error (.mapped c current) m') ↔ c ∈ m.keys) ∧
    ((∃ m', (assignIn c n).run m = .error (.allocated n) m') ↔
      c ∉ m.keys ∧ c ≠ n ∧ ∃ d, d ≠ n ∧ (d, n) ∈ m.entries) ∧
    ((∃ m', (assignIn c n).run m = .ok () m') ↔ c ∉ m.keys ∧ (c = n ∨ ∀ d, d ≠ n → (d, n) ∉ m.entries)) := by
  have htaken : n ∈ m.taken ↔ ∃ d, d ≠ n ∧ (d, n) ∈ m.entries := by rw [h.taken, mem_names_renamed]
  rcases assignIn_cases m c n with ⟨current, hget, hrun⟩ | ⟨hget, hne, hn, hrun⟩ | ⟨hget, hn, hrun⟩
  · have hc : c ∈ m.keys := mem_keys_iff.2 ⟨current, hget⟩
    simp [hrun, hc]
  · have hc : c ∉ m.keys := get?_eq_none_iff.1 hget
    obtain ⟨d, hd, hmem⟩ := htaken.1 hn
    exact ⟨by simp [hrun, hc], by simp [hrun, hc, hne, htaken.1 hn], by simpa [hrun, hc, hne] using ⟨d, hd, hmem⟩⟩
  · have hc : c ∉ m.keys := get?_eq_none_iff.1 hget
    refine ⟨by simp [hrun, hc], ?_, ?_⟩
    · simp only [hrun, hc, not_false_eq_true, true_and, reduceCtorEq, exists_false, false_iff, not_and]
      intro hne hmem
      exact hn.resolve_left hne (htaken.2 hmem)
    · simp only [hrun, hc, not_false_eq_true, true_and, EStateM.Result.ok.injEq, exists_eq', true_iff]
      refine hn.imp_right fun hfree d hd hmem => ?_
      exact hfree (htaken.2 ⟨d, hd, hmem⟩)

theorem history_keeps_invariant {calls : List Call} {made : List (ClassName × ClassName)}
    (h : history calls = ⟨m, made⟩) :
    m.keys.Nodup ∧ m.entries = made ∧
    (∀ n, n ∈ m.taken ↔ ∃ c, c ≠ n ∧ (c, n) ∈ m.entries) ∧ (m.renamed.map Prod.snd).Nodup ∧
    (∀ c n, ((∃ current m', (assignIn c n).run m = .error (.mapped c current) m') ↔ c ∈ m.keys) ∧
      ((∃ m', (assignIn c n).run m = .error (.allocated n) m') ↔
        c ∉ m.keys ∧ c ≠ n ∧ ∃ d, d ≠ n ∧ (d, n) ∈ m.entries) ∧
      ((∃ m', (assignIn c n).run m = .ok () m') ↔ c ∉ m.keys ∧ (c = n ∨ ∀ d, d ≠ n → (d, n) ∉ m.entries))) ∧
    (∀ c n e m', (assignIn c n).run m = .error e m' →
      m' = m ∧ history (calls ++ [.assign c n]) = history calls) ∧
    ∀ c n, outcome ((assignIn c n).run m) = m.assign c n := by
  obtain ⟨hmap, hmade⟩ := consistent_history calls
  rw [h] at hmap hmade
  refine ⟨hmap.keys, hmade, fun n => by rw [hmap.taken, mem_names_renamed], hmap.names, hmap.assignIn_iff,
    fun c n e m' herror => ?_, fun c n => outcome_assignIn c n m⟩
  obtain rfl := left_assignIn_of_error herror
  refine ⟨rfl, ?_⟩
  rw [history_append, h, History.call_assign_of_error herror]

section Refused

def refusedCalls : List Call :=
  [.assign "old".toList "x".toList, .clear, .assign "a".toList "x".toList, .assign "x".toList "x".toList,
    .assign "a".toList "y".toList, .assign "b".toList "x".toList]

def refusedEntries : List (ClassName × ClassName) := [("a".toList, "x".toList), ("x".toList, "x".toList)]

theorem history_keeps_invariant_refused :
    history refusedCalls = ⟨⟨refusedEntries, ["x".toList]⟩, refusedEntries⟩ ∧
    (∃ d, d ≠ "x".toList ∧ (d, "x".toList) ∈ refusedEntries) ∧
    history (refusedCalls ++ [.assign "b".toList "x".toList]) = history refusedCalls := by
  have hcalls : history refusedCalls = ⟨⟨refusedEntries, ["x".toList]⟩, refusedEntries⟩ := rfl
  obtain ⟨-, -, -, -, hassign, hkept, -⟩ := history_keeps_invariant hcalls
  have herror : (assignIn "b".toList "x".toList).run ⟨refusedEntries, ["x".toList]⟩ =
      .error (.allocated "x".toList) ⟨refusedEntries, ["x".toList]⟩ := rfl
  exact ⟨hcalls, ((hassign _ _).2.1.1 ⟨_, herror⟩).2.2, (hkept _ _ _ _ herror).2⟩

end Refused

end ShortClass.ClassMap
