import ShortClass.Program.Parse
import ShortClass.Proofs.Program.Grammar.Statement

namespace ShortClass.Program

theorem reads_production {g : Grammar} (hg : ∀ n, Reads (g n)) (n : Nonterminal) : Reads (production g n) := by
  cases n with
  | expression inWord => exact Grammar.reads_expression hg inWord
  | operators level inWord => exact Grammar.reads_operators hg level inWord
  | unary => exact Grammar.reads_unary hg
  | callee calls => exact Grammar.reads_callee hg calls
  | element => exact Grammar.reads_element hg
  | binding => exact Grammar.reads_binding hg
  | statement => exact Grammar.reads_statement hg

theorem reads_grammar (depth : Nat) : ∀ n, Reads (grammar depth n) := by
  induction depth with
  | zero =>
    intro n c
    exact ensures_fail
  | succ depth ih => exact reads_production ih

theorem ensures_wholeText {g : Grammar} (hg : ∀ n, Reads (g n)) (c : Cursor) :
    Ensures (wholeText g) c (Stands c.pos c.stop) := by
  have hitem : Yields (fun n => [n]) (do
      if (← Parser.ahead).isEmpty then return none else return some (← g .statement)) := by
    intro c
    apply ahead_bind
    intro s hs
    exact ensures_ite (yields_none c) ((hg _).yields c)
  apply get_bind
  apply hitem.lists.bind
  intro ns d hns hd
  exact ensures_node (by decide) hns (by omega)

theorem hashbangLength_le (source : List Char) : hashbangLength source ≤ source.length := by
  unfold hashbangLength
  dsimp only
  generalize hmark : (if source.head? = some '\uFEFF' then 1 else 0) = mark
  have hle : mark ≤ source.length := by
    subst hmark
    split
    · next h => exact List.length_pos_of_mem (List.mem_of_head? h)
    · simp
  split
  · have hrun := (List.takeWhile_prefix (fun c => !isLineEnd c) (l := source.drop mark)).length_le
    rw [List.length_drop] at hrun
    omega
  · simp

theorem wellNested_of_parse {source : List Char} {p : Program} (h : parse? source = some p) : p.WellNested := by
  unfold parse? at h
  obtain ⟨⟨root, d⟩, hrun, h⟩ := Option.bind_eq_some_iff.1 h
  obtain ⟨-, h⟩ := Option.ite_none_left_eq_some.1 h
  obtain rfl := Option.some.inj h
  obtain ⟨hroot, -, hstop, hend⟩ := (ensures_wholeText (reads_grammar _) _).of_run root d hrun
  have hle := hashbangLength_le source
  simp only [Cursor.stop, List.length_drop] at hend
  exact ⟨hroot, by dsimp only; omega⟩

end ShortClass.Program
