import Mathlib.Data.List.TakeWhile
import ShortClass.Proofs.Program.GrammarShapes
import ShortClass.Proofs.Program.JoinFlags
import ShortClass.Proofs.Program.ReachedNodes

namespace ShortClass.Program

mutual

/-- The operands from left to right, each with the links above it. Parentheses are seen through, and what is no
concatenation is its own only operand. -/
def operands (path : Ancestry) : Node → List (Ancestry × Node)
  | .mk .sum s e cs => operandsAll (.mk .sum s e cs) path 0 cs
  | .mk .sumAssignment s e cs => operandsAll (.mk .sumAssignment s e cs) path 0 cs
  | .mk .parenthesized s e cs => operandsAll (.mk .parenthesized s e cs) path 0 cs
  | n => [(path, n)]

def operandsAll (parent : Node) (path : Ancestry) (index : Nat) : List Node → List (Ancestry × Node)
  | [] => []
  | n :: ns => operands (⟨parent, index⟩ :: path) n ++ operandsAll parent path (index + 1) ns

end

inductive LeadsTo (above : Ancestry) (top : Node) : Ancestry → Node → Nat → Prop where
  | top : LeadsTo above top above top 0
  | parentheses {path : Ancestry} {parent n : Node} {index links : Nat} : LeadsTo above top path parent links →
    parent.kind = .parenthesized → parent.children[index]? = some n →
    LeadsTo above top (⟨parent, index⟩ :: path) n links
  | operand {path : Ancestry} {parent n : Node} {index links : Nat} : LeadsTo above top path parent links →
    parent.kind = .sum ∨ parent.kind = .sumAssignment → parent.children[index]? = some n →
    LeadsTo above top (⟨parent, index⟩ :: path) n (links + 1)

def Ancestry.IsOutermost (above : Ancestry) : Prop :=
  ∀ parentheses l rest, above = parentheses ++ l :: rest → (∀ m ∈ parentheses, m.parent.kind = .parenthesized) →
    l.parent.kind ≠ .sum ∧ l.parent.kind ≠ .sumAssignment

section Operands

variable {path : Ancestry} {n : Node}

theorem operands_of_arity {k : Nat} (h : n.kind.arity? = some k) :
    operands path n = operandsAll n path 0 n.children := by
  obtain ⟨kind, s, e, cs⟩ := n
  cases kind
  case sum | sumAssignment | parenthesized => rw [operands]; rfl
  all_goals simp [Node.kind, Kind.arity?] at h

theorem operands_of_arity_none (h : n.kind.arity? = none) : operands path n = [(path, n)] := by
  obtain ⟨kind, s, e, cs⟩ := n
  cases kind
  case sum | sumAssignment | parenthesized => simp [Node.kind, Kind.arity?] at h
  all_goals rw [operands] <;> simp

theorem operands_ne_nil (h : n.Shaped) (path : Ancestry) : operands path n ≠ [] := by
  induction h generalizing path with
  | @mk kind start stop cs hk _ ih =>
    cases hkind : kind.arity? with
    | none => simp [operands_of_arity_none (n := .mk kind start stop cs) hkind]
    | some k =>
      rw [operands_of_arity (n := .mk kind start stop cs) hkind, Node.children]
      have hlength := hk k hkind
      have hpos : 0 < k := by cases kind <;> simp [Kind.arity?] at hkind <;> omega
      cases cs with
      | nil => simp at hlength; omega
      | cons c cs =>
        rw [operandsAll]
        exact List.append_ne_nil_of_left_ne_nil (ih c List.mem_cons_self _) _

mutual

theorem suffix_of_mem_operands : {n : Node} → {path : Ancestry} → {x : Ancestry × Node} → x ∈ operands path n →
    path <:+ x.1
  | .mk kind s e cs, path, x, h => by
    cases hkind : kind.arity? with
    | none =>
      rw [operands_of_arity_none (n := .mk kind s e cs) hkind, List.mem_singleton] at h
      subst h
      exact List.suffix_refl path
    | some k =>
      rw [operands_of_arity (n := .mk kind s e cs) hkind] at h
      obtain ⟨j, -, hj⟩ := suffix_of_mem_operandsAll h
      exact (List.suffix_cons _ _).trans hj

theorem suffix_of_mem_operandsAll : {ns : List Node} → {parent : Node} → {path : Ancestry} → {index : Nat} →
    {x : Ancestry × Node} → x ∈ operandsAll parent path index ns → ∃ j, index ≤ j ∧ ⟨parent, j⟩ :: path <:+ x.1
  | [], _, _, _, _, h => by simp [operandsAll] at h
  | n :: ns, parent, path, index, x, h => by
    rw [operandsAll] at h
    rcases List.mem_append.1 h with h | h
    · exact ⟨index, Nat.le_refl _, suffix_of_mem_operands h⟩
    · obtain ⟨j, hj, hsuffix⟩ := suffix_of_mem_operandsAll h
      exact ⟨j, by omega, hsuffix⟩

end

mutual

theorem nodup_operands : (n : Node) → (path : Ancestry) → (operands path n).Nodup
  | .mk kind s e cs, path => by
    cases hkind : kind.arity? with
    | none =>
      rw [operands_of_arity_none (n := .mk kind s e cs) hkind]
      exact List.nodup_singleton _
    | some k =>
      rw [operands_of_arity (n := .mk kind s e cs) hkind]
      exact nodup_operandsAll cs _ path 0

theorem nodup_operandsAll : (ns : List Node) → (parent : Node) → (path : Ancestry) → (index : Nat) →
    (operandsAll parent path index ns).Nodup
  | [], _, _, _ => .nil
  | n :: ns, parent, path, index => by
    rw [operandsAll]
    refine (nodup_operands n _).append (nodup_operandsAll ns parent path (index + 1)) fun x hx hx' => ?_
    obtain ⟨j, hj, hsuffix'⟩ := suffix_of_mem_operandsAll hx'
    have hsuffix := suffix_of_mem_operands hx
    have hsame := (List.suffix_of_suffix_length_le hsuffix hsuffix' (by simp)).eq_of_length (by simp)
    have hindex : index = j := congrArg Link.index (List.cons.inj hsame).1
    omega

end

end Operands

def TellsWithin (links : Nat) (left right : Bool) (path : Ancestry) : Prop :=
  ∀ bound, links ≤ bound → ∀ leftmost rightmost,
    path.joinsUpTo bound leftmost rightmost = ⟨leftmost && left, rightmost && right⟩

namespace TellsWithin

variable {links : Nat} {left right : Bool} {path : Ancestry} {parent : Node} {index : Nat}

theorem outermost (h : path.IsOutermost) : TellsWithin 0 false false path := by
  intro bound _ leftmost rightmost
  rw [Bool.and_false, Bool.and_false]
  cases bound with
  | zero => rfl
  | succ bound =>
    rw [Ancestry.joinsUpTo]
    split
    · rfl
    · next l rest hout =>
      have hsplit : path = path.takeWhile (fun l => l.parent.kind = .parenthesized) ++ l :: rest := by
        rw [← hout, Ancestry.outsideParentheses, List.takeWhile_append_dropWhile]
      have hnot := h _ l rest hsplit fun m hm => by simpa using List.mem_takeWhile_imp hm
      simp [hnot.1, hnot.2]

theorem parenthesized (h : TellsWithin links left right path) (hk : parent.kind = .parenthesized) :
    TellsWithin links left right (⟨parent, index⟩ :: path) := by
  intro bound hb leftmost rightmost
  rw [joinsUpTo_parenthesized hk]
  exact h bound hb leftmost rightmost

theorem leftOperand (h : TellsWithin links left right path)
    (hk : parent.kind = .sum ∨ parent.kind = .sumAssignment) :
    TellsWithin (links + 1) left true (⟨parent, 0⟩ :: path) := by
  intro bound hb leftmost rightmost
  obtain ⟨bound, rfl⟩ : ∃ b, bound = b + 1 := ⟨bound - 1, by omega⟩
  rw [Ancestry.joinsUpTo, JoinedWithin.outsideParentheses_sum hk]
  simp only [hk, if_true, h bound (by omega)]
  cases leftmost <;> cases rightmost <;> simp

theorem rightOperand (h : TellsWithin links left right path)
    (hk : parent.kind = .sum ∨ parent.kind = .sumAssignment) :
    TellsWithin (links + 1) true right (⟨parent, 1⟩ :: path) := by
  intro bound hb leftmost rightmost
  obtain ⟨bound, rfl⟩ : ∃ b, bound = b + 1 := ⟨bound - 1, by omega⟩
  rw [Ancestry.joinsUpTo, JoinedWithin.outsideParentheses_sum hk]
  simp only [hk, if_true, h bound (by omega)]
  cases leftmost <;> cases rightmost <;> simp

end TellsWithin

variable {above path : Ancestry} {top n : Node} {links : Nat}

theorem LeadsTo.split (h : LeadsTo above top path n links) (habove : above.IsOutermost) (htop : top.Shaped) :
    n.Shaped ∧ ∃ before after, operands above top = before ++ operands path n ++ after ∧
      TellsWithin links (!before.isEmpty) (!after.isEmpty) path := by
  induction h with
  | top => exact ⟨htop, [], [], by simp, .outermost habove⟩
  | @parentheses path parent n index links _ hk hn ih =>
    obtain ⟨hparent, before, after, hsplit, htells⟩ := ih
    have harity : parent.kind.arity? = some 1 := by rw [hk]; rfl
    obtain ⟨m, hm⟩ := List.length_eq_one_iff.1 (hparent.length_children harity)
    have hshaped := hparent.children n (List.mem_of_getElem? hn)
    rw [operands_of_arity harity, hm, operandsAll, operandsAll, List.append_nil] at hsplit
    rw [hm] at hn
    cases index with
    | zero =>
      obtain rfl : m = n := by simpa using hn
      exact ⟨hshaped, before, after, hsplit, htells.parenthesized hk⟩
    | succ index => simp at hn
  | @operand path parent n index links _ hk hn ih =>
    obtain ⟨hparent, before, after, hsplit, htells⟩ := ih
    have harity : parent.kind.arity? = some 2 := by rcases hk with hk | hk <;> rw [hk] <;> rfl
    obtain ⟨x, y, hxy⟩ := List.length_eq_two.1 (hparent.length_children harity)
    have hchildren := hparent.children
    have hshaped := hchildren n (List.mem_of_getElem? hn)
    rw [operands_of_arity harity, hxy, operandsAll, operandsAll, operandsAll, List.append_nil] at hsplit
    rw [hxy] at hn hchildren
    obtain ⟨hx, hy⟩ : x.Shaped ∧ y.Shaped := by simpa using hchildren
    match index, hn with
    | 0, hn =>
      obtain rfl : x = n := by simpa using hn
      have hafter : (!(operands (⟨parent, 1⟩ :: path) y ++ after).isEmpty) = true := by simp [operands_ne_nil hy]
      exact ⟨hshaped, before, operands (⟨parent, 1⟩ :: path) y ++ after, by simp [hsplit],
        hafter ▸ htells.leftOperand hk⟩
    | 1, hn =>
      obtain rfl : y = n := by simpa using hn
      have hbefore : (!(before ++ operands (⟨parent, 0⟩ :: path) x).isEmpty) = true := by simp [operands_ne_nil hx]
      exact ⟨hshaped, before ++ operands (⟨parent, 0⟩ :: path) x, after, by simp [hsplit],
        hbefore ▸ htells.rightOperand hk⟩
    | index + 2, hn => simp at hn

theorem Reached.shaped {p : Program} (hp : p.root.Shaped) (h : p.Reached path n) : n.Shaped := by
  induction h with
  | root => exact hp
  | child _ _ hn ih => exact ih.children _ (List.mem_of_getElem? hn)

theorem head?_eq_some_iff_of_nodup {α : Type} {before after : List α} {x : α} (h : (before ++ x :: after).Nodup) :
    (before ++ x :: after).head? = some x ↔ before = [] := by
  cases before with
  | nil => simp
  | cons y before =>
    have hne : y ≠ x := by
      rintro rfl
      simp at h
    simpa using hne

theorem getLast?_eq_some_iff_of_nodup {α : Type} {before after : List α} {x : α}
    (h : (before ++ x :: after).Nodup) : (before ++ x :: after).getLast? = some x ↔ after = [] := by
  have hreverse : (before ++ x :: after).reverse = after.reverse ++ x :: before.reverse := by simp
  rw [List.getLast?_eq_head?_reverse, hreverse, head?_eq_some_iff_of_nodup (hreverse ▸ List.nodup_reverse.2 h),
    List.reverse_eq_nil_iff]

theorem joins_iff_place {source : List Char} {p : Program} (hp : parse? source = some p)
    (htop : p.Reached above top) (habove : above.IsOutermost) (h : LeadsTo above top path n links)
    (hn : n.kind = .string ∨ n.kind = .template) (hlinks : links ≤ maxLinks) :
    (path, n) ∈ operands above top ∧
      (path.joins.left = true ↔ (operands above top).head? ≠ some (path, n)) ∧
      (path.joins.right = true ↔ (operands above top).getLast? ≠ some (path, n)) := by
  obtain ⟨-, before, after, hsplit, htells⟩ := h.split habove (htop.shaped (shaped_of_parse hp))
  have harity : n.kind.arity? = none := by rcases hn with hn | hn <;> rw [hn] <;> rfl
  have hnodup := nodup_operands top above
  rw [operands_of_arity_none harity, List.append_assoc, List.singleton_append] at hsplit
  rw [hsplit] at hnodup ⊢
  have hjoins : path.joins = ⟨true && !before.isEmpty, true && !after.isEmpty⟩ := htells maxLinks hlinks true true
  refine ⟨by simp, ?_, ?_⟩
  · rw [hjoins, ne_eq, head?_eq_some_iff_of_nodup hnodup]
    simp
  · rw [hjoins, ne_eq, getLast?_eq_some_iff_of_nodup hnodup]
    simp

section Zigzag

def zigzagInner : Node :=
  .mk .sum 3 12 [.mk .identifier 3 4 [], .mk .parenthesized 5 12 [.mk .parenthesized 6 11 [.mk .string 7 10 []]]]

def zigzagOuter : Node := .mk .sum 3 16 [zigzagInner, .mk .string 13 16 []]

def zigzagTop : Node := .mk .sumAssignment 0 16 [.mk .identifier 0 1 [], zigzagOuter]

def zigzagProgram : Program where
  source := "y+=x+((\"a\"))+\"b\"".toList
  root := .mk .other 0 16 [.mk .expressionStatement 0 16 [zigzagTop]]

def zigzagAbove : Ancestry := [⟨.mk .expressionStatement 0 16 [zigzagTop], 0⟩, ⟨zigzagProgram.root, 0⟩]

def zigzagPath : Ancestry :=
  ⟨.mk .parenthesized 6 11 [.mk .string 7 10 []], 0⟩ ::
    ⟨.mk .parenthesized 5 12 [.mk .parenthesized 6 11 [.mk .string 7 10 []]], 0⟩ ::
    ⟨zigzagInner, 1⟩ :: ⟨zigzagOuter, 0⟩ :: ⟨zigzagTop, 1⟩ :: zigzagAbove

theorem joins_iff_place_zigzag :
    (operands zigzagAbove zigzagTop).map (fun x => x.2.start) = [0, 3, 7, 13] ∧
      zigzagPath.joins.left = true ∧ zigzagPath.joins.right = true := by
  have hparse : parse? zigzagProgram.source = some zigzagProgram := by decide +kernel
  have htop : zigzagProgram.Reached zigzagAbove zigzagTop :=
    .child (.child .root (by decide) rfl) (by decide) rfl
  have hleads : LeadsTo zigzagAbove zigzagTop zigzagPath (.mk .string 7 10 []) 3 :=
    .parentheses (.parentheses (.operand (.operand (.operand .top (.inr rfl) rfl) (.inl rfl) rfl) (.inl rfl) rfl)
      rfl rfl) rfl rfl
  have habove : zigzagAbove.IsOutermost := by
    intro parentheses l rest hsplit _
    have hl : l ∈ zigzagAbove := by simp [hsplit]
    rcases List.mem_pair.1 hl with rfl | rfl <;> decide
  have hplaces : (operands zigzagAbove zigzagTop).map (fun x => x.2.start) = [0, 3, 7, 13] := by decide +kernel
  obtain ⟨-, hleft, hright⟩ := joins_iff_place hparse htop habove hleads (.inl rfl) (by decide)
  refine ⟨hplaces, hleft.2 fun h => ?_, hright.2 fun h => ?_⟩
  · have hfirst : (operands zigzagAbove zigzagTop).head?.map (fun x => x.2.start) = some 0 := by
      rw [← List.head?_map, hplaces, List.head?_cons]
    simp [h, Node.start] at hfirst
  · have hlast : (operands zigzagAbove zigzagTop).getLast?.map (fun x => x.2.start) = some 13 := by
      rw [← List.getLast?_map, hplaces]
      rfl
    simp [h, Node.start] at hlast

end Zigzag

end ShortClass.Program
