import ShortClass.Program.Grammar.Markup
import ShortClass.Proofs.Program.ParserRules

namespace ShortClass.Program.Grammar

open ShortClass.Program.Parser

theorem ensures_isNextChar (x : Char) {c : Cursor} :
    Ensures (isNextChar x) c fun b d => d = c ∧ (b = true → c.next + 1 ≤ c.stop) := by
  apply ahead_bind
  intro s hs
  refine ensures_pure ⟨rfl, fun hb => ?_⟩
  have := List.length_pos_of_mem (List.mem_of_head? (eq_of_beq hb))
  omega

theorem stays_isNextChar (x : Char) : Stays (isNextChar x) := fun _ => (ensures_isNextChar x).mono fun _ _ h => h.1

theorem ensures_char (x : Char) (c : Cursor) : Ensures (char x) c fun _ d => d.pos = c.next + 1 ∧ c.Passes d :=
  ensures_taken (fun _ => ensures_isNextChar x) c

theorem passes_char (x : Char) : Passes (char x) := fun c => (ensures_char x c).mono fun _ _ h => h.2

theorem passes_markupWord : Passes markupWord := by
  intro c
  apply ahead_bind
  intro s hs
  split
  · have hrun := (List.takeWhile_prefix isMarkupWordPart (l := s)).length_le
    exact (ensures_consume (by omega)).mono fun _ _ h => h.2
  · exact ensures_fail

theorem passes_elementName : Passes elementName := by
  intro c
  apply passes_markupWord.bind
  intro _ d hd
  apply (stays_isNextChar _).bind
  intro b
  split
  · apply (passes_char _).bind
    intro _ e he
    apply (passes_markupWord e).mono
    intro _ f hf
    omega
  · have hpart : Yields (fun _ => []) (do
        if ← isNextChar '.' then
          char '.'
          markupWord
          return some ()
        else return none) := by
      intro c
      apply (stays_isNextChar _).bind
      intro b
      split
      · apply (passes_char _).bind
        intro _ d hd
        apply passes_markupWord.bind
        intro _ e he
        exact ensures_pure ⟨chained_nil.2 (by omega), by omega⟩
      · exact yields_none c
    apply (hpart.many d).bind
    rintro _ e ⟨hparts, he⟩
    have := hparts.le
    have := e.pos_le_next
    exact ensures_pure (by omega)

theorem reads_attributeName : Reads attributeName := by
  intro c
  apply here_bind
  apply passes_markupWord.bind
  intro _ d hd
  apply (stays_isNextChar _).bind
  intro b
  split
  · apply (passes_char _).bind
    intro _ e he
    apply passes_markupWord.bind
    intro _ f hf
    exact ensures_leaf (by decide) (by omega)
  · exact ensures_leaf (by decide) (by omega)

theorem reads_closingTag : Reads closingTag := by
  intro c
  apply here_bind
  apply (passes_char _).bind
  intro _ d hd
  apply (passes_char _).bind
  intro _ e he
  apply (stays_isNextChar _).bind
  intro b
  have hclose : ∀ f, e.Leads f → Ensures (do char '>'; node .other c.next []) f (Stands c.next c.stop) := by
    intro f hf
    apply (passes_char _).bind
    intro _ f' hf'
    exact ensures_leaf (by decide) (by omega)
  dsimp only
  split
  · apply passes_elementName.leads.bind
    intro _ f hf
    exact hclose f hf
  · exact hclose e e.leads_self

variable {g : Grammar} (hg : ∀ n, Reads (g n))

include hg

theorem reads_expressions (inWord : Bool) : Reads (expressions g inWord) := by
  intro c
  apply (hg _).bind
  intro n d hn hd
  apply (stays_isNext ",").bind
  intro b
  split
  · apply ((hg _).yields_when (leads_sign? ",")).lists.bind
    intro ns e hns he
    exact ensures_node (by decide) (chained_cons.2 ⟨Nat.le_refl _, hn, hns.mono (by omega)⟩) (by omega)
  · exact ensures_pure ⟨hn, by omega⟩

theorem reads_spread : Reads (spread g) := by
  intro c
  apply here_bind
  apply (passes_sign _).bind
  intro _ d hd
  apply (hg _).bind
  intro n e hn he
  exact ensures_node (by decide) (chained_singleton hn (by omega)) (by omega)

theorem reads_markupExpression : Reads (markupExpression g) := by
  intro c
  apply here_bind
  apply (passes_char _).bind
  intro _ d hd
  apply (stays_isNext _).bind
  intro b
  apply (stays_isNext _).bind
  intro b'
  have hclose : ∀ ns e, Chained d.pos e.pos ns → e.stop = d.stop →
      Ensures (do sign "\x7d"; node .other c.next ns) e (Stands c.next c.stop) := by
    intro ns e hns he
    apply (passes_sign _).bind
    intro _ f hf
    exact ensures_node (by decide) (hns.mono (by omega)) (by omega)
  dsimp only
  split
  · apply lists_nil.bind
    intro ns e hns he
    exact hclose ns e hns he.2.2.2
  split
  · apply (reads_spread hg).bind
    intro n e hn he
    rw [pure_bind]
    exact hclose _ e (chained_singleton hn (by omega)) (by omega)
  · apply (reads_expressions hg true).bind
    intro n e hn he
    rw [pure_bind]
    exact hclose _ e (chained_singleton hn (by omega)) (by omega)

theorem reads_attributeValue : Reads (attributeValue g) := by
  intro c
  apply here_bind
  apply ahead_bind
  intro s hs
  split
  · exact ensures_fail
  · next x t =>
    rw [List.length_cons] at hs
    split
    · have hrun := (List.takeWhile_prefix (· != x) (l := t)).length_le
      dsimp only
      split
      · exact fail_bind
      · apply (ensures_consume (by omega)).bind
        rintro _ d ⟨hpos, hd⟩
        exact ensures_string (by omega)
    split
    · exact reads_markupExpression hg c
    · exact hg _ c

theorem reads_markupAttribute : Reads (markupAttribute g) := by
  intro c
  apply (stays_isNextChar _).bind
  intro b
  split
  · exact reads_markupExpression hg c
  · apply here_bind
    apply reads_attributeName.bind
    intro n d hn hd
    apply (stays_isNextChar _).bind
    intro b'
    split
    · apply (passes_char _).bind
      intro _ e he
      apply (reads_attributeValue hg).bind
      intro m f hm hf
      exact ensures_node (by decide) (chained_pair hn hm (by omega)) (by omega)
    · exact ensures_node (by decide) (chained_singleton hn (by omega)) (by omega)

theorem yields_elementChild : Yields Option.toList (elementChild g) := by
  intro c
  apply get_bind
  split
  · exact ensures_fail
  · next x t hrest =>
    split
    · apply (reads_markupExpression hg).bind
      intro n d hn hd
      exact ensures_pure ⟨chained_singleton hn (by omega), by omega⟩
    split
    · apply (stays_lookahead _).bind
      intro b
      split
      · exact yields_none c
      · apply (hg _).bind
        intro n d hn hd
        exact ensures_pure ⟨chained_singleton hn (by omega), by omega⟩
    split
    · exact ensures_fail
    · have hrun := (List.takeWhile_prefix (fun d => !"\x7b\x7d<>".toList.contains d) (l := t)).length_le
      have hlen : c.rest.length = t.length + 1 := by rw [hrest, List.length_cons]
      apply (ensures_advance (by omega)).bind
      rintro _ d ⟨-, hd⟩
      exact ensures_pure ⟨chained_nil.2 (by omega), by omega⟩

theorem reads_element : Reads (element g) := by
  intro c
  apply here_bind
  apply (passes_char _).bind
  intro _ d hd
  apply (stays_isNextChar _).bind
  intro b
  -- what follows the attributes, with or without children
  have hrest : ∀ as e, Chained d.pos e.pos as → e.stop = d.stop → Ensures (do
      if ← isNextChar '/' then
        char '/'
        char '>'
        node .other c.next as
      else
        char '>'
        let opening ← node .other c.next as
        let children ← many (elementChild g)
        let closing ← closingTag
        node .other c.next (opening :: children.filterMap id ++ [closing])) e (Stands c.next c.stop) := by
    intro as e has he
    have hle := has.le
    have hnext := e.pos_le_next
    apply (stays_isNextChar _).bind
    intro b
    split
    · apply (passes_char _).bind
      intro _ f hf
      apply (passes_char _).bind
      intro _ f' hf'
      exact ensures_node (by decide) (has.mono (by omega)) (by omega)
    · apply (passes_char _).bind
      intro _ f hf
      apply node_bind (by decide) (has.mono (by omega))
      intro opening hopening hf'
      apply ((yields_elementChild hg).many f).bind
      rintro children e' ⟨hchildren, he'⟩
      have hle' := hchildren.le
      apply reads_closingTag.bind
      intro closing e'' hclosing he''
      apply ensures_node (by decide) (chained_cons.2 ⟨by omega, hopening, ?_⟩) (by omega)
      rw [List.filterMap_eq_flatMap_toList]
      exact (hchildren.mono ⟨by omega, Nat.le_refl _⟩).append (chained_singleton hclosing (by omega))
  dsimp only
  split
  · apply lists_nil.bind
    intro as e has he
    exact hrest as e has he.2.2.2
  · apply passes_elementName.bind
    intro _ e he
    have hattribute : Yields (fun n => [n]) (do
        if (← isNextChar '/') || (← isNextChar '>') then return none else return some (← markupAttribute g)) := by
      intro c
      apply (stays_isNextChar _).bind
      intro b
      apply (stays_isNextChar _).bind
      intro b'
      split
      · exact yields_none c
      · exact (reads_markupAttribute hg).yields c
    apply hattribute.lists.bind
    intro as f has hf
    exact hrest as f (has.mono (by omega)) (by omega)

end ShortClass.Program.Grammar
