import ShortClass.Program.Grammar.Binding
import ShortClass.Proofs.Program.ParserRules

namespace ShortClass.Program.Grammar

open ShortClass.Program.Parser

theorem reads_privateName : Reads privateName := by
  intro c
  apply here_bind
  apply (passes_sign _).bind
  intro _ d hd
  apply get_bind
  have hle := wordLength_le d.rest
  dsimp only
  split
  · exact fail_bind
  · apply (ensures_advance (by omega)).bind
    rintro _ e ⟨-, he⟩
    exact ensures_leaf (by decide) (by omega)

variable {g : Grammar} (hg : ∀ n, Reads (g n))

include hg

theorem reads_propertyName : Reads (propertyName g) := by
  intro c
  apply here_bind
  apply ahead_bind
  intro s hs
  split
  · exact ensures_fail
  split
  · exact reads_stringLiteral c
  split
  · exact reads_numberLiteral c
  split
  · exact reads_privateName c
  split
  · apply (passes_sign _).bind
    intro _ d hd
    apply (hg _).bind
    intro n e hn he
    apply (passes_sign _).bind
    intro _ f hf
    exact ensures_node (by decide) (chained_singleton hn (by omega)) (by omega)
  · exact reads_anyWord c

theorem reads_bindingElement : Reads (bindingElement g) := by
  intro c
  apply (hg _).bind
  intro n d hn hd
  apply (leads_sign? _).bind
  intro b e he
  split
  · apply (hg _).bind
    intro m f hm hf
    exact ensures_node (by decide) (chained_pair hn hm (by omega)) (by omega)
  · exact ensures_pure ⟨hn, by omega⟩

theorem reads_restElement : Reads (restElement g) := by
  intro c
  apply here_bind
  apply (passes_sign _).bind
  intro _ d hd
  apply (hg _).bind
  intro n e hn he
  exact ensures_node (by decide) (chained_singleton hn (by omega)) (by omega)

theorem reads_propertyBinding : Reads (propertyBinding g) := by
  intro c
  apply (stays_isNext _).bind
  intro b
  split
  · exact reads_restElement hg c
  · apply stays_isNextName.bind
    intro shorthand
    apply (reads_propertyName hg).bind
    intro key d hkey hd
    apply (leads_sign? _).bind
    intro b e he
    split
    · apply (reads_bindingElement hg).bind
      intro n f hn hf
      exact ensures_node (by decide) (chained_pair hkey hn (by omega)) (by omega)
    split
    · exact ensures_fail
    · apply (leads_sign? _).bind
      intro b' f hf
      split
      · apply (hg _).bind
        intro n f' hn hf'
        exact ensures_node (by decide) (chained_pair hkey hn (by omega)) (by omega)
      · exact ensures_pure ⟨hkey, by omega⟩

theorem reads_binding : Reads (binding g) := by
  intro c
  apply here_bind
  apply (takes_sign? _ c).bind
  rintro b d ⟨hd, hb⟩
  split
  · next h =>
    have := hb h
    have hitem := Yields.ite (stays_isNext "...") (reads_restElement hg).yields (reads_bindingElement hg).yields
    apply (lists_commaList _ (.ite (stays_isNext ",") yields_none hitem)).bind
    intro ns e hns he
    exact ensures_node (by decide) (hns.mono (by omega)) (by omega)
  apply (takes_sign? _ d).bind
  rintro b' e ⟨he, hb'⟩
  split
  · next h =>
    have := hb' h
    apply (lists_commaList _ (reads_propertyBinding hg).yields_map).bind
    intro ns f hns hf
    exact ensures_node (by decide) (hns.mono (by omega)) (by omega)
  · apply (reads_name e).mono
    rintro n f ⟨hn, hf⟩
    exact ⟨hn, by omega⟩

theorem reads_parameters : Reads (parameters g) := by
  intro c
  apply here_bind
  apply (passes_sign _).bind
  intro _ d hd
  have hitem := Yields.ite (stays_isNext "...") (reads_restElement hg).yields (reads_bindingElement hg).yields
  apply (lists_commaList _ hitem).bind
  intro ns e hns he
  exact ensures_node (by decide) (hns.mono (by omega)) (by omega)

end ShortClass.Program.Grammar
