import ShortClass.Proofs.Stylesheet.OpenGroups
import ShortClass.Proofs.Stylesheet.Renaming

namespace ShortClass.Stylesheet

namespace Builder

variable {before : List Statement} {b b' c : Builder} {t : Token}

inductive Follows (before : List Statement) : Builder → Builder → Prop where
  | bottom (done : List Statement) (head : Option Head) : Follows before ⟨[], done, head⟩ ⟨[], before ++ done, head⟩
  | nested {outer outer' : List (Head × List Statement)} {inner inner' : List Statement} (h : Head)
    (done : List Statement) (head : Option Head) : Follows before ⟨outer, inner, none⟩ ⟨outer', inner', none⟩ →
    Follows before ⟨(h, inner) :: outer, done, head⟩ ⟨(h, inner') :: outer', done, head⟩

namespace Follows

theorem head_eq (h : Follows before b b') : b'.head = b.head := by cases h <;> rfl

theorem withHead (h : Follows before b b') (head : Option Head) :
    Follows before { b with head } { b' with head } := by
  cases h with
  | bottom done _ => exact .bottom done head
  | nested d done _ hinner => exact .nested d done head hinner

theorem push (h : Follows before b b') (s : Statement) :
    Follows before { b with done := b.done ++ [s], head := none } { b' with done := b'.done ++ [s], head := none } := by
  cases h with
  | bottom done _ =>
    rw [List.append_assoc]
    exact .bottom (done ++ [s]) none
  | nested d done _ hinner => exact .nested d (done ++ [s]) none hinner

theorem flush (h : Follows before b b') : Follows before b.flush b'.flush := by
  rw [Builder.flush, Builder.flush, h.head_eq]
  split
  · exact h
  · next d hd => exact h.push d.line

theorem step (h : Follows before b b') (hs : b.step t = some c) : ∃ c', b'.step t = some c' ∧ Follows before c c' := by
  rw [Builder.step] at hs
  rw [Builder.step, h.head_eq]
  split at hs
  · cases hs
    exact ⟨_, rfl, h.withHead _⟩
  · cases hs
    exact ⟨_, rfl, h.withHead _⟩
  · cases hs
    exact ⟨_, rfl, h.withHead _⟩
  · simp at hs
  · cases hs
    exact ⟨_, rfl, h.flush⟩
  · simp at hs
  · next d _ _ =>
    cases hs
    exact ⟨_, rfl, .nested d [] none (h.withHead none)⟩
  · split at hs
    · simp at hs
    · next d inner outer ho =>
      cases hs
      cases h with
      | bottom done head => simp at ho
      | @nested outer₀ outer' inner₀ inner' d₀ done head hinner =>
        obtain ⟨⟨rfl, rfl⟩, rfl⟩ : (d₀ = d ∧ inner₀ = inner) ∧ outer₀ = outer := by simpa using ho
        refine ⟨_, rfl, ?_⟩
        -- both blocks hold the same, and go into the statements of the builders below
        have hdone (o o' : List (Head × List Statement)) :
            (Builder.mk o done head).flush.done = (Builder.mk o' done head).flush.done := by
          cases head <;> rfl
        rw [hdone _ ((d₀, inner') :: outer')]
        exact hinner.push _

theorem foldlM (h : Follows before b b') {ts : List Token} (hs : ts.foldlM Builder.step b = some c) :
    ∃ c', ts.foldlM Builder.step b' = some c' ∧ Follows before c c' := by
  induction ts generalizing b b' with
  | nil =>
    cases hs
    exact ⟨b', rfl, h⟩
  | cons t ts ih =>
    rw [List.foldlM_cons] at hs
    obtain ⟨b₁, hb, hrest⟩ := Option.bind_eq_some_iff.1 hs
    obtain ⟨b₁', hb', h₁⟩ := h.step hb
    rw [List.foldlM_cons, hb']
    exact ih h₁ hrest

end Follows

end Builder

theorem Builder.isComplete_iff {b : Builder} : b.isComplete = true ↔ b = ⟨[], b.done, none⟩ := by
  obtain ⟨outer, done, head⟩ := b
  simp [Builder.isComplete]

theorem build_eq_ok_iff {b : Builder} {last : Option Token} (hb : last = none → b.isComplete = true)
    {ts : List Token} {ss : List Statement} :
    build b last none ts = .ok ss ↔ ts.foldlM Builder.step b = some ⟨[], ss, none⟩ := by
  induction ts generalizing b last with
  | nil =>
    have hend : build b last none [] = .ok ss ↔ b.isComplete = true ∧ b.done = ss := by
      cases last with
      | none => simp [build, hb rfl]
      | some t => by_cases hc : b.isComplete = true <;> simp [build, hc]
    rw [hend, Builder.isComplete_iff, List.foldlM_nil]
    constructor
    · rintro ⟨hc, rfl⟩
      exact congrArg some hc
    · intro h
      obtain rfl := Option.some.inj h
      exact ⟨rfl, rfl⟩
  | cons t ts ih =>
    rw [build, List.foldlM_cons]
    cases hs : b.step t with
    | none => simp
    | some b' => exact ih (by simp)

section Statements

variable {u v : List Char} {ss ts : List Statement}

theorem statements_eq_ok_iff :
    statements u = .ok ss ↔ (scan u).unreadable = none ∧
      (scan u).tokens.foldlM Builder.step {} = some ⟨[], ss, none⟩ := by
  constructor
  · intro h
    have hread : (scan u).unreadable = none := unreadable_of_statements h
    rw [statements, hread] at h
    exact ⟨hread, (build_eq_ok_iff fun _ => rfl).1 h⟩
  · rintro ⟨hread, h⟩
    rw [statements, hread]
    exact (build_eq_ok_iff fun _ => rfl).2 h

theorem kind_ne_prelude_of_step {b c : Builder} {t : Token} (h : b.step t = some c) (hc : c.head = none) :
    t.kind ≠ .prelude := by
  intro hk
  rw [Builder.step, hk] at h
  cases hb : b.head with
  | none =>
    rw [hb] at h
    cases h
    simp at hc
  | some d =>
    rw [hb] at h
    cases h
    simp at hc

theorem kind_getLast?_ne_prelude (h : statements u = .ok ss) :
    ∀ t ∈ (scan u).tokens.getLast?, t.kind ≠ .prelude := by
  intro t ht
  obtain ⟨-, hrun⟩ := statements_eq_ok_iff.1 h
  obtain ⟨before, heq⟩ := List.getLast?_eq_some_iff.1 ht
  rw [heq, List.foldlM_append] at hrun
  obtain ⟨b, -, hlast⟩ := Option.bind_eq_some_iff.1 hrun
  rw [List.foldlM_cons] at hlast
  obtain ⟨c, hstep, hc⟩ := Option.bind_eq_some_iff.1 hlast
  obtain rfl := Option.some.inj hc
  exact kind_ne_prelude_of_step hstep rfl

def Segment.shift (k : Nat) (s : Segment) : Segment := ⟨s.text, s.start + k⟩

theorem scanFrom_shift (k pos : Nat) (s : List Char) :
    List.Forall₂ (Token.Maps (Segment.shift k)) (scanFrom pos s).tokens (scanFrom (pos + k) s).tokens ∧
      ((scanFrom pos s).unreadable = none → (scanFrom (pos + k) s).unreadable = none) := by
  have hpos (pos n : Nat) : pos + k + 1 + n = pos + 1 + n + k := by omega
  fun_induction scanFrom pos s with
  | case1 pos => simp [scanFrom]
  | case2 pos c t n hs ih => rwa [scanFrom_of_skipped hs, hpos]
  | case3 pos c t hs kind n hl rest ih =>
    rw [scanFrom_of_lexeme hs hl, hpos]
    exact ⟨.cons ⟨rfl, fun _ => rfl, fun _ => rfl⟩ ih.1, ih.2⟩
  | case4 pos c t hs hl => simp [scanFrom, hs, hl]

theorem statements_append (hopen : leavesOpen u = false) (hu : statements u = .ok ss) (hv : statements v = .ok ts) :
    statements (u ++ '\n' :: v) = .ok (ss ++ mapStatements (Segment.shift (u.length + 1)) ts) := by
  obtain ⟨hread, hrun⟩ := statements_eq_ok_iff.1 hu
  obtain ⟨hmaps, hshift⟩ := scanFrom_shift (u.length + 1) 0 v
  have hafter : scan (u ++ '\n' :: v) = ⟨(scan u).tokens ++ (scanFrom (0 + (u.length + 1)) v).tokens,
      (scanFrom (0 + (u.length + 1)) v).unreadable⟩ := by
    rw [← Nat.add_assoc]
    exact scanFrom_append hopen hread (kind_getLast?_ne_prelude hu) v
  have hbuild : build {} none none (scanFrom (0 + (u.length + 1)) v).tokens =
      .ok (mapStatements (Segment.shift (u.length + 1)) ts) :=
    build_map hmaps rfl ((build_eq_ok_iff fun _ => rfl).2 (statements_eq_ok_iff.1 hv).2)
  have hstart : Builder.Follows ss {} ⟨[], ss ++ [], none⟩ := .bottom [] none
  obtain ⟨c, hc, hfollows⟩ := hstart.foldlM ((build_eq_ok_iff fun _ => rfl).1 hbuild)
  cases hfollows with
  | bottom done head =>
    rw [statements_eq_ok_iff, hafter, List.foldlM_append, hrun]
    rw [List.append_nil] at hc
    exact ⟨hshift (statements_eq_ok_iff.1 hv).1, hc⟩

end Statements

section Classes

variable {u v : List Char} {cs ds : List ClassName}

theorem selectorsOf_append (ss ts : List Statement) : selectorsOf (ss ++ ts) = selectorsOf ss ++ selectorsOf ts := by
  induction ss with
  | nil => simp [selectorsOf]
  | cons s ss ih => simp [selectorsOf, ih]

theorem ruleClasses_shift (k : Nat) {p : List Segment} (hp : ∀ s ∈ p, Closed s.text) :
    ruleClasses (p.map (Segment.shift k)) = ruleClasses p := by
  rw [ruleClasses, ruleClasses, List.flatMap_map, List.map_flatMap, List.map_flatMap]
  refine List.flatMap_congr fun s hs => ?_
  rw [Segment.components, Segment.components, values_componentsFrom _ (hp s hs), Segment.shift,
    values_componentsFrom _ (hp s hs)]

theorem classes_append (hopen : leavesOpen u = false) (hu : classes u = .ok cs) (hv : classes v = .ok ds) :
    classes (u ++ '\n' :: v) = .ok (cs ++ ds) := by
  obtain ⟨ss, hss, rfl⟩ := exists_parse_of_classes hu
  obtain ⟨ts, hts, rfl⟩ := exists_parse_of_classes hv
  rw [parse_eq_ok_iff] at hss hts
  have hshift : ∀ p ∈ selectorsOf ts, ruleClasses (p.map (Segment.shift (u.length + 1))) = ruleClasses p := by
    intro p hp
    apply ruleClasses_shift
    intro s hs
    exact closed_of_mem_selectorsOf hts (List.mem_flatten_of_mem hp hs)
  rw [classes_of_parse (parse_eq_ok_iff.2 (statements_append hopen hss hts)), values_components, values_components,
    values_components, selectorsOf_append, selectorsOf_mapStatements, List.flatMap_append, List.flatMap_map,
    List.flatMap_congr hshift]

theorem leavesOpen_eq_false_iff (hu : classes u = .ok cs) :
    leavesOpen u = false ↔
      ∀ v ds, classes v = .ok ds → classes (u ++ '\n' :: v) = .ok (cs ++ ds) := by
  constructor
  · intro hopen v ds hv
    exact classes_append hopen hu hv
  · intro h
    by_contra hopen
    obtain ⟨ss, hss, -⟩ := exists_parse_of_classes hu
    obtain ⟨v, hv, hbad⟩ := exists_unreadable (by simpa using hopen)
      (unreadable_of_statements (parse_eq_ok_iff.1 hss))
    obtain ⟨ts, hts, -⟩ := exists_parse_of_classes (h v [] hv)
    exact hbad (unreadable_of_statements (parse_eq_ok_iff.1 hts))

theorem classes_intercalate {us : List (List Char)} {css : List (List ClassName)}
    (h : List.Forall₂ (fun u cs => classes u = .ok cs) us css) (hopen : ∀ u ∈ us.dropLast, leavesOpen u = false) :
    classes (['\n'].intercalate us) = .ok css.flatten := by
  induction h with
  | nil => exact eq_ok_of_toOption (by decide +kernel)
  | @cons u cs us css hu hrest ih =>
    cases hrest with
    | nil => simpa using hu
    | @cons v ds us css hv hrest =>
      rw [List.dropLast_cons_of_ne_nil (by simp)] at hopen
      have hjoined := ih fun w hw => hopen w (List.mem_cons_of_mem u hw)
      rw [List.intercalate_cons_cons, List.append_assoc, List.flatten_cons]
      exact classes_append (hopen u List.mem_cons_self) hu hjoined

end Classes

end ShortClass.Stylesheet
