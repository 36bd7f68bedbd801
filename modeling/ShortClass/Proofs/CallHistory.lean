import ShortClass.Proofs.ClassMatching
import ShortClass.Proofs.InPlace
import ShortClass.Proofs.Program.LiteralSpans
import ShortClass.Proofs.RenamedSource

namespace ShortClass.Minifier

open ClassList
open Program (Span readBody IsBody literalText wellNested_of_parse parse?)

variable {m m' : Minifier}

inductive Call where
  | analyze (program : List Char)
  | extract (tries : Nat) (css : List Char)
  | renameSheet (css : List Char)
  | renameProgram (program : List Char)

/-- The minifier that a call leaves, even if it fails; renaming only reads it. -/
def call (m : Minifier) : Call → Minifier
  | .analyze program => m.analyze program
  | .extract tries css => left ((extractIn tries css).run m)
  | .renameSheet _ => m
  | .renameProgram _ => m

def calls (m : Minifier) (cs : List Call) : Minifier := cs.foldl call m

theorem exists_classes_of_extract {tries : Nat} {css : List Char} (h : m.extract tries css = .ok m') :
    ∃ cs, Stylesheet.classes css = .ok cs := by
  cases hcs : Stylesheet.classes css with
  | ok cs => exact ⟨cs, rfl⟩
  | error e =>
    rw [extract_of_error hcs] at h
    cases h

theorem allocated_of_extract {tries : Nat} {css : List Char} (h : m.extract tries css = .ok m') :
    m'.Allocated ∧ m'.isExcluded = m.isExcluded := by
  obtain ⟨cs, hcs⟩ := exists_classes_of_extract h
  rcases extract_cases tries m hcs with herr | ⟨m₁, hok, hm₁, hx, -⟩
  · rw [herr] at h
    exact absurd h (by simp)
  · obtain rfl := Except.ok.inj (hok.symm.trans h)
    exact ⟨hm₁, hx⟩

theorem Allocated.skip (hm : m.Allocated) {next : Nat} (h : m.next ≤ next) : Allocated { m with next } where
  order := hm.order
  keys := hm.keys
  kept := hm.kept
  given e he hx := by
    obtain ⟨hfree, i, hi, heq⟩ := hm.given e he hx
    exact ⟨hfree, i, Nat.lt_of_lt_of_le hi h, heq⟩
  taken n hn := by
    obtain ⟨i, hi, heq⟩ := hm.taken n hn
    exact ⟨i, Nat.lt_of_lt_of_le hi h, heq⟩
  names := hm.names

theorem exists_error_of_mem_keys {c : ClassName} (hc : c ∈ m.classMap.keys) (n : ClassName) :
    ∃ e, m.classMap.assign c n = .error e := by
  obtain ⟨current, hget⟩ := ClassMap.mem_keys_iff.1 hc
  exact ⟨_, by rw [ClassMap.assign, hget]⟩

theorem notMem_keys_of_allocate {tries : Nat} {c : ClassName} (h : m.allocate tries c = .ok m') :
    c ∉ m.classMap.keys := by
  intro hc
  rw [allocate] at h
  split at h
  · obtain ⟨e, he⟩ := exists_error_of_mem_keys hc c
    rw [he] at h
    cases h
  · split at h
    · cases h
    · next name next hnext =>
      obtain ⟨e, he⟩ := exists_error_of_mem_keys hc name
      rw [he] at h
      cases h

theorem Allocated.left_allocateIn (hm : m.Allocated) (tries : Nat) (c : ClassName) :
    (left ((allocateIn tries c).run m)).Allocated := by
  have houtcome := outcome_allocateIn tries c m
  cases hr : (allocateIn tries c).run m with
  | error e m' =>
    obtain ⟨next, hle, rfl⟩ := left_allocateIn_of_error hr
    exact hm.skip hle
  | ok u m' =>
    have hok : m.allocate tries c = .ok m' := by rw [← houtcome, hr]; rfl
    rcases hm.allocate (notMem_keys_of_allocate hok) tries with herr | ⟨m₁, hok₁, hm₁, -⟩
    · rw [hok] at herr
      cases herr
    · obtain rfl := Except.ok.inj (hok₁.symm.trans hok)
      exact hm₁

theorem Allocated.left_extractIn (hm : m.Allocated) (tries : Nat) (css : List Char) :
    (left ((extractIn tries css).run m)).Allocated := by
  cases hcs : Stylesheet.classes css with
  | error e =>
    rw [run_extractIn_of_error hcs]
    exact hm
  | ok cs =>
    rw [run_extractIn hcs]
    exact left_forM (fun c _ m hm => hm.left_allocateIn tries c) (allocated_prepared m cs)

theorem Allocated.calls (hm : m.Allocated) {cs : List Call} (hcs : ∀ program, .analyze program ∉ cs) :
    (m.calls cs).Allocated := by
  induction cs generalizing m with
  | nil => exact hm
  | cons c cs ih =>
    have hrest : ∀ program, .analyze program ∉ cs := fun program hmem => hcs program (List.mem_cons_of_mem c hmem)
    cases c with
    | analyze program => exact absurd List.mem_cons_self (hcs program)
    | extract tries css => exact ih (hm.left_extractIn tries css) hrest
    | renameSheet css => exact ih hm hrest
    | renameProgram program => exact ih hm hrest

theorem analyze_of_parse {source : List Char} {p : Program} (hp : Program.parse? source = some p) (m : Minifier) :
    m.analyze source = { m with usage := m.usage.recordProgram p } := by
  rw [analyze, analyze?, hp]
  rfl

def sheetName (m : Minifier) (t : Text) : Text := ((t.toChars?.bind m.newName?).map Text.ofChars).getD t

theorem Allocated.sheetName (hm : m.Allocated) (t : Text) : m.sheetName t = rename m.classMap.lookup t := by
  rw [Minifier.sheetName]
  cases ht : t.toChars? with
  | none =>
    have hnone : m.classMap.lookup t = none := by simp [ClassMap.lookup, ht]
    rw [rename, hnone]
    rfl
  | some c =>
    obtain rfl := Text.toChars?_eq_some.1 ht
    rw [ClassMap.rename_ofChars, ← hm.getD_newName?, Option.bind_some]
    cases m.newName? c <;> rfl

/-- The span is read anew in `new` as the list of its tokens renamed. A stem stays as it is, and if it does not
follow named classes only, so does the whole span. -/
structure RenamesSpan (p : Program) (lookup : Text → Option Text) (s : Span) (new : List Char) : Prop where
  rewrites : p.Rewrites lookup s.start s.stop (p.spanText lookup s) new
  value : s.value = readBody s.raw (p.text s.start s.stop)
  body : IsBody s.raw s.quote (p.text s.start s.stop) → IsBody s.raw s.quote (p.spanText lookup s)
  tokens : ¬HasStem s.joins s.value →
    (readBody s.raw (p.spanText lookup s)).tokens = s.value.tokens.map (rename lookup)
  stem : HasStem s.joins s.value →
    (readBody s.raw (p.spanText lookup s)).tokens =
        s.value.tokens.dropLast.map (rename lookup) ++ s.value.tokens.getLast?.toList ∨
      readBody s.raw (p.spanText lookup s) = s.value ∧
        (s.value.tokens.dropLast = [] ∨ ∃ t ∈ s.value.tokens.dropLast, lookup t = none)

theorem Allocated.renamesSpan (hm : m.Allocated) {p : Program} (hp : p.WellNested) :
    ∃ new, m.renameProgram p = .ok new ∧ ∀ l ∈ p.literals, l.isProtected = false → ∀ s ∈ l.spans,
      RenamesSpan p m.classMap.lookup s new := by
  obtain ⟨new, hnew, hspans⟩ := hp.rename_spans m.classMap.lookup
  refine ⟨new, hnew, fun l hl hfree s hs => ?_⟩
  have hrewrites := hspans l hl s hs
  rw [literalText, hfree, if_neg (by decide)] at hrewrites
  have hvalue := hp.value_of_mem_spans hl hs
  obtain ⟨hread, hbody⟩ := hm.readBody_spanText (hp.joins_of_raw hl hs) hvalue
  refine ⟨hrewrites, hvalue, hbody, fun hstem => ?_, fun hstem => ?_⟩
  · rw [hread, tokens_newValue hm.givesTokens hstem]
  · rw [hread]
    rcases tokens_newValue_cases hm.givesTokens s.joins s.value with htokens | ⟨hsame, -, hopen⟩
    · exact .inl (htokens.trans (if_pos hstem))
    · exact .inr ⟨hsame, hopen⟩

theorem calls_rename_alike {exclude : List Pattern} {before after : List Call} {tries : Nat} {css : List Char}
    (hnamed : (extractIn tries css).run (calls { exclude } before) = .ok () m')
    (hafter : ∀ program, .analyze program ∉ after)
    (hm : calls { exclude } (before ++ .extract tries css :: after) = m) :
    (∀ t, m.sheetName t = rename m.classMap.lookup t) ∧
      (∀ sheet cs, Stylesheet.classes sheet = .ok cs → ∃ sheet', m.renameSheet sheet = .ok sheet' ∧
        Stylesheet.classes sheet' = .ok (cs.map m.classMap.rename)) ∧
      ∀ source p, parse? source = some p → ∃ new, m.renameProgram p = .ok new ∧
        ∀ l ∈ p.literals, l.isProtected = false → ∀ s ∈ l.spans, RenamesSpan p m.classMap.lookup s new := by
  have hok : extract tries (calls { exclude } before) css = .ok m' := by
    rw [← outcome_extractIn, hnamed]
    rfl
  have hlast : calls { exclude } (before ++ .extract tries css :: after) = m'.calls after := by
    rw [calls, List.foldl_append, List.foldl_cons, call]
    change List.foldl call (left ((extractIn tries css).run (calls { exclude } before))) after = _
    rw [hnamed]
    rfl
  have hm : m.Allocated := by
    rw [← hm, hlast]
    exact (allocated_of_extract hok).1.calls hafter
  exact ⟨hm.sheetName, fun sheet cs => hm.renameSheet, fun source p hp => hm.renamesSpan (wellNested_of_parse hp)⟩

section Built

def builtProgram : Program where
  source := "f(\x60b-$\x7bx\x7d\x60)".toList
  root := .mk .other 0 11 [.mk .expressionStatement 0 11 [.mk .call 0 11 [.mk .identifier 0 1 [],
    .mk .arguments 1 11 [.mk .template 2 10 [.mk .substitution 5 9 [.mk .identifier 7 8 []]]]]]]

def builtSheet : List Char := ".b .b-1, .x\x7b\x7d".toList

theorem parse_builtProgram : Program.parse? builtProgram.source = some builtProgram := by decide +kernel

theorem classes_builtSheet : Stylesheet.classes builtSheet = .ok ["b".toList, "b-1".toList, "x".toList] :=
  eq_ok_of_toOption (by decide +kernel)

theorem stems_builtProgram : (Usage.recordProgram {} builtProgram).stems = [Text.ofString "b-"] := by decide +kernel

theorem extract_builtSheet : ∃ m, extract 1 (analyze {} builtProgram.source) builtSheet = .ok m := by
  have hfree : ∀ (a : Alphabet) (i : Nat), a.IsOrder → i < 3 →
      isExcluded (analyze {} builtProgram.source) (a.name i) = false := by
    intro a i ha hi
    obtain ⟨c, hc⟩ := ha.name_eq_singleton (i := i) (by omega)
    simp [hc, analyze_of_parse parse_builtProgram, isExcluded, Usage.isBuilt, stems_builtProgram, Text.ofString,
      Text.ofChars, List.isPrefixOf]
  obtain ⟨m, hok, -⟩ := (extract_cases 1 _ classes_builtSheet).resolve_left
    (extract_ne_outOfNames 0 classes_builtSheet hfree)
  exact ⟨m, hok⟩

def listProgram : Program := { callProgram with source := "f(\"x b-1\")".toList }

def listSpan : Span := { callSpan with value := cook (Text.ofString "x b-1") }

theorem literals_listProgram : listProgram.literals = [.string listSpan false] := rfl

theorem calls_rename_alike_built :
    ∃ m sheet new, calls { exclude := [] } [.extract 1 "\x7d".toList, .analyze builtProgram.source,
        .extract 1 builtSheet, .renameProgram builtProgram.source, .extract 1 "\x7d".toList] = m ∧
      (∀ t, m.sheetName t = rename m.classMap.lookup t) ∧ m.renameSheet builtSheet = .ok sheet ∧
      Stylesheet.classes sheet = .ok (["b", "b-1", "x"].map (m.classMap.rename ·.toList)) ∧
      parse? listProgram.source = some listProgram ∧ m.renameProgram listProgram = .ok new ∧
      (readBody false (listProgram.spanText m.classMap.lookup listSpan)).tokens =
        ["x", "b-1"].map fun c => rename m.classMap.lookup (Text.ofString c) := by
  obtain ⟨m₁, hok⟩ := extract_builtSheet
  obtain ⟨e, he⟩ : ∃ e, Stylesheet.classes "\x7d".toList = .error e := exists_error_of_toOption (by decide +kernel)
  have hbefore : calls { exclude := [] } [.extract 1 "\x7d".toList, .analyze builtProgram.source] =
      analyze {} builtProgram.source := by
    simp only [calls, List.foldl_cons, List.foldl_nil, call, run_extractIn_of_error he]
    rfl
  have hnamed : (extractIn 1 builtSheet).run (calls { exclude := [] } [.extract 1 "\x7d".toList,
      .analyze builtProgram.source]) = .ok () m₁ := by
    rw [hbefore]
    exact outcome_eq_ok_iff.1 ((outcome_extractIn ..).trans hok)
  have hp : parse? listProgram.source = some listProgram := by decide +kernel
  have hafter : ∀ program,
      .analyze program ∉ [Call.renameProgram builtProgram.source, .extract 1 "\x7d".toList] := by simp
  obtain ⟨hnames, hsheets, hprograms⟩ := calls_rename_alike hnamed hafter rfl
  obtain ⟨sheet, hsheet, hclasses⟩ := hsheets builtSheet _ classes_builtSheet
  obtain ⟨new, hnew, hspans⟩ := hprograms _ listProgram hp
  have hspan := hspans (.string listSpan false) (by simp [literals_listProgram]) rfl listSpan
    (by simp [Program.Literal.spans])
  have htokens : listSpan.value.tokens = ["x", "b-1"].map Text.ofString := by decide +kernel
  refine ⟨_, sheet, new, rfl, hnames, hsheet, hclasses, hp, hnew, (hspan.tokens (by decide)).trans ?_⟩
  rw [htokens, List.map_map]
  rfl

end Built

end ShortClass.Minifier
