import ShortClass.Proofs.Program.Composed
import ShortClass.Proofs.Program.ConcatenationRenaming
import ShortClass.Proofs.TokensKept

namespace ShortClass.Program

open ClassList

variable {p : Program} {lookup : Text → Option Text} {left right : Bool}

structure BodyKept (q : Quote) (left right : Bool) (old new : List Char) : Prop where
  value : Text.Keeps left right (cook (Text.ofChars old)) (cook (Text.ofChars new))
  contained : isContained q old = true → isContained q new = true

theorem bodyKept_literalText (hl : GivesTokens lookup) (isProtected : Bool) {s : Span} (hraw : s.raw = false)
    (hvalue : s.value = cook (Text.ofChars (p.text s.start s.stop)))
    (hleft : left = true → s.joins.left = true ∨ s.value.startsBlank = false)
    (hright : right = true → s.joins.right = true ∨ s.value.endsBlank = false) :
    BodyKept s.quote left right (p.text s.start s.stop) (p.literalText lookup isProtected s) := by
  rw [literalText]
  cases isProtected with
  | true => exact ⟨Text.Keeps.refl left right _, id⟩
  | false =>
    obtain ⟨hnew, hcontained⟩ := bodyRenamed_spanText lookup hraw hvalue
    rw [← hvalue] at hnew
    refine ⟨?_, hcontained⟩
    rw [← hvalue, if_neg (by decide), hnew]
    exact keeps_newValue hl hleft hright

structure TokensKept (left right : Bool) (e e' : Composed) : Prop where
  skeleton : e'.skeleton = e.skeleton
  readable : e.Readable → e'.Readable
  keeps : ∀ ρ β, Text.Keeps left right (e.eval ρ β) (e'.eval ρ β)

structure ChunksKept (left right : Bool) (c c' : Chunks) : Prop where
  skeleton : c'.skeleton = c.skeleton
  readable : c.Readable → c'.Readable
  keeps : ∀ ρ β, Text.Keeps left right (c.eval ρ β) (c'.eval ρ β)

namespace TokensKept

variable {e e' f f' : Composed}

theorem string {q : Quote} {body body' : List Char} (h : BodyKept q left right body body') :
    TokensKept left right (.string q body) (.string q body') where
  skeleton := rfl
  readable := h.contained
  keeps _ _ := h.value

theorem template {c c' : Chunks} (h : ChunksKept left right c c') :
    TokensKept left right (.template c) (.template c') where
  skeleton := by rw [Composed.skeleton, Composed.skeleton, h.skeleton]
  readable := h.readable
  keeps := h.keeps

theorem value (v : Opaque) (code : List Char) : TokensKept left right (.value v) (.value ⟨v.index, code⟩) where
  skeleton := rfl
  readable := id
  keeps ρ _ := Text.Keeps.refl left right (ρ v.index)

theorem parens (h : TokensKept left right e e') (opening closing : List Char) :
    TokensKept left right (.parens opening e closing) (.parens opening e' closing) where
  skeleton := by rw [Composed.skeleton, Composed.skeleton, h.skeleton]
  readable := h.readable
  keeps := h.keeps

theorem sum (he : TokensKept left true e e') (hf : TokensKept true right f f') (operator : List Char) :
    TokensKept left right (.sum e operator f) (.sum e' operator f') where
  skeleton := by rw [Composed.skeleton, Composed.skeleton, he.skeleton, hf.skeleton]
  readable h := ⟨he.readable h.1, hf.readable h.2⟩
  keeps ρ β := (he.keeps ρ β).append (hf.keeps ρ β)

theorem choice (he : TokensKept left right e e') (hf : TokensKept left right f f') (condition : Opaque)
    (code question colon : List Char) :
    TokensKept left right (.choice condition question e colon f)
      (.choice ⟨condition.index, code⟩ question e' colon f') where
  skeleton := by rw [Composed.skeleton, Composed.skeleton, he.skeleton, hf.skeleton]
  readable h := ⟨he.readable h.1, hf.readable h.2⟩
  keeps ρ β := by
    rw [Composed.eval, Composed.eval]
    split
    · exact he.keeps ρ β
    · exact hf.keeps ρ β

end TokensKept

namespace ChunksKept

theorem last {body body' : List Char} (h : BodyKept .backtick left right body body') :
    ChunksKept left right (.last body) (.last body') where
  skeleton := rfl
  readable := h.contained
  keeps _ _ := h.value

theorem cons {body body' : List Char} {inner inner' : Composed} {rest rest' : Chunks} {before after : Bool}
    (hbody : BodyKept .backtick left true body body') (hinner : TokensKept before after inner inner')
    (hrest : ChunksKept true right rest rest')
    (hbefore : before = true ∨ cook (Text.ofChars body) = [] ∧ before = left)
    (hafter : after = true ∨ (∀ ρ β, rest.eval ρ β = []) ∧ after = right) (opening closing : List Char) :
    ChunksKept left right (.cons body opening inner closing rest) (.cons body' opening inner' closing rest') where
  skeleton := by rw [Chunks.skeleton, Chunks.skeleton, hinner.skeleton, hrest.skeleton]
  readable h := ⟨hbody.contained h.1, hinner.readable h.2.1, hrest.readable h.2.2⟩
  keeps ρ β := by
    have htail := (hinner.keeps ρ β).append_right (hrest.keeps ρ β) (hafter.imp_right (And.imp_left fun h => h ρ β))
    exact hbody.value.append_left htail hbefore

end ChunksKept

def Neighbour.Announced (n : Neighbour) (joined : Bool) : Prop :=
  n.stands = true → ∀ blank, n.sees blank = true → joined = true ∨ blank = false

theorem Neighbour.announced {n : Neighbour} {joined : Bool}
    (h : ∀ links, n = .operand links → links ≤ maxLinks → joined = true) : n.Announced joined := by
  intro hstands blank hsees
  cases n with
  | none => simp [stands] at hstands
  | hidden => exact .inr (by simpa [sees] using hsees)
  | operand links =>
    rcases Bool.or_eq_true_iff.1 hsees with hlinks | hblank
    · exact .inl (h links rfl (by simpa using hlinks))
    · exact .inr (by simpa using hblank)

theorem JoinedWithin.leftSide {links : Nat} {path : Ancestry} (h : JoinedWithin links left right path) :
    JoinedWithin links left false path :=
  fun bound hb leftmost rightmost => ⟨(h bound hb leftmost rightmost).1, by simp⟩

theorem JoinedWithin.rightSide {links : Nat} {path : Ancestry} (h : JoinedWithin links left right path) :
    JoinedWithin links false right path :=
  fun bound hb leftmost rightmost => ⟨by simp, (h bound hb leftmost rightmost).2⟩

structure Tells (path : Ancestry) (left right : Neighbour) : Prop where
  left : ∀ links, left = .operand links → JoinedWithin links true false path
  right : ∀ links, right = .operand links → JoinedWithin links false true path

namespace Tells

variable {path : Ancestry} {left right : Neighbour} {parent : Node} {index : Nat}

theorem announced_left (h : Tells path left right) : left.Announced path.joins.left :=
  Neighbour.announced fun links hleft hle => ((h.left links hleft).joins hle).1 rfl

theorem announced_right (h : Tells path left right) : right.Announced path.joins.right :=
  Neighbour.announced fun links hright hle => ((h.right links hright).joins hle).2 rfl

theorem of_hide (path : Ancestry) (left right : Neighbour) : Tells path left.hide right.hide := by
  constructor
  · intro links h
    cases left <;> simp [Neighbour.hide] at h
  · intro links h
    cases right <;> simp [Neighbour.hide] at h

theorem parenthesized (h : Tells path left right) (hk : parent.kind = .parenthesized) :
    Tells (⟨parent, index⟩ :: path) left right :=
  ⟨fun links hl => (h.left links hl).parenthesized hk, fun links hr => (h.right links hr).parenthesized hk⟩

theorem leftOperand (h : Tells path left right) (hk : parent.kind = .sum) :
    Tells (⟨parent, 0⟩ :: path) left.further (.operand 1) := by
  constructor
  · intro links hl
    cases left with
    | none => simp [Neighbour.further] at hl
    | hidden => simp [Neighbour.further] at hl
    | operand d =>
      obtain rfl : d + 1 = links := by simpa [Neighbour.further] using hl
      exact ((h.left d rfl).leftOperand (.inl hk)).leftSide
  · intro links hr
    obtain rfl : 1 = links := by simpa using hr
    exact (joinedWithin_zero path).leftOperand (.inl hk)

theorem rightOperand (h : Tells path left right) (hk : parent.kind = .sum) :
    Tells (⟨parent, 1⟩ :: path) (.operand 1) right.further := by
  constructor
  · intro links hl
    obtain rfl : 1 = links := by simpa using hl
    exact (joinedWithin_zero path).rightOperand (.inl hk)
  · intro links hr
    cases right with
    | none => simp [Neighbour.further] at hr
    | hidden => simp [Neighbour.further] at hr
    | operand d =>
      obtain rfl : d + 1 = links := by simpa [Neighbour.further] using hr
      exact ((h.right d rfl).rightOperand (.inl hk)).rightSide

end Tells

section Tree

variable {left right : Neighbour} {path : Ancestry} {n : Node}

theorem exists_kept_string (hl : GivesTokens lookup) {q : Quote} {body : List Char}
    (h : (Composed.string q body).StandsAt p path n) (hn : n.Nested) (hin : n.stop ≤ p.source.length)
    (ht : Tells path left right) (hseen : (Composed.string q body).edgesSeen left right = true) :
    ∃ e', p.newText lookup path n = e'.source ∧ TokensKept left.stands right.stands (.string q body) e' := by
  obtain ⟨hk, -, hraw, htext⟩ := h
  obtain ⟨hopen, hbody, hclose⟩ := text_delimited (hn.of_string hk) hin htext
  rw [Composed.edgesSeen, Bool.and_eq_true] at hseen
  have hvalue : (p.stringSpan path n).value = cook (Text.ofChars (p.text (n.start + 1) (n.stop - 1))) := by
    simp [stringSpan, hraw]
  have hkept : BodyKept q left.stands right.stands body
      (p.literalText lookup (p.isProtectedString path) (p.stringSpan path n)) := by
    have hq : (p.stringSpan path n).quote = q := quoteAt_eq hopen
    have hold : p.text (p.stringSpan path n).start (p.stringSpan path n).stop = body := hbody
    rw [← hq]
    nth_rewrite 1 [← hold]
    apply bodyKept_literalText hl _ hraw hvalue
    · intro hs
      exact ht.announced_left hs _ (by rw [hvalue, hbody]; exact hseen.1)
    · intro hs
      exact ht.announced_right hs _ (by rw [hvalue, hbody]; exact hseen.2)
  refine ⟨_, ?_, TokensKept.string hkept⟩
  rw [newText_of_string hk, hopen, hclose, Composed.source]

theorem bodyKept_chunkText (hl : GivesTokens lookup) {after more : Bool} {start stop : Nat} {body : List Char}
    (hbody : p.text start stop = body) (hleft : left.Announced (after || path.joins.left))
    (hright : right.Announced (more || path.joins.right))
    (hseenl : left.sees (cook (Text.ofChars body)).startsBlank = true)
    (hseenr : right.sees (cook (Text.ofChars body)).endsBlank = true) :
    BodyKept .backtick left.stands right.stands body (p.chunkText lookup path after more start stop) := by
  subst hbody
  exact bodyKept_literalText hl (p.isProtectedTemplate path) (s := p.chunk path.joins after more start stop) rfl rfl
    (fun hs => hleft hs _ hseenl) (fun hs => hright hs _ hseenr)

theorem Chunks.stands_neighbour (right : Neighbour) (c : Chunks) :
    (c.neighbour right).stands = true ∨ (∀ ρ β, c.eval ρ β = []) ∧ (c.neighbour right).stands = right.stands := by
  cases c with
  | cons body opening inner closing rest => exact .inl rfl
  | last body =>
    rw [neighbour]
    split
    · next hnil => exact .inr ⟨fun _ _ => hnil, rfl⟩
    · exact .inl rfl

mutual

theorem Composed.StandsAt.exists_kept (hl : GivesTokens lookup) : (e : Composed) → {path : Ancestry} → {n : Node} →
    {left right : Neighbour} → e.StandsAt p path n → n.Nested → n.stop ≤ p.source.length →
    Tells path left right → e.edgesSeen left right = true →
    ∃ e', p.newText lookup path n = e'.source ∧ TokensKept left.stands right.stands e e'
  | .string q body, _, _, _, _, h, hn, hin, ht, hseen => exists_kept_string hl h hn hin ht hseen
  | .template chunks, path, n, left, right, h, hn, hin, ht, hseen => by
    obtain ⟨hk, hopen, hclose, hchunks⟩ := h
    obtain ⟨hle, -, hchain⟩ := hn.of_template hk
    have hleft : left.Announced (decide (0 < 0) || path.joins.left) := by simpa using ht.announced_left
    obtain ⟨c', hweave, hkept⟩ :=
      Chunks.StandAt.exists_kept hl chunks hchunks hchain (by omega) hleft ht.announced_right hseen
    refine ⟨.template c', ?_, TokensKept.template hkept⟩
    rw [newText_of_template hk, hopen, hclose, hweave, Composed.source]
  | .value v, path, n, _, _, _, _, _, _, _ => ⟨_, rfl, TokensKept.value v (p.newText lookup path n)⟩
  | .parens opening inner closing, path, n, left, right, h, hn, hin, ht, hseen => by
    obtain ⟨hk, m, hc, hopen, hclose, hinner⟩ := h
    obtain ⟨hm, hle⟩ := hn.of_mem (by simp [hk]) (by simp [hc] : m ∈ n.children)
    obtain ⟨e', htext, hkept⟩ := Composed.StandsAt.exists_kept hl inner hinner hm (by omega) (ht.parenthesized hk) hseen
    refine ⟨_, ?_, hkept.parens opening closing⟩
    rw [newText_singleton (by simp [hk]) (by simp [hk]) hc, hopen, hclose, htext, Composed.source]
  | .sum e operator f, path, n, left, right, h, hn, hin, ht, hseen => by
    obtain ⟨hk, l, r, hc, hstart, hoperator, hstop, he, hf⟩ := h
    obtain ⟨hln, hlle⟩ := hn.of_mem (by simp [hk]) (by simp [hc] : l ∈ n.children)
    obtain ⟨hrn, hrle⟩ := hn.of_mem (by simp [hk]) (by simp [hc] : r ∈ n.children)
    rw [Composed.edgesSeen, Bool.and_eq_true] at hseen
    obtain ⟨e', hetext, hekept⟩ := Composed.StandsAt.exists_kept hl e he hln (by omega) (ht.leftOperand hk) hseen.1
    obtain ⟨f', hftext, hfkept⟩ := Composed.StandsAt.exists_kept hl f hf hrn (by omega) (ht.rightOperand hk) hseen.2
    rw [Neighbour.stands_further] at hekept hfkept
    refine ⟨_, ?_, hekept.sum hfkept operator⟩
    rw [newText_pair (by simp [hk]) (by simp [hk]) hc hstart hstop, hetext, hftext, hoperator, Composed.source]
  | .choice condition question yes colon no, path, n, left, right, h, hn, hin, _, hseen => by
    -- the way up ends at the choice, so the branches are told of nothing beyond it
    obtain ⟨hk, -, -, c, y, z, hc, hstart, -, hquestion, hcolon, hstop, hyes, hno⟩ := h
    obtain ⟨hyn, hyle⟩ := hn.of_mem (by simp [hk]) (by simp [hc] : y ∈ n.children)
    obtain ⟨hzn, hzle⟩ := hn.of_mem (by simp [hk]) (by simp [hc] : z ∈ n.children)
    rw [Composed.edgesSeen, Bool.and_eq_true] at hseen
    obtain ⟨yes', hytext, hykept⟩ :=
      Composed.StandsAt.exists_kept hl yes hyes hyn (by omega) (Tells.of_hide _ left right) hseen.1
    obtain ⟨no', hztext, hzkept⟩ :=
      Composed.StandsAt.exists_kept hl no hno hzn (by omega) (Tells.of_hide _ left right) hseen.2
    rw [Neighbour.stands_hide, Neighbour.stands_hide] at hykept hzkept
    refine ⟨_, ?_, hykept.choice hzkept condition (p.newText lookup (⟨n, 0⟩ :: path) c) question colon⟩
    rw [newText_of_other (by simp [hk]) (by simp [hk]), hc]
    simp [weave, hstart, hstop, text_self, hquestion, hcolon, hytext, hztext, Composed.source]

theorem Chunks.StandAt.exists_kept (hl : GivesTokens lookup) : (chunks : Chunks) → {parent : Node} →
    {path : Ancestry} → {index pos stop : Nat} → {ns : List Node} → {left right : Neighbour} →
    chunks.StandAt p parent path index pos stop ns → Chained pos stop ns → stop ≤ p.source.length →
    left.Announced (decide (0 < index) || path.joins.left) → right.Announced path.joins.right →
    chunks.edgesSeen left right = true →
    ∃ c', p.weave lookup (p.chunkText lookup path) parent path index pos stop ns = c'.source ∧
      ChunksKept left.stands right.stands chunks c'
  | .last body, _, path, index, pos, stop, _, left, right, h, _, _, hleft, hright, hseen => by
    obtain ⟨rfl, hbody⟩ := h
    rw [Chunks.edgesSeen, Bool.and_eq_true] at hseen
    have hright' : right.Announced (false || path.joins.right) := by simpa using hright
    exact ⟨_, by rw [weave, Chunks.source], ChunksKept.last (bodyKept_chunkText hl hbody hleft hright' hseen.1 hseen.2)⟩
  | .cons body opening inner closing rest, parent, path, index, pos, stop, ns, left, right, h, hns, hin, hleft, hright,
      hseen => by
    obtain ⟨m, ms, rfl, hbody, hk, ⟨v, hv, hopen, hclose, hinner⟩, hrest⟩ := h
    rw [Chained] at hns
    obtain ⟨hpos, hm, hms⟩ := hns
    obtain ⟨hvn, hvle⟩ := hm.of_mem (by simp [hk]) (by simp [hv] : v ∈ m.children)
    simp only [Chunks.edgesSeen, Bool.and_eq_true] at hseen
    obtain ⟨⟨hbodySeen, hinnerSeen⟩, hrestSeen⟩ := hseen
    -- beside an interpolation a chunk is always told so
    have hhole (joined : Bool) : (Neighbour.operand 0).Announced (true || joined) :=
      Neighbour.announced fun _ _ _ => rfl
    have hnext : (Neighbour.operand 0).Announced (decide (0 < index + 1) || path.joins.left) := by
      simpa using hhole path.joins.left
    have hms' := hms.le
    obtain ⟨inner', hinnerText, hinnerKept⟩ :=
      Composed.StandsAt.exists_kept hl inner hinner hvn (by omega) (Tells.of_hide _ _ _) hinnerSeen
    obtain ⟨rest', hweave, hrestKept⟩ := Chunks.StandAt.exists_kept hl rest hrest hms hin hnext hright hrestSeen
    have hbodyKept := bodyKept_chunkText hl hbody hleft (hhole path.joins.right) hbodySeen rfl
    rw [Neighbour.stands_hide, Neighbour.stands_hide] at hinnerKept
    refine ⟨_, ?_, ChunksKept.cons hbodyKept hinnerKept hrestKept ?_ (rest.stands_neighbour right) opening closing⟩
    · rw [weave, hweave, newText_singleton (by simp [hk]) (by simp [hk]) hv, hopen, hclose, hinnerText, Chunks.source]
    · split
      · next hnil => exact .inr ⟨hnil, rfl⟩
      · exact .inl rfl

end

end Tree

theorem length_tokens_rename_composed {source : List Char} {p : Program} (hp : parse? source = some p)
    {path : Ancestry} {n : Node} (hn : p.Reached path n) {e : Composed} (he : e.StandsAt p path n)
    (hseen : e.edgesSeen .none .none = true) {lookup : Text → Option Text} (hl : GivesTokens lookup) :
    p.text n.start n.stop = e.source ∧ ∃ (new : List Char) (e' : Composed), p.rename lookup = .ok new ∧
      p.Rewrites lookup n.start n.stop e'.source new ∧ e'.skeleton = e.skeleton ∧ (e.Readable → e'.Readable) ∧
      ∀ ρ β, (e.eval ρ β).tokens.length ≤ (e'.eval ρ β).tokens.length := by
  have hwell := wellNested_of_parse hp
  obtain ⟨hnested, hin⟩ := hn.nested hwell
  obtain ⟨e', htext, hkept⟩ :=
    Composed.StandsAt.exists_kept hl e he hnested hin (Tells.of_hide path .none .none) hseen
  obtain ⟨new, hnew, hreached⟩ := hwell.rename_reached lookup
  exact ⟨Composed.StandsAt.text e he hnested, new, e', hnew, htext ▸ hreached path n hn, hkept.skeleton,
    hkept.readable, fun ρ β => (hkept.keeps ρ β).count⟩

section Branches

def branchesNode : Node :=
  .mk .sum 2 41 [.mk .sum 2 24 [.mk .parenthesized 2 16 [.mk .other 3 15 [.mk .identifier 3 4 [],
      .mk .sum 5 13 [.mk .string 5 11 [], .mk .identifier 12 13 []], .mk .identifier 14 15 []]], .mk .string 17 24 []],
    .mk .template 25 41 [.mk .substitution 26 35 [.mk .string 28 34 []],
      .mk .substitution 36 40 [.mk .identifier 38 39 []]]]

def branchesStatement : Node :=
  .mk .expressionStatement 0 41 [.mk .assignment 0 41 [.mk .identifier 0 1 [], branchesNode]]

def branchesProgram : Program where
  source := "y=(c?\"btn \"+x:x)+\" big \"+\x60$\x7b\"card\"\x7d $\x7bv\x7d\x60".toList
  root := .mk .other 0 41 [branchesStatement]

def branchesPath : Ancestry :=
  [⟨.mk .assignment 0 41 [.mk .identifier 0 1 [], branchesNode], 1⟩, ⟨branchesStatement, 0⟩, ⟨branchesProgram.root, 0⟩]

def branches : Composed :=
  .sum (.sum (.parens ['('] (.choice ⟨0, ['c']⟩ ['?'] (.sum (.string .double "btn ".toList) ['+'] (.value ⟨1, ['x']⟩))
      [':'] (.value ⟨1, ['x']⟩)) [')']) ['+'] (.string .double " big ".toList)) ['+']
    (.template (.cons [] ['$', '\x7b'] (.string .double "card".toList) ['\x7d']
      (.cons [' '] ['$', '\x7b'] (.value ⟨2, ['v']⟩) ['\x7d'] (.last []))))

theorem branches_standsAt : branches.StandsAt branchesProgram branchesPath branchesNode := by
  refine ⟨rfl, _, _, rfl, rfl, by decide +kernel, rfl, ⟨rfl, _, _, rfl, rfl, by decide +kernel, rfl, ?_, ?_⟩, ?_⟩
  · refine ⟨rfl, _, rfl, by decide +kernel, by decide +kernel, rfl, by decide, by decide, _, _, _, rfl, rfl,
      by decide +kernel, by decide +kernel, by decide +kernel, rfl, ?_, ?_⟩
    · exact ⟨rfl, _, _, rfl, rfl, by decide +kernel, rfl, ⟨rfl, by decide, rfl, by decide +kernel⟩,
        (by decide +kernel : branchesProgram.text 12 13 = ['x'])⟩
    · exact (by decide +kernel : branchesProgram.text 14 15 = ['x'])
  · exact ⟨rfl, by decide, rfl, by decide +kernel⟩
  · refine ⟨rfl, by decide +kernel, by decide +kernel, _, _, rfl, by decide +kernel, rfl,
      ⟨_, rfl, by decide +kernel, by decide +kernel, ?_⟩, _, _, rfl, by decide +kernel, rfl,
      ⟨_, rfl, by decide +kernel, by decide +kernel, ?_⟩, rfl, by decide +kernel⟩
    · exact ⟨rfl, by decide, rfl, by decide +kernel⟩
    · exact (by decide +kernel : branchesProgram.text 38 39 = ['v'])

def branchesNames (t : Text) : Option Text :=
  if t = Text.ofString "btn" then some (Text.ofString "a")
  else if t = Text.ofString "card" then some (Text.ofString "b")
  else none

theorem length_tokens_rename_composed_branches :
    parse? branchesProgram.source = some branchesProgram ∧ ∃ (new : List Char) (e' : Composed),
      branchesProgram.rename branchesNames = .ok new ∧ branchesProgram.Rewrites branchesNames 2 41 e'.source new ∧
      e'.skeleton = branches.skeleton ∧
      ∀ ρ β, (branches.eval ρ β).tokens.length ≤ (e'.eval ρ β).tokens.length := by
  have hp : parse? branchesProgram.source = some branchesProgram := by decide +kernel
  have hn : branchesProgram.Reached branchesPath branchesNode :=
    .child (.child (.child .root (by decide) rfl) (by decide) rfl) (by decide) rfl
  have hnames : GivesTokens branchesNames := by
    intro t u _ h
    rw [branchesNames] at h
    split at h
    · obtain rfl := Option.some.inj h
      exact ⟨by decide, by decide⟩
    · obtain ⟨-, h⟩ := Option.ite_none_right_eq_some.1 h
      obtain rfl := Option.some.inj h
      exact ⟨by decide, by decide⟩
  obtain ⟨-, new, e', hnew, hrewrites, hskeleton, -, hcount⟩ :=
    length_tokens_rename_composed hp hn branches_standsAt (by decide +kernel) hnames
  exact ⟨hp, new, e', hnew, hrewrites, hskeleton, hcount⟩

def buried : Nat → Composed → Composed
  | 0, e => e
  | k + 1, e => .parens ['('] (.sum (.value ⟨0, ['x']⟩) ['+'] (buried k e)) [')']

def untoldByDepth (e : Composed) : Composed :=
  .sum (buried maxLinks e) ['+'] (.value ⟨1, ['z']⟩)

def untoldByChoice (e : Composed) : Composed :=
  .sum (.parens ['('] (.choice ⟨0, ['c']⟩ ['?'] e [':'] (.string .double [])) [')']) ['+'] (.value ⟨1, ['z']⟩)

def untoldByHole (e : Composed) : Composed :=
  .template (.cons [] ['$', '\x7b'] e ['\x7d'] (.last ['z']))

def renamedSource? (e : Composed) : Option (List Char) :=
  (parse? ("y=".toList ++ e.source)).bind fun p => (p.rename branchesNames).toOption

def untoldValues (i : Nat) : Text := if i = 1 then Text.ofString "z" else []

/-- In this place the literal `"btn "` is written anew with the body given, and two tokens become one. -/
def FusesAt (place : Composed → Composed) (body : List Char) : Prop :=
  renamedSource? (place (.string .double "btn ".toList)) = some ("y=".toList ++ (place (.string .double body)).source) ∧
  ((place (.string .double "btn ".toList)).eval untoldValues fun _ => true).tokens = ["btn", "z"].map Text.ofString ∧
  ((place (.string .double body)).eval untoldValues fun _ => true).tokens = ["az"].map Text.ofString

set_option maxRecDepth 100000 in
theorem rename_fuses_untold :
    FusesAt untoldByDepth " a".toList ∧ FusesAt untoldByChoice "a".toList ∧ FusesAt untoldByHole "a".toList := by
  refine ⟨⟨?_, ?_, ?_⟩, ⟨?_, ?_, ?_⟩, ⟨?_, ?_, ?_⟩⟩ <;> decide +kernel

end Branches

end ShortClass.Program
