import ShortClass.Program.Grammar.Statement

namespace ShortClass

structure Program where
  source : List Char
  root : Program.Node
  deriving DecidableEq

namespace Program

def production (g : Grammar) : Nonterminal → Parser Node
  | .expression inWord => Grammar.expression g inWord
  | .operators level inWord => Grammar.operators g level inWord
  | .unary => Grammar.unary g
  | .callee calls => Grammar.callee g calls
  | .element => Grammar.element g
  | .binding => Grammar.binding g
  | .statement => Grammar.statement g

def grammar : Nat → Grammar
  | 0 => fun _ => Parser.fail
  | depth + 1 => fun n => production (grammar depth) n

def hashbangLength (source : List Char) : Nat :=
  let mark := if source.head? = some '\uFEFF' then 1 else 0
  if (source.drop mark).take 2 = ['#', '!'] then
    mark + ((source.drop mark).takeWhile fun c => !isLineEnd c).length
  else 0

def wholeText (g : Grammar) : Parser Node := do
  let start := (← get).pos
  let statements ← Parser.many do
    if (← Parser.ahead).isEmpty then return none else return some (← g .statement)
  Parser.node .other start statements

/-- How deep a text of `n` characters can nest: between two characters that are read lie at most four
nonterminals. -/
def depthFor (n : Nat) : Nat := 8 * n + 16

def parse? (source : List Char) : Option Program := do
  let skipped := hashbangLength source
  let (root, _) ← (wholeText (grammar (depthFor source.length))).run ⟨skipped, source.drop skipped⟩
  if root.hasKind .shorthandDefault then none else some ⟨source, root⟩

def text (p : Program) (start stop : Nat) : List Char := (p.source.drop start).take (stop - start)

end Program

end ShortClass
