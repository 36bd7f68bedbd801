import ShortClass.Text.Blank

namespace ShortClass

structure Usage where
  counts : List (Text × Nat) := []
  stems : List Text := []

namespace Usage

def bump (n : Nat) (t : Text) : List (Text × Nat) → List (Text × Nat)
  | [] => [(t, n)]
  | (u, k) :: rest => if u = t then (u, k + n) :: rest else (u, k) :: bump n t rest

def countIn (t : Text) : List (Text × Nat) → Nat
  | [] => 0
  | (u, k) :: rest => if u = t then k else countIn t rest

theorem countIn_bump (n : Nat) (t u : Text) (counts : List (Text × Nat)) :
    countIn u (bump n t counts) = countIn u counts + if u = t then n else 0 := by
  induction counts with
  | nil => grind [bump, countIn]
  | cons e counts ih =>
    obtain ⟨v, k⟩ := e
    grind [bump, countIn]

def count (u : Usage) (t : Text) : Nat := countIn t u.counts

def recordList (u : Usage) (list : Text) : Usage :=
  { u with counts := list.tokens.foldl (fun counts t => bump 1 t counts) u.counts }

theorem count_recordList (u : Usage) (list t : Text) :
    (u.recordList list).count t = u.count t + list.tokens.count t := by
  simp only [recordList, count]
  generalize list.tokens = ts
  generalize u.counts = counts
  induction ts generalizing counts with
  | nil => simp
  | cons s ts ih =>
    rw [List.foldl_cons, ih, countIn_bump]
    by_cases h : t = s
    · simp_all [eq_comm]
      omega
    · simp_all [eq_comm]

/-- Remembers `t` as the beginning of run-time names, if it can be one. -/
def recordStem (u : Usage) (t : Text) : Usage :=
  if t.isFragment && !u.stems.contains t then { u with stems := u.stems ++ [t] } else u

def isBuilt (u : Usage) (t : Text) : Bool := u.stems.any (·.isPrefixOf t)

def merge (u v : Usage) : Usage where
  counts := v.counts.foldl (fun counts (t, n) => bump n t counts) u.counts
  stems := v.stems.foldl (fun stems t => if stems.contains t then stems else stems ++ [t]) u.stems

def sortedCounts (u : Usage) : List (Text × Nat) := u.counts.mergeSort fun a b => a.1.le b.1

def sortedStems (u : Usage) : List Text := u.stems.mergeSort Text.le

end Usage

end ShortClass
