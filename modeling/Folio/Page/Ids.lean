/-!
Ids for elements that need one. All ids of one run share its name and differ in their number, so
none is issued twice. Runs are numbered and named by their numbers, of which the first is drawn at
random by whoever opens a site; readers see all its runs under one name.
-/
namespace Folio

structure Ids where
  run : String
  issued : Nat := 0
  deriving DecidableEq, Repr

namespace Ids

/-- The name of a run: a letter and the hexadecimal digits of its number, eight at least. -/
def runName (run : Nat) : String :=
  let digits := Nat.toDigits 16 run
  String.ofList ('w' :: (List.replicate (8 - digits.length) '0' ++ digits))

/-- The ids of a run, by its number. -/
def ofRun (run : Nat) : Ids := { run := runName run }

variable (ids : Ids)

/-- The id with a number. -/
def nth (n : Nat) : String := ids.run ++ "-" ++ toString n

/-- Issues the next id. -/
def next : String × Ids := (ids.nth (ids.issued + 1), { ids with issued := ids.issued + 1 })

/-- Issues ids one after another. -/
def take : Nat → Ids → List String × Ids
  | 0, ids => ([], ids)
  | count + 1, ids =>
    let (id, ids) := ids.next
    let (more, ids) := take count ids
    (id :: more, ids)

/-- The name under which readers see every run. -/
def shownRun : List Char := ['w', '0', '0', '0', '0', '0', '0', '0', '0']

/-- The number that lower-case hexadecimal digits stand for. -/
def hexValue? (s : List Char) : Option Nat :=
  s.foldlM (fun n c =>
    if c.isDigit then some (n * 16 + (c.toNat - '0'.toNat))
    else if 'a' ≤ c ∧ c ≤ 'f' then some (n * 16 + (c.toNat - 'a'.toNat + 10))
    else none) 0

/-- The number of the run whose name, with eight digits, starts a text. -/
def runAt? : List Char → Option Nat
  | 'w' :: s => if (s.take 8).length = 8 then hexValue? (s.take 8) else none
  | _ => none

/-- The number of the run whose first id a text is. -/
def runOfFirst? (id : String) : Option Nat :=
  if id.toList.drop 9 = ['-', '1'] then runAt? id.toList else none

/-- The runs that readers see under one name: those from `first` up to, but without, `next`, and
some others. -/
structure Runs where
  first : Nat
  next : Nat
  others : List Nat := []
  deriving DecidableEq, Repr

def Runs.contains (runs : Runs) (n : Nat) : Bool :=
  (runs.first ≤ n && n < runs.next) || runs.others.contains n

/-- Adds the run whose first id a text is, if it is one. -/
def Runs.learn (runs : Runs) (id : String) : Runs :=
  match runOfFirst? id with
  | some n => if runs.contains n then runs else { runs with others := n :: runs.others }
  | none => runs

/-- Puts the shown name in place of the names of runs. `skip` characters still belong to the last
name, and `done` is the result so far, reversed. -/
def concealFrom (runs : Runs) (done : List Char) : Nat → List Char → List Char
  | _, [] => done.reverse
  | skip + 1, _ :: s => concealFrom runs done skip s
  | 0, c :: s =>
    if (runAt? (c :: s)).any runs.contains then
      concealFrom runs (shownRun.reverseAux done) 8 s
    else concealFrom runs (c :: done) 0 s

/-- A text as readers see it. -/
def conceal (runs : Runs) (s : String) : String :=
  String.ofList (concealFrom runs [] 0 s.toList)

end Ids

end Folio
