/-! Maps that keep their keys in the order in which they first came. -/

namespace VisitGraph

/-- Keys with their values, oldest key first. -/
structure Roster (κ α : Type) where
  entries : List (κ × α)
  deriving DecidableEq, Repr

namespace Roster

variable {κ α β : Type}

/-- No keys. -/
def empty : Roster κ α := ⟨[]⟩

/-- The number of keys. -/
def size (r : Roster κ α) : Nat :=
  r.entries.length

/-- The keys in order. -/
def keys (r : Roster κ α) : List κ :=
  r.entries.map Prod.fst

/-- The values in the order of their keys. -/
def values (r : Roster κ α) : List α :=
  r.entries.map Prod.snd

/-- The same keys with other values. -/
def map (f : α → β) (r : Roster κ α) : Roster κ β :=
  ⟨r.entries.map fun (k, a) => (k, f a)⟩

variable [DecidableEq κ]

/-- The value of a key. -/
def get? (r : Roster κ α) (k : κ) : Option α :=
  r.entries.lookup k

/-- Whether a key has a value. -/
def contains (r : Roster κ α) (k : κ) : Bool :=
  (r.get? k).isSome

/-- Changes the value of a key where it stands, or adds the key at the end. -/
def alterEntries (k : κ) (f : Option α → α) : List (κ × α) → List (κ × α)
  | [] => [(k, f none)]
  | (k', a) :: rest => if k' = k then (k', f (some a)) :: rest else (k', a) :: alterEntries k f rest

/-- Changes the value of a key, which is given as nothing for a new key. -/
def alter (r : Roster κ α) (k : κ) (f : Option α → α) : Roster κ α :=
  ⟨alterEntries k f r.entries⟩

/-- Gives a key a value. -/
def put (r : Roster κ α) (k : κ) (a : α) : Roster κ α :=
  r.alter k fun _ => a

/-- A repeated key keeps its first place and takes its last value. -/
def ofList (entries : List (κ × α)) : Roster κ α :=
  entries.foldl (fun r (k, a) => r.put k a) empty

/-- How often each key occurs. -/
def tally (ks : List κ) : Roster κ Nat :=
  ks.foldl (fun r k => r.alter k fun n => n.getD 0 + 1) empty

end VisitGraph.Roster
