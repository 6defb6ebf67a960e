/-
PublishOnce.Toml.Value — what a TOML document says, and the rules by which its
tables grow.

A table remembers how it came about (`Standing`), because that decides who may
add to it: a header opens a table once, a longer header or a dotted key may
pass through tables that only came about by being passed through, and an inline
table is closed. Entries keep the order in which they were added; a table that
was only implied moves to the end when its own header opens it.

All rules meet in `within`, which goes down a key path, making what is missing,
and hands the table it comes to over to a continuation.
-/
import PublishOnce.Binary64

namespace PublishOnce.Toml

/-! ## 1. Values -/

/-- How a table came about. -/
inductive Standing where
  /-- By a header of its own; the document itself counts as such. -/
  | header
  /-- By being on the way of a longer header. -/
  | implied
  /-- By being on the way of a dotted key. -/
  | dotted
  /-- Between braces. -/
  | inline
  deriving DecidableEq, Repr

/-- A value. Of a date or a time only the fact is kept: nothing here reads further into one. -/
inductive Value where
  | string (text : String)
  | integer (number : Int)
  | float (number : Binary64)
  | boolean (truth : Bool)
  | datetime
  | array (items : List Value)
  | table (standing : Standing) (entries : List (String × Value))
  /-- The tables under one repeated header `[[…]]`. -/
  | tables (elements : List (List (String × Value)))
  deriving Inhabited, Repr

/-- The entries of a table, in the order in which they were added. -/
abbrev Entries := List (String × Value)

/-! ## 2. Growing tables -/

/-- Entries with another value for a key that is there. -/
def Entries.set (entries : Entries) (key : String) (value : Value) : Entries :=
  entries.map fun entry => if entry.1 = key then (key, value) else entry

def Entries.erase (entries : Entries) (key : String) : Entries :=
  entries.filter fun entry => entry.1 ≠ key

/-- Go down a key path and let `change` rework the table at its end. A missing table is made, with
the standing that the way has: `dotted` for a dotted key, `implied` for a header. A dotted key does
not pass through a table with its own header, nothing passes through an inline table or a value, and
a repeated header stands for its last table. -/
def within {α : Type} (dotted : Bool) (change : Standing → Entries → Option (Entries × α)) :
    Standing → Entries → List String → Option (Entries × α)
  | standing, entries, [] => change standing entries
  | _, entries, key :: path =>
    match entries.lookup key with
    | none =>
      let fresh := if dotted then Standing.dotted else .implied
      (within dotted change fresh [] path).map fun (inner, result) =>
        (entries ++ [(key, .table fresh inner)], result)
    | some (.table standing inner) =>
      if standing = .inline ∨ (dotted = true ∧ standing = .header) then none
      else
        (within dotted change standing inner path).map fun (inner, result) =>
          (entries.set key (.table standing inner), result)
    | some (.tables elements) =>
      match elements.getLast? with
      | none => none
      | some last =>
        (within dotted change .header last path).map fun (last, result) =>
          (entries.set key (.tables (elements.dropLast ++ [last])), result)
    | some _ => none

/-- Add a value under a dotted key, given as the way and the last part. The last table must have come
about by a dotted key exactly when there is a way, and the last part must be new in it. -/
def addEntry (standing : Standing) (entries : Entries) (way : List String) (key : String)
    (value : Value) : Option Entries :=
  let add (standing : Standing) (entries : Entries) : Option (Entries × Unit) :=
    if decide (standing = .dotted) = way.isEmpty then none
    else if (entries.lookup key).isSome then none
    else some (entries ++ [(key, value)], ())
  (within true add standing entries way).map Prod.fst

/-- The table between braces that holds the given entries, added in order. -/
def inlineTable (pairs : List (List String × String × Value)) : Option Value :=
  (pairs.foldlM (fun entries pair => addEntry .inline entries pair.1 pair.2.1 pair.2.2) []).map
    (.table .inline)

/-! ## 3. The document as it is read -/

/-- A document up to some line: what is finished, and the table that the last header opened. -/
structure Draft where
  /-- All tables but the open one. -/
  finished : Entries := []
  /-- The header of the open table; empty before the first header. -/
  header : List String := []
  /-- Whether that header was a repeated one. -/
  repeated : Bool := false
  /-- The entries of the open table. -/
  current : Entries := []
  deriving Inhabited

namespace Draft

/-- Put the open table into its place. -/
def close (draft : Draft) : Option Entries :=
  match draft.header.getLast? with
  | none => some draft.current
  | some key =>
    let place (_ : Standing) (entries : Entries) : Option (Entries × Unit) :=
      if draft.repeated then
        match entries.lookup key with
        | none => some (entries ++ [(key, .tables [draft.current])], ())
        | some (.tables elements) =>
          some (entries.set key (.tables (elements ++ [draft.current])), ())
        | some _ => none
      else some (entries ++ [(key, .table .header draft.current)], ())
    (within false place .header draft.finished draft.header.dropLast).map Prod.fst

/-- Open the table of a header. Only a table that was implied so far may be opened; it brings what it
has and leaves its old place. -/
def openTable (draft : Draft) (header : List String) : Option Draft := do
  let finished ← draft.close
  let key ← header.getLast?
  let take (_ : Standing) (entries : Entries) : Option (Entries × Entries) :=
    match entries.lookup key with
    | none => some (entries, [])
    | some (.table .implied inner) => some (entries.erase key, inner)
    | some _ => none
  let (finished, current) ← within false take .header finished header.dropLast
  return ⟨finished, header, false, current⟩

def openElement (draft : Draft) (header : List String) : Option Draft := do
  let finished ← draft.close
  let key ← header.getLast?
  let check (_ : Standing) (entries : Entries) : Option (Entries × Unit) :=
    match entries.lookup key with
    | none => some (entries ++ [(key, .tables [])], ())
    | some (.tables _) => some (entries, ())
    | some _ => none
  let (finished, _) ← within false check .header finished header.dropLast
  return ⟨finished, header, true, []⟩

def add (draft : Draft) (way : List String) (key : String) (value : Value) : Option Draft := do
  let current ← addEntry .header draft.current way key value
  return { draft with current }

end Draft

end PublishOnce.Toml
