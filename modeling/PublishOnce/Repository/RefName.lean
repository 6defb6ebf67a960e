/-
PublishOnce.Repository.RefName — the names of references.

A name is made of components with a slash between them. Some characters and
spellings are reserved for git's own notations and refused. A name of one
component is only allowed in capitals, like `HEAD`; all other references live
below `refs/`, and a name that does not say so may be an abbreviation.
-/
import PublishOnce.Text.Lines

namespace PublishOnce.Repository

/-! ## 1. Valid names -/

/-- Characters that no name has: controls, the blank, and those that git's notations use. -/
def isReserved (c : Char) : Bool :=
  c.toNat < 0x20 || c.toNat = 0x7F || " ~^:?*[\\".toList.contains c

def occursIn (part : List Char) : List Char → Bool
  | [] => part.isEmpty
  | c :: rest => part.isPrefixOf (c :: rest) || occursIn part rest

/-- A component does not start with a dot and does not end like a lock file. -/
def isComponent (component : List Char) : Bool :=
  !component.isEmpty && component.head? ≠ some '.' && !".lock".toList.isSuffixOf component

/-- A name in capitals and underscores. -/
def isCapitals (name : List Char) : Bool := name.all fun c => c.isUpper || c = '_'

def isRefName (name : String) : Bool :=
  let cs := name.toList
  let components := Text.splitOn '/' cs
  !cs.any isReserved && !occursIn "..".toList cs && !occursIn "@\x7b".toList cs
    && cs.getLast? ≠ some '.' && components.all isComponent
    && (1 < components.length || isCapitals cs)

/-! ## 2. Where a name is looked up -/

/-- The full names that a name may stand for, the first that exists counts. -/
def fullNames (name : String) : List String :=
  if "refs/".toList.isPrefixOf name.toList then [name]
  else
    (if isCapitals name.toList then [name] else [])
      ++ ["refs/" ++ name, "refs/tags/" ++ name, "refs/heads/" ++ name, "refs/remotes/" ++ name,
          "refs/remotes/" ++ name ++ "/HEAD"]

/-- Where the references of a single working tree live. -/
def treeBound : List String := ["refs/bisect/", "refs/rewritten/", "refs/worktree/"]

/-- Whether a reference may be packed: it is below `refs/` and not one that belongs to a single
working tree. -/
def isPackable (name : String) : Bool :=
  "refs/".toList.isPrefixOf name.toList
    && !treeBound.any fun start => start.toList.isPrefixOf name.toList

end PublishOnce.Repository
