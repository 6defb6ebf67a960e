/-
PublishOnce.Toml.Document — from the text of a document to its tables.

A document is a sequence of lines: blank ones, comments, headers, and keys with
values. Arrays and inline tables nest, and their depth is limited, so reading a
value goes by recursion on the depth that is left; inside one level, elements
are read off the front until the closing bracket. Whatever does not fit makes
the whole document unreadable: `Document.parse?` answers with the entries of
the document or not at all.
-/
import PublishOnce.Toml.Quoted

namespace PublishOnce.Toml

/-! ## 1. Values that nest -/

/-- Skip white space, line ends and comments, as between the elements of an array. A comment there
must end with its line. -/
def skipFiller : Nat → List Char → List Char
  | 0, cs => cs
  | bound + 1, cs =>
    match skipLines cs with
    | '#' :: rest =>
      match afterNewline? (rest.dropWhile isPlain) with
      | some behind => skipFiller bound behind
      | none => '#' :: rest
    | behind => behind

/-- `skipFiller` with enough steps for the text. -/
def skipBetween (cs : List Char) : List Char := skipFiller (cs.length + 1) cs

/-- The elements of an array behind its opening bracket, up to and with the closing one; a comma may
follow the last element. The first argument bounds the number of elements. -/
def elements (value : List Char → Option (Value × List Char)) :
    Nat → List Char → Option (List Value × List Char)
  | 0, _ => none
  | bound + 1, cs =>
    match skipBetween cs with
    | ']' :: rest => some ([], rest)
    | start => do
      let (item, rest) ← value start
      match skipBetween rest with
      | ',' :: rest => do
        let (items, rest) ← elements value bound rest
        return (item :: items, rest)
      | ']' :: rest => return ([item], rest)
      | _ => none

def takePair (value : List Char → Option (Value × List Char)) (cs : List Char) :
    Option ((List String × String × Value) × List Char) := do
  let (way, key, rest) ← takeKey cs
  match rest with
  | '=' :: rest => do
    let (item, rest) ← value (skipBlanks rest)
    return ((way, key, item), skipBlanks rest)
  | _ => none

/-- The pairs of an inline table, up to and with the closing brace; no comma follows the last one.
The first argument bounds the number of pairs. -/
def pairs (value : List Char → Option (Value × List Char)) :
    Nat → List Char → Option (List (List String × String × Value) × List Char)
  | 0, _ => none
  | bound + 1, cs => do
    let (pair, rest) ← takePair value cs
    match rest with
    | ',' :: rest => do
      let (more, rest) ← pairs value bound rest
      return (pair :: more, rest)
    | '\x7d' :: rest => return ([pair], rest)
    | _ => none

/-- The inline table behind an opening brace. -/
def takeInlineTable (value : List Char → Option (Value × List Char)) (cs : List Char) :
    Option (Value × List Char) :=
  match skipBlanks cs with
  | '\x7d' :: rest => (inlineTable []).map fun table => (table, rest)
  | start => do
    let (content, rest) ← pairs value (start.length + 1) start
    return (← inlineTable content, rest)

/-- A value. The first argument is the number of brackets that may still open. -/
def takeValue : Nat → List Char → Option (Value × List Char)
  | _, '"' :: rest =>
    (takeString ('"' :: rest)).map fun (text, rest) => (.string (String.ofList text), rest)
  | _, '\'' :: rest =>
    (takeString ('\'' :: rest)).map fun (text, rest) => (.string (String.ofList text), rest)
  | 0, '[' :: _ => none
  | 0, '\x7b' :: _ => none
  | depth + 1, '[' :: rest =>
    (elements (takeValue depth) (rest.length + 1) rest).map fun (items, rest) =>
      (.array items, rest)
  | depth + 1, '\x7b' :: rest => takeInlineTable (takeValue depth) rest
  | _, cs => takeScalar cs

/-! ## 2. Lines -/

/-- What follows the rest of a line that holds nothing but white space and a comment. The end of the
text ends a line too. -/
def afterLine? (cs : List Char) : Option (List Char) :=
  let behind :=
    match skipBlanks cs with
    | '#' :: rest => rest.dropWhile isPlain
    | rest => rest
  if behind.isEmpty then some [] else afterNewline? behind

/-- A header in single brackets or, doubled, a repeated one; the flag tells which. -/
def takeHeader : List Char → Option ((List String × Bool) × List Char)
  | '[' :: '[' :: rest => do
    let (way, key, rest) ← takeKey rest
    match rest with
    | ']' :: ']' :: rest => return ((way ++ [key], true), rest)
    | _ => none
  | '[' :: rest => do
    let (way, key, rest) ← takeKey rest
    match rest with
    | ']' :: rest => return ((way ++ [key], false), rest)
    | _ => none
  | _ => none

/-- One line: what the draft becomes, and what follows. The text does not start with white space and
is not empty. -/
def takeLine (draft : Draft) (cs : List Char) : Option (Draft × List Char) :=
  match cs with
  | '#' :: _ => (afterLine? cs).map fun rest => (draft, rest)
  | '\n' :: _ | '\r' :: _ => (afterNewline? cs).map fun rest => (draft, rest)
  | '[' :: _ => do
    let ((header, repeated), rest) ← takeHeader cs
    let rest ← afterLine? rest
    let draft ← if repeated then draft.openElement header else draft.openTable header
    return (draft, rest)
  | _ => do
    let ((way, key, value), rest) ← takePair (takeValue (nestingLimit - 1)) cs
    let rest ← afterLine? rest
    return (← draft.add way key value, rest)

/-- All lines. The first argument bounds their number. -/
def takeLines : Nat → Draft → List Char → Option Draft
  | 0, _, _ => none
  | bound + 1, draft, cs =>
    match skipBlanks cs with
    | [] => some draft
    | start => do
      let (draft, rest) ← takeLine draft start
      takeLines bound draft rest

/-! ## 3. Documents -/

/-- The entries of a document, or nothing if the text is not one. A byte order mark in front is
skipped. -/
def Document.parse? (text : String) : Option Entries := do
  let cs := text.toList
  let cs := if cs.head? = some '\uFEFF' then cs.drop 1 else cs
  let draft ← takeLines (cs.length + 1) {} cs
  draft.close

end PublishOnce.Toml
