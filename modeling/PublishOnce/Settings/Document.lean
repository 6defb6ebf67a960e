/-
PublishOnce.Settings.Document — settings as a TOML document says them.

A document is read entry by entry, in the order in which its tables grew. An
entry with a known key must hold a value of the right kind; the first that does
not makes the document unusable. An entry with an unknown key is passed over
and its name collected, without a look at what it holds.

A section is a table. Two other things are accepted in its place: an array,
whose items are the fields in order, and a date, which the format hands over as
a table with one entry that no section knows.
-/
import PublishOnce.Settings.Basic
import PublishOnce.Text.Escaped
import PublishOnce.Toml.Document

namespace PublishOnce.Settings

open Toml (Value Entries)

/-! ## 1. Values of the wrong kind -/

/-- What a value should have been. -/
inductive Expected where
  | text
  | path
  | source
  | target
  | commit
  deriving DecidableEq, Repr, Inhabited

def Expected.describe : Expected → String
  | .text => "a string"
  | .path => "path string"
  | .source => "struct SourceConfig"
  | .target => "struct TargetConfig"
  | .commit => "struct CommitConfig"

structure Mismatch where
  found : Value
  expected : Expected
  deriving Inhabited, Repr

/-- What a value is called in a message: simple ones are shown, others named by their kind. -/
def describe : Value → String
  | .string text => "string " ++ Text.Escaped.quote text
  | .integer number => "integer `" ++ toString number ++ "`"
  | .float number => "floating point `" ++ number.text ++ "`"
  | .boolean truth => "boolean `" ++ (if truth then "true" else "false") ++ "`"
  | .array _ | .tables _ => "sequence"
  | .datetime | .table .. => "map"

/-- The sentence about a value of the wrong kind. -/
def Mismatch.message (mismatch : Mismatch) : String :=
  "invalid type: " ++ describe mismatch.found ++ ", expected " ++ mismatch.expected.describe

/-! ## 2. Fields -/

/-- A field of a section: its key, what it holds, and how it is set. -/
structure Field (S : Type) where
  key : String
  expected : Expected
  set : String → S → S

/-- The fields of the source section, in order. -/
def Source.fields : List (Field Source) :=
  [⟨"root", .path, fun text source => { source with root := text }⟩]

def Target.fields : List (Field Target) :=
  [⟨"remote", .text, fun text target => { target with remote := text }⟩,
   ⟨"branch", .text, fun text target => { target with branch := text }⟩,
   ⟨"dir", .path, fun text target => { target with dir := text }⟩,
   ⟨"scratch", .path, fun text target => { target with scratch := text }⟩]

def Commit.fields : List (Field Commit) :=
  [⟨"prefix", .text, fun text commit => { commit with messagePrefix := text }⟩,
   ⟨"name", .text, fun text commit => { commit with name := text }⟩,
   ⟨"email", .text, fun text commit => { commit with email := text }⟩]

/-- Set a field from a value, which must be a string. -/
def Field.read {S : Type} (field : Field S) (value : Value) (settings : S) : Except Mismatch S :=
  match value with
  | .string text => .ok (field.set text settings)
  | _ => .error ⟨value, field.expected⟩

/-! ## 3. Sections -/

/-- Read entries one after the other. The names of unknown ones are collected, behind the name of the
section. -/
def readEntries {S : Type} (name : String) (fields : List (Field S)) :
    Entries → S → Except Mismatch (S × List String)
  | [], settings => .ok (settings, [])
  | (key, value) :: rest, settings =>
    match fields.find? (fun field => field.key = key) with
    | some field => do
      let settings ← field.read value settings
      readEntries name fields rest settings
    | none => do
      let (settings, ignored) ← readEntries name fields rest settings
      return (settings, (name ++ "." ++ key) :: ignored)

/-- Read fields in order from the items of an array, as far as either goes. -/
def readItems {S : Type} : List (Field S) → List Value → S → Except Mismatch S
  | field :: fields, item :: items, settings => do
    let settings ← field.read item settings
    readItems fields items settings
  | _, _, settings => .ok settings

/-- The key of the one entry that a date is handed over with. -/
def datetimeKey : String := "$__toml_private_datetime"

/-- Read a section from whatever stands in its place. -/
def readSection {S : Type} (name : String) (expected : Expected) (fields : List (Field S))
    (value : Value) (defaults : S) : Except Mismatch (S × List String) :=
  match value with
  | .table _ entries => readEntries name fields entries defaults
  | .datetime => readEntries name fields [(datetimeKey, value)] defaults
  | .array items => return (← readItems fields items defaults, [])
  | .tables elements =>
    return (← readItems fields (elements.map (.table .header)) defaults, [])
  | _ => .error ⟨value, expected⟩

/-! ## 4. Documents -/

/-- Read one entry of the document into settings. -/
def readEntry (key : String) (value : Value) (settings : Settings) :
    Except Mismatch (Settings × List String) :=
  if key = "source" then do
    let (source, ignored) ← readSection key .source Source.fields value {}
    return ({ settings with source }, ignored)
  else if key = "target" then do
    let (target, ignored) ← readSection key .target Target.fields value {}
    return ({ settings with target }, ignored)
  else if key = "commit" then do
    let (commit, ignored) ← readSection key .commit Commit.fields value {}
    return ({ settings with commit }, ignored)
  else return (settings, [key])

/-- Read the entries of a document, on top of settings. -/
def readOnto (settings : Settings) : Entries → Except Mismatch (Settings × List String)
  | [] => .ok (settings, [])
  | (key, value) :: rest => do
    let (settings, ignored) ← readEntry key value settings
    let (settings, more) ← readOnto settings rest
    return (settings, ignored ++ more)

/-- The settings that the entries of a document say, and the names of the entries that say nothing. -/
def ofEntries (entries : Entries) : Except Mismatch (Settings × List String) :=
  readOnto {} entries

/-- Why a text says no settings. -/
inductive DocumentError where
  | malformed
  /-- It is one, with a value of the wrong kind. -/
  | mismatch (reason : Mismatch)
  deriving Inhabited

def ofText (text : String) : Except DocumentError (Settings × List String) :=
  match Toml.Document.parse? text with
  | none => .error .malformed
  | some entries =>
    match ofEntries entries with
    | .ok result => .ok result
    | .error reason => .error (.mismatch reason)

end PublishOnce.Settings
