/-
PublishOnce.Settings.Diagnostic — the rules that settings must meet, and the
report on those that are broken.

Each rule is about one field and is checked on its own, so a run that cannot
start says everything that is wrong with its settings at once, in the order of
the fields. The report has a headline, one block for each broken rule and,
when there are several, their number at the end.
-/
import PublishOnce.Settings.Basic
import PublishOnce.Text.Ansi
import PublishOnce.Text.Blank

namespace PublishOnce.Settings

open Text.Ansi (Style)

/-! ## 1. Diagnostics -/

/-- A broken rule. -/
structure Diagnostic where
  /-- The field, as `section.key`. -/
  field : String
  message : String
  /-- What to write instead. -/
  hint : Option String := none
  deriving DecidableEq, Repr, Inhabited

def fieldName (field : String) : String := Style.brightBlue.paint ("`" ++ field ++ "`")

/-! ## 2. The rules -/

/-- What is said of a field in which there is nothing to see. -/
def mustNotBeEmpty (field : String) (hint : Option String) : Diagnostic :=
  ⟨field, fieldName field ++ " must not be empty", hint⟩

/-- The rule of a field in which there must be something to see. -/
def checkVisible (field hint text : String) : Option Diagnostic :=
  if Text.allBlank text then some (mustNotBeEmpty field (some hint)) else none

def checkRemote (remote : String) : Option Diagnostic :=
  checkVisible "target.remote" "use an SSH (git@host:user/repo.git) or HTTPS URL" remote

/-- The branch must not be blank and must have no white space in it. -/
def checkBranch (branch : String) : Option Diagnostic :=
  if Text.allBlank branch then some (mustNotBeEmpty "target.branch" none)
  else if Text.hasBlank branch then
    some ⟨"target.branch",
      fieldName "target.branch" ++ " contains whitespace: `" ++ branch ++ "`", none⟩
  else none

def checkName (name : String) : Option Diagnostic :=
  checkVisible "commit.name" "git refuses to commit with an empty author name" name

def Target.diagnostics (target : Target) : List Diagnostic :=
  (checkRemote target.remote).toList ++ (checkBranch target.branch).toList

def Commit.diagnostics (commit : Commit) : List Diagnostic := (checkName commit.name).toList

/-- All broken rules, in the order of the fields. -/
def diagnostics (settings : Settings) : List Diagnostic :=
  settings.target.diagnostics ++ settings.commit.diagnostics

/-- Nothing to report is a success. -/
def resultOf (diagnostics : List Diagnostic) : Except (List Diagnostic) Unit :=
  if diagnostics.isEmpty then .ok () else .error diagnostics

/-- Whether settings break no rule, and otherwise all that they break. -/
def validate (settings : Settings) : Except (List Diagnostic) Unit := resultOf settings.diagnostics

/-! ## 3. The report -/

def Diagnostic.render (diagnostic : Diagnostic) : String :=
  Style.dimmed.paint "[" ++ Style.cyan.paint diagnostic.field ++ Style.dimmed.paint "]" ++ "\n"
    ++ Style.red.paint "→" ++ " " ++ diagnostic.message
    ++ (match diagnostic.hint with
        | some hint => "\n  " ++ Style.yellow.paint "hint:" ++ " " ++ hint
        | none => "")

def headline : String := Style.bold.paint (Style.red.paint "config validation failed:")

def countLine (count : Nat) : String :=
  Style.dimmed.paint "found" ++ " " ++ Style.bold.paint (Style.red.paint (toString count)) ++ " "
    ++ Style.dimmed.paint "errors"

/-- A report with one more block. Behind every block but the last stands an empty line, so a block is
written with its index. -/
def appendBlock (count : Nat) (text : String) (block : Diagnostic × Nat) : String :=
  let text := text ++ block.1.render
  if block.2 + 1 < count then text ++ "\n\n" else text

def report (diagnostics : List Diagnostic) : String :=
  let text := diagnostics.zipIdx.foldl (appendBlock diagnostics.length) (headline ++ "\n\n")
  if 1 < diagnostics.length then text ++ "\n\n" ++ countLine diagnostics.length else text

end PublishOnce.Settings
