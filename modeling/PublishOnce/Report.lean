/-
PublishOnce.Report — what is printed about a failure at the end of a run.

First comes the message, and below it the causes. A single cause is indented;
several are numbered, so that it can be seen where each begins, and the further
lines of a cause are indented as far as its first. Every line is indented, an
empty one too.
-/
import PublishOnce.Failure
import PublishOnce.Text.Lines

namespace PublishOnce.Report

/-- A text with one indent before its first line and another before all others. -/
def indent (first others text : String) : String :=
  first ++ ("\n" ++ others).intercalate
    ((Text.splitOn '\n' text.toList).map String.ofList)

/-- A number, set to the right in five columns, and what parts it from the text. -/
def numbered (number : Nat) : String :=
  let digits := toString number
  String.ofList (List.replicate (5 - digits.length) ' ') ++ digits ++ ": "

/-- Causes with their numbers, from a given number on. -/
def numberedCauses : Nat → List String → List String
  | _, [] => []
  | number, cause :: rest =>
    indent (numbered number) "       " cause :: numberedCauses (number + 1) rest

/-- The causes as they are printed, each on lines of its own. -/
def causeTexts : List String → List String
  | [] => []
  | [cause] => [indent "    " "    " cause]
  | causes => numberedCauses 0 causes

def render (message : String) (causes : List String) : String :=
  "Error: " ++ message
    ++ (if causes.isEmpty then ""
        else "\n\nCaused by:" ++ String.join ((causeTexts causes).map ("\n" ++ ·)))
    ++ "\n"

end PublishOnce.Report

namespace PublishOnce

def Failure.report (failure : Failure) : String := Report.render failure.message failure.causes

end PublishOnce
