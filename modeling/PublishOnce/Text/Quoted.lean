/-
PublishOnce.Text.Quoted — a command line on one line.

Arguments are written behind each other with a blank between them. An empty
argument would vanish and one with a separator in it would look like two, so
these are put between single quotes. Which characters ask for quotes is the
caller's choice: the log of a command looks at plain blanks, the log of a
publishing step at all white space.
-/

namespace PublishOnce.Text.Quoted

/-- One argument, between quotes when it is empty or holds a character that asks for them. -/
def argument (needs : Char → Bool) (arg : String) : String :=
  if arg.isEmpty || arg.toList.any needs then "'" ++ arg ++ "'" else arg

/-- Arguments in order, a blank between each two. -/
def commandLine (needs : Char → Bool) (args : List String) : String :=
  " ".intercalate (args.map (argument needs))

end PublishOnce.Text.Quoted
