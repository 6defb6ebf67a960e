/-
PublishOnce.CommandLine.Parse — from words to a command line.

The words are read in order, and the first that does not fit ends the reading.
The value of an option is looked at late: only when the next option is read, or
when the words are used up. An unknown word in between is therefore reported
first. What stands behind the command is read before the last option in front
of it is looked at, for the same reason.
-/
import PublishOnce.CommandLine.Basic

namespace PublishOnce.CommandLine

/-! ## 1. What has been read at one level -/

/-- The options of one level so far. -/
structure Read where
  values : List (Key × Bytes) := []
  verbose : Bool := false
  /-- The option not yet looked at, with its value if that has been read. -/
  pending : Option (Key × Option Bytes) := none
  deriving DecidableEq, Repr, Inhabited

namespace Read

def isEmpty (read : Read) : Bool := read.values.isEmpty && !read.verbose

def awaitsValue (read : Read) : Bool :=
  match read.pending with
  | some (_, none) => true
  | _ => false

/-- Look at the pending option. -/
def settle (read : Read) : Except Halt Read :=
  match read.pending with
  | none => .ok read
  | some (_, none) => .error .invalidValue
  | some (key, some value) =>
    if (read.values.lookup key).isSome then .error .argumentConflict
    else if !key.accepts value then .error key.objection
    else .ok { read with values := read.values ++ [(key, value)], pending := none }

def give (read : Read) (value : Bytes) : Read :=
  { read with pending := read.pending.map fun (key, _) => (key, some value) }

/-- Begin an option whose value is still to come. -/
def begin (read : Read) (key : Key) : Except Halt Read := do
  return { ← read.settle with pending := some (key, none) }

def attach (read : Read) (key : Key) (value : Bytes) : Except Halt Read := do
  (← read.begin key).give value |>.settle

def turnOn (read : Read) (switch : Switch) : Except Halt Read := do
  let read ← read.settle
  match switch with
  | .verbose => if read.verbose then throw .argumentConflict else return { read with verbose := true }
  | .help => throw .helpWanted
  | .version => throw .versionWanted

end Read

/-! ## 2. Options -/

@[match_pattern]
abbrev dash : UInt8 := 0x2D

@[match_pattern]
abbrev equals : UInt8 := 0x3D

/-- A long option without its dashes: the name, and the value behind an equals sign. -/
def splitLong (rest : Bytes) : Bytes × Option Bytes :=
  let name := rest.takeWhile (· ≠ equals)
  (name,
    match rest.drop name.length with
    | _ :: value => some value
    | [] => none)

def readLong (level : Level) (read : Read) (rest : Bytes) : Except Halt Read :=
  match splitLong rest with
  | (name, value) =>
    match Opt.ofLong? level name, value with
    | none, _ => .error .unknownArgument
    | some (.key key), some value => read.attach key value
    | some (.key key), none => read.begin key
    | some (.switch _), some _ => .error .tooManyValues
    | some (.switch switch), none => read.turnOn switch

/-- Read short options in one word. The first that takes a value takes the rest of the word, without
an equals sign in front, or else the next word. All letters are of ASCII, so what is not is read as no
option, byte by byte as well as by characters. -/
def readShort (level : Level) (read : Read) : Bytes → Except Halt Read
  | [] => .ok read
  | byte :: rest =>
    match Opt.ofShort? level (Char.ofNat byte.toNat) with
    | none => .error .unknownArgument
    | some (.switch switch) => do readShort level (← read.turnOn switch) rest
    | some (.key key) =>
      match rest with
      | [] => read.begin key
      | equals :: value => read.attach key value
      | value => read.attach key value

/-- What a word is by its first bytes. -/
inductive Shape where
  /-- Two dashes alone: no options from here on. -/
  | escape
  | long (rest : Bytes)
  | short (rest : Bytes)
  | plain
  deriving DecidableEq, Repr

/-- The shape of a word. A dash alone is plain. -/
def shape : Bytes → Shape
  | [dash, dash] => .escape
  | dash :: dash :: rest => .long rest
  | [dash] => .plain
  | dash :: rest => .short rest
  | _ => .plain

/-! ## 3. Words behind the command -/

/-- Read the words behind the command, to the end. -/
def readSub (read : Read) : List Bytes → Except Halt Read
  | [] => read.settle
  | word :: rest =>
    match shape word with
    | .escape => if rest.isEmpty then read.settle else .error .unknownArgument
    | .long option => do readSub (← readLong .sub read option) rest
    | .short letters => do readSub (← readShort .sub read letters) rest
    | .plain =>
      if read.awaitsValue then readSub (read.give word) rest else .error .unknownArgument

/-! ## 4. All words -/

def withoutVerb (read : Read) : Except Halt CommandLine := do
  let read ← read.settle
  throw (if read.isEmpty then .nothingGiven else .missingSubcommand)

/-- Words behind two dashes and without a command: there is no command in them either, even if the
first of them looks like one. -/
def behindEscape (read : Read) : List Bytes → Except Halt CommandLine
  | [] => withoutVerb read
  | word :: _ => .error (if isCommandWord word then .unknownArgument else .invalidSubcommand)

/-- The words behind the one that asks for help: nothing, or one command. -/
def helpOn : List Bytes → Halt
  | [] => .helpWanted
  | [word] => if isCommandWord word then .helpWanted else .invalidSubcommand
  | _ => .invalidSubcommand

/-- The value of an option: behind the command, or else in front of it. -/
def valueOf (top sub : Read) (key : Key) : Option Bytes :=
  (sub.values.lookup key).or (top.values.lookup key)

/-- What both levels say together. -/
def assemble (verb : Verb) (top sub : Read) : CommandLine where
  verb := verb
  colour := ((valueOf top sub .color).bind Colour.ofWord?).getD .auto
  verbose := top.verbose || sub.verbose
  config := (valueOf top sub .config).map Path.mk
  overrides :=
    { remote := (valueOf top sub .remote).bind Bytes.text?
      branch := (valueOf top sub .branch).bind Bytes.text?
      dir := (valueOf top sub .dir).map Path.mk
      source := (valueOf top sub .source).map Path.mk
      scratch := (valueOf top sub .scratch).map Path.mk }

def readTop (read : Read) : List Bytes → Except Halt CommandLine
  | [] => withoutVerb read
  | word :: rest =>
    match if read.awaitsValue then none else Verb.ofWord? word with
    | some verb => do
      let sub ← readSub {} rest
      let top ← read.settle
      return assemble verb top sub
    | none =>
      match shape word with
      | .escape => behindEscape read rest
      | .long option => do readTop (← readLong .top read option) rest
      | .short letters => do readTop (← readShort .top read letters) rest
      | .plain =>
        if read.awaitsValue then readTop (read.give word) rest
        else .error (if word = helpWord then helpOn rest else .invalidSubcommand)

/-- The command line that words make, or why they make none. -/
def parse (words : List Bytes) : Except Halt CommandLine := readTop {} words

end PublishOnce.CommandLine
