/-
PublishOnce.Proofs.CommandLine.Spelling — the ways to write a command line.

What is to be said can be written in many ways. An option is mentioned by its name,
with the value behind an equals sign or in a word of its own, or by a letter; the
mentions stand in any order, and those of the global options on either side of the
command. `Writes` says which words write a command line, and `parse_of_writes`
that each of them is read as just that.

The mentions are read one by one. Each adds its option to what the level has
read so far (`reads_mention`), so what counts behind all of them is their list and
no longer how they were spelled (`reads_mentions`). As no option is mentioned
twice, the order is lost in the look-ups.

A value must not be empty, since a path must not. In a word of its own it must not
begin with a dash, or it would be read as an option. Nothing else is asked of it: it
may be the name of a command, since the option in front is still waiting when it is
read, and where it is a path it need not be text.
-/
import PublishOnce.Proofs.CommandLine.Reading
import PublishOnce.Proofs.Rows
import Mathlib.Data.List.TakeWhile

namespace PublishOnce.CommandLine

/-! ## 1. Mentions -/

/-- The name behind two dashes. -/
def Key.longName : Key → String
  | .color => "color"
  | .config => "config"
  | .remote => "remote"
  | .branch => "branch"
  | .dir => "dir"
  | .source => "source"
  | .scratch => "scratch"

/-- The letter behind one dash, for the options that have one. -/
def Key.letter? : Key → Option Char
  | .config => some 'C'
  | .remote => some 'r'
  | .branch => some 'b'
  | .dir => some 'd'
  | .source => some 's'
  | .color | .scratch => none

/-- The options that may stand in front of the command as well. -/
def Key.isGlobal : Key → Bool
  | .color | .config => true
  | _ => false

/-- The two words for a command. -/
def Verb.words : Verb → List Bytes
  | .publish => ["publish", "p"]
  | .status => ["status", "s"]

/-- How an option and its value are written. -/
inductive Form where
  /-- The name and the value in one word, with an equals sign between them. -/
  | joined
  /-- The name, and the value in the next word. -/
  | apart
  /-- A letter, and the value in the next word. -/
  | brief (letter : Char)
  deriving DecidableEq, Repr

/-- An option as it is mentioned on a command line. -/
inductive Mention where
  | valued (key : Key) (value : Bytes) (form : Form)
  | verbose (brief : Bool)
  deriving DecidableEq, Repr

namespace Mention

def words : Mention → List Bytes
  | .valued key value .joined => [Bytes.ofString ("--" ++ key.longName ++ "=") ++ value]
  | .valued key value .apart => [Bytes.ofString ("--" ++ key.longName), value]
  | .valued _ value (.brief letter) => [Bytes.ofString (String.ofList ['-', letter]), value]
  | .verbose brief => [if brief then "-v" else "--verbose"]

def opt : Mention → Opt
  | .valued key _ _ => .key key
  | .verbose _ => .switch .verbose

def pair? : Mention → Option (Key × Bytes)
  | .valued key value _ => some (key, value)
  | .verbose _ => none

def isGlobal : Mention → Bool
  | .valued key _ _ => key.isGlobal
  | .verbose _ => true

/-- The value is not empty, and in a word of its own it does not begin with a dash; the letter is that
of the option. -/
def IsFit : Mention → Prop
  | .valued _ value .joined => value ≠ []
  | .valued _ value .apart => value ≠ [] ∧ value.head? ≠ some dash
  | .valued key value (.brief letter) =>
    value ≠ [] ∧ value.head? ≠ some dash ∧ key.letter? = some letter
  | .verbose _ => True

instance (mention : Mention) : Decidable mention.IsFit := by
  unfold IsFit
  split <;> infer_instance

/-- The value is one for the option. -/
def IsTaken (mention : Mention) : Prop :=
  ∀ key value, mention.pair? = some (key, value) → key.accepts value = true

end Mention

/-- The options with their values that are mentioned. -/
def pairs (mentions : List Mention) : List (Key × Bytes) := mentions.filterMap Mention.pair?

@[simp] theorem pairs_nil : pairs [] = [] := rfl

@[simp] theorem pairs_valued (key : Key) (value : Bytes) (form : Form) (rest : List Mention) :
    pairs (.valued key value form :: rest) = (key, value) :: pairs rest := rfl

@[simp] theorem pairs_verbose (brief : Bool) (rest : List Mention) :
    pairs (.verbose brief :: rest) = pairs rest := rfl

theorem pairs_append (front behind : List Mention) :
    pairs (front ++ behind) = pairs front ++ pairs behind :=
  List.filterMap_append

/-- The value that a command line has for an option. -/
def value? (line : CommandLine) : Key → Option Bytes
  | .color => some line.colour.word
  | .config => line.config.map Path.bytes
  | .remote => line.overrides.remote.map Bytes.ofString
  | .branch => line.overrides.branch.map Bytes.ofString
  | .dir => line.overrides.dir.map Path.bytes
  | .source => line.overrides.source.map Path.bytes
  | .scratch => line.overrides.scratch.map Path.bytes

/-- The mentions say what the command line says, and say all of it. Only the colour may go without
saying, when it is the usual one. -/
structure Says (mentions : List Mention) (line : CommandLine) : Prop where
  said : ∀ pair ∈ pairs mentions, line.value? pair.1 = some pair.2
  all (key : Key) (value : Bytes) : key ≠ .color → line.value? key = some value →
    (key, value) ∈ pairs mentions
  colour : .color ∉ (pairs mentions).map Prod.fst → line.colour = .auto
  verbose : line.verbose = true ↔ .switch .verbose ∈ mentions.map Mention.opt

/-- The words that write a command line: the command by one of its names, the options around it in
any order and each at most once, those that are not global behind it. -/
inductive Writes (line : CommandLine) : List Bytes → Prop
  | intro (front behind : List Mention) (word : Bytes) (verb : word ∈ line.verb.words)
      (globals : ∀ mention ∈ front, mention.isGlobal = true)
      (once : ((front ++ behind).map Mention.opt).Nodup)
      (fit : ∀ mention ∈ front ++ behind, mention.IsFit)
      (meaning : Says (front ++ behind) line) :
      Writes line (front.flatMap Mention.words ++ word :: behind.flatMap Mention.words)

/-! ## 2. One mention -/

variable {level : Level} {key : Key} {value : Bytes} {mention : Mention} {mentions : List Mention}
  {read settled : Read}

theorem ofLong?_longName (hlevel : level = .top → key.isGlobal = true) :
    Opt.ofLong? level key.longName = some (.key key) := by
  rw [Opt.ofLong?, Bytes.text?_ofString, Option.bind_some]
  cases level with
  | top => cases key <;> first | rfl | cases hlevel rfl
  | sub => cases key <;> rfl

theorem ofLong?_verbose (level : Level) : Opt.ofLong? level "verbose" = some (.switch .verbose) := by
  rw [Opt.ofLong?, Bytes.text?_ofString, Option.bind_some]
  cases level <;> rfl

theorem ofShort?_letter {letter : Char} (hlevel : level = .top → key.isGlobal = true)
    (hletter : key.letter? = some letter) : Opt.ofShort? level letter = some (.key key) := by
  cases level with
  | top => cases key <;> cases hletter <;> first | rfl | cases hlevel rfl
  | sub => cases key <;> cases hletter <;> rfl

@[simp] theorem ofWord?_word (colour : Colour) : Colour.ofWord? colour.word = some colour := by
  rw [Colour.ofWord?, Bytes.text?_ofString, Option.bind_some]
  cases colour <;> rfl

theorem equals_not_mem_longName (key : Key) : equals ∉ Bytes.ofString key.longName := by
  cases key <;> decide

theorem longName_ne (key : Key) : Bytes.ofString key.longName ≠ [] := by
  cases key <;> decide

theorem ofString_dashes (name : String) :
    Bytes.ofString ("--" ++ name) = dash :: dash :: Bytes.ofString name :=
  Bytes.ofString_append "--" name

theorem shape_dashes {rest : Bytes} (h : rest ≠ []) : shape (dash :: dash :: rest) = .long rest := by
  cases rest with
  | nil => exact absurd rfl h
  | cons byte rest => rfl

theorem shape_plain_word (h : value.head? ≠ some dash) : shape value = .plain := by
  unfold shape
  split <;> simp_all

theorem splitLong_name {name : Bytes} (h : equals ∉ name) : splitLong name = (name, none) := by
  have hall : name.takeWhile (· ≠ equals) = name :=
    List.takeWhile_eq_self_iff.mpr fun byte hbyte => decide_eq_true fun heq => h (heq ▸ hbyte)
  unfold splitLong
  simp only [hall, List.drop_length]

theorem splitLong_joined {name : Bytes} (h : equals ∉ name) (value : Bytes) :
    splitLong (name ++ equals :: value) = (name, some value) := by
  have hall : (name ++ equals :: value).takeWhile (· ≠ equals) = name := by
    have hfront : ∀ byte ∈ name, decide (byte ≠ equals) = true := fun byte hbyte =>
      decide_eq_true fun heq => h (heq ▸ hbyte)
    rw [List.takeWhile_append_of_pos hfront, List.takeWhile_cons_of_neg (by simp), List.append_nil]
  unfold splitLong
  simp only [hall, List.drop_left]

/-! ## 3. What has been read of the mentions -/

theorem mem_fst_pairs :
    key ∈ (pairs mentions).map Prod.fst ↔ Opt.key key ∈ mentions.map Mention.opt := by
  induction mentions with
  | nil => simp
  | cons mention rest ih =>
    cases mention with
    | valued here value form => simp [Mention.opt, ih]
    | verbose brief => simp [Mention.opt, ih]

theorem nodup_pairs (h : (mentions.map Mention.opt).Nodup) :
    ((pairs mentions).map Prod.fst).Nodup := by
  induction mentions with
  | nil => exact List.nodup_nil
  | cons mention rest ih =>
    rw [List.map_cons, List.nodup_cons] at h
    cases mention with
    | valued here value form =>
      rw [pairs_valued, List.map_cons, List.nodup_cons, mem_fst_pairs]
      exact ⟨h.1, ih h.2⟩
    | verbose brief => exact ih h.2

/-- What a level has read when it has read these. -/
def readOf (mentions : List Mention) : Read where
  values := pairs mentions
  verbose := decide (.switch .verbose ∈ mentions.map Mention.opt)

theorem readOf_valued (done : List Mention) (key : Key) (value : Bytes) (form : Form) :
    readOf (done ++ [.valued key value form]) =
      { readOf done with values := (readOf done).values ++ [(key, value)], pending := none } := by
  simp [readOf, pairs_append, Mention.opt]

theorem readOf_verbose (done : List Mention) (brief : Bool) :
    readOf (done ++ [.verbose brief]) = { readOf done with verbose := true } := by
  simp [readOf, pairs_append, Mention.opt]

/-! ## 4. Reading a mention -/

theorem reads_joined (hread : read.settle = .ok settled) (hlevel : level = .top → key.isGlobal = true)
    (hnew : settled.values.lookup key = none) (haccepts : key.accepts value = true) :
    Reads level read [Bytes.ofString ("--" ++ key.longName ++ "=") ++ value]
      { settled with values := settled.values ++ [(key, value)], pending := none } := by
  have hword : Bytes.ofString ("--" ++ key.longName ++ "=") ++ value =
      dash :: dash :: (Bytes.ofString key.longName ++ equals :: value) := by
    have hequals : Bytes.ofString "=" = [equals] := by decide
    rw [Bytes.ofString_append, ofString_dashes, hequals]
    simp
  rw [hword]
  refine .long (shape_dashes (by simp)) ?_ (.done _)
  unfold readLong
  rw [splitLong_joined (equals_not_mem_longName key)]
  simp only [ofLong?_longName hlevel]
  exact attach_eq hread hnew haccepts

theorem reads_name (hread : read.settle = .ok settled) (hlevel : level = .top → key.isGlobal = true) :
    Reads level read [Bytes.ofString ("--" ++ key.longName)]
      { settled with pending := some (key, none) } := by
  rw [ofString_dashes]
  refine .long (shape_dashes (longName_ne key)) ?_ (.done _)
  unfold readLong
  rw [splitLong_name (equals_not_mem_longName key)]
  simp only [ofLong?_longName hlevel]
  exact begin_eq hread key

theorem reads_letter {letter : Char} (hread : read.settle = .ok settled)
    (hlevel : level = .top → key.isGlobal = true) (hletter : key.letter? = some letter) :
    Reads level read [Bytes.ofString (String.ofList ['-', letter])]
      { settled with pending := some (key, none) } := by
  have hshape : shape (Bytes.ofString (String.ofList ['-', letter])) =
      .short [Bytes.ofChar letter] := by
    cases key <;> cases hletter <;> decide
  have hchar : Char.ofNat (Bytes.ofChar letter).toNat = letter := by
    cases key <;> cases hletter <;> decide
  refine .short hshape ?_ (.done _)
  unfold readShort
  simp only [hchar, ofShort?_letter hlevel hletter]
  exact begin_eq hread key

/-- An option whose value is in the next word waits for it, whatever the word is besides. -/
theorem reads_behind {first : Bytes}
    (hfirst : Reads level read [first] { settled with pending := some (key, none) })
    (hplain : value.head? ≠ some dash) :
    Reads level read [first, value] { settled with pending := some (key, some value) } :=
  hfirst.append (.value (shape_plain_word hplain) rfl (.done _))

theorem reads_verbose (hread : read.settle = .ok settled) (hnew : settled.verbose = false)
    (brief : Bool) :
    Reads level read [if brief then "-v" else "--verbose"] { settled with verbose := true } := by
  have hon := turnOn_verbose hread hnew
  cases brief with
  | false =>
    have hshape : shape "--verbose" = .long "verbose" := by decide
    refine .long hshape ?_ (.done _)
    unfold readLong
    rw [splitLong_name (by decide)]
    simp only [ofLong?_verbose]
    exact hon
  | true =>
    have hshape : shape "-v" = .short [Bytes.ofChar 'v'] := by decide
    refine .short hshape ?_ (.done _)
    have hchar : Char.ofNat (Bytes.ofChar 'v').toNat = 'v' := by decide
    cases level <;> simp [readShort, hchar, Opt.ofShort?, hon, bind, Except.bind]

/-- A mention adds itself to what has been read, however it is written. -/
theorem reads_mention {done : List Mention} (hread : read.settle = .ok (readOf done))
    (hlevel : level = .top → mention.isGlobal = true) (hnew : mention.opt ∉ done.map Mention.opt)
    (hfit : mention.IsFit) (htaken : mention.IsTaken) :
    ∃ read', Reads level read mention.words read' ∧
      read'.settle = .ok (readOf (done ++ [mention])) := by
  cases mention with
  | verbose brief =>
    have hoff : (readOf done).verbose = false := decide_eq_false hnew
    refine ⟨_, reads_verbose hread hoff brief, ?_⟩
    rw [readOf_verbose]
    rfl
  | valued key value form =>
    have hlookup : (readOf done).values.lookup key = none :=
      Rows.lookup_eq_none_iff_not_mem.mpr fun hmem => hnew (mem_fst_pairs.mp hmem)
    have hvalue : key.accepts value = true := htaken key value rfl
    rw [readOf_valued]
    cases form with
    | joined => exact ⟨_, reads_joined hread hlevel hlookup hvalue, rfl⟩
    | apart =>
      exact ⟨_, reads_behind (reads_name hread hlevel) hfit.2, settle_pending hlookup hvalue⟩
    | brief letter =>
      exact ⟨_, reads_behind (reads_letter hread hlevel hfit.2.2) hfit.2.1,
        settle_pending hlookup hvalue⟩

theorem reads_mentions {done : List Mention} (hread : read.settle = .ok (readOf done))
    (hlevel : ∀ mention ∈ mentions, level = .top → mention.isGlobal = true)
    (honce : ((done ++ mentions).map Mention.opt).Nodup) (hfit : ∀ mention ∈ mentions, mention.IsFit)
    (htaken : ∀ mention ∈ mentions, mention.IsTaken) :
    ∃ read', Reads level read (mentions.flatMap Mention.words) read' ∧
      read'.settle = .ok (readOf (done ++ mentions)) := by
  induction mentions generalizing read done with
  | nil => exact ⟨read, .done read, by rwa [List.append_nil]⟩
  | cons mention rest ih =>
    rw [List.forall_mem_cons] at hlevel hfit htaken
    rw [List.append_cons] at honce ⊢
    have hnew : mention.opt ∉ done.map Mention.opt := by
      intro hmem
      have hdone := honce.sublist ((List.sublist_append_left _ rest).map _)
      rw [List.map_append, List.nodup_append] at hdone
      exact hdone.2.2 _ hmem _ (List.mem_map_of_mem List.mem_cons_self) rfl
    obtain ⟨middle, hfirst, hmiddle⟩ := reads_mention hread hlevel.1 hnew hfit.1 htaken.1
    obtain ⟨read', hrest, hread'⟩ := ih hmiddle hlevel.2 honce hfit.2 htaken.2
    exact ⟨read', hfirst.append hrest, hread'⟩

/-! ## 5. What it comes to -/

variable {front behind : List Mention} {line : CommandLine} {words : List Bytes}

theorem Mention.IsFit.value_ne (hfit : mention.IsFit) (hpair : mention.pair? = some (key, value)) :
    value ≠ [] := by
  cases mention with
  | verbose brief => cases hpair
  | valued here text form =>
    cases hpair
    cases form with
    | joined => exact hfit
    | apart => exact hfit.1
    | brief letter => exact hfit.1

theorem isTaken_of_mem (hfit : mention.IsFit) (hmeans : Says mentions line)
    (hmem : mention ∈ mentions) : mention.IsTaken := by
  intro key value hpair
  have hsome := hfit.value_ne hpair
  cases key with
  | color =>
    have hsaid : some (line.colour.word : Bytes) = some value :=
      hmeans.said (.color, value) (List.mem_filterMap.mpr ⟨mention, hmem, hpair⟩)
    rw [← Option.some.inj hsaid, Key.accepts, ofWord?_word, Option.isSome_some]
  | remote | branch =>
    have hsaid := hmeans.said _ (List.mem_filterMap.mpr ⟨mention, hmem, hpair⟩)
    obtain ⟨text, -, rfl⟩ := Option.map_eq_some_iff.mp hsaid
    simp [Key.accepts]
  | config | dir | source | scratch => simpa [Key.accepts] using hsome

/-- As no option is mentioned twice, it does not matter where it is mentioned. -/
theorem valueOf_readOf (honce : ((front ++ behind).map Mention.opt).Nodup) :
    valueOf (readOf front) (readOf behind) key = some value ↔ (key, value) ∈ pairs (front ++ behind) := by
  have hnodup : ((pairs behind ++ pairs front).map Prod.fst).Nodup := by
    rw [(List.perm_append_comm.map Prod.fst).nodup_iff, ← pairs_append]
    exact nodup_pairs honce
  unfold valueOf readOf
  rw [← List.lookup_append, Rows.lookup_eq_some_iff_mem hnodup, pairs_append, List.mem_append,
    List.mem_append, or_comm]

theorem valueOf_eq_value? (honce : ((front ++ behind).map Mention.opt).Nodup)
    (hmeans : Says (front ++ behind) line) (hkey : key ≠ .color) :
    valueOf (readOf front) (readOf behind) key = line.value? key :=
  Option.ext fun value =>
    (valueOf_readOf honce).trans ⟨hmeans.said (key, value), hmeans.all key value hkey⟩

theorem colour_of_valueOf (honce : ((front ++ behind).map Mention.opt).Nodup)
    (hmeans : Says (front ++ behind) line) :
    ((valueOf (readOf front) (readOf behind) .color).bind Colour.ofWord?).getD .auto =
      line.colour := by
  cases hvalue : valueOf (readOf front) (readOf behind) .color with
  | none =>
    refine (hmeans.colour fun hmem => ?_).symm
    obtain ⟨⟨key, value⟩, hpair, rfl⟩ := List.mem_map.mp hmem
    rw [(valueOf_readOf honce).mpr hpair] at hvalue
    cases hvalue
  | some value =>
    have hsaid : some (line.colour.word : Bytes) = some value :=
      hmeans.said (.color, value) ((valueOf_readOf honce).mp hvalue)
    rw [← Option.some.inj hsaid, Option.bind_some, ofWord?_word, Option.getD_some]

theorem assemble_readOf (honce : ((front ++ behind).map Mention.opt).Nodup)
    (hmeans : Says (front ++ behind) line) :
    assemble line.verb (readOf front) (readOf behind) = line := by
  have hverbose : ((readOf front).verbose || (readOf behind).verbose) = line.verbose := by
    rw [Bool.eq_iff_iff, hmeans.verbose, Bool.or_eq_true, List.map_append, List.mem_append]
    simp [readOf]
  have hpaths (path : Option Path) : (path.map Path.bytes).map Path.mk = path := by
    cases path <;> rfl
  have htexts (text : Option String) : (text.map Bytes.ofString).bind Bytes.text? = text := by
    cases text <;> simp
  unfold assemble
  rw [hverbose, colour_of_valueOf honce hmeans]
  simp only [valueOf_eq_value? honce hmeans, ne_eq, reduceCtorEq, not_false_eq_true, value?, hpaths,
    htexts]

theorem ofWord?_of_mem {verb : Verb} {word : Bytes} (h : word ∈ verb.words) :
    Verb.ofWord? word = some verb := by
  cases verb <;> simp only [Verb.words, List.mem_cons, List.not_mem_nil, or_false] at h <;>
    rcases h with rfl | rfl <;> rw [Verb.ofWord?, Bytes.text?_ofString] <;> rfl

/-- However a command line is written, it is read as what it says. -/
theorem parse_of_writes (h : Writes line words) : parse words = .ok line := by
  obtain ⟨front, behind, word, verb, globals, once, fit, meaning⟩ := h
  have htaken : ∀ mention ∈ front ++ behind, mention.IsTaken := fun mention hmem =>
    isTaken_of_mem (fit mention hmem) meaning hmem
  have hopts : (front.map Mention.opt ++ behind.map Mention.opt).Nodup := by
    rwa [← List.map_append]
  rw [List.forall_mem_append] at fit htaken
  have hnothing : Read.settle {} = .ok (readOf []) := rfl
  have hfront : ∀ mention ∈ front, Level.top = .top → mention.isGlobal = true :=
    fun mention hmem _ => globals mention hmem
  obtain ⟨top, htop, htopSettles⟩ :=
    reads_mentions hnothing hfront (List.nodup_append.mp hopts).1 fit.1 htaken.1
  have hbehind : ∀ mention ∈ behind, Level.sub = .top → mention.isGlobal = true :=
    fun _ _ hlevel => nomatch hlevel
  obtain ⟨sub, hsub, hsubSettles⟩ :=
    reads_mentions hnothing hbehind (List.nodup_append.mp hopts).2.1 fit.2 htaken.2
  have hreadSub : readSub {} (behind.flatMap Mention.words) = .ok (readOf behind) := by
    have hread := readSub_append hsub []
    rw [List.append_nil] at hread
    exact hread.trans hsubSettles
  rw [parse, readTop_append htop, readTop_verb htopSettles (ofWord?_of_mem verb) hreadSub]
  exact congrArg Except.ok (assemble_readOf once meaning)

/-- The words `status` and `s` are values, a command and the letter of an option here, and each is
read as what it is at its place. One of the paths is no text. -/
theorem parse_of_writes_ambiguous_words :
    parse ["--config", "status", "--color=never", "s", "-s", "s", "-d", [0x6F, 0xFF], "-b", "publish",
        "--remote=--mirror=a=b", "-v"] =
      .ok
        { verb := .status
          colour := .never
          verbose := true
          config := some "status"
          overrides :=
            { remote := some "--mirror=a=b", branch := some "publish", dir := some ⟨[0x6F, 0xFF]⟩,
              source := some "s" } } :=
  parse_of_writes <|
    Writes.intro [.valued .config "status" .apart, .valued .color "never" .joined]
      [.valued .source "s" (.brief 's'), .valued .dir [0x6F, 0xFF] (.brief 'd'),
        .valued .branch "publish" (.brief 'b'), .valued .remote "--mirror=a=b" .joined, .verbose true]
      "s" (by decide) (by decide) (by decide) (by decide)
      { said := by decide
        all := by
          intro key value hkey hvalue
          cases key <;> cases hvalue <;> first | exact absurd rfl hkey | decide
        colour := fun h => absurd (by decide) h
        verbose := by decide }

end PublishOnce.CommandLine
