/-
PublishOnce.Proofs.Text.Quoted — a command line, and its arguments again.

Quotes are put around an argument only where it needs them, and what needs them is not
the same wherever command lines are written. A reader need not know. It takes a quote in
front of an argument for the beginning of a quoted one, which ends at the next quote, and
reads any other argument up to the next blank. `readBack` is this reader, and it finds the
arguments that were written, empty ones included (`readBack_commandLine`).

Two conditions are behind this. Whoever writes puts quotes at least around what holds a
plain blank, the one that separates. Other white space may stand without quotes, as the
reader does not stop at it. And no argument holds a quote of its own: nothing is done about
these when a command line is written, so that two arguments can look like one.
-/
import PublishOnce.Text.Quoted

namespace PublishOnce.Text.Quoted

variable {needs : Char → Bool} {arg : String} {args : List String} {cs rest : List Char}

/-! ## 1. Reading -/

/-- The first argument and what is behind it. A quoted one ends with its quote, another one in front
of a blank. -/
def takeArgument : List Char → List Char × List Char
  | '\'' :: rest => (rest.takeWhile (· ≠ '\''), (rest.dropWhile (· ≠ '\'')).tail)
  | cs => (cs.takeWhile (· ≠ ' '), cs.dropWhile (· ≠ ' '))

theorem length_takeArgument_le (cs : List Char) : (takeArgument cs).2.length ≤ cs.length := by
  unfold takeArgument
  split
  · next rest =>
    have hdrop := (List.dropWhile_suffix (l := rest) (· ≠ '\'')).length_le
    simp only [List.length_tail, List.length_cons]
    omega
  · exact (List.dropWhile_suffix _).length_le

/-- The arguments in order. Behind each of them there is one blank, or nothing. -/
def arguments : List Char → List (List Char)
  | [] => []
  | c :: rest => (takeArgument (c :: rest)).1 :: arguments (takeArgument (c :: rest)).2.tail
termination_by cs => cs.length
decreasing_by
  have hbehind := length_takeArgument_le (c :: rest)
  simp only [List.length_tail, List.length_cons] at hbehind ⊢
  omega

def readBack (text : String) : List String := (arguments text.toList).map String.ofList

theorem arguments_of_ne_nil (h : cs ≠ []) :
    arguments cs = (takeArgument cs).1 :: arguments (takeArgument cs).2.tail := by
  cases cs with
  | nil => exact absurd rfl h
  | cons c rest => rw [arguments]

/-! ## 2. Reading what was written -/

/-- No argument has a quote in it. -/
def QuoteFree (args : List String) : Prop := ∀ arg ∈ args, '\'' ∉ arg.toList

instance (args : List String) : Decidable (QuoteFree args) := List.decidableBAll _ _

/-- A character class that goes on as far as a text, and not behind it. -/
theorem span_exact {p : Char → Bool} (cs rest : List Char) (hinside : ∀ c ∈ cs, p c = true)
    (hstop : ∀ c ∈ rest.head?, p c = false) :
    (cs ++ rest).takeWhile p = cs ∧ (cs ++ rest).dropWhile p = rest := by
  rw [List.takeWhile_append_of_pos hinside, List.dropWhile_append_of_pos hinside]
  cases rest with
  | nil => simp
  | cons c rest =>
    have hc : p c = false := hstop c rfl
    simp [hc]

theorem takeArgument_quoted (h : '\'' ∉ cs) (rest : List Char) :
    takeArgument ('\'' :: (cs ++ '\'' :: rest)) = (cs, rest) := by
  have hspan := span_exact (p := (· ≠ '\'')) cs ('\'' :: rest)
    (fun c hc => by simpa using fun heq : c = '\'' => h (heq ▸ hc))
    (fun c hc => by simpa using (Option.some.inj hc).symm)
  simp only [takeArgument, hspan.1, hspan.2, List.tail_cons]

theorem takeArgument_plain {c : Char} (hquote : '\'' ∉ c :: cs) (hblank : ' ' ∉ c :: cs)
    (hrest : ∀ d ∈ rest.head?, d = ' ') :
    takeArgument (c :: cs ++ rest) = (c :: cs, rest) := by
  have hne : c ≠ '\'' := fun heq => hquote (heq ▸ List.mem_cons_self)
  have hspan := span_exact (p := (· ≠ ' ')) (c :: cs) rest
    (fun d hd => by simpa using fun heq : d = ' ' => hblank (heq ▸ hd))
    (fun d hd => by simpa using hrest d hd)
  rw [List.cons_append] at hspan ⊢
  rw [takeArgument.eq_def]
  split
  · next heq => exact absurd (List.cons.inj heq).1 hne
  · rw [hspan.1, hspan.2]

/-- An argument is read as it was before it was quoted. -/
theorem takeArgument_argument (hneeds : needs ' ' = true) (harg : '\'' ∉ arg.toList)
    (rest : List Char) (hrest : ∀ c ∈ rest.head?, c = ' ') :
    takeArgument ((argument needs arg).toList ++ rest) = (arg.toList, rest) := by
  unfold argument
  by_cases hquoted : (arg.isEmpty || arg.toList.any needs) = true
  · have htext : ("'" ++ arg ++ "'").toList ++ rest = '\'' :: (arg.toList ++ '\'' :: rest) := by
      simp
    rw [if_pos hquoted, htext, takeArgument_quoted harg]
  · rw [if_neg hquoted]
    rw [Bool.or_eq_true, not_or, List.any_eq_true] at hquoted
    have hblank : ' ' ∉ arg.toList := fun hmem => hquoted.2 ⟨' ', hmem, hneeds⟩
    cases harg' : arg.toList with
    | nil => exact absurd (String.isEmpty_iff.mpr (String.toList_eq_nil_iff.mp harg')) hquoted.1
    | cons c cs =>
      rw [harg'] at harg hblank
      exact takeArgument_plain harg hblank hrest

theorem argument_ne_nil (needs : Char → Bool) (arg : String) : (argument needs arg).toList ≠ [] := by
  unfold argument
  split
  · simp
  · next hquoted =>
    intro hnil
    rw [String.toList_eq_nil_iff] at hnil
    simp [hnil] at hquoted

theorem arguments_commandLine (hneeds : needs ' ' = true) (hargs : QuoteFree args) :
    arguments (commandLine needs args).toList = args.map String.toList := by
  induction args with
  | nil => simp [commandLine, arguments]
  | cons arg more ih =>
    obtain ⟨harg, hmore⟩ := List.forall_mem_cons.mp hargs
    cases more with
    | nil =>
      have hread := takeArgument_argument hneeds harg [] (fun _ h => nomatch h)
      have htext : (commandLine needs [arg]).toList = (argument needs arg).toList ++ [] := by
        simp [commandLine]
      rw [htext, arguments_of_ne_nil (by simpa using argument_ne_nil needs arg), hread]
      simp [arguments]
    | cons next more =>
      have htext : (commandLine needs (arg :: next :: more)).toList =
          (argument needs arg).toList ++ ' ' :: (commandLine needs (next :: more)).toList := by
        simp [commandLine]
      have hread := takeArgument_argument hneeds harg
        (' ' :: (commandLine needs (next :: more)).toList) (by simp)
      rw [htext, arguments_of_ne_nil (by simp), hread, List.tail_cons, ih hmore]
      rfl

/-- From a command line its arguments can be had again, whatever it is that asks for quotes. -/
theorem readBack_commandLine (hneeds : needs ' ' = true) (hargs : QuoteFree args) :
    readBack (commandLine needs args) = args := by
  rw [readBack, arguments_commandLine hneeds hargs, List.map_map]
  simp

/-- Arguments with quotes of their own may look like another argument. -/
example : commandLine (· = ' ') ["'a", "b'"] = commandLine (· = ' ') ["a b"] := by
  decide

end PublishOnce.Text.Quoted
