/-
PublishOnce.Proofs.Publication.CommandLines — what was run, as the log has it.

Two texts tell a reader about a command: the debug message in front of a run, which
quotes what is empty or holds a plain blank, and the text of a publishing step, which
quotes what holds any white space. In both the arguments can be told apart, so that one
reader serves for both (`commandLines_unambiguous`). It is enough that the strings
somebody else chose have no single quote in them. The words that are fixed have none.

What can be told apart is what is shown. The arguments of a command are bytes, and the log
shows of them what can be read, so it tells two commands apart exactly if their arguments are
shown differently. Arguments that are text always are.

The text of a step says which step it is, too. Two steps can share the first words of
their arguments, as the two that configure a name and an address do, but not all of the
words around the string that they are given (`Step.args_injective`).
-/
import PublishOnce.Proofs.Bytes
import PublishOnce.Proofs.Program.Outputs
import PublishOnce.Proofs.Text.Quoted
import PublishOnce.Publication.Step

namespace PublishOnce

open Program (Command Shell)
open Text.Quoted (QuoteFree readBack readBack_commandLine)

/-! ## 1. Steps -/

namespace Step

/-- What a step is given, which is all of its arguments that is not fixed. -/
def strings : Step → List String
  | .init branch => [branch]
  | .userName name => [name]
  | .userEmail email => [email]
  | .stageAll => []
  | .commit message => [message]
  | .addRemote url => [url]
  | .forcePush branch => [branch]

theorem quoteFree_args {step : Step} (h : QuoteFree step.strings) : QuoteFree step.args := by
  cases step <;> simp_all [QuoteFree, args, strings, remoteName]

theorem args_injective {step step' : Step} (h : step.args = step'.args) : step = step' := by
  cases step <;> cases step' <;> simp_all [args]

theorem readBack_text {step : Step} (h : QuoteFree step.strings) :
    readBack step.text = "git" :: step.args := by
  refine readBack_commandLine (by decide) ?_
  exact List.forall_mem_cons.mpr ⟨by decide, quoteFree_args h⟩

end Step

/-! ## 2. Commands -/

namespace Program.Command

variable {command other : Command}

/-- No argument has the byte of a single quote in it. -/
def IsQuoteFree (command : Command) : Prop := ∀ arg ∈ command.args, Bytes.ofChar '\'' ∉ arg

instance (command : Command) : Decidable command.IsQuoteFree := List.decidableBAll _ _

/-- All arguments are text. -/
def IsText (command : Command) : Prop := ∀ arg ∈ command.args, arg.IsText

instance (command : Command) : Decidable command.IsText := List.decidableBAll _ _

/-- What is shown of the arguments, one by one. -/
def shownArgs (command : Command) : List String := command.args.map Bytes.toText

theorem quoteFree_shownArgs (h : command.IsQuoteFree) : QuoteFree command.shownArgs := by
  intro shown hshown
  obtain ⟨arg, harg, rfl⟩ := List.mem_map.mp hshown
  rw [Bytes.mem_toText_iff (by decide)]
  exact h arg harg

theorem readBack_argsText (h : command.IsQuoteFree) : readBack command.argsText = command.shownArgs :=
  readBack_commandLine (by decide) (quoteFree_shownArgs h)

theorem argsText_eq_iff (h : command.IsQuoteFree) (hother : other.IsQuoteFree) :
    command.argsText = other.argsText ↔ command.shownArgs = other.shownArgs := by
  constructor
  · intro htext
    rw [← readBack_argsText h, htext, readBack_argsText hother]
  · exact congrArg (Text.Quoted.commandLine fun c => c = ' ')

/-- Arguments are the bytes of what is shown of them if they are text. -/
theorem ofString_shownArgs_iff :
    command.shownArgs.map Bytes.ofString = command.args ↔ command.IsText := by
  have hid : command.shownArgs.map Bytes.ofString = command.args ↔
      command.args.map (Bytes.ofString ∘ Bytes.toText) = command.args.map id := by
    rw [List.map_id, shownArgs, List.map_map]
  rw [hid, List.map_inj_left]
  exact forall₂_congr fun arg _ => Bytes.isText_iff.symm

theorem eq_of_shownArgs_eq (h : command.IsText) (hother : other.IsText)
    (hshown : command.shownArgs = other.shownArgs) : command.args = other.args := by
  rw [← ofString_shownArgs_iff.mpr h, hshown, ofString_shownArgs_iff.mpr hother]

/-- The first thing that a verbose run says is how its program was called. -/
theorem first_message (command : Command) {world : World Shell} (hverbose : world.verbose = true) :
    (command.run world).2.journal.messages[world.journal.messages.length]? =
      some ⟨command.name, command.argsText, true⟩ := by
  rw [run_messages, announcement, if_pos hverbose, List.append_assoc, List.getElem?_append_right
    (Nat.le_refl _), Nat.sub_self]
  rfl

end Program.Command

/-! ## 3. Both -/

/-- Commands that are logged alike have arguments that are shown alike, and these are the same if they
are text. What is shown of them can be read off the log of a verbose run, argument by argument, and is
all that there is to them exactly if they are text. Steps with the same text are the same. -/
theorem commandLines_unambiguous :
    (∀ command other : Command, command.IsQuoteFree → other.IsQuoteFree →
        (command.argsText = other.argsText ↔ command.shownArgs = other.shownArgs)
          ∧ (command.IsText → other.IsText → command.argsText = other.argsText →
              command.args = other.args))
      ∧ (∀ (command : Command) (world : World Shell), command.IsQuoteFree → world.verbose = true →
          ∃ message,
            (command.run world).2.journal.messages[world.journal.messages.length]? = some message
              ∧ readBack message.text = command.shownArgs
              ∧ ((readBack message.text).map Bytes.ofString = command.args ↔ command.IsText))
      ∧ ∀ step other : Step, QuoteFree step.strings → QuoteFree other.strings →
          step.text = other.text → step = other := by
  refine ⟨?_, ?_, ?_⟩
  · intro command other hfree hfree'
    have hiff := Command.argsText_eq_iff hfree hfree'
    exact ⟨hiff, fun h h' htext => Command.eq_of_shownArgs_eq h h' (hiff.mp htext)⟩
  · intro command world hfree hverbose
    have hread := Command.readBack_argsText hfree
    refine ⟨⟨command.name, command.argsText, true⟩, command.first_message hverbose, hread, ?_⟩
    rw [hread]
    exact Command.ofString_shownArgs_iff
  · intro step other hfree hfree' htext
    have hargs : "git" :: step.args = "git" :: other.args := by
      rw [← Step.readBack_text hfree, htext, Step.readBack_text hfree']
    exact Step.args_injective (List.cons.inj hargs).2

/-- An empty argument behind all others is not lost, a line feed without quotes is not taken for the
blank that stands between arguments, and neither is for the other in the text of a step. What a verbose
run says about its program is read back also if there is no such program. -/
theorem commandLines_unambiguous_empty :
    (Command.mk "git" ["config", "user.email", ""] none .none).argsText
        ≠ (Command.mk "git" ["config", "user.email"] none .none).argsText
      ∧ (Command.mk "git" ["commit", "-m", "a\nb"] none .none).argsText
        ≠ (Command.mk "git" ["commit", "-m", "a b"] none .none).argsText
      ∧ (Step.userEmail "").text ≠ (Step.userEmail "a\nb").text
      ∧ (((Command.mk "git" ["tag", "", "a b"] none .none).run
          ⟨{}, [], none, true, {}, {}⟩).2.journal.messages[0]?).map (readBack ·.text) =
        some ["tag", "", "a b"] := by
  refine ⟨?_, ?_, ?_, ?_⟩
  · intro htext
    obtain ⟨-, hargs⟩ := commandLines_unambiguous.1 ⟨"git", ["config", "user.email", ""], none, .none⟩
      ⟨"git", ["config", "user.email"], none, .none⟩ (by decide +kernel) (by decide +kernel)
    exact absurd (hargs (by decide +kernel) (by decide +kernel) htext) (by decide +kernel)
  · intro htext
    obtain ⟨-, hargs⟩ := commandLines_unambiguous.1 ⟨"git", ["commit", "-m", "a\nb"], none, .none⟩
      ⟨"git", ["commit", "-m", "a b"], none, .none⟩ (by decide +kernel) (by decide +kernel)
    exact absurd (hargs (by decide +kernel) (by decide +kernel) htext) (by decide +kernel)
  · intro htext
    exact absurd (commandLines_unambiguous.2.2 _ _ (by decide) (by decide) htext) (by decide)
  · obtain ⟨message, hmessage, hread, -⟩ := commandLines_unambiguous.2.1
      ⟨"git", ["tag", "", "a b"], none, .none⟩ ⟨{}, [], none, true, {}, {}⟩ (by decide +kernel) rfl
    rw [show _[0]? = some message from hmessage, Option.map_some, hread]
    decide +kernel

/-- Two arguments of one byte each, both no text, are logged alike. -/
theorem commandLines_alike :
    (Command.mk "git" [[0xFF]] none .none).IsQuoteFree
      ∧ (Command.mk "git" [[0xFE]] none .none).IsQuoteFree
      ∧ (Command.mk "git" [[0xFF]] none .none).argsText =
          (Command.mk "git" [[0xFE]] none .none).argsText
      ∧ ¬ (∀ command other : Command, command.IsQuoteFree → other.IsQuoteFree →
          command.argsText = other.argsText → command.args = other.args) := by
  have hfree : (Command.mk "git" [[0xFF]] none .none).IsQuoteFree := by decide +kernel
  have hfree' : (Command.mk "git" [[0xFE]] none .none).IsQuoteFree := by decide +kernel
  have halike : (Command.mk "git" [[0xFF]] none .none).argsText =
      (Command.mk "git" [[0xFE]] none .none).argsText := by decide +kernel
  refine ⟨hfree, hfree', halike, ?_⟩
  intro hargs
  exact absurd (hargs _ _ hfree hfree' halike) (by decide +kernel)

end PublishOnce
