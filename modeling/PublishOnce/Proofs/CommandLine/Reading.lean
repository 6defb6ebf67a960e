/-
PublishOnce.Proofs.CommandLine.Reading — reading words one after the other.

The words in front of the command and those behind it are read by two routines,
which do the same with an option and differ in what they do with other words.
`Reads` is what they share: a word is a long option, a short one, or the value that
the option in front of it waits for. Whatever can be read so at one level is read
so by the routine of that level, and the rest of the words is read from there
(`readSub_append`, `readTop_append`).

An option is looked at late, so what has been read is not the same as what
counts. `settle` makes the one the other. Four things can be done with an option and
each is described by what it settles to.
-/
import PublishOnce.CommandLine.Parse
import PublishOnce.Proofs.Bytes

namespace PublishOnce.CommandLine

/-! ## 1. Words that are read -/

/-- From what has been read at a level, these words lead to that. -/
inductive Reads (level : Level) : Read → List Bytes → Read → Prop
  | done (read : Read) : Reads level read [] read
  | long {read middle read' : Read} {word option : Bytes} {words : List Bytes}
      (dashes : shape word = .long option) (here : readLong level read option = .ok middle)
      (rest : Reads level middle words read') : Reads level read (word :: words) read'
  | short {read middle read' : Read} {word letters : Bytes} {words : List Bytes}
      (dash : shape word = .short letters) (here : readShort level read letters = .ok middle)
      (rest : Reads level middle words read') : Reads level read (word :: words) read'
  | value {read read' : Read} {word : Bytes} {words : List Bytes}
      (plain : shape word = .plain) (awaited : read.awaitsValue = true)
      (rest : Reads level (read.give word) words read') : Reads level read (word :: words) read'

variable {level : Level} {read middle read' : Read} {words more : List Bytes} {word : Bytes}

theorem Reads.append (h : Reads level read words middle) (h' : Reads level middle more read') :
    Reads level read (words ++ more) read' := by
  induction h with
  | done read => exact h'
  | long dashes here _ ih => exact .long dashes here (ih h')
  | short dash here _ ih => exact .short dash here (ih h')
  | value plain awaited _ ih => exact .value plain awaited (ih h')

theorem readSub_append (h : Reads .sub read words read') (more : List Bytes) :
    readSub read (words ++ more) = readSub read' more := by
  induction h with
  | done read => rfl
  | long dashes here _ ih =>
    rw [List.cons_append, readSub]
    simp only [dashes, here]
    exact ih
  | short dash here _ ih =>
    rw [List.cons_append, readSub]
    simp only [dash, here]
    exact ih
  | value plain awaited _ ih =>
    rw [List.cons_append, readSub]
    simp only [plain, awaited, if_true]
    exact ih

/-- A command has no dash in front. -/
theorem shape_of_ofWord? {verb : Verb} (h : Verb.ofWord? word = some verb) : shape word = .plain := by
  obtain ⟨name, hname, hverb⟩ := Option.bind_eq_some_iff.mp h
  obtain rfl := Bytes.text?_eq_some_iff.mp hname
  unfold Verb.named? at hverb
  split at hverb
  · decide
  · decide
  · decide
  · decide
  · cases hverb

theorem ofWord?_of_shape (h : shape word ≠ .plain) : Verb.ofWord? word = none := by
  cases hverb : Verb.ofWord? word with
  | none => rfl
  | some verb => exact absurd (shape_of_ofWord? hverb) h

theorem readTop_append (h : Reads .top read words read') (more : List Bytes) :
    readTop read (words ++ more) = readTop read' more := by
  induction h with
  | done read => rfl
  | long dashes here _ ih =>
    rw [List.cons_append, readTop, ofWord?_of_shape (by simp [dashes])]
    simp only [ite_self, dashes, here]
    exact ih
  | short dash here _ ih =>
    rw [List.cons_append, readTop, ofWord?_of_shape (by simp [dash])]
    simp only [ite_self, dash, here]
    exact ih
  | value plain awaited _ ih =>
    rw [List.cons_append, readTop]
    simp only [plain, awaited, if_true]
    exact ih

/-! ## 2. What it settles to -/

variable {settled : Read} {key : Key} {value : Bytes}

theorem not_awaitsValue_of_settle (h : read.settle = .ok settled) : read.awaitsValue = false := by
  unfold Read.settle at h
  unfold Read.awaitsValue
  split at h
  · next hnone => rw [hnone]
  · cases h
  · next hsome => rw [hsome]

/-- Behind a command, all that was said in front of it is looked at. -/
theorem readTop_verb {verb : Verb} {top sub : Read} (hread : read.settle = .ok top)
    (hverb : Verb.ofWord? word = some verb) (hsub : readSub {} words = .ok sub) :
    readTop read (word :: words) = .ok (assemble verb top sub) := by
  rw [readTop, not_awaitsValue_of_settle hread]
  simp only [Bool.false_eq_true, if_false, hverb, hsub, hread]
  rfl

/-- An option that waits for a value takes it, if it is new at its level and the value is one for it. -/
theorem settle_pending (hnew : settled.values.lookup key = none) (haccepts : key.accepts value = true) :
    Read.settle { settled with pending := some (key, some value) } =
      .ok { settled with values := settled.values ++ [(key, value)], pending := none } := by
  simp [Read.settle, hnew, haccepts]

theorem begin_eq (h : read.settle = .ok settled) (key : Key) :
    read.begin key = .ok { settled with pending := some (key, none) } := by
  unfold Read.begin
  rw [h]
  rfl

theorem attach_eq (h : read.settle = .ok settled) (hnew : settled.values.lookup key = none)
    (haccepts : key.accepts value = true) :
    read.attach key value =
      .ok { settled with values := settled.values ++ [(key, value)], pending := none } := by
  unfold Read.attach
  rw [begin_eq h]
  exact settle_pending hnew haccepts

theorem turnOn_verbose (h : read.settle = .ok settled) (hnew : settled.verbose = false) :
    read.turnOn .verbose = .ok { settled with verbose := true } := by
  unfold Read.turnOn
  rw [h]
  simp [bind, Except.bind, hnew, pure, Except.pure]

end PublishOnce.CommandLine
