/-
PublishOnce.Proofs.Settings.Diagnostics — what is wrong with settings, and that all of
it is told.

Three fields are checked, each by its text alone. What can be wrong with the text of a
field is written down as a relation, without an order and without a look at the other
fields (`Broken`). The diagnostics of settings are those that are broken in this sense, in
the order of the fields and at most one for each (`diagnostics_exactly_broken`). A branch
is the only field about which two things can be said. One without anything to see in it is
called empty, also if it is all white space, so that the other message always shows a text.

A report is written block by block, with a look at the index of each to see whether another
one follows. What comes of it has no index in it: a headline, the blocks with an empty line
between each two, and the number of the blocks if there are several (`report_tells_all`).
-/
import PublishOnce.Proofs.Text.Ansi
import PublishOnce.Settings.Diagnostic

namespace PublishOnce.Settings

open Text.Ansi (Style strip strip_append_of_not_mem strip_off strip_paint)

variable {settings : Settings} {found : List Diagnostic}

/-! ## 1. Success and failure -/

theorem resultOf_eq_ok_iff : resultOf found = .ok () ↔ found = [] := by
  cases found <;> simp [resultOf]

theorem resultOf_eq_error_iff {broken : List Diagnostic} :
    resultOf found = .error broken ↔ found ≠ [] ∧ found = broken := by
  cases found <;> simp [resultOf]

/-! ## 2. Visible texts and words -/

/-- A text in which there is something to see. -/
def IsVisible (text : String) : Prop := ∃ c ∈ text.toList, Text.isBlank c = false

/-- A text that is not empty and has no white space in it. -/
def IsWord (text : String) : Prop := text ≠ "" ∧ ∀ c ∈ text.toList, Text.isBlank c = false

-- The characters of the text are tried, and not all that there are.
instance (text : String) : Decidable (IsVisible text) := List.decidableBEx _ _

instance (text : String) : Decidable (IsWord text) :=
  @instDecidableAnd _ _ inferInstance (List.decidableBAll _ _)

theorem allBlank_eq_false_iff {text : String} : Text.allBlank text = false ↔ IsVisible text := by
  simp [Text.allBlank, IsVisible]

theorem allBlank_iff {text : String} : Text.allBlank text = true ↔ ¬ IsVisible text := by
  rw [← allBlank_eq_false_iff, Bool.not_eq_false]

/-- A visible text is a word unless it has white space in it. -/
theorem isWord_iff {text : String} :
    IsWord text ↔ IsVisible text ∧ ¬ ∃ c ∈ text.toList, Text.isBlank c = true := by
  simp only [IsWord, IsVisible, not_exists, not_and, Bool.not_eq_true]
  refine and_congr_left fun hvisible => ⟨fun hne => ?_, ?_⟩
  · obtain ⟨c, hc⟩ := List.exists_mem_of_ne_nil _ (mt String.toList_eq_nil_iff.mp hne)
    exact ⟨c, hc, hvisible c hc⟩
  · rintro ⟨c, hc, -⟩ rfl
    cases hc

/-! ## 3. Broken rules -/

/-- The fields that are checked. -/
inductive Checked where
  | remote
  | branch
  | name
  deriving DecidableEq, Repr

namespace Checked

/-- In the order in which they are reported. -/
def all : List Checked := [.remote, .branch, .name]

def field : Checked → String
  | .remote => "target.remote"
  | .branch => "target.branch"
  | .name => "commit.name"

def text (settings : Settings) : Checked → String
  | .remote => settings.target.remote
  | .branch => settings.target.branch
  | .name => settings.commit.name

def check : Checked → String → Option Diagnostic
  | .remote => checkRemote
  | .branch => checkBranch
  | .name => checkName

end Checked

/-- What is wrong with the text of a field, and what is said about it. -/
inductive Broken : Checked → String → Diagnostic → Prop where
  | emptyRemote {text : String} (blank : ¬ IsVisible text) :
    Broken .remote text ⟨"target.remote", fieldName "target.remote" ++ " must not be empty",
      some "use an SSH (git@host:user/repo.git) or HTTPS URL"⟩
  | emptyBranch {text : String} (blank : ¬ IsVisible text) :
    Broken .branch text ⟨"target.branch", fieldName "target.branch" ++ " must not be empty", none⟩
  | partedBranch {text : String} (visible : IsVisible text)
    (parted : ∃ c ∈ text.toList, Text.isBlank c = true) :
    Broken .branch text ⟨"target.branch",
      fieldName "target.branch" ++ " contains whitespace: `" ++ text ++ "`", none⟩
  | emptyName {text : String} (blank : ¬ IsVisible text) :
    Broken .name text ⟨"commit.name", fieldName "commit.name" ++ " must not be empty",
      some "git refuses to commit with an empty author name"⟩

theorem Broken.field {checked : Checked} {text : String} {diagnostic : Diagnostic}
    (h : Broken checked text diagnostic) : diagnostic.field = checked.field := by
  cases h <;> rfl

theorem checkVisible_eq_some_iff {field hint text : String} {diagnostic : Diagnostic} :
    checkVisible field hint text = some diagnostic ↔
      ¬ IsVisible text ∧ diagnostic = mustNotBeEmpty field (some hint) := by
  rw [← allBlank_iff]
  unfold checkVisible
  split <;> simp [*, eq_comm]

theorem checkBranch_eq_some_iff {branch : String} {diagnostic : Diagnostic} :
    checkBranch branch = some diagnostic ↔
      (¬ IsVisible branch ∧ diagnostic = mustNotBeEmpty "target.branch" none)
        ∨ (IsVisible branch ∧ (∃ c ∈ branch.toList, Text.isBlank c = true)
          ∧ diagnostic = ⟨"target.branch",
            fieldName "target.branch" ++ " contains whitespace: `" ++ branch ++ "`", none⟩) := by
  have hparted : Text.hasBlank branch = true ↔ ∃ c ∈ branch.toList, Text.isBlank c = true :=
    List.any_eq_true
  rw [← allBlank_iff, ← allBlank_eq_false_iff, ← hparted]
  unfold checkBranch
  cases Text.allBlank branch <;> cases Text.hasBlank branch <;> simp [eq_comm]

theorem checkVisible_eq_none_iff {field hint text : String} :
    checkVisible field hint text = none ↔ IsVisible text := by
  simp [Option.eq_none_iff_forall_ne_some, checkVisible_eq_some_iff]

theorem checkBranch_eq_none_iff {branch : String} : checkBranch branch = none ↔ IsWord branch := by
  rw [isWord_iff, Option.eq_none_iff_forall_ne_some]
  simp only [ne_eq, checkBranch_eq_some_iff]
  constructor
  · intro hnone
    have hvisible : IsVisible branch :=
      Decidable.byContradiction fun hblank => hnone _ (.inl ⟨hblank, rfl⟩)
    exact ⟨hvisible, fun hparted => hnone _ (.inr ⟨hvisible, hparted, rfl⟩)⟩
  · rintro ⟨hvisible, hword⟩ diagnostic (⟨hblank, -⟩ | ⟨-, hparted, -⟩)
    · exact hblank hvisible
    · exact hword hparted

/-- Settings break no rule if remote and name are visible and the branch is a word. -/
theorem diagnostics_eq_nil_iff {settings : Settings} :
    settings.diagnostics = [] ↔ IsVisible settings.target.remote ∧ IsWord settings.target.branch
      ∧ IsVisible settings.commit.name := by
  simp [diagnostics, Target.diagnostics, Commit.diagnostics, checkRemote, checkName,
    checkVisible_eq_none_iff, checkBranch_eq_none_iff]

/-- A check finds what is broken. -/
theorem check_eq_some_iff {checked : Checked} {text : String} {diagnostic : Diagnostic} :
    checked.check text = some diagnostic ↔ Broken checked text diagnostic := by
  constructor
  · intro h
    cases checked with
    | remote =>
      obtain ⟨hblank, rfl⟩ := checkVisible_eq_some_iff.mp h
      exact .emptyRemote hblank
    | branch =>
      rcases checkBranch_eq_some_iff.mp h with ⟨hblank, rfl⟩ | ⟨hvisible, hparted, rfl⟩
      · exact .emptyBranch hblank
      · exact .partedBranch hvisible hparted
    | name =>
      obtain ⟨hblank, rfl⟩ := checkVisible_eq_some_iff.mp h
      exact .emptyName hblank
  · intro h
    cases h with
    | emptyRemote hblank => exact checkVisible_eq_some_iff.mpr ⟨hblank, rfl⟩
    | emptyBranch hblank => exact checkBranch_eq_some_iff.mpr (.inl ⟨hblank, rfl⟩)
    | partedBranch hvisible hparted =>
      exact checkBranch_eq_some_iff.mpr (.inr ⟨hvisible, hparted, rfl⟩)
    | emptyName hblank => exact checkVisible_eq_some_iff.mpr ⟨hblank, rfl⟩

/-! ## 4. All broken rules -/

/-- What is broken in the checked fields of a list, in its order. -/
def brokenIn (settings : Settings) (fields : List Checked) : List Diagnostic :=
  fields.flatMap fun checked => (checked.check (checked.text settings)).toList

theorem diagnostics_eq (settings : Settings) :
    settings.diagnostics = brokenIn settings Checked.all := by
  simp [brokenIn, Checked.all, Checked.check, Checked.text, diagnostics, Target.diagnostics,
    Commit.diagnostics]

theorem mem_brokenIn_iff {fields : List Checked} {diagnostic : Diagnostic} :
    diagnostic ∈ brokenIn settings fields ↔
      ∃ checked ∈ fields, Broken checked (checked.text settings) diagnostic := by
  simp [brokenIn, check_eq_some_iff]

/-- There is at most one diagnostic for each field, in the order of the fields. -/
theorem map_field_brokenIn_sublist (settings : Settings) (fields : List Checked) :
    ((brokenIn settings fields).map Diagnostic.field).Sublist (fields.map Checked.field) := by
  induction fields with
  | nil => exact .slnil
  | cons checked fields ih =>
    have hcons : brokenIn settings (checked :: fields) =
        (checked.check (checked.text settings)).toList ++ brokenIn settings fields := rfl
    rw [hcons, List.map_append, List.map_cons]
    cases hcheck : checked.check (checked.text settings) with
    | none => exact ih.cons _
    | some diagnostic =>
      have hfield := (check_eq_some_iff.mp hcheck).field
      simpa [hfield] using ih.cons_cons checked.field

/-- The diagnostics for one field are what the check of this field finds. -/
theorem filter_diagnostics (settings : Settings) (checked : Checked) :
    (settings.diagnostics.filter fun diagnostic => diagnostic.field = checked.field) =
      (checked.check (checked.text settings)).toList := by
  have hfilter (other : Checked) : ((other.check (other.text settings)).toList.filter
      fun diagnostic => diagnostic.field = checked.field) =
      if other.field = checked.field then (other.check (other.text settings)).toList else [] := by
    cases hcheck : other.check (other.text settings) with
    | none => simp
    | some diagnostic =>
      have hfield := (check_eq_some_iff.mp hcheck).field
      simp [List.filter_cons, hfield]
  rw [diagnostics_eq, brokenIn, List.filter_flatMap]
  simp only [hfilter]
  cases checked <;> simp [Checked.all, Checked.field]

/-- Settings are told all that is broken in them and nothing else: a field at most once, the fields in
order, each by its own text whatever the others are. Only settings that break nothing are fit. -/
theorem diagnostics_exactly_broken (settings : Settings) :
    (∀ diagnostic, diagnostic ∈ settings.diagnostics ↔
        ∃ checked : Checked, Broken checked (checked.text settings) diagnostic)
      ∧ (settings.diagnostics.map Diagnostic.field).Sublist (Checked.all.map Checked.field)
      ∧ (∀ (checked : Checked) (other : Settings), checked.text settings = checked.text other →
          (settings.diagnostics.filter fun diagnostic => diagnostic.field = checked.field) =
            other.diagnostics.filter fun diagnostic => diagnostic.field = checked.field)
      ∧ (∀ other : Settings, (∀ checked : Checked, checked.text settings = checked.text other) →
          settings.diagnostics = other.diagnostics)
      ∧ (settings.validate = .ok () ↔ settings.diagnostics = [])
      ∧ ∀ broken, settings.validate = .error broken ↔
          settings.diagnostics ≠ [] ∧ settings.diagnostics = broken := by
  refine ⟨?_, ?_, ?_, ?_, resultOf_eq_ok_iff, fun _ => resultOf_eq_error_iff⟩
  · intro diagnostic
    have hall (checked : Checked) : checked ∈ Checked.all := by cases checked <;> decide
    rw [diagnostics_eq, mem_brokenIn_iff]
    simp [hall]
  · rw [diagnostics_eq]
    exact map_field_brokenIn_sublist settings Checked.all
  · intro checked other htext
    rw [filter_diagnostics, filter_diagnostics, htext]
  · intro other htexts
    rw [diagnostics_eq, diagnostics_eq, brokenIn, brokenIn]
    simp only [htexts]

/-- A no-break space in place of a remote, an em space within the branch, and no name. -/
example : diagnostics ⟨{}, { remote := "\u00a0", branch := "a\u2003b" }, { name := "" }⟩ =
    [⟨"target.remote", "\x1b[94m`target.remote`\x1b[39m must not be empty",
      some "use an SSH (git@host:user/repo.git) or HTTPS URL"⟩,
    ⟨"target.branch", "\x1b[94m`target.branch`\x1b[39m contains whitespace: `a\u2003b`", none⟩,
    ⟨"commit.name", "\x1b[94m`commit.name`\x1b[39m must not be empty",
      some "git refuses to commit with an empty author name"⟩] := by
  decide +kernel

/-! ## 5. Reports -/

theorem appendBlock_last (text : String) (diagnostic : Diagnostic) (index : Nat) :
    appendBlock (index + 1) text (diagnostic, index) = text ++ diagnostic.render := by
  simp [appendBlock]

theorem appendBlock_inner {count index : Nat} (h : index + 1 < count) (text : String)
    (diagnostic : Diagnostic) :
    appendBlock count text (diagnostic, index) = text ++ diagnostic.render ++ "\n\n" := by
  simp [appendBlock, h]

/-- Blocks that are the last of a report are written with an empty line between each two. -/
theorem foldl_appendBlock (found : List Diagnostic) (index : Nat) (text : String) :
    (found.zipIdx index).foldl (appendBlock (index + found.length)) text =
      text ++ "\n\n".intercalate (found.map Diagnostic.render) := by
  induction found generalizing index text with
  | nil => simp
  | cons diagnostic found ih =>
    rw [List.zipIdx_cons, List.foldl_cons]
    cases found with
    | nil => simp [appendBlock_last]
    | cons next found =>
      have hinner : index + 1 < index + (diagnostic :: next :: found).length := by
        simp only [List.length_cons]
        omega
      have hcount : index + (diagnostic :: next :: found).length =
          index + 1 + (next :: found).length := by
        simp only [List.length_cons]
        omega
      rw [appendBlock_inner hinner, hcount, ih]
      simp [String.append_assoc]

theorem report_eq (found : List Diagnostic) :
    report found = headline ++ "\n\n" ++ "\n\n".intercalate (found.map Diagnostic.render)
      ++ (if 1 < found.length then "\n\n" ++ countLine found.length else "") := by
  have hblocks := foldl_appendBlock found 0 (headline ++ "\n\n")
  rw [Nat.zero_add] at hblocks
  simp only [report, hblocks]
  split
  · exact String.append_assoc ..
  · exact (String.append_empty ..).symm

/-- The number of the blocks is written in decimal, between two words. -/
theorem stripString_countLine (count : Nat) :
    Text.Ansi.stripString (countLine count) =
      "found " ++ String.ofList (Nat.toDigits 10 count) ++ " errors" := by
  have hdigits : Text.Ansi.escape ∉ (toString count).toList := by
    intro hmem
    rw [Nat.toString_eq_ofList_toDigits, String.toList_ofList] at hmem
    exact absurd (Nat.isDigit_of_mem_toDigits (by decide) (by decide) hmem) (by decide)
  have hline : (countLine count).toList = (Style.dimmed.paint "found").toList ++ (" ".toList
      ++ ((Style.bold.paint (Style.red.paint (toString count))).toList ++ (" ".toList
        ++ ((Style.dimmed.paint "errors").toList ++ [])))) := by
    simp [countLine]
  rw [← String.toList_inj, Text.Ansi.stripString, String.toList_ofList, hline, strip_paint,
    strip_append_of_not_mem (by decide), strip_off, strip_append_of_not_mem (by decide),
    strip_paint, strip_paint, strip_append_of_not_mem hdigits, strip_off, strip_off,
    strip_append_of_not_mem (by decide), strip_paint, strip_append_of_not_mem (by decide),
    strip_off, strip]
  simp

theorem stripString_headline : Text.Ansi.stripString headline = "config validation failed:" := by
  decide +kernel

/-- What is put together of blocks holds each of them. -/
theorem infix_intercalate (separator : String) {block : String} {blocks : List String}
    (h : block ∈ blocks) : block.toList <:+: (separator.intercalate blocks).toList := by
  induction blocks with
  | nil => cases h
  | cons first more ih =>
    by_cases hmore : more = []
    · subst hmore
      obtain rfl := List.mem_singleton.mp h
      simp
    · rw [String.intercalate_cons_of_ne_nil hmore, String.toList_append, String.toList_append]
      rcases List.mem_cons.mp h with rfl | h
      · rw [List.append_assoc]
        exact (List.prefix_append ..).isInfix
      · exact (ih h).trans (List.suffix_append ..).isInfix

theorem infix_report {diagnostic : Diagnostic} (h : diagnostic ∈ found) :
    diagnostic.render.toList <:+: (report found).toList := by
  rw [report_eq, String.toList_append, String.toList_append]
  refine ((infix_intercalate "\n\n" (List.mem_map_of_mem h)).trans ?_)
  exact (List.suffix_append ..).isInfix.trans (List.prefix_append ..).isInfix

/-- A block shows the message and the hint as they are. -/
theorem infix_render (diagnostic : Diagnostic) :
    diagnostic.message.toList <:+: diagnostic.render.toList
      ∧ ∀ hint ∈ diagnostic.hint, hint.toList <:+: diagnostic.render.toList := by
  obtain ⟨field, message, hint⟩ := diagnostic
  constructor
  · simp only [Diagnostic.render, String.toList_append]
    exact (List.suffix_append ..).isInfix.trans (List.prefix_append ..).isInfix
  · rintro hint rfl
    simp only [Diagnostic.render, String.toList_append]
    exact (List.suffix_append ..).isInfix.trans (List.suffix_append ..).isInfix

/-- A list of diagnostics is a failure unless it is empty, and the failure is the whole list. The report
on it is a headline and all diagnostics in order, an empty line between each two, and behind several
their number. So nothing is missing of what was found. -/
theorem report_tells_all (found : List Diagnostic) :
    ((∃ broken, resultOf found = .error broken) ↔ 0 < found.length)
      ∧ (∀ broken, resultOf found = .error broken → broken = found)
      ∧ report found = headline ++ "\n\n" ++ "\n\n".intercalate (found.map Diagnostic.render)
          ++ (if 1 < found.length then "\n\n" ++ countLine found.length else "")
      ∧ Text.Ansi.stripString headline = "config validation failed:"
      ∧ Text.Ansi.stripString (countLine found.length) =
          "found " ++ String.ofList (Nat.toDigits 10 found.length) ++ " errors"
      ∧ ∀ diagnostic ∈ found, diagnostic.message.toList <:+: (report found).toList
          ∧ ∀ hint ∈ diagnostic.hint, hint.toList <:+: (report found).toList := by
  refine ⟨?_, ?_, report_eq found, stripString_headline, stripString_countLine found.length, ?_⟩
  · simp [resultOf_eq_error_iff, List.length_pos_iff]
  · intro broken hbroken
    exact (resultOf_eq_error_iff.mp hbroken).2.symm
  · intro diagnostic hfound
    have hblock := infix_report hfound
    refine ⟨(infix_render diagnostic).1.trans hblock, ?_⟩
    intro hint hhint
    exact ((infix_render diagnostic).2 hint hhint).trans hblock

end PublishOnce.Settings
