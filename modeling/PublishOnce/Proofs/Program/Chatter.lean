/-
PublishOnce.Proofs.Program.Chatter — the lines that are repeated, whatever colours
and ends they have.

A program is free to colour what it says, in the middle of a word if it likes, and to
end its lines in either way. `keep_coloured_output` says that this has no influence on
what is repeated: a line is repeated if the words on it are worth it
(`Chatter.IsWorth`), and a line that is repeated has its colours still. Lines are
judged one by one, so nothing else is lost and nothing changes its place.

Two texts are at work here. The judgement is about the line without its colours and
without the white space around it, the answer is the line as it came. That the
former can be had from the latter takes a line without an `ESC` of its own, which is
part of what a coloured line is.
-/
import PublishOnce.Proofs.Program.Outputs
import PublishOnce.Proofs.Text.Ansi
import PublishOnce.Proofs.Text.Lines

namespace PublishOnce.Program

open Text.Ansi (Piece plainOf textOf)

/-! ## 1. Coloured lines -/

/-- A line with codes in it. Without them it is a single line. -/
structure ColouredLine where
  pieces : List Piece
  isSingle : Text.IsSingle (plainOf pieces)

namespace ColouredLine

/-- The line as a program writes it. -/
def text (line : ColouredLine) : String := String.ofList (textOf line.pieces)

/-- The line as a reader sees it. -/
def plain (line : ColouredLine) : List Char := plainOf line.pieces

theorem stripString_text (line : ColouredLine) :
    Text.Ansi.stripString line.text = String.ofList line.plain := by
  unfold Text.Ansi.stripString text plain
  rw [String.toList_ofList, Text.Ansi.strip_textOf]

/-- Codes bring no ends of lines with them. -/
theorem isSingle_text (line : ColouredLine) : Text.IsSingle line.text.toList := by
  intro c hc
  rw [text, String.toList_ofList] at hc
  rcases Text.Ansi.mem_textOf hc with hplain | rfl | rfl | rfl | hparameter
  · exact line.isSingle c hplain
  · decide
  · decide
  · decide
  · constructor
    · rintro rfl
      simp [Text.Ansi.isParameter] at hparameter
    · rintro rfl
      simp [Text.Ansi.isParameter] at hparameter

end ColouredLine

/-- What a program says: lines with their ends, and perhaps a last one that has none. -/
structure ColouredOutput where
  ended : List (ColouredLine × Text.LineEnd)
  unended : Option ColouredLine := none

namespace ColouredOutput

def lines (output : ColouredOutput) : List ColouredLine :=
  output.ended.map Prod.fst ++ output.unended.toList

/-- The lines with their ends, one behind the other. -/
def chars (output : ColouredOutput) : List Char :=
  output.ended.flatMap (fun row => row.1.text.toList ++ row.2.text)
    ++ output.unended.toList.flatMap (·.text.toList)

def text (output : ColouredOutput) : String := String.ofList output.chars

end ColouredOutput

/-! ## 2. Lines that are worth it -/

namespace Chatter

/-- What a reader sees on a line is worth repeating: it is not all white space, and what is left
between the white space does not start like chatter. -/
def IsWorth (chatter : Chatter) (plain : List Char) : Prop :=
  (∃ c ∈ plain, Text.isBlank c = false)
    ∧ ∀ start ∈ chatter.starts, ¬ start.toList <+: Text.trimChars plain

instance (chatter : Chatter) (plain : List Char) : Decidable (chatter.IsWorth plain) :=
  @instDecidableAnd _ _ (List.decidableBEx _ _) (List.decidableBAll _ _)

variable (chatter : Chatter)

theorem passes_text_iff (line : ColouredLine) :
    chatter.passes line.text = true ↔ chatter.IsWorth line.plain := by
  have hblank : Text.allBlank (String.ofList line.plain) = false ↔
      ∃ c ∈ line.plain, Text.isBlank c = false := by
    simp [Text.allBlank]
  have hstarts : (chatter.starts.any fun start =>
      start.toList.isPrefixOf (Text.trim (String.ofList line.plain)).toList) = false ↔
      ∀ start ∈ chatter.starts, ¬ start.toList <+: Text.trimChars line.plain := by
    simp [Text.trim, List.isPrefixOf_iff_prefix]
  unfold passes
  rw [line.stripString_text, Bool.and_eq_true, Bool.not_eq_true', Bool.not_eq_true', hblank, hstarts,
    IsWorth]

/-- An empty line is not repeated, so it makes no difference that it is no line at the end. -/
theorem filter_lines_text (line : ColouredLine) :
    ((Text.lines line.text.toList).map String.ofList).filter chatter.passes =
      [line.text].filter chatter.passes := by
  by_cases hnil : line.text.toList = []
  · have hempty : line.text = "" := String.toList_eq_nil_iff.mp hnil
    have hpasses : chatter.passes "" = false := by
      unfold passes
      simp [Text.Ansi.stripString, Text.Ansi.strip, Text.allBlank]
    simp [hempty, hpasses]
  · rw [Text.lines_of_isSingle line.isSingle_text hnil, List.map_singleton, String.ofList_toList]

/-- The lines of an output are judged one by one, and each by what a reader sees on it. -/
theorem filter_lines_output (output : ColouredOutput) :
    ((Text.lines output.chars).map String.ofList).filter chatter.passes =
      (output.lines.map ColouredLine.text).filter chatter.passes := by
  obtain ⟨ended, unended⟩ := output
  induction ended with
  | nil =>
    cases unended with
    | none => rfl
    | some line =>
      simpa [ColouredOutput.chars, ColouredOutput.lines] using filter_lines_text chatter line
  | cons row ended ih =>
    obtain ⟨line, ending⟩ := row
    have hchars : (ColouredOutput.mk ((line, ending) :: ended) unended).chars =
        line.text.toList ++ (ending.text ++ (ColouredOutput.mk ended unended).chars) := by
      simp [ColouredOutput.chars]
    have hlines : (ColouredOutput.mk ((line, ending) :: ended) unended).lines =
        line :: (ColouredOutput.mk ended unended).lines := rfl
    rw [hchars, hlines, Text.lines_append_ending line.isSingle_text, List.map_cons, List.map_cons,
      String.ofList_toList, List.filter_cons, List.filter_cons, ih]

/-! ## 3. The lines that are repeated -/

/-- Of an output those lines are repeated that are worth it, in order and with their colours. What a
reader sees of them depends on what a reader sees of the output, and not on colours or ends. -/
theorem keep_coloured_output (output : ColouredOutput) :
    chatter.keep output.text =
        (output.lines.filter fun line => chatter.IsWorth line.plain).map ColouredLine.text
      ∧ ∀ other : ColouredOutput,
          other.lines.map ColouredLine.plain = output.lines.map ColouredLine.plain →
            (chatter.keep other.text).map Text.Ansi.stripString =
              (chatter.keep output.text).map Text.Ansi.stripString := by
  have hkeep (output : ColouredOutput) : chatter.keep output.text =
      (output.lines.filter fun line => chatter.IsWorth line.plain).map ColouredLine.text := by
    rw [keep_eq, ColouredOutput.text, String.toList_ofList, filter_lines_output, List.filter_map]
    congr 1
    refine List.filter_congr fun line _ => ?_
    rw [Function.comp_apply, Bool.eq_iff_iff, decide_eq_true_iff, passes_text_iff]
  have hseen (output : ColouredOutput) : (chatter.keep output.text).map Text.Ansi.stripString =
      ((output.lines.map ColouredLine.plain).filter fun plain => chatter.IsWorth plain).map
        String.ofList := by
    rw [hkeep, List.map_map, List.filter_map, List.map_map]
    refine List.map_congr_left fun line _ => ?_
    exact line.stripString_text
  refine ⟨hkeep output, ?_⟩
  intro other hplain
  rw [hseen, hseen, hplain]

/-- A code within a word, and one with nothing but white space around it. -/
example : (⟨["hint:"]⟩ : Chatter).keep "hi\x1b[1;33mnt: a\r\n \x1b[m\n\x1b[32mTo\x1b[0m origin" =
    ["\x1b[32mTo\x1b[0m origin"] := by
  decide +kernel

end Chatter

end PublishOnce.Program
