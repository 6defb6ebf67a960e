/-
PublishOnce.Proofs.Text.Ansi — a text with codes put into it, and the text again
without them.

A coloured text is made of pieces: characters, and codes between them. Codes may
stand anywhere, within a word, in front of white space or with nothing else, and
any number of them in a row. Taking the codes out gives the characters back
(`strip_text`), so whatever is decided about the text without its codes does not
depend on how it was coloured.

There is one condition, and it is on the characters: none of them is an `ESC`.
With one of its own a text may hold codes that nobody put there, as in `ESC`
followed by `[0m`, and these are taken out as well. On the codes there is no
condition. The parameters end where they were meant to end, because the `m` behind
them is no parameter (`afterCode?_parameters`).
-/
import PublishOnce.Text.Ansi

namespace PublishOnce.Text.Ansi

/-! ## 1. Codes and pieces -/

/-- A code, by what stands between `ESC [` and `m`. -/
structure Code where
  parameters : List Char
  isParameter_of_mem : ∀ c ∈ parameters, isParameter c = true

def Code.text (colour : Code) : List Char := escape :: '[' :: (colour.parameters ++ ['m'])

/-- A piece of a coloured text: a character, which is no `ESC`, or a code. -/
inductive Piece where
  | char (c : Char) (ne_escape : c ≠ escape)
  | code (colour : Code)

/-- What a piece puts into the coloured text. -/
def Piece.text : Piece → List Char
  | .char c _ => [c]
  | .code colour => colour.text

/-- What a piece puts into the text that is coloured. -/
def Piece.plain : Piece → List Char
  | .char c _ => [c]
  | .code _ => []

def textOf (pieces : List Piece) : List Char := pieces.flatMap Piece.text

def plainOf (pieces : List Piece) : List Char := pieces.flatMap Piece.plain

/-! ## 2. Taking codes out -/

theorem strip_cons_of_ne {c : Char} (h : c ≠ escape) (rest : List Char) :
    strip (c :: rest) = c :: strip rest := by
  rw [strip, if_neg h]

/-- Reading a code goes as far as its `m` and no further. -/
theorem afterCode?_parameters (colour : Code) (rest : List Char) :
    afterCode? ('[' :: (colour.parameters ++ 'm' :: rest)) = some rest := by
  have hstop : ('m' :: rest).dropWhile isParameter = 'm' :: rest :=
    List.dropWhile_cons_of_neg (by decide)
  have hdrop : (colour.parameters ++ 'm' :: rest).dropWhile isParameter = 'm' :: rest := by
    rw [List.dropWhile_append_of_pos colour.isParameter_of_mem, hstop]
  simp only [afterCode?, hdrop]

theorem strip_code_append (colour : Code) (rest : List Char) :
    strip (colour.text ++ rest) = strip rest := by
  have hcode := afterCode?_parameters colour rest
  have htext : colour.text ++ rest = escape :: '[' :: (colour.parameters ++ 'm' :: rest) := by
    simp [Code.text]
  rw [htext, strip, if_pos rfl]
  split
  · next behind hbehind =>
    rw [hcode] at hbehind
    rw [Option.some.inj hbehind]
  · next hnone =>
    rw [hcode] at hnone
    cases hnone

/-- A coloured text without its codes is the text that was coloured. -/
theorem strip_textOf (pieces : List Piece) : strip (textOf pieces) = plainOf pieces := by
  induction pieces with
  | nil => simp [textOf, plainOf, strip]
  | cons piece pieces ih =>
    have htext : textOf (piece :: pieces) = piece.text ++ textOf pieces := rfl
    have hplain : plainOf (piece :: pieces) = piece.plain ++ plainOf pieces := rfl
    rw [htext, hplain, ← ih]
    cases piece with
    | char c ne_escape => exact strip_cons_of_ne ne_escape (textOf pieces)
    | code colour => exact strip_code_append colour (textOf pieces)

/-! ## 3. The characters of a coloured text -/

theorem mem_textOf {pieces : List Piece} {c : Char} (h : c ∈ textOf pieces) :
    c ∈ plainOf pieces ∨ c = escape ∨ c = '[' ∨ c = 'm' ∨ isParameter c = true := by
  obtain ⟨piece, hpiece, hc⟩ := List.mem_flatMap.mp h
  cases piece with
  | char d ne_escape => exact .inl (List.mem_flatMap.mpr ⟨_, hpiece, hc⟩)
  | code colour =>
    simp only [Piece.text, Code.text, List.mem_cons, List.mem_append, List.not_mem_nil,
      or_false] at hc
    rcases hc with hc | hc | hc | hc
    · exact .inr (.inl hc)
    · exact .inr (.inr (.inl hc))
    · exact .inr (.inr (.inr (.inr (colour.isParameter_of_mem c hc))))
    · exact .inr (.inr (.inr (.inl hc)))

/-! ## 4. Painted texts -/

theorem isParameter_of_mem_number {style : Style} {c : Char}
    (h : c ∈ style.on.toList ∨ c ∈ style.off.toList) : isParameter c = true := by
  have hall : (style.on.toList ++ style.off.toList).all isParameter = true := by
    cases style <;> decide
  exact List.all_eq_true.mp hall c (List.mem_append.mpr h)

/-- A code that is written is one that is read. -/
theorem strip_code {number : String} (h : ∀ c ∈ number.toList, isParameter c = true)
    (rest : List Char) : strip ((code number).toList ++ rest) = strip rest := by
  have htext : (code number).toList = (Code.mk number.toList h).text := by
    simp [code, Code.text]
  rw [htext, strip_code_append]

/-- Of a painted text its codes are taken out, the one behind it as well. -/
theorem strip_paint (style : Style) (text : String) (rest : List Char) :
    strip ((style.paint text).toList ++ rest) =
      strip (text.toList ++ ((code style.off).toList ++ rest)) := by
  have htext : (style.paint text).toList ++ rest =
      (code style.on).toList ++ (text.toList ++ ((code style.off).toList ++ rest)) := by
    simp [Style.paint]
  rw [htext, strip_code fun c hc => isParameter_of_mem_number (.inl hc)]

theorem strip_off (style : Style) (rest : List Char) :
    strip ((code style.off).toList ++ rest) = strip rest :=
  strip_code (fun _ hc => isParameter_of_mem_number (.inr hc)) rest

/-- What stands in front of the first `ESC` stays. -/
theorem strip_append_of_not_mem {cs : List Char} (h : escape ∉ cs) (rest : List Char) :
    strip (cs ++ rest) = cs ++ strip rest := by
  induction cs with
  | nil => rfl
  | cons c cs ih =>
    rw [List.mem_cons, not_or] at h
    rw [List.cons_append, strip_cons_of_ne (Ne.symm h.1), ih h.2, List.cons_append]

end PublishOnce.Text.Ansi
