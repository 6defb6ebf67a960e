/-
PublishOnce.Proofs.Repository.Subject — which texts are subjects.

A subject has no line feed in it and does not start with white space, whatever
message it was taken from (`isTidy_ofMessage`): lines are joined with blanks,
and the title is trimmed before they are. In the other direction a text like
that, with something to see at its end, is the subject of the commit that it is
the message of (`ofMessage_verbatim`), also when the message goes on behind an
empty line (`ofMessage_append_tail`). So a text can be told from the subject of
its own commit exactly if it is not tidy (`ofMessage_verbatim_iff`).
-/
import Mathlib.Data.List.DropRight
import Mathlib.Data.List.TakeDrop
import PublishOnce.Proofs.Repository.Bytes
import PublishOnce.Proofs.Text.Pieces
import PublishOnce.Proofs.Text.Trim
import PublishOnce.Proofs.Text.Utf8
import PublishOnce.Repository.Subject

namespace PublishOnce

namespace Repository.Subject

/-! ## 1. What a subject looks like -/

/-- What a subject looks like: it is one line, and there is something to see at its front. -/
structure IsTidy (cs : List Char) : Prop where
  line : '\n' ∉ cs
  front : ∀ c ∈ cs.head?, Text.isBlank c = false

theorem IsTidy.of_append {cs ds : List Char} (h : IsTidy (cs ++ ds)) : IsTidy cs where
  line hmem := h.line (List.mem_append_left _ hmem)
  front c hc := h.front c (by rw [List.head?_append, Option.mem_def.mp hc]; rfl)

/-- A tidy text stays tidy when something without white space is put behind it. -/
theorem IsTidy.append {cs ds : List Char} (h : IsTidy cs)
    (hvisible : ∀ d ∈ ds, Text.isBlank d = false) : IsTidy (cs ++ ds) where
  line := by
    rw [List.mem_append, not_or]
    exact ⟨h.line, fun hmem => absurd (hvisible _ hmem) (by decide)⟩
  front c hc := by
    rw [List.head?_append] at hc
    cases hfront : cs.head? with
    | some first =>
      rw [hfront] at hc
      exact h.front c (hfront ▸ hc)
    | none =>
      rw [hfront] at hc
      exact hvisible c (List.mem_of_mem_head? hc)

open Text

/-! ## 2. Every subject is tidy -/

theorem isBlank_of_isLineBlank {c : Char} (h : isLineBlank c = true) : isBlank c = true := by
  simp only [isLineBlank, Bool.or_eq_true, decide_eq_true_eq] at h
  rcases h with (((rfl | rfl) | rfl) | rfl) | rfl <;> decide

/-- Whatever has been put together so far keeps its first character. -/
theorem joinLines_cons {c : Char} (h : isBlank c = false) (tail : List Char)
    (lines : List (List Char)) : ∃ more, joinLines (c :: tail) lines = c :: more := by
  induction lines generalizing tail with
  | nil => exact ⟨tail, rfl⟩
  | cons line rest ih =>
    cases rest with
    | nil => exact ⟨tail ++ line, rfl⟩
    | cons second rest =>
      rw [joinLines]
      · split
        · exact rdropWhile_cons h tail
        · exact ih _
      · simp

theorem lineFeed_not_mem_joinLines {soFar : List Char} {lines : List (List Char)}
    (h : '\n' ∉ soFar) (hlines : ∀ line ∈ lines, '\n' ∉ line) :
    '\n' ∉ joinLines soFar lines := by
  induction lines generalizing soFar with
  | nil => exact h
  | cons line rest ih =>
    cases rest with
    | nil =>
      rw [joinLines, List.mem_append, not_or]
      exact ⟨h, hlines _ List.mem_cons_self⟩
    | cons second rest =>
      rw [joinLines]
      · split
        · exact fun hmem => h ((List.rdropWhile_prefix isBlank soFar).mem hmem)
        · refine ih ?_ fun other hother => hlines _ (List.mem_cons_of_mem _ hother)
          have hcut : '\n' ∉ cutEnd line := fun hmem =>
            hlines line List.mem_cons_self ((List.rdropWhile_prefix isLineBlank line).mem hmem)
          simp [h, hcut]
      · simp

theorem isTidy_oneLine (title : List Char) : IsTidy (oneLine title) := by
  have hpieces : ∀ piece ∈ splitOn '\n' (trimChars title), '\n' ∉ piece :=
    fun piece => not_mem_of_mem_splitOn
  refine ⟨lineFeed_not_mem_joinLines List.not_mem_nil hpieces, ?_⟩
  unfold oneLine
  rcases trimChars_cases title with htrim | ⟨c, rest, htrim, hc⟩
  · rw [htrim]
    simp [splitOn, joinLines]
  · have hne : c ≠ '\n' := by
      rintro rfl
      revert hc
      decide
    obtain ⟨first, more, hsplit⟩ := splitOn_cons_of_ne hne rest
    have hjoined : ∃ tail, joinLines [] ((c :: first) :: more) = c :: tail := by
      cases more with
      | nil => exact ⟨first, rfl⟩
      | cons second more =>
        obtain ⟨kept, hkept⟩ := rdropWhile_cons (p := isLineBlank) (c := c)
          (Bool.eq_false_iff.mpr fun h => by simp [isBlank_of_isLineBlank h] at hc) first
        rw [joinLines]
        · have hcut : cutEnd (c :: first) = c :: kept := hkept
          simp only [List.isEmpty_cons, Bool.false_eq_true, if_false, hcut, List.nil_append,
            List.cons_append]
          exact joinLines_cons hc _ _
        · simp
    obtain ⟨tail, hjoined⟩ := hjoined
    rw [htrim, hsplit, hjoined]
    simpa using hc

/-- Every subject is tidy. -/
theorem isTidy_ofMessage (message : Bytes) : IsTidy (ofMessage message).toList := by
  unfold ofMessage
  rw [String.toList_ofList]
  exact isTidy_oneLine _

/-- A tidy text with something to see at its end too. -/
structure IsTrim (cs : List Char) : Prop extends IsTidy cs where
  back : ∀ c ∈ cs.getLast?, Text.isBlank c = false

/-- Where lines end with something to see, so does what they are joined to. -/
theorem isBlank_getLast_joinLines {soFar : List Char} {lines : List (List Char)} {front : List Char}
    {last : Char} (hlast : lines.getLast? = some (front ++ [last])) (hvisible : isBlank last = false) :
    ∀ c ∈ (joinLines soFar lines).getLast?, isBlank c = false := by
  induction lines generalizing soFar with
  | nil => cases hlast
  | cons line rest ih =>
    cases rest with
    | nil =>
      obtain rfl : line = front ++ [last] := Option.some.inj hlast
      intro c hc
      rw [joinLines, ← List.append_assoc, List.getLast?_concat] at hc
      exact Option.some.inj hc ▸ hvisible
    | cons second rest =>
      rw [joinLines]
      · split
        · intro c hc
          exact Bool.eq_false_iff.mpr (isBlank_of_mem_getLast?_dropBlankEnd hc)
        · exact ih hlast
      · simp

theorem isBlank_getLast_oneLine (title : List Char) :
    ∀ c ∈ (oneLine title).getLast?, isBlank c = false := by
  unfold oneLine
  rcases List.eq_nil_or_concat (trimChars title) with htrim | ⟨front, last, htrim⟩
  · rw [htrim]
    exact fun c hc => by cases hc
  · rw [List.concat_eq_append] at htrim
    have hlast : last ∈ (dropBlankEnd (dropBlankStart title)).getLast? := by
      rw [← trimChars, htrim, List.getLast?_concat]
      rfl
    have hvisible : isBlank last = false :=
      Bool.eq_false_iff.mpr (isBlank_of_mem_getLast?_dropBlankEnd hlast)
    have hne : last ≠ '\n' := by
      rintro rfl
      revert hvisible
      decide
    obtain ⟨pieces, piece, hsplit⟩ := splitOn_concat hne front
    rw [htrim, hsplit]
    exact isBlank_getLast_joinLines List.getLast?_concat hvisible

/-- Every subject starts and ends with something to see. -/
theorem isTrim_ofMessage (message : Bytes) : IsTrim (ofMessage message).toList where
  toIsTidy := isTidy_ofMessage message
  back := by
    unfold ofMessage
    rw [String.toList_ofList]
    exact isBlank_getLast_oneLine _

/-! ## 3. Where a title ends -/

/-- No line feed but at the very end: then nothing is left behind any line end. -/
theorem eq_nil_of_lineEnd? {bytes rest : Bytes} (hfeed : Bytes.lineFeed ∉ bytes.dropLast)
    (h : Bytes.lineEnd? bytes = some rest) : rest = [] := by
  obtain ⟨front, rfl, -⟩ := Bytes.eq_append_of_lineEnd? h
  cases rest with
  | nil => rfl
  | cons b rest =>
    rw [List.dropLast_append_of_ne_nil (by simp), List.dropLast_cons_of_ne_nil (by simp)] at hfeed
    simp at hfeed

theorem lineFeed_not_mem_dropLast_drop {bytes : Bytes} (h : Bytes.lineFeed ∉ bytes.dropLast)
    (count : Nat) : Bytes.lineFeed ∉ (bytes.drop count).dropLast := by
  rw [List.dropLast_drop_eq_drop_dropLast]
  exact fun hmem => h (List.mem_of_mem_drop hmem)

/-- The end of a title takes two line feeds. -/
theorem titleLength?_eq_none {bytes : Bytes} (h : Bytes.lineFeed ∉ bytes.dropLast) :
    titleLength? bytes = none := by
  induction bytes using titleLength?.induct with
  | case1 => rw [titleLength?]
  | case2 b rest hb ih =>
    rw [titleLength?, if_pos hb, ih (by simpa using lineFeed_not_mem_dropLast_drop h 1)]
    rfl
  | case3 b rest hb run hend ih =>
    rw [titleLength?, if_neg hb]
    simp only [run] at hend ih
    simp only [hend]
    rw [ih ?_]
    · rfl
    · simpa using lineFeed_not_mem_dropLast_drop h (run + 2)
  | case4 b rest hb run second hsecond third hthird =>
    have hfeed : Bytes.lineFeed ∉ (rest.drop run).dropLast := by
      simpa using lineFeed_not_mem_dropLast_drop h (run + 1)
    rw [eq_nil_of_lineEnd? hfeed hsecond] at hthird
    cases hthird
  | case5 b rest hb run second hsecond hthird used ih =>
    rw [titleLength?, if_neg hb]
    simp only [run] at hsecond ih
    simp only [hsecond, hthird]
    rw [ih ?_]
    · rfl
    · simpa using lineFeed_not_mem_dropLast_drop h (used + 1)

/-- Bytes that the search for the end of a title passes over: no line feed, and something to see at
the end. -/
structure IsUnended (bytes : Bytes) : Prop where
  feed : Bytes.lineFeed ∉ bytes
  last : ∀ b ∈ bytes.getLast?, Bytes.isLineByte b = false

theorem IsUnended.of_append {front rest : Bytes} (h : IsUnended (front ++ rest)) :
    IsUnended rest where
  feed hmem := h.feed (List.mem_append_right _ hmem)
  last b hb := h.last b (by rw [List.getLast?_append, Option.mem_def.mp hb]; rfl)

theorem IsUnended.of_cons {b : UInt8} {rest : Bytes} (h : IsUnended (b :: rest)) :
    IsUnended rest :=
  of_append (List.singleton_append ▸ h : IsUnended ([b] ++ rest))

theorem runLength_cons (b : UInt8) (rest : Bytes) :
    runLength (b :: rest) = if Bytes.isLineByte b then 0 else runLength rest + 1 := by
  unfold runLength
  cases hb : Bytes.isLineByte b <;> simp [hb]

/-- The run at the front is the same when the bytes go on behind a line feed. -/
theorem runLength_append (bytes more : Bytes) :
    runLength (bytes ++ Bytes.lineFeed :: more) = runLength bytes := by
  induction bytes with
  | nil => rfl
  | cons b rest ih => rw [List.cons_append, runLength_cons, runLength_cons, ih]

/-- Such bytes are one run, or there is a carriage return behind the run, and more behind it that
does not start with a line feed. -/
theorem IsUnended.run_cases {bytes : Bytes} (h : IsUnended bytes) :
    runLength bytes = bytes.length
      ∨ ∃ run c rest, bytes = run ++ Bytes.carriageReturn :: c :: rest ∧ c ≠ Bytes.lineFeed
          ∧ runLength bytes = run.length := by
  induction bytes with
  | nil => exact .inl rfl
  | cons b rest ih =>
    rw [runLength_cons]
    cases hb : Bytes.isLineByte b with
    | true =>
      have hreturn : b = Bytes.carriageReturn := by
        simp only [Bytes.isLineByte, Bool.or_eq_true, decide_eq_true_eq] at hb
        exact hb.resolve_left fun hfeed => h.feed (hfeed ▸ List.mem_cons_self)
      cases rest with
      | nil => exact absurd (h.last b rfl) (by simp [hb])
      | cons c more =>
        refine .inr ⟨[], c, more, by rw [hreturn]; rfl, ?_, rfl⟩
        rintro rfl
        exact h.feed (List.mem_cons_of_mem _ List.mem_cons_self)
    | false =>
      rcases ih h.of_cons with hwhole | ⟨run, c, more, hrest, hc, hrun⟩
      · exact .inl (by simp [hwhole])
      · exact .inr ⟨b :: run, c, more, by rw [hrest]; rfl, hc, by simp [hrun]⟩

/-- The first empty line ends the title. -/
theorem titleLength?_append_body {bytes : Bytes} (hne : bytes ≠ []) (h : IsUnended bytes)
    (body : Bytes) :
    titleLength? (bytes ++ Bytes.lineFeed :: Bytes.lineFeed :: body) = some bytes.length := by
  -- along the search, which meets no line end before the empty line
  induction hlength : bytes.length using Nat.strong_induction_on generalizing bytes with
  | _ length ih =>
  subst hlength
  cases bytes with
  | nil => exact absurd rfl hne
  | cons b rest =>
    have hrest : IsUnended rest := h.of_cons
    rw [List.cons_append, titleLength?]
    cases hb : Bytes.isLineByte b with
    | true =>
      have hsome : rest ≠ [] := by
        rintro rfl
        exact absurd (h.last b rfl) (by simp [hb])
      rw [if_pos rfl, ih rest.length (by simp) hsome hrest rfl]
      rfl
    | false =>
      simp only [Bool.false_eq_true, if_false, runLength_append]
      rcases hrest.run_cases with hwhole | ⟨run, c, more, hrun, hc, hlength⟩
      · rw [hwhole, List.drop_left]
        rfl
      · -- the carriage return is passed over, and the search starts once more behind it
        have hbehind : IsUnended (c :: more) := by
          rw [hrun, List.append_cons] at hrest
          exact hrest.of_append
        have hnone : ∀ tail, Bytes.lineEnd? (Bytes.carriageReturn :: c :: tail) = none := fun tail => by
          simp only [Bytes.lineEnd?, if_neg hc]
          rfl
        have hshort : (c :: more).length < (b :: rest).length := by
          rw [hrun]
          simp only [List.length_cons, List.length_append]
          omega
        rw [hlength, hrun, List.append_assoc, List.drop_left, List.cons_append, List.cons_append]
        simp only [hnone]
        rw [← List.drop_drop, List.drop_left, List.drop_one, List.tail_cons, ← List.cons_append,
          ih (c :: more).length hshort (List.cons_ne_nil _ _) hbehind rfl]
        simp only [Option.map_some, Option.some.injEq, List.length_append, List.length_cons]
        omega

/-! ## 4. Every tidy text is a subject -/

/-- What may stand in a commit behind its first line: nothing, the end of the line, or an empty line
and anything at all. -/
inductive IsTail : Bytes → Prop
  | nothing : IsTail []
  | lineEnd : IsTail [Bytes.lineFeed]
  | body (body : Bytes) : IsTail (Bytes.lineFeed :: Bytes.lineFeed :: body)

section
variable {text : String}

theorem lineFeed_not_mem_ofString (h : '\n' ∉ text.toList) :
    Bytes.lineFeed ∉ Bytes.ofString text :=
  fun hmem => h (Utf8.mem_of_mem_encode (by decide) hmem)

theorem isUnended_ofString (htidy : IsTidy text.toList)
    (hend : ∀ c ∈ text.toList.getLast?, isBlank c = false) : IsUnended (Bytes.ofString text) where
  feed := lineFeed_not_mem_ofString htidy.line
  last b hb := by
    rw [Bool.eq_false_iff]
    intro hline
    simp only [Bytes.isLineByte, Bool.or_eq_true, decide_eq_true_eq] at hline
    rcases hline with rfl | rfl
    · exact absurd (hend _ (Utf8.getLast?_of_getLast?_encode (by decide) hb)) (by decide)
    · exact absurd (hend _ (Utf8.getLast?_of_getLast?_encode (by decide) hb)) (by decide)

/-- A tidy text with white space behind it is folded to the text. -/
theorem oneLine_of_isTidy {cs behind : List Char} (htidy : IsTidy cs)
    (hend : ∀ c ∈ cs.getLast?, isBlank c = false) (hbehind : ∀ c ∈ behind, isBlank c = true) :
    oneLine (cs ++ behind) = cs := by
  unfold oneLine
  rw [trimChars_of_ends htidy.front hend hbehind, splitOn_of_not_mem htidy.line, joinLines,
    List.nil_append]

/-- Where the title is a tidy text, perhaps with white space behind it, the text is the subject. -/
theorem ofMessage_of_title {behind : String} {message : Bytes} (htidy : IsTidy text.toList)
    (hend : ∀ c ∈ text.toList.getLast?, isBlank c = false)
    (hbehind : ∀ c ∈ behind.toList, isBlank c = true)
    (htitle : title message = Bytes.ofString (text ++ behind)) : ofMessage message = text := by
  unfold ofMessage Bytes.toText
  rw [htitle, Bytes.ofString, Utf8.decodeLossy_encode, String.toList_append,
    oneLine_of_isTidy htidy hend hbehind, String.ofList_toList]

/-- A tidy text that ends with something to see is the subject of the commit that it is the message
of. -/
theorem ofMessage_verbatim (htidy : IsTidy text.toList)
    (hend : ∀ c ∈ text.toList.getLast?, isBlank c = false) :
    ofMessage (Bytes.ofString text ++ [Bytes.lineFeed]) = text := by
  have htitle : title (Bytes.ofString text ++ [Bytes.lineFeed]) = Bytes.ofString (text ++ "\n") := by
    have hnone : titleLength? (Bytes.ofString text ++ [Bytes.lineFeed]) = none := by
      refine titleLength?_eq_none ?_
      rw [List.dropLast_concat]
      exact lineFeed_not_mem_ofString htidy.line
    unfold title Bytes.ofString
    rw [Utf8.encode_append]
    exact hnone ▸ rfl
  exact ofMessage_of_title htidy hend (List.all_eq_true.mp (by decide +kernel)) htitle

/-- Such a text is also the subject of every commit in which nothing but a tail stands behind it. -/
theorem ofMessage_append_tail {tail : Bytes} (hne : text ≠ "") (htidy : IsTidy text.toList)
    (hend : ∀ c ∈ text.toList.getLast?, isBlank c = false) (htail : IsTail tail) :
    ofMessage (Bytes.ofString text ++ tail) = text := by
  have hwhole : text ++ "" = text := String.append_empty
  cases htail with
  | nothing =>
    have hnone : titleLength? (Bytes.ofString text) = none :=
      titleLength?_eq_none fun hmem =>
        lineFeed_not_mem_ofString htidy.line (List.dropLast_subset _ hmem)
    have htitle : title (Bytes.ofString text ++ []) = Bytes.ofString (text ++ "") := by
      unfold title
      rw [List.append_nil, hnone, hwhole]
    exact ofMessage_of_title htidy hend (List.all_eq_true.mp (by decide +kernel)) htitle
  | lineEnd => exact ofMessage_verbatim htidy hend
  | body body =>
    have hsome : Bytes.ofString text ≠ [] := fun hnil => hne (by
      rw [← Utf8.decodeLossy_encode text, show Utf8.encode text = [] from hnil, Utf8.decodeLossy,
        Utf8.decode]
      rfl)
    have htitle : title (Bytes.ofString text ++ Bytes.lineFeed :: Bytes.lineFeed :: body)
        = Bytes.ofString (text ++ "") := by
      unfold title
      rw [titleLength?_append_body hsome (isUnended_ofString htidy hend) body, hwhole]
      exact List.take_left
    exact ofMessage_of_title htidy hend (List.all_eq_true.mp (by decide +kernel)) htitle

/-- A text with something to see at its end is the subject of its own commit exactly if it is
tidy. -/
theorem ofMessage_verbatim_iff
    (hend : ∀ c ∈ text.toList.getLast?, isBlank c = false) :
    ofMessage (Bytes.ofString text ++ [Bytes.lineFeed]) = text ↔ IsTidy text.toList :=
  ⟨fun h => h ▸ isTidy_ofMessage _, fun htidy => ofMessage_verbatim htidy hend⟩

end

end Repository.Subject

end PublishOnce
