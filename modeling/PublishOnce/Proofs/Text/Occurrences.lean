/-
PublishOnce.Proofs.Text.Occurrences — which characters of a text go with its codes.

Codes are taken out by going through a text from left to right, and in general such a
scan decides something: of two matches that share a character, the one that is met
first wins. Here there is nothing to decide. An `ESC` begins a code and stands nowhere
else in one, so two codes of a text are the same or have no character in common
(`Occurs.eq_or_apart`), however many of them begin within an unfinished one.

The codes of a text can therefore be described by their places alone, and a character
is taken out exactly if it lies in one of them (`strip_eq_outside`). Two texts behind
each other lose what each of them loses, unless a code lies across the place where they
meet (`strip_append`). That is the one condition, and it is needed: `ESC` and `[m` are
no codes, but together they are one.
-/
import Mathlib.Data.List.Basic
import PublishOnce.Proofs.Text.Ansi

namespace PublishOnce.Text.Ansi

variable {cs xs ys : List Char} {start stop start' stop' place : Nat}

/-! ## 1. Places -/

/-- There is a code in a text from one place up to another. -/
def Occurs (cs : List Char) (start stop : Nat) : Prop :=
  ∃ front : List Char, ∃ colour : Code, front ++ colour.text <+: cs ∧ front.length = start
    ∧ start + colour.text.length = stop

/-- A character lies in a code. -/
def InCode (cs : List Char) (place : Nat) : Prop :=
  ∃ start stop, Occurs cs start stop ∧ start ≤ place ∧ place < stop

/-- No code lies across the place where two texts meet. -/
def IsSeam (xs ys : List Char) : Prop :=
  ∀ start stop, Occurs (xs ++ ys) start stop → stop ≤ xs.length ∨ xs.length ≤ start

/-- The characters of a text at all places but some, in order. -/
def outside (dropped : Nat → Prop) [DecidablePred dropped] (cs : List Char) : List Char :=
  (cs.zipIdx.filter fun row => ¬ dropped row.2).map Prod.fst

/-! ## 2. Places can be looked for -/

/-- Whether a text is one code can be seen at its ends. -/
theorem exists_code_iff {text : List Char} :
    (∃ colour : Code, text = colour.text) ↔
      text.take 2 = [escape, '['] ∧ (text.drop 2).getLast? = some 'm'
        ∧ (text.drop 2).dropLast.all isParameter = true := by
  constructor
  · rintro ⟨colour, rfl⟩
    refine ⟨rfl, ?_, ?_⟩
    · simp [Code.text]
    · simpa [Code.text] using colour.isParameter_of_mem
  · rintro ⟨hfront, hend, hparameters⟩
    have hinner : (text.drop 2).dropLast ++ ['m'] = text.drop 2 :=
      List.dropLast_append_getLast? _ hend
    refine ⟨⟨(text.drop 2).dropLast, List.all_eq_true.mp hparameters⟩, ?_⟩
    calc text = text.take 2 ++ text.drop 2 := (List.take_append_drop 2 text).symm
      _ = [escape, '['] ++ ((text.drop 2).dropLast ++ ['m']) := by rw [hfront, hinner]

theorem occurs_iff_slice :
    Occurs cs start stop ↔
      start ≤ stop ∧ stop ≤ cs.length ∧ ∃ colour : Code, (cs.take stop).drop start = colour.text := by
  constructor
  · rintro ⟨front, colour, ⟨behind, rfl⟩, rfl, rfl⟩
    refine ⟨Nat.le_add_right .., by simp, colour, ?_⟩
    rw [← List.length_append, List.take_left, List.drop_left]
  · rintro ⟨hle, hlength, colour, hslice⟩
    have hstart : (cs.take start).length = start := by
      rw [List.length_take]
      omega
    refine ⟨cs.take start, colour, ?_, hstart, ?_⟩
    · have hfront : cs.take start = (cs.take stop).take start := by
        rw [List.take_take, Nat.min_eq_left hle]
      rw [hfront, ← hslice, List.take_append_drop]
      exact List.take_prefix stop cs
    · rw [← hslice, List.length_drop, List.length_take]
      omega

instance (cs : List Char) (start stop : Nat) : Decidable (Occurs cs start stop) :=
  decidable_of_iff
    (start ≤ stop ∧ stop ≤ cs.length ∧ ((cs.take stop).drop start).take 2 = [escape, '[']
      ∧ (((cs.take stop).drop start).drop 2).getLast? = some 'm'
      ∧ (((cs.take stop).drop start).drop 2).dropLast.all isParameter = true)
    (by rw [occurs_iff_slice, exists_code_iff])

theorem Occurs.stop_le (h : Occurs cs start stop) : stop ≤ cs.length :=
  (occurs_iff_slice.mp h).2.1

instance (cs : List Char) : DecidablePred (InCode cs) := fun place =>
  decidable_of_iff
    (((List.range (place + 1)).any fun start => (List.range (cs.length + 1)).any fun stop =>
      decide (Occurs cs start stop) && decide (place < stop)) = true) (by
    simp only [List.any_eq_true, List.mem_range, Bool.and_eq_true, decide_eq_true_eq,
      Nat.lt_succ_iff]
    constructor
    · rintro ⟨start, hstart, stop, -, hoccurs, hstop⟩
      exact ⟨start, stop, hoccurs, hstart, hstop⟩
    · rintro ⟨start, stop, hoccurs, hstart, hstop⟩
      exact ⟨start, hstart, stop, hoccurs.stop_le, hoccurs, hstop⟩)

/-! ## 3. Two codes of a text -/

/-- Within a code there is no `ESC` but its first character. -/
theorem ne_escape_of_mem_tail {colour : Code} {c : Char} (h : c ∈ colour.text.tail) :
    c ≠ escape := by
  simp only [Code.text, List.tail_cons, List.mem_cons, List.mem_append, List.not_mem_nil,
    or_false] at h
  rintro rfl
  rcases h with h | h | h
  · cases h
  · exact absurd (colour.isParameter_of_mem _ h) (by decide)
  · cases h

/-- How far a code goes is settled by where it begins. -/
theorem length_text_unique {colour other : Code} {behind behind' : List Char}
    (h : colour.text ++ behind = other.text ++ behind') :
    colour.text.length = other.text.length := by
  have htail : '[' :: (colour.parameters ++ 'm' :: behind) =
      '[' :: (other.parameters ++ 'm' :: behind') := by
    simpa [Code.text] using h
  have hbehind : behind = behind' := by
    have := afterCode?_parameters colour behind
    rw [htail, afterCode?_parameters other behind'] at this
    exact (Option.some.inj this).symm
  subst hbehind
  exact congrArg List.length (List.append_cancel_right h)

theorem Occurs.stop_unique (h : Occurs cs start stop) (h' : Occurs cs start stop') :
    stop = stop' := by
  obtain ⟨front, colour, ⟨behind, hcs⟩, hlength, rfl⟩ := h
  obtain ⟨front', other, ⟨behind', hcs'⟩, hlength', rfl⟩ := h'
  rw [List.append_assoc] at hcs hcs'
  have hsplit := List.append_inj (hcs.trans hcs'.symm) (hlength.trans hlength'.symm)
  rw [length_text_unique hsplit.2]

theorem Occurs.getElem?_start (h : Occurs cs start stop) : cs[start]? = some escape := by
  obtain ⟨front, colour, ⟨behind, rfl⟩, rfl, -⟩ := h
  simp [Code.text]

theorem Occurs.getElem?_ne_escape (h : Occurs cs start stop) (hstart : start < place)
    (hstop : place < stop) : cs[place]? ≠ some escape := by
  obtain ⟨front, colour, ⟨behind, rfl⟩, rfl, rfl⟩ := h
  obtain ⟨offset, rfl⟩ := Nat.exists_eq_add_of_lt hstart
  have hinside : offset < colour.text.tail.length := by
    rw [List.length_tail]
    omega
  have hat : (front ++ colour.text ++ behind)[front.length + offset + 1]? =
      some colour.text.tail[offset] := by
    rw [List.append_assoc, Nat.add_assoc, List.getElem?_append_right (Nat.le_add_right ..),
      Nat.add_sub_cancel_left, List.getElem?_append_left (by omega), ← List.getElem?_tail,
      List.getElem?_eq_getElem hinside]
  rw [hat]
  intro hescape
  exact ne_escape_of_mem_tail (List.getElem_mem hinside) (Option.some.inj hescape)

/-- Two codes of a text are the same, or one of them ends before the other begins. -/
theorem Occurs.eq_or_apart (h : Occurs cs start stop) (h' : Occurs cs start' stop') :
    (start = start' ∧ stop = stop') ∨ stop ≤ start' ∨ stop' ≤ start := by
  rcases Nat.lt_trichotomy start start' with hlt | rfl | hlt
  · by_contra hshared
    exact h.getElem?_ne_escape hlt (by omega) h'.getElem?_start
  · exact .inl ⟨rfl, h.stop_unique h'⟩
  · by_contra hshared
    exact h'.getElem?_ne_escape hlt (by omega) h.getElem?_start

/-! ## 4. Texts behind each other -/

theorem Occurs.append_left (h : Occurs xs start stop) (ys : List Char) :
    Occurs (xs ++ ys) start stop := by
  obtain ⟨front, colour, hprefix, hstart, hstop⟩ := h
  exact ⟨front, colour, hprefix.trans (List.prefix_append xs ys), hstart, hstop⟩

theorem Occurs.append_right (h : Occurs ys start stop) (xs : List Char) :
    Occurs (xs ++ ys) (xs.length + start) (xs.length + stop) := by
  obtain ⟨front, colour, hprefix, rfl, rfl⟩ := h
  refine ⟨xs ++ front, colour, ?_, by simp, by omega⟩
  rw [List.append_assoc]
  exact (List.prefix_append_right_inj xs).mpr hprefix

/-- A code that ends in the first text is a code of the first text. -/
theorem Occurs.of_append_left (h : Occurs (xs ++ ys) start stop) (hstop : stop ≤ xs.length) :
    Occurs xs start stop := by
  obtain ⟨front, colour, hprefix, rfl, rfl⟩ := h
  rw [← List.length_append] at hstop
  exact ⟨front, colour, List.prefix_of_prefix_length_le hprefix (List.prefix_append xs ys) hstop, rfl,
    rfl⟩

/-- A code that begins in the second text is a code of the second text. -/
theorem Occurs.of_append_right (h : Occurs (xs ++ ys) (xs.length + start) stop) :
    ∃ stop', Occurs ys start stop' ∧ stop = xs.length + stop' := by
  obtain ⟨front, colour, hprefix, hstart, rfl⟩ := h
  have hfront : xs <+: front :=
    List.prefix_of_prefix_length_le (List.prefix_append xs ys)
      ((List.prefix_append front colour.text).trans hprefix) (by omega)
  obtain ⟨rest, rfl⟩ := hfront
  rw [List.append_assoc, List.prefix_append_right_inj] at hprefix
  rw [List.length_append] at hstart
  exact ⟨start + colour.text.length, ⟨rest, colour, hprefix, by omega, rfl⟩, by omega⟩

theorem inCode_append_left_iff (h : IsSeam xs ys) (hplace : place < xs.length) :
    InCode (xs ++ ys) place ↔ InCode xs place := by
  constructor
  · rintro ⟨start, stop, hoccurs, hstart, hstop⟩
    have hend : stop ≤ xs.length := (h start stop hoccurs).resolve_right (by omega)
    exact ⟨start, stop, hoccurs.of_append_left hend, hstart, hstop⟩
  · rintro ⟨start, stop, hoccurs, hstart, hstop⟩
    exact ⟨start, stop, hoccurs.append_left ys, hstart, hstop⟩

theorem inCode_append_right_iff (h : IsSeam xs ys) :
    InCode (xs ++ ys) (xs.length + place) ↔ InCode ys place := by
  constructor
  · rintro ⟨start, stop, hoccurs, hstart, hstop⟩
    have hbegin : xs.length ≤ start := (h start stop hoccurs).resolve_left (by omega)
    obtain ⟨start, rfl⟩ := Nat.exists_eq_add_of_le hbegin
    obtain ⟨stop, hbehind, rfl⟩ := hoccurs.of_append_right
    exact ⟨start, stop, hbehind, by omega, by omega⟩
  · rintro ⟨start, stop, hoccurs, hstart, hstop⟩
    exact ⟨_, _, hoccurs.append_right xs, by omega, by omega⟩

theorem outside_congr {dropped dropped' : Nat → Prop} [DecidablePred dropped]
    [DecidablePred dropped'] (h : ∀ place < cs.length, dropped place ↔ dropped' place) :
    outside dropped cs = outside dropped' cs := by
  unfold outside
  congr 1
  refine List.filter_congr fun row hrow => ?_
  have hplace : row.2 < cs.length := by
    simpa using List.snd_lt_of_mem_zipIdx hrow
  simp [h row.2 hplace]

theorem outside_append (dropped : Nat → Prop) [DecidablePred dropped] (xs ys : List Char) :
    outside dropped (xs ++ ys) =
      outside dropped xs ++ outside (fun place => dropped (xs.length + place)) ys := by
  have hshift : ys.zipIdx xs.length = ys.zipIdx.map fun row => (row.1, xs.length + row.2) :=
    List.zipIdx_eq_map_add
  unfold outside
  rw [List.zipIdx_append, List.filter_append, List.map_append, Nat.zero_add, hshift,
    List.filter_map, List.map_map]
  rfl

theorem outside_inCode_append (h : IsSeam xs ys) :
    outside (InCode (xs ++ ys)) (xs ++ ys) = outside (InCode xs) xs ++ outside (InCode ys) ys := by
  rw [outside_append]
  congr 1
  · exact outside_congr fun place hplace => inCode_append_left_iff h hplace
  · exact outside_congr fun place _ => inCode_append_right_iff h

/-! ## 5. Taking codes out -/

theorem strip_escape_of_none {rest : List Char} (h : afterCode? rest = none) :
    strip (escape :: rest) = escape :: strip rest := by
  rw [strip, if_pos rfl]
  split
  · next hbehind =>
    rw [h] at hbehind
    cases hbehind
  · rfl

/-- Where reading a code ends, there was a code. -/
theorem exists_code_of_afterCode? {rest behind : List Char} (h : afterCode? rest = some behind) :
    ∃ colour : Code, escape :: rest = colour.text ++ behind := by
  unfold afterCode? at h
  split at h
  · next inner =>
    split at h
    · next tail htail =>
      obtain rfl := Option.some.inj h
      refine ⟨⟨inner.takeWhile isParameter, fun c hc => List.all_eq_true.mp List.all_takeWhile c hc⟩, ?_⟩
      have hinner : inner.takeWhile isParameter ++ 'm' :: tail = inner := by
        rw [← htail, List.takeWhile_append_dropWhile]
      simp [Code.text, hinner]
    · cases h
  · cases h

/-- No code begins with another character than `ESC`, and none with an `ESC` that starts none. -/
theorem isSeam_singleton {c : Char} {rest : List Char} (h : c = escape → afterCode? rest = none) :
    IsSeam [c] rest := by
  intro start stop hoccurs
  refine .inr (Nat.one_le_iff_ne_zero.mpr ?_)
  rintro rfl
  obtain ⟨front, colour, ⟨behind, hcs⟩, hfront, -⟩ := hoccurs
  obtain rfl := List.length_eq_zero_iff.mp hfront
  have hcode : escape :: '[' :: (colour.parameters ++ 'm' :: behind) = c :: rest := by
    simpa [Code.text] using hcs
  obtain ⟨rfl, rfl⟩ := List.cons.inj hcode
  rw [afterCode?_parameters colour behind] at h
  cases h rfl

/-- A code in front of a text shares nothing with the codes of the text. -/
theorem isSeam_code (colour : Code) (rest : List Char) : IsSeam colour.text rest := by
  intro start stop hoccurs
  have hfront : Occurs (colour.text ++ rest) 0 colour.text.length :=
    ⟨[], colour, List.prefix_append colour.text rest, rfl, Nat.zero_add _⟩
  rcases hfront.eq_or_apart hoccurs with ⟨-, heq⟩ | hapart | hapart
  · exact .inl (Nat.le_of_eq heq.symm)
  · exact .inr hapart
  · exact .inl (Nat.le_trans hapart (Nat.zero_le _))

theorem outside_inCode_singleton (c : Char) : outside (InCode [c]) [c] = [c] := by
  have hnone : ¬ InCode [c] 0 := by
    rintro ⟨start, stop, ⟨front, colour, hprefix, -, -⟩, -, -⟩
    have hshort := hprefix.length_le
    simp only [Code.text, List.length_append, List.length_cons, List.length_nil] at hshort
    omega
  simp [outside, hnone]

theorem outside_inCode_code (colour : Code) : outside (InCode colour.text) colour.text = [] := by
  have hself : Occurs colour.text 0 colour.text.length :=
    ⟨[], colour, List.prefix_rfl, rfl, Nat.zero_add _⟩
  simp only [outside, List.map_eq_nil_iff, List.filter_eq_nil_iff]
  intro row hrow
  have hplace : row.2 < colour.text.length := by
    simpa using List.snd_lt_of_mem_zipIdx hrow
  simp only [decide_not, Bool.not_eq_true', decide_eq_false_iff_not, not_not]
  exact ⟨0, colour.text.length, hself, Nat.zero_le _, hplace⟩

/-- Taking the codes out leaves the characters that lie in none of them. -/
theorem strip_eq_outside (cs : List Char) : strip cs = outside (InCode cs) cs := by
  have hchar {c : Char} {rest : List Char} (hnone : c = escape → afterCode? rest = none) :
      outside (InCode (c :: rest)) (c :: rest) = c :: outside (InCode rest) rest := by
    have happend := outside_inCode_append (isSeam_singleton hnone)
    rwa [outside_inCode_singleton] at happend
  induction cs using strip.induct with
  | case1 => rw [strip]; rfl
  | case2 rest behind hbehind ih =>
    obtain ⟨colour, hcs⟩ := exists_code_of_afterCode? hbehind
    rw [hcs, strip_code_append, ih, outside_inCode_append (isSeam_code colour behind),
      outside_inCode_code, List.nil_append]
  | case3 rest hnone ih => rw [strip_escape_of_none hnone, ih, hchar fun _ => hnone]
  | case4 c rest hc ih => rw [strip_cons_of_ne hc, ih, hchar fun h => absurd h hc]

/-- Texts behind each other lose what each of them loses. -/
theorem strip_append (h : IsSeam xs ys) : strip (xs ++ ys) = strip xs ++ strip ys := by
  rw [strip_eq_outside, strip_eq_outside, strip_eq_outside, outside_inCode_append h]

/-- In whatever order codes are looked for, and whatever is passed over because it meets one that was
found: if nothing is left to find, the same characters are gone. -/
theorem outside_found {found : List (Nat × Nat)} (hfound : ∀ code ∈ found, Occurs cs code.1 code.2)
    (hmet : ∀ start stop, Occurs cs start stop → ∃ code ∈ found, code.1 < stop ∧ start < code.2) :
    outside (fun place => ∃ code ∈ found, code.1 ≤ place ∧ place < code.2) cs =
      outside (InCode cs) cs := by
  refine outside_congr fun place _ => ⟨?_, ?_⟩
  · rintro ⟨code, hcode, hstart, hstop⟩
    exact ⟨code.1, code.2, hfound code hcode, hstart, hstop⟩
  · rintro ⟨start, stop, hoccurs, hstart, hstop⟩
    obtain ⟨code, hcode, hbefore, hbehind⟩ := hmet start stop hoccurs
    have hsame : code.1 = start ∧ code.2 = stop :=
      ((hfound code hcode).eq_or_apart hoccurs).resolve_right (by omega)
    exact ⟨code, hcode, hsame.1 ▸ hstart, hsame.2 ▸ hstop⟩

/-- A text without its codes is what stands outside of them, in order. Two codes are the same or have no
character in common, so it makes no difference in which order they are found, and a text may be cut
wherever no code is cut. -/
theorem stripString_drops_codes (s : String) :
    (stripString s).toList = outside (InCode s.toList) s.toList
      ∧ (∀ start stop start' stop', Occurs s.toList start stop → Occurs s.toList start' stop' →
          (start = start' ∧ stop = stop') ∨ stop ≤ start' ∨ stop' ≤ start)
      ∧ (∀ found : List (Nat × Nat), (∀ code ∈ found, Occurs s.toList code.1 code.2) →
          (∀ start stop, Occurs s.toList start stop →
            ∃ code ∈ found, code.1 < stop ∧ start < code.2) →
          outside (fun place => ∃ code ∈ found, code.1 ≤ place ∧ place < code.2) s.toList =
            (stripString s).toList)
      ∧ ∀ front behind : String, s = front ++ behind → IsSeam front.toList behind.toList →
          stripString s = stripString front ++ stripString behind := by
  have hstrip : (stripString s).toList = outside (InCode s.toList) s.toList := by
    rw [stripString, String.toList_ofList, strip_eq_outside]
  refine ⟨hstrip, ?_, ?_, ?_⟩
  · intro start stop start' stop' h h'
    exact h.eq_or_apart h'
  · intro found hfound hmet
    rw [hstrip, outside_found hfound hmet]
  · rintro front behind rfl hseam
    unfold stripString
    rw [String.toList_append, strip_append hseam, String.ofList_append]

/-- A code within an unfinished one is found, and what was unfinished stays. -/
example : stripString "a\x1b[1;\x1b[32mb\x1b\x1b[m\x1b[0" = "a\x1b[1;b\x1b\x1b[0" := by
  decide +kernel

/-- Cut within a code, a text keeps both parts of it. -/
example : stripString ("a\x1b[" ++ "1mb") = "ab"
    ∧ stripString "a\x1b[" ++ stripString "1mb" = "a\x1b[1mb" := by
  decide +kernel

end PublishOnce.Text.Ansi
