/-
PublishOnce.Proofs.Repository.PackedSearch — searching by halves finds what
reading through would find.

The search looks at offsets and not at records, so the records are first laid
out over the bytes (`Spread`): at every offset stands the record that the
offset is in, and finding the beginning of a record from any offset in it is
what `recordStart_of_isRecord` is about. The layout is a list like any other,
and in an ordered list the halving comes to the last element that is not behind
the name (`halving_last`).

Both assumptions are needed, that everything can be read and that the promised
order is there. Nothing in the search would notice that they fail.
-/
import PublishOnce.Proofs.Repository.Bytes
import PublishOnce.Repository.Packed

namespace PublishOnce.Repository

/-! ## 1. Halving -/

section
variable {isBeyond : Nat → Bool} {first count total : Nat}

theorem halving_ne_nil : halving isBeyond first count ≠ [] := by
  unfold halving
  split <;> simp

theorem getLast?_halving (h : 1 < count) :
    (halving isBeyond first count).getLast? =
      (halving isBeyond (if isBeyond (first + count / 2) then first else first + count / 2)
        (count - count / 2)).getLast? := by
  rw [halving, if_pos h]
  exact List.getLast?_cons_of_ne_nil halving_ne_nil

/-- Only offsets of candidates are looked at. -/
theorem lt_of_mem_halving (hcount : 0 < count) {offset : Nat}
    (h : offset ∈ halving isBeyond first count) : offset < first + count := by
  induction first, count using halving.induct isBeyond with
  | case1 first count hmore middle ih =>
    rw [halving, if_pos hmore] at h
    rcases List.mem_cons.mp h with rfl | h
    · omega
    · have hlt := ih (by omega) h
      split at hlt <;> omega
  | case2 first count hone =>
    rw [halving, if_neg hone] at h
    obtain rfl := List.mem_singleton.mp h
    omega

/-- The last offset that is looked at is not beyond the aim, unless it is the very first one, and
all behind it are. -/
theorem halving_last
    (hmono : ∀ low high, low ≤ high → high < total → isBeyond low = true → isBeyond high = true)
    (hcount : 0 < count) (htotal : first + count ≤ total)
    (hfirst : first = 0 ∨ isBeyond first = false)
    (hbeyond : ∀ offset, first + count ≤ offset → offset < total → isBeyond offset = true) :
    ∃ last, (halving isBeyond first count).getLast? = some last ∧ last < total
      ∧ (last = 0 ∨ isBeyond last = false)
      ∧ ∀ offset, last < offset → offset < total → isBeyond offset = true := by
  induction first, count using halving.induct isBeyond with
  | case1 first count hmore middle ih =>
    rw [getLast?_halving hmore]
    by_cases hmiddle : isBeyond (first + count / 2) = true
    · simp only [middle, hmiddle, if_true, dite_true] at ih ⊢
      refine ih (by omega) (by omega) hfirst fun offset hle hlt => ?_
      exact hmono (first + count / 2) offset (by omega) hlt hmiddle
    · simp only [middle, hmiddle, if_false, dite_false, Bool.false_eq_true] at ih ⊢
      refine ih (by omega) (by omega) (.inr (by simp)) fun offset hle hlt => ?_
      exact hbeyond offset (by omega) hlt
  | case2 first count hone =>
    rw [halving, if_neg hone]
    exact ⟨first, rfl, by omega, hfirst, fun offset hlt => hbeyond offset (by omega)⟩

end

/-! ## 2. Where a record begins -/

/-- The bytes of one record: a line, and perhaps one more that starts with a caret. -/
inductive IsRecord : Bytes → Prop
  | single {line : Bytes} (start : line.head? ≠ some caret) (rest : Bytes.lineFeed ∉ line) :
      IsRecord (line ++ [Bytes.lineFeed])
  | double {line peeled : Bytes} (start : line.head? ≠ some caret) (rest : Bytes.lineFeed ∉ line)
      (more : Bytes.lineFeed ∉ peeled) :
      IsRecord (line ++ Bytes.lineFeed :: caret :: (peeled ++ [Bytes.lineFeed]))

theorem IsRecord.eq_concat {record : Bytes} (h : IsRecord record) :
    ∃ front, record = front ++ [Bytes.lineFeed] := by
  cases h with
  | @single line => exact ⟨line, rfl⟩
  | @double line peeled => exact ⟨line ++ Bytes.lineFeed :: caret :: peeled, by simp⟩

/-- Bytes that a line may begin behind. -/
def IsWhole (before : Bytes) : Prop := before = [] ∨ before.getLast? = some Bytes.lineFeed

theorem lineStart_append {before line rest : Bytes} (hbefore : IsWhole before)
    (hline : Bytes.lineFeed ∉ line) {count : Nat} (hcount : count ≤ line.length) :
    lineStart (before ++ (line ++ rest)) (before.length + count) = before.length := by
  have htake : (before ++ (line ++ rest)).take (before.length + count) =
      before ++ line.take count := by
    rw [List.take_append, List.take_of_length_le (by omega), Nat.add_sub_cancel_left,
      List.take_append_of_le_length hcount]
  have hfront : before.reverse.takeWhile (· ≠ Bytes.lineFeed) = [] := by
    rcases hbefore with rfl | hlast
    · rfl
    · rw [← List.head?_reverse] at hlast
      obtain ⟨tail, htail⟩ := List.head?_eq_some_iff.mp hlast
      rw [htail]
      simp
  unfold lineStart
  rw [htake, List.reverse_append, List.takeWhile_append_of_pos, hfront]
  · simp [hcount]
  · intro b hb
    have hmem : b ∈ line := List.mem_of_mem_take (List.mem_reverse.mp hb)
    exact decide_eq_true fun heq => hline (heq ▸ hmem)

theorem getElem?_length_append {before : Bytes} (rest : Bytes) :
    (before ++ rest)[before.length]? = rest.head? := by
  rw [List.getElem?_append_right (Nat.le_refl _), Nat.sub_self, List.head?_eq_getElem?]

/-- From every offset in the first line, its end included, the beginning of the line is found. -/
theorem recordStart_append {before line rest : Bytes} (hbefore : IsWhole before)
    (hstart : line.head? ≠ some caret) (hline : Bytes.lineFeed ∉ line) {count : Nat}
    (hcount : count ≤ line.length) :
    recordStart (before ++ (line ++ Bytes.lineFeed :: rest)) (before.length + count) =
      before.length := by
  have hhead : (line ++ Bytes.lineFeed :: rest).head? ≠ some caret := by
    cases line with
    | nil =>
      rw [List.nil_append, List.head?_cons]
      decide
    | cons b line => simpa using hstart
  unfold recordStart
  rw [lineStart_append hbefore hline hcount]
  simp only [getElem?_length_append, if_neg hhead]

/-- From every offset in a record the beginning of the record is found. -/
theorem recordStart_of_isRecord {before record rest : Bytes} (hbefore : IsWhole before)
    (hrecord : IsRecord record) {count : Nat} (hcount : count < record.length) :
    recordStart (before ++ (record ++ rest)) (before.length + count) = before.length := by
  cases hrecord with
  | single hstart hline =>
    rw [List.append_assoc, List.singleton_append]
    rw [List.length_append, List.length_singleton] at hcount
    exact recordStart_append hbefore hstart hline (by omega)
  | @double line peeled hstart hline hpeeled =>
    rw [List.append_assoc, List.cons_append]
    by_cases hle : count ≤ line.length
    · exact recordStart_append hbefore hstart hline hle
    · -- the second line: one step back from its beginning leads into the first one
      generalize hfirst : before ++ (line ++ [Bytes.lineFeed]) = first
      have hwhole : IsWhole first := by
        rw [← hfirst, ← List.append_assoc]
        exact .inr List.getLast?_concat
      have hlength : first.length = before.length + line.length + 1 := by
        rw [← hfirst]
        simp only [List.length_append, List.length_singleton]
        omega
      have hsplit : before ++ (line ++ Bytes.lineFeed ::
          (caret :: (peeled ++ [Bytes.lineFeed]) ++ rest)) =
          first ++ ((caret :: peeled) ++ Bytes.lineFeed :: rest) := by
        rw [← hfirst]
        simp
      have hno : Bytes.lineFeed ∉ caret :: peeled := by
        rw [List.mem_cons, not_or]
        exact ⟨by decide, hpeeled⟩
      have hin : count - line.length - 1 ≤ (caret :: peeled).length := by
        simp only [List.length_append, List.length_cons, List.length_nil] at hcount ⊢
        omega
      have hsecond : lineStart (first ++ ((caret :: peeled) ++ Bytes.lineFeed :: rest))
          (first.length + (count - line.length - 1)) = first.length :=
        lineStart_append hwhole hno hin
      rw [show first.length + (count - line.length - 1) = before.length + count by omega] at hsecond
      unfold recordStart
      rw [hsplit, hsecond]
      simp only [getElem?_length_append, List.cons_append, List.head?_cons, if_true]
      rw [show first.length - 1 = before.length + line.length by omega, ← List.cons_append,
        ← hsplit]
      exact lineStart_append hbefore hline (Nat.le_refl _)

/-! ## 3. Reading a record -/

theorem not_isHexDigit_lineFeed : Bytes.isHexDigit Bytes.lineFeed = false := by decide

/-- The line of an id that is taken off with its end. -/
theorem line_of_takeId {bytes rest rest' : Bytes} {id : Id} (h : takeId bytes = some (id, rest))
    (hend : Bytes.lineEnd? rest = some rest') :
    ∃ line, bytes = line ++ Bytes.lineFeed :: rest' ∧ Bytes.lineFeed ∉ line := by
  obtain ⟨digits, rfl, -, hdigits⟩ := eq_append_of_takeId h
  obtain ⟨front, rfl, hfront⟩ := Bytes.eq_append_of_lineEnd? hend
  refine ⟨digits ++ front, by simp, ?_⟩
  rw [List.mem_append, not_or]
  refine ⟨fun hmem => ?_, hfront⟩
  have := hdigits _ hmem
  rw [not_isHexDigit_lineFeed] at this
  cases this

theorem line_of_takePeeled {bytes rest : Bytes} {id : Id} (h : takePeeled bytes = some (id, rest)) :
    ∃ peeled, bytes = caret :: (peeled ++ Bytes.lineFeed :: rest) ∧ Bytes.lineFeed ∉ peeled := by
  obtain ⟨behind, hcaret, h⟩ := Option.bind_eq_some_iff.mp h
  obtain ⟨⟨id', afterId⟩, hid, h⟩ := Option.bind_eq_some_iff.mp h
  obtain ⟨rest', hend, h⟩ := Option.bind_eq_some_iff.mp h
  obtain ⟨rfl, rfl⟩ := Prod.mk.inj (Option.some.inj h)
  obtain ⟨peeled, rfl, hpeeled⟩ := line_of_takeId hid hend
  exact ⟨peeled, Bytes.eq_cons_of_strip? hcaret, hpeeled⟩

theorem line_of_takeLine {bytes name rest : Bytes} (h : takeLine bytes = some (name, rest)) :
    ∃ line, bytes = line ++ Bytes.lineFeed :: rest ∧ Bytes.lineFeed ∉ line := by
  obtain ⟨rest', hend, h⟩ := Option.bind_eq_some_iff.mp h
  obtain ⟨rfl, rfl⟩ := Prod.mk.inj (Option.some.inj h)
  obtain ⟨front, hrest, hfront⟩ := Bytes.eq_append_of_lineEnd? hend
  refine ⟨(Bytes.cut Bytes.isLineByte bytes).1 ++ front, ?_, ?_⟩
  · rw [List.append_assoc, ← hrest]
    exact Bytes.append_of_cut ..
  · rw [List.mem_append, not_or]
    refine ⟨fun hmem => ?_, hfront⟩
    have := Bytes.of_mem_cut hmem
    revert this
    decide

/-- What is taken off as a reference is a record. -/
theorem isRecord_of_takePacked {bytes rest : Bytes} {entry : Packed}
    (h : takePacked bytes = some (entry, rest)) :
    ∃ record, bytes = record ++ rest ∧ IsRecord record := by
  obtain ⟨⟨id, afterId⟩, hid, h⟩ := Option.bind_eq_some_iff.mp h
  obtain ⟨afterBlank, hblank, h⟩ := Option.bind_eq_some_iff.mp h
  obtain ⟨⟨name, afterLine⟩, hline, h⟩ := Option.bind_eq_some_iff.mp h
  obtain ⟨-, hentry⟩ := Option.ite_none_right_eq_some.mp h
  obtain ⟨digits, rfl, hne, hdigits⟩ := eq_append_of_takeId hid
  obtain rfl := Bytes.eq_cons_of_strip? hblank
  obtain ⟨line, rfl, hfeed⟩ := line_of_takeLine hline
  have hstart : (digits ++ Bytes.blank :: line).head? ≠ some caret := by
    cases digits with
    | nil => exact absurd rfl hne
    | cons b digits =>
      rw [List.cons_append, List.head?_cons]
      intro hcaret
      have := hdigits b List.mem_cons_self
      rw [Option.some.inj hcaret] at this
      revert this
      decide
  have hwhole : Bytes.lineFeed ∉ digits ++ Bytes.blank :: line := by
    rw [List.mem_append, List.mem_cons, not_or, not_or]
    refine ⟨fun hmem => ?_, by decide, hfeed⟩
    have := hdigits _ hmem
    rw [not_isHexDigit_lineFeed] at this
    cases this
  split at hentry
  · next peeled behind hpeeled =>
    obtain ⟨-, rfl⟩ := Prod.mk.inj (Option.some.inj hentry)
    obtain ⟨more, rfl, hmore⟩ := line_of_takePeeled hpeeled
    exact ⟨_, by simp, .double hstart hwhole hmore⟩
  · obtain ⟨-, rfl⟩ := Prod.mk.inj (Option.some.inj hentry)
    exact ⟨_, by simp, .single hstart hwhole⟩

/-! ## 4. Records over bytes -/

/-- References laid out over the bytes that they are read from: each one as often as its record has
bytes. -/
inductive Spread : List Packed → List Packed → Prop
  | nil : Spread [] []
  | cons (entry : Packed) (more : Nat) {entries spread : List Packed}
      (rest : Spread entries spread) :
      Spread (entry :: entries) (List.replicate (more + 1) entry ++ spread)

namespace Spread

variable {entries spread : List Packed}

theorem mem_of_mem (h : Spread entries spread) {entry : Packed} (hmem : entry ∈ spread) :
    entry ∈ entries := by
  induction h with
  | nil => exact hmem
  | cons first more rest ih =>
    rcases List.mem_append.mp hmem with hmem | hmem
    · exact (List.eq_of_mem_replicate hmem) ▸ List.mem_cons_self
    · exact List.mem_cons_of_mem _ (ih hmem)

/-- An order of the references is an order of the offsets. -/
theorem pairwise {R : Packed → Packed → Prop} (hrefl : ∀ entry, R entry entry)
    (h : Spread entries spread) (horder : entries.Pairwise R) : spread.Pairwise R := by
  induction h with
  | nil => exact horder
  | cons first more rest ih =>
    obtain ⟨hfirst, horder⟩ := List.pairwise_cons.mp horder
    refine List.pairwise_append.mpr ⟨?_, ih horder, ?_⟩
    · exact List.pairwise_replicate.mpr (.inr (hrefl first))
    · intro entry hentry other hother
      rw [List.eq_of_mem_replicate hentry]
      exact hfirst other (rest.mem_of_mem hother)

theorem find?_reverse (h : Spread entries spread) (p : Packed → Bool) :
    spread.reverse.find? p = entries.reverse.find? p := by
  induction h with
  | nil => rfl
  | cons first more rest ih =>
    rw [List.reverse_append, List.reverse_cons, List.find?_append, List.find?_append, ih,
      List.reverse_replicate]
    cases hp : p first with
    | true => rw [List.find?_replicate_of_pos hp, List.find?_cons_of_pos hp]; simp
    | false => simp [hp]

end Spread

/-- At every offset stands the reference that is read there. -/
theorem exists_spread {bound : Nat} {before bytes : Bytes} {entries : List Packed}
    (hbefore : IsWhole before) (h : packedEntries? bound bytes = some entries) :
    ∃ spread, Spread entries spread ∧ spread.length = bytes.length
      ∧ ∀ offset < bytes.length,
          recordAt? (before ++ bytes) (before.length + offset) = spread[offset]? := by
  induction bound generalizing before bytes entries with
  | zero =>
    obtain ⟨hempty, h⟩ := Option.ite_none_right_eq_some.mp h
    obtain rfl := Option.some.inj h
    obtain rfl := List.isEmpty_iff.mp hempty
    exact ⟨[], .nil, rfl, by simp⟩
  | succ bound ih =>
    unfold packedEntries? at h
    split at h
    · next hempty =>
      obtain rfl := Option.some.inj h
      obtain rfl := List.isEmpty_iff.mp hempty
      exact ⟨[], .nil, rfl, by simp⟩
    · obtain ⟨⟨entry, rest⟩, hentry, h⟩ := Option.bind_eq_some_iff.mp h
      obtain ⟨more, hmore, h⟩ := Option.bind_eq_some_iff.mp h
      obtain rfl := Option.some.inj h
      obtain ⟨record, rfl, hrecord⟩ := isRecord_of_takePacked hentry
      obtain ⟨front, hfront⟩ := hrecord.eq_concat
      have hwhole : IsWhole (before ++ record) := by
        rw [hfront, ← List.append_assoc]
        exact .inr List.getLast?_concat
      have hlast : record.length = front.length + 1 := by rw [hfront, List.length_append]; rfl
      obtain ⟨spread, hspread, hlength, hat⟩ := ih hwhole hmore
      refine ⟨_, .cons entry front.length hspread, ?_, fun offset hoffset => ?_⟩
      · rw [List.length_append, List.length_append, List.length_replicate, hlength, hlast]
      · rw [← hlast]
        rw [List.length_append] at hoffset
        by_cases hin : offset < record.length
        · -- in the first record
          rw [List.getElem?_append_left (by simpa using hin), List.getElem?_replicate_of_lt hin]
          unfold recordAt?
          rw [recordStart_of_isRecord hbefore hrecord hin, List.drop_left, hentry]
          rfl
        · -- in one of the others
          rw [List.getElem?_append_right (by simpa using hin), List.length_replicate,
            ← hat _ (by omega), List.append_assoc, List.length_append]
          congr 1
          omega

/-! ## 5. The search -/

/-- In an ordered list, an element with nothing but later names behind it is the last one of a name,
or there is none. -/
theorem find?_reverse_append {before behind : List Packed} {entry : Packed} {name : String}
    (horder : (before ++ entry :: behind).Pairwise fun one other => one.name ≤ other.name)
    (hnot : before = [] ∨ ¬ name < entry.name) (hbehind : ∀ other ∈ behind, name < other.name) :
    (before ++ entry :: behind).reverse.find? (fun other => other.name = name) =
      if entry.name = name then some entry else none := by
  have hnone : behind.reverse.find? (fun other => other.name = name) = none := by
    rw [List.find?_eq_none]
    intro other hother hsame
    have hlt := hbehind other (List.mem_reverse.mp hother)
    rw [of_decide_eq_true hsame] at hlt
    exact String.lt_irrefl name hlt
  rw [List.reverse_append, List.reverse_cons, List.append_assoc, List.find?_append, hnone,
    Option.none_or, List.singleton_append]
  by_cases hsame : entry.name = name
  · rw [if_pos hsame, List.find?_cons_of_pos (by simpa using hsame)]
  · rw [if_neg hsame, List.find?_cons_of_neg (by simpa using hsame), List.find?_eq_none]
    intro other hother hfound
    have hmem := List.mem_reverse.mp hother
    have hle : other.name ≤ entry.name :=
      (List.pairwise_append.mp horder).2.2 other hmem entry List.mem_cons_self
    rw [of_decide_eq_true hfound] at hle
    rcases hnot with rfl | hnot
    · cases hmem
    · exact hsame (String.le_antisymm (String.not_lt.mp hnot) hle)

/-- Where all can be read and is in order, the search finds what reading through would find: the last
reference of the name. -/
theorem searchOrdered_eq {bytes : Bytes} {entries : List Packed} (name : String)
    (hread : packedEntries? bytes.length bytes = some entries)
    (horder : entries.Pairwise fun one other => one.name ≤ other.name) :
    searchOrdered bytes name =
      .ok (entries.reverse.find? fun entry => entry.name = name) := by
  have hwhole : IsWhole [] := .inl rfl
  obtain ⟨spread, hspread, hlength, hat⟩ := exists_spread hwhole hread
  simp only [List.nil_append, List.length_nil, Nat.zero_add] at hat
  rw [← hspread.find?_reverse]
  have hsorted := hspread.pairwise (fun entry => String.le_refl entry.name) horder
  by_cases hempty : bytes = []
  · subst hempty
    obtain rfl := List.length_eq_zero_iff.mp hlength
    rfl
  have hpos : 0 < bytes.length := List.length_pos_iff.mpr hempty
  have hbehind : ∀ offset (h : offset < spread.length),
      isBehind bytes name offset = decide (name < spread[offset].name) := by
    intro offset h
    unfold isBehind
    rw [hat offset (by omega), List.getElem?_eq_getElem h]
    rfl
  have hmono : ∀ low high, low ≤ high → high < bytes.length →
      isBehind bytes name low = true → isBehind bytes name high = true := by
    intro low high hle hlt hlow
    rw [hbehind low (by omega), decide_eq_true_eq] at hlow
    rw [hbehind high (by omega), decide_eq_true_eq]
    rcases Nat.eq_or_lt_of_le hle with rfl | hless
    · exact hlow
    · have hge := List.pairwise_iff_getElem.mp hsorted low high (by omega) (by omega) hless
      exact String.not_le.mp fun h => String.not_le.mpr hlow (String.le_trans hge h)
  have hnone : ∀ offset, 0 + bytes.length ≤ offset → offset < bytes.length →
      isBehind bytes name offset = true := fun offset hle hlt => by omega
  obtain ⟨last, hlast, hlt, hfirst, hrest⟩ :=
    halving_last hmono hpos (Nat.le_of_eq (Nat.zero_add _)) (.inl rfl) hnone
  have hfound : recordAt? bytes last = some spread[last] := by
    rw [hat last hlt, List.getElem?_eq_getElem (by omega)]
  have hall : ((halving (isBehind bytes name) 0 bytes.length).map (recordAt? bytes)).contains none
      = false := by
    rw [Bool.eq_false_iff, Ne, List.contains_iff_mem, List.mem_map]
    rintro ⟨offset, hmem, hunread⟩
    have hoffset := lt_of_mem_halving hpos hmem
    rw [hat offset (by omega), List.getElem?_eq_none_iff] at hunread
    omega
  have hsplit : spread = spread.take last ++ spread[last] :: spread.drop (last + 1) := by
    rw [← List.drop_eq_getElem_cons, List.take_append_drop]
  have hanswer : spread.reverse.find? (fun entry => entry.name = name) =
      if spread[last].name = name then some spread[last] else none := by
    conv => lhs; rw [hsplit]
    refine find?_reverse_append (hsplit ▸ hsorted) ?_ fun other hother => ?_
    · rcases hfirst with rfl | hfirst
      · exact .inl rfl
      · rw [hbehind last (by omega), decide_eq_false_iff_not] at hfirst
        exact .inr hfirst
    · obtain ⟨i, hi, rfl⟩ := List.mem_iff_getElem.mp hother
      rw [List.length_drop] at hi
      have hlater := hrest (last + 1 + i) (by omega) (by omega)
      rw [hbehind _ (by omega), decide_eq_true_eq] at hlater
      rwa [List.getElem_drop]
  unfold searchOrdered
  rw [if_neg (by simpa using hempty)]
  simp only [List.getLast?_map, hlast, Option.map_some, hfound, Option.join_some]
  rw [hanswer, hall]
  split <;> rfl

end PublishOnce.Repository
