/-
PublishOnce.Proofs.Text.Utf8 — what is written as bytes is read back, and
nothing else is read.

Reading goes character by character, so it is enough that the bytes of one
character are read as this character, whatever follows them
(`next_encodeChar`). The four lengths of a character are four cases. In each
one the first byte announces the others (`lead_two`, `lead_three`, `lead_four`:
the ranges that are narrower than usual are the ones that real characters keep
to), and the payloads make up the code point.

The other way round the first byte says in which ranges the next ones are
(`of_lead_eq_multiple`), and these leave only the bytes of one character: what
is read as a character is what the character is written as
(`eq_encodeChar_append_of_next`). So bytes without an ill-formed part are those
of a text (`decode_eq_map_some_iff`), and the strict reading finds this text
(`decode?_eq_some_iff`).

The rest is about single bytes. Below `0x80` there are only the characters that
are bytes of their own, so a line feed among the bytes is a line feed in the
text. Such a byte completes nothing, and reading starts anew at it
(`decode_append`).
-/
import Mathlib.Data.List.Basic
import PublishOnce.Text.Utf8

namespace PublishOnce.Text.Utf8

/-! ## 1. First bytes -/

variable {n : Nat}

theorem lead_two (h1 : ¬ n < 0x80) (h2 : n < 0x800) :
    lead (0xC0 + n / 0x40) = .multiple (n / 0x40) 0x80 0xBF 0 := by
  unfold lead
  rw [if_neg (by omega), if_neg (by omega), if_pos (by omega), Nat.add_sub_cancel_left]

/-- Surrogates are no characters, so the second byte behind `ED` stays below `A0`. -/
theorem lead_three (h2 : ¬ n < 0x800) (h3 : n < 0x10000) (hvalid : n < 0xD800 ∨ 0xDFFF < n) :
    ∃ low high, lead (0xE0 + n / 0x1000) = .multiple (n / 0x1000) low high 1
      ∧ low ≤ 0x80 + n / 0x40 % 0x40 ∧ 0x80 + n / 0x40 % 0x40 ≤ high := by
  unfold lead
  rw [if_neg (by omega), if_neg (by omega), if_neg (by omega)]
  by_cases hlow : n / 0x1000 = 0
  · exact ⟨0xA0, 0xBF, by rw [if_pos (by omega), hlow], by omega, by omega⟩
  rw [if_neg (by omega)]
  by_cases hhigh : n / 0x1000 = 0x0D
  · exact ⟨0x80, 0x9F, by rw [if_pos (by omega), hhigh], by omega, by omega⟩
  · refine ⟨0x80, 0xBF, ?_, by omega, by omega⟩
    rw [if_neg (by omega), if_pos (by omega), Nat.add_sub_cancel_left]

/-- The last code point has the first byte `F4` and a second byte below `90`. -/
theorem lead_four (h3 : ¬ n < 0x10000) (h4 : n < 0x110000) :
    ∃ low high, lead (0xF0 + n / 0x40000) = .multiple (n / 0x40000) low high 2
      ∧ low ≤ 0x80 + n / 0x1000 % 0x40 ∧ 0x80 + n / 0x1000 % 0x40 ≤ high := by
  unfold lead
  rw [if_neg (by omega), if_neg (by omega), if_neg (by omega), if_neg (by omega),
    if_neg (by omega), if_neg (by omega)]
  by_cases hlow : n / 0x40000 = 0
  · exact ⟨0x90, 0xBF, by rw [if_pos (by omega), hlow], by omega, by omega⟩
  rw [if_neg (by omega)]
  by_cases hhigh : n / 0x40000 = 4
  · exact ⟨0x80, 0x8F, by rw [if_neg (by omega), if_pos (by omega), hhigh], by omega, by omega⟩
  · refine ⟨0x80, 0xBF, ?_, by omega, by omega⟩
    rw [if_pos (by omega), Nat.add_sub_cancel_left]

/-! ## 2. One character -/

section
variable {payload low high more : Nat} {byte : UInt8} {rest : List UInt8}

theorem complete_last (h : low ≤ byte.toNat ∧ byte.toNat ≤ high) :
    complete payload low high 0 (byte :: rest) =
      (some (Char.ofNat (payload * 64 + byte.toNat % 64)), rest) := by
  rw [complete, if_pos h]

theorem complete_more (h : low ≤ byte.toNat ∧ byte.toNat ≤ high) :
    complete payload low high (more + 1) (byte :: rest) =
      complete (payload * 64 + byte.toNat % 64) 0x80 0xBF more rest := by
  rw [complete, if_pos h]

end

theorem toNat_ofNat (h : n < 256) : (UInt8.ofNat n).toNat = n :=
  UInt8.toNat_ofNat_of_lt h

theorem toNat_isValid (c : Char) : c.toNat < 0xD800 ∨ 0xDFFF < c.toNat ∧ c.toNat < 0x110000 :=
  c.valid

/-- The bytes of a character are read as the character and nothing more. -/
theorem next_encodeChar (c : Char) (rest : List UInt8) :
    ∃ first more, encodeChar c = first :: more ∧ next first (more ++ rest) = (some c, rest) := by
  have hvalid := toNat_isValid c
  have hchar : Char.ofNat c.toNat = c := Char.ofNat_toNat c
  generalize hn : c.toNat = n at hvalid hchar
  unfold encodeChar
  simp only [hn]
  by_cases h1 : n < 0x80
  · refine ⟨_, _, if_pos h1, ?_⟩
    simp [next, lead, toNat_ofNat (show n < 256 by omega), h1, hchar]
  rw [if_neg h1]
  by_cases h2 : n < 0x800
  · refine ⟨_, _, if_pos h2, ?_⟩
    rw [next, toNat_ofNat (by omega), lead_two h1 h2]
    simp only [List.cons_append, List.nil_append]
    rw [complete_last (by rw [toNat_ofNat (by omega)]; omega), toNat_ofNat (by omega)]
    rw [show n / 64 * 64 + (128 + n / 1 % 64) % 64 = n by omega, hchar]
  rw [if_neg h2]
  by_cases h3 : n < 0x10000
  · refine ⟨_, _, if_pos h3, ?_⟩
    obtain ⟨low, high, hlead, hrange⟩ := lead_three h2 h3 (by omega)
    rw [next, toNat_ofNat (by omega), hlead]
    simp only [List.cons_append, List.nil_append]
    rw [complete_more (by rwa [toNat_ofNat (by omega)]), toNat_ofNat (by omega),
      complete_last (by rw [toNat_ofNat (by omega)]; omega), toNat_ofNat (by omega)]
    rw [show (n / 4096 * 64 + (128 + n / 64 % 64) % 64) * 64 + (128 + n / 1 % 64) % 64 = n by
      omega, hchar]
  · refine ⟨_, _, if_neg h3, ?_⟩
    obtain ⟨low, high, hlead, hrange⟩ := lead_four h3 (by omega)
    rw [next, toNat_ofNat (by omega), hlead]
    simp only [List.cons_append, List.nil_append]
    rw [complete_more (by rwa [toNat_ofNat (by omega)]), toNat_ofNat (by omega),
      complete_more (by rw [toNat_ofNat (by omega)]; omega), toNat_ofNat (by omega),
      complete_last (by rw [toNat_ofNat (by omega)]; omega), toNat_ofNat (by omega)]
    rw [show ((n / 262144 * 64 + (128 + n / 4096 % 64) % 64) * 64 + (128 + n / 64 % 64) % 64) * 64
      + (128 + n / 1 % 64) % 64 = n by omega, hchar]

theorem decode_encodeChar (c : Char) (rest : List UInt8) :
    decode (encodeChar c ++ rest) = some c :: decode rest := by
  obtain ⟨first, more, hbytes, hnext⟩ := next_encodeChar c rest
  rw [hbytes, List.cons_append, decode, hnext]

/-! ## 3. What was read -/

section
variable {payload low high more : Nat} {bytes rest : List UInt8} {byte : UInt8} {c : Char}

theorem eq_cons_of_complete_last (h : complete payload low high 0 bytes = (some c, rest)) :
    ∃ byte, bytes = byte :: rest ∧ low ≤ byte.toNat ∧ byte.toNat ≤ high
      ∧ c = Char.ofNat (payload * 64 + byte.toNat % 64) := by
  cases bytes with
  | nil => cases h
  | cons byte behind =>
    rw [complete] at h
    split at h
    · next hrange =>
      obtain ⟨hchar, rfl⟩ := Prod.mk.inj h
      exact ⟨byte, rfl, hrange.1, hrange.2, (Option.some.inj hchar).symm⟩
    · cases h

theorem eq_cons_of_complete_more (h : complete payload low high (more + 1) bytes = (some c, rest)) :
    ∃ byte behind, bytes = byte :: behind ∧ low ≤ byte.toNat ∧ byte.toNat ≤ high
      ∧ complete (payload * 64 + byte.toNat % 64) 0x80 0xBF more behind = (some c, rest) := by
  cases bytes with
  | nil => cases h
  | cons byte behind =>
    rw [complete] at h
    split at h
    · next hrange => exact ⟨byte, behind, rfl, hrange.1, hrange.2, h⟩
    · cases h

/-- What a first byte promises, by the number of the bytes behind it. -/
theorem of_lead_eq_multiple (h : lead n = .multiple payload low high more) :
    (more = 0 ∧ n = 0xC0 + payload ∧ 2 ≤ payload ∧ payload < 0x20 ∧ low = 0x80 ∧ high = 0xBF)
      ∨ (more = 1 ∧ n = 0xE0 + payload ∧ payload < 0x10 ∧ 0x80 ≤ low ∧ high ≤ 0xBF
        ∧ (payload = 0 → low = 0xA0) ∧ (payload = 0x0D → high = 0x9F))
      ∨ (more = 2 ∧ n = 0xF0 + payload ∧ payload ≤ 4 ∧ 0x80 ≤ low ∧ high ≤ 0xBF
        ∧ (payload = 0 → low = 0x90) ∧ (payload = 4 → high = 0x8F)) := by
  unfold lead at h
  -- One case for each row of the table; those of one byte, or of none, promise nothing.
  split at h
  · simp at h
  iterate 8
    split at h
    · simp only [Lead.multiple.injEq, reduceCtorEq] at h <;> omega
  simp at h

theorem lt_of_lead_eq_single (h : lead n = .single) : n < 0x80 := by
  by_contra hhigh
  unfold lead at h
  rw [if_neg hhigh] at h
  iterate 8
    split at h
    · cases h
  cases h

theorem toNat_charOfNat (h : n < 0xD800 ∨ 0xDFFF < n ∧ n < 0x110000) : (Char.ofNat n).toNat = n := by
  unfold Char.ofNat
  rw [dif_pos h]
  rfl

theorem ofNat_eq_of_toNat (byte : UInt8) (h : byte.toNat = n) : UInt8.ofNat n = byte := by
  rw [← h, UInt8.ofNat_toNat]

/-- What is read as a character are the bytes of the character. -/
theorem eq_encodeChar_append_of_next {first : UInt8} (h : next first bytes = (some c, rest)) :
    first :: bytes = encodeChar c ++ rest := by
  unfold next at h
  split at h
  · next hlead =>
    have hlow := lt_of_lead_eq_single hlead
    obtain ⟨hchar, rfl⟩ := Prod.mk.inj h
    obtain rfl := Option.some.inj hchar
    unfold encodeChar
    rw [toNat_charOfNat (by omega)]
    simp only [if_pos hlow, UInt8.ofNat_toNat, List.singleton_append]
  · next payload low high more hlead =>
    rcases of_lead_eq_multiple hlead with ⟨rfl, hfirst, hrest⟩ | ⟨rfl, hfirst, hrest⟩ |
      ⟨rfl, hfirst, hrest⟩
    · obtain ⟨second, rfl, hlow, hhigh, rfl⟩ := eq_cons_of_complete_last h
      unfold encodeChar
      rw [toNat_charOfNat (by omega)]
      simp only
      rw [if_neg (by omega), if_pos (by omega), ofNat_eq_of_toNat first (by omega),
        ofNat_eq_of_toNat second (by omega)]
      rfl
    · obtain ⟨second, behind, rfl, hlow, hhigh, hmore⟩ := eq_cons_of_complete_more h
      obtain ⟨third, rfl, hlow', hhigh', rfl⟩ := eq_cons_of_complete_last hmore
      unfold encodeChar
      rw [toNat_charOfNat (by omega)]
      simp only
      rw [if_neg (by omega), if_neg (by omega), if_pos (by omega), ofNat_eq_of_toNat first (by omega),
        ofNat_eq_of_toNat second (by omega), ofNat_eq_of_toNat third (by omega)]
      rfl
    · obtain ⟨second, behind, rfl, hlow, hhigh, hmore⟩ := eq_cons_of_complete_more h
      obtain ⟨third, behind, rfl, hlow', hhigh', hmore⟩ := eq_cons_of_complete_more hmore
      obtain ⟨fourth, rfl, hlow'', hhigh'', rfl⟩ := eq_cons_of_complete_last hmore
      unfold encodeChar
      rw [toNat_charOfNat (by omega)]
      simp only
      rw [if_neg (by omega), if_neg (by omega), if_neg (by omega), ofNat_eq_of_toNat first (by omega),
        ofNat_eq_of_toNat second (by omega), ofNat_eq_of_toNat third (by omega),
        ofNat_eq_of_toNat fourth (by omega)]
      rfl
  · cases h

/-- A byte that is a character of its own completes no other. -/
theorem complete_append (hbyte : byte.toNat < 0x80) (hlow : 0x80 ≤ low) (front rest : List UInt8) :
    complete payload low high more (front ++ byte :: rest) =
      ((complete payload low high more front).1,
        (complete payload low high more front).2 ++ byte :: rest) := by
  induction front generalizing payload low high more with
  | nil =>
    have hstops : ¬ (low ≤ byte.toNat ∧ byte.toNat ≤ high) := by omega
    rw [List.nil_append, complete.eq_def]
    simp only [if_neg hstops]
    simp [complete]
  | cons first front ih =>
    rw [List.cons_append, complete.eq_def, complete.eq_def _ _ _ _ (first :: front)]
    simp only
    split
    · cases more with
      | zero => rfl
      | succ more => exact ih (Nat.le_refl _)
    · rfl

theorem next_append (hbyte : byte.toNat < 0x80) (first : UInt8) (front rest : List UInt8) :
    next first (front ++ byte :: rest) =
      ((next first front).1, (next first front).2 ++ byte :: rest) := by
  unfold next
  split
  · rfl
  · next payload low high more hlead =>
    have hlow : 0x80 ≤ low := by rcases of_lead_eq_multiple hlead with h | h | h <;> omega
    exact complete_append hbyte hlow front rest
  · rfl

theorem complete_suffix (payload low high more : Nat) (bytes : List UInt8) :
    (complete payload low high more bytes).2 <:+ bytes := by
  induction bytes generalizing payload low high more with
  | nil => simp [complete]
  | cons byte rest ih =>
    rw [complete.eq_def]
    simp only
    split
    · cases more with
      | zero => exact List.suffix_cons byte rest
      | succ more => exact (ih ..).trans (List.suffix_cons byte rest)
    · exact List.suffix_rfl

theorem next_suffix (first : UInt8) (bytes : List UInt8) : (next first bytes).2 <:+ bytes := by
  unfold next
  split
  · exact List.suffix_rfl
  · exact complete_suffix ..
  · exact List.suffix_rfl

end

/-! ## 4. Whole texts -/

theorem decode_flatMap_encodeChar (cs : List Char) (rest : List UInt8) :
    decode (cs.flatMap encodeChar ++ rest) = cs.map some ++ decode rest := by
  induction cs with
  | nil => rfl
  | cons c cs ih =>
    rw [List.flatMap_cons, List.append_assoc, decode_encodeChar, ih]
    rfl

/-- Bytes of which no part is ill-formed are those of the text that is read. -/
theorem decode_eq_map_some_iff {bytes : List UInt8} {cs : List Char} :
    decode bytes = cs.map some ↔ bytes = cs.flatMap encodeChar := by
  constructor
  · intro h
    induction bytes using decode.induct generalizing cs with
    | case1 =>
      rw [decode] at h
      obtain rfl := List.map_eq_nil_iff.mp h.symm
      rfl
    | case2 first bytes ih =>
      rw [decode] at h
      obtain ⟨c, rest, rfl, hc, hrest⟩ := List.map_eq_cons_iff.mp h.symm
      rw [List.flatMap_cons, ← ih hrest.symm]
      exact eq_encodeChar_append_of_next (Prod.ext hc.symm rfl)
  · rintro rfl
    have hdecode := decode_flatMap_encodeChar cs []
    rwa [List.append_nil, decode, List.append_nil] at hdecode

theorem mapM_id_eq_some_iff {read : List (Option Char)} {cs : List Char} :
    read.mapM id = some cs ↔ read = cs.map some := by
  induction read generalizing cs with
  | nil => cases cs <;> simp
  | cons c read ih =>
    rw [List.mapM_cons]
    cases c with
    | none => cases cs <;> simp
    | some c => cases cs <;> simp [Option.bind_eq_some_iff, ih, and_comm]

/-- The strict reading takes what a text is written as, and gives this text. -/
theorem decode?_eq_some_iff {bytes : List UInt8} {text : String} :
    decode? bytes = some text ↔ bytes = encode text := by
  rw [decode?, Option.map_eq_some_iff]
  constructor
  · rintro ⟨cs, hread, rfl⟩
    rw [encode, String.toList_ofList]
    exact decode_eq_map_some_iff.mp (mapM_id_eq_some_iff.mp hread)
  · intro h
    exact ⟨text.toList, mapM_id_eq_some_iff.mpr (decode_eq_map_some_iff.mpr h), String.ofList_toList⟩

/-- Reading starts anew at a byte that is a character of its own. -/
theorem decode_append {byte : UInt8} (hbyte : byte.toNat < 0x80) (front rest : List UInt8) :
    decode (front ++ byte :: rest) = decode front ++ some (Char.ofNat byte.toNat) :: decode rest := by
  induction front using decode.induct with
  | case1 =>
    have hnext : next byte rest = (some (Char.ofNat byte.toNat), rest) := by
      unfold next lead
      rw [if_pos hbyte]
    have hread : decode (byte :: rest) = some (Char.ofNat byte.toNat) :: decode rest := by
      rw [decode, hnext]
    rw [List.nil_append, hread, decode, List.nil_append]
  | case2 first front ih =>
    rw [List.cons_append, decode, next_append hbyte, decode, ih, List.cons_append]

/-- A character that is read is among the bytes. -/
theorem encodeChar_subset_of_mem_decode {bytes : List UInt8} {c : Char}
    (h : some c ∈ decode bytes) : encodeChar c ⊆ bytes := by
  induction bytes using decode.induct with
  | case1 =>
    rw [decode] at h
    cases h
  | case2 first bytes ih =>
    rw [decode, List.mem_cons] at h
    rcases h with h | h
    · rw [eq_encodeChar_append_of_next (Prod.ext h.symm rfl)]
      exact List.subset_append_left ..
    · intro byte hbyte
      exact List.mem_cons_of_mem _ ((next_suffix first bytes).subset (ih h hbyte))

/-- The lenient reading of a text that was written as bytes is the text. -/
theorem decodeLossy_encode (s : String) : decodeLossy (encode s) = s := by
  have hdecode := decode_flatMap_encodeChar s.toList []
  rw [List.append_nil, decode, List.append_nil] at hdecode
  unfold decodeLossy encode
  rw [hdecode, List.map_map]
  simp [Function.comp_def]

theorem encode_append (s t : String) : encode (s ++ t) = encode s ++ encode t := by
  unfold encode
  rw [String.toList_append, List.flatMap_append]

/-- Among the bytes of a character there is a byte below `0x80` only if it is the character. -/
theorem eq_ofNat_of_mem_encodeChar {c : Char} {byte : UInt8} (hlow : byte.toNat < 0x80)
    (h : byte ∈ encodeChar c) : c = Char.ofNat byte.toNat := by
  have hunit : ∀ m, byte = UInt8.ofNat m → m < 256 → byte.toNat = m := fun m hm hlt => by
    rw [hm, toNat_ofNat hlt]
  have hvalid := toNat_isValid c
  have hchar : Char.ofNat c.toNat = c := Char.ofNat_toNat c
  generalize hn : c.toNat = n at hvalid hchar
  unfold encodeChar at h
  simp only [hn] at h
  split at h
  · rw [hunit n (by simpa using h) (by omega), hchar]
  · exfalso
    split at h
    · simp only [List.mem_cons, List.not_mem_nil, or_false] at h
      rcases h with h | h <;> have := hunit _ h (by omega) <;> omega
    · split at h <;> simp only [List.mem_cons, List.not_mem_nil, or_false] at h
      · rcases h with h | h | h <;> have := hunit _ h (by omega) <;> omega
      · rcases h with h | h | h | h <;> have := hunit _ h (by omega) <;> omega

theorem mem_of_mem_encode {s : String} {byte : UInt8} (hlow : byte.toNat < 0x80)
    (h : byte ∈ encode s) : Char.ofNat byte.toNat ∈ s.toList := by
  unfold encode at h
  obtain ⟨c, hc, hbyte⟩ := List.mem_flatMap.mp h
  rwa [← eq_ofNat_of_mem_encodeChar hlow hbyte]

/-- A last byte below `0x80` is the last character. -/
theorem getLast?_of_getLast?_encode {s : String} {byte : UInt8} (hlow : byte.toNat < 0x80)
    (h : (encode s).getLast? = some byte) : s.toList.getLast? = some (Char.ofNat byte.toNat) := by
  unfold encode at h
  rcases List.eq_nil_or_concat s.toList with hnil | ⟨front, c, hconcat⟩
  · rw [hnil] at h
    cases h
  · obtain ⟨first, more, hbytes, -⟩ := next_encodeChar c []
    rw [hconcat, List.concat_eq_append, List.flatMap_append, List.flatMap_singleton,
      List.getLast?_append_of_ne_nil _ (by simp [hbytes])] at h
    rw [hconcat, List.concat_eq_append, List.getLast?_concat,
      eq_ofNat_of_mem_encodeChar hlow (List.mem_of_mem_getLast? h)]

end PublishOnce.Text.Utf8
