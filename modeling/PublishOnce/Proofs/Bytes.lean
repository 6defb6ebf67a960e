/-
PublishOnce.Proofs.Bytes — bytes that are text, and what is shown of others.

A text is shown as it is, so different texts have different bytes. Of bytes that
are no text something is lost, and that they are text can be told from what is
shown of them: it has the same bytes again (`isText_iff`).

A character of ASCII is one byte, and this byte is no part of any other
character. So it is shown exactly where it stands (`mem_toText_iff`), and bytes
may be cut there: both parts are shown by themselves (`toText_append`), and both
must be text for the whole to be text (`isText_append_iff`).
-/
import PublishOnce.Bytes
import PublishOnce.Proofs.Text.Pieces
import PublishOnce.Proofs.Text.Utf8

namespace PublishOnce.Bytes

open Text.Utf8 (decode encodeChar)

variable {text other : String} {bytes front rest : Bytes} {byte : UInt8}

/-! ## 1. Text -/

@[simp] theorem toText_ofString (text : String) : toText text = text :=
  Text.Utf8.decodeLossy_encode text

@[simp] theorem ofString_inj : ofString text = ofString other ↔ text = other := by
  constructor
  · intro h
    rw [← toText_ofString text, h, toText_ofString]
  · exact congrArg ofString

theorem ofString_append (text other : String) : ofString (text ++ other) = ofString text ++ other :=
  Text.Utf8.encode_append text other

/-- Bytes that a text is written as. -/
def IsText (bytes : Bytes) : Prop := ∃ text : String, bytes = text

theorem isText_ofString (text : String) : IsText text := ⟨text, rfl⟩

theorem isText_iff : bytes.IsText ↔ ofString bytes.toText = bytes := by
  constructor
  · rintro ⟨text, rfl⟩
    rw [toText_ofString]
  · intro h
    exact ⟨_, h.symm⟩

instance (bytes : Bytes) : Decidable bytes.IsText := decidable_of_iff _ isText_iff.symm

theorem text?_eq_some_iff : text? bytes = some text ↔ bytes = text :=
  Text.Utf8.decode?_eq_some_iff

@[simp] theorem text?_ofString (text : String) : text? text = some text := text?_eq_some_iff.mpr rfl

/-- What is shown of bytes is all that there is to them if they are text. -/
theorem eq_of_toText_eq {bytes other : Bytes} (h : bytes.IsText) (hother : other.IsText)
    (hshown : bytes.toText = other.toText) : bytes = other := by
  rw [← isText_iff.mp h, ← isText_iff.mp hother, hshown]

theorem isText_iff_decode : bytes.IsText ↔ none ∉ decode bytes := by
  constructor
  · rintro ⟨text, rfl⟩
    have hdecode : decode (ofString text) = text.toList.map some :=
      Text.Utf8.decode_eq_map_some_iff.mpr rfl
    simp [hdecode]
  · intro h
    have hsome : decode bytes = ((decode bytes).map (·.getD 'x')).map some := by
      rw [List.map_map]
      refine (List.map_id _).symm.trans (List.map_congr_left ?_)
      rintro (_ | c) hmem
      · exact absurd hmem h
      · rfl
    refine ⟨String.ofList ((decode bytes).map (·.getD 'x')), ?_⟩
    exact (Text.Utf8.decode_eq_map_some_iff.mp hsome).trans (by simp [ofString, Text.Utf8.encode])

/-! ## 2. Bytes that are characters -/

theorem toText_append (hbyte : byte.toNat < 0x80) (front rest : Bytes) :
    toText (front ++ byte :: rest) =
      toText front ++ String.singleton (Char.ofNat byte.toNat) ++ toText rest := by
  rw [← String.toList_inj]
  simp [toText, Text.Utf8.decodeLossy, Text.Utf8.decode_append hbyte]

theorem toText_cons (hbyte : byte.toNat < 0x80) (rest : Bytes) :
    toText (byte :: rest) = String.singleton (Char.ofNat byte.toNat) ++ toText rest := by
  have hnil : toText [] = "" := toText_ofString ""
  have happend := toText_append hbyte [] rest
  rwa [List.nil_append, hnil, String.empty_append] at happend

theorem isText_append_iff (hbyte : byte.toNat < 0x80) :
    IsText (front ++ byte :: rest) ↔ front.IsText ∧ rest.IsText := by
  simp [isText_iff_decode, Text.Utf8.decode_append hbyte]

/-- A character of ASCII is seen exactly where its byte is. -/
theorem mem_toText_iff {c : Char} (hc : c.toNat < 0x80) :
    c ∈ bytes.toText.toList ↔ ofChar c ∈ bytes := by
  have hbyte : (ofChar c).toNat = c.toNat := Text.Utf8.toNat_ofNat (by omega)
  constructor
  · intro h
    have hread : some c ∈ decode bytes := by
      simp only [toText, Text.Utf8.decodeLossy, String.toList_ofList, List.mem_map] at h
      obtain ⟨read, hmem, hread⟩ := h
      cases read with
      | none =>
        subst hread
        have hreplaced : Text.Utf8.replacement.toNat < 0x80 := hc
        exact absurd hreplaced (by decide)
      | some d => exact (show d = c from hread) ▸ hmem
    refine Text.Utf8.encodeChar_subset_of_mem_decode hread ?_
    unfold encodeChar
    rw [if_pos hc]
    exact List.mem_singleton_self _
  · intro h
    obtain ⟨front, rest, rfl⟩ := List.append_of_mem h
    rw [toText_append (by omega), hbyte, Char.ofNat_toNat]
    simp

theorem mem_ofString_iff {c : Char} (hc : c.toNat < 0x80) :
    ofChar c ∈ ofString text ↔ c ∈ text.toList := by
  rw [← mem_toText_iff hc, toText_ofString]

end PublishOnce.Bytes
