/-
PublishOnce.Proofs.Publication.Addresses — which addresses give a clone which
name.

`CloneName.base` cuts an address from its end. Here an address is put together
from its front instead: a lead, a part, perhaps a separator with the ending
behind it, and slashes that do not count. `Gives` says which part of such an
address gives the name, and `gives_iff` that the cutting finds just this part, so
that both questions about names are questions about how an address is put
together.

One of them is which addresses are spellings of a repository
(`cloneName_eq_iff_spells`). An ending behind the name, an ending as a part of its
own and slashes at the end come and go, in every combination. An address that
names nothing gives `remote.git`, so the answer has an exception: a repository
that is called `remote` shares its name with those.

The other is whether a clone can come to lie where a checkout keeps its own
`.git`. It can. A last part that is only the ending is passed over, but the part
in front of it is taken as it is, the ending once more (`EndsTwice`). These are
the only addresses for which nothing is left in front of the ending
(`clone_at_metadata_iff`).
-/
import Mathlib.Data.List.DropRight
import PublishOnce.Proofs.Publication.CloneName

namespace PublishOnce

namespace CloneName

variable {address lead part tail remote name : List Char} {separator : Char}

/-! ## 1. Addresses put together -/

/-- What may be in front of a part: nothing, or any text that ends in a separator. -/
def IsLead (lead : List Char) : Prop := ∀ c ∈ lead.getLast?, isSeparator c = true

/-- What may be left out at the end. -/
def IsTail (tail : List Char) : Prop := ∀ c ∈ tail, isTrailing c = true

theorem isLead_nil : IsLead [] := fun c hc => by cases hc

theorem isLead_concat (h : isSeparator separator = true) (front : List Char) :
    IsLead (front ++ [separator]) := by
  simpa [IsLead] using h

/-- A text is cut in front of the longest end of one kind. -/
theorem exists_cut (p : Char → Bool) (cs : List Char) :
    ∃ front back, cs = front ++ back ∧ (∀ c ∈ front.getLast?, p c = false)
      ∧ ∀ c ∈ back, p c = true := by
  refine ⟨cs.rdropWhile p, cs.rtakeWhile p, List.rdropWhile_append_rtakeWhile.symm, ?_, ?_⟩
  · intro c hc
    obtain ⟨hne, rfl⟩ := List.mem_getLast?_eq_getLast hc
    simpa using cs.rdropWhile_last_not p hne
  · exact fun c hc => List.mem_rtakeWhile_imp hc

theorem exists_lead (address : List Char) :
    ∃ lead part, address = lead ++ part ∧ IsLead lead ∧ IsPart part := by
  obtain ⟨lead, part, rfl, hlead, hpart⟩ := exists_cut (fun c => !isSeparator c) address
  exact ⟨lead, part, rfl, by simpa [IsLead] using hlead, by simpa [IsPart] using hpart⟩

/-! ## 2. Cutting what was put together -/

theorem dropTrailing_append (htail : IsTail tail) (address : List Char) :
    dropTrailing (address ++ tail) = dropTrailing address := by
  unfold dropTrailing
  rw [List.reverse_append, List.dropWhile_append_of_pos]
  exact fun c hc => htail c (List.mem_reverse.mp hc)

theorem dropTrailing_of_end (hend : ∀ c ∈ address.getLast?, isTrailing c = false) :
    dropTrailing address = address := by
  refine List.rdropWhile_eq_self_iff.mpr fun hne => ?_
  simp [hend _ (List.getLast?_eq_some_getLast hne)]

/-- A part ends in nothing that could be left out. -/
theorem not_isTrailing_of_isPart (hpart : IsPart part) (hne : part ≠ []) (lead : List Char) :
    ∀ c ∈ (lead ++ part).getLast?, isTrailing c = false := by
  intro c hc
  rw [List.getLast?_append_of_ne_nil _ hne] at hc
  have hplain := hpart c (List.mem_of_mem_getLast? hc)
  simp only [isSeparator, Bool.or_eq_false_iff] at hplain
  simp [isTrailing, hplain]

/-- The last part is the one behind the last separator. -/
theorem lastPart_append (hlead : IsLead lead) (hpart : IsPart part) :
    lastPart (lead ++ part) = (part, if lead.isEmpty then none else some lead.dropLast) := by
  have hlast : (lead ++ part).rtakeWhile (fun c => !isSeparator c) = part := by
    have hstop : lead.rtakeWhile (fun c => !isSeparator c) = [] :=
      List.rtakeWhile_eq_nil_iff.mpr fun hne => by
        simp [hlead _ (List.getLast?_eq_some_getLast hne)]
    unfold List.rtakeWhile at hstop ⊢
    rw [List.reverse_append, List.takeWhile_append_of_pos (by simpa [IsPart] using hpart),
      List.reverse_append, hstop, List.nil_append, List.reverse_reverse]
  have hfront : (lead ++ part).take ((lead ++ part).length - part.length) = lead := by
    rw [List.length_append, Nat.add_sub_cancel, List.take_left]
  unfold List.rtakeWhile at hlast
  unfold lastPart
  simp only [hlast, hfront]

/-! ## 3. The part that gives the name -/

/-- The part of an address that gives a clone its name: the last one, or the one in front of a last
part that is only the ending. There is none if the ending is all there is. -/
inductive Gives : List Char → List Char → Prop
  | last {lead part tail : List Char} (hlead : IsLead lead) (hpart : IsPart part)
      (hne : part ≠ ending) (hend : ∀ c ∈ (lead ++ part).getLast?, isTrailing c = false)
      (htail : IsTail tail) : Gives (lead ++ part ++ tail) part
  | before {lead part tail : List Char} {separator : Char} (hlead : IsLead lead)
      (hpart : IsPart part) (hseparator : isSeparator separator = true) (htail : IsTail tail) :
      Gives (lead ++ part ++ separator :: ending ++ tail) part
  | nothing {tail : List Char} (htail : IsTail tail) : Gives (ending ++ tail) []

theorem Gives.base_eq (h : Gives remote part) : base remote = part := by
  have hending (lead : List Char) : dropTrailing (lead ++ ending) = lead ++ ending :=
    dropTrailing_of_end (not_isTrailing_of_isPart isPart_ending (by decide) lead)
  unfold base
  cases h with
  | last hlead hpart hne hend htail =>
    rw [dropTrailing_append htail, dropTrailing_of_end hend, lastPart_append hlead hpart]
    exact if_neg hne
  | @before lead part tail separator hlead hpart hseparator htail =>
    have hsplit : lead ++ part ++ separator :: ending = lead ++ part ++ [separator] ++ ending := by
      simp
    rw [dropTrailing_append htail, hsplit, hending,
      lastPart_append (isLead_concat hseparator _) isPart_ending]
    simp [lastPart_append hlead hpart]
  | nothing htail =>
    have hwhole : dropTrailing ending = ending := hending []
    have hlast := lastPart_append isLead_nil isPart_ending
    rw [List.nil_append] at hlast
    rw [dropTrailing_append htail, hwhole, hlast]
    rfl

/-- Every address can be put together in this way. -/
theorem gives_base (remote : List Char) : Gives remote (base remote) := by
  suffices h : ∃ part, Gives remote part by
    obtain ⟨part, hpart⟩ := h
    exact hpart.base_eq.symm ▸ hpart
  obtain ⟨address, tail, rfl, hend, htail⟩ := exists_cut isTrailing remote
  obtain ⟨lead, part, rfl, hlead, hpart⟩ := exists_lead address
  by_cases hending : part = ending
  · subst hending
    rcases List.eq_nil_or_concat lead with rfl | ⟨front, separator, rfl⟩
    · exact ⟨[], .nothing htail⟩
    · obtain ⟨lead, part, rfl, hlead', hpart⟩ := exists_lead front
      have hseparator : isSeparator separator = true := hlead separator (by simp)
      refine ⟨part, ?_⟩
      simpa using Gives.before hlead' hpart hseparator htail
  · exact ⟨part, .last hlead hpart hending hend htail⟩

theorem gives_iff : Gives remote part ↔ base remote = part :=
  ⟨Gives.base_eq, fun h => h ▸ gives_base remote⟩

/-! ## 4. From the part to the name -/

/-- The ending is put behind a name unless it is there. -/
theorem withEnding_eq_iff {part : List Char} :
    withEnding part = name ++ ending ↔ part = name ++ ending ∨ part = name ∧ ¬ ending <:+ name := by
  unfold withEnding
  simp only [List.isSuffixOf_iff_suffix]
  constructor
  · intro h
    split at h
    · exact .inl h
    · next hbare =>
      obtain rfl := List.append_cancel_right h
      exact .inr ⟨rfl, hbare⟩
  · rintro (rfl | ⟨rfl, hbare⟩)
    · exact if_pos (List.suffix_append ..)
    · exact if_neg hbare

/-- Which address gives a name: the part has the ending already, or it has not and gets it, or there
is no part at all. -/
theorem ofChars_eq_iff :
    ofChars remote = name ++ ending ↔
      Gives remote (name ++ ending) ∨ (Gives remote name ∧ name ≠ [] ∧ ¬ ending <:+ name)
        ∨ Gives remote [] ∧ name = "remote".toList := by
  simp only [gives_iff]
  unfold ofChars
  by_cases hbase : base remote = []
  · have hfallback : withEnding "remote".toList = "remote".toList ++ ending := by decide +kernel
    have hne : ¬ [] = name ++ ending := by simp [ending]
    simp only [hbase, List.isEmpty_nil, if_true, hfallback, List.append_left_inj, hne, false_or,
      true_and]
    constructor
    · exact fun h => .inr h.symm
    · rintro (⟨hname, hsome, -⟩ | hname)
      · exact absurd hname.symm hsome
      · exact hname.symm
  · have hsome : (base remote).isEmpty = false := List.isEmpty_eq_false_iff.mpr hbase
    simp only [hsome, Bool.false_eq_true, if_false, withEnding_eq_iff, hbase, false_and, or_false]
    have hname : base remote = name → name ≠ [] := fun h => h ▸ hbase
    tauto

/-! ## 5. Spellings -/

/-- What a repository can be called: one part, without the ending that all of them get. -/
structure IsBareName (name : List Char) : Prop where
  ne : name ≠ []
  part : IsPart name
  bare : ¬ ending <:+ name

/-- The spellings of a repository: behind any lead, with or without the ending, with or without the
ending as a part of its own, and with anything at the end that may be left out. -/
inductive Spells (name : List Char) : List Char → Prop
  | plain {lead tail : List Char} (hlead : IsLead lead) (htail : IsTail tail) :
      Spells name (lead ++ name ++ tail)
  | ended {lead tail : List Char} (hlead : IsLead lead) (htail : IsTail tail) :
      Spells name (lead ++ name ++ ending ++ tail)
  | inside {lead tail : List Char} {separator : Char} (hlead : IsLead lead)
      (hseparator : isSeparator separator = true) (htail : IsTail tail) :
      Spells name (lead ++ name ++ separator :: ending ++ tail)
  | endedInside {lead tail : List Char} {separator : Char} (hlead : IsLead lead)
      (hseparator : isSeparator separator = true) (htail : IsTail tail) :
      Spells name (lead ++ name ++ ending ++ separator :: ending ++ tail)

theorem IsBareName.isPart_append (h : IsBareName name) : IsPart (name ++ ending) :=
  List.forall_mem_append.mpr ⟨h.part, isPart_ending⟩

theorem IsBareName.ne_ending (h : IsBareName name) : name ≠ ending :=
  fun heq => h.bare (heq ▸ List.suffix_rfl)

/-- The spellings of a repository are the addresses in which its name, with or without the ending, is
the part that counts. -/
theorem spells_iff (h : IsBareName name) :
    Spells name remote ↔ Gives remote name ∨ Gives remote (name ++ ending) := by
  have hlong : name ++ ending ≠ ending := fun heq => h.ne (List.append_left_eq_self.mp heq)
  constructor
  · intro hspells
    cases hspells with
    | plain hlead htail =>
      exact .inl (.last hlead h.part h.ne_ending (not_isTrailing_of_isPart h.part h.ne _) htail)
    | ended hlead htail =>
      have hend := not_isTrailing_of_isPart h.isPart_append (by simp [ending])
      rw [List.append_assoc _ name]
      exact .inr (.last hlead h.isPart_append hlong (hend _) htail)
    | inside hlead hseparator htail => exact .inl (.before hlead h.part hseparator htail)
    | endedInside hlead hseparator htail =>
      rw [List.append_assoc _ name]
      exact .inr (.before hlead h.isPart_append hseparator htail)
  · rintro (hgives | hgives)
    · cases hgives with
      | last hlead _ _ _ htail => exact .plain hlead htail
      | before hlead _ hseparator htail => exact .inside hlead hseparator htail
      | nothing => exact absurd rfl h.ne
    · generalize hwhole : name ++ ending = whole at hgives
      cases hgives with
      | last hlead _ _ _ htail =>
        rw [← hwhole, ← List.append_assoc]
        exact .ended hlead htail
      | before hlead _ hseparator htail =>
        rw [← hwhole, ← List.append_assoc _ name]
        exact .endedInside hlead hseparator htail
      | nothing => exact absurd (List.append_eq_nil_iff.mp hwhole).1 h.ne

/-! ## 6. The ending twice -/

/-- The last two parts of an address are both only the ending. -/
def EndsTwice (remote : List Char) : Prop :=
  ∃ lead separator tail, IsLead lead ∧ isSeparator separator = true ∧ IsTail tail
    ∧ remote = lead ++ ending ++ separator :: ending ++ tail

theorem gives_ending_iff : Gives remote ending ↔ EndsTwice remote := by
  constructor
  · intro h
    generalize hpart : ending = part at h
    cases h with
    | last _ _ hne => exact absurd hpart.symm hne
    | @before lead part tail separator hlead _ hseparator htail =>
      exact ⟨lead, separator, tail, hlead, hseparator, htail, by rw [hpart]⟩
    | nothing => exact absurd hpart (by decide)
  · rintro ⟨lead, separator, tail, hlead, hseparator, htail, rfl⟩
    exact .before hlead isPart_ending hseparator htail

end CloneName

/-! ## 7. The names of clones -/

open CloneName

theorem cloneName_eq_iff {remote name : String} :
    cloneName remote = name ++ ".git" ↔ ofChars remote.toList = name.toList ++ ending := by
  rw [cloneName, ← String.toList_inj, String.toList_ofList, String.toList_append]
  rfl

/-- The addresses that give a clone the name of a repository are the spellings of this repository, and
for one that is called `remote` also those that name nothing. Slashes at the end of an address never
matter. -/
theorem cloneName_eq_iff_spells {name : String} (h : IsBareName name.toList) :
    (∀ remote, cloneName remote = name ++ ".git" ↔
        Spells name.toList remote.toList ∨ name = "remote" ∧ Gives remote.toList [])
      ∧ ∀ remote tail : String, IsTail tail.toList →
          cloneName (remote ++ tail) = cloneName remote := by
  constructor
  · intro remote
    rw [cloneName_eq_iff, ofChars_eq_iff, spells_iff h, String.toList_inj]
    have hname : name.toList ≠ [] ∧ ¬ ending <:+ name.toList := ⟨h.ne, h.bare⟩
    tauto
  · intro remote tail htail
    unfold cloneName ofChars base
    rw [String.toList_append, dropTrailing_append htail]

/-- A lead with two kinds of separators, the ending twice, and slashes of both kinds at the end. -/
theorem cloneName_of_mixed_spelling :
    IsBareName "math-demo".toList
      ∧ Spells "math-demo".toList "git@host:me\\math-demo.git:.git/\\".toList
      ∧ cloneName "git@host:me\\math-demo.git:.git/\\" = "math-demo" ++ ".git"
      ∧ IsTail "\\/".toList
      ∧ cloneName ("host:math-demo" ++ "\\/") = cloneName "host:math-demo" := by
  have hname : IsBareName "math-demo".toList :=
    ⟨by decide, isPart_of_all (by decide +kernel), by decide +kernel⟩
  have htail (tail : List Char) (h : tail.all isTrailing = true) : IsTail tail :=
    List.all_eq_true.mp h
  have hspells : Spells "math-demo".toList "git@host:me\\math-demo.git:.git/\\".toList :=
    @Spells.endedInside _ ("git@host:me".toList ++ ['\\']) "/\\".toList ':'
      (isLead_concat (by decide) _) (by decide) (htail _ (by decide +kernel))
  obtain ⟨hspelled, htrimmed⟩ := cloneName_eq_iff_spells hname
  have hslashes : IsTail "\\/".toList := htail _ (by decide +kernel)
  exact ⟨hname, hspells, (hspelled _).mpr (.inl hspells), hslashes, htrimmed _ _ hslashes⟩

/-- A clone is called `.git`, and lies where a checkout in the scratch directory keeps its own `.git`, for
the addresses that end twice. For all others something is left in front of the ending. -/
theorem clone_at_metadata_iff (remote : String) :
    (cloneName remote = ".git" ↔ EndsTwice remote.toList)
      ∧ ((∃ front, front ≠ "" ∧ cloneName remote = front ++ ".git") ↔ ¬ EndsTwice remote.toList)
      ∧ ∀ scratch cwd,
          (clonePath remote scratch).place cwd = scratch.place cwd ++ [Bytes.ofString ".git"] ↔
            EndsTwice remote.toList := by
  have hbare : cloneName remote = ".git" ↔ EndsTwice remote.toList := by
    have hsplit : cloneName remote = "" ++ ".git" ↔ _ := cloneName_eq_iff
    rw [String.empty_append, ofChars_eq_iff, String.toList_empty, List.nil_append] at hsplit
    rw [hsplit, gives_ending_iff]
    simp
  refine ⟨hbare, ?_, fun scratch cwd => ?_⟩
  · rw [← hbare]
    obtain ⟨front, hfront⟩ := (isMemberName_cloneName remote).ending
    rw [hfront]
    have hempty : front ++ ".git" = ".git" ↔ front = "" := by
      rw [← String.toList_inj, String.toList_append, List.append_left_eq_self, String.toList_eq_nil_iff]
    rw [hempty]
    constructor
    · rintro ⟨other, hne, heq⟩ rfl
      exact hne ((String.append_left_inj _).mp heq).symm
    · exact fun hne => ⟨front, hne, rfl⟩
  · rw [← hbare, place_clonePath, List.append_cancel_left_eq, List.singleton_inj, Bytes.ofString_inj]

/-- An address of nothing but endings takes the place of the metadata. -/
theorem clone_of_two_endings :
    cloneName ".git/.git" = ".git"
      ∧ ¬ ∃ front, front ≠ "" ∧ cloneName ".git/.git" = front ++ ".git" := by
  have hname : cloneName ".git/.git" = ".git" := by decide +kernel
  refine ⟨hname, ?_⟩
  rintro ⟨front, hne, hfront⟩
  rw [hname, ← String.toList_inj, String.toList_append] at hfront
  have hnil : front.toList = [] := List.append_left_eq_self.mp hfront.symm
  exact hne (String.toList_eq_nil_iff.mp hnil)

end PublishOnce
