/-
PublishOnce.Proofs.Repository.Headers — commits as they are written.

The reader of a commit goes through the headers only to come to the message
behind them, and it stops at the first that is not well formed. So what a commit
says depends on its headers as little as possible: whatever they are, as long as
they are well formed, the message that was written is the message that is read
(`message?_commit`).

What well formed means is said here by types. A signature, a further header and
the headers of a commit can only be put together with the proofs that the bytes
in them do not run into each other. Two of the conditions are less than obvious.
What is cut off at the two ends of an address must not overlap, so an address of
nothing but white space is none. And a first further header cannot be called
`encoding` where there is no encoding, since it would be taken for one.
-/
import PublishOnce.Proofs.Bytes
import PublishOnce.Proofs.Repository.Bytes
import PublishOnce.Repository.Commit

namespace PublishOnce

/-! ## 1. Words, lines and ids in front of something -/

namespace Bytes

variable {b : UInt8} {word name : Bytes}

theorem strip?_append (word rest : Bytes) : strip? word (word ++ rest) = some rest := by
  induction word with
  | nil => cases rest <;> rfl
  | cons b word ih => rw [List.cons_append, strip?, if_pos rfl, ih]

/-- A word with a mark behind it is not taken off where another word stands before the mark. -/
theorem strip?_concat_of_ne (hword : b ∉ word) (hname : b ∉ name) (hne : name ≠ word)
    (rest : Bytes) : strip? (word ++ [b]) (name ++ b :: rest) = none := by
  induction word generalizing name with
  | nil =>
    cases name with
    | nil => exact absurd rfl hne
    | cons c name =>
      have hc : b ≠ c := fun h => hname (h ▸ List.mem_cons_self)
      rw [List.nil_append, List.cons_append, strip?, if_neg hc]
  | cons w word ih =>
    rw [List.mem_cons, not_or] at hword
    cases name with
    | nil => rw [List.cons_append, List.nil_append, strip?, if_neg (Ne.symm hword.1)]
    | cons c name =>
      rw [List.mem_cons, not_or] at hname
      rw [List.cons_append, List.cons_append, strip?]
      split
      · next hc => exact ih hword.2 hname.2 fun h => hne (by rw [hc, h])
      · rfl

/-- Cutting finds the first byte of a kind. -/
theorem cut_append {p : UInt8 → Bool} {front : Bytes} (hfront : ∀ c ∈ front, p c = false)
    (hb : p b = true) (rest : Bytes) : cut p (front ++ b :: rest) = (front, b :: rest) := by
  have hall : ∀ c ∈ front, (!p c) = true := fun c hc => by simp [hfront c hc]
  unfold cut
  rw [List.takeWhile_append_of_pos hall, List.dropWhile_append_of_pos hall,
    List.takeWhile_cons_of_neg (by simp [hb]), List.dropWhile_cons_of_neg (by simp [hb]),
    List.append_nil]

/-- What is taken while a condition holds ends before the first byte for which it does not. -/
theorem takeWhile_append_cons {p : UInt8 → Bool} (hb : p b = false) (front rest : Bytes) :
    (front ++ b :: rest).takeWhile p = front.takeWhile p := by
  rw [List.takeWhile_append, List.takeWhile_cons_of_neg (by simp [hb]), List.append_nil]
  split
  · next hall => exact ((List.takeWhile_prefix p).eq_of_length hall).symm
  · rfl

end Bytes

namespace Repository

/-- The digits of an id. -/
structure IdDigits where
  bytes : Bytes
  length_eq : bytes.length = idLength
  isHexDigit : bytes.all Bytes.isHexDigit = true

theorem takeId_append (id : IdDigits) (rest : Bytes) :
    takeId (id.bytes ++ rest) = some (⟨Bytes.toText id.bytes⟩, rest) := by
  have htake : (id.bytes ++ rest).take idLength = id.bytes := id.length_eq ▸ List.take_left
  have hdrop : (id.bytes ++ rest).drop idLength = rest := id.length_eq ▸ List.drop_left
  unfold takeId
  simp only [htake, hdrop]
  rw [if_pos ⟨id.length_eq, id.isHexDigit⟩]

namespace Commit

/-- A line with its line feed is taken off. -/
theorem takeLine_append {line : Bytes} (h : Bytes.lineFeed ∉ line) (rest : Bytes) :
    takeLine (line ++ Bytes.lineFeed :: rest) = some (line, rest) := by
  have hline : ∀ b ∈ line, decide (b = Bytes.lineFeed) = false := fun b hb =>
    decide_eq_false fun hfeed => h (hfeed ▸ hb)
  unfold takeLine
  rw [Bytes.cut_append hline (decide_eq_true rfl)]

/-! ## 2. Signatures -/

/-- What is cut off at the front of an address. -/
def leading (address : Bytes) : Bytes := address.takeWhile fun b => isBlankByte b || b = opening

/-- What is cut off at the end of an address, from the end on. -/
def trailing (address : Bytes) : Bytes :=
  address.reverse.takeWhile fun b => isBlankByte b || b = closing

/-- Who has made a commit, and when. The name ends at the first opening bracket and the address at
the last closing one. -/
structure Signature where
  name : Bytes
  address : Bytes
  time : Bytes
  name_ends : opening ∉ name
  ends_apart : (leading address).length + (trailing address).length ≤ address.length
  isTimeByte : ∀ b ∈ time, Commit.isTimeByte b = true
  name_line : Bytes.lineFeed ∉ name
  address_line : Bytes.lineFeed ∉ address

def Signature.bytes (signature : Signature) : Bytes :=
  signature.name ++ opening :: signature.address ++ closing :: signature.time

namespace Signature

theorem not_mem_time (signature : Signature) {b : UInt8} (h : Commit.isTimeByte b = false) :
    b ∉ signature.time := fun hmem => by
  rw [signature.isTimeByte b hmem] at h
  cases h

theorem lineFeed_not_mem (signature : Signature) : Bytes.lineFeed ∉ signature.bytes := by
  have htime : Bytes.lineFeed ∉ signature.time := signature.not_mem_time (by decide)
  have hopening : Bytes.lineFeed ≠ opening := by decide
  have hclosing : Bytes.lineFeed ≠ closing := by decide
  simp [bytes, signature.name_line, signature.address_line, htime, hopening, hclosing]

/-- The last closing bracket is found, because there is none in the time. -/
theorem behind_eq (signature : Signature) :
    (signature.bytes.reverse.takeWhile (· ≠ closing)).reverse = signature.time := by
  have hall : ∀ b ∈ signature.time.reverse, decide (b ≠ closing) = true := fun b hb =>
    decide_eq_true fun h =>
      signature.not_mem_time (by decide) (h ▸ List.mem_reverse.mp hb)
  unfold bytes
  rw [List.reverse_append, List.reverse_cons, List.append_assoc,
    List.takeWhile_append_of_pos hall, List.singleton_append,
    List.takeWhile_cons_of_neg (by simp), List.append_nil, List.reverse_reverse]

theorem isSignature_bytes (signature : Signature) : isSignature signature.bytes = true := by
  have hlength : signature.bytes.length =
      (signature.name ++ opening :: signature.address).length + 1 + signature.time.length := by
    simp only [bytes, List.length_append, List.length_cons]
    omega
  have hbefore : signature.bytes.take
      (signature.bytes.length - signature.time.length - 1) =
        signature.name ++ opening :: signature.address := by
    rw [hlength, Nat.add_sub_cancel, Nat.add_sub_cancel]
    exact List.take_left
  have hname : (signature.name ++ opening :: signature.address).takeWhile (· ≠ opening) =
      signature.name := by
    have hall : ∀ b ∈ signature.name, decide (b ≠ opening) = true := fun b hb =>
      decide_eq_true fun h => signature.name_ends (h ▸ hb)
    rw [Bytes.takeWhile_append_cons (by simp)]
    exact List.takeWhile_eq_self_iff.mpr hall
  have hleft : ((opening :: signature.address).takeWhile
      fun b => isBlankByte b || b = opening).length = (leading signature.address).length + 1 := by
    rw [List.takeWhile_cons_of_pos (by simp)]
    rfl
  have hright : ((signature.name ++ opening :: signature.address).reverse.takeWhile
      fun b => isBlankByte b || b = closing).length = (trailing signature.address).length := by
    rw [List.reverse_append, List.reverse_cons, List.append_assoc, List.singleton_append,
      Bytes.takeWhile_append_cons (by decide)]
    rfl
  have hapart := signature.ends_apart
  unfold isSignature
  simp only [behind_eq, hbefore, hname, List.drop_left, hleft, hright]
  rw [if_neg (by omega)]
  simp only [List.isEmpty_cons, Bool.not_false, Bool.true_and, Bool.and_eq_true,
    decide_eq_true_eq, List.length_cons]
  exact ⟨by omega, List.all_eq_true.mpr signature.isTimeByte⟩

end Signature

/-! ## 3. Header lines -/

/-- A header on one line. -/
def headerLine (name : String) (value : Bytes) : Bytes :=
  Bytes.ofString (name ++ " ") ++ value ++ [Bytes.lineFeed]

theorem headerLine_append (name : String) (value rest : Bytes) :
    headerLine name value ++ rest =
      Bytes.ofString (name ++ " ") ++ (value ++ Bytes.lineFeed :: rest) := by
  simp [headerLine]

theorem takeIdHeader_append (name : String) (id : IdDigits) (rest : Bytes) :
    takeIdHeader name (headerLine name id.bytes ++ rest) = some rest := by
  rw [headerLine_append]
  unfold takeIdHeader Bytes.word?
  rw [Bytes.strip?_append]
  simp only [Option.bind_eq_bind, Option.bind_some, takeId_append]
  exact Bytes.strip?_append [Bytes.lineFeed] rest

theorem takeSignature_append (name : String) (signature : Signature) (rest : Bytes) :
    takeSignature name (headerLine name signature.bytes ++ rest) = some rest := by
  rw [headerLine_append]
  unfold takeSignature Bytes.word?
  rw [Bytes.strip?_append]
  simp only [Option.bind_eq_bind, Option.bind_some, takeLine_append signature.lineFeed_not_mem,
    signature.isSignature_bytes, if_true]

theorem takeEncoding_append {value : Bytes} (hne : value ≠ []) (hline : Bytes.lineFeed ∉ value)
    (rest : Bytes) : takeEncoding (headerLine "encoding" value ++ rest) = some rest := by
  have hword : "encoding " = "encoding" ++ " " := rfl
  rw [headerLine_append]
  unfold takeEncoding Bytes.word?
  rw [hword, Bytes.strip?_append]
  simp only [Option.bind_eq_bind, Option.bind_some, takeLine_append hline]
  rw [if_neg (by simpa using hne)]

/-- A header is not taken off under another name. -/
theorem word?_of_ne {name : String} {other : Bytes} (hname : Bytes.blank ∉ Bytes.ofString name)
    (hother : Bytes.blank ∉ other) (hne : other ≠ Bytes.ofString name) (rest : Bytes) :
    Bytes.word? (name ++ " ") (other ++ Bytes.blank :: rest) = none := by
  unfold Bytes.word?
  rw [Bytes.ofString_append]
  exact Bytes.strip?_concat_of_ne hname hother hne rest

/-! ## 4. Further headers -/

/-- A header besides the usual ones, with the lines that continue it. -/
structure Other where
  name : Bytes
  value : Bytes
  more : List Bytes := []
  name_ne_nil : name ≠ []
  name_word : Bytes.blank ∉ name
  name_line : Bytes.lineFeed ∉ name
  value_ne_nil : value ≠ []
  value_line : Bytes.lineFeed ∉ value
  more_line : ∀ line ∈ more, Bytes.lineFeed ∉ line

namespace Other

/-- The lines that continue a header. -/
def continuation (more : List Bytes) : Bytes :=
  more.flatMap fun line => Bytes.blank :: line ++ [Bytes.lineFeed]

def bytes (other : Other) : Bytes :=
  other.name ++ Bytes.blank :: other.value ++ Bytes.lineFeed :: continuation other.more

theorem length_le_continuation (more : List Bytes) :
    more.length ≤ (continuation more).length := by
  induction more with
  | nil => exact Nat.zero_le _
  | cons line more ih =>
    simp only [continuation, List.flatMap_cons, List.length_append, List.length_cons] at ih ⊢
    omega

/-- Lines that start with a blank are dropped up to the first that does not. -/
theorem dropContinuations_append {more : List Bytes}
    (hlines : ∀ line ∈ more, Bytes.lineFeed ∉ line) {rest : Bytes}
    (hrest : rest.head? ≠ some Bytes.blank) {bound : Nat} (hbound : more.length ≤ bound) :
    dropContinuations bound (continuation more ++ rest) = rest := by
  induction more generalizing bound with
  | nil =>
    cases bound with
    | zero => rfl
    | succ bound => exact if_neg hrest
  | cons line more ih =>
    obtain ⟨bound, rfl⟩ : ∃ less, bound = less + 1 :=
      Nat.exists_eq_add_one_of_ne_zero (by rw [List.length_cons] at hbound; omega)
    have hline : Bytes.lineFeed ∉ Bytes.blank :: line := by
      rw [List.mem_cons, not_or]
      exact ⟨by decide, hlines line List.mem_cons_self⟩
    have hfirst : continuation (line :: more) ++ rest =
        Bytes.blank :: line ++ Bytes.lineFeed :: (continuation more ++ rest) := by
      simp [continuation]
    have hblank : (Bytes.blank :: line ++ Bytes.lineFeed :: (continuation more ++ rest)).head? =
        some Bytes.blank := rfl
    rw [hfirst, dropContinuations, if_pos hblank, takeLine_append hline]
    exact ih (fun other hother => hlines other (List.mem_cons_of_mem _ hother))
      (by simpa using hbound)

variable (other : Other)

theorem takeOther_append {rest : Bytes} (hrest : rest.head? ≠ some Bytes.blank) :
    takeOther (other.bytes ++ rest) = some rest := by
  have hblank : Bytes.lineFeed ≠ Bytes.blank := by decide
  have hline : Bytes.lineFeed ∉ other.name ++ Bytes.blank :: other.value := by
    simp [other.name_line, other.value_line, hblank]
  have hword : ∀ b ∈ other.name, decide (b = Bytes.blank) = false := fun b hb =>
    decide_eq_false fun h => other.name_word (h ▸ hb)
  have hvalue : 0 < other.value.length := List.length_pos_iff.mpr other.value_ne_nil
  have hlast : dropContinuations (continuation other.more ++ rest).length
      (continuation other.more ++ rest) = rest := by
    refine dropContinuations_append other.more_line hrest ?_
    have := length_le_continuation other.more
    rw [List.length_append]
    omega
  unfold takeOther bytes
  rw [List.append_assoc, List.cons_append]
  simp only [takeLine_append hline, Option.bind_eq_bind, Option.bind_some,
    Bytes.cut_append hword (decide_eq_true rfl)]
  rw [if_neg, hlast]
  simp only [List.isEmpty_iff, other.name_ne_nil, List.length_cons, Bool.or_eq_true,
    decide_eq_true_eq, not_or, not_false_eq_true, true_and]
  omega

theorem head?_bytes_ne (rest : Bytes) : (other.bytes ++ rest).head? ≠ some Bytes.blank := by
  have hne := other.name_ne_nil
  have hword := other.name_word
  unfold bytes
  cases hname : other.name with
  | nil => exact absurd hname hne
  | cons b name =>
    rw [hname, List.mem_cons, not_or] at hword
    simpa using Ne.symm hword.1

theorem length_bytes_pos : 0 < other.bytes.length := by
  simp only [bytes, List.length_append, List.length_cons]
  omega

end Other

/-! ## 5. Commits -/

/-- The headers of a commit. -/
structure Headers where
  tree : IdDigits
  parents : List IdDigits := []
  author : Signature
  committer : Signature
  encoding : Option Bytes := none
  others : List Other := []
  encoding_ne_nil : encoding ≠ some []
  encoding_line : ∀ value ∈ encoding, Bytes.lineFeed ∉ value
  others_head : encoding = none →
    ∀ other ∈ others.head?, other.name ≠ Bytes.ofString "encoding"

namespace Headers

def othersBytes (others : List Other) : Bytes := others.flatMap Other.bytes

def encodingBytes (encoding : Option Bytes) : Bytes :=
  (encoding.map (headerLine "encoding")).getD []

def parentsBytes (parents : List IdDigits) : Bytes :=
  parents.flatMap fun id => headerLine "parent" id.bytes

/-- The bytes of a commit with these headers and a message. -/
def commit (headers : Headers) (message : Bytes) : Bytes :=
  headerLine "tree" headers.tree.bytes ++ (parentsBytes headers.parents
    ++ (headerLine "author" headers.author.bytes
      ++ (headerLine "committer" headers.committer.bytes
        ++ (encodingBytes headers.encoding
          ++ (othersBytes headers.others ++ Bytes.lineFeed :: message)))))

/-- Behind the last header stands an empty line, which is no header. -/
theorem takeOther_lineFeed (message : Bytes) : takeOther (Bytes.lineFeed :: message) = none := by
  have htake : takeLine (Bytes.lineFeed :: message) = some ([], message) :=
    takeLine_append List.not_mem_nil message
  unfold takeOther
  rw [htake]
  rfl

theorem head?_othersBytes_ne (others : List Other) (message : Bytes) :
    (othersBytes others ++ Bytes.lineFeed :: message).head? ≠ some Bytes.blank := by
  cases others with
  | nil => exact fun h => absurd (Option.some.inj h) (by decide)
  | cons other others =>
    rw [othersBytes, List.flatMap_cons, List.append_assoc]
    exact other.head?_bytes_ne _

theorem unlessDone_of_ne_nil {bytes : Bytes} (h : bytes ≠ []) (next : Bytes → Option Bytes) :
    unlessDone bytes next = next bytes :=
  if_neg (by simpa using h)

theorem behindOthers_append {others : List Other} {bound : Nat} (h : others.length < bound)
    (message : Bytes) :
    behindOthers bound (othersBytes others ++ Bytes.lineFeed :: message) = some message := by
  induction others generalizing bound with
  | nil =>
    obtain ⟨bound, rfl⟩ := Nat.exists_eq_add_one_of_ne_zero (Nat.ne_of_gt h)
    rw [behindOthers, unlessDone_of_ne_nil (by simp)]
    simp only [othersBytes, List.flatMap_nil, List.nil_append, takeOther_lineFeed]
    exact Bytes.strip?_append [Bytes.lineFeed] message
  | cons other others ih =>
    obtain ⟨bound, rfl⟩ := Nat.exists_eq_add_one_of_ne_zero (Nat.ne_of_gt (Nat.zero_lt_of_lt h))
    have hbehind := other.takeOther_append (head?_othersBytes_ne others message)
    rw [behindOthers, unlessDone_of_ne_nil (by simp)]
    rw [othersBytes, List.flatMap_cons, List.append_assoc, ← othersBytes]
    simp only [hbehind]
    exact ih (by simpa using h)

theorem length_le_othersBytes (others : List Other) :
    others.length ≤ (othersBytes others).length := by
  induction others with
  | nil => exact Nat.zero_le _
  | cons other others ih =>
    have hpos := other.length_bytes_pos
    simp only [othersBytes, List.flatMap_cons, List.length_append, List.length_cons] at ih ⊢
    omega

/-- Where there is no encoding, none is taken off. -/
theorem takeEncoding_othersBytes {others : List Other}
    (h : ∀ other ∈ others.head?, other.name ≠ Bytes.ofString "encoding") (message : Bytes) :
    takeEncoding (othersBytes others ++ Bytes.lineFeed :: message) = none := by
  have hword : Bytes.word? ("encoding" ++ " ")
      (othersBytes others ++ Bytes.lineFeed :: message) = none := by
    cases others with
    | nil => rfl
    | cons other others =>
      rw [othersBytes, List.flatMap_cons, Other.bytes]
      simp only [List.append_assoc, List.cons_append]
      exact word?_of_ne (by decide +kernel) other.name_word (h other rfl) _
  unfold takeEncoding
  exact congrArg (· >>= _) hword

variable (headers : Headers) (message : Bytes)

theorem behindCommitter_append :
    behindCommitter (encodingBytes headers.encoding
      ++ (othersBytes headers.others ++ Bytes.lineFeed :: message)) = some message := by
  have hbound : headers.others.length <
      (othersBytes headers.others ++ Bytes.lineFeed :: message).length + 1 := by
    have := length_le_othersBytes headers.others
    rw [List.length_append]
    omega
  unfold behindCommitter
  rw [unlessDone_of_ne_nil (by simp)]
  cases hencoding : headers.encoding with
  | none =>
    have hnone := takeEncoding_othersBytes (headers.others_head hencoding) message
    simp only [encodingBytes, Option.map_none, Option.getD_none, List.nil_append, hnone]
    exact behindOthers_append hbound message
  | some value =>
    have hne : value ≠ [] := fun h => headers.encoding_ne_nil (h ▸ hencoding)
    have htake := takeEncoding_append hne (headers.encoding_line value hencoding)
      (othersBytes headers.others ++ Bytes.lineFeed :: message)
    simp only [encodingBytes, Option.map_some, Option.getD_some, htake]
    exact behindOthers_append hbound message

theorem headerLine_ne_nil (name : String) (value rest : Bytes) :
    headerLine name value ++ rest ≠ [] := by
  simp [headerLine]

theorem behindParents_append (rest : Bytes) :
    behindParents (headerLine "author" headers.author.bytes
      ++ (headerLine "committer" headers.committer.bytes ++ rest)) = behindCommitter rest := by
  unfold behindParents
  simp only [takeSignature_append, Option.bind_eq_bind, Option.bind_some,
    unlessDone_of_ne_nil (headerLine_ne_nil _ _ _)]

/-- An author is no parent. -/
theorem takeIdHeader_author (value rest : Bytes) :
    takeIdHeader "parent" (headerLine "author" value ++ rest) = none := by
  have hword : Bytes.word? ("parent" ++ " ") (headerLine "author" value ++ rest) = none := by
    rw [headerLine_append, Bytes.ofString_append, List.append_assoc]
    exact word?_of_ne (by decide +kernel) (by decide +kernel) (by decide +kernel) _
  unfold takeIdHeader
  rw [hword]
  rfl

theorem behindTree_append {parents : List IdDigits} {bound : Nat} (h : parents.length < bound)
    (value rest : Bytes) :
    behindTree bound (parentsBytes parents ++ (headerLine "author" value ++ rest)) =
      behindParents (headerLine "author" value ++ rest) := by
  induction parents generalizing bound with
  | nil =>
    obtain ⟨bound, rfl⟩ := Nat.exists_eq_add_one_of_ne_zero (Nat.ne_of_gt h)
    rw [parentsBytes, List.flatMap_nil, List.nil_append, behindTree,
      unlessDone_of_ne_nil (headerLine_ne_nil _ _ _), takeIdHeader_author]
  | cons id parents ih =>
    obtain ⟨bound, rfl⟩ := Nat.exists_eq_add_one_of_ne_zero (Nat.ne_of_gt (Nat.zero_lt_of_lt h))
    rw [parentsBytes, List.flatMap_cons, List.append_assoc, ← parentsBytes, behindTree,
      unlessDone_of_ne_nil (headerLine_ne_nil _ _ _), takeIdHeader_append]
    exact ih (by simpa using h)

theorem length_le_parentsBytes (parents : List IdDigits) :
    parents.length ≤ (parentsBytes parents).length := by
  induction parents with
  | nil => exact Nat.zero_le _
  | cons id parents ih =>
    simp only [parentsBytes, headerLine, List.flatMap_cons, List.length_append,
      List.length_cons] at ih ⊢
    omega

/-- The message that was written is the message that is read. -/
theorem message?_commit : message? (headers.commit message) = some message := by
  have hbound : headers.parents.length < (parentsBytes headers.parents
      ++ (headerLine "author" headers.author.bytes
        ++ (headerLine "committer" headers.committer.bytes
          ++ (encodingBytes headers.encoding
            ++ (othersBytes headers.others ++ Bytes.lineFeed :: message))))).length + 1 := by
    have := length_le_parentsBytes headers.parents
    rw [List.length_append]
    omega
  unfold message? commit
  rw [unlessDone_of_ne_nil (headerLine_ne_nil _ _ _), takeIdHeader_append]
  simp only [Option.bind_eq_bind, Option.bind_some]
  rw [behindTree_append hbound, behindParents_append, behindCommitter_append]

end Headers

end Commit

end Repository

end PublishOnce
