/-
PublishOnce.Proofs.Settings.Schema — what a configuration document says.

A document is read entry by entry, and what is read later is put over what was
read before. To whom it is written for it is something else: there are eight
keys in three sections, what stands at one of them is its value, and where
nothing stands there is a default. `ofText_reads` says that the two are the
same, and that what is passed over on the way are exactly the other keys.

Reading and looking up agree because no key stands twice
(`Toml.distinct_of_parse?`). Seen through one field, the entries then have at
most one that matters, so the order in which they come does not
(`get_foldl_of_nodup`); this is used twice, for sections in a document and for
fields in a section.
-/
import PublishOnce.Proofs.Toml.Keys
import PublishOnce.Settings.Document

namespace PublishOnce.Settings

open Toml (Value Entries)

/-! ## 1. What a document says -/

/-- The sections. -/
def parts : List String := ["source", "target", "commit"]

/-- The known keys, each behind its section. -/
def knownKeys : List (String × String) :=
  [("source", "root"), ("target", "remote"), ("target", "branch"), ("target", "dir"),
    ("target", "scratch"), ("commit", "prefix"), ("commit", "name"), ("commit", "email")]

/-- What stands at a key of a section. -/
def valueAt (entries : Entries) (part key : String) : Option Value :=
  match entries.lookup part with
  | some (.table _ inner) => inner.lookup key
  | _ => none

/-- What is made of a value that is text, or else a default. -/
def madeOr {α : Type} (make : String → α) (value : Value) (default : α) : α :=
  match value with
  | .string text => make text
  | _ => default

/-- What is made of the text at a key of a section, or else a default. -/
def madeAt {α : Type} (make : String → α) (entries : Entries) (part key : String) (default : α) : α :=
  match valueAt entries part key with
  | some value => madeOr make value default
  | none => default

/-- The settings that a document says: what stands at the known keys, or else the defaults. -/
def said (entries : Entries) : Settings where
  source := { root := madeAt .ofText entries "source" "root" ({} : Source).root }
  target :=
    { remote := madeAt id entries "target" "remote" ({} : Target).remote
      branch := madeAt id entries "target" "branch" ({} : Target).branch
      dir := madeAt .ofText entries "target" "dir" ({} : Target).dir
      scratch := madeAt .ofText entries "target" "scratch" ({} : Target).scratch }
  commit :=
    { messagePrefix := madeAt id entries "commit" "prefix" ({} : Commit).messagePrefix
      name := madeAt id entries "commit" "name" ({} : Commit).name
      email := madeAt id entries "commit" "email" ({} : Commit).email }

def IsText (value : Value) : Prop := ∃ text, value = .string text

def IsTable (value : Value) : Prop := ∃ standing inner, value = .table standing inner

instance : DecidablePred IsText
  | .string text => isTrue ⟨text, rfl⟩
  | .integer _ | .float _ | .boolean _ | .datetime | .array _ | .table _ _ | .tables _ =>
    isFalse fun ⟨_, h⟩ => nomatch h

instance : DecidablePred IsTable
  | .table standing inner => isTrue ⟨standing, inner, rfl⟩
  | .string _ | .integer _ | .float _ | .boolean _ | .datetime | .array _ | .tables _ =>
    isFalse fun ⟨_, _, h⟩ => nomatch h

/-- Where there is a section, it is a table. -/
def PartsAreTables (entries : Entries) : Prop :=
  ∀ part ∈ parts, ∀ value ∈ entries.lookup part, IsTable value

/-- What stands at the known keys is text. -/
def KnownAreTexts (entries : Entries) : Prop :=
  ∀ known ∈ knownKeys, ∀ value ∈ valueAt entries known.1 known.2, IsText value

instance (entries : Entries) : Decidable (PartsAreTables entries) :=
  inferInstanceAs (Decidable (∀ part ∈ parts, _))

instance (entries : Entries) : Decidable (KnownAreTexts entries) :=
  inferInstanceAs (Decidable (∀ known ∈ knownKeys, _))

/-- The ways to the keys that an entry has: its own, and those of the table that it may hold. -/
def pathsOf (entry : String × Value) : List (List String) :=
  [entry.1] ::
    match entry.2 with
    | .table _ inner => inner.map fun below => [entry.1, below.1]
    | _ => []

/-- The ways to the keys of a document and of the tables in it, in order. -/
def keyPaths (entries : Entries) : List (List String) := entries.flatMap pathsOf

/-- A way leads to an unknown key: to one that is no section, or to one of a section that the section
does not have. Below an unknown key nothing is unknown. -/
def isUnknown : List String → Bool
  | [key] => key ∉ parts
  | [part, key] => part ∈ parts && (part, key) ∉ knownKeys
  | _ => false

/-- The names of unknown keys among some. -/
def unknownNames (paths : List (List String)) : List String :=
  (paths.filter isUnknown).map (".".intercalate)

/-! ## 2. One key at a time -/

/-- A fold over entries with distinct keys, seen through something on which a single key has an
influence. -/
theorem get_foldl_of_nodup {σ τ : Type} {step : σ → String × Value → σ} {get : σ → τ} {key : String}
    {put : Value → τ → τ}
    (hstep : ∀ state entry, get (step state entry) =
      if entry.1 = key then put entry.2 (get state) else get state)
    {entries : Entries} (hkeys : (entries.map Prod.fst).Nodup) (state : σ) :
    get (entries.foldl step state) =
      match entries.lookup key with
      | some value => put value (get state)
      | none => get state := by
  induction entries generalizing state with
  | nil => rfl
  | cons entry entries ih =>
    obtain ⟨first, value⟩ := entry
    obtain ⟨hnew, hkeys⟩ := List.nodup_cons.mp hkeys
    rw [List.foldl_cons, ih hkeys, hstep]
    by_cases hfirst : first = key
    · subst hfirst
      rw [Rows.lookup_eq_none_iff_not_mem.mpr hnew, List.lookup_cons_self, if_pos rfl]
    · have hbeq : (key == first) = false := beq_false_of_ne (Ne.symm hfirst)
      rw [List.lookup_cons, hbeq, if_neg hfirst]

/-! ## 3. A section -/

variable {S : Type} {name : String} {fields : List (Field S)}

/-- Set the field of an entry, if it has one and holds text. -/
def setField (fields : List (Field S)) (settings : S) (entry : String × Value) : S :=
  match fields.find? (fun field => field.key = entry.1), entry.2 with
  | some field, .string text => field.set text settings
  | _, _ => settings

theorem Field.read_eq_ok_iff {field : Field S} {value : Value} {settings read : S} :
    field.read value settings = .ok read ↔
      ∃ text, value = .string text ∧ read = field.set text settings := by
  cases value with
  | string text =>
    simp only [Field.read, Except.ok.injEq, Value.string.injEq]
    constructor
    · rintro rfl
      exact ⟨text, rfl, rfl⟩
    · rintro ⟨_, rfl, rfl⟩
      rfl
  | _ => simp [Field.read]

theorem bind_eq_ok_iff {ε α β : Type} {outcome : Except ε α} {next : α → Except ε β} {result : β} :
    outcome >>= next = .ok result ↔ ∃ found, outcome = .ok found ∧ next found = .ok result := by
  cases outcome with
  | error reason => simp [bind, Except.bind]
  | ok found => simp [bind, Except.bind]

theorem isSome_find?_iff {key : String} :
    (fields.find? fun field => field.key = key).isSome ↔ key ∈ fields.map Field.key := by
  simp [List.find?_isSome]

/-- An entry is no field of its section. -/
def isStray (fields : List (Field S)) (entry : String × Value) : Bool :=
  (fields.find? fun field => field.key = entry.1).isNone

/-- Reading a section goes well exactly if its fields hold texts. The fields are set one after the
other, and what is no field is named. -/
theorem readEntries_eq_ok_iff {entries : Entries} {settings read : S} {ignored : List String} :
    readEntries name fields entries settings = .ok (read, ignored) ↔
      (∀ entry ∈ entries, isStray fields entry = false → IsText entry.2)
        ∧ read = entries.foldl (setField fields) settings
        ∧ ignored = (entries.filter (isStray fields)).map fun entry => name ++ "." ++ entry.1 := by
  induction entries generalizing settings read ignored with
  | nil =>
    constructor
    · intro h
      obtain ⟨rfl, rfl⟩ := Prod.mk.inj (Except.ok.inj h)
      exact ⟨by simp, rfl, rfl⟩
    · rintro ⟨-, rfl, rfl⟩
      rfl
  | cons entry entries ih =>
    obtain ⟨key, value⟩ := entry
    rw [List.forall_mem_cons, List.foldl_cons, readEntries]
    cases hfind : fields.find? (fun field => field.key = key) with
    | some field =>
      have hstray : isStray fields (key, value) = false := by simp [isStray, hfind]
      have hset : ∀ text, setField fields settings (key, .string text) = field.set text settings :=
        fun text => by simp [setField, hfind]
      rw [List.filter_cons_of_neg (by simp [hstray])]
      simp only [bind_eq_ok_iff, Field.read_eq_ok_iff, ih, hstray, true_imp_iff]
      constructor
      · rintro ⟨_, ⟨text, rfl, rfl⟩, htexts, rfl, rfl⟩
        exact ⟨⟨⟨text, rfl⟩, htexts⟩, by rw [hset], rfl⟩
      · rintro ⟨⟨⟨text, rfl⟩, htexts⟩, rfl, rfl⟩
        exact ⟨_, ⟨text, rfl, rfl⟩, htexts, by rw [hset], rfl⟩
    | none =>
      have hstray : isStray fields (key, value) = true := by simp [isStray, hfind]
      have hset : setField fields settings (key, value) = settings := by simp [setField, hfind]
      rw [List.filter_cons_of_pos hstray, List.map_cons]
      simp only [bind_eq_ok_iff, Prod.exists, ih, hstray, hset]
      constructor
      · rintro ⟨_, _, ⟨htexts, rfl, rfl⟩, hresult⟩
        obtain ⟨rfl, rfl⟩ := Prod.mk.inj (Except.ok.inj hresult)
        exact ⟨⟨fun h => (Bool.noConfusion h), htexts⟩, rfl, rfl⟩
      · rintro ⟨⟨-, htexts⟩, rfl, rfl⟩
        exact ⟨_, _, ⟨htexts, rfl, rfl⟩, rfl⟩

/-- Something that is seen of a section is one of its fields: it is made of the text that was set there
last, and no other field has an influence on it. -/
structure Stores {α : Type} (fields : List (Field S)) (key : String) (make : String → α)
    (get : S → α) : Prop where
  known : key ∈ fields.map Field.key
  get_set : ∀ field ∈ fields, ∀ text settings,
    get (field.set text settings) = if field.key = key then make text else get settings

variable {α : Type} {key : String} {make : String → α} {get : S → α}

theorem Stores.get_setField (h : Stores fields key make get) (settings : S) (entry : String × Value) :
    get (setField fields settings entry) =
      if entry.1 = key then madeOr make entry.2 (get settings) else get settings := by
  unfold setField madeOr
  split
  · next field text hfind hvalue =>
    have hkey : field.key = entry.1 := by simpa using List.find?_some hfind
    rw [h.get_set field (List.mem_of_find?_eq_some hfind), hkey, hvalue]
  · next hother =>
    split
    · next hkey =>
      split
      · next text hvalue =>
        obtain ⟨field, hfind⟩ := Option.isSome_iff_exists.mp (hkey ▸ isSome_find?_iff.mpr h.known)
        exact (hother field text hfind hvalue).elim
      · rfl
    · rfl

/-- A field of a section is what stands at its key. -/
theorem Stores.get_foldl (h : Stores fields key make get) {entries : Entries}
    (hkeys : (entries.map Prod.fst).Nodup) (settings : S) :
    get (entries.foldl (setField fields) settings) =
      match entries.lookup key with
      | some value => madeOr make value (get settings)
      | none => get settings :=
  get_foldl_of_nodup h.get_setField hkeys settings

/-! ## 4. A document -/

/-- The fields of a section are the keys that are known of it. -/
def Lists (part : String) (fields : List (Field S)) : Prop :=
  fields.map Field.key = (knownKeys.filter fun known => known.1 = part).map Prod.snd

theorem lists_source : Lists "source" Source.fields := rfl

theorem lists_target : Lists "target" Target.fields := rfl

theorem lists_commit : Lists "commit" Commit.fields := rfl

theorem Lists.isStray_eq {part : String} (h : Lists part fields) (entry : String × Value) :
    isStray fields entry = decide ((part, entry.1) ∉ knownKeys) := by
  have hmem : entry.1 ∈ fields.map Field.key ↔ (part, entry.1) ∈ knownKeys := by
    rw [h]
    simp
  unfold isStray
  rw [← Option.not_isSome, Bool.eq_iff_iff, decide_eq_true_iff, Bool.not_eq_true',
    Bool.eq_false_iff, Ne, isSome_find?_iff, hmem]

/-- What stands at known keys of an entry is text. -/
def EntryTexts (entry : String × Value) : Prop :=
  ∀ standing inner, entry.2 = .table standing inner →
    ∀ below ∈ inner, (entry.1, below.1) ∈ knownKeys → IsText below.2

/-- The names of the unknown keys of a section. -/
theorem unknownNames_pathsOf_table {part : String} {standing : Toml.Standing} {inner : Entries}
    (hpart : part ∈ parts) (hlists : Lists part fields) :
    unknownNames (pathsOf (part, .table standing inner)) =
      (inner.filter (isStray fields)).map fun entry => part ++ "." ++ entry.1 := by
  have hbelow : ∀ entry : String × Value,
      isUnknown [part, entry.1] = isStray fields entry := fun entry => by
    rw [hlists.isStray_eq]
    simp [isUnknown, hpart]
  unfold unknownNames pathsOf
  rw [List.filter_cons_of_neg (by simp [isUnknown, hpart]), List.filter_map, List.map_map]
  exact congrArg _ (List.filter_congr fun entry _ => hbelow entry)

theorem readSection_eq_ok_iff {part : String} {expected : Expected} {standing : Toml.Standing}
    {inner : Entries} {defaults read : S} {ignored : List String} (hpart : part ∈ parts)
    (hlists : Lists part fields) :
    readSection part expected fields (.table standing inner) defaults = .ok (read, ignored) ↔
      EntryTexts (part, .table standing inner) ∧ read = inner.foldl (setField fields) defaults
        ∧ ignored = unknownNames (pathsOf (part, .table standing inner)) := by
  have htexts : EntryTexts (part, .table standing inner) ↔
      ∀ entry ∈ inner, isStray fields entry = false → IsText entry.2 := by
    simp [EntryTexts, hlists.isStray_eq]
  rw [htexts, unknownNames_pathsOf_table hpart hlists]
  exact readEntries_eq_ok_iff

/-- What is put in the place of a section. -/
def readTable (fields : List (Field S)) (defaults : S) (value : Value) (before : S) : S :=
  match value with
  | .table _ inner => inner.foldl (setField fields) defaults
  | _ => before

/-- A section behind an entry: read anew if the entry is this section, and otherwise as it was. -/
def putPart (part : String) (fields : List (Field S)) (defaults : S) (entry : String × Value)
    (before : S) : S :=
  if entry.1 = part then readTable fields defaults entry.2 before else before

theorem putPart_of_ne {part : String} {defaults before : S} {entry : String × Value}
    (h : entry.1 ≠ part) : putPart part fields defaults entry before = before :=
  if_neg h

/-- Put what an entry says into settings. -/
def putEntry (settings : Settings) (entry : String × Value) : Settings where
  source := putPart "source" Source.fields {} entry settings.source
  target := putPart "target" Target.fields {} entry settings.target
  commit := putPart "commit" Commit.fields {} entry settings.commit

theorem part_mem_of_known {part key : String} (h : (part, key) ∈ knownKeys) : part ∈ parts := by
  have hall : knownKeys.all (fun known => parts.contains known.1) = true := by decide +kernel
  exact List.contains_iff_mem.mp (List.all_eq_true.mp hall _ h)

/-- The name of an unknown key is all that is said of it. -/
theorem unknownNames_pathsOf_unknown {key : String} {value : Value} (h : key ∉ parts) :
    unknownNames (pathsOf (key, value)) = [key] := by
  have hbelow : ∀ inner : Entries,
      (inner.map fun below => [key, below.1]).filter isUnknown = [] := fun inner => by
    simp [List.filter_map, Function.comp_def, isUnknown, h]
  unfold unknownNames pathsOf
  rw [List.filter_cons_of_pos (by simp [isUnknown, h])]
  cases value with
  | table standing inner =>
    exact congrArg (fun below => ([key] :: below).map (".".intercalate)) (hbelow inner)
  | _ => rfl

theorem putEntry_of_not_mem {entry : String × Value} (h : entry.1 ∉ parts) (settings : Settings) :
    putEntry settings entry = settings := by
  obtain ⟨hsource, htarget, hcommit⟩ :
      entry.1 ≠ "source" ∧ entry.1 ≠ "target" ∧ entry.1 ≠ "commit" := by
    simpa [parts] using h
  unfold putEntry
  rw [putPart_of_ne hsource, putPart_of_ne htarget, putPart_of_ne hcommit]

/-- A section is read into its place. -/
theorem readPart_eq_ok_iff {part : String} {expected : Expected} {standing : Toml.Standing}
    {inner : Entries} {defaults : S} {read : Settings} {ignored : List String} (put : S → Settings)
    (hpart : part ∈ parts) (hlists : Lists part fields) :
    (do
      let (settings, ignored) ← readSection part expected fields (.table standing inner) defaults
      return (put settings, ignored)) = .ok (read, ignored) ↔
      EntryTexts (part, .table standing inner)
        ∧ read = put (inner.foldl (setField fields) defaults)
        ∧ ignored = unknownNames (pathsOf (part, .table standing inner)) := by
  simp only [bind_eq_ok_iff, Prod.exists, readSection_eq_ok_iff hpart hlists]
  constructor
  · rintro ⟨_, _, ⟨htexts, rfl, rfl⟩, hresult⟩
    obtain ⟨rfl, rfl⟩ := Prod.mk.inj (Except.ok.inj hresult)
    exact ⟨htexts, rfl, rfl⟩
  · rintro ⟨htexts, rfl, rfl⟩
    exact ⟨_, _, ⟨htexts, rfl, rfl⟩, rfl⟩

theorem readEntry_eq_ok_iff {entry : String × Value} {settings read : Settings}
    {ignored : List String} (htable : entry.1 ∈ parts → IsTable entry.2) :
    readEntry entry.1 entry.2 settings = .ok (read, ignored) ↔
      EntryTexts entry ∧ read = putEntry settings entry
        ∧ ignored = unknownNames (pathsOf entry) := by
  obtain ⟨key, value⟩ := entry
  by_cases hpart : key ∈ parts
  · obtain ⟨standing, inner, rfl⟩ := htable hpart
    obtain rfl | rfl | rfl : key = "source" ∨ key = "target" ∨ key = "commit" := by
      simpa [parts] using hpart
    · exact readPart_eq_ok_iff (fun source => { settings with source }) hpart lists_source
    · exact readPart_eq_ok_iff (fun target => { settings with target }) hpart lists_target
    · exact readPart_eq_ok_iff (fun commit => { settings with commit }) hpart lists_commit
  · have hread : readEntry key value settings = .ok (settings, [key]) := by
      obtain ⟨hsource, htarget, hcommit⟩ : key ≠ "source" ∧ key ≠ "target" ∧ key ≠ "commit" := by
        simpa [parts] using hpart
      rw [readEntry, if_neg hsource, if_neg htarget, if_neg hcommit]
      rfl
    have htexts : EntryTexts (key, value) := fun _ _ _ below _ hknown =>
      absurd (part_mem_of_known hknown) hpart
    rw [hread, putEntry_of_not_mem hpart, unknownNames_pathsOf_unknown hpart, Except.ok.injEq,
      Prod.mk.injEq, eq_comm (a := settings), eq_comm (a := [key])]
    exact ⟨fun h => ⟨htexts, h⟩, And.right⟩

theorem readOnto_eq_ok_iff {entries : Entries} {settings read : Settings} {ignored : List String}
    (htables : ∀ entry ∈ entries, entry.1 ∈ parts → IsTable entry.2) :
    readOnto settings entries = .ok (read, ignored) ↔
      (∀ entry ∈ entries, EntryTexts entry) ∧ read = entries.foldl putEntry settings
        ∧ ignored = unknownNames (keyPaths entries) := by
  induction entries generalizing settings read ignored with
  | nil =>
    constructor
    · intro h
      obtain ⟨rfl, rfl⟩ := Prod.mk.inj (Except.ok.inj h)
      exact ⟨by simp, rfl, rfl⟩
    · rintro ⟨-, rfl, rfl⟩
      rfl
  | cons entry entries ih =>
    obtain ⟨htable, htables⟩ := List.forall_mem_cons.mp htables
    have hnames : unknownNames (keyPaths (entry :: entries)) =
        unknownNames (pathsOf entry) ++ unknownNames (keyPaths entries) := by
      simp [unknownNames, keyPaths]
    rw [readOnto, List.forall_mem_cons, List.foldl_cons, hnames]
    simp only [bind_eq_ok_iff, Prod.exists, readEntry_eq_ok_iff htable, ih htables]
    constructor
    · rintro ⟨_, _, ⟨htexts, rfl, rfl⟩, _, _, ⟨hmore, rfl, rfl⟩, hresult⟩
      obtain ⟨rfl, rfl⟩ := Prod.mk.inj (Except.ok.inj hresult)
      exact ⟨⟨htexts, hmore⟩, rfl, rfl⟩
    · rintro ⟨⟨htexts, hmore⟩, rfl, rfl⟩
      exact ⟨_, _, ⟨htexts, rfl, rfl⟩, _, _, ⟨hmore, rfl, rfl⟩, rfl⟩

/-! ## 5. Looking keys up instead -/

/-- A field of a document is what stands at its key, or else has its default. -/
theorem get_foldl_putEntry (view : Settings → S) {part : String} {defaults : S}
    {entries : Entries} (hentries : entries.Distinct)
    (hput : ∀ settings entry,
      view (putEntry settings entry) = putPart part fields defaults entry (view settings))
    (hdefaults : view {} = defaults) (hstores : Stores fields key make get) :
    get (view (entries.foldl putEntry {})) = madeAt make entries part key (get defaults) := by
  rw [get_foldl_of_nodup hput (Toml.Entries.distinct_iff.mp hentries).1, hdefaults]
  unfold madeAt valueAt
  cases hlookup : entries.lookup part with
  | none => rfl
  | some value =>
    cases value with
    | table standing inner =>
      have hinner : Toml.Entries.Distinct inner := hentries.of_lookup hlookup
      exact hstores.get_foldl (Toml.Entries.distinct_iff.mp hinner).1 defaults
    | _ => rfl

theorem foldl_putEntry_eq_said {entries : Entries} (hentries : entries.Distinct) :
    entries.foldl putEntry {} = said entries := by
  have hroot : Stores Source.fields "root" Path.ofText Source.root :=
    ⟨by decide, by simp [Source.fields]⟩
  have hremote : Stores Target.fields "remote" id Target.remote := ⟨by decide, by simp [Target.fields]⟩
  have hbranch : Stores Target.fields "branch" id Target.branch := ⟨by decide, by simp [Target.fields]⟩
  have hdir : Stores Target.fields "dir" Path.ofText Target.dir :=
    ⟨by decide, by simp [Target.fields]⟩
  have hscratch : Stores Target.fields "scratch" Path.ofText Target.scratch :=
    ⟨by decide, by simp [Target.fields]⟩
  have hprefix : Stores Commit.fields "prefix" id Commit.messagePrefix :=
    ⟨by decide, by simp [Commit.fields]⟩
  have hname : Stores Commit.fields "name" id Commit.name := ⟨by decide, by simp [Commit.fields]⟩
  have hemail : Stores Commit.fields "email" id Commit.email := ⟨by decide, by simp [Commit.fields]⟩
  unfold said
  rw [← get_foldl_putEntry Settings.source hentries (fun _ _ => rfl) rfl hroot,
    ← get_foldl_putEntry Settings.target hentries (fun _ _ => rfl) rfl hremote,
    ← get_foldl_putEntry Settings.target hentries (fun _ _ => rfl) rfl hbranch,
    ← get_foldl_putEntry Settings.target hentries (fun _ _ => rfl) rfl hdir,
    ← get_foldl_putEntry Settings.target hentries (fun _ _ => rfl) rfl hscratch,
    ← get_foldl_putEntry Settings.commit hentries (fun _ _ => rfl) rfl hprefix,
    ← get_foldl_putEntry Settings.commit hentries (fun _ _ => rfl) rfl hname,
    ← get_foldl_putEntry Settings.commit hentries (fun _ _ => rfl) rfl hemail]

theorem valueAt_eq_some_iff {entries : Entries} (hentries : entries.Distinct) {part key : String}
    {value : Value} :
    valueAt entries part key = some value ↔
      ∃ standing inner, (part, .table standing inner) ∈ entries ∧ (key, value) ∈ inner := by
  have hinner : ∀ {standing inner}, (part, .table standing inner) ∈ entries →
      Toml.Entries.Distinct inner := fun hmem => hentries.of_lookup (hentries.lookup_eq_some_iff.mpr hmem)
  constructor
  · intro h
    unfold valueAt at h
    split at h
    · next standing inner hlookup =>
      have hmem := hentries.lookup_eq_some_iff.mp hlookup
      exact ⟨standing, inner, hmem, (hinner hmem).lookup_eq_some_iff.mp h⟩
    · cases h
  · rintro ⟨standing, inner, hmem, hvalue⟩
    unfold valueAt
    simp only [hentries.lookup_eq_some_iff.mpr hmem]
    exact (hinner hmem).lookup_eq_some_iff.mpr hvalue

/-- Texts at the known keys can be asked for entry by entry or key by key. -/
theorem forall_entryTexts_iff {entries : Entries} (hentries : entries.Distinct) :
    (∀ entry ∈ entries, EntryTexts entry) ↔ KnownAreTexts entries := by
  constructor
  · rintro h known hknown value hvalue
    obtain ⟨standing, inner, hmem, hbelow⟩ := (valueAt_eq_some_iff hentries).mp hvalue
    exact h _ hmem standing inner rfl _ hbelow hknown
  · rintro h ⟨part, table⟩ hmem standing inner rfl below hbelow hknown
    exact h _ hknown below.2 ((valueAt_eq_some_iff hentries).mpr ⟨standing, inner, hmem, hbelow⟩)

theorem head?_of_mem_pathsOf {entry : String × Value} {path : List String}
    (h : path ∈ pathsOf entry) : path.head? = some entry.1 := by
  unfold pathsOf at h
  rcases List.mem_cons.mp h with rfl | h
  · rfl
  · split at h
    · obtain ⟨below, -, rfl⟩ := List.mem_map.mp h
      rfl
    · cases h

theorem nodup_pathsOf {entry : String × Value} (h : entry.2.Distinct) : (pathsOf entry).Nodup := by
  obtain ⟨key, value⟩ := entry
  unfold pathsOf
  cases value with
  | table standing inner =>
    have hkeys : (inner.map Prod.fst).Nodup := (Toml.Entries.distinct_iff.mp h).1
    have hpaths : (inner.map fun below => [key, below.1]) =
        (inner.map Prod.fst).map fun below => [key, below] := by rw [List.map_map]; rfl
    refine List.nodup_cons.mpr ⟨by simp, ?_⟩
    simp only [hpaths]
    exact hkeys.map fun one other hsame => (List.cons.inj (List.cons.inj hsame).2).1
  | _ => exact List.nodup_singleton _

/-- Every way is listed once. -/
theorem nodup_keyPaths {entries : Entries} (hentries : entries.Distinct) :
    (keyPaths entries).Nodup := by
  obtain ⟨hkeys, hvalues⟩ := Toml.Entries.distinct_iff.mp hentries
  refine List.nodup_flatMap.mpr ⟨fun entry hentry => nodup_pathsOf (hvalues entry hentry), ?_⟩
  refine (List.pairwise_map.mp hkeys).imp fun hne path hone hother => hne ?_
  exact Option.some.inj ((head?_of_mem_pathsOf hone).symm.trans (head?_of_mem_pathsOf hother))

section
variable {text : String} {entries : Entries}

/-- What is read of a document, in one line. -/
theorem ofText_eq_ok_iff (hparse : Toml.Document.parse? text = some entries)
    (htables : PartsAreTables entries) {settings : Settings} {ignored : List String} :
    ofText text = .ok (settings, ignored) ↔
      KnownAreTexts entries ∧ settings = said entries
        ∧ ignored = unknownNames (keyPaths entries) := by
  have hentries := Toml.distinct_of_parse? hparse
  have htable : ∀ entry ∈ entries, entry.1 ∈ parts → IsTable entry.2 := fun entry hentry hpart =>
    htables _ hpart _ (hentries.lookup_eq_some_iff.mpr hentry)
  rw [← forall_entryTexts_iff hentries, ← foldl_putEntry_eq_said hentries,
    ← readOnto_eq_ok_iff htable]
  unfold ofText ofEntries
  simp only [hparse]
  cases readOnto {} entries <;> simp

/-- The settings of a document are those it says, if it says texts. -/
theorem toOption_ofText (hparse : Toml.Document.parse? text = some entries) (htables : PartsAreTables entries) :
    (ofText text).toOption.map Prod.fst =
      if KnownAreTexts entries then some (said entries) else none := by
  split
  · next htexts =>
    rw [(ofText_eq_ok_iff hparse htables).mpr ⟨htexts, rfl, rfl⟩]
    rfl
  · next htexts =>
    cases hread : ofText text with
    | error reason => rfl
    | ok result => exact absurd ((ofText_eq_ok_iff hparse htables).mp hread).1 htexts

end

/-- Only what stands at the known keys matters. -/
theorem knownAreTexts_congr {entries others : Entries}
    (h : ∀ known ∈ knownKeys, valueAt entries known.1 known.2 = valueAt others known.1 known.2) :
    KnownAreTexts entries ↔ KnownAreTexts others :=
  forall₂_congr fun known hknown => by rw [h known hknown]

theorem said_congr {entries others : Entries}
    (h : ∀ known ∈ knownKeys, valueAt entries known.1 known.2 = valueAt others known.1 known.2) :
    said entries = said others := by
  simp only [knownKeys, List.forall_mem_cons] at h
  obtain ⟨hroot, hremote, hbranch, hdir, hscratch, hprefix, hname, hemail, -⟩ := h
  simp only [said, madeAt, hroot, hremote, hbranch, hdir, hscratch, hprefix, hname, hemail]

/-- A document is read as it is written. It can be read exactly if the known keys hold texts; the
settings are these texts, and defaults where there are none; and the names that are passed over are
those of the unknown keys, in their order. So documents that agree on the known keys say the same
settings. -/
theorem ofText_reads {text : String} {entries : Entries}
    (hparse : Toml.Document.parse? text = some entries) (htables : PartsAreTables entries) :
    ((∃ result, ofText text = .ok result) ↔ KnownAreTexts entries)
      ∧ (∀ settings ignored, ofText text = .ok (settings, ignored) →
          settings = said entries ∧ ignored = unknownNames (keyPaths entries))
      ∧ (keyPaths entries).Nodup
      ∧ ∀ other others, Toml.Document.parse? other = some others → PartsAreTables others →
          (∀ known ∈ knownKeys, valueAt entries known.1 known.2 = valueAt others known.1 known.2) →
            (ofText text).toOption.map Prod.fst = (ofText other).toOption.map Prod.fst := by
  refine ⟨?_, fun settings ignored hread => ((ofText_eq_ok_iff hparse htables).mp hread).2,
    nodup_keyPaths (Toml.distinct_of_parse? hparse), ?_⟩
  · constructor
    · rintro ⟨⟨settings, ignored⟩, hread⟩
      exact ((ofText_eq_ok_iff hparse htables).mp hread).1
    · intro htexts
      exact ⟨_, (ofText_eq_ok_iff hparse htables).mpr ⟨htexts, rfl, rfl⟩⟩
  · intro other others hother hothers hsame
    rw [toOption_ofText hparse htables, toOption_ofText hother hothers, said_congr hsame]
    simp only [knownAreTexts_congr hsame]

/-- A document with unknown keys, of which one is no section and one has a table below it, and without a
commit section. -/
def strayDocument : String :=
  "title = true\n[target]\nbranch = \"pages\"\nextra.branch = \"old\"\n[source]\nroot = \"src\"\n"

/-- A document is read although it has unknown keys, and these are named. -/
theorem ofText_reads_stray :
    ∃ entries, Toml.Document.parse? strayDocument = some entries
      ∧ PartsAreTables entries
      ∧ ofText strayDocument =
          .ok ({ source := { root := "src" }, target := { branch := "pages" } },
            ["title", "target.extra"]) := by
  have hdocument : (Toml.Document.parse? strayDocument).any (fun entries =>
      PartsAreTables entries ∧ KnownAreTexts entries
        ∧ said entries = { source := { root := "src" }, target := { branch := "pages" } }
        ∧ unknownNames (keyPaths entries) = ["title", "target.extra"]) = true := by decide +kernel
  obtain ⟨entries, hparse, hentries⟩ := (Option.any_eq_true ..).mp hdocument
  obtain ⟨htables, htexts, hsettings, hnames⟩ := of_decide_eq_true hentries
  obtain ⟨hread, hsaid, -⟩ := ofText_reads hparse htables
  obtain ⟨⟨settings, ignored⟩, hresult⟩ := hread.mpr htexts
  obtain ⟨rfl, rfl⟩ := hsaid _ _ hresult
  exact ⟨entries, hparse, htables, hsettings ▸ hnames ▸ hresult⟩

end PublishOnce.Settings
