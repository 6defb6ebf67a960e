/-
PublishOnce.Proofs.Toml.Keys — no key stands twice in a table.

The entries of a document are a list, and a list could have two entries for one
key. Whoever reads it entry by entry and whoever looks a key up would then not
agree. That it never happens is what all the refusals are for while tables
grow: a key is added only where it is new (`distinct_of_parse?`).

One addition is made without a look. When a table is closed, it is put into its
place as if nothing stood there. Something did when its header was read, and
was taken out then, so what carries the induction over the lines is more than
that keys are distinct: the place of the open table is free (`Draft.Sound`).
All this growing is done by `within`, of which two runs along the same path are
compared. They come to the same table, and the second finds it as the first has
left it (`of_within`).
-/
import PublishOnce.Proofs.Rows
import PublishOnce.Toml.Document

namespace PublishOnce.Toml

/-! ## 1. Tables with distinct keys -/

/-- No key stands twice among the entries, nor in any table below them. -/
inductive Entries.Distinct : Entries → Prop
  | intro {entries : Entries} (keys : (entries.map Prod.fst).Nodup)
      (table : ∀ key standing inner, (key, .table standing inner) ∈ entries →
        Entries.Distinct inner)
      (tables : ∀ key elements inner, (key, .tables elements) ∈ entries → inner ∈ elements →
        Entries.Distinct inner) : Entries.Distinct entries

/-- No key stands twice in a table that the value is. Arrays are not looked into: nothing is ever
added to a table in one. -/
def Value.Distinct : Value → Prop
  | .table _ entries => Entries.Distinct entries
  | .tables elements => ∀ element ∈ elements, Entries.Distinct element
  | _ => True

namespace Entries

variable {entries : Entries} {key other : String} {value : Value}

theorem distinct_iff : entries.Distinct ↔
    (entries.map Prod.fst).Nodup ∧ ∀ entry ∈ entries, entry.2.Distinct := by
  constructor
  · rintro ⟨keys, table, tables⟩
    refine ⟨keys, fun entry hentry => ?_⟩
    obtain ⟨key, value⟩ := entry
    cases value with
    | table standing inner => exact table key standing inner hentry
    | tables elements => exact fun inner hinner => tables key elements inner hentry hinner
    | _ => trivial
  · rintro ⟨keys, values⟩
    exact ⟨keys, fun key standing inner hentry => values _ hentry,
      fun key elements inner hentry => values _ hentry inner⟩

theorem distinct_nil : Distinct [] := distinct_iff.mpr ⟨List.nodup_nil, by simp⟩

/-- With distinct keys, every entry is found. -/
theorem Distinct.lookup_eq_some_iff (h : entries.Distinct) :
    entries.lookup key = some value ↔ (key, value) ∈ entries :=
  Rows.lookup_eq_some_iff_mem (distinct_iff.mp h).1

theorem Distinct.of_lookup (h : entries.Distinct) (hfound : entries.lookup key = some value) :
    value.Distinct :=
  (distinct_iff.mp h).2 _ (Rows.mem_of_lookup hfound)

theorem Distinct.append (h : entries.Distinct) (hnew : entries.lookup key = none)
    (hvalue : value.Distinct) : Distinct (entries ++ [(key, value)]) := by
  obtain ⟨hkeys, hvalues⟩ := distinct_iff.mp h
  refine distinct_iff.mpr ⟨?_, ?_⟩
  · rw [List.map_append, List.nodup_append]
    refine ⟨hkeys, List.nodup_singleton key, fun one hone other hother => ?_⟩
    rintro rfl
    exact Rows.lookup_eq_none_iff_not_mem.mp hnew (by
      rw [← show one = key from List.mem_singleton.mp hother]
      exact hone)
  · intro entry hentry
    rcases List.mem_append.mp hentry with hentry | hentry
    · exact hvalues entry hentry
    · exact List.mem_singleton.mp hentry ▸ hvalue

theorem keys_set : (entries.set key value).map Prod.fst = entries.map Prod.fst := by
  unfold set
  rw [List.map_map]
  refine List.map_congr_left fun entry _ => ?_
  rw [Function.comp_apply]
  split
  · next h => exact h.symm
  · rfl

theorem Distinct.set (h : entries.Distinct) (hvalue : value.Distinct) :
    (entries.set key value).Distinct := by
  obtain ⟨hkeys, hvalues⟩ := distinct_iff.mp h
  refine distinct_iff.mpr ⟨by rwa [keys_set], fun entry hentry => ?_⟩
  obtain ⟨old, hold, rfl⟩ := List.mem_map.mp hentry
  split
  · exact hvalue
  · exact hvalues old hold

theorem Distinct.erase (h : entries.Distinct) : (entries.erase key).Distinct := by
  obtain ⟨hkeys, hvalues⟩ := distinct_iff.mp h
  exact distinct_iff.mpr ⟨hkeys.sublist (List.filter_sublist.map Prod.fst),
    fun entry hentry => hvalues entry (List.mem_of_mem_filter hentry)⟩

theorem lookup_append_self (hnew : entries.lookup key = none) :
    (entries ++ [(key, value)]).lookup key = some value := by
  rw [List.lookup_append, hnew]
  simp

theorem lookup_set_self {old : Value} (h : entries.lookup key = some old) :
    (entries.set key value).lookup key = some value := by
  induction entries with
  | nil => cases h
  | cons entry entries ih =>
    obtain ⟨first, held⟩ := entry
    unfold set at ih ⊢
    rw [List.map_cons]
    by_cases hfirst : first = key
    · rw [if_pos hfirst, List.lookup_cons_self]
    · have hbeq : (key == first) = false := beq_false_of_ne (Ne.symm hfirst)
      rw [List.lookup_cons, hbeq] at h
      rw [if_neg hfirst, List.lookup_cons, hbeq]
      exact ih h

theorem lookup_erase_self : (entries.erase key).lookup key = none := by
  rw [Rows.lookup_eq_none_iff_not_mem]
  unfold erase
  simp

end Entries

/-! ## 2. Going down a path -/

/-- The table that a path leads to, of a repeated header the last one; nothing is in a table that is
not there. -/
def tableAt : Entries → List String → Entries
  | entries, [] => entries
  | entries, key :: path =>
    match entries.lookup key with
    | some (.table _ inner) => tableAt inner path
    | some (.tables elements) =>
      match elements.getLast? with
      | some last => tableAt last path
      | none => []
    | _ => []

theorem tableAt_nil (path : List String) : tableAt [] path = [] := by cases path <;> rfl

section
variable {α : Type} {dotted : Bool} {change : Standing → Entries → Option (Entries × α)}
  {standing : Standing} {entries grown : Entries} {path : List String} {result : α}

/-- A change that is made down a path is made to the table that the path leads to, and can be found
there afterwards. Keys stay distinct if the change leaves them so. -/
theorem of_within (h : within dotted change standing entries path = some (grown, result)) :
    ∃ stands inner, change stands (tableAt entries path) = some (inner, result)
      ∧ tableAt grown path = inner
      ∧ (entries.Distinct → (tableAt entries path).Distinct ∧ (inner.Distinct → grown.Distinct)) := by
  induction path generalizing standing entries grown with
  | nil => exact ⟨standing, grown, h, rfl, fun hentries => ⟨hentries, id⟩⟩
  | cons key path ih =>
    rw [within] at h
    split at h
    · next hlookup =>
      obtain ⟨⟨below, _⟩, hwithin, hresult⟩ := Option.map_eq_some_iff.mp h
      obtain ⟨rfl, rfl⟩ := Prod.mk.inj hresult
      obtain ⟨stands, inner, hchange, hat, hdistinct⟩ := ih hwithin
      obtain ⟨-, hbelow⟩ := hdistinct Entries.distinct_nil
      have hempty : tableAt entries (key :: path) = tableAt [] path := by
        rw [tableAt, hlookup, tableAt_nil]
      refine ⟨stands, inner, hempty ▸ hchange, ?_, fun hentries => ⟨?_, fun hinner => ?_⟩⟩
      · rw [tableAt, Entries.lookup_append_self hlookup]
        exact hat
      · rw [hempty, tableAt_nil]
        exact Entries.distinct_nil
      · exact hentries.append hlookup (hbelow hinner)
    · next stands' table hlookup =>
      split at h
      · cases h
      obtain ⟨⟨below, _⟩, hwithin, hresult⟩ := Option.map_eq_some_iff.mp h
      obtain ⟨rfl, rfl⟩ := Prod.mk.inj hresult
      obtain ⟨stands, inner, hchange, hat, hdistinct⟩ := ih hwithin
      have htable : tableAt entries (key :: path) = tableAt table path := by rw [tableAt, hlookup]
      refine ⟨stands, inner, htable ▸ hchange, ?_, fun hentries => ?_⟩
      · rw [tableAt, Entries.lookup_set_self hlookup]
        exact hat
      · obtain ⟨htableAt, hbelow⟩ := hdistinct (hentries.of_lookup hlookup)
        exact ⟨htable ▸ htableAt, fun hinner => hentries.set (hbelow hinner)⟩
    · next elements hlookup =>
      split at h
      · cases h
      · next last hlast =>
        obtain ⟨⟨below, _⟩, hwithin, hresult⟩ := Option.map_eq_some_iff.mp h
        obtain ⟨rfl, rfl⟩ := Prod.mk.inj hresult
        obtain ⟨stands, inner, hchange, hat, hdistinct⟩ := ih hwithin
        have htable : tableAt entries (key :: path) = tableAt last path := by
          rw [tableAt, hlookup]
          simp only [hlast]
        refine ⟨stands, inner, htable ▸ hchange, ?_, fun hentries => ?_⟩
        · rw [tableAt, Entries.lookup_set_self hlookup]
          simp only [List.getLast?_concat]
          exact hat
        · have helements : ∀ element ∈ elements, Entries.Distinct element :=
            hentries.of_lookup hlookup
          obtain ⟨htableAt, hbelow⟩ := hdistinct (helements last (List.mem_of_getLast? hlast))
          refine ⟨htable ▸ htableAt, fun hinner => hentries.set fun element helement => ?_⟩
          rcases List.mem_append.mp helement with helement | helement
          · exact helements element (List.dropLast_subset _ helement)
          · exact List.mem_singleton.mp helement ▸ hbelow hinner
    · cases h

end

/-! ## 3. Values -/

theorem distinct_of_addEntry {standing : Standing} {entries grown : Entries} {way : List String}
    {key : String} {value : Value} (h : addEntry standing entries way key value = some grown)
    (hentries : entries.Distinct) (hvalue : value.Distinct) : grown.Distinct := by
  obtain ⟨⟨_, ⟨⟩⟩, hwithin, rfl⟩ := Option.map_eq_some_iff.mp h
  obtain ⟨stands, inner, hadd, -, hdistinct⟩ := of_within hwithin
  obtain ⟨htable, hgrown⟩ := hdistinct hentries
  refine hgrown ?_
  split at hadd
  · cases hadd
  · split at hadd
    · cases hadd
    · next hnew =>
      obtain ⟨rfl, -⟩ := Prod.mk.inj (Option.some.inj hadd)
      exact htable.append (Option.not_isSome_iff_eq_none.mp hnew) hvalue

/-- Pairs are added to an inline table one after the other. -/
theorem distinct_of_foldlM_addEntry {pairs : List (List String × String × Value)}
    {entries grown : Entries}
    (h : pairs.foldlM (fun entries pair =>
      addEntry .inline entries pair.1 pair.2.1 pair.2.2) entries = some grown)
    (hentries : entries.Distinct) (hpairs : ∀ pair ∈ pairs, pair.2.2.Distinct) :
    grown.Distinct := by
  induction pairs generalizing entries with
  | nil => exact Option.some.inj h ▸ hentries
  | cons pair pairs ih =>
    rw [List.foldlM_cons] at h
    obtain ⟨next, hadd, h⟩ := Option.bind_eq_some_iff.mp h
    exact ih h (distinct_of_addEntry hadd hentries (hpairs pair List.mem_cons_self))
      fun other hother => hpairs other (List.mem_cons_of_mem _ hother)

theorem distinct_of_inlineTable {pairs : List (List String × String × Value)} {value : Value}
    (h : inlineTable pairs = some value) (hpairs : ∀ pair ∈ pairs, pair.2.2.Distinct) :
    value.Distinct := by
  obtain ⟨entries, hfold, rfl⟩ := Option.map_eq_some_iff.mp h
  exact distinct_of_foldlM_addEntry hfold Entries.distinct_nil hpairs

/-- A reader of values whose tables have distinct keys. -/
def Sound (value : List Char → Option (Value × List Char)) : Prop :=
  ∀ cs item rest, value cs = some (item, rest) → item.Distinct

section
variable {value : List Char → Option (Value × List Char)} {cs rest : List Char}

theorem Sound.takePair {pair : List String × String × Value} (hvalue : Sound value)
    (h : takePair value cs = some (pair, rest)) : pair.2.2.Distinct := by
  obtain ⟨⟨way, key, behind⟩, -, h⟩ := Option.bind_eq_some_iff.mp h
  simp only at h
  split at h
  · obtain ⟨⟨item, after⟩, hitem, h⟩ := Option.bind_eq_some_iff.mp h
    obtain ⟨rfl, -⟩ := Prod.mk.inj (Option.some.inj h)
    exact hvalue _ _ _ hitem
  · cases h

theorem Sound.pairs {bound : Nat} {content : List (List String × String × Value)}
    (hvalue : Sound value) (h : pairs value bound cs = some (content, rest)) :
    ∀ pair ∈ content, pair.2.2.Distinct := by
  induction bound generalizing cs rest content with
  | zero => cases h
  | succ bound ih =>
    rw [Toml.pairs] at h
    obtain ⟨⟨pair, behind⟩, hpair, h⟩ := Option.bind_eq_some_iff.mp h
    have hfirst := hvalue.takePair hpair
    simp only at h
    split at h
    · obtain ⟨⟨more, after⟩, hmore, h⟩ := Option.bind_eq_some_iff.mp h
      obtain ⟨rfl, -⟩ := Prod.mk.inj (Option.some.inj h)
      exact List.forall_mem_cons.mpr ⟨hfirst, ih hmore⟩
    · obtain ⟨rfl, -⟩ := Prod.mk.inj (Option.some.inj h)
      exact List.forall_mem_singleton.mpr hfirst
    · cases h

theorem Sound.takeInlineTable (hvalue : Sound value) : Sound (takeInlineTable value) := by
  intro cs item rest h
  unfold Toml.takeInlineTable at h
  split at h
  · obtain ⟨table, htable, hresult⟩ := Option.map_eq_some_iff.mp h
    obtain ⟨rfl, -⟩ := Prod.mk.inj hresult
    exact distinct_of_inlineTable htable fun pair hpair => by cases hpair
  · obtain ⟨⟨content, behind⟩, hcontent, h⟩ := Option.bind_eq_some_iff.mp h
    obtain ⟨table, htable, h⟩ := Option.bind_eq_some_iff.mp h
    obtain ⟨rfl, -⟩ := Prod.mk.inj (Option.some.inj h)
    exact distinct_of_inlineTable htable (hvalue.pairs hcontent)

end

/-- A token is no table. -/
theorem distinct_of_scalar? {token : List Char} {item : Value} (h : scalar? token = some item) :
    item.Distinct := by
  unfold scalar? at h
  split at h
  · exact Option.some.inj h ▸ trivial
  split at h
  · exact Option.some.inj h ▸ trivial
  split at h
  · exact Option.some.inj h ▸ trivial
  split at h
  · exact Option.some.inj h ▸ trivial
  · obtain ⟨number, -, rfl⟩ := Option.map_eq_some_iff.mp h
    trivial

theorem sound_takeScalar : Sound takeScalar := by
  intro cs item rest h
  simp only [takeScalar] at h
  split at h
  · cases h
  next value hscalar =>
  have hvalue := distinct_of_scalar? hscalar
  split at h
  · split at h
    · split at h
      · obtain ⟨rfl, -⟩ := Prod.mk.inj (Option.some.inj h)
        trivial
      · cases h
    · obtain ⟨rfl, -⟩ := Prod.mk.inj (Option.some.inj h)
      exact hvalue
  · obtain ⟨rfl, -⟩ := Prod.mk.inj (Option.some.inj h)
    exact hvalue

/-- What is no table can be made of anything that was read. -/
theorem distinct_of_map {α : Type} {found : Option (α × List Char)} (make : α → Value) {item : Value}
    {rest : List Char} (hmake : ∀ content, (make content).Distinct)
    (h : found.map (fun (content, rest) => (make content, rest)) = some (item, rest)) :
    item.Distinct := by
  obtain ⟨content, -, hresult⟩ := Option.map_eq_some_iff.mp h
  obtain ⟨rfl, -⟩ := Prod.mk.inj hresult
  exact hmake content.1

theorem sound_takeValue (depth : Nat) : Sound (takeValue depth) := by
  induction depth using Nat.strongRecOn with
  | ind depth ih =>
    intro cs item rest h
    unfold takeValue at h
    split at h
    · exact distinct_of_map (fun text => .string (String.ofList text)) (fun _ => trivial) h
    · exact distinct_of_map (fun text => .string (String.ofList text)) (fun _ => trivial) h
    · cases h
    · cases h
    · exact distinct_of_map .array (fun _ => trivial) h
    · next less _ => exact (ih less (Nat.lt_succ_self less)).takeInlineTable _ _ _ h
    · exact sound_takeScalar _ _ _ h

/-! ## 4. Lines -/

namespace Draft

/-- Keys are distinct in what is finished and in the open table, and nothing stands in the place of the
open table. -/
structure Sound (draft : Draft) : Prop where
  finished : draft.finished.Distinct
  current : draft.current.Distinct
  free : draft.repeated = false → ∀ key ∈ draft.header.getLast?,
    (tableAt draft.finished draft.header.dropLast).lookup key = none

theorem Sound.close {draft : Draft} {entries : Entries} (h : draft.Sound)
    (hclose : draft.close = some entries) : entries.Distinct := by
  unfold Draft.close at hclose
  split at hclose
  · exact Option.some.inj hclose ▸ h.current
  · next key hkey =>
    obtain ⟨⟨_, ⟨⟩⟩, hwithin, rfl⟩ := Option.map_eq_some_iff.mp hclose
    obtain ⟨stands, inner, hplace, -, hdistinct⟩ := of_within hwithin
    obtain ⟨htable, hgrown⟩ := hdistinct h.finished
    refine hgrown ?_
    split at hplace
    · split at hplace
      · next hnew =>
        obtain ⟨rfl, -⟩ := Prod.mk.inj (Option.some.inj hplace)
        refine htable.append hnew fun element helement => ?_
        exact List.mem_singleton.mp helement ▸ h.current
      · next elements hold =>
        obtain ⟨rfl, -⟩ := Prod.mk.inj (Option.some.inj hplace)
        refine htable.set fun element helement => ?_
        rcases List.mem_append.mp helement with helement | helement
        · exact htable.of_lookup hold element helement
        · exact List.mem_singleton.mp helement ▸ h.current
      · cases hplace
    · next honce =>
      obtain ⟨rfl, -⟩ := Prod.mk.inj (Option.some.inj hplace)
      exact htable.append (h.free (by simpa using honce) key hkey) h.current

theorem Sound.openTable {draft opened : Draft} {header : List String} (h : draft.Sound)
    (hopen : draft.openTable header = some opened) : opened.Sound := by
  obtain ⟨entries, hclose, hopen⟩ := Option.bind_eq_some_iff.mp hopen
  obtain ⟨key, hkey, hopen⟩ := Option.bind_eq_some_iff.mp hopen
  obtain ⟨⟨finished, current⟩, hwithin, hopen⟩ := Option.bind_eq_some_iff.mp hopen
  obtain rfl := Option.some.inj hopen
  obtain ⟨stands, inner, htake, hat, hdistinct⟩ := of_within hwithin
  obtain ⟨htable, hgrown⟩ := hdistinct (h.close hclose)
  have hfree : ∀ other ∈ header.getLast?, other = key := fun other hother =>
    Option.some.inj (hother.symm.trans hkey)
  split at htake
  · next hnew =>
    obtain ⟨rfl, rfl⟩ := Prod.mk.inj (Option.some.inj htake)
    refine ⟨hgrown htable, Entries.distinct_nil, fun _ other hother => ?_⟩
    rw [hfree other hother, hat, hnew]
  · next taken hold =>
    obtain ⟨rfl, rfl⟩ := Prod.mk.inj (Option.some.inj htake)
    refine ⟨hgrown htable.erase, htable.of_lookup hold, fun _ other hother => ?_⟩
    rw [hfree other hother, hat, Entries.lookup_erase_self]
  · cases htake

theorem Sound.openElement {draft opened : Draft} {header : List String} (h : draft.Sound)
    (hopen : draft.openElement header = some opened) : opened.Sound := by
  obtain ⟨entries, hclose, hopen⟩ := Option.bind_eq_some_iff.mp hopen
  obtain ⟨key, hkey, hopen⟩ := Option.bind_eq_some_iff.mp hopen
  obtain ⟨⟨finished, ⟨⟩⟩, hwithin, hopen⟩ := Option.bind_eq_some_iff.mp hopen
  obtain rfl := Option.some.inj hopen
  obtain ⟨stands, inner, hcheck, -, hdistinct⟩ := of_within hwithin
  obtain ⟨htable, hgrown⟩ := hdistinct (h.close hclose)
  refine ⟨hgrown ?_, Entries.distinct_nil, fun honce => by cases honce⟩
  split at hcheck
  · next hnew =>
    obtain ⟨rfl, -⟩ := Prod.mk.inj (Option.some.inj hcheck)
    exact htable.append hnew fun element helement => by cases helement
  · obtain ⟨rfl, -⟩ := Prod.mk.inj (Option.some.inj hcheck)
    exact htable
  · cases hcheck

theorem Sound.add {draft grown : Draft} {way : List String} {key : String} {value : Value}
    (h : draft.Sound) (hvalue : value.Distinct) (hadd : draft.add way key value = some grown) :
    grown.Sound := by
  obtain ⟨current, hcurrent, hadd⟩ := Option.bind_eq_some_iff.mp hadd
  obtain rfl := Option.some.inj hadd
  exact ⟨h.finished, distinct_of_addEntry hcurrent h.current hvalue, h.free⟩

end Draft

/-- A line leaves a sound draft sound. -/
theorem sound_of_takeLine {draft grown : Draft} {cs rest : List Char} (h : draft.Sound)
    (hline : takeLine draft cs = some (grown, rest)) : grown.Sound := by
  unfold takeLine at hline
  split at hline
  · obtain ⟨behind, -, hresult⟩ := Option.map_eq_some_iff.mp hline
    exact (Prod.mk.inj hresult).1 ▸ h
  · obtain ⟨behind, -, hresult⟩ := Option.map_eq_some_iff.mp hline
    exact (Prod.mk.inj hresult).1 ▸ h
  · obtain ⟨behind, -, hresult⟩ := Option.map_eq_some_iff.mp hline
    exact (Prod.mk.inj hresult).1 ▸ h
  · obtain ⟨⟨⟨header, repeated⟩, behind⟩, -, hline⟩ := Option.bind_eq_some_iff.mp hline
    obtain ⟨after, -, hline⟩ := Option.bind_eq_some_iff.mp hline
    split at hline
    · obtain ⟨opened, hopen, hline⟩ := Option.bind_eq_some_iff.mp hline
      exact (Prod.mk.inj (Option.some.inj hline)).1 ▸ h.openElement hopen
    · obtain ⟨opened, hopen, hline⟩ := Option.bind_eq_some_iff.mp hline
      exact (Prod.mk.inj (Option.some.inj hline)).1 ▸ h.openTable hopen
  · obtain ⟨⟨⟨way, key, value⟩, behind⟩, hpair, hline⟩ := Option.bind_eq_some_iff.mp hline
    obtain ⟨after, -, hline⟩ := Option.bind_eq_some_iff.mp hline
    obtain ⟨added, hadd, hline⟩ := Option.bind_eq_some_iff.mp hline
    obtain ⟨rfl, -⟩ := Prod.mk.inj (Option.some.inj hline)
    exact h.add ((sound_takeValue _).takePair hpair) hadd

theorem sound_of_takeLines {bound : Nat} {draft grown : Draft} {cs : List Char} (h : draft.Sound)
    (hlines : takeLines bound draft cs = some grown) : grown.Sound := by
  induction bound generalizing draft cs with
  | zero => cases hlines
  | succ bound ih =>
    rw [takeLines] at hlines
    split at hlines
    · exact Option.some.inj hlines ▸ h
    · obtain ⟨⟨next, rest⟩, hline, hlines⟩ := Option.bind_eq_some_iff.mp hlines
      exact ih (sound_of_takeLine h hline) hlines

/-- No key stands twice in a document. -/
theorem distinct_of_parse? {text : String} {entries : Entries}
    (h : Document.parse? text = some entries) : entries.Distinct := by
  obtain ⟨draft, hlines, hclose⟩ := Option.bind_eq_some_iff.mp h
  have hstart : Draft.Sound {} :=
    ⟨Entries.distinct_nil, Entries.distinct_nil, fun _ key hkey => by cases hkey⟩
  exact (sound_of_takeLines hstart hlines).close hclose

end PublishOnce.Toml
