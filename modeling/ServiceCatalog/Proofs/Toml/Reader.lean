import ServiceCatalog.Proofs.Toml.Number
import ServiceCatalog.Proofs.Toml.Quoted

namespace ServiceCatalog

namespace Toml

theorem isBareKey_ne {c d : Char} (hc : isBareKey c = true) (hd : isBareKey d = false) : c ≠ d := by
  rintro rfl
  rw [hc] at hd
  cases hd

theorem isSpace_of_isBareKey {c : Char} (hc : isBareKey c = true) : isSpace c = false := by
  have hblank := isBareKey_ne hc (by decide : isBareKey ' ' = false)
  have htab := isBareKey_ne hc (by decide : isBareKey '\t' = false)
  simp [isSpace, hblank, htab]

theorem skipSpace_of_head {cs : List Char} (h : ∀ c ∈ cs.head?, isSpace c = false) : skipSpace cs = cs := by
  cases cs with
  | nil => rfl
  | cons c cs => exact List.dropWhile_cons_of_neg (by simp [h c rfl])

theorem newline?_bare {c : Char} (hc : isBareKey c = true) (r : List Char) : newline? (c :: r) = none := by
  have hnewline := isBareKey_ne hc (by decide : isBareKey '\n' = false)
  have hreturn := isBareKey_ne hc (by decide : isBareKey '\r' = false)
  unfold newline?
  split <;> simp_all

theorem skipGap_bare {c : Char} (hc : isBareKey c = true) (r : List Char) : skipGap (c :: r) = c :: r := by
  have hhash := isBareKey_ne hc (by decide : isBareKey '#' = false)
  have hspace : skipSpace (c :: r) = c :: r := skipSpace_of_head (by simpa using isSpace_of_isBareKey hc)
  simp [skipGap, skipLines, hspace, hhash, newline?_bare hc]

theorem readItem_quote (depth : Nat) (s : String) (rest : List Char) :
    readItem (depth + 1) (quote s.toList ++ '\n' :: rest) = .ok (.string s, '\n' :: rest) := by
  have hapart : Apart ('\n' :: rest) := ⟨by simp, by simp⟩
  have hread := quoted?_quote s.toList hapart
  obtain ⟨c, r, hquote, hc⟩ := quote_eq_cons s.toList
  rw [hquote, List.cons_append] at hread ⊢
  rcases hc with rfl | rfl <;> simp [readItem, hread, Except.map]

theorem readItem_ofNat (depth : Nat) {n : Nat} (hn : n < 0x8000000000000000) (rest : List Char) :
    readItem (depth + 1) (Digits.ofNat n ++ '\n' :: rest) = .ok (.integer n, '\n' :: rest) := by
  have hread : readNumber (Digits.ofNat n ++ '\n' :: rest) = .ok (.integer n, '\n' :: rest) := by
    rw [readNumber, moment?_eq_none (fun _ => Digits.isDigit_of_mem_ofNat), number?_ofNat rest hn]
  obtain ⟨c, cs, hdigits⟩ := List.exists_cons_of_ne_nil (Digits.ofNat_ne_nil n)
  have hc : c.isDigit = true := Digits.isDigit_of_mem_ofNat (n := n) (hdigits ▸ List.mem_cons_self)
  have hother {d : Char} (hd : d.isDigit = false) : c = d → False := Digits.ne_of_isDigit hc hd
  have hnone : quoted? (c :: (cs ++ '\n' :: rest)) = none := by
    have hdouble := hother (by decide : '"'.isDigit = false)
    have hsingle := hother (by decide : '\x27'.isDigit = false)
    unfold quoted?
    split <;> simp_all
  rw [hdigits, List.cons_append] at hread ⊢
  rw [readItem.eq_11 depth c _ (hother (by decide)) (hother (by decide)) (hother (by decide)) (hother (by decide))
    (hother (by decide)) (hother (by decide)) (hother (by decide)) (hother (by decide)), hnone]
  exact (if_pos hc).trans hread

structure Entry where
  key : String
  value : List Char
  item : Item

namespace Entry

def text (e : Entry) : List Char := line e.key e.value

def field (e : Entry) : String × Item := (e.key, e.item)

structure Legible (e : Entry) : Prop where
  key_ne_nil : e.key.toList ≠ []
  bare : ∀ c ∈ e.key.toList, isBareKey c = true
  start : ∀ c ∈ e.value.head?, isSpace c = false
  readItem : ∀ rest, readItem nestingLimit (e.value ++ '\n' :: rest) = .ok (e.item, '\n' :: rest)

theorem length_le_flatMap_text (entries : List Entry) : entries.length ≤ (entries.flatMap text).length := by
  induction entries with
  | nil => exact Nat.le_refl 0
  | cons e entries ih =>
    simp only [List.flatMap_cons, List.length_append, List.length_cons, text, line, List.length_nil]
    omega

theorem text_append (e : Entry) (rest : List Char) :
    e.text ++ rest = e.key.toList ++ ' ' :: '=' :: ' ' :: (e.value ++ '\n' :: rest) := by
  simp [text, line]

variable {e : Entry} (he : e.Legible)
include he

theorem Legible.exists_cons : ∃ c r, e.key.toList = c :: r ∧ isBareKey c = true := by
  obtain ⟨c, r, hkey⟩ := List.exists_cons_of_ne_nil he.key_ne_nil
  exact ⟨c, r, hkey, he.bare c (hkey ▸ List.mem_cons_self)⟩

theorem Legible.span (rest : List Char) :
    (e.key.toList ++ ' ' :: rest).span isBareKey = (e.key.toList, ' ' :: rest) :=
  span_append_of_head he.bare (by simp; decide)

theorem Legible.readSimpleKey (rest : List Char) :
    ∃ place, readSimpleKey (e.key.toList ++ ' ' :: rest) = .ok (⟨e.key, place⟩, ' ' :: rest) := by
  obtain ⟨c, r, hkey, hc⟩ := he.exists_cons
  have hspan := he.span rest
  have hname : String.ofList (c :: r) = e.key := by rw [← hkey, String.ofList_toList]
  rw [hkey, List.cons_append] at hspan ⊢
  refine ⟨(c :: (r ++ ' ' :: rest)).length, ?_⟩
  unfold Toml.readSimpleKey
  split
  · next h => exact absurd (List.cons.inj h).1 (isBareKey_ne hc (by decide))
  · next h => exact absurd (List.cons.inj h).1 (isBareKey_ne hc (by decide))
  · simp only [hspan, hname]

theorem Legible.readKey (rest : List Char) :
    ∃ place, readKey (e.key.toList ++ ' ' :: '=' :: rest) = .ok (⟨[], ⟨e.key, place⟩⟩, '=' :: rest) := by
  obtain ⟨c, r, hkey, hc⟩ := he.exists_cons
  obtain ⟨place, hread⟩ := he.readSimpleKey ('=' :: rest)
  have hstart : skipSpace (e.key.toList ++ ' ' :: '=' :: rest) = e.key.toList ++ ' ' :: '=' :: rest :=
    skipSpace_of_head (by simpa [hkey] using isSpace_of_isBareKey hc)
  have hequals : skipSpace (' ' :: '=' :: rest) = '=' :: rest := rfl
  refine ⟨place, ?_⟩
  simp [Toml.readKey, readKeyParts, hstart, hread, hequals, nestingLimit, bind, Except.bind, pure, Except.pure]

theorem Legible.readAssignment (rest : List Char) :
    ∃ k place, k.name = e.key ∧
      readAssignment (Toml.readItem nestingLimit) (e.text ++ rest) = .ok (⟨⟨[], k⟩, place, e.item⟩, '\n' :: rest) := by
  obtain ⟨place, hkey⟩ := he.readKey (' ' :: (e.value ++ '\n' :: rest))
  have hvalue : skipSpace (' ' :: (e.value ++ '\n' :: rest)) = e.value ++ '\n' :: rest := by
    have hblank : isSpace ' ' = true := rfl
    have hhead : ∀ c ∈ (e.value ++ '\n' :: rest).head?, isSpace c = false := by
      cases h : e.value with
      | nil => simp; decide
      | cons c r => simpa [h] using he.start
    rw [skipSpace, List.dropWhile_cons_of_pos hblank]
    exact skipSpace_of_head hhead
  refine ⟨⟨e.key, place⟩, (e.value ++ '\n' :: rest).length, rfl, ?_⟩
  rw [text_append]
  simp only [Toml.readAssignment, hkey, hvalue, he.readItem, bind, Except.bind, pure, Except.pure]

theorem Legible.readEntry {t : Table} (ht : t.find? e.key = none) (rest : List Char) :
    ∃ k place, k.name = e.key ∧
      Draft.readEntry ⟨t, []⟩ (e.text ++ rest) = .ok (⟨t ++ [(k, some place, e.item)], []⟩, rest) := by
  obtain ⟨k, place, hname, hread⟩ := he.readAssignment rest
  obtain ⟨c, r, hkey, hc⟩ := he.exists_cons
  refine ⟨k, place, hname, ?_⟩
  have hinsert : Draft.insert ⟨t, []⟩ ⟨⟨[], k⟩, place, e.item⟩ = some ⟨t ++ [(k, some place, e.item)], []⟩ := by
    simp [Draft.insert, Assignment.insert, Table.insert, Table.within, hname, ht]
  have hend : readLineEnd ('\n' :: rest) = .ok rest := rfl
  unfold Draft.readEntry
  split
  · next h =>
    rw [text_append, hkey] at h
    exact absurd (List.cons.inj h).1 (isBareKey_ne hc (by decide))
  · next h =>
    rw [text_append, hkey] at h
    exact absurd (List.cons.inj h).1 (isBareKey_ne hc (by decide))
  · simp only [hread, hinsert, hend, Draft.readEntry.finish, bind, Except.bind, pure, Except.pure]

omit he

end Entry

def IsBare (key : String) : Prop := key.toList ≠ [] ∧ key.toList.all isBareKey = true

instance (key : String) : Decidable (IsBare key) := inferInstanceAs (Decidable (_ ∧ _))

def Entry.ofField (f : String × Leaf) : Entry := ⟨f.1, f.2.chars, f.2.item⟩

theorem Leaf.head_chars (leaf : Leaf) : ∀ c ∈ leaf.chars.head?, isSpace c = false := by
  cases leaf with
  | text s =>
    obtain ⟨c, r, hquote, hc⟩ := quote_eq_cons s.toList
    rcases hc with rfl | rfl <;> simp [chars, hquote, isSpace]
  | whole n =>
    intro c hc
    have hdigit : c.isDigit = true := Digits.isDigit_of_mem_ofNat (n := n) (List.mem_of_mem_head? hc)
    have hblank := Digits.ne_of_isDigit hdigit (by decide : ' '.isDigit = false)
    have htab := Digits.ne_of_isDigit hdigit (by decide : '\t'.isDigit = false)
    simp [isSpace, hblank, htab]

theorem Leaf.readItem_chars {leaf : Leaf} (h : leaf.fits = true) (rest : List Char) :
    Toml.readItem nestingLimit (leaf.chars ++ '\n' :: rest) = .ok (leaf.item, '\n' :: rest) := by
  cases leaf with
  | text s => exact readItem_quote 79 s rest
  | whole n => exact readItem_ofNat 79 (of_decide_eq_true h) rest

theorem Entry.legible_ofField {f : String × Leaf} (hkey : IsBare f.1) (hfits : f.2.fits = true) :
    (ofField f).Legible where
  key_ne_nil := hkey.1
  bare := List.all_eq_true.1 hkey.2
  start := f.2.head_chars
  readItem := Leaf.readItem_chars hfits

def Table.fields (t : Table) : List (String × Item) := t.map fun f => (f.1.name, f.2.2)

theorem Table.find?_eq_none_iff {t : Table} {name : String} : t.find? name = none ↔ name ∉ t.fields.map (·.1) := by
  simp [Table.find?, Table.fields]

variable {entries : List Entry}

theorem readLines_entries (hlegible : ∀ e ∈ entries, e.Legible) {t : Table}
    (hnew : (t.fields ++ entries.map Entry.field).Pairwise (·.1 ≠ ·.1)) {fuel : Nat} (hfuel : entries.length < fuel) :
    ∃ t', Draft.readLines fuel ⟨t, []⟩ (entries.flatMap Entry.text) = .ok ⟨t', []⟩ ∧
      t'.fields = t.fields ++ entries.map Entry.field := by
  induction entries generalizing t fuel with
  | nil =>
    obtain ⟨fuel, rfl⟩ := Nat.exists_eq_add_of_lt hfuel
    exact ⟨t, rfl, (List.append_nil _).symm⟩
  | cons e entries ih =>
    obtain ⟨he, hlegible⟩ := List.forall_mem_cons.1 hlegible
    obtain ⟨fuel, rfl⟩ : ∃ n, fuel = n + 1 := ⟨fuel - 1, by rw [List.length_cons] at hfuel; omega⟩
    have htaken : t.find? e.key = none := by
      rw [Table.find?_eq_none_iff]
      intro hmem
      obtain ⟨f, hf, hkey⟩ := List.mem_map.1 hmem
      exact (List.pairwise_append.1 hnew).2.2 f hf e.field List.mem_cons_self hkey
    obtain ⟨k, place, hname, hread⟩ := he.readEntry htaken (entries.flatMap Entry.text)
    obtain ⟨c, r, hkey, hc⟩ := he.exists_cons
    have hfields : Table.fields (t ++ [(k, some place, e.item)]) = t.fields ++ [e.field] := by
      simp [Table.fields, Entry.field, hname]
    obtain ⟨t', hrun, ht'⟩ := ih hlegible (t := t ++ [(k, some place, e.item)])
      (by rwa [hfields, List.append_assoc, List.singleton_append, ← List.map_cons]) (Nat.lt_of_succ_lt_succ hfuel)
    refine ⟨t', ?_, by rw [ht', hfields, List.append_assoc, List.singleton_append, List.map_cons]⟩
    have hgap : skipGap (e.text ++ entries.flatMap Entry.text) = e.text ++ entries.flatMap Entry.text := by
      rw [Entry.text_append, hkey]
      exact skipGap_bare hc _
    rw [List.flatMap_cons, Draft.readLines, hgap]
    rw [Entry.text_append, hkey] at hread ⊢
    simp only [List.cons_append] at hread ⊢
    simp only [hread, bind, Except.bind]
    exact hrun

theorem read_entries (hlegible : ∀ e ∈ entries, e.Legible) (hnew : (entries.map Entry.field).Pairwise (·.1 ≠ ·.1)) :
    ∃ t, read (entries.flatMap Entry.text) = .ok t ∧ t.fields = entries.map Entry.field := by
  have hlines : entries.length < (entries.flatMap Entry.text).length + 1 :=
    Nat.lt_succ_of_le (Entry.length_le_flatMap_text entries)
  obtain ⟨t, hrun, ht⟩ := readLines_entries hlegible (t := []) hnew hlines
  refine ⟨t, ?_, ht⟩
  unfold read
  split
  · next heq =>
    cases entries with
    | nil => cases heq
    | cons e entries =>
      obtain ⟨c, r, hkey, hc⟩ := (hlegible e List.mem_cons_self).exists_cons
      rw [List.flatMap_cons, Entry.text_append, hkey] at heq
      exact absurd (List.cons.inj heq).1 (isBareKey_ne hc (by decide))
  · simp only [Draft.empty, hrun]

/-- Fields with different bare names are written as a text, and what is read from it are these fields. The order in
which they are read is left open. -/
def Codec.Faithful (codec : Codec) : Prop :=
  ∀ fields : List (String × Leaf), (∀ f ∈ fields, IsBare f.1 ∧ f.2.fits = true) → (fields.map (·.1)).Nodup →
    ∃ s t, codec.write? fields = some s ∧ codec.read s = .ok t ∧
      t.fields.Perm (fields.map fun f => (f.1, f.2.item))

theorem faithful_codec : codec.Faithful := by
  intro fields hfields hnodup
  have hlegible : ∀ e ∈ fields.map Entry.ofField, e.Legible := by
    intro e he
    obtain ⟨f, hf, rfl⟩ := List.mem_map.1 he
    exact Entry.legible_ofField (hfields f hf).1 (hfields f hf).2
  have hentries : (fields.map Entry.ofField).map Entry.field = fields.map fun f => (f.1, f.2.item) := List.map_map
  have hnew : ((fields.map Entry.ofField).map Entry.field).Pairwise (·.1 ≠ ·.1) := by
    rw [hentries, List.pairwise_map]
    exact List.pairwise_map.1 hnodup
  have hfits : fields.all (·.2.fits) = true := List.all_eq_true.2 fun f hf => (hfields f hf).2
  obtain ⟨t, hread, ht⟩ := read_entries hlegible hnew
  rw [List.flatMap_map] at hread
  have htext : read (fields.flatMap fun f => line f.1 f.2.chars) = .ok t := hread
  exact ⟨_, t, if_pos hfits, by simp only [codec, String.toList_ofList, htext], .of_eq (ht.trans hentries)⟩

end Toml

end ServiceCatalog
