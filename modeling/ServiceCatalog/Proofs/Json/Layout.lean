import ServiceCatalog.Proofs.Json.Literal
import ServiceCatalog.Proofs.Json.Tree

/-!
Written trees are read again: the reader makes of the text of a tree that tree, but for the containers
that stand too deep, whatever blanks the printer sets.
-/

namespace ServiceCatalog

def Binary64.Restored (x : Binary64) : Prop :=
  ∃ l, Json.Literal.read x.jsonText = some (l, []) ∧ l.value = .float x

def Binary64.restores (x : Binary64) : Bool :=
  match Json.Literal.read x.jsonText with
  | some (l, []) =>
    match l.value with
    | .float y => y = x
    | _ => false
  | _ => false

theorem Binary64.restored_iff {x : Binary64} : x.Restored ↔ x.restores = true := by
  unfold restores
  constructor
  · rintro ⟨l, hread, hvalue⟩
    simp [hread, hvalue]
  · intro h
    split at h
    · next l hread =>
      split at h
      · next y hvalue =>
        obtain rfl := of_decide_eq_true h
        exact ⟨l, hread, hvalue⟩
      · cases h
    · cases h

instance : DecidablePred Binary64.Restored := fun _ => decidable_of_iff _ Binary64.restored_iff.symm

namespace Json

def Printable (j : Json) : Prop :=
  j.legible = true ∧ (∀ n, Part (.int n) j → Literal.InRange n) ∧ ∀ x, Part (.float x) j → x.Restored

theorem Printable.part {p j : Json} (hj : Printable j) (hp : Part p j) : Printable p :=
  ⟨legible_of_part hp hj.1, fun n hn => hj.2.1 n (hn.trans hp), fun x hx => hj.2.2 x (hx.trans hp)⟩

theorem skipSpace_of_not_space {c : Char} {cs : List Char} (h : isSpace c = false) :
    skipSpace (c :: cs) = c :: cs := by
  simp [skipSpace, h]

def Blank (gap : List Char) : Prop := ∀ c ∈ gap, isSpace c = true

theorem skipSpace_blank {gap : List Char} (h : Blank gap) (cs : List Char) :
    skipSpace (gap ++ cs) = skipSpace cs :=
  List.dropWhile_append_of_pos h

theorem readValue_blank {gap : List Char} (h : Blank gap) (fuel d : Nat) (cs : List Char) :
    readValue fuel d (gap ++ cs) = readValue fuel d cs := by
  cases fuel with
  | zero => simp only [readValue]
  | succ fuel => simp only [readValue, skipSpace_blank h]

theorem readItems_blank {gap : List Char} (h : Blank gap) (fuel d : Nat) (cs : List Char) :
    readItems fuel d (gap ++ cs) = readItems fuel d cs := by
  cases fuel with
  | zero => simp only [readItems]
  | succ fuel => simp only [readItems, skipSpace_blank h]

theorem readField_blank {gap : List Char} (h : Blank gap) (fuel d : Nat) (cs : List Char) :
    readField fuel d (gap ++ cs) = readField fuel d cs := by
  cases fuel with
  | zero => simp only [readField]
  | succ fuel => simp only [readField, skipSpace_blank h]

theorem readFields_blank {gap : List Char} (h : Blank gap) (fuel d : Nat) (cs : List Char) :
    readFields fuel d (gap ++ cs) = readFields fuel d cs := by
  cases fuel with
  | zero => simp only [readFields]
  | succ fuel => simp only [readFields, skipSpace_blank h]

theorem blank_newline (level : Nat) : Blank (newline level) := by
  intro c hc
  rcases List.mem_cons.1 hc with rfl | hc
  · decide
  · obtain rfl := List.eq_of_mem_replicate hc
    decide

theorem closes_cons {c : Char} (h : c = ',' ∨ c = ']' ∨ c = '}' ∨ isSpace c = true) (rest : List Char) :
    Closes (c :: rest) := by
  have hchar : c ∈ [',', ']', '}', ' ', '\n', '\t', '\r'] := by
    simpa [isSpace, or_assoc] using h
  have hall : [',', ']', '}', ' ', '\n', '\t', '\r'].all
      (fun c => !c.isDigit && c != '.' && c != 'e' && c != 'E') = true := by decide
  rintro c' ⟨⟩
  simpa [and_assoc] using List.all_eq_true.1 hall c hchar

theorem closes_blank {gap : List Char} (h : Blank gap) {c : Char} (hc : c = ']' ∨ c = '}') (rest : List Char) :
    Closes (gap ++ c :: rest) := by
  cases gap with
  | nil => exact closes_cons (hc.elim (fun h => .inr (.inl h)) fun h => .inr (.inr (.inl h))) _
  | cons b gap => exact closes_cons (.inr (.inr (.inr (h b List.mem_cons_self)))) _

theorem ne_of_literal {c : Char} (h : c = '-' ∨ c.isDigit = true) :
    ∀ c' ∈ [' ', '\n', '\t', '\r', ']', '"', '[', '{', 'n', 't', 'f'], c ≠ c' := by
  rintro c' hc' rfl
  have hothers : [' ', '\n', '\t', '\r', ']', '"', '[', '{', 'n', 't', 'f'].all
      (fun c => c != '-' && !c.isDigit) = true := by decide
  have hc := List.all_eq_true.1 hothers c hc'
  rcases h with rfl | h
  · exact absurd hc (by decide)
  · simp [h] at hc

theorem not_space_of_literal {c : Char} (h : c = '-' ∨ c.isDigit = true) : isSpace c = false := by
  have hne := ne_of_literal h
  simp only [List.forall_mem_cons] at hne
  simp [isSpace, hne]

theorem readValue_literal {cs rest : List Char} {l : Literal} (h : Literal.read cs = some (l, []))
    (hrest : Closes rest) {fuel : Nat} (hfuel : 0 < fuel) (d : Nat) :
    readValue fuel d (cs ++ rest) = some (l.value, rest) := by
  obtain ⟨fuel, rfl⟩ := Nat.exists_eq_succ_of_ne_zero (Nat.ne_of_gt hfuel)
  have hread := Literal.read_append hrest h
  obtain ⟨c, cs', rfl, hc⟩ := Literal.head_of_read h
  rw [List.cons_append] at hread ⊢
  have hne := ne_of_literal hc
  simp only [List.forall_mem_cons] at hne
  simp only [readValue, skipSpace_of_not_space (not_space_of_literal hc)]
  simp_all

theorem readValue_quote (fuel d : Nat) (s : String) (rest : List Char) :
    readValue (fuel + 1) d (quote s ++ rest) = some (str s, rest) := by
  simp only [quote, List.cons_append, List.append_assoc, List.nil_append, readValue,
    skipSpace_of_not_space (c := '"') (by decide), readString_quote]
  rfl

theorem readValue_int {n : Int} (hn : Literal.InRange n) {rest : List Char} (hrest : Closes rest)
    (fuel d : Nat) : readValue (fuel + 1) d (Digits.ofInt n ++ rest) = some (int n, rest) := by
  have hread := Literal.read_ofInt n closes_nil
  rw [List.append_nil] at hread
  rw [readValue_literal hread hrest (Nat.succ_pos fuel), Literal.value_ofInt hn]

theorem readField_quote {fuel d : Nat} {k : String} {j : Json} {cs rest : List Char}
    (h : readValue fuel d cs = some (j, rest)) :
    readField (fuel + 1) d (quote k ++ ':' :: cs) = some (some k, j, rest) := by
  simp only [quote, List.cons_append, List.append_assoc, List.nil_append, readField,
    skipSpace_of_not_space (c := '"') (by decide), readString_quote, Option.bind_eq_bind, Option.bind_some,
    skipSpace_of_not_space (c := ':') (by decide), h]
  rfl

theorem readFields_of_ne {cs r : List Char} {c : Char} (hcs : skipSpace cs = c :: r) (hc : c ≠ '}')
    (fuel d : Nat) :
    readFields (fuel + 1) d cs = (readField fuel d (c :: r)).bind fun p =>
      (readMoreFields fuel d p.2.2).bind fun q =>
        some (p.1.bind fun k => q.1.bind fun fs => some ((k, p.2.1) :: fs), q.2) := by
  rw [readFields, hcs]
  split
  · next he =>
    cases he
    exact absurd rfl hc
  · rfl

theorem readFields_cons {fuel d : Nat} {k : String} {j : Json} {cs r rest : List Char}
    {fields : List (String × Json)} (hfield : readField fuel d (quote k ++ cs) = some (some k, j, r))
    (hmore : readMoreFields fuel d r = some (some fields, rest)) :
    readFields (fuel + 1) d (quote k ++ cs) = some (some ((k, j) :: fields), rest) := by
  have hquote : quote k ++ cs = '"' :: (k.toList.flatMap escape ++ ['"'] ++ cs) := rfl
  rw [hquote] at hfield ⊢
  rw [readFields_of_ne (skipSpace_of_not_space (by decide)) (by decide), hfield, Option.bind_some, hmore]
  rfl

theorem readMoreFields_nil (fuel d : Nat) (rest : List Char) :
    readMoreFields (fuel + 1) d ('}' :: rest) = some (some [], rest) := by
  simp only [readMoreFields, skipSpace_of_not_space (c := '}') (by decide)]

theorem readMoreFields_cons {fuel d : Nat} {k : String} {j : Json} {cs r rest : List Char}
    {fields : List (String × Json)} (hfield : readField fuel d cs = some (some k, j, r))
    (hmore : readMoreFields fuel d r = some (some fields, rest)) :
    readMoreFields (fuel + 1) d (',' :: cs) = some (some ((k, j) :: fields), rest) := by
  simp only [readMoreFields, skipSpace_of_not_space (c := ',') (by decide), hfield, Option.bind_eq_bind,
    Option.bind_some, hmore]
  rfl

theorem readValue_obj {fuel d : Nat} {cs rest : List Char} {fields : List (String × Json)}
    (h : readFields fuel d cs = some (some fields, rest)) :
    readValue (fuel + 1) (d + 1) ('{' :: cs) = some (obj fields, rest) := by
  simp only [readValue, skipSpace_of_not_space (c := '{') (by decide), Nat.add_sub_cancel, h]
  rfl

theorem readItems_of_ne {cs r : List Char} {c : Char} (hcs : skipSpace cs = c :: r) (hc : c ≠ ']')
    (fuel d : Nat) :
    readItems (fuel + 1) d cs = (readValue fuel d (c :: r)).bind fun p =>
      (readMoreItems fuel d p.2).bind fun q => some (p.1 :: q.1, q.2) := by
  rw [readItems, hcs]
  split
  · next he =>
    cases he
    exact absurd rfl hc
  · rfl

structure Layout where
  gap : Nat → List Char
  colon : List Char
  blank_gap : ∀ level, Blank (gap level)
  blank_colon : Blank colon

namespace Layout

def pretty : Layout := ⟨newline, [' '], blank_newline, List.forall_mem_singleton.2 rfl⟩

def compact : Layout := ⟨fun _ => [], [], fun _ => nofun, nofun⟩

variable (w : Layout)

mutual

def chars (level : Nat) : Json → List Char
  | .arr [] => ['[', ']']
  | .obj [] => ['{', '}']
  | .arr (j :: r) =>
    '[' :: (w.gap (level + 1) ++ (chars (level + 1) j ++ (moreItems (level + 1) r ++ (w.gap level ++ [']']))))
  | .obj ((k, j) :: r) =>
    '{' :: (w.gap (level + 1) ++ (quote k ++ ':' :: (w.colon ++ (chars (level + 1) j ++
      (moreFields (level + 1) r ++ (w.gap level ++ ['}']))))))
  | leaf => leaf.compactChars

def moreItems (level : Nat) : List Json → List Char
  | [] => []
  | j :: r => ',' :: (w.gap level ++ (chars level j ++ moreItems level r))

def moreFields (level : Nat) : List (String × Json) → List Char
  | [] => []
  | (k, j) :: r => ',' :: (w.gap level ++ (quote k ++ ':' :: (w.colon ++ (chars level j ++ moreFields level r))))

end

theorem prettyItems_cons {j : Json} {r : List Json} (level : Nat)
    (h : ∀ i ∈ j :: r, i.prettyChars level = pretty.chars level i) :
    prettyItems level (j :: r) = newline level ++ (pretty.chars level j ++ pretty.moreItems level r) := by
  obtain ⟨hj, hr⟩ := List.forall_mem_cons.1 h
  induction r generalizing j with
  | nil => simp [prettyItems, moreItems, hj]
  | cons i r ih =>
    obtain ⟨hi, hr'⟩ := List.forall_mem_cons.1 hr
    rw [prettyItems, ih hr hi hr', moreItems, hj]
    · simp [pretty]
    · rintro ⟨⟩

theorem prettyFields_cons {k : String} {j : Json} {r : List (String × Json)} (level : Nat)
    (h : ∀ p ∈ (k, j) :: r, p.2.prettyChars level = pretty.chars level p.2) :
    prettyFields level ((k, j) :: r)
      = newline level ++ (quote k ++ ':' :: ' ' :: (pretty.chars level j ++ pretty.moreFields level r)) := by
  obtain ⟨hj, hr⟩ := List.forall_mem_cons.1 h
  induction r generalizing k j with
  | nil => simp_all [prettyFields, moreFields]
  | cons p r ih =>
    obtain ⟨k', i⟩ := p
    obtain ⟨hi, hr'⟩ := List.forall_mem_cons.1 hr
    rw [prettyFields, ih hr hi hr', moreFields, hj]
    · simp [pretty]
    · rintro ⟨⟩

theorem chars_pretty (j : Json) : ∀ level, j.prettyChars level = pretty.chars level j := by
  induction j using induct with
  | arr items ih =>
    intro level
    cases items with
    | nil => simp only [prettyChars, chars]
    | cons j r =>
      rw [prettyChars, prettyItems_cons _ fun i hi => ih i hi _, chars]
      · simp [pretty]
      · rintro ⟨⟩
  | obj fields ih =>
    intro level
    cases fields with
    | nil => simp only [prettyChars, chars]
    | cons p r =>
      obtain ⟨k, j⟩ := p
      rw [prettyChars, prettyFields_cons _ fun p hp => ih p hp _, chars]
      · simp [pretty]
      · rintro ⟨⟩
  | null | bool | int | float | str | illegible => intro level; simp only [prettyChars, chars, compactChars]

theorem compactItems_cons {j : Json} {r : List Json} (level : Nat)
    (h : ∀ i ∈ j :: r, i.compactChars = compact.chars level i) :
    compactItems (j :: r) = compact.chars level j ++ compact.moreItems level r := by
  obtain ⟨hj, hr⟩ := List.forall_mem_cons.1 h
  induction r generalizing j with
  | nil => simp [compactItems, moreItems, hj]
  | cons i r ih =>
    obtain ⟨hi, hr'⟩ := List.forall_mem_cons.1 hr
    rw [compactItems, ih hr hi hr', moreItems, hj]
    · simp [compact]
    · rintro ⟨⟩

theorem compactFields_cons {k : String} {j : Json} {r : List (String × Json)} (level : Nat)
    (h : ∀ p ∈ (k, j) :: r, p.2.compactChars = compact.chars level p.2) :
    compactFields ((k, j) :: r) = quote k ++ ':' :: (compact.chars level j ++ compact.moreFields level r) := by
  obtain ⟨hj, hr⟩ := List.forall_mem_cons.1 h
  induction r generalizing k j with
  | nil => simp_all [compactFields, moreFields]
  | cons p r ih =>
    obtain ⟨k', i⟩ := p
    obtain ⟨hi, hr'⟩ := List.forall_mem_cons.1 hr
    rw [compactFields, ih hr hi hr', moreFields, hj]
    · simp [compact]
    · rintro ⟨⟩

theorem chars_compact (j : Json) : ∀ level, j.compactChars = compact.chars level j := by
  induction j using induct with
  | arr items ih =>
    intro level
    cases items with
    | nil => simp [compactChars, compactItems, chars]
    | cons j r =>
      rw [compactChars, compactItems_cons (level + 1) fun i hi => ih i hi _, chars]
      simp [compact]
  | obj fields ih =>
    intro level
    cases fields with
    | nil => simp [compactChars, compactFields, chars]
    | cons p r =>
      obtain ⟨k, j⟩ := p
      rw [compactChars, compactFields_cons (level + 1) fun p hp => ih p hp _, chars]
      simp [compact]
  | null | bool | int | float | str | illegible => intro level; simp only [chars]

theorem head_chars {j : Json} (hj : Printable j) (level : Nat) :
    ∃ c cs, w.chars level j = c :: cs ∧ isSpace c = false ∧ c ≠ ']' := by
  have hliteral {cs : List Char} {l : Literal} (h : Literal.read cs = some (l, [])) :
      ∃ c cs', cs = c :: cs' ∧ isSpace c = false ∧ c ≠ ']' := by
    obtain ⟨c, cs', rfl, hc⟩ := Literal.head_of_read h
    exact ⟨c, cs', rfl, not_space_of_literal hc, ne_of_literal hc ']' (by decide)⟩
  cases j with
  | null | illegible => exact ⟨'n', _, rfl, by decide, by decide⟩
  | bool b => cases b <;> exact ⟨_, _, rfl, by decide, by decide⟩
  | int n =>
    have hread := Literal.read_ofInt n closes_nil
    rw [List.append_nil] at hread
    exact hliteral hread
  | float x =>
    obtain ⟨l, hread, -⟩ := hj.2.2 x .self
    exact hliteral hread
  | str s => exact ⟨'"', _, rfl, by decide, by decide⟩
  | arr items => cases items <;> exact ⟨'[', _, rfl, by decide, by decide⟩
  | obj fields => cases fields <;> exact ⟨'{', _, rfl, by decide, by decide⟩

theorem closes_moreItems (level outer : Nat) (items : List Json) (rest : List Char) :
    Closes (w.moreItems level items ++ (w.gap outer ++ ']' :: rest)) := by
  cases items with
  | nil => exact closes_blank (w.blank_gap outer) (.inl rfl) _
  | cons => exact closes_cons (.inl rfl) _

theorem closes_moreFields (level outer : Nat) (fields : List (String × Json)) (rest : List Char) :
    Closes (w.moreFields level fields ++ (w.gap outer ++ '}' :: rest)) := by
  cases fields with
  | nil => exact closes_blank (w.blank_gap outer) (.inr rfl) _
  | cons => exact closes_cons (.inl rfl) _

def Reads (j : Json) : Prop :=
  ∀ level d fuel rest, Closes rest → 3 * (w.chars level j).length ≤ fuel →
    readValue fuel d (w.chars level j ++ rest) = some (j.cut d, rest)

variable {w}

theorem readMoreItems_chars {items : List Json} (hitems : ∀ j ∈ items, w.Reads j) (level outer d : Nat)
    (rest : List Char) : ∀ fuel, 3 * (w.moreItems level items).length < fuel →
    readMoreItems fuel d (w.moreItems level items ++ (w.gap outer ++ ']' :: rest))
      = some (items.map (cut d), rest) := by
  induction items with
  | nil =>
    intro fuel hfuel
    obtain ⟨fuel, rfl⟩ := Nat.exists_eq_succ_of_ne_zero (Nat.ne_of_gt (Nat.zero_lt_of_lt hfuel))
    simp only [moreItems, List.nil_append, readMoreItems, skipSpace_blank (w.blank_gap outer)]
    simp [skipSpace_of_not_space (c := ']') (by decide)]
  | cons j r ih =>
    intro fuel hfuel
    obtain ⟨hj, hr⟩ := List.forall_mem_cons.1 hitems
    obtain ⟨fuel, rfl⟩ := Nat.exists_eq_succ_of_ne_zero (Nat.ne_of_gt (Nat.zero_lt_of_lt hfuel))
    simp only [moreItems, List.length_cons, List.length_append] at hfuel
    have hvalue := hj level d fuel _ (w.closes_moreItems level outer r rest) (by omega)
    have hmore := ih hr fuel (by omega)
    simp only [moreItems, List.cons_append, List.append_assoc, readMoreItems,
      skipSpace_of_not_space (c := ',') (by decide), readValue_blank (w.blank_gap level), hvalue]
    simp [hmore]

theorem reads_arr {items : List Json} (hprintable : (arr items).Printable) (hitems : ∀ j ∈ items, w.Reads j) :
    w.Reads (arr items) := by
  intro level d fuel rest _ hfuel
  cases items with
  | nil =>
    simp only [chars, List.length_cons, List.length_nil] at hfuel
    obtain ⟨fuel, rfl⟩ : ∃ f, fuel = f + 2 := ⟨fuel - 2, by omega⟩
    simp [chars, readValue, readItems, skipSpace_of_not_space (c := '[') (by decide),
      skipSpace_of_not_space (c := ']') (by decide), cut_arr]
  | cons j r =>
    obtain ⟨hj, hr⟩ := List.forall_mem_cons.1 hitems
    simp only [chars, List.length_cons, List.length_append] at hfuel
    obtain ⟨fuel, rfl⟩ : ∃ f, fuel = f + 2 := ⟨fuel - 2, by omega⟩
    have hvalue := hj (level + 1) (d - 1) fuel _ (w.closes_moreItems (level + 1) level r rest) (by omega)
    have hmore := readMoreItems_chars hr (level + 1) level (d - 1) rest fuel (by omega)
    have hread : readItems (fuel + 1) (d - 1) (w.gap (level + 1) ++ (w.chars (level + 1) j ++
        (w.moreItems (level + 1) r ++ (w.gap level ++ ']' :: rest)))) = some ((j :: r).map (cut (d - 1)), rest) := by
      obtain ⟨c, cs, hhead, hspace, hne⟩ :=
        w.head_chars (hprintable.part (.item List.mem_cons_self .self)) (level + 1)
      rw [hhead, List.cons_append] at hvalue
      rw [readItems_blank (w.blank_gap (level + 1)), hhead, List.cons_append,
        readItems_of_ne (skipSpace_of_not_space hspace) hne, hvalue, Option.bind_some, hmore]
      rfl
    simp only [chars, List.cons_append, List.append_assoc, List.nil_append, readValue,
      skipSpace_of_not_space (c := '[') (by decide), hread]
    simp [cut_arr]

theorem readField_chars {j : Json} (hj : w.Reads j) (level d : Nat) (k : String) {rest : List Char}
    (hrest : Closes rest) (fuel : Nat) (hfuel : 3 * (w.chars level j).length < fuel) :
    readField fuel d (quote k ++ ':' :: (w.colon ++ (w.chars level j ++ rest))) = some (some k, j.cut d, rest) := by
  obtain ⟨fuel, rfl⟩ := Nat.exists_eq_succ_of_ne_zero (Nat.ne_of_gt (Nat.zero_lt_of_lt hfuel))
  apply readField_quote
  rw [readValue_blank w.blank_colon]
  exact hj level d fuel rest hrest (by omega)

theorem readMoreFields_chars {fields : List (String × Json)} (hfields : ∀ p ∈ fields, w.Reads p.2)
    (level outer d : Nat) (rest : List Char) : ∀ fuel, 3 * (w.moreFields level fields).length < fuel →
    readMoreFields fuel d (w.moreFields level fields ++ (w.gap outer ++ '}' :: rest))
      = some (some (fields.map fun p => (p.1, p.2.cut d)), rest) := by
  induction fields with
  | nil =>
    intro fuel hfuel
    obtain ⟨fuel, rfl⟩ := Nat.exists_eq_succ_of_ne_zero (Nat.ne_of_gt (Nat.zero_lt_of_lt hfuel))
    simp only [moreFields, List.nil_append, readMoreFields, skipSpace_blank (w.blank_gap outer)]
    simp [skipSpace_of_not_space (c := '}') (by decide)]
  | cons p r ih =>
    intro fuel hfuel
    obtain ⟨k, j⟩ := p
    obtain ⟨hj, hr⟩ := List.forall_mem_cons.1 hfields
    change w.Reads j at hj
    obtain ⟨fuel, rfl⟩ := Nat.exists_eq_succ_of_ne_zero (Nat.ne_of_gt (Nat.zero_lt_of_lt hfuel))
    simp only [moreFields, List.length_cons, List.length_append] at hfuel
    have hfield := readField_chars hj level d k (w.closes_moreFields level outer r rest) fuel (by omega)
    have hmore := ih hr fuel (by omega)
    simp only [moreFields, List.cons_append, List.append_assoc]
    apply readMoreFields_cons _ hmore
    rw [readField_blank (w.blank_gap level), hfield]

theorem reads_obj {fields : List (String × Json)} (hfields : ∀ p ∈ fields, w.Reads p.2) :
    w.Reads (obj fields) := by
  intro level d fuel rest _ hfuel
  cases fields with
  | nil =>
    simp only [chars, List.length_cons, List.length_nil] at hfuel
    obtain ⟨fuel, rfl⟩ : ∃ f, fuel = f + 2 := ⟨fuel - 2, by omega⟩
    simp [chars, readValue, readFields, skipSpace_of_not_space (c := '{') (by decide),
      skipSpace_of_not_space (c := '}') (by decide), cut_obj]
  | cons p r =>
    obtain ⟨k, j⟩ := p
    obtain ⟨hj, hr⟩ := List.forall_mem_cons.1 hfields
    change w.Reads j at hj
    simp only [chars, List.length_cons, List.length_append] at hfuel
    obtain ⟨fuel, rfl⟩ : ∃ f, fuel = f + 2 := ⟨fuel - 2, by omega⟩
    have hfield := readField_chars hj (level + 1) (d - 1) k (w.closes_moreFields (level + 1) level r rest) fuel
      (by omega)
    have hmore := readMoreFields_chars hr (level + 1) level (d - 1) rest fuel (by omega)
    have hread := (readFields_blank (w.blank_gap (level + 1)) _ _ _).trans (readFields_cons hfield hmore)
    simp only [chars, List.cons_append, List.append_assoc, List.nil_append, readValue,
      skipSpace_of_not_space (c := '{') (by decide), hread]
    simp [cut_obj]

theorem reads_of_literal {j : Json} {l : Literal} (h : ∀ level, Literal.read (w.chars level j) = some (l, []))
    (hvalue : l.value = j) (hcut : ∀ d, j.cut d = j) : w.Reads j := by
  intro level d fuel rest hrest hfuel
  obtain ⟨c, cs, hcs, -⟩ := Literal.head_of_read (h level)
  have hpos : 0 < fuel := by
    rw [hcs, List.length_cons] at hfuel
    omega
  rw [readValue_literal (h level) hrest hpos, hvalue, hcut]

theorem reads_str (s : String) : w.Reads (str s) := by
  intro level d fuel rest _ hfuel
  simp only [chars, compactChars, quote, List.length_cons] at hfuel
  obtain ⟨fuel, rfl⟩ : ∃ f, fuel = f + 1 := ⟨fuel - 1, by omega⟩
  exact readValue_quote fuel d s rest

theorem reads_null : w.Reads null := by
  intro level d fuel rest _ hfuel
  obtain ⟨fuel, rfl⟩ : ∃ f, fuel = f + 1 := ⟨fuel - 1, by simp [chars, compactChars] at hfuel; omega⟩
  simp [chars, compactChars, readValue, skipSpace_of_not_space (c := 'n') (by decide), readWord, cut]

theorem reads_bool (b : Bool) : w.Reads (bool b) := by
  intro level d fuel rest _ hfuel
  cases b with
  | true =>
    obtain ⟨fuel, rfl⟩ : ∃ f, fuel = f + 1 := ⟨fuel - 1, by simp [chars, compactChars] at hfuel; omega⟩
    simp [chars, compactChars, readValue, skipSpace_of_not_space (c := 't') (by decide), readWord, cut]
  | false =>
    obtain ⟨fuel, rfl⟩ : ∃ f, fuel = f + 1 := ⟨fuel - 1, by simp [chars, compactChars] at hfuel; omega⟩
    simp [chars, compactChars, readValue, skipSpace_of_not_space (c := 'f') (by decide), readWord, cut]

theorem reads_of_printable {j : Json} : j.Printable → w.Reads j := by
  induction j using induct with
  | null => exact fun _ => reads_null
  | bool b => exact fun _ => reads_bool b
  | str s => exact fun _ => reads_str s
  | int n =>
    intro hj
    have hread := Literal.read_ofInt n closes_nil
    rw [List.append_nil] at hread
    exact reads_of_literal (fun _ => hread) (Literal.value_ofInt (hj.2.1 n .self)) fun _ => rfl
  | float x =>
    intro hj
    obtain ⟨l, hread, hvalue⟩ := hj.2.2 x .self
    exact reads_of_literal (fun _ => hread) hvalue fun _ => rfl
  | illegible => exact fun hj => absurd hj.1 (by simp [legible])
  | arr items ih =>
    exact fun hj => reads_arr hj fun i hi => ih i hi (hj.part (.item hi .self))
  | obj fields ih =>
    exact fun hj => reads_obj fun p hp => ih p hp (hj.part (.field hp .self))

theorem read?_chars {j : Json} (hj : j.Printable) :
    read? (String.ofList (w.chars 0 j)) = some (j.cut nestingLimit) := by
  have h (fuel : Nat) (hfuel : 3 * (w.chars 0 j).length ≤ fuel) :
      readValue fuel nestingLimit (w.chars 0 j) = some (j.cut nestingLimit, []) := by
    have h := reads_of_printable hj 0 nestingLimit fuel [] closes_nil hfuel
    rwa [List.append_nil] at h
  simp only [read?, readAll, readFront, String.toList_ofList, h _ (Nat.le_add_right _ 3)]
  rfl

end Layout

/-- The text of a tree is read as that tree, with what stands too deep left out. -/
theorem read?_pretty {j : Json} (hj : j.Printable) : read? j.pretty = some (j.cut nestingLimit) := by
  rw [pretty, Layout.chars_pretty]
  exact Layout.read?_chars hj

theorem read?_compact {j : Json} (hj : j.Printable) : read? j.compact = some (j.cut nestingLimit) := by
  rw [compact, Layout.chars_compact _ 0]
  exact Layout.read?_chars hj

end Json

end ServiceCatalog
