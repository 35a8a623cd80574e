import Mathlib.Algebra.Ring.Nat
import ServiceCatalog.Entity.Uuid
import ServiceCatalog.Proofs.Decimal.Digits
import ServiceCatalog.Proofs.Wire.Lawful

namespace ServiceCatalog

namespace Uuid

theorem length_hexDigits (n k : Nat) : (hexDigits n k).length = k := by
  induction k generalizing n with
  | zero => rfl
  | succ k ih => rw [hexDigits, List.length_append, ih, List.length_singleton]

theorem mapM_hexDigits (n k : Nat) :
    ∃ ds, (hexDigits n k).mapM hexValue? = some ds ∧ ds.foldl (fun n d => 16 * n + d) 0 = n % 16 ^ k := by
  induction k generalizing n with
  | zero => exact ⟨[], rfl, by simp [Nat.mod_one]⟩
  | succ k ih =>
    obtain ⟨ds, hds, hvalue⟩ := ih (n / 16)
    refine ⟨ds ++ [n % 16], ?_, ?_⟩
    · rw [hexDigits, List.mapM_append, hds]
      simp [hexValue?_hexDigit _ (Nat.mod_lt n (by decide))]
    · rw [List.foldl_append, hvalue, List.foldl_cons, List.foldl_nil, Nat.pow_succ']
      rw [Nat.mod_mul]
      omega

theorem intercalate_splitGroups (cs : List Char) (k k' : Nat) (groups : List Nat) :
    List.intercalate ['-'] (splitGroups cs (k :: k' :: groups))
      = cs.take k ++ '-' :: List.intercalate ['-'] (splitGroups (cs.drop k) (k' :: groups)) := by
  simp [splitGroups, List.intercalate]

theorem ungroup?_splitGroups (groups : List Nat) (cs : List Char) (hgroups : groups ≠ [])
    (hsum : groups.sum = cs.length) :
    (List.intercalate ['-'] (splitGroups cs groups)).length + 1 = cs.length + groups.length ∧
      ungroup? (List.intercalate ['-'] (splitGroups cs groups)) groups = some cs := by
  induction groups generalizing cs with
  | nil => exact absurd rfl hgroups
  | cons k groups ih =>
    rw [List.sum_cons] at hsum
    cases groups with
    | nil =>
      rw [List.sum_nil, Nat.add_zero] at hsum
      simp [splitGroups, ungroup?, List.intercalate, hsum]
    | cons k' groups =>
      have htake : (cs.take k).length = k := by
        rw [List.length_take]
        omega
      have hdrop : (k' :: groups).sum = (cs.drop k).length := by
        rw [List.length_drop]
        omega
      obtain ⟨hlength, hrest⟩ := ih (cs.drop k) (List.cons_ne_nil _ _) hdrop
      rw [intercalate_splitGroups]
      constructor
      · rw [List.length_drop] at hlength
        simp only [List.length_append, List.length_cons, htake] at hlength ⊢
        omega
      · rw [ungroup?, List.drop_left' htake]
        · simp [hrest, List.take_left' htake]
        · nofun

theorem ofHex?_hexDigits (u : Uuid) : ofHex? (hexDigits u.bits.toNat 32) = some u := by
  obtain ⟨ds, hds, hvalue⟩ := mapM_hexDigits u.bits.toNat 32
  have hlt : u.bits.toNat < 16 ^ 32 := u.bits.isLt
  rw [Nat.mod_eq_of_lt hlt] at hvalue
  simp [ofHex?, length_hexDigits, hds, hvalue]

theorem ofText?_text (u : Uuid) : ofText? u.text = some u := by
  have hsum : groups.sum = (hexDigits u.bits.toNat 32).length := (length_hexDigits _ _).symm
  obtain ⟨hlength, hungroup⟩ := ungroup?_splitGroups groups _ (by decide) hsum
  rw [length_hexDigits] at hlength
  have h36 : (List.intercalate ['-'] (splitGroups (hexDigits u.bits.toNat 32) groups)).length = 36 :=
    Nat.succ.inj hlength
  rw [ofText?, text, String.toList_ofList, h36]
  simp only [ofHyphenated?, hungroup, Option.bind_eq_bind, Option.bind_some, ofHex?_hexDigits]

def isTextual (c : Char) : Bool := (hexValue? c).isSome || ("urn:uuid:".toList ++ ['\x7b', '-', '\x7d']).contains c

theorem isTextual_of_ofHex? {cs : List Char} {u : Uuid} (h : ofHex? cs = some u) : ∀ c ∈ cs, isTextual c = true := by
  have hsome : ∀ cs : List Char, (cs.mapM hexValue?).isSome = true → ∀ c ∈ cs, (hexValue? c).isSome = true := by
    intro cs
    induction cs with
    | nil => exact fun _ => List.forall_mem_nil _
    | cons c cs ih =>
      intro h
      rw [List.mapM_cons] at h
      cases hc : hexValue? c with
      | none => simp [hc] at h
      | some n =>
        cases hcs : cs.mapM hexValue? with
        | none => simp [hc, hcs] at h
        | some ns => exact List.forall_mem_cons.2 ⟨by rw [hc]; rfl, ih (by rw [hcs]; rfl)⟩
  intro c hc
  have hdigits : (cs.mapM hexValue?).isSome = true := by
    unfold ofHex? at h
    cases hcs : cs.mapM hexValue? with
    | none => simp [hcs] at h
    | some ds => rfl
  rw [isTextual, hsome cs hdigits c hc, Bool.true_or]

theorem mem_of_ungroup? {cs ds : List Char} {groups : List Nat} (h : ungroup? cs groups = some ds) :
    ∀ c ∈ cs, c = '-' ∨ c ∈ ds := by
  induction groups generalizing cs ds with
  | nil =>
    rw [ungroup?] at h
    split at h
    · next hempty =>
      rw [List.isEmpty_iff.1 hempty]
      exact List.forall_mem_nil _
    · cases h
  | cons k groups ih =>
    cases groups with
    | nil =>
      rw [ungroup?] at h
      split at h
      · cases h
        exact fun c hc => .inr hc
      · cases h
    | cons k' groups =>
      rw [ungroup?] at h
      · split at h
        · next rest hdrop =>
          obtain ⟨es, hes, rfl⟩ := Option.map_eq_some_iff.1 h
          intro c hc
          rw [← List.take_append_drop k cs, hdrop, List.mem_append, List.mem_cons] at hc
          rcases hc with hc | rfl | hc
          · exact .inr (List.mem_append_left _ hc)
          · exact .inl rfl
          · exact (ih hes c hc).imp_right (List.mem_append_right _)
        · cases h
      · nofun

theorem mem_of_ends {cs : List Char} {a b c : Char} (hhead : cs.head? = some a) (hlast : cs.getLast? = some b)
    (hc : c ∈ cs) : c = a ∨ c = b ∨ c ∈ (cs.drop 1).dropLast := by
  cases cs with
  | nil => cases hc
  | cons a' rest =>
    obtain rfl : a' = a := Option.some.inj hhead
    rcases List.mem_cons.1 hc with rfl | hc
    · exact .inl rfl
    · obtain rfl | ⟨init, b', rfl⟩ := List.eq_nil_or_concat' rest
      · cases hc
      · have hb : b' = b := by simpa [List.getLast?_cons] using hlast
        have hinit : ((a' :: (init ++ [b'])).drop 1).dropLast = init := List.dropLast_concat
        rw [hinit, ← hb]
        rcases List.mem_append.1 hc with hc | hc
        · exact .inr (.inr hc)
        · exact .inr (.inl (List.mem_singleton.1 hc))

theorem isTextual_of_ofText? {s : String} {u : Uuid} (h : ofText? s = some u) : ∀ c ∈ s.toList, isTextual c = true := by
  have hyphenated {cs : List Char} (h : ofHyphenated? cs = some u) : ∀ c ∈ cs, isTextual c = true := by
    obtain ⟨ds, hds, hu⟩ := Option.bind_eq_some_iff.1 h
    intro c hc
    rcases mem_of_ungroup? hds c hc with rfl | hc
    · rfl
    · exact isTextual_of_ofHex? hu c hc
  unfold ofText? at h
  generalize s.toList = cs at h ⊢
  dsimp only at h
  split at h
  · exact isTextual_of_ofHex? h
  · exact hyphenated h
  · split at h
    · next hbraces =>
      rw [Bool.and_eq_true, beq_iff_eq, beq_iff_eq] at hbraces
      intro c hc
      rcases mem_of_ends hbraces.1 hbraces.2 hc with rfl | rfl | hc
      · rfl
      · rfl
      · exact hyphenated h c hc
    · cases h
  · split at h
    · next hprefix =>
      obtain ⟨rest, rfl⟩ := List.isPrefixOf_iff_prefix.1 hprefix
      have hbody : ("urn:uuid:".toList ++ rest).drop 9 = rest := List.drop_left' rfl
      rw [hbody] at h
      intro c hc
      rcases List.mem_append.1 hc with hc | hc
      · rw [isTextual, List.contains_iff_mem.2 (List.mem_append_left _ hc), Bool.or_true]
      · exact hyphenated h c hc
    · cases h
  · cases h

instance : LawfulWire Uuid where
  present u := by
    refine .of_str rfl ?_
    simp only [decode, Json.str?, Option.bind_some, ofText?_text]

end Uuid

end ServiceCatalog
