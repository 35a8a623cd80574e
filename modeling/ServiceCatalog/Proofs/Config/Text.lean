import ServiceCatalog.Config.Text
import ServiceCatalog.Proofs.Files.Content
import ServiceCatalog.Proofs.Toml.Reader

namespace ServiceCatalog

theorem DuplicatePolicy.ofName?_name (p : DuplicatePolicy) : ofName? p.name = some p := by
  cases p <;> rfl

namespace Config

open Toml

inductive Sets : String → Item → (Config → Config) → Prop
  | storePath (s : String) : Sets "store_path" (.string s) fun c => { c with storePath := some (.ofText s) }
  | user (s : String) : Sets "user" (.string s) fun c => { c with user := some s }
  | pageSize {n : Int} (hn : ¬ n < 0) : Sets "page_size" (.integer n) fun c => { c with pageSize := n.toNat }
  | policy {item : Item} {p : DuplicatePolicy} (hp : readPolicy item = .ok p) :
      Sets "duplicate_capabilities" item fun c => { c with policy := p }

variable {codec : Codec} {c d : Config}

theorem readField_eq_ok_iff {f : Key × Option Nat × Item} :
    readField codec c f = .ok d ↔ ∃ set, Sets f.1.name f.2.2 set ∧ set c = d := by
  obtain ⟨⟨name, left⟩, place, item⟩ := f
  constructor
  · intro h
    unfold readField at h
    dsimp only at h ⊢
    split at h
    · exact ⟨_, .storePath _, Except.ok.inj h⟩
    · exact ⟨_, .user _, Except.ok.inj h⟩
    · split at h
      · cases h
      · next hn => exact ⟨_, .pageSize hn, Except.ok.inj h⟩
    · split at h
      · next hp => exact ⟨_, .policy hp, Except.ok.inj h⟩
      · cases h
    · cases h
  · rintro ⟨_, hset, rfl⟩
    dsimp only at hset
    cases hset with
    | storePath | user => rfl
    | pageSize hn => exact if_neg hn
    | policy hp => simp [readField, hp]

theorem Sets.comm {a b : String} {x y : Item} {f g : Config → Config} (hf : Sets a x f) (hg : Sets b y g) (hne : a ≠ b)
    (c : Config) : f (g c) = g (f c) := by
  cases hf <;> cases hg <;> first | rfl | exact absurd rfl hne

def unplaced (fields : List (String × Item)) : Table := fields.map fun f => (⟨f.1, 0⟩, none, f.2)

theorem foldlM_cons_iff {f : Key × Option Nat × Item} {t : Table} :
    (f :: t).foldlM (readField codec) c = .ok d ↔
      ∃ set, Sets f.1.name f.2.2 set ∧ t.foldlM (readField codec) (set c) = .ok d := by
  rw [List.foldlM_cons]
  constructor
  · intro h
    cases hread : readField codec c f with
    | error fault =>
      rw [hread] at h
      cases h
    | ok c' =>
      rw [hread] at h
      obtain ⟨set, hset, rfl⟩ := readField_eq_ok_iff.1 hread
      exact ⟨set, hset, h⟩
  · rintro ⟨set, hset, h⟩
    rw [readField_eq_ok_iff.2 ⟨set, hset, rfl⟩]
    exact h

theorem foldlM_unplaced_iff {t : Table} :
    (unplaced (Table.fields t)).foldlM (readField codec) c = .ok d ↔ t.foldlM (readField codec) c = .ok d := by
  induction t generalizing c with
  | nil => exact Iff.rfl
  | cons f t ih =>
    have hcons : unplaced (Table.fields (f :: t)) = (⟨f.1.name, 0⟩, none, f.2.2) :: unplaced (Table.fields t) := rfl
    simp only [hcons, foldlM_cons_iff, ih]

theorem foldlM_perm {fields fields' : List (String × Item)} (hperm : fields.Perm fields')
    (hnew : (fields.map (·.1)).Nodup) (h : (unplaced fields).foldlM (readField codec) c = .ok d) :
    (unplaced fields').foldlM (readField codec) c = .ok d := by
  induction hperm generalizing c with
  | nil => exact h
  | cons f _ ih =>
    obtain ⟨set, hset, h⟩ := foldlM_cons_iff.1 h
    exact foldlM_cons_iff.2 ⟨set, hset, ih (List.nodup_cons.1 hnew).2 h⟩
  | swap f g fields =>
    obtain ⟨setg, hg, h⟩ := foldlM_cons_iff.1 h
    obtain ⟨setf, hf, h⟩ := foldlM_cons_iff.1 h
    have hne : f.1 ≠ g.1 := by
      rintro heq
      exact (List.nodup_cons.1 hnew).1 (List.mem_cons.2 (.inl heq.symm))
    rw [hf.comm hg hne] at h
    exact foldlM_cons_iff.2 ⟨setf, hf, foldlM_cons_iff.2 ⟨setg, hg, h⟩⟩
  | trans hfirst _ ihfirst ihsecond =>
    exact ihsecond ((hfirst.map _).nodup_iff.1 hnew) (ihfirst hnew h)

theorem fields?_isSome_iff : c.fields?.isSome ↔ ∀ p ∈ c.storePath, p.text?.isSome := by
  unfold fields?
  cases c.storePath <;> simp

theorem foldlM_fields {fields : List (String × Leaf)} (h : c.fields? = some fields) :
    (unplaced (fields.map fun f => (f.1, f.2.item))).foldlM (readField codec) default = .ok c := by
  obtain ⟨path, user, policy, size⟩ := c
  let others : List (String × Leaf) := (user.map fun s => ("user", Leaf.text s)).toList ++
    [("duplicate_capabilities", .text policy.name), ("page_size", .whole size)]
  have hothers (path : Option Path) : (unplaced (others.map fun f => (f.1, f.2.item))).foldlM (readField codec)
      { default with storePath := path } = .ok ⟨path, user, policy, size⟩ := by
    have hpolicy : readPolicy (.string policy.name) = .ok policy := by rw [readPolicy, DuplicatePolicy.ofName?_name]
    have hsize : ¬ (size : Int) < 0 := Int.not_lt.2 (Int.natCast_nonneg size)
    cases user with
    | none => exact foldlM_cons_iff.2 ⟨_, .policy hpolicy, foldlM_cons_iff.2 ⟨_, .pageSize hsize, rfl⟩⟩
    | some s =>
      refine foldlM_cons_iff.2 ⟨_, .user s, ?_⟩
      exact foldlM_cons_iff.2 ⟨_, .policy hpolicy, foldlM_cons_iff.2 ⟨_, .pageSize hsize, rfl⟩⟩
  cases path with
  | none =>
    obtain rfl : others = fields := Option.some.inj h
    exact hothers none
  | some p =>
    obtain ⟨s, hs, rfl⟩ := Option.map_eq_some_iff.1 h
    obtain rfl : p = .ofText s := congrArg Path.mk (PathText.text?_eq_some_iff.1 hs)
    exact foldlM_cons_iff.2 ⟨_, .storePath s, hothers _⟩

theorem fields?_legible (hsize : c.pageSize < 0x8000000000000000) {fields : List (String × Leaf)}
    (h : c.fields? = some fields) :
    (∀ f ∈ fields, IsBare f.1 ∧ f.2.fits = true) ∧ (fields.map (·.1)).Nodup := by
  obtain ⟨path, user, policy, size⟩ := c
  have hpath : IsBare "store_path" := by decide
  have huser : IsBare "user" := by decide
  have hpolicy : IsBare "duplicate_capabilities" := by decide
  have hpage : IsBare "page_size" := by decide
  have hfits : (Leaf.whole size).fits = true := decide_eq_true hsize
  have htext (s : String) : (Leaf.text s).fits = true := rfl
  cases path with
  | none => cases user <;> cases h <;> simp [*]
  | some p =>
    obtain ⟨s, -, rfl⟩ := Option.map_eq_some_iff.1 h
    cases user <;> simp [*]

theorem pageSize_le_of_check (h : c.check = .ok ()) : c.pageSize ≤ maxPageSize := by
  unfold check at h
  split at h
  · cases h
  · next hsize => exact Nat.le_of_not_lt fun hlarge => hsize (.inr hlarge)

variable (hcodec : codec.Faithful) (hcheck : c.check = .ok ())
include hcodec hcheck

theorem read_of_fields {fields : List (String × Leaf)} (h : c.fields? = some fields) :
    ∃ s, codec.write? fields = some s ∧ read codec s = .ok c := by
  have hsize : c.pageSize < 0x8000000000000000 := Nat.lt_of_le_of_lt (pageSize_le_of_check hcheck) (by decide)
  obtain ⟨hlegible, hnew⟩ := fields?_legible hsize h
  obtain ⟨s, t, hwrite, hread, hperm⟩ := hcodec fields hlegible hnew
  refine ⟨s, hwrite, ?_⟩
  have hnew' : ((fields.map fun f => (f.1, f.2.item)).map (·.1)).Nodup := by rw [List.map_map]; exact hnew
  have hfold : t.foldlM (readField codec) default = .ok c :=
    foldlM_unplaced_iff.1 (foldlM_perm hperm.symm hnew' (foldlM_fields h))
  have hunchecked : readUnchecked codec s = .ok c := by
    rw [readUnchecked, hread]
    simp only [bind, Except.bind, hfold]
  rw [read, hunchecked]
  simp only [bind, Except.bind, hcheck]
  rfl

theorem text?_isSome_iff : (c.text? codec).isSome ↔ ∀ p ∈ c.storePath, p.text?.isSome := by
  rw [← fields?_isSome_iff, text?]
  cases hfields : c.fields? with
  | none => rfl
  | some fields =>
    obtain ⟨s, hwrite, -⟩ := read_of_fields hcodec hcheck hfields
    simp [hwrite]

theorem read_of_text? {s : String} (hs : c.text? codec = some s) : read codec s = .ok c := by
  obtain ⟨fields, hfields, hwrite⟩ := Option.bind_eq_some_iff.1 hs
  obtain ⟨s', hwrite', hread⟩ := read_of_fields hcodec hcheck hfields
  cases hwrite.symm.trans hwrite'
  exact hread

end Config

end ServiceCatalog
