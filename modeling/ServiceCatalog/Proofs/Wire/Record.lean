import Mathlib.Data.List.Nodup
import ServiceCatalog.Proofs.Wire.Lawful

namespace ServiceCatalog

open Wire

namespace Json

def shown (d : Nat) (fields : List (String × Option Json)) : List (String × Json) :=
  fields.filterMap fun p => p.2.map fun j => (p.1, j.cut d)

theorem record_ne_null (fields : List (String × Option Json)) : record fields ≠ .null := nofun

theorem mem_record {fields : List (String × Option Json)} {p : String × Json} :
    p ∈ fields.filterMap (fun q => q.2.map (q.1, ·)) ↔ (p.1, some p.2) ∈ fields := by
  rw [List.mem_filterMap]
  constructor
  · rintro ⟨q, hq, hp⟩
    obtain ⟨j, hj, rfl⟩ := Option.map_eq_some_iff.1 hp
    rwa [← hj]
  · intro hp
    exact ⟨_, hp, rfl⟩

theorem field?_record {fields : List (String × Option Json)} (h : (fields.map Prod.fst).Nodup) {k : String}
    {v : Option Json} (hv : (k, v) ∈ fields) : (record fields).field? k = v := by
  have hinj {w : Option Json} (hw : (k, w) ∈ fields) : v = w :=
    congrArg Prod.snd (List.inj_on_of_nodup_map h hv hw rfl)
  rw [record, field?]
  cases hfind : (fields.filterMap fun q => q.2.map (q.1, ·)).find? (·.1 == k) with
  | none =>
    cases v with
    | none => rfl
    | some j =>
      have hnone := List.find?_eq_none.1 hfind (k, j) (mem_record.2 hv)
      simp at hnone
  | some p =>
    obtain ⟨k', j⟩ := p
    have hk : k' = k := by simpa using List.find?_some hfind
    have hmem := mem_record.1 (List.mem_of_find?_eq_some hfind)
    rw [hk] at hmem
    exact (hinj hmem).symm

theorem nodup_record {fields : List (String × Option Json)} (h : (fields.map Prod.fst).Nodup) :
    ((fields.filterMap fun q => q.2.map (q.1, ·)).map Prod.fst).Nodup := by
  have hsub : ((fields.filterMap fun q => q.2.map (q.1, ·)).map Prod.fst).Sublist (fields.map Prod.fst) := by
    induction fields with
    | nil => exact .refl _
    | cons q fields ih =>
      have hrest := ih (List.nodup_cons.1 h).2
      obtain ⟨k, v⟩ := q
      cases v with
      | none => exact hrest.cons _
      | some j => exact hrest.cons_cons _
  exact h.sublist hsub

theorem cut_record (d : Nat) (fields : List (String × Option Json)) :
    (record fields).cut d = if d = 0 then .illegible else .obj (shown (d - 1) fields) := by
  rw [record, cut_obj, shown, List.map_filterMap]
  simp only [Option.map_map]
  rfl

def Fieldwise (p : Json → Prop) (fields : List (String × Option Json)) : Prop :=
  ∀ f ∈ fields, ∀ j ∈ f.2, p j

theorem fieldwise_iff {p : Json → Prop} {fields : List (String × Option Json)} :
    (∀ f ∈ fields.filterMap (fun q => q.2.map (q.1, ·)), p f.2) ↔ Fieldwise p fields := by
  constructor
  · intro h f hf j hj
    exact h (f.1, j) (mem_record.2 ((Option.mem_def.1 hj) ▸ hf))
  · intro h f hf
    exact h _ (mem_record.1 hf) _ rfl

theorem depth_record_le {fields : List (String × Option Json)} {d : Nat} :
    (record fields).depth ≤ d ↔ 0 < d ∧ Fieldwise (·.depth ≤ d - 1) fields := by
  rw [record, depth_obj_le, ← fieldwise_iff]

theorem fieldwise_append {p : Json → Prop} {fields more : List (String × Option Json)} :
    Fieldwise p (fields ++ more) ↔ Fieldwise p fields ∧ Fieldwise p more := by
  simp only [Fieldwise, List.forall_mem_append]

theorem fieldwise_singleton {p : Json → Prop} {name : String} {v : Option Json} :
    Fieldwise p [(name, v)] ↔ ∀ j ∈ v, p j := by
  simp only [Fieldwise, List.forall_mem_singleton]

end Json

open Json

def Shows (d : Nat) (fields : List (String × Option Json)) (fs : List (String × Json)) : Prop :=
  ∀ f ∈ fields, fs.filter (·.1 == f.1) = (f.2.map fun j => (f.1, j.cut d)).toList

theorem shows_shown (d : Nat) {fields : List (String × Option Json)} (h : (fields.map (·.1)).Nodup) :
    Shows d fields (shown d fields) := by
  intro f hf
  induction fields with
  | nil => cases hf
  | cons g fields ih =>
    obtain ⟨hg, hfields⟩ := List.nodup_cons.1 h
    have hothers : ∀ name, name ∉ fields.map (·.1) → (shown d fields).filter (·.1 == name) = [] := by
      intro name hname
      rw [List.filter_eq_nil_iff]
      intro p hp he
      obtain ⟨q, hq, hqp⟩ := List.mem_filterMap.1 hp
      obtain ⟨j, -, rfl⟩ := Option.map_eq_some_iff.1 hqp
      exact hname (List.mem_map.2 ⟨q, hq, by simpa using he⟩)
    rcases List.mem_cons.1 hf with rfl | hf
    · cases hv : f.2 with
      | none => simpa [shown, hv] using hothers f.1 hg
      | some j => simpa [shown, hv] using hothers f.1 hg
    · have hne : g.1 ≠ f.1 := by
        intro he
        exact hg (List.mem_map.2 ⟨f, hf, he.symm⟩)
      have hrest := ih hfields hf
      cases hv : g.2 with
      | none => simpa [shown, hv] using hrest
      | some j => simpa [shown, hv, hne] using hrest

namespace Fields

variable {α : Type}

theorem bind_run {β γ : Type} (x : FieldReader β) (f : β → FieldReader γ) (s : Fields) :
    (x >>= f) s = (x s).bind fun p => f p.1 p.2 := rfl

def first? (name : String) : Fields → Option Json
  | .named fs => (Json.obj fs).field? name
  | .listed items => items.head?

theorem first?_of_take {name : String} {s s' : Fields} {v : Option Json} (h : take name s = some (v, s')) :
    v = s.first? name := by
  cases s with
  | named fs =>
    have hfirst : (Fields.named fs).first? name = ((fs.filter (·.1 == name)).head?).map (·.2) := by
      rw [List.head?_filter]
      rfl
    rw [hfirst]
    unfold take at h
    dsimp only at h
    split at h
    · next hfilter =>
      cases h
      rw [hfilter]
      rfl
    · next hfilter =>
      cases h
      rw [hfilter]
      rfl
    · cases h
  | listed items => cases items <;> cases h <;> rfl

theorem lift_run (o : Option α) (s : Fields) : (liftM o : FieldReader α) s = o.map (·, s) := by
  cases o <;> rfl

theorem lift_map_run {β : Type} (f : α → β) (o : Option α) (s : Fields) :
    (do return f (← (liftM o : FieldReader α)) : FieldReader β) s = o.map (f ·, s) := by
  cases o <;> rfl

variable [Wire α]

theorem required_run (name : String) (s : Fields) :
    (required name : FieldReader α) s = (take name s).bind fun p => match p.1 with
      | none => none
      | some j => (decode j).map (·, p.2) := by
  rw [required, bind_run]
  congr 1
  funext p
  obtain ⟨_ | j, s⟩ := p
  · rfl
  · exact lift_run _ s

theorem optional_run (name : String) (s : Fields) :
    (optional name : FieldReader (Option α)) s = (take name s).bind fun p => match p.1 with
      | none | some .null => some (none, p.2)
      | some j => (decode j).map (some ·, p.2) := by
  rw [optional, bind_run]
  congr 1
  funext p
  obtain ⟨_ | j, s⟩ := p
  · rfl
  · cases j with
    | null => rfl
    | _ => exact lift_map_run some _ s

theorem optional_of_ne {name : String} {s s' : Fields} {j : Json} (h : take name s = some (some j, s'))
    (hj : j ≠ .null) : (optional name : FieldReader (Option α)) s = (decode j).map (some ·, s') := by
  rw [optional_run, h]
  cases j with
  | null => exact absurd rfl hj
  | _ => rfl

theorem withDefault_run (name : String) (default : α) (s : Fields) :
    (withDefault name default : FieldReader α) s = (take name s).bind fun p => match p.1 with
      | none => some (default, p.2)
      | some j => (decode j).map (·, p.2) := by
  rw [withDefault, bind_run]
  congr 1
  funext p
  obtain ⟨_ | j, s⟩ := p
  · rfl
  · exact lift_run _ s

theorem withDefault_cases {name : String} {default a : α} {s s' : Fields}
    (h : withDefault name default s = some (a, s')) :
    (s.first? name = none ∧ a = default) ∨ ∃ j, s.first? name = some j ∧ decode j = some a := by
  rw [withDefault_run] at h
  obtain ⟨⟨v, t⟩, hv, h⟩ := Option.bind_eq_some_iff.1 h
  rw [← first?_of_take hv]
  cases v with
  | none =>
    cases h
    exact .inl ⟨rfl, rfl⟩
  | some j =>
    obtain ⟨b, hb, h⟩ := Option.map_eq_some_iff.1 h
    cases h
    exact .inr ⟨j, rfl, hb⟩

end Fields

structure Takes {β : Type} (r : FieldReader β) (fields : List (String × Option Json)) (b : β) : Prop where
  taken : ∀ d fs, Shows d fields fs → Fieldwise (·.depth ≤ d) fields → r (.named fs) = some (b, .named fs)
  refused : ∀ d fs, Shows d fields fs → ¬ Fieldwise (·.depth ≤ d) fields → r (.named fs) = none
  legible : Fieldwise (·.legible = true) fields
  ranged : Fieldwise Ranged fields

namespace Takes

variable {α β : Type} {fields more : List (String × Option Json)}

theorem pure (b : β) : Takes (Pure.pure b) [] b where
  taken _ _ _ _ := rfl
  refused _ _ _ h := absurd (List.forall_mem_nil _) h
  legible := List.forall_mem_nil _
  ranged := List.forall_mem_nil _

theorem bind {x : FieldReader α} {f : α → FieldReader β} {a : α} {b : β} (hx : Takes x fields a)
    (hf : Takes (f a) more b) : Takes (x >>= f) (fields ++ more) b where
  taken d fs hs hd := by
    obtain ⟨hs, hs'⟩ := List.forall_mem_append.1 hs
    obtain ⟨hd, hd'⟩ := fieldwise_append.1 hd
    rw [Fields.bind_run, hx.taken d fs hs hd]
    exact hf.taken d fs hs' hd'
  refused d fs hs hd := by
    obtain ⟨hs, hs'⟩ := List.forall_mem_append.1 hs
    rw [Fields.bind_run]
    by_cases hd' : Fieldwise (·.depth ≤ d) fields
    · rw [hx.taken d fs hs hd']
      exact hf.refused d fs hs' fun h => hd (fieldwise_append.2 ⟨hd', h⟩)
    · rw [hx.refused d fs hs hd']
      rfl
  legible := fieldwise_append.2 ⟨hx.legible, hf.legible⟩
  ranged := fieldwise_append.2 ⟨hx.ranged, hf.ranged⟩

theorem take_of_shows {d : Nat} {fs : List (String × Json)} {name : String} {v : Option Json}
    (hs : Shows d [(name, v)] fs) : Fields.take name (.named fs) = some (v.map (cut d), .named fs) := by
  have h := hs _ List.mem_cons_self
  simp only at h
  cases v <;> simp [Fields.take, h]

theorem of_sincere [Wire α] {a : α} {r : FieldReader β} {name : String} (f : α → β) (ha : Sincere a)
    (hr : ∀ s s' d, Fields.take name s = some (some ((encode a).cut d), s') →
      r s = (decode ((encode a).cut d)).map fun b => (f b, s')) :
    Takes r [(name, some (encode a))] (f a) where
  taken d fs hs hd := by
    rw [hr _ _ _ (take_of_shows hs), ha.decode_cut, if_pos (fieldwise_singleton.1 hd _ rfl)]
    rfl
  refused d fs hs hd := by
    rw [hr _ _ _ (take_of_shows hs), ha.decode_cut, if_neg]
    · rfl
    · intro h
      exact hd (fieldwise_singleton.2 fun j hj => Option.some.inj hj ▸ h)
  legible := fieldwise_singleton.2 fun _ hj => Option.some.inj hj ▸ ha.legible
  ranged := fieldwise_singleton.2 fun _ hj => Option.some.inj hj ▸ ha.ranged

theorem of_vacant {r : FieldReader β} {name : String} {v : Option Json} {b : β} (hv : ∀ j ∈ v, j = .null)
    (hr : ∀ s s', Fields.take name s = some (v, s') → r s = some (b, s')) : Takes r [(name, v)] b where
  taken d fs hs _ := by
    have hcut : v.map (cut d) = v := by
      cases v with
      | none => rfl
      | some j =>
        obtain rfl := hv j rfl
        rfl
    exact hr _ _ (hcut ▸ take_of_shows hs)
  refused d _ _ hd := absurd (fieldwise_singleton.2 fun j hj => hv j hj ▸ Nat.zero_le d) hd
  legible := fieldwise_singleton.2 fun j hj => hv j hj ▸ rfl
  ranged := fieldwise_singleton.2 fun j hj => hv j hj ▸ ranged_null

theorem required [Wire α] {a : α} (ha : Sincere a) (name : String) :
    Takes (Fields.required name) [(name, some (encode a))] a :=
  of_sincere id ha fun s s' d h => by rw [Fields.required_run, h]; rfl

theorem withDefault [Wire α] {a : α} (ha : Sincere a) (name : String) (default : α) :
    Takes (Fields.withDefault name default) [(name, some (encode a))] a :=
  of_sincere id ha fun s s' d h => by rw [Fields.withDefault_run, h]; rfl

theorem optional [Wire α] {o : Option α} (ho : ∀ a ∈ o, Present a) (name : String) :
    Takes (Fields.optional name) [(name, o.map encode)] o := by
  cases o with
  | none => exact of_vacant nofun fun s s' h => by rw [Fields.optional_run, h]; rfl
  | some a =>
    have ha := ho a rfl
    exact of_sincere some ha.toSincere fun s s' d h => Fields.optional_of_ne h (cut_ne_null ha.ne_null)

end Takes

theorem present_record {α : Type} [Wire α] {a : α} {fields : List (String × Option Json)} {r : FieldReader α}
    (henc : encode a = .record fields) (hdec : ∀ j, (decode j : Option α) = readRecord r j)
    (hnames : (fields.map (·.1)).Nodup) (h : Takes r fields a) : Present a where
  decode_cut d := by
    rw [henc, hdec, cut_record]
    cases d with
    | zero =>
      rw [if_neg fun h => Nat.lt_irrefl 0 (depth_record_le.1 h).1]
      rfl
    | succ d =>
      rw [if_neg (Nat.succ_ne_zero d), Nat.add_sub_cancel, readRecord]
      by_cases hd : Fieldwise (·.depth ≤ d) fields
      · rw [h.taken d _ (shows_shown d hnames) hd, if_pos (depth_record_le.2 ⟨Nat.succ_pos d, hd⟩)]
        rfl
      · rw [h.refused d _ (shows_shown d hnames) hd, if_neg fun h => hd (depth_record_le.1 h).2]
        rfl
  legible := by
    rw [henc]
    exact legible_obj.2 (fieldwise_iff.2 h.legible)
  ranged := by
    rw [henc]
    exact ranged_obj (fieldwise_iff.2 h.ranged)
  ne_null := by
    rw [henc]
    exact record_ne_null _

def Fields.Ranged : Fields → Prop
  | .named fs => ∀ f ∈ fs, f.2.Ranged
  | .listed items => ∀ j ∈ items, j.Ranged

def Gives {β : Type} (r : FieldReader β) (p : β → Prop) : Prop :=
  ∀ s b s', s.Ranged → r s = some (b, s') → p b ∧ s'.Ranged

namespace Gives

variable {α β : Type}

theorem pure {p : β → Prop} {b : β} (h : p b) : Gives (Pure.pure b) p := by
  rintro s b s' hs ⟨⟩
  exact ⟨h, hs⟩

theorem bind {x : FieldReader α} {f : α → FieldReader β} {p : α → Prop} {q : β → Prop} (hx : Gives x p)
    (hf : ∀ a, p a → Gives (f a) q) : Gives (x >>= f) q := by
  intro s b s' hs h
  rw [Fields.bind_run] at h
  obtain ⟨⟨a, t⟩, ha, h⟩ := Option.bind_eq_some_iff.1 h
  obtain ⟨hp, ht⟩ := hx s a t hs ha
  exact hf a hp t b s' ht h

theorem take (name : String) : Gives (Fields.take name) fun o => ∀ j ∈ o, j.Ranged := by
  intro s o s' hs h
  cases s with
  | named fs =>
    unfold Fields.take at h
    simp only at h
    split at h
    · cases h
      exact ⟨nofun, hs⟩
    · next key j hfilter =>
      have hmem := List.mem_filter.1 (hfilter ▸ List.mem_cons_self)
      cases h
      refine ⟨fun k hk => ?_, hs⟩
      cases hk
      exact hs _ hmem.1
    · cases h
  | listed items =>
    cases items with
    | nil =>
      cases h
      exact ⟨nofun, hs⟩
    | cons j items =>
      cases h
      obtain ⟨hj, hitems⟩ := List.forall_mem_cons.1 hs
      refine ⟨fun k hk => ?_, hitems⟩
      cases hk
      exact hj

variable [Wire α]

theorem required_of {p : α → Prop} (name : String) (h : ∀ j a, j.Ranged → decode j = some a → p a) :
    Gives (Fields.required name) p := by
  intro s a s' hs hread
  rw [Fields.required_run] at hread
  obtain ⟨⟨o, t⟩, ho, hread⟩ := Option.bind_eq_some_iff.1 hread
  obtain ⟨hranged, ht⟩ := take name s o t hs ho
  cases o with
  | none => cases hread
  | some j =>
    obtain ⟨a, ha, hread⟩ := Option.map_eq_some_iff.1 hread
    cases hread
    exact ⟨h j a (hranged j rfl) ha, ht⟩

theorem required [FaithfulWire α] (name : String) :
    Gives (Fields.required name : FieldReader α) Sincere :=
  required_of name fun _ _ => FaithfulWire.sincere

theorem optional [FaithfulWire α] (name : String) :
    Gives (Fields.optional name : FieldReader (Option α)) fun o => ∀ a ∈ o, Present a := by
  intro s o s' hs h
  have h' := h
  rw [Fields.optional_run] at h
  obtain ⟨⟨v, t⟩, hv, h⟩ := Option.bind_eq_some_iff.1 h
  obtain ⟨hranged, ht⟩ := take name s v t hs hv
  cases v with
  | none =>
    cases h
    exact ⟨nofun, ht⟩
  | some j =>
    by_cases hj : j = .null
    · subst hj
      cases h
      exact ⟨nofun, ht⟩
    · rw [Fields.optional_of_ne hv hj] at h'
      obtain ⟨a, ha, h'⟩ := Option.map_eq_some_iff.1 h'
      cases h'
      refine ⟨fun b hb => ?_, ht⟩
      cases hb
      exact ⟨FaithfulWire.sincere (hranged j rfl) ha, FaithfulWire.ne_null hj ha⟩

theorem withDefault_of {p : α → Prop} {default : α} (name : String) (hdefault : p default)
    (h : ∀ j a, j.Ranged → decode j = some a → p a) : Gives (Fields.withDefault name default) p := by
  intro s a s' hs hread
  rw [Fields.withDefault_run] at hread
  obtain ⟨⟨o, t⟩, ho, hread⟩ := Option.bind_eq_some_iff.1 hread
  obtain ⟨hranged, ht⟩ := take name s o t hs ho
  cases o with
  | none =>
    cases hread
    exact ⟨hdefault, ht⟩
  | some j =>
    obtain ⟨a, ha, hread⟩ := Option.map_eq_some_iff.1 hread
    cases hread
    exact ⟨h j a (hranged j rfl) ha, ht⟩

theorem withDefault [FaithfulWire α] (name : String) {default : α} (hdefault : Sincere default) :
    Gives (Fields.withDefault name default) Sincere :=
  withDefault_of name hdefault fun _ _ => FaithfulWire.sincere

theorem of_readRecord {r : FieldReader β} {p : β → Prop} (h : Gives r p) {j : Json} {b : β} (hj : j.Ranged)
    (hread : readRecord r j = some b) : p b := by
  unfold readRecord at hread
  split at hread
  · next fields =>
    obtain ⟨⟨b, s⟩, hb, h'⟩ := Option.map_eq_some_iff.1 hread
    cases h'
    exact (h (.named fields) b s (fun f hf => hj.part (.field hf .self)) hb).1
  · next items =>
    split at hread
    · next b' hb =>
      cases hread
      exact (h (.listed items) b _ (fun j hmem => hj.part (.item hmem .self)) hb).1
    · cases hread
  · cases hread

end Gives

end ServiceCatalog
