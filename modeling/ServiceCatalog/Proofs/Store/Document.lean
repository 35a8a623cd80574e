import ServiceCatalog.Proofs.Files.Content
import ServiceCatalog.Proofs.Store.Records
import ServiceCatalog.Proofs.Wire.Service
import ServiceCatalog.Proofs.Wire.Text
import ServiceCatalog.Store.Basic

namespace ServiceCatalog

open Wire Takes

namespace Records

theorem mem_foldl_put {l : List ServiceRecord} (hl : l.Pairwise fun x y => x.id ≠ y.id) (r : Records)
    (x : ServiceRecord) :
    x ∈ (l.foldl put r).list ↔ x ∈ l ∨ x ∈ r.list ∧ ∀ y ∈ l, y.id ≠ x.id := by
  induction l generalizing r with
  | nil => simp
  | cons y l ih =>
    obtain ⟨hy, hl⟩ := List.pairwise_cons.1 hl
    have hput : x ∈ (r.put y).list ↔ x = y ∨ x ∈ r.list ∧ y.id ≠ x.id := by
      have hfind := find?_put r y x.id
      constructor
      · intro hx
        rw [find?_of_mem hx] at hfind
        by_cases he : x.id = y.id
        · rw [if_pos he] at hfind
          exact .inl (Option.some.inj hfind)
        · rw [if_neg he] at hfind
          exact .inr ⟨(find?_eq_some.1 hfind.symm).1, Ne.symm he⟩
      · rintro (rfl | ⟨hx, hne⟩)
        · rw [if_pos rfl] at hfind
          exact (find?_eq_some.1 hfind).1
        · rw [if_neg (Ne.symm hne), find?_of_mem hx] at hfind
          exact (find?_eq_some.1 hfind).1
    rw [List.foldl_cons, ih hl, hput, List.mem_cons, List.forall_mem_cons]
    constructor
    · rintro (hx | ⟨rfl | ⟨hx, hne⟩, hall⟩)
      · exact .inl (.inr hx)
      · exact .inl (.inl rfl)
      · exact .inr ⟨hx, hne, hall⟩
    · rintro ((rfl | hx) | ⟨hx, hne, hall⟩)
      · exact .inr ⟨.inl rfl, fun z hz => Ne.symm (hy z hz)⟩
      · exact .inl hx
      · exact .inr ⟨.inr ⟨hx, hne⟩, hall⟩

theorem ext_mem {r t : Records} (h : ∀ x, x ∈ r.list ↔ x ∈ t.list) : r = t := by
  refine ext_find? fun id => ?_
  ext x
  simp only [find?_eq_some, h]

theorem ofList_sorted (r : Records) : ofList r.sorted = r := by
  have hperm : r.sorted.Perm r.list := List.mergeSort_perm _ _
  have hids : r.list.Pairwise fun x y => x.id ≠ y.id := by
    refine r.filed.imp fun {x y} hlt he => ?_
    rw [he] at hlt
    exact BitVec.lt_irrefl _ hlt
  have hsorted := (hperm.pairwise_iff fun h => Ne.symm h).2 hids
  refine ext_mem fun x => ?_
  rw [ofList, mem_foldl_put hsorted, hperm.mem_iff]
  simp [empty]

def Sound (r : Records) : Prop := ∀ x ∈ r.list, ∀ s ∈ x.states, s.Sound

end Records

theorem ServiceRecord.present {x : ServiceRecord} (h : ∀ s ∈ x.states, s.Sound) : Present x := by
  have hcurrent := Service.present (h x.current x.current_mem_states)
  have hhistory : Sincere x.history :=
    sincere_list fun s hs => (Service.present (h s (List.mem_append_left _ hs))).toSincere
  exact present_record rfl (fun _ => rfl) (by simp) <| .bind (.required hcurrent.toSincere _) <|
    .bind (.withDefault hhistory _ _) <| .pure _

theorem ServiceRecord.sound_of_decode {j : Json} {x : ServiceRecord} (hj : j.Ranged) (h : decode j = some x) :
    ∀ s ∈ x.states, s.Sound := by
  have hhistory (j : Json) (l : List Service) (hj : j.Ranged) (h : decode j = some l) : ∀ s ∈ l, s.Sound := by
    intro s hs
    obtain ⟨i, hi, hdec⟩ := mem_of_decode hj h s hs
    exact Service.sound_of_decode hi hdec
  refine Gives.of_readRecord (p := fun x : ServiceRecord => ∀ s ∈ x.states, s.Sound)
    (.bind (.required_of (p := Service.Sound) _ fun _ _ => Service.sound_of_decode) fun current hcurrent =>
      .bind (.withDefault_of (p := fun l => ∀ s ∈ l, s.Sound) _ (List.forall_mem_nil _) hhistory)
        fun history hhistory => .pure ?_) hj h
  exact List.forall_mem_append.2 ⟨hhistory, List.forall_mem_singleton.2 hcurrent⟩

instance : FaithfulWire ServiceRecord where
  sincere hj h := (ServiceRecord.present (ServiceRecord.sound_of_decode hj h)).toSincere
  ne_null _ _ := nofun

namespace Document

theorem present_ofRecords {r : Records} (h : r.Sound) : Present (ofRecords r) := by
  have hservices : Sincere r.sorted :=
    sincere_list fun x hx => (ServiceRecord.present (h x ((List.mergeSort_perm _ _).mem_iff.1 hx))).toSincere
  exact present_record rfl (fun _ => rfl) (by simp) <| required_bind <| .bind (.withDefault hservices _ _) <| .pure _

theorem sound_of_decode {j : Json} {d : Document} (hj : j.Ranged) (h : decode j = some d) :
    (Records.ofList d.services).Sound := by
  have hservices (j : Json) (l : List ServiceRecord) (hj : j.Ranged) (h : decode j = some l) :
      ∀ x ∈ l, ∀ s ∈ x.states, s.Sound := by
    intro x hx
    obtain ⟨i, hi, hdec⟩ := mem_of_decode hj h x hx
    exact ServiceRecord.sound_of_decode hi hdec
  have hd : ∀ x ∈ d.services, ∀ s ∈ x.states, s.Sound :=
    Gives.of_readRecord (p := fun d : Document => ∀ x ∈ d.services, ∀ s ∈ x.states, s.Sound)
      (.required_bind fun _ _ =>
        .bind (.withDefault_of (p := fun l => ∀ x ∈ l, ∀ s ∈ x.states, s.Sound) _ (List.forall_mem_nil _)
          hservices) fun _ hservices => .pure hservices) hj h
  exact fun x hx => hd x (Records.mem_ofList hx)

theorem sound_of_readRecords {text : String} {r : Records} (h : readRecords text = .ok r) : r.Sound := by
  rw [readRecords] at h
  split at h
  · cases h
  · next d hd =>
    split at h
    · cases h
      obtain ⟨j, hj, hdec⟩ := Option.bind_eq_some_iff.1 hd
      exact sound_of_decode (Json.ranged_of_read? hj) hdec
    · cases h

def depth (r : Records) : Nat := (encode (ofRecords r)).depth

def Restored (r : Records) : Prop := ∀ x, Json.Part (.float x) (encode (ofRecords r)) → x.Restored

instance (r : Records) : Decidable (Restored r) :=
  decidable_of_iff (∀ x ∈ (encode (ofRecords r)).floats, x.Restored)
    (forall_congr' fun _ => imp_congr Json.part_float.symm Iff.rfl)

theorem readRecords_text {r : Records} (hsound : r.Sound) (hfloats : Restored r) :
    readRecords r.text = if depth r ≤ Json.nestingLimit then .ok r else .error .malformed := by
  have hread : (decodeText? r.text : Option Document)
      = if depth r ≤ Json.nestingLimit then some (ofRecords r) else none :=
    (present_ofRecords hsound).toSincere.decodeText?_pretty hfloats
  rw [readRecords, hread]
  by_cases hd : depth r ≤ Json.nestingLimit
  · rw [if_pos hd, if_pos hd]
    exact congrArg Except.ok r.ofList_sorted
  · rw [if_neg hd, if_neg hd]

end Document

namespace Store

theorem sound_of_open {files : Files} {file : Path} {s : Store} (h : Store.open files file = .ok s) :
    s.records.Sound ∧ s.file = some file := by
  unfold Store.open at h
  split at h
  · cases h
    exact ⟨List.forall_mem_nil _, rfl⟩
  · split at h
    · cases h
    · next text _ =>
      cases hr : Document.readRecords text with
      | error e =>
        rw [hr] at h
        cases h
      | ok r =>
        rw [hr] at h
        cases h
        exact ⟨Document.sound_of_readRecords hr, rfl⟩

theorem open_text {files : Files} {file : Path} {r : Records} (htext : files.text? file = some r.text)
    (hsound : r.Sound) (hfloats : Document.Restored r) :
    Store.open files file =
      if Document.depth r ≤ Json.nestingLimit then .ok ⟨r, some file⟩ else .error .malformed := by
  unfold Store.open
  rw [Files.find?_of_text? htext, Files.read_of_text? htext]
  simp only [Option.isNone_some, Bool.false_eq_true, if_false, Document.readRecords_text hsound hfloats]
  by_cases hd : Document.depth r ≤ Json.nestingLimit
  · rw [if_pos hd, if_pos hd]
    rfl
  · rw [if_neg hd, if_neg hd]
    rfl

end Store

end ServiceCatalog
