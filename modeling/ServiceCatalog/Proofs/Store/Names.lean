import Mathlib.Data.List.Find
import ServiceCatalog.Proofs.Service.Check
import ServiceCatalog.Proofs.Store.Records

namespace ServiceCatalog

namespace Name

theorem qualify_inj {a b : String} (h : qualify a = qualify b) : a = b := by
  -- a dot in quotes is a dot, so one of the two cannot have quotes added alone
  have hquoted {a b : String} (ha : a.toList.contains '.' = true) (hb : ¬ b.toList.contains '.' = true) :
      "\"" ++ a ++ "\"" ≠ b := by
    rintro rfl
    simp_all
  unfold qualify at h
  split at h <;> split at h
  · apply String.toList_inj.1
    simpa using congrArg String.toList h
  · next ha hb => exact absurd h (hquoted ha hb)
  · next ha hb => exact absurd h.symm (hquoted hb ha)
  · exact h

theorem qualify_eq_self {name : String} (h : check (qualify name) = .ok ()) : qualify name = name := by
  have hquote : '"' ∉ (qualify name).toList := (check_eq_ok.1 h).2.2.2
  unfold qualify at hquote ⊢
  split at hquote
  · exact absurd (by simp) hquote
  · next hdot => rw [if_neg hdot]

end Name

namespace Records

theorem nameTaken_iff {r : Records} {name : String} {except : Option Uuid} :
    r.nameTaken name except = true ↔ ∃ x ∈ r.list, x.current.name = name ∧ some x.id ≠ except := by
  simp [nameTaken]

def Distinct (r : Records) : Prop :=
  ∀ x ∈ r.list, ∀ y ∈ r.list, x.current.name = y.current.name → x = y

theorem Distinct.nameTaken_self {r : Records} (h : r.Distinct) {x : ServiceRecord} (hx : x ∈ r.list) :
    r.nameTaken x.current.name (some x.id) = false := by
  apply Bool.eq_false_iff.2
  intro htaken
  obtain ⟨y, hy, hname, hid⟩ := nameTaken_iff.1 htaken
  exact hid (congrArg (fun z => some z.id) (h y hy x hx hname))

theorem Distinct.replace_eq {r : Records} (h : r.Distinct) {x : ServiceRecord} (hx : x ∈ r.list) {s : Service}
    (hid : s.id = x.id) (hname : s.name = x.current.name) :
    r.replace s x.current.version = .ok (r.put (x.advance s)) := by
  apply replace_eq_ok.2
  rw [hname, hid]
  exact ⟨h.nameTaken_self hx, x, find?_of_mem hx, rfl, rfl⟩

theorem Distinct.put {r : Records} {x : ServiceRecord} (h : r.Distinct)
    (hfree : r.nameTaken x.current.name (some x.id) = false) : (r.put x).Distinct := by
  have hne : ∀ y ∈ r.list, y.id ≠ x.id → y.current.name ≠ x.current.name := by
    intro y hy hid hname
    have htaken : r.nameTaken x.current.name (some x.id) = true :=
      nameTaken_iff.2 ⟨y, hy, hname, fun he => hid (Option.some.inj he)⟩
    rw [hfree] at htaken
    cases htaken
  intro y hy z hz hname
  rcases mem_put_iff.1 hy with hyx | ⟨hy, hyid⟩ <;> rcases mem_put_iff.1 hz with hzx | ⟨hz, hzid⟩
  · rw [hyx, hzx]
  · exact absurd (hname.symm.trans (congrArg (·.current.name) hyx)) (hne z hz hzid)
  · exact absurd (hname.trans (congrArg (·.current.name) hzx)) (hne y hy hyid)
  · exact h y hy z hz hname

theorem Distinct.write {r t : Records} {w : Write} (h : r.Distinct) (hw : r.write w = .ok t) : t.Distinct := by
  cases w with
  | insert s =>
    obtain ⟨-, hfree, rfl⟩ := insert_eq_ok.1 hw
    apply h.put
    apply Bool.eq_false_iff.2
    intro htaken
    obtain ⟨x, hx, hname, -⟩ := nameTaken_iff.1 htaken
    have htaken : r.nameTaken s.name none = true := nameTaken_iff.2 ⟨x, hx, hname, nofun⟩
    rw [hfree] at htaken
    cases htaken
  | replace s base =>
    obtain ⟨hfree, x, hx, -, rfl⟩ := replace_eq_ok.1 hw
    exact h.put hfree
  | remove id =>
    obtain ⟨-, rfl⟩ := remove_eq_ok.1 hw
    exact fun x hx y hy => h x (mem_erase hx) y (mem_erase hy)

def named? (r : Records) (name : String) : Option Service :=
  (r.list.find? (·.current.name == name)).map (·.current)

theorem named?_isSome {r : Records} {name : String} :
    (r.named? name).isSome = true ↔ ∃ x ∈ r.list, x.current.name = name := by
  simp [named?]

theorem Distinct.named?_eq_some {r : Records} (h : r.Distinct) {name : String} {s : Service} :
    r.named? name = some s ↔ ∃ x ∈ r.list, x.current = s ∧ s.name = name := by
  rw [named?, Option.map_eq_some_iff]
  constructor
  · rintro ⟨x, hx, rfl⟩
    obtain ⟨hmem, hname⟩ := (find?_key_eq_some h).1 hx
    exact ⟨x, hmem, rfl, hname⟩
  · rintro ⟨x, hx, rfl, hname⟩
    exact ⟨x, (find?_key_eq_some h).2 ⟨hx, hname⟩, rfl⟩

structure Indexed (r : Records) : Prop where
  valid : ∀ x ∈ r.list, Name.check x.current.name = .ok ()
  qualified : ∀ x ∈ r.list, x.current.qualifiedName = Name.qualify x.current.name
  distinct : r.Distinct

namespace Indexed

variable {r : Records} (h : r.Indexed)
include h

theorem qualifiedName_inj {x y : ServiceRecord} (hx : x ∈ r.list) (hy : y ∈ r.list)
    (he : x.current.qualifiedName = y.current.qualifiedName) : x = y := by
  rw [h.qualified x hx, h.qualified y hy] at he
  exact h.distinct x hx y hy (Name.qualify_inj he)

theorem getNamed?_eq_some {q : String} {s : Service} :
    r.getNamed? q = some s ↔ ∃ x ∈ r.list, x.current = s ∧ s.qualifiedName = q := by
  have hinj : ∀ x ∈ r.list, ∀ y ∈ r.list, x.current.qualifiedName = y.current.qualifiedName → x = y :=
    fun x hx y hy => h.qualifiedName_inj hx hy
  rw [getNamed?, Option.map_eq_some_iff]
  constructor
  · rintro ⟨x, hx, rfl⟩
    obtain ⟨hmem, hname⟩ := (find?_key_eq_some hinj).1 hx
    exact ⟨x, hmem, rfl, hname⟩
  · rintro ⟨x, hx, rfl, hname⟩
    exact ⟨x, (find?_key_eq_some hinj).2 ⟨hx, hname⟩, rfl⟩

theorem getNamed?_qualify (name : String) : r.getNamed? (Name.qualify name) = r.named? name := by
  have hsame : ∀ x ∈ r.list, (x.current.qualifiedName == Name.qualify name) = (x.current.name == name) := by
    intro x hx
    rw [h.qualified x hx, Bool.eq_iff_iff, beq_iff_eq, beq_iff_eq]
    exact ⟨Name.qualify_inj, congrArg Name.qualify⟩
  rw [getNamed?, named?, List.find?_congr hsame]

end Indexed

end Records

end ServiceCatalog
