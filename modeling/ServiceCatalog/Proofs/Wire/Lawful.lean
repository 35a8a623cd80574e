import ServiceCatalog.Proofs.Json.Dict
import ServiceCatalog.Proofs.Json.Ranged
import ServiceCatalog.Wire.Basic

/-!
Types whose values are read from what is written for them. Where the reader leaves out what stands too
deep, a value is read if nothing is left out, and refused otherwise.
-/

namespace ServiceCatalog

variable {α : Type} [Wire α]

namespace Wire

structure Sincere (a : α) : Prop where
  decode_cut : ∀ d, decode ((encode a).cut d) = if (encode a).depth ≤ d then some a else none
  legible : (encode a).legible = true
  ranged : (encode a).Ranged

structure Present (a : α) : Prop extends Sincere a where
  ne_null : encode a ≠ .null

theorem Sincere.decode_encode {a : α} (h : Sincere a) : decode (encode a) = some a := by
  have hd := h.decode_cut (encode a).depth
  rwa [Json.cut_eq_self (Nat.le_refl _), if_pos (Nat.le_refl _)] at hd

end Wire

open Wire

class LawfulWire (α : Type) [Wire α] : Prop where
  present : ∀ a : α, Present a

class FaithfulWire (α : Type) [Wire α] : Prop where
  sincere : ∀ {j : Json} {a : α}, j.Ranged → decode j = some a → Sincere a
  ne_null : ∀ {j : Json} {a : α}, j ≠ .null → decode j = some a → encode a ≠ .null

export LawfulWire (present)

instance [LawfulWire α] : FaithfulWire α where
  sincere _ _ := (present _).toSincere
  ne_null _ _ := (present _).ne_null

namespace Wire

theorem Present.of_leaf {a : α} {j : Json} (henc : encode a = j) (hcut : ∀ d, j.cut d = j)
    (hlegible : j.legible = true) (hranged : j.Ranged) (hnull : j ≠ .null) (hdec : decode j = some a) :
    Present a := by
  subst henc
  have hdepth : (encode a).depth = 0 := by
    have := (Json.legible_cut hlegible).1 ((hcut 0).symm ▸ hlegible)
    omega
  refine ⟨⟨fun d => ?_, hlegible, hranged⟩, hnull⟩
  rw [hcut, hdec, if_pos (by omega)]

theorem Present.of_str {a : α} {s : String} (henc : encode a = .str s) (hdec : decode (.str s) = some a) :
    Present a :=
  .of_leaf henc (fun _ => rfl) rfl nofun nofun hdec

theorem Present.of_int {a : α} {n : Int} (henc : encode a = .int n) (hrange : Json.Literal.InRange n)
    (hdec : decode (.int n) = some a) : Present a :=
  .of_leaf henc (fun _ => rfl) rfl (by rintro m ⟨⟩; exact hrange) nofun hdec

instance : LawfulWire String := ⟨fun _ => .of_str rfl rfl⟩

instance : LawfulWire Bool := ⟨fun _ => .of_leaf rfl (fun _ => rfl) rfl nofun nofun rfl⟩

instance : LawfulWire Int64 where
  present n := by
    have hlow := n.le_toInt
    have hhigh := n.toInt_lt
    refine .of_int rfl ⟨by omega, by omega⟩ ?_
    have hrange : -0x8000000000000000 ≤ n.toInt ∧ n.toInt ≤ 0x7fffffffffffffff := ⟨by omega, by omega⟩
    simp [decode, decodeInt, hrange]

instance : LawfulWire UInt32 where
  present n := by
    have hlt := n.toNat_lt
    refine .of_int rfl ⟨by omega, by omega⟩ ?_
    have hrange : (0 : Int) ≤ n.toNat ∧ (n.toNat : Int) ≤ 0xffffffff := ⟨by omega, by omega⟩
    simp [decode, decodeInt, hrange]

theorem present_nat {n : Nat} (h : n < UInt64.size) : Present n := by
  have hlt : n < 2 ^ 64 := h
  refine .of_int rfl ⟨by omega, by omega⟩ ?_
  have hrange : (0 : Int) ≤ n ∧ (n : Int) ≤ 0xffffffffffffffff := ⟨by omega, by omega⟩
  simp [decode, decodeInt, hrange]

instance : FaithfulWire Nat where
  sincere {j n} _ h := by
    cases j with
    | int i =>
      obtain ⟨m, hm, rfl⟩ := Option.map_eq_some_iff.1 h
      simp only [decodeInt, Option.ite_none_right_eq_some, Option.some.injEq] at hm
      obtain ⟨hi, rfl⟩ := hm
      exact (present_nat (show i.toNat < 2 ^ 64 by omega)).toSincere
    | null | bool | float | str | arr | obj | illegible => cases h
  ne_null _ _ := nofun

theorem mapM_map {β γ : Type} {l : List β} {f : β → γ} {g : γ → Option β} {p : β → Prop} [DecidablePred p]
    (h : ∀ b ∈ l, g (f b) = if p b then some b else none) :
    (l.map f).mapM g = if ∀ b ∈ l, p b then some l else none := by
  induction l with
  | nil => rfl
  | cons b l ih =>
    obtain ⟨hb, hl⟩ := List.forall_mem_cons.1 h
    rw [List.map_cons, List.mapM_cons, hb, ih hl]
    simp only [List.forall_mem_cons]
    by_cases hp : p b
    · by_cases hps : ∀ b ∈ l, p b
      · rw [if_pos hp, if_pos hps, if_pos ⟨hp, hps⟩]
        rfl
      · have hall : ¬ (p b ∧ ∀ b ∈ l, p b) := fun h => hps h.2
        rw [if_pos hp, if_neg hps, if_neg hall]
        rfl
    · have hall : ¬ (p b ∧ ∀ b ∈ l, p b) := fun h => hp h.1
      rw [if_neg hp, if_neg hall]
      rfl

theorem sincere_list {l : List α} (h : ∀ a ∈ l, Sincere a) : Sincere l where
  decode_cut d := by
    change decode ((Json.arr (l.map encode)).cut d) = if (Json.arr (l.map encode)).depth ≤ d then some l else none
    rw [Json.cut_arr]
    cases d with
    | zero =>
      rw [if_neg fun h => Nat.lt_irrefl 0 (Json.depth_arr_le.1 h).1]
      rfl
    | succ d =>
      have hread := mapM_map (f := fun a => (encode a).cut d) (g := decode)
        (p := fun a => (encode a).depth ≤ d) fun a ha => (h a ha).decode_cut d
      simp only [Nat.succ_ne_zero, if_false, Nat.add_sub_cancel, decode, List.map_map, Json.depth_arr_le,
        List.forall_mem_map, Nat.zero_lt_succ, true_and]
      exact hread
  legible := Json.legible_arr.2 (List.forall_mem_map.2 fun a ha => (h a ha).legible)
  ranged := Json.ranged_arr (List.forall_mem_map.2 fun a ha => (h a ha).ranged)

instance [LawfulWire α] : LawfulWire (List α) where
  present _ := ⟨sincere_list fun _ _ => (present _).toSincere, nofun⟩

theorem mem_of_mapM {β γ : Type} {g : γ → Option β} {l : List γ} {bs : List β} (h : l.mapM g = some bs) :
    ∀ b ∈ bs, ∃ c ∈ l, g c = some b := by
  induction l generalizing bs with
  | nil =>
    cases h
    exact List.forall_mem_nil _
  | cons c l ih =>
    rw [List.mapM_cons] at h
    obtain ⟨b, hb, h⟩ := Option.bind_eq_some_iff.1 h
    obtain ⟨bs', hbs, h⟩ := Option.bind_eq_some_iff.1 h
    cases h
    refine List.forall_mem_cons.2 ⟨⟨c, List.mem_cons_self, hb⟩, fun b' hb' => ?_⟩
    obtain ⟨c', hc', he⟩ := ih hbs b' hb'
    exact ⟨c', List.mem_cons_of_mem _ hc', he⟩

theorem mem_of_decode {j : Json} {l : List α} (hj : j.Ranged) (h : decode j = some l) :
    ∀ a ∈ l, ∃ i : Json, i.Ranged ∧ decode i = some a := by
  cases j with
  | arr items =>
    intro a ha
    obtain ⟨i, hi, hdec⟩ := mem_of_mapM h a ha
    exact ⟨i, hj.part (.item hi .self), hdec⟩
  | null | bool | int | float | str | obj | illegible => cases h

instance [FaithfulWire α] : FaithfulWire (List α) where
  sincere hj h := sincere_list fun a ha => by
    obtain ⟨i, hi, hdec⟩ := mem_of_decode hj h a ha
    exact FaithfulWire.sincere hi hdec
  ne_null _ _ := nofun

theorem decodeFields_cut {l : List (String × α)} (h : ∀ p ∈ l, Sincere p.2) (d : Nat) :
    decodeFields (l.map fun p => (p.1, (encode p.2).cut d))
      = if ∀ p ∈ l, (encode p.2).depth ≤ d then some l else none := by
  refine mapM_map (l := l) (f := fun p => (p.1, (encode p.2).cut d)) (g := fun p => (decode p.2).map (p.1, ·))
    (p := fun p => (encode p.2).depth ≤ d) fun p hp => ?_
  rw [(h p hp).decode_cut d]
  split <;> rfl

theorem sincere_dict {d : Dict α} (h : ∀ p ∈ d.entries, Sincere p.2) : Sincere d where
  decode_cut n := by
    change decode ((Json.obj (d.entries.map fun p => (p.1, encode p.2))).cut n)
      = if (Json.obj (d.entries.map fun p => (p.1, encode p.2))).depth ≤ n then some d else none
    rw [Json.cut_obj]
    cases n with
    | zero =>
      rw [if_neg fun h => Nat.lt_irrefl 0 (Json.depth_obj_le.1 h).1]
      rfl
    | succ n =>
      have hread := decodeFields_cut h n
      simp only [Nat.succ_ne_zero, if_false, Nat.add_sub_cancel, decode, List.map_map, Json.depth_obj_le,
        List.forall_mem_map, Nat.zero_lt_succ, true_and]
      change Option.map Dict.ofList (decodeFields (d.entries.map fun p => (p.1, (encode p.2).cut n))) = _
      rw [hread]
      split
      · rw [Option.map_some, Dict.ofList_entries]
      · rfl
  legible := Json.legible_obj.2 (List.forall_mem_map.2 fun p hp => (h p hp).legible)
  ranged := Json.ranged_obj (List.forall_mem_map.2 fun p hp => (h p hp).ranged)

instance [LawfulWire α] : LawfulWire (Dict α) where
  present _ := ⟨sincere_dict fun _ _ => (present _).toSincere, nofun⟩

theorem sincere_of_decodeFields [FaithfulWire α] {fields : List (String × Json)} {l : List (String × α)}
    (hfields : ∀ p ∈ fields, p.2.Ranged) (h : decodeFields fields = some l) : ∀ p ∈ l, Sincere p.2 := by
  intro p hp
  obtain ⟨f, hf, hdec⟩ := mem_of_mapM h p hp
  obtain ⟨a, ha, rfl⟩ := Option.map_eq_some_iff.1 hdec
  exact FaithfulWire.sincere (hfields f hf) ha

instance [FaithfulWire α] : FaithfulWire (Dict α) where
  sincere {j d} hj h := by
    cases j with
    | obj fields =>
      obtain ⟨l, hl, rfl⟩ := Option.map_eq_some_iff.1 h
      refine sincere_dict fun p hp => ?_
      exact sincere_of_decodeFields (fun f hf => hj.part (.field hf .self)) hl p (Dict.mem_ofList hp)
    | null | bool | int | float | str | arr | illegible => cases h
  ne_null _ _ := nofun

end Wire

end ServiceCatalog
