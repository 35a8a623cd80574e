import ServiceCatalog.Catalog.Mutation
import ServiceCatalog.Proofs.Tag.Reconciling

namespace ServiceCatalog

section

variable {α κ : Type} [BEq κ] [LawfulBEq κ] {key : α → κ}

theorem eraseDupsBy_cons_filter (a : α) (l : List α) :
    (a :: l).eraseDupsBy (key · == key ·) = a :: (l.eraseDupsBy (key · == key ·)).filter (key · != key a) := by
  have hfilter : l.filter (fun b => decide ((key b == key a) = false)) = l.filter (key · != key a) := by
    apply List.filter_congr
    intro b _
    simp [bne]
  rw [List.eraseDupsBy_cons, hfilter, eraseDupsBy_filter]
  intro b c h
  rw [bne, bne, eq_of_beq h]

theorem eraseDupsBy_concat (a : α) (l : List α) :
    (l ++ [a]).eraseDupsBy (key · == key ·) =
      if l.any (key · == key a) then l.eraseDupsBy (key · == key ·)
      else l.eraseDupsBy (key · == key ·) ++ [a] := by
  induction l with
  | nil => simp [eraseDupsBy_cons_filter]
  | cons b l ih =>
    rw [List.cons_append, eraseDupsBy_cons_filter, eraseDupsBy_cons_filter, ih, List.any_cons]
    cases hl : l.any (key · == key a) with
    | true => simp
    | false =>
      by_cases hb : key b = key a
      · simp [hb]
      · simp [hb, Ne.symm hb]

theorem mem_keys_eraseDupsBy {l : List α} {k : κ} :
    k ∈ (l.eraseDupsBy (key · == key ·)).map key ↔ k ∈ l.map key := by
  induction l with
  | nil => rfl
  | cons a l ih =>
    rw [eraseDupsBy_cons_filter, List.map_cons, List.map_cons, List.mem_cons, List.mem_cons, ← ih]
    by_cases hk : k = key a
    · simp [hk]
    · simp only [hk, false_or, List.mem_map, List.mem_filter, bne_iff_ne]
      grind

theorem nodup_keys_eraseDupsBy (l : List α) : ((l.eraseDupsBy (key · == key ·)).map key).Nodup := by
  induction l with
  | nil => exact List.nodup_nil
  | cons a l ih =>
    rw [eraseDupsBy_cons_filter, List.map_cons, List.nodup_cons]
    refine ⟨?_, ih.sublist (List.filter_sublist.map key)⟩
    simp

theorem eraseP_eq_filter {l : List α} (h : (l.map key).Nodup) (k : κ) :
    l.eraseP (key · == k) = l.filter (key · != k) := by
  induction l with
  | nil => rfl
  | cons a l ih =>
    rw [List.map_cons, List.nodup_cons] at h
    by_cases ha : key a = k
    · subst ha
      rw [List.eraseP_cons_of_pos (by simp), List.filter_cons_of_neg (by simp)]
      refine (List.filter_eq_self.2 fun b hb => ?_).symm
      rw [bne_iff_ne]
      intro he
      exact h.1 (he ▸ List.mem_map_of_mem hb)
    · rw [List.eraseP_cons_of_neg (by simpa using ha), List.filter_cons_of_pos (by simpa using ha), ih h.2]

end

namespace Mutation

def joins (id : Uuid) : Mutation → List Reference
  | follow i user => if i = id then [user] else []
  | _ => []

def drops (id user : Uuid) : Mutation → Bool
  | unfollow i u => i = id ∧ user = u
  | remove i => i = id
  | _ => false

def followed (id : Uuid) (l : List Reference) : Mutation → List Reference
  | follow i user => if i = id ∧ l.any (·.id == user.id) = false then l ++ [user] else l
  | unfollow i user => if i = id then l.eraseP (·.id == user) else l
  | remove i => if i = id then [] else l
  | _ => l

def lasting (id : Uuid) : List Mutation → List Reference
  | [] => []
  | m :: later => ((m.joins id).filter fun user => !later.any (drops id user.id)) ++ lasting id later

def standing (id : Uuid) (calls : List Mutation) : List Reference := (lasting id calls).eraseDupsBy (·.id == ·.id)

variable {id : Uuid}

theorem lasting_concat (calls : List Mutation) (m : Mutation) :
    lasting id (calls ++ [m]) = ((lasting id calls).filter fun user => !m.drops id user.id) ++ m.joins id := by
  induction calls with
  | nil => simp [lasting]
  | cons call calls ih =>
    rw [List.cons_append, lasting, lasting, ih, List.filter_append, List.filter_filter, List.append_assoc]
    simp only [List.any_append, List.any_cons, List.any_nil, Bool.or_false, Bool.not_or, Bool.and_comm]

theorem mem_lasting {calls : List Mutation} {user : Reference} :
    user ∈ lasting id calls ↔ ∃ before after, calls = before ++ follow id user :: after ∧
      ∀ m ∈ after, m.drops id user.id = false := by
  induction calls with
  | nil => simp [lasting]
  | cons call calls ih =>
    rw [lasting, List.mem_append, ih, List.mem_filter]
    constructor
    · rintro (⟨hjoins, hlasts⟩ | ⟨before, after, rfl, hlasts⟩)
      · obtain rfl : call = follow id user := by
          cases call with
          | follow i u =>
            by_cases hi : i = id
            · simp [joins, hi] at hjoins
              rw [hi, hjoins]
            · simp [joins, hi] at hjoins
          | _ => cases hjoins
        exact ⟨[], calls, rfl, by simpa using hlasts⟩
      · exact ⟨call :: before, after, rfl, hlasts⟩
    · rintro ⟨before, after, hcalls, hlasts⟩
      cases before with
      | nil =>
        obtain ⟨rfl, rfl⟩ := List.cons.inj hcalls
        exact .inl ⟨by simp [joins], by simpa using hlasts⟩
      | cons _ before =>
        obtain ⟨rfl, rfl⟩ := List.cons.inj hcalls
        exact .inr ⟨before, after, rfl, hlasts⟩

theorem standing_of_not_joins {m : Mutation} (h : m.joins id = []) (calls : List Mutation) :
    standing id (calls ++ [m]) = (standing id calls).filter fun user => !m.drops id user.id := by
  rw [standing, lasting_concat, h, List.append_nil]
  apply eraseDupsBy_filter
  intro a b hab
  rw [eq_of_beq hab]

theorem standing_follow (calls : List Mutation) (user : Reference) :
    standing id (calls ++ [follow id user]) =
      if (standing id calls).any (·.id == user.id) then standing id calls else standing id calls ++ [user] := by
  have hlasting : lasting id (calls ++ [follow id user]) = lasting id calls ++ [user] := by
    simp [lasting_concat, joins, drops]
  have hany : (lasting id calls).any (·.id == user.id) = (standing id calls).any (·.id == user.id) := by
    have hmem : user.id ∈ (standing id calls).map (·.id) ↔ user.id ∈ (lasting id calls).map (·.id) :=
      mem_keys_eraseDupsBy
    rw [Bool.eq_iff_iff]
    simpa using hmem.symm
  rw [standing, hlasting, eraseDupsBy_concat, hany]
  rfl

theorem mem_standing {calls : List Mutation} {user : Uuid} :
    user ∈ (standing id calls).map (·.id) ↔ ∃ before added after,
      calls = before ++ follow id added :: after ∧ added.id = user ∧ ∀ m ∈ after, m.drops id user = false := by
  rw [standing, mem_keys_eraseDupsBy, List.mem_map]
  constructor
  · rintro ⟨added, hadded, rfl⟩
    obtain ⟨before, after, hcalls, hlasts⟩ := mem_lasting.1 hadded
    exact ⟨before, added, after, hcalls, rfl, hlasts⟩
  · rintro ⟨before, added, after, hcalls, rfl, hlasts⟩
    exact ⟨added, mem_lasting.2 ⟨before, after, hcalls, hlasts⟩, rfl⟩

theorem nodup_standing (id : Uuid) (calls : List Mutation) : ((standing id calls).map (·.id)).Nodup :=
  nodup_keys_eraseDupsBy _

theorem standing_concat (calls : List Mutation) (m : Mutation) :
    standing id (calls ++ [m]) = m.followed id (standing id calls) := by
  have hkept (hjoins : m.joins id = []) (hdrops : ∀ user, m.drops id user = false) :
      standing id (calls ++ [m]) = standing id calls := by
    simp [standing_of_not_joins hjoins, hdrops]
  cases m with
  | follow i user =>
    by_cases hi : i = id
    · subst hi
      rw [standing_follow, followed]
      cases (standing i calls).any (·.id == user.id) <;> simp
    · rw [hkept (if_neg hi) fun _ => rfl, followed, if_neg fun h => hi h.1]
  | unfollow i user =>
    by_cases hi : i = id
    · rw [standing_of_not_joins rfl, followed, if_pos hi, eraseP_eq_filter (nodup_standing id calls)]
      apply List.filter_congr
      intro u _
      by_cases hu : u.id = user <;> simp [drops, hi, hu]
    · rw [hkept rfl fun _ => by simp [drops, hi], followed, if_neg hi]
  | remove i =>
    by_cases hi : i = id
    · rw [standing_of_not_joins rfl, followed, if_pos hi]
      simp [drops, hi]
    · rw [hkept rfl fun _ => by simp [drops, hi], followed, if_neg hi]
  | _ => exact hkept rfl fun _ => rfl

end Mutation

end ServiceCatalog
