import ServiceCatalog.Proofs.Service.Updating

namespace ServiceCatalog

namespace FieldPatch

variable {α : Type}

def merge : FieldPatch α → FieldPatch α → FieldPatch α
  | .keep, q => q
  | p, _ => p

variable {p q : FieldPatch α}

theorem merge_keep (p : FieldPatch α) : p.merge .keep = p := by cases p <;> rfl

theorem merge_comm (h : p = .keep ∨ q = .keep) : p.merge q = q.merge p := by
  rcases h with rfl | rfl
  · exact (merge_keep q).symm
  · exact merge_keep p

theorem merge_eq_iff (h : p = .keep ∨ q = .keep) {r : FieldPatch α} (hr : r ≠ .keep) :
    p.merge q = r ↔ p = r ∨ q = r := by
  rcases h with rfl | rfl
  · simp [merge, hr.symm]
  · simp [merge_keep, hr.symm]

theorem forall_merge (h : p = .keep ∨ q = .keep) (P : α → Prop) :
    (∀ a, p.merge q = .set a → P a) ↔ (∀ a, p = .set a → P a) ∧ ∀ a, q = .set a → P a := by
  rw [← forall_and]
  apply forall_congr'
  intro a
  have ha : FieldPatch.set a ≠ .keep := nofun
  rw [merge_eq_iff h ha, or_imp]

theorem over_merge [BEq α] (h : p = .keep ∨ q = .keep) (old : Option α) :
    (p.merge q).over old = q.over (p.over old) := by
  rcases h with rfl | rfl
  · rfl
  · rw [merge_keep]
    rfl

def drops [BEq α] (key : α → String) (old : Option (List α)) (p : FieldPatch (List α)) : Bool :=
  loses ((old.getD []).map key) (((p.over old).getD []).map key)

theorem drops_keep [BEq α] (key : α → String) (old : Option (List α)) : drops key old .keep = false := by
  apply Bool.eq_false_of_not_eq_true
  intro hloses
  obtain ⟨a, ha, hgone⟩ := loses_iff.1 hloses
  exact hgone a ha rfl

theorem drops_merge [BEq α] (key : α → String) (old : Option (List α)) {p q : FieldPatch (List α)}
    (h : p = .keep ∨ q = .keep) : drops key old (p.merge q) = (drops key old p || drops key old q) := by
  rcases h with rfl | rfl
  · rw [drops_keep, Bool.false_or]
    rfl
  · rw [drops_keep, Bool.or_false, merge_keep]

theorem drops_congr [BEq α] (key : α → String) {old new : Option (List α)} {p : FieldPatch (List α)}
    (h : p = .keep ∨ new = old) : drops key new p = drops key old p := by
  rcases h with rfl | rfl
  · rw [drops_keep, drops_keep]
  · rfl

end FieldPatch

namespace Patch

structure Disjoint (p q : Patch) : Prop where
  id : p.id = none ∨ q.id = none
  kind : p.kind = none ∨ q.kind = none
  name : p.name = .keep ∨ q.name = .keep
  field : ∀ f, p.get f = .keep ∨ q.get f = .keep

def merge (p q : Patch) : Patch where
  id := p.id.or q.id
  kind := p.kind.or q.kind
  name := p.name.merge q.name
  displayName := p.displayName.merge q.displayName
  description := p.description.merge q.description
  serverInstructions := p.serverInstructions.merge q.serverInstructions
  connection := p.connection.merge q.connection
  availableTools := p.availableTools.merge q.availableTools
  availableResources := p.availableResources.merge q.availableResources
  availablePrompts := p.availablePrompts.merge q.availablePrompts
  tags := p.tags.merge q.tags
  owners := p.owners.merge q.owners
  domains := p.domains.merge q.domains
  dataProducts := p.dataProducts.merge q.dataProducts
  pipelines := p.pipelines.merge q.pipelines

variable {policy : DuplicatePolicy} {p q : Patch}

theorem get_merge (p q : Patch) (f : Field) : (p.merge q).get f = (p.get f).merge (q.get f) := by cases f <;> rfl

theorem Disjoint.symm (h : p.Disjoint q) : q.Disjoint p :=
  ⟨h.id.symm, h.kind.symm, h.name.symm, fun f => (h.field f).symm⟩

theorem checkPatch_merge (h : p.Disjoint q) (s : Service) :
    s.checkPatch policy (p.merge q) = .ok () ↔ s.checkPatch policy p = .ok () ∧ s.checkPatch policy q = .ok () := by
  have hoption {α : Type} {a b : Option α} (hab : a = none ∨ b = none) (P : α → Prop) :
      (∀ x ∈ a.or b, P x) ↔ (∀ x ∈ a, P x) ∧ ∀ x ∈ b, P x := by
    rcases hab with rfl | rfl <;> simp
  have hid := hoption h.id (· = s.id)
  have hkind := hoption h.kind (· = s.kind)
  have hname := FieldPatch.forall_merge h.name (Name.check · = .ok ())
  have hfield : (∀ f a, (p.merge q).get f = .set a → f.Sane policy s.kind a) ↔
      (∀ f a, p.get f = .set a → f.Sane policy s.kind a) ∧ ∀ f a, q.get f = .set a → f.Sane policy s.kind a := by
    rw [← forall_and]
    apply forall_congr'
    intro f
    rw [get_merge, FieldPatch.forall_merge (h.field f)]
  rw [Service.checkPatch_eq_ok, Service.checkPatch_eq_ok, Service.checkPatch_eq_ok]
  refine (and_congr hid (and_congr hkind (and_congr hname hfield))).trans ?_
  constructor
  · rintro ⟨⟨hi, hi'⟩, ⟨hk, hk'⟩, ⟨hn, hn'⟩, hf, hf'⟩
    exact ⟨⟨hi, hk, hn, hf⟩, hi', hk', hn', hf'⟩
  · rintro ⟨⟨hi, hk, hn, hf⟩, hi', hk', hn', hf'⟩
    exact ⟨⟨hi, hi'⟩, ⟨hk, hk'⟩, ⟨hn, hn'⟩, hf, hf'⟩

def Admissible (policy : DuplicatePolicy) (s : Service) (p : Patch) : Prop :=
  s.checkPatch policy p = .ok () ∧ p.name ≠ .clear

theorem admissible_congr {s t : Service} (h : s.identity = t.identity) :
    p.Admissible policy s ↔ p.Admissible policy t := by
  rw [Admissible, Admissible, Service.checkPatch_congr policy h]

theorem admissible_merge (h : p.Disjoint q) (s : Service) :
    (p.merge q).Admissible policy s ↔ p.Admissible policy s ∧ q.Admissible policy s := by
  have hnamed : (p.merge q).name ≠ .clear ↔ p.name ≠ .clear ∧ q.name ≠ .clear := by
    rw [← not_or]
    exact not_congr (FieldPatch.merge_eq_iff h.name nofun)
  rw [Admissible, Admissible, Admissible, checkPatch_merge h, hnamed]
  exact and_and_and_comm

structure Alike (q : Patch) (s t : Service) : Prop where
  name : q.name = .keep ∨ t.name = s.name
  field : ∀ f, q.get f = .keep ∨ t.get f = s.get f

theorem Alike.changes_iff {s t : Service} (h : q.Alike s t) : q.Changes t ↔ q.Changes s := by
  apply or_congr
  · rcases h.name with hkeep | hname
    · simp [hkeep]
    · rw [hname]
  · apply exists_congr
    intro f
    rcases h.field f with hkeep | hf
    · simp [hkeep, FieldPatch.over]
    · rw [hf]

end Patch

namespace Service

theorem losesCapabilities_patched (s : Service) (p : Patch) :
    s.losesCapabilities (s.patched p) =
      (p.availableTools.drops Tool.name s.availableTools || p.availableResources.drops Resource.uri s.availableResources
        || p.availablePrompts.drops Prompt.name s.availablePrompts) := rfl

theorem stride_eq (prev next : Service) : prev.stride next = if prev.losesCapabilities next then 10 else 1 :=
  if_congr losesCapabilities_iff.symm rfl rfl

theorem stride_alike {s t : Service} {q : Patch} (h : q.Alike s t) :
    t.stride (t.patched q) = s.stride (s.patched q) := by
  have htools := FieldPatch.drops_congr Tool.name (h.field .availableTools)
  have hresources := FieldPatch.drops_congr Resource.uri (h.field .availableResources)
  have hprompts := FieldPatch.drops_congr Prompt.name (h.field .availablePrompts)
  have hloses : t.losesCapabilities (t.patched q) = s.losesCapabilities (s.patched q) := by
    rw [losesCapabilities_patched, losesCapabilities_patched]
    exact congrArg₂ or (congrArg₂ or htools hresources) hprompts
  rw [stride_eq, stride_eq, hloses]

theorem stride_merge_le {p q : Patch} (h : p.Disjoint q) (s : Service) :
    s.stride (s.patched (p.merge q)) ≤ s.stride (s.patched p) + s.stride (s.patched q) := by
  have htools := FieldPatch.drops_merge Tool.name s.availableTools (h.field .availableTools)
  have hresources := FieldPatch.drops_merge Resource.uri s.availableResources (h.field .availableResources)
  have hprompts := FieldPatch.drops_merge Prompt.name s.availablePrompts (h.field .availablePrompts)
  have hloses : s.losesCapabilities (s.patched (p.merge q)) =
      (s.losesCapabilities (s.patched p) || s.losesCapabilities (s.patched q)) := by
    rw [losesCapabilities_patched]
    refine (congrArg₂ or (congrArg₂ or htools hresources) hprompts).trans ?_
    rw [losesCapabilities_patched, losesCapabilities_patched]
    simp only [Patch.get]
    ac_rfl
  rw [stride_eq, stride_eq, stride_eq, hloses]
  cases s.losesCapabilities (s.patched p) <;> cases s.losesCapabilities (s.patched q) <;> decide

def bare (s : Service) : Service := s.patched
  { Patch.empty with
    displayName := .clear
    description := .clear
    serverInstructions := .clear
    connection := .clear
    availableTools := .clear
    availableResources := .clear
    availablePrompts := .clear
    tags := .clear
    owners := .clear
    domains := .clear
    dataProducts := .clear
    pipelines := .clear }

theorem foldl_bare (s : Service) : Field.all.foldl (fun t f => t.set f (s.get f)) s.bare = s := by
  simp only [Field.all, List.foldl_cons, List.foldl_nil, set, get, bare, patched, FieldPatch.over]

theorem eq_of_get {s t : Service} (hbare : s.bare = t.bare) (h : ∀ f, s.get f = t.get f) : s = t := by
  rw [← foldl_bare s, ← foldl_bare t, hbare]
  simp only [h]

theorem bare_patched (s : Service) (p : Patch) : (s.patched p).bare = s.bare := rfl

theorem named_patched (s : Service) (p : Patch) (q : FieldPatch String) :
    (s.patched p).named q = (s.named q).patched p := by cases q <;> rfl

theorem named_merge (s : Service) {p q : FieldPatch String} (h : p = .keep ∨ q = .keep) :
    (s.named p).named q = s.named (p.merge q) := by
  rcases h with rfl | rfl
  · rfl
  · rw [FieldPatch.merge_keep]
    rfl

theorem amended_merge (s : Service) {p q : Patch} (h : p.Disjoint q) :
    (s.amended p).amended q = s.amended (p.merge q) := by
  apply eq_of_get
  · rw [amended, amended, amended, bare_patched, named_patched, bare_patched, bare_patched, named_merge s h.name]
    rfl
  · intro f
    rw [get_amended, get_amended, get_amended, Patch.get_merge, FieldPatch.over_merge (h.field f)]

theorem amended_merge_comm (s : Service) {p q : Patch} (h : p.Disjoint q) :
    s.amended (p.merge q) = s.amended (q.merge p) := by
  apply eq_of_get
  · rw [amended, amended, bare_patched, bare_patched]
    exact congrArg (fun r => (s.named r).bare) (FieldPatch.merge_comm h.name)
  · intro f
    rw [get_amended, get_amended, Patch.get_merge, Patch.get_merge, FieldPatch.merge_comm (h.field f)]

theorem amended_body {s t : Service} (h : s.body = t.body) (p : Patch) : (s.amended p).body = (t.amended p).body := by
  have hbody (u : Service) : (u.amended p).body = (u.body.amended p).body := by
    unfold amended
    cases p.name <;> rfl
  rw [hbody, h, ← hbody]

def Qualified (s : Service) : Prop := s.qualifiedName = Name.qualify s.name

theorem Qualified.amended {s : Service} (h : s.Qualified) (p : Patch) : (s.amended p).Qualified := by
  unfold Service.amended
  cases p.name with
  | keep | clear => exact h
  | set name => rfl

theorem Qualified.of_body {s t : Service} (h : s.Qualified) (hbody : t.body = s.body) : t.Qualified := by
  have hname : t.name = s.name := congrArg (·.name) hbody
  have hqualified : t.qualifiedName = s.qualifiedName := congrArg (·.qualifiedName) hbody
  rw [Qualified, hqualified, hname]
  exact h

theorem Qualified.amended_of_not_changes {s : Service} (h : s.Qualified) {p : Patch} (hchanges : ¬ p.Changes s) :
    s.amended p = s := by
  apply eq_of_get
  · rw [Service.amended, bare_patched]
    cases hp : p.name with
    | keep | clear => rfl
    | set name => rw [named, Patch.name_of_not_changes hchanges hp, ← h]
  · intro f
    rw [get_amended, Patch.over_of_not_changes hchanges]

theorem alike_of_disjoint {s t : Service} {p q : Patch} (h : p.Disjoint q) (hbody : t.body = (s.amended p).body) :
    q.Alike s t := by
  constructor
  · rcases h.name with hkeep | hkeep
    · right
      have hname : t.name = (s.amended p).name := congrArg (·.name) hbody
      rw [hname, amended, hkeep]
      rfl
    · exact .inl hkeep
  · intro f
    rcases h.field f with hkeep | hkeep
    · right
      rw [get_of_body hbody, get_amended, hkeep]
      rfl
    · exact .inl hkeep

end Service

inductive Patch.Moves (p : Patch) (s : Service) : Nat → Prop
  | changed (h : p.Changes s) : Moves p s (s.stride (s.patched p))
  | kept (h : ¬ p.Changes s) : Moves p s 0

namespace Patch

variable {p : Patch} {s t : Service} {m n : Nat}

theorem Moves.unique (hm : p.Moves s m) (hn : p.Moves s n) : m = n := by
  cases hm with
  | changed h =>
    cases hn with
    | changed => rfl
    | kept h' => exact absurd h h'
  | kept h =>
    cases hn with
    | changed h' => exact absurd h' h
    | kept => rfl

theorem Moves.le (h : p.Moves s n) : n ≤ s.stride (s.patched p) := by
  cases h with
  | changed => exact le_refl _
  | kept => exact Nat.zero_le _

theorem Alike.moves (halike : p.Alike s t) (h : p.Moves t n) : p.Moves s n := by
  cases h with
  | changed h =>
    rw [Service.stride_alike halike]
    exact .changed (halike.changes_iff.1 h)
  | kept h => exact .kept (mt halike.changes_iff.2 h)

end Patch

namespace Service

structure Settled (s : Service) (p : Patch) (u : Update) : Prop where
  body : u.service.body = (s.amended p).body
  version : ∃ n, p.Moves s n ∧ u.service.version.tenths.toNat = s.version.tenths.toNat + n

variable {policy : DuplicatePolicy} {s : Service} {p q : Patch} {u : Update}

theorem exists_update_iff (hroom : s.version.tenths.toNat + s.stride (s.patched p) < UInt32.size) (actor : Actor) :
    (∃ u, s.update policy actor p = .ok u) ↔ p.Admissible policy s := by
  constructor
  · rintro ⟨u, hu⟩
    obtain ⟨hcheck, hname, -⟩ := Patch.not_refused_iff.1 (not_refused_of_update hu)
    exact ⟨hcheck, hname⟩
  · rintro ⟨hcheck, hname⟩
    obtain ⟨u, hu, -⟩ := update_accepted (Patch.not_refused_iff.2 ⟨hcheck, hname, fun _ => hroom⟩) actor
    exact ⟨u, hu⟩

theorem Qualified.settled (h : s.Qualified) {actor : Actor} (hu : s.update policy actor p = .ok u) : s.Settled p u := by
  obtain ⟨hcheck, hname, hroom⟩ := Patch.not_refused_iff.1 (not_refused_of_update hu)
  by_cases hchanges : p.Changes s
  · obtain ⟨v, change, hv, hupdate⟩ := update_of_room hcheck hname hchanges (hroom hchanges) actor
    rw [hu] at hupdate
    obtain rfl := Except.ok.inj hupdate
    exact ⟨rfl, _, .changed hchanges, hv⟩
  · have hupdate := update_of_not_changes hcheck hname hchanges actor
    rw [hu] at hupdate
    obtain rfl := Except.ok.inj hupdate
    refine ⟨?_, 0, .kept hchanges, rfl⟩
    rw [h.amended_of_not_changes hchanges]
    rfl

def updateTwice (policy : DuplicatePolicy) (s : Service) (first second : Actor × Patch) : Outcome Update := do
  let u ← s.update policy first.1 first.2
  u.service.update policy second.1 second.2

section

variable {a b : Actor} (hqualified : s.Qualified) (hdisjoint : p.Disjoint q)
include hqualified hdisjoint

theorem Qualified.settled_twice (hu : s.updateTwice policy (a, p) (b, q) = .ok u) :
    u.service.body = (s.amended (p.merge q)).body ∧
      ∃ m n, p.Moves s m ∧ q.Moves s n ∧ u.service.version.tenths.toNat = s.version.tenths.toNat + m + n := by
  obtain ⟨t, ht, hu⟩ := Outcome.bind_eq_ok.1 hu
  have hfirst := hqualified.settled ht
  have hsecond := ((hqualified.amended p).of_body hfirst.body).settled hu
  obtain ⟨m, hm, hmv⟩ := hfirst.version
  obtain ⟨n, hn, hnv⟩ := hsecond.version
  refine ⟨?_, m, n, hm, (alike_of_disjoint hdisjoint hfirst.body).moves hn, by rw [hnv, hmv]⟩
  rw [hsecond.body, amended_body hfirst.body, amended_merge s hdisjoint]

theorem Qualified.exists_updateTwice_iff
    (hroom : s.version.tenths.toNat + s.stride (s.patched p) + s.stride (s.patched q) < UInt32.size) (a b : Actor) :
    (∃ u, s.updateTwice policy (a, p) (b, q) = .ok u) ↔ p.Admissible policy s ∧ q.Admissible policy s := by
  have hsecond {t : Update} (ht : s.update policy a p = .ok t) :
      (∃ u, t.service.update policy b q = .ok u) ↔ q.Admissible policy s := by
    obtain ⟨hbody, m, hm, hmv⟩ := hqualified.settled ht
    have hle := hm.le
    have hstride := stride_alike (alike_of_disjoint hdisjoint hbody)
    rw [exists_update_iff (by omega)]
    exact Patch.admissible_congr (update_settles ht).1
  rw [← exists_update_iff (by omega) a]
  constructor
  · rintro ⟨u, hu⟩
    obtain ⟨t, ht, hu⟩ := Outcome.bind_eq_ok.1 hu
    exact ⟨⟨t, ht⟩, (hsecond ht).1 ⟨u, hu⟩⟩
  · rintro ⟨⟨t, ht⟩, hq⟩
    obtain ⟨u, hu⟩ := (hsecond ht).2 hq
    exact ⟨u, Outcome.bind_eq_ok.2 ⟨t, ht, hu⟩⟩

end

/-- Patches without a common field commute, and can be merged: either order and the patch of all that they mention
are accepted together, and leave the same service but for its audit, and for the version of the merged patch. -/
theorem disjoint_updates_commute (policy : DuplicatePolicy) (s : Service) (p q : Patch) (a b c d e : Actor)
    (hqualified : s.qualifiedName = Name.qualify s.name) (hdisjoint : p.Disjoint q)
    (hroom : s.version.tenths.toNat + s.stride (s.patched p) + s.stride (s.patched q) < UInt32.size) :
    ((∃ u, s.updateTwice policy (a, p) (b, q) = .ok u) ↔ ∃ u, s.updateTwice policy (c, q) (d, p) = .ok u) ∧
      ((∃ u, s.updateTwice policy (a, p) (b, q) = .ok u) ↔ ∃ u, s.update policy e (p.merge q) = .ok u) ∧
      ∀ u v w, s.updateTwice policy (a, p) (b, q) = .ok u → s.updateTwice policy (c, q) (d, p) = .ok v →
        s.update policy e (p.merge q) = .ok w →
        u.service.version = v.service.version ∧ u.service.body = v.service.body ∧ u.service.body = w.service.body := by
  have hq : s.Qualified := hqualified
  have hmerged := stride_merge_le hdisjoint s
  rw [hq.exists_updateTwice_iff hdisjoint hroom, hq.exists_updateTwice_iff hdisjoint.symm (by omega),
    exists_update_iff (by omega), Patch.admissible_merge hdisjoint]
  refine ⟨and_comm, Iff.rfl, ?_⟩
  intro u v w hu hv hw
  obtain ⟨hbody, m, n, hm, hn, hversion⟩ := hq.settled_twice hdisjoint hu
  obtain ⟨hbody', n', m', hn', hm', hversion'⟩ := hq.settled_twice hdisjoint.symm hv
  have hm_eq := hm.unique hm'
  have hn_eq := hn.unique hn'
  have htenths : u.service.version.tenths.toNat = v.service.version.tenths.toNat := by omega
  refine ⟨congrArg Version.mk (UInt32.toNat_inj.1 htenths), ?_, ?_⟩
  · rw [hbody, hbody', amended_merge_comm s hdisjoint]
  · rw [hbody, (hq.settled hw).body]

def titling : Patch := { Patch.empty with displayName := .set "The digger", description := .clear }

theorem disjoint_updates_commute_narrowing :
    digger.qualifiedName = Name.qualify digger.name ∧ narrowing.Disjoint titling ∧
      digger.version.tenths.toNat + digger.stride (digger.patched narrowing) + digger.stride (digger.patched titling) =
        12 ∧
      ∃ u v w,
        digger.updateTwice .reject (⟨"ben", .manual, 2⟩, narrowing) (⟨"cid", .manual, 3⟩, titling) = .ok u ∧
        digger.updateTwice .reject (⟨"cid", .manual, 2⟩, titling) (⟨"ben", .manual, 3⟩, narrowing) = .ok v ∧
        digger.update .reject ⟨"dan", .manual, 4⟩ (narrowing.merge titling) = .ok w ∧
        u.service.version = v.service.version ∧ u.service.body = v.service.body ∧
        u.service.body = w.service.body := by
  have hqualified : digger.qualifiedName = Name.qualify digger.name := rfl
  have hdisjoint : narrowing.Disjoint titling := by
    refine ⟨.inl rfl, .inl rfl, .inr rfl, fun f => ?_⟩
    cases f with
    | availableTools => exact .inr rfl
    | _ => exact .inl rfl
  have hroom : digger.version.tenths.toNat + digger.stride (digger.patched narrowing) +
      digger.stride (digger.patched titling) = 12 := by decide +kernel
  obtain ⟨hswap, hmerge, hagree⟩ := disjoint_updates_commute .reject digger narrowing titling ⟨"ben", .manual, 2⟩
    ⟨"cid", .manual, 3⟩ ⟨"cid", .manual, 2⟩ ⟨"ben", .manual, 3⟩ ⟨"dan", .manual, 4⟩ hqualified hdisjoint
    (by rw [hroom]; decide)
  obtain ⟨u, hu⟩ : ∃ u, digger.updateTwice .reject (⟨"ben", .manual, 2⟩, narrowing) (⟨"cid", .manual, 3⟩, titling) =
      .ok u := Outcome.exists_ok (by decide +kernel)
  obtain ⟨v, hv⟩ := hswap.1 ⟨u, hu⟩
  obtain ⟨w, hw⟩ := hmerge.1 ⟨u, hu⟩
  exact ⟨hqualified, hdisjoint, hroom, u, v, w, hu, hv, hw, hagree u v w hu hv hw⟩

end Service

end ServiceCatalog
