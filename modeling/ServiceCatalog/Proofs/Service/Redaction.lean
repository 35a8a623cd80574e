import ServiceCatalog.Proofs.Change.Account
import ServiceCatalog.Proofs.Wire.Connection
import ServiceCatalog.Service.Permission
import ServiceCatalog.Service.Registration
import ServiceCatalog.Wire.Basic

namespace ServiceCatalog

def FieldChange.retold (v : Value) (c : FieldChange) : FieldChange :=
  if c.name = Field.connection.name then { c with newValue := c.newValue.map fun _ => v } else c

theorem FieldChange.retold_of_ne {c : FieldChange} (h : c.name ≠ Field.connection.name) (v : Value) :
    c.retold v = c :=
  if_neg h

theorem FieldChange.retold_name (v : Value) (c : FieldChange) : (c.retold v).name = c.name := by
  unfold retold
  split <;> rfl

theorem Field.name_inj {f g : Field} (h : f.name = g.name) : f = g :=
  List.inj_on_of_nodup_map (by decide : (Field.all.map Field.name).Nodup) f.mem_all g.mem_all h

namespace ChangeLog

def retold (v : Value) (log : ChangeLog) : ChangeLog :=
  { log with added := log.added.map (·.retold v), updated := log.updated.map (·.retold v) }

theorem fields_retold (v : Value) (log : ChangeLog) : (log.retold v).fields = log.fields := by
  have hnames : FieldChange.name ∘ FieldChange.retold v = FieldChange.name := by
    funext c
    exact c.retold_name v
  simp [fields, retold, hnames]

theorem apply_retold {α : Type} [Wire α] [BEq α] (v : Value) (log : ChangeLog) {name : String}
    (hname : name ≠ Field.connection.name) (old : Option α) (p : FieldPatch α) :
    ((log.retold v).apply name old p).1 = (log.apply name old p).1.retold v := by
  have hkept (o n : Option Value) : FieldChange.retold v ⟨name, o, n⟩ = ⟨name, o, n⟩ :=
    FieldChange.retold_of_ne hname v
  cases p with
  | keep => rfl
  | clear => cases old <;> rfl
  | set b =>
    cases old with
    | none => simp [apply, addElement, retold, hkept]
    | some a =>
      cases h : a == b with
      | true => simp [apply, h]
      | false => simp [apply, h, update, retold, hkept]

theorem apply_connection {old : Option Connection} {c d : Connection} (hc : (old == some c) = false)
    (hd : (old == some d) = false) (log : ChangeLog) :
    ((log.retold (toValue d)).apply Field.connection.name old (.set d)).1 =
      (log.apply Field.connection.name old (.set c)).1.retold (toValue d) := by
  cases old with
  | none => simp [apply, addElement, retold, FieldChange.retold]
  | some a =>
    have hac : (a == c) = false := hc
    have had : (a == d) = false := hd
    simp [apply, hac, had, update, retold, FieldChange.retold]

end ChangeLog

def ChangeDescription.retold (v : Value) (d : ChangeDescription) : ChangeDescription :=
  { d with
    fieldsAdded := d.fieldsAdded.map (List.map (·.retold v))
    fieldsUpdated := d.fieldsUpdated.map (List.map (·.retold v)) }

theorem ChangeLog.describe_retold (v : Value) (log : ChangeLog) (previous : Version) (actor : Actor) :
    (log.retold v).describe previous actor = (log.describe previous actor).retold v := by
  have hbucket (changes : List FieldChange) :
      bucket (changes.map (·.retold v)) = (bucket changes).map (List.map (·.retold v)) := by
    cases changes <;> rfl
  rw [describe, fields_retold]
  simp only [retold, hbucket]
  rfl

namespace Service

def retold (v : Value) (s : Service) : Service :=
  { s with change := s.change.map (·.retold v), incrementalChange := s.incrementalChange.map (·.retold v) }

theorem get_redacted (s : Service) {f : Field} (h : f ≠ .connection) : s.redacted.get f = s.get f := by
  cases f <;> first | rfl | exact absurd rfl h

theorem redacted_set (s : Service) {f : Field} (h : f ≠ .connection) (a : Option f.Content) :
    (s.set f a).redacted = s.redacted.set f a := by
  cases f <;> first | rfl | exact absurd rfl h

structure Alike (v : Value) (x y : ChangeLog × Service) : Prop where
  log_eq : y.1 = x.1.retold v
  redacted_eq : y.2.redacted = x.2.redacted

variable {p : Patch} {c d : Connection} {v : Value} {x y : ChangeLog × Service}

theorem Alike.patchField (h : Alike v x y) {f : Field} (hf : f ≠ .connection) :
    Alike v (patchField { p with connection := .set c } x f) (patchField { p with connection := .set d } y f) := by
  have hname : f.name ≠ Field.connection.name := fun he => hf (Field.name_inj he)
  have hold : y.2.get f = x.2.get f := by rw [← get_redacted y.2 hf, h.redacted_eq, get_redacted x.2 hf]
  have hpatch : ({ p with connection := .set d } : Patch).get f = ({ p with connection := .set c } : Patch).get f := by
    cases f <;> first | rfl | exact absurd rfl hf
  refine ⟨?_, ?_⟩
  · simp only [Service.patchField, hold, hpatch, h.log_eq]
    exact ChangeLog.apply_retold v x.1 hname _ _
  · simp only [Service.patchField, redacted_set _ hf, hold, hpatch, h.redacted_eq, ChangeLog.apply_content]

theorem Alike.patchFields (h : Alike v x y) {fields : List Field} (hfields : .connection ∉ fields) :
    Alike v (fields.foldl (Service.patchField { p with connection := .set c }) x)
      (fields.foldl (Service.patchField { p with connection := .set d }) y) := by
  induction fields generalizing x y with
  | nil => exact h
  | cons f fields ih =>
    have hf : f ≠ .connection := (List.ne_of_not_mem_cons hfields).symm
    exact ih (h.patchField hf) (List.not_mem_of_not_mem_cons hfields)

theorem Alike.patchConnection (h : Alike (toValue d) x y) (hold : y.2.connection = x.2.connection)
    (hc : (x.2.connection == some c) = false) (hd : (x.2.connection == some d) = false) :
    Alike (toValue d) (Service.patchField { p with connection := .set c } x .connection)
      (Service.patchField { p with connection := .set d } y .connection) := by
  refine ⟨?_, ?_⟩
  · simp only [Service.patchField, Service.get, Patch.get, hold, h.log_eq]
    exact ChangeLog.apply_connection hc hd x.1
  · exact h.redacted_eq

theorem retold_renamed {e : Service} {q : FieldPatch String} {renamed : ChangeLog × Service}
    (h : e.rename .empty q = .ok renamed) (v : Value) : renamed.1.retold v = renamed.1 := by
  cases q with
  | keep =>
    cases h
    rfl
  | clear => cases h
  | set name =>
    have hname : "name" ≠ Field.connection.name := by decide
    cases hsame : e.name == name with
    | true =>
      simp only [rename, ChangeLog.replace, hsame, if_true] at h
      cases h
      rfl
    | false =>
      simp only [rename, ChangeLog.replace, hsame] at h
      cases h
      simp [ChangeLog.retold, ChangeLog.update, ChangeLog.empty, FieldChange.retold, hname]

theorem alike_drafts {e : Service} {q : FieldPatch String} {renamed : ChangeLog × Service}
    (hname : e.rename .empty q = .ok renamed) (hc : (e.connection == some c) = false)
    (hd : (e.connection == some d) = false) :
    Alike (toValue d) (patchFields { p with connection := .set c } renamed)
      (patchFields { p with connection := .set d } renamed) := by
  -- the fields before the connection and those after it
  obtain ⟨early, late, hall⟩ := List.append_of_mem (Field.mem_all .connection)
  have hnodup : (early ++ Field.connection :: late).Nodup := by
    rw [← hall]
    decide
  obtain ⟨hearly, hlate, hapart⟩ := List.nodup_append.1 hnodup
  have hnot : Field.connection ∉ early := fun h => hapart _ h _ List.mem_cons_self rfl
  have hrenamed : renamed.2.connection = e.connection := rename_frame Service.connection (fun _ _ _ => rfl) hname
  have hconnection (b : Connection) :
      (early.foldl (patchField { p with connection := .set b }) renamed).2.connection = e.connection := by
    obtain ⟨-, -, -, hframe⟩ := patch_fold_spec { p with connection := .set b } early hearly renamed
    exact (hframe .connection hnot).trans hrenamed
  have hstart : Alike (toValue d) renamed renamed := ⟨(retold_renamed hname _).symm, rfl⟩
  have hbefore := hstart.patchFields (p := p) (c := c) (d := d) hnot
  have hset := hbefore.patchConnection (p := p) (c := c) ((hconnection d).trans (hconnection c).symm)
    (by rw [hconnection c]; exact hc) (by rw [hconnection c]; exact hd)
  simp only [Service.patchFields, hall, List.foldl_append, List.foldl_cons]
  exact hset.patchFields (List.nodup_cons.1 hlate).1

def stepped (e : Service) (x : ChangeLog × Service) : ChangeLog :=
  if e.losesCapabilities x.2 then x.1.escalate .major else x.1

theorem buckets_stepped (e : Service) (x : ChangeLog × Service) : (stepped e x).buckets = x.1.buckets := by
  unfold stepped
  split <;> rfl

theorem Alike.stepped (h : Alike v x y) (e : Service) : stepped e y = (stepped e x).retold v := by
  have hloses : e.losesCapabilities y.2 = e.losesCapabilities x.2 := by
    change e.losesCapabilities y.2.redacted = e.losesCapabilities x.2.redacted
    rw [h.redacted_eq]
  rw [Service.stepped, Service.stepped, hloses, h.log_eq]
  split <;> rfl

variable {policy : DuplicatePolicy} {actor : Actor} {e : Service} {u w : Update}

theorem update_connection (hc : (e.connection == some c) = false)
    (hu : e.update policy actor { p with connection := .set c } = .ok u) :
    ∃ renamed v x, e.rename .empty p.name = .ok renamed ∧
      x = Service.patchFields { p with connection := .set c } renamed ∧ x.2.connection = some c ∧
      Accounts e x.2 (stepped e x).buckets ∧ (stepped e x).step.next? e.version = some v ∧
      u.service = x.2.asVersion v actor ((stepped e x).describe e.version actor) := by
  obtain ⟨-, renamed, log, next, hname, hfields, hcommit⟩ := update_eq_ok.1 hu
  change e.commit next (stepped e (log, next)) actor = .ok u at hcommit
  have haccounts : Accounts e next (stepped e (log, next)).buckets := by
    rw [buckets_stepped]
    exact accounts_of_patch hname hfields
  have hget : next.connection = some c := by
    have hrenamed : renamed.2.connection = e.connection := rename_frame Service.connection (fun _ _ _ => rfl) hname
    have hget := patchFields_get { p with connection := .set c } renamed .connection
    rw [hfields] at hget
    simpa [Service.get, Patch.get, FieldPatch.over, hrenamed, hc] using hget
  have hdiffers : (Tracked.field .connection).differs e next = true := by
    simp [Tracked.differs, bne, Service.get, hget, hc]
  rcases commit_eq_ok.1 hcommit with ⟨hempty, -⟩ | ⟨-, v, hv, rfl⟩
  · have hnames : (stepped e (log, next)).buckets.names = [] := by
      simpa [ChangeLog.isEmpty, ChangeLog.buckets, Buckets.names, and_assoc] using hempty
    have hmem := (haccounts.mem_names _).2 hdiffers
    rw [hnames] at hmem
    cases hmem
  · exact ⟨renamed, v, _, hname, hfields.symm, hget, haccounts, hv, rfl⟩

theorem recorded_connection (hc : (e.connection == some c) = false)
    (hu : e.update policy actor { p with connection := .set c } = .ok u) :
    ∃ t, u.service.change = some t ∧ u.service.incrementalChange = some t ∧ t.buckets.names.Nodup ∧
      ⟨Field.connection.name, e.connection.map toValue, some (toValue c)⟩ ∈ t.added ++ t.updated := by
  obtain ⟨renamed, v, x, -, -, hget, haccounts, -, hu⟩ := update_connection hc hu
  have hdescribed := (stepped e x).buckets_describe e.version actor
  have hmoved : (stepped e x).buckets.Moved Field.connection.name e.connection (some c) := by
    have hdiffers : (Tracked.field .connection).differs e x.2 = true := by
      simp [Tracked.differs, bne, Service.get, hget, hc]
    have hrecorded : (stepped e x).buckets.Moved Field.connection.name e.connection x.2.connection :=
      haccounts.recorded _ hdiffers
    rwa [hget] at hrecorded
  rw [hu]
  refine ⟨(stepped e x).describe e.version actor, rfl, rfl, ?_, ?_⟩
  · rw [hdescribed]
    exact haccounts.nodup
  · rw [← hdescribed] at hmoved
    cases hold : e.connection with
    | none =>
      rw [hold] at hmoved
      exact List.mem_append_left _ hmoved
    | some a =>
      rw [hold] at hmoved
      exact List.mem_append_right _ hmoved

theorem redacted_update (hc : (e.connection == some c) = false) (hd : (e.connection == some d) = false)
    (hu : e.update policy actor { p with connection := .set c } = .ok u)
    (hw : e.update policy actor { p with connection := .set d } = .ok w) :
    w.service.redacted = u.service.redacted.retold (toValue d) := by
  obtain ⟨renamed, v, x, hname, hx, -, -, hv, hu⟩ := update_connection hc hu
  obtain ⟨renamed', v', y, hname', hy, -, -, hv', hw⟩ := update_connection hd hw
  obtain rfl : renamed = renamed' := Except.ok.inj (hname.symm.trans hname')
  have halike : Alike (toValue d) x y := by
    rw [hx, hy]
    exact alike_drafts hname hc hd
  have hstepped := halike.stepped e
  have hversion : v' = v := by
    rw [hstepped] at hv'
    exact Option.some.inj (hv'.symm.trans hv)
  calc w.service.redacted
      = y.2.redacted.asVersion v' actor ((stepped e y).describe e.version actor) := by rw [hw]; rfl
    _ = x.2.redacted.asVersion v actor (((stepped e x).describe e.version actor).retold (toValue d)) := by
        rw [halike.redacted_eq, hversion, hstepped, ChangeLog.describe_retold]
    _ = u.service.redacted.retold (toValue d) := by rw [hu]; rfl

end Service

namespace Permission

variable {policy : DuplicatePolicy} {actor : Actor} {e : Service} {p : Patch} {c d : Connection} {u w : Update}
  {permission : Permission}

theorem view_eq_redacted (h : permission.viewConnection = false) (s : Service) : permission.view s = s.redacted := by
  rw [view, h]
  rfl

/-- Of two updates that differ in the connection they set, a view without the connection tells which one was
set: the audit record repeats it, and all else is the same. -/
theorem view_update (hview : permission.viewConnection = false) (hc : (e.connection == some c) = false)
    (hd : (e.connection == some d) = false)
    (hu : e.update policy actor { p with connection := .set c } = .ok u)
    (hw : e.update policy actor { p with connection := .set d } = .ok w) :
    permission.view w.service = (permission.view u.service).retold (toValue d) ∧
      (∃ t, (permission.view u.service).change = some t ∧ (permission.view u.service).incrementalChange = some t ∧
        ⟨Field.connection.name, e.connection.map toValue, some (toValue c)⟩ ∈ t.added ++ t.updated) ∧
      (permission.view w.service = permission.view u.service ↔ d = c) := by
  simp only [view_eq_redacted hview]
  have hretold := Service.redacted_update hc hd hu hw
  obtain ⟨t, hchange, hincremental, hnodup, hmem⟩ := Service.recorded_connection hc hu
  refine ⟨hretold, ⟨t, hchange, hincremental, hmem⟩, ?_⟩
  constructor
  · intro hsame
    obtain ⟨t', hchange', -, -, hmem'⟩ := Service.recorded_connection hd hw
    have hrecord : t' = t := by
      have hchanges : w.service.redacted.change = u.service.redacted.change := congrArg Service.change hsame
      change w.service.change = u.service.change at hchanges
      rw [hchange, hchange'] at hchanges
      exact Option.some.inj hchanges
    rw [hrecord] at hmem'
    have hentry : (⟨Field.connection.name, e.connection.map toValue, some (toValue d)⟩ : FieldChange) =
        ⟨Field.connection.name, e.connection.map toValue, some (toValue c)⟩ :=
      List.inj_on_of_nodup_map hnodup (List.mem_append_left _ hmem') (List.mem_append_left _ hmem) rfl
    exact Wire.telling_connection (Option.some.inj (congrArg FieldChange.newValue hentry))
  · rintro rfl
    rw [hu] at hw
    cases hw
    rfl

def hidden : Permission := { all with viewConnection := false }

def armed (token : String) : Connection := .ofLaunch ((LaunchConfig.ofCommand "run").withEnv "TOKEN" token)

def probe : Service := (Registration.ofConnection "probe" (armed "old")).service ⟨1⟩ ⟨"ann", .manual, 1⟩

def rearm (token : String) : Outcome Update :=
  probe.update .reject ⟨"ben", .manual, 2⟩ { Patch.empty with connection := .set (armed token) }

def toldValues (s : Service) : Option (List (Option (List Char))) :=
  s.change.map fun t => t.updated.map fun f => f.newValue.map fun v => v.tree.compactChars

theorem view_update_rearmed :
    ∃ u w, rearm "first" = .ok u ∧ rearm "second" = .ok w ∧
      (probe.connection == some (armed "first")) = false ∧ (probe.connection == some (armed "second")) = false ∧
      hidden.view w.service = (hidden.view u.service).retold (toValue (armed "second")) ∧
      (hidden.view w.service = hidden.view u.service ↔ armed "second" = armed "first") := by
  have hfirst : (probe.connection == some (armed "first")) = false := by decide +kernel
  have hsecond : (probe.connection == some (armed "second")) = false := by decide +kernel
  obtain ⟨u, hu⟩ : ∃ u, rearm "first" = .ok u := Outcome.exists_ok (by decide +kernel)
  obtain ⟨w, hw⟩ : ∃ w, rearm "second" = .ok w := Outcome.exists_ok (by decide +kernel)
  have hview : hidden.viewConnection = false := rfl
  obtain ⟨hretold, -, hsame⟩ := view_update hview hfirst hsecond hu hw
  exact ⟨u, w, hu, hw, hfirst, hsecond, hretold, hsame⟩

/-- The views of two services that differ in the token of their server alone. -/
theorem hidden_views_differ :
    hidden.viewConnection = false ∧ (probe.connection == some (armed "first")) = false ∧
      (probe.connection == some (armed "second")) = false ∧
      ∃ u w, rearm "first" = .ok u ∧ rearm "second" = .ok w ∧ hidden.view u.service ≠ hidden.view w.service := by
  have hdiffer : (rearm "first").toOption.map (fun u => toldValues (hidden.view u.service)) ≠
      (rearm "second").toOption.map fun w => toldValues (hidden.view w.service) := by
    decide +kernel
  obtain ⟨u, hu⟩ : ∃ u, rearm "first" = .ok u := Outcome.exists_ok (by decide +kernel)
  obtain ⟨w, hw⟩ : ∃ w, rearm "second" = .ok w := Outcome.exists_ok (by decide +kernel)
  refine ⟨rfl, by decide +kernel, by decide +kernel, u, w, hu, hw, ?_⟩
  intro hsame
  apply hdiffer
  rw [hu, hw, Except.toOption, Except.toOption, Option.map_some, Option.map_some, hsame]

end Permission

end ServiceCatalog
