import ServiceCatalog.Proofs.Catalog.Answer
import ServiceCatalog.Proofs.Catalog.History
import ServiceCatalog.Proofs.Catalog.Reading

namespace ServiceCatalog

theorem Records.kept_write {r t : Records} {w : Write} (h : r.write w = .ok t) {x : ServiceRecord}
    (hx : x ∈ r.list) : (∃ y ∈ t.list, y.id = x.id) ∨ w = .remove x.id := by
  have hput (z : ServiceRecord) : ∃ y ∈ (r.put z).list, y.id = x.id := by
    by_cases hid : x.id = z.id
    · exact ⟨z, mem_put_iff.2 (.inl rfl), hid.symm⟩
    · exact ⟨x, mem_put_iff.2 (.inr ⟨hx, hid⟩), rfl⟩
  cases w with
  | insert s =>
    obtain ⟨-, -, rfl⟩ := insert_eq_ok.1 h
    exact .inl (hput _)
  | replace s base =>
    obtain ⟨-, y, -, -, rfl⟩ := replace_eq_ok.1 h
    exact .inl (hput _)
  | remove id =>
    obtain ⟨-, rfl⟩ := remove_eq_ok.1 h
    by_cases hid : x.id = id
    · exact .inr (congrArg Write.remove hid.symm)
    · exact .inl ⟨x, List.mem_filter.2 ⟨hx, by simpa using hid⟩, rfl⟩

namespace Catalog

inductive Shows (c : Catalog) (e : Service) : Prop
  | got {id : Uuid} {included : Include} (h : c.get id included = .ok e)
  | named {q : String} {included : Include} (h : c.getNamed q included = .ok e)
  | listed {q : ListQuery} {page : Page} (h : c.list q = .ok page) (hmem : e ∈ page.data)
  | newest {id : Uuid} {l : VersionList} {older : List Service} (h : c.versions id = .ok l)
      (hnewest : l.versions = e :: older)

theorem Shows.exists_current {c : Catalog} {e : Service} (h : c.Shows e) : ∃ x ∈ c.records.list, x.current = e := by
  cases h with
  | @got id included h =>
    obtain ⟨x, hx, -, he⟩ := Records.mem_of_get? (get_eq_ok.1 h).1
    exact ⟨x, hx, he⟩
  | @named q included h =>
    obtain ⟨x, hx, he⟩ := Option.map_eq_some_iff.1 (getNamed_eq_ok.1 h).1
    exact ⟨x, List.mem_of_find?_eq_some hx, he⟩
  | @listed q page h hmem =>
    rw [list_eq q rfl, guard_eq_ok] at h
    rw [← Except.ok.inj h.2] at hmem
    have hselected := (List.mem_filter.1 (List.mem_of_mem_take hmem)).1
    have hservice := (List.mem_filter.1 (List.mem_mergeSort.1 hselected)).1
    exact Records.mem_services.1 hservice
  | @newest id l older h hnewest =>
    obtain ⟨current, hload, -⟩ := Outcome.bind_eq_ok.1 h
    obtain ⟨x, hmem, rfl, -⟩ := Records.mem_of_get? (Records.load_eq_ok.1 hload)
    rw [versions_eq hmem] at h
    rw [← Except.ok.inj h, ServiceRecord.states, List.reverse_append] at hnewest
    exact ⟨x, hmem, (List.cons.inj hnewest).1⟩

namespace State

theorem step_kept {s : State} {x : ServiceRecord} (hx : x ∈ s.records.list) (actor : Actor) (m : Mutation) :
    (∃ y ∈ (s.step actor m).1.records.list, y.id = x.id) ∨ m = .remove x.id := by
  rcases s.step_cases actor m with ⟨e, -, hcatalog, -, -⟩ | ⟨effect, -, heffect, ⟨-, hsame⟩ | ⟨w, hw⟩⟩
  · left
    rw [records, hcatalog]
    exact ⟨x, hx, rfl⟩
  · left
    rw [hsame]
    exact ⟨x, hx, rfl⟩
  · rcases Records.kept_write hw.records_eq hx with hkept | rfl
    · exact .inl hkept
    · have hasked := hw.asked
      right
      rcases Mutation.effect_cases heffect with
        ⟨_, _, -, -, -, -, rfl⟩ | ⟨id, t, hm, hget, rfl⟩ | ⟨_, -, current, -, rfl | ⟨_, _, _, _, rfl, -⟩⟩
      · cases hasked
      · rw [hm, ← Records.id_of_get? hget, Write.remove.inj (Option.some.inj hasked)]
      · cases hasked
      · cases hasked

theorem run_kept {s : State} {x : ServiceRecord} (hx : x ∈ s.records.list) (steps : List (Actor × Mutation)) :
    (∃ y ∈ (s.run steps).records.list, y.id = x.id) ∨ ∃ step ∈ steps, step.2 = .remove x.id := by
  induction steps generalizing s x with
  | nil => exact .inl ⟨x, hx, rfl⟩
  | cons step steps ih =>
    rcases step_kept hx step.1 step.2 with ⟨y, hy, hid⟩ | hremove
    · rw [← hid]
      exact (ih hy).imp_right fun ⟨later, hlater, h⟩ => ⟨later, List.mem_cons_of_mem _ hlater, h⟩
    · exact .inr ⟨step, List.mem_cons_self, hremove⟩

theorem run_prefix (files : Files) (settings : Settings) (file : Option Path)
    {before between : List (Actor × Mutation)} (hfresh : ((before ++ between).filterMap (·.2.newId?)).Nodup) :
    ∀ x ∈ ((start files settings file).run before).records.list,
      ∀ y ∈ ((start files settings file).run (before ++ between)).records.list, y.id = x.id →
        x.states <+: y.states := by
  induction between using List.reverseRecOn with
  | nil =>
    intro x hx y hy hid
    rw [List.append_nil] at hy
    obtain rfl : y = x := (Records.filed _).id_inj hy hx hid
    exact List.prefix_rfl
  | append_singleton between step ih =>
    rw [← List.append_assoc, List.filterMap_append] at hfresh
    obtain ⟨hbefore, -, hnew⟩ := List.nodup_append.1 hfresh
    intro x hx y hy hid
    rw [← List.append_assoc, run_concat] at hy
    rcases record_cases hy with hy | ⟨request, id, hm, -, rfl⟩ | ⟨z, hz, t, _, _, _, rfl, ht⟩
    · exact ih hbefore x hx y hy hid
    · have hgiven : id ∈ (before ++ between).filterMap (·.2.newId?) := by
        rw [List.filterMap_append]
        apply List.mem_append_left
        have hid : id = x.id := hid
        rw [hid]
        exact run_given files settings file before x hx
      have hstep : id ∈ [step].filterMap (·.2.newId?) :=
        List.mem_filterMap.2 ⟨step, List.mem_singleton.2 rfl, Mutation.newId?_eq hm⟩
      exact absurd rfl (hnew id hgiven id hstep)
    · have hzid : z.id = x.id := ht.id_eq.symm.trans hid
      exact (ih hbefore x hx z hz hzid).trans (List.prefix_append ..)

theorem run_current (files : Files) (settings : Settings) (file : Option Path)
    {before between : List (Actor × Mutation)} (hfresh : ((before ++ between).filterMap (·.2.newId?)).Nodup)
    {x y : ServiceRecord} (hx : x ∈ ((start files settings file).run before).records.list)
    (hy : y ∈ ((start files settings file).run (before ++ between)).records.list) (hid : y.id = x.id)
    (hversion : y.current.version = x.current.version) : y.current = x.current := by
  have hprefix : x.states <+: y.states := run_prefix files settings file hfresh x hx y hy hid
  have hread : x.current ∈ y.states := hprefix.mem x.current_mem_states
  have hlinked : y.Linked := run_linked files settings file _ y hy
  exact hlinked.version_inj y.current_mem_states hread hversion

theorem run_version_le (files : Files) (settings : Settings) (file : Option Path)
    {before between : List (Actor × Mutation)} (hfresh : ((before ++ between).filterMap (·.2.newId?)).Nodup)
    {x y : ServiceRecord} (hx : x ∈ ((start files settings file).run before).records.list)
    (hy : y ∈ ((start files settings file).run (before ++ between)).records.list) (hid : y.id = x.id) :
    x.current.version.tenths ≤ y.current.version.tenths := by
  have hprefix : x.states <+: y.states := run_prefix files settings file hfresh x hx y hy hid
  have hread : x.current ∈ y.states := hprefix.mem x.current_mem_states
  exact (run_linked files settings file _ y hy).version_le hread

theorem version_of_update {s : State} {actor : Actor} {id : Uuid} {p : Patch} {v : Version} {effect : Effect}
    (h : (s.step actor (.update id p (some v))).2 = .ok effect) :
    ∃ x ∈ s.records.list, x.id = id ∧ x.current.version = v := by
  have heffect : Effect.update s.catalog.settings s.records actor id p (some v) = .ok effect := effect_of_step h
  obtain ⟨current, hget, hbase, -, -⟩ := Effect.update_eq_ok.1 heffect
  obtain ⟨x, hx, hid, rfl⟩ := Records.mem_of_get? hget
  exact ⟨x, hx, hid, (hbase v rfl).symm⟩

theorem step_stale {s : State} {id : Uuid} {v : Version} (actor : Actor) (p : Patch)
    (hstale : ∀ x ∈ s.records.list, x.id = id → x.current.version ≠ v) :
    (∃ x ∈ s.records.list, x.id = id ∧ s.step actor (.update id p (some v))
        = (s, .error (.conflict (.stalePatch id x.current.version v)))) ∨
      (∀ x ∈ s.records.list, x.id ≠ id) ∧
        s.step actor (.update id p (some v)) = (s, .error (.missing (.id id))) := by
  cases hfind : s.records.find? id with
  | some x =>
    obtain ⟨hx, rfl⟩ := Records.find?_eq_some.1 hfind
    refine .inl ⟨x, hx, rfl, step_of_error (answer_of_error ?_)⟩
    exact (Effect.update_some _ (Records.get?_of_mem hx) actor p v).trans (if_neg (hstale x hx rfl).symm)
  | none =>
    have hload : s.records.load id = .error (.missing (.id id)) := by
      rw [Records.load, Records.get?, hfind]
      rfl
    refine .inr ⟨fun x hx hid => ?_, step_of_error (answer_of_error ?_)⟩
    · rw [← hid, Records.find?_of_mem hx] at hfind
      cases hfind
    · rw [records] at hload
      simp only [Mutation.effect, Mutation.perform, Effect.update, hload, Outcome.error_bind]

/-- Over any run from a catalog without records in which no identifier is given twice, an update that names the
version of a state which was read before succeeds on that state only. After one that names a version and changes
something, one that names it too is refused and leaves everything as it is: the service has moved on, or was
removed. -/
theorem run_edited (files : Files) (settings : Settings) (file : Option Path)
    (before between : List (Actor × Mutation)) (hfresh : ((before ++ between).filterMap (·.2.newId?)).Nodup) :
    let s := (start files settings file).run before
    (∀ e actor p effect, s.catalog.Shows e →
        ((s.run between).step actor (.update e.id p (some e.version))).2 = .ok effect →
        (s.run between).records.get? e.id = some e) ∧
      ∀ first actor id v p p' base next change,
        (s.step first (.update id p (some v))).2 = .ok (.changed base next change) →
        let t := (s.step first (.update id p (some v))).1.run between
        (∃ current, t.records.get? id = some current ∧ t.step actor (.update id p' (some v))
            = (t, .error (.conflict (.stalePatch id current.version v)))) ∨
          (∃ step ∈ between, step.2 = .remove id) ∧
            t.step actor (.update id p' (some v)) = (t, .error (.missing (.id id))) := by
  intro s
  constructor
  · intro e actor p effect hshows hok
    obtain ⟨x, hx, rfl⟩ := hshows.exists_current
    obtain ⟨y, hy, hid, hversion⟩ := version_of_update hok
    rw [← run_append] at hy ⊢
    rw [← run_current files settings file hfresh hx hy hid hversion]
    exact Records.get?_of_mem hy
  · intro first actor id v p p' base next change hfirst t
    obtain ⟨htarget, hlt, x, hx, hid, hbase, hz⟩ := changed_cases hfirst
    obtain rfl : id = next.id := Option.some.inj htarget
    have hv : base = v := by
      obtain ⟨y, hy, hyid, hversion⟩ := version_of_update hfirst
      rw [← hbase, ← hversion, s.records.filed.id_inj hx hy (hid.trans hyid.symm)]
    -- the first update is a part of the run before, which gives no identifier
    let earlier := before ++ [(first, Mutation.update next.id p (some v))]
    have hrun : (s.step first (.update next.id p (some v))).1 = (start files settings file).run earlier :=
      (run_concat _ before (first, _)).symm
    have hnew : ((earlier ++ between).filterMap (·.2.newId?)).Nodup := by
      simpa [earlier, Mutation.newId?] using hfresh
    have hstale : ∀ y ∈ t.records.list, y.id = next.id → y.current.version ≠ v := by
      have ht : t = (start files settings file).run (earlier ++ between) := by
        rw [run_append, ← hrun]
      intro y hy hid
      rw [hrun] at hz
      rw [ht] at hy
      have hle : next.version.tenths ≤ y.current.version.tenths :=
        run_version_le files settings file hnew hz hy hid
      rintro rfl
      rw [hv] at hlt
      exact absurd hle (UInt32.not_le.2 hlt)
    rcases step_stale actor p' hstale with ⟨y, hy, hid, hstep⟩ | ⟨hnone, hstep⟩
    · exact .inl ⟨y.current, hid ▸ Records.get?_of_mem hy, hstep⟩
    · rcases run_kept hz between with ⟨y, hy, hid⟩ | hremoved
      · exact absurd hid (hnone y hy)
      · exact .inr ⟨hremoved, hstep⟩

def registered : State :=
  (start (.empty []) ⟨.reject, 10⟩ none).run
    [(⟨"ann", .manual, 1⟩, .create (.ofConnection "probe" (.ofLaunch (.ofCommand "run"))) ⟨1⟩)]

def describing : Mutation := .update ⟨1⟩ { Patch.empty with description := .set "A probe" } (some .initial)

def titling : Mutation := .update ⟨1⟩ { Patch.empty with displayName := .set "Probe" } (some .initial)

theorem run_edited_twice :
    ∃ e, registered.catalog.get ⟨1⟩ .live = .ok e ∧ registered.records.get? e.id = some e ∧
      let t := (registered.step ⟨"ben", .manual, 2⟩ describing).1
      ∃ current, t.records.get? ⟨1⟩ = some current ∧ t.step ⟨"cam", .manual, 3⟩ titling
        = (t, .error (.conflict (.stalePatch ⟨1⟩ current.version .initial))) := by
  obtain ⟨hfirst, hsecond⟩ := run_edited (.empty []) ⟨.reject, 10⟩ none
    [(⟨"ann", .manual, 1⟩, .create (.ofConnection "probe" (.ofLaunch (.ofCommand "run"))) ⟨1⟩)] [] (by decide)
  obtain ⟨base, next, change, hchanged, -⟩ := Outcome.exists_changed (p := fun _ => true)
    (o := (registered.step ⟨"ben", .manual, 2⟩ describing).2) (by decide +kernel)
  let e := (Registration.ofConnection "probe" (.ofLaunch (.ofCommand "run"))).service ⟨1⟩ ⟨"ann", .manual, 1⟩
  have hread : registered.catalog.get ⟨1⟩ .live = .ok e := rfl
  refine ⟨e, hread, hfirst e _ _ _ (.got hread) hchanged, ?_⟩
  rcases hsecond _ ⟨"cam", .manual, 3⟩ ⟨1⟩ .initial _ { Patch.empty with displayName := .set "Probe" }
    base next change hchanged with hstale | ⟨⟨_, hmem, -⟩, -⟩
  · exact hstale
  · cases hmem

theorem titling_removed :
    (∃ base next change, (registered.step ⟨"ben", .manual, 2⟩ describing).2 = .ok (.changed base next change)) ∧
      (∃ base next change, (registered.step ⟨"cam", .manual, 3⟩ titling).2 = .ok (.changed base next change)) ∧
      let t := registered.run [(⟨"ben", .manual, 2⟩, describing), (⟨"dan", .manual, 4⟩, .remove ⟨1⟩)]
      t.step ⟨"cam", .manual, 5⟩ titling = (t, .error (.missing (.id ⟨1⟩))) ∧
        ∀ k, (t.step ⟨"cam", .manual, 5⟩ titling).2 ≠ .error (.conflict k) := by
  obtain ⟨base, next, change, hdescribed, -⟩ := Outcome.exists_changed (p := fun _ => true)
    (o := (registered.step ⟨"ben", .manual, 2⟩ describing).2) (by decide +kernel)
  obtain ⟨base', next', change', htitled, -⟩ := Outcome.exists_changed (p := fun _ => true)
    (o := (registered.step ⟨"cam", .manual, 3⟩ titling).2) (by decide +kernel)
  refine ⟨⟨base, next, change, hdescribed⟩, ⟨base', next', change', htitled⟩, ?_⟩
  intro t
  have hgone : t.records.list.isEmpty = true := by decide +kernel
  have hnone : ∀ x ∈ t.records.list, x.id = ⟨1⟩ → x.current.version ≠ .initial := by
    rw [List.isEmpty_iff.1 hgone]
    exact List.forall_mem_nil _
  rcases step_stale ⟨"cam", .manual, 5⟩ { Patch.empty with displayName := .set "Probe" } hnone with
    ⟨x, hx, -⟩ | ⟨-, hstep⟩
  · rw [List.isEmpty_iff.1 hgone] at hx
    cases hx
  · rw [titling, hstep]
    exact ⟨rfl, nofun⟩

end State

end Catalog

end ServiceCatalog
