import Mathlib.Data.List.Chain
import Mathlib.Data.List.Induction
import ServiceCatalog.Proofs.Catalog.Step

namespace ServiceCatalog

def Mutation.newId? : Mutation → Option Uuid
  | create _ id | put _ id => some id
  | _ => none

theorem Mutation.newId?_eq {m : Mutation} {request : Registration} {id : Uuid}
    (h : m = .create request id ∨ m = .put request id) : m.newId? = some id := by
  rcases h with rfl | rfl <;> rfl

namespace Catalog.State

def start (files : Files) (settings : Settings) (file : Option Path) : State :=
  ⟨files, settings, ⟨.empty, file⟩⟩

def run (s : State) (steps : List (Actor × Mutation)) : State :=
  steps.foldl (fun s step => (s.step step.1 step.2).1) s

theorem run_concat (s : State) (steps : List (Actor × Mutation)) (step : Actor × Mutation) :
    s.run (steps ++ [step]) = ((s.run steps).step step.1 step.2).1 := by
  simp [run]

theorem run_append (s : State) (before between : List (Actor × Mutation)) :
    s.run (before ++ between) = (s.run before).run between := List.foldl_append

theorem record_cases {s : State} {actor : Actor} {m : Mutation} {x : ServiceRecord}
    (hx : x ∈ (s.step actor m).1.records.list) :
    x ∈ s.records.list ∨
      (∃ request id, (m = .create request id ∨ m = .put request id) ∧
        request.check s.catalog.settings.policy = .ok () ∧
        x = .ofService (Registration.service request id actor)) ∨
      ∃ y ∈ s.records.list, ∃ t change next log, x = y.advance t ∧
        Service.Revised s.catalog.settings.policy m.asks actor y.current t change next log := by
  rcases step_cases s actor m with ⟨e, -, hcatalog, -, -⟩ | ⟨effect, -, heffect, hstep⟩
  · left
    rwa [records, hcatalog] at hx
  · rcases hstep with ⟨-, hsame⟩ | ⟨w, hw⟩
    · left
      rwa [hsame] at hx
    · have hasked := hw.asked
      have hrecords := hw.records_eq
      rcases Mutation.effect_cases heffect with
        ⟨request, id, hm, -, hcheck, -, rfl⟩ | ⟨id, t, -, -, rfl⟩ | ⟨id, -, current, hget, h⟩
      · cases hasked
        rw [(Records.insert_eq_ok.1 hrecords).2.2] at hx
        rcases Records.mem_put hx with rfl | hx
        · exact .inr (.inl ⟨request, id, hm, hcheck, rfl⟩)
        · exact .inl hx
      · cases hasked
        rw [(Records.remove_eq_ok.1 hrecords).2] at hx
        exact .inl (Records.mem_erase hx)
      · rcases h with rfl | ⟨t, change, next, log, rfl, hrevised⟩
        · cases hasked
        · cases hasked
          obtain ⟨-, y, hy, -, heq⟩ := Records.replace_eq_ok.1 hrecords
          rw [heq] at hx
          rcases Records.mem_put hx with rfl | hx
          · obtain ⟨z, hz, rfl⟩ := Records.get?_eq_some.1 hget
            have hyz : y = z := by
              rw [hrevised.id_eq, Records.id_of_get? hget, hz] at hy
              exact (Option.some.inj hy).symm
            subst hyz
            exact .inr (.inr ⟨y, (Records.find?_eq_some.1 hz).1, t, change, next, log, rfl, hrevised⟩)
          · exact .inl hx

theorem step_settings (s : State) (actor : Actor) (m : Mutation) :
    (s.step actor m).1.catalog.settings = s.catalog.settings := by
  rcases step_cases s actor m with ⟨e, -, hcatalog, -, -⟩ | ⟨effect, -, -, ⟨-, hsame⟩ | ⟨w, hw⟩⟩
  · rw [hcatalog]
  · rw [hsame]
  · exact hw.settings_eq

theorem run_settings (s : State) (steps : List (Actor × Mutation)) :
    (s.run steps).catalog.settings = s.catalog.settings := by
  induction steps generalizing s with
  | nil => rfl
  | cons step steps ih => exact (ih _).trans (s.step_settings step.1 step.2)

theorem step_file (s : State) (actor : Actor) (m : Mutation) :
    (s.step actor m).1.store.file = s.store.file := by
  rcases step_cases s actor m with ⟨e, -, hcatalog, -, -⟩ | ⟨effect, -, -, ⟨-, hsame⟩ | ⟨w, hw⟩⟩
  · rw [store, hcatalog]
    rfl
  · rw [hsame]
  · exact hw.file_eq

theorem run_file (s : State) (steps : List (Actor × Mutation)) : (s.run steps).store.file = s.store.file := by
  induction steps generalizing s with
  | nil => rfl
  | cons step steps ih => exact (ih _).trans (s.step_file step.1 step.2)

theorem run_given (files : Files) (settings : Settings) (file : Option Path) (steps : List (Actor × Mutation)) :
    ∀ x ∈ ((start files settings file).run steps).records.list, x.id ∈ steps.filterMap (·.2.newId?) := by
  induction steps using List.reverseRecOn with
  | nil =>
    intro x hx
    cases hx
  | append_singleton steps step ih =>
    intro x hx
    rw [run_concat] at hx
    rw [List.filterMap_append, List.mem_append]
    rcases record_cases hx with hx | ⟨request, id, hm, -, rfl⟩ | ⟨y, hy, t, _, _, _, rfl, ht⟩
    · exact .inl (ih x hx)
    · exact .inr (List.mem_filterMap.2 ⟨step, List.mem_singleton.2 rfl, Mutation.newId?_eq hm⟩)
    · have hid : (y.advance t).id = y.id := ht.id_eq
      rw [hid]
      exact .inl (ih y hy)

/-- What holds of registered services, and of every version made from one of which it holds, holds of all
states. -/
theorem run_states (settings : Settings) {P : Service → Prop}
    (hregistered : ∀ {request : Registration}, request.check settings.policy = .ok () →
      ∀ id actor, P (request.service id actor))
    (hrevised : ∀ {asked actor current s change next log},
      Service.Revised settings.policy asked actor current s change next log → P current → P s)
    (files : Files) (file : Option Path) (steps : List (Actor × Mutation)) :
    ∀ x ∈ ((start files settings file).run steps).records.list, ∀ s ∈ x.states, P s := by
  induction steps using List.reverseRecOn with
  | nil =>
    intro x hx
    cases hx
  | append_singleton steps step ih =>
    have hsettings : ((start files settings file).run steps).catalog.settings = settings := run_settings _ _
    intro x hx
    rw [run_concat] at hx
    rcases record_cases hx with hx | ⟨request, id, -, hcheck, rfl⟩ | ⟨y, hy, t, _, _, _, rfl, ht⟩
    · exact ih x hx
    · rw [hsettings] at hcheck
      exact List.forall_mem_singleton.2 (hregistered hcheck id step.1)
    · rw [hsettings] at ht
      have hcurrent := ih y hy y.current y.current_mem_states
      exact List.forall_mem_append.2 ⟨ih y hy, List.forall_mem_singleton.2 (hrevised ht hcurrent)⟩

/-- The step is the one of the run that put a state of the service in place of another one. -/
def Advances (s : State) (steps : List (Actor × Mutation)) (id : Uuid) (step : Actor × Mutation)
    (prev next : Service) : Prop :=
  ∃ before after, steps = before ++ step :: after ∧ (s.run before).records.get? id = some prev ∧
    (s.run (before ++ [step])).records.get? id = some next

theorem Advances.concat {s : State} {steps : List (Actor × Mutation)} {id : Uuid} {step : Actor × Mutation}
    {prev next : Service} (h : s.Advances steps id step prev next) (last : Actor × Mutation) :
    s.Advances (steps ++ [last]) id step prev next := by
  obtain ⟨before, after, rfl, hprev, hnext⟩ := h
  exact ⟨before, after ++ [last], by simp, hprev, hnext⟩

theorem run_isChain_from {R : Actor → Service → Service → Prop}
    (hR : ∀ {policy asked actor current s change next log},
      Service.Revised policy asked actor current s change next log → R actor current s)
    (s : State) (steps : List (Actor × Mutation)) :
    ∀ x ∈ (s.run steps).records.list, x.states.IsChain fun prev next =>
      (∃ step, s.Advances steps x.id step prev next ∧ R step.1 prev next) ∨
        ∃ y ∈ s.records.list, [prev, next] <:+: y.states := by
  -- the last mutation is split off, so that what came before it is a run of its own
  induction steps using List.reverseRecOn with
  | nil =>
    intro x hx
    apply List.isChain_iff_forall_rel_of_append_cons_cons.2
    intro prev next earlier later hstates
    exact .inr ⟨x, hx, earlier, later, by rw [hstates, List.append_assoc]; rfl⟩
  | append_singleton steps step ih =>
    have hmono : ∀ x ∈ (s.run steps).records.list, x.states.IsChain fun prev next =>
        (∃ step', s.Advances (steps ++ [step]) x.id step' prev next ∧ R step'.1 prev next) ∨
          ∃ y ∈ s.records.list, [prev, next] <:+: y.states := by
      intro x hx
      refine (ih x hx).imp fun prev next h => h.imp_left ?_
      rintro ⟨step', hadvances, hr⟩
      exact ⟨step', hadvances.concat step, hr⟩
    intro x hx
    have hafter : (s.run (steps ++ [step])).records.get? x.id = some x.current := Records.get?_of_mem hx
    rw [run_concat] at hx
    rcases record_cases hx with hx | ⟨request, id, -, -, rfl⟩ | ⟨y, hy, t, change, next, log, rfl, hrevised⟩
    · exact hmono x hx
    · exact List.isChain_singleton _
    · have hid : (y.advance t).id = y.id := hrevised.id_eq
      refine (hid ▸ hmono y hy).append (List.isChain_singleton _) fun a ha b hb => .inl ?_
      simp only [ServiceRecord.states, List.getLast?_append, List.getLast?_singleton, Option.some_or, Option.mem_def,
        Option.some.injEq, List.head?_cons] at ha hb
      subst ha hb
      have hbefore : (s.run steps).records.get? (y.advance t).id = some y.current := by
        rw [hid]
        exact Records.get?_of_mem hy
      exact ⟨step, ⟨steps, [], rfl, hbefore, hafter⟩, hR hrevised⟩

theorem run_isChain {R : Actor → Service → Service → Prop}
    (hR : ∀ {policy asked actor current s change next log},
      Service.Revised policy asked actor current s change next log → R actor current s)
    (files : Files) (settings : Settings) (file : Option Path) (steps : List (Actor × Mutation)) :
    ∀ x ∈ ((start files settings file).run steps).records.list, x.states.IsChain fun prev next =>
      ∃ step, (start files settings file).Advances steps x.id step prev next ∧ R step.1 prev next := by
  intro x hx
  apply (run_isChain_from hR _ steps x hx).imp
  rintro prev next (h | ⟨y, hy, -⟩)
  · exact h
  · cases hy

end Catalog.State

end ServiceCatalog
