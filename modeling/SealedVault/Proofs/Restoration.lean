import SealedVault.Proofs.Pipeline

/-!
This module contains what is left of a restoration that was given a time limit. Main statement:
`cleared_dispatch`, so a restorer that waits for too long changes the store by what it did before,
and any other one has its own result.
-/

namespace SealedVault

namespace Plan

/-- How long some actions wait, in nanoseconds. -/
def waited : List Action → Nat
  | [] => 0
  | .wait duration :: rest => duration.nanoseconds + waited rest
  | _ :: rest => waited rest

/-- The store after all edits among some actions. -/
def edited (store : Store) : List Action → Store
  | [] => store
  | .edit edit :: rest => edited (edit.apply store) rest
  | _ :: rest => edited store rest

/-- The events that some actions log. -/
def logged : List Action → List Event
  | [] => []
  | .log event :: rest => event :: logged rest
  | _ :: rest => logged rest

theorem waited_append (before rest : List Action) :
    waited (before ++ rest) = waited before + waited rest := by
  induction before with
  | nil => exact (Nat.zero_add _).symm
  | cons action more ih =>
    rw [List.cons_append]
    cases action with
    | edit edit => exact ih
    | measure key => exact ih
    | log event => exact ih
    | wait duration =>
      rw [waited, waited, ih, Nat.add_assoc]

theorem edited_append (store : Store) (before rest : List Action) :
    edited store (before ++ rest) = edited (edited store before) rest := by
  induction before generalizing store with
  | nil => rfl
  | cons action more ih =>
    cases action with
    | edit edit => exact ih (edit.apply store)
    | measure key => exact ih store
    | log event => exact ih store
    | wait duration => exact ih store

/-- A restorer can put any store in place of the one it finds. -/
theorem exists_edited_eq (store target : Store) :
    ∃ actions, waited actions = 0 ∧ edited store actions = target := by
  obtain ⟨entries, distinct⟩ := target
  induction entries with
  | nil => exact ⟨[.edit .reset], rfl, rfl⟩
  | cons entry rest ih =>
    obtain ⟨key, text⟩ := entry
    rw [List.map_cons, List.nodup_cons] at distinct
    obtain ⟨hfresh, hrest⟩ := distinct
    obtain ⟨actions, hwaited, hedited⟩ := ih hrest
    refine ⟨actions ++ [.edit (.insert key text)], ?_, ?_⟩
    · rw [waited_append, hwaited]
      rfl
    · rw [edited_append, hedited]
      simp only [edited, StoreEdit.apply, Store.insert, Store.erase, Store.mk.injEq,
        List.cons.injEq, true_and]
      rw [List.filter_eq_self]
      intro other hother
      have : other.1 ≠ key := by
        intro heq
        exact hfresh (List.mem_map.2 ⟨other, hother, heq⟩)
      simpa using this

end Plan

namespace Restoration

/-- Does one thing after the other. -/
def follow (restoration : Restoration) : List Action → Restoration
  | [] => restoration
  | .edit edit :: rest => (restoration.edit edit).follow rest
  | .measure key :: rest => (restoration.measure key).follow rest
  | .log event :: rest => (restoration.log event).follow rest
  | .wait _ :: rest => restoration.follow rest

theorem store_follow (restoration : Restoration) (actions : List Action) :
    (restoration.follow actions).store = Plan.edited restoration.store actions := by
  fun_induction follow restoration actions with
  | case1 => rfl
  | case2 restoration edit rest ih => exact ih
  | case3 restoration key rest ih => exact ih
  | case4 restoration event rest ih => exact ih
  | case5 restoration duration rest ih => exact ih

theorem events_follow (restoration : Restoration) (actions : List Action) :
    (restoration.follow actions).events.toList =
      restoration.events.toList ++ Plan.logged actions := by
  fun_induction follow restoration actions with
  | case1 => exact (List.append_nil _).symm
  | case2 restoration edit rest ih => exact ih
  | case3 restoration key rest ih => exact ih
  | case4 restoration event rest ih =>
    rw [ih, Plan.logged, log, Array.toList_push, ← List.append_cons]
  | case5 restoration duration rest ih => exact ih

/-- The outcome of a restoration that is given the time to end. -/
def Outcome.ofEnding (limit : Duration) : Ending → Outcome
  | .done => .done
  | .failed message => .failed (.restore message)
  | .panicked message => .panicked message
  | .never => .failed (.timedOut Plan.operation limit)

/-- What a restoration that was not done tells the log. -/
def Outcome.failureEvents : Outcome → List Event
  | .done => []
  | .failed error => [Command.clear.failureEvent error]
  | .panicked message => [Command.clear.panicEvent message]

end Restoration

namespace Plan

variable (plan : Plan) (limit : Duration)

theorem run.go_append {before : List Action} (rest : List Action) (elapsed : Nat)
    (restoration : Restoration) (h : elapsed + waited before ≤ limit.nanoseconds) :
    go plan limit (before ++ rest) elapsed restoration =
      go plan limit rest (elapsed + waited before) (restoration.follow before) := by
  induction before generalizing elapsed restoration with
  | nil => rfl
  | cons action more ih =>
    rw [List.cons_append]
    cases action with
    | edit edit => exact ih elapsed (restoration.edit edit) h
    | measure key => exact ih elapsed (restoration.measure key) h
    | log event => exact ih elapsed (restoration.log event) h
    | wait duration =>
      unfold waited at h
      -- The time is not up after all of these actions, so it is not up in this wait either
      have hwait : ¬ limit.nanoseconds < elapsed + duration.nanoseconds := by omega
      rw [go, if_neg hwait, ih _ restoration (by omega), Nat.add_assoc]
      rfl

/-- A plan that waits for too long has a first wait at which the time is up. -/
theorem exists_wait_of_limit_lt {actions : List Action} {elapsed : Nat}
    (hstart : elapsed ≤ limit.nanoseconds) (h : limit.nanoseconds < elapsed + waited actions) :
    ∃ before duration rest, actions = before ++ .wait duration :: rest ∧
      elapsed + waited before ≤ limit.nanoseconds ∧
      limit.nanoseconds < elapsed + waited before + duration.nanoseconds := by
  induction actions generalizing elapsed with
  | nil =>
    unfold waited at h
    omega
  | cons action more ih =>
    cases action with
    | edit edit =>
      obtain ⟨before, duration, rest, rfl, hwaited⟩ := ih hstart h
      exact ⟨.edit edit :: before, duration, rest, rfl, hwaited⟩
    | measure key =>
      obtain ⟨before, duration, rest, rfl, hwaited⟩ := ih hstart h
      exact ⟨.measure key :: before, duration, rest, rfl, hwaited⟩
    | log event =>
      obtain ⟨before, duration, rest, rfl, hwaited⟩ := ih hstart h
      exact ⟨.log event :: before, duration, rest, rfl, hwaited⟩
    | wait duration =>
      by_cases hup : limit.nanoseconds < elapsed + duration.nanoseconds
      · exact ⟨[], duration, more, rfl, hstart, hup⟩
      · unfold waited at h
        rw [← Nat.add_assoc] at h
        obtain ⟨before, later, rest, rfl, hwaited, hlimit⟩ := ih (Nat.not_lt.1 hup) h
        refine ⟨.wait duration :: before, later, rest, rfl, ?_, ?_⟩
        · unfold waited
          omega
        · unfold waited
          omega

theorem exists_wait {actions : List Action} (h : limit.nanoseconds < waited actions) :
    ∃ before duration rest, actions = before ++ .wait duration :: rest ∧
      waited before ≤ limit.nanoseconds ∧
      limit.nanoseconds < waited before + duration.nanoseconds := by
  rw [← Nat.zero_add (waited _)] at h
  simpa only [Nat.zero_add] using exists_wait_of_limit_lt limit (Nat.zero_le _) h

theorem run_of_waited_le (store : Store) (h : waited plan.actions ≤ limit.nanoseconds) :
    (plan.run limit store).1.store = edited store plan.actions ∧
      (plan.run limit store).1.events.toList = logged plan.actions ∧
      (plan.run limit store).2 = .ofEnding limit plan.ending := by
  have hgo := run.go_append plan limit [] 0 (.start store) (by rwa [Nat.zero_add])
  have hstore := (Restoration.start store).store_follow plan.actions
  have hevents := (Restoration.start store).events_follow plan.actions
  rw [List.append_nil] at hgo
  unfold run
  rw [hgo, run.go]
  cases plan.ending with
  | done => exact ⟨hstore, hevents, rfl⟩
  | failed message => exact ⟨hstore, hevents, rfl⟩
  | panicked message => exact ⟨hstore, hevents, rfl⟩
  | never => exact ⟨hstore, hevents, rfl⟩

theorem run_of_limit_lt (store : Store) {before rest : List Action} {duration : Duration}
    (hactions : plan.actions = before ++ .wait duration :: rest)
    (hwaited : waited before ≤ limit.nanoseconds)
    (h : limit.nanoseconds < waited before + duration.nanoseconds) :
    (plan.run limit store).1.store = edited store before ∧
      (plan.run limit store).1.events.toList = logged before ∧
      (plan.run limit store).2 = .failed (.timedOut operation limit) := by
  have hgo := run.go_append plan limit (.wait duration :: rest) 0 (.start store)
    (by rwa [Nat.zero_add])
  have hstore := (Restoration.start store).store_follow before
  have hevents := (Restoration.start store).events_follow before
  unfold run
  rw [hactions, hgo, run.go, Nat.zero_add, if_pos h]
  exact ⟨hstore, hevents, rfl⟩

end Plan

namespace Pipeline

variable (setup : Setup) (pipeline : Pipeline)

/-- What the restorer is going to do if the store is cleared now. -/
def plan : Plan :=
  setup.restorer pipeline.restorations.size pipeline.store

/-- What clearing comes to, whatever the restorer does. -/
structure Cleared (cleared : Dispatched) : Prop where
  session_eq : cleared.pipeline.session = pipeline.session
  reply_eq : cleared.reply = none
  /-- A restorer that does not wait for too long has its own result. -/
  of_waited_le :
    Plan.waited (pipeline.plan setup).actions ≤ setup.config.operationTimeout.nanoseconds →
    cleared.pipeline.store = Plan.edited pipeline.store (pipeline.plan setup).actions ∧
      cleared.events.toList = Command.clear.dispatchEvent ::
        (Plan.logged (pipeline.plan setup).actions ++
          Restoration.Outcome.failureEvents
            (.ofEnding setup.config.operationTimeout (pipeline.plan setup).ending))
  /-- Any other one is stopped in the wait in which its time is up. -/
  of_limit_lt :
    setup.config.operationTimeout.nanoseconds < Plan.waited (pipeline.plan setup).actions →
    ∃ before duration rest,
      (pipeline.plan setup).actions = before ++ .wait duration :: rest ∧
      Plan.waited before ≤ setup.config.operationTimeout.nanoseconds ∧
      setup.config.operationTimeout.nanoseconds < Plan.waited before + duration.nanoseconds ∧
      cleared.pipeline.store = Plan.edited pipeline.store before ∧
      cleared.events.toList = Command.clear.dispatchEvent :: (Plan.logged before ++
        [Command.clear.failureEvent
          (.timedOut "restore baseline" setup.config.operationTimeout)])

theorem dispatch_clear :
    let run := (pipeline.plan setup).run setup.config.operationTimeout pipeline.store
    (pipeline.dispatch setup .clear).pipeline.store = run.1.store ∧
      (pipeline.dispatch setup .clear).events.toList =
        Command.clear.dispatchEvent :: (run.1.events.toList ++ run.2.failureEvents) := by
  refine ⟨rfl, ?_⟩
  unfold dispatch handle clear plan
  dsimp only
  generalize (setup.restorer _ _).run _ _ = run
  obtain ⟨restoration, outcome⟩ := run
  cases outcome with
  | done => simp [Restoration.Outcome.failureEvents]
  | failed error => simp [Restoration.Outcome.failureEvents]
  | panicked message => simp [Restoration.Outcome.failureEvents]

theorem cleared_dispatch : Cleared setup pipeline (pipeline.dispatch setup .clear) where
  session_eq := session_clear setup pipeline
  reply_eq := rfl
  of_waited_le h := by
    obtain ⟨hstore, hevents⟩ := dispatch_clear setup pipeline
    obtain ⟨hedited, hlogged, houtcome⟩ := Plan.run_of_waited_le _ _ pipeline.store h
    rw [hstore, hevents, hedited, hlogged, houtcome]
    exact ⟨rfl, rfl⟩
  of_limit_lt h := by
    obtain ⟨hstore, hevents⟩ := dispatch_clear setup pipeline
    obtain ⟨before, duration, rest, hactions, hwaited, hlimit⟩ := Plan.exists_wait _ h
    obtain ⟨hedited, hlogged, houtcome⟩ :=
      Plan.run_of_limit_lt _ _ pipeline.store hactions hwaited hlimit
    refine ⟨before, duration, rest, hactions, hwaited, hlimit, ?_, ?_⟩
    · rw [hstore, hedited]
    · rw [hevents, hlogged, houtcome]
      rfl

end Pipeline

end SealedVault
