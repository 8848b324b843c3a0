import SealedVault.Cipher.Shared
import SealedVault.Proofs.Session

/-!
This module contains what callers that share a session can rely on. Main statements:
`exists_runs_serial`, so calls that come one after the other do what the session does for each of
them at once, `Sound.step`, so no move brings in a second key, and `oneKey_of_runs`, so a session has
one key for all calls, and every envelope that it ever returned can be opened.
-/

namespace SealedVault.Session

theorem decrypt_fst_eq_readUnder (session : Session) (supply : Supply) (entry : String) :
    (session.decrypt supply entry).1 = Envelope.readUnder (session.activeKey supply) entry := by
  rfl

namespace Shared

/-- No call is about to bring in a key. -/
def IsIdle (shared : Shared) : Prop :=
  ∀ task ∈ shared.tasks, task.isDrawing = false ∧ task.isDrawn = false

section Serial

variable (supply : Supply) {session : Session} {tasks : List Task}

theorem exists_runs_holding (call : Call) (h : IsIdle ⟨session, tasks⟩) :
    ∃ moves, Runs supply ⟨session, tasks ++ [.waiting call]⟩ moves
      ⟨(session.withKey supply).2, tasks ++ [.holding call (session.withKey supply).1]⟩ := by
  unfold withKey
  cases hkey : session.key? with
  | some key =>
    have receive : (Task.waiting call).advance? supply session =
        some (session, .holding call key) :=
      congrArg (Option.map _) hkey
    exact ⟨_, Runs.nil.concat (.advance tasks [] receive)⟩
  | none =>
    have hfree : ∀ task ∈ tasks ++ [], task.isDrawing = false ∧ task.isDrawn = false := by
      rw [List.append_nil]
      exact h
    exact ⟨_, ((Runs.nil.concat (.enter tasks [] call hkey hfree)).concat
      (.advance tasks [] rfl)).concat (.advance tasks [] rfl)⟩

theorem exists_runs_perform {shared : Shared} (call : Call) (h : shared.IsIdle) :
    ∃ moves, Runs supply shared moves (shared.perform supply call) := by
  obtain ⟨session, tasks⟩ := shared
  obtain ⟨moves, hold⟩ := exists_runs_holding supply call h
  have runs := (Runs.nil.concat (.start ⟨session, tasks⟩ call)).append hold
  cases call with
  | encrypt text =>
    have draw := runs.concat (.advance tasks [] rfl)
    have finish := draw.concat (.advance tasks [] rfl)
    have hperform : perform supply ⟨session, tasks⟩ (.encrypt text) =
        ⟨(session.encrypt supply text).2,
          tasks ++ [.sealed text (session.withKey supply).2.ivsDrawn
            (session.encrypt supply text).1]⟩ := by
      rw [ivsDrawn_withKey]
      rfl
    rw [hperform]
    exact ⟨_, finish⟩
  | decrypt entry => exact ⟨_, runs.concat (.advance tasks [] rfl)⟩

theorem isIdle_perform {shared : Shared} (call : Call) (h : shared.IsIdle) :
    (shared.perform supply call).IsIdle := by
  have of_last {session : Session} {task : Task}
      (hlast : task.isDrawing = false ∧ task.isDrawn = false) :
      IsIdle ⟨session, shared.tasks ++ [task]⟩ := by
    intro other hmem
    obtain hmem | hmem := List.mem_append.1 hmem
    · exact h other hmem
    · rw [List.mem_singleton.1 hmem]
      exact hlast
  cases call with
  | encrypt text => exact of_last ⟨rfl, rfl⟩
  | decrypt entry => exact of_last ⟨rfl, rfl⟩

theorem exists_runs_serial {shared : Shared} (calls : List Call) (h : shared.IsIdle) :
    ∃ moves, Runs supply shared moves (shared.serial supply calls) := by
  induction calls generalizing shared with
  | nil => exact ⟨[], .nil⟩
  | cons call rest ih =>
    obtain ⟨moves, runs⟩ := exists_runs_perform supply call h
    obtain ⟨more, behind⟩ := ih (isIdle_perform supply call h)
    exact ⟨_, runs.append behind⟩

theorem isReady_perform (shared : Shared) (call : Call) :
    (shared.perform supply call).session.isReady = true := by
  cases call with
  | encrypt text => exact isReady_encrypt shared.session supply text
  | decrypt entry => exact isReady_decrypt shared.session supply entry

theorem isReady_serial (shared : Shared) (calls : List Call) :
    (shared.serial supply calls).session.isReady = (shared.session.isReady || !calls.isEmpty) := by
  induction calls generalizing shared with
  | nil => exact (Bool.or_false _).symm
  | cons call rest ih =>
    have hrest := ih (shared.perform supply call)
    rw [isReady_perform, Bool.true_or] at hrest
    rw [List.isEmpty_cons, Bool.not_false, Bool.or_true]
    exact hrest

end Serial

end Shared

namespace Task

/-- The session has given the call its key. -/
def hasKey : Task → Bool
  | holding .. => true
  | sealing .. => true
  | sealed .. => true
  | opened .. => true
  | _ => false

def isEnded : Task → Bool
  | sealed .. => true
  | opened .. => true
  | _ => false

/-- The call knows no key but the first, and its result is made with it. -/
def Sound (supply : Supply) : Task → Prop
  | waiting _ => True
  | drawing _ => True
  | drawn _ key => key = supply.key 0
  | holding _ key => key = supply.key 0
  | sealing _ key _ => key = supply.key 0
  | sealed text draw envelope => envelope = Envelope.spell (supply.key 0) (supply.iv draw) text
  | opened entry result => result = Envelope.readUnder (supply.key 0) entry
  | abandoned _ => True

theorem advance?_of_isEnded {task : Task} (h : task.isEnded = true) (supply : Supply)
    (session : Session) : task.advance? supply session = none := by
  cases task with
  | sealed text draw envelope => rfl
  | opened entry result => rfl
  | _ => cases h

theorem canAbandon_of_isEnded {task : Task} (h : task.isEnded = true) :
    task.canAbandon = false := by
  cases task with
  | sealed text draw envelope => rfl
  | opened entry result => rfl
  | _ => cases h

/-- What one move does to a call that goes on, and to the session. -/
inductive Advances (supply : Supply) : Session → Task → Session → Task → Prop where
  | receive (session : Session) (call : Call) (key : Key) (h : session.key? = some key) :
    Advances supply session (.waiting call) session (.holding call key)
  | draw (session : Session) (call : Call) :
    Advances supply session (.drawing call) { session with keysDrawn := session.keysDrawn + 1 }
      (.drawn call (supply.key session.keysDrawn))
  | publish (session : Session) (call : Call) (key : Key) :
    Advances supply session (.drawn call key) { session with key? := some key } (.holding call key)
  | drawVector (session : Session) (text : String) (key : Key) :
    Advances supply session (.holding (.encrypt text) key)
      { session with ivsDrawn := session.ivsDrawn + 1 } (.sealing text key session.ivsDrawn)
  | decrypt (session : Session) (entry : String) (key : Key) :
    Advances supply session (.holding (.decrypt entry) key) session
      (.opened entry (Envelope.readUnder key entry))
  | encrypt (session : Session) (text : String) (key : Key) (draw : Nat) :
    Advances supply session (.sealing text key draw) session
      (.sealed text draw (Envelope.spell key (supply.iv draw) text))

theorem advances_of_advance? {supply : Supply} {session after : Session} {task next : Task}
    (h : task.advance? supply session = some (after, next)) :
    Advances supply session task after next := by
  cases task with
  | waiting call =>
    obtain ⟨key, hkey, hnext⟩ := Option.map_eq_some_iff.1 h
    cases hnext
    apply Advances.receive session call key hkey
  | holding call key =>
    cases call with
    | encrypt text =>
      cases h
      apply Advances.drawVector
    | decrypt entry =>
      cases h
      apply Advances.decrypt
  | drawing call =>
    cases h
    apply Advances.draw
  | drawn call key =>
    cases h
    apply Advances.publish
  | sealing text key draw =>
    cases h
    apply Advances.encrypt
  | _ => cases h

theorem Advances.call_eq {supply : Supply} {session after : Session} {task next : Task}
    (h : Advances supply session task after next) : next.call = task.call := by
  cases h with
  | receive => rfl
  | draw => rfl
  | publish => rfl
  | drawVector => rfl
  | decrypt => rfl
  | encrypt => rfl

end Task

namespace Shared

variable {supply : Supply} {shared after : Shared}

/-- What holds of a session and all calls of it, however far they have come. -/
structure Sound (supply : Supply) (shared : Shared) : Prop where
  task : ∀ task ∈ shared.tasks, task.Sound supply
  key : ∀ key, shared.session.key? = some key → key = supply.key 0
  keysDrawn_eq : shared.session.keysDrawn =
    shared.tasks.countP (·.isDrawn) + shared.session.isReady.toNat
  exclusive : shared.tasks.countP (·.isDrawing) + shared.session.keysDrawn ≤ 1
  isReady_eq : shared.session.isReady = shared.tasks.any (·.hasKey)

theorem Sound.new (supply : Supply) : Sound supply .new where
  task _ hmem := absurd hmem List.not_mem_nil
  key _ hkey := by cases hkey
  keysDrawn_eq := rfl
  exclusive := Nat.zero_le 1
  isReady_eq := rfl

theorem countP_replace (p : Task → Bool) (before behind : List Task) (task : Task) :
    (before ++ task :: behind).countP p = (before ++ behind).countP p + (p task).toNat := by
  rw [List.countP_append, List.countP_append, List.countP_cons, ← Nat.add_assoc]
  cases p task with
  | true => rfl
  | false => rfl

theorem any_replace (p : Task → Bool) (before behind : List Task) (task : Task) :
    (before ++ task :: behind).any p = ((before ++ behind).any p || p task) := by
  rw [List.any_append, List.any_append, List.any_cons, Bool.or_assoc, Bool.or_comm (p task)]

theorem mem_replace_iff {before behind : List Task} {task other : Task} :
    other ∈ before ++ task :: behind ↔ other = task ∨ other ∈ before ++ behind := by
  rw [List.mem_append, List.mem_cons, or_left_comm, List.mem_append]

namespace Sound

variable {session : Session} {task : Task} {before behind : List Task}

theorem replace {next : Session} {other : Task} (h : Sound supply ⟨session, before ++ task :: behind⟩)
    (hother : other.Sound supply)
    (hkey : ∀ key, next.key? = some key → key = supply.key 0)
    (hdrawn : next.keysDrawn + (task.isDrawn.toNat + session.isReady.toNat) =
      session.keysDrawn + (other.isDrawn.toNat + next.isReady.toNat))
    (hexclusive : other.isDrawing.toNat + next.keysDrawn ≤
      task.isDrawing.toNat + session.keysDrawn)
    (hready : next.isReady = (session.isReady || other.hasKey))
    (hhas : task.hasKey = true → other.hasKey = true) :
    Sound supply ⟨next, before ++ other :: behind⟩ where
  task := by
    intro element hmem
    obtain rfl | hmem := mem_replace_iff.1 hmem
    · exact hother
    · apply h.task element
      apply mem_replace_iff.2 (.inr hmem)
  key := hkey
  keysDrawn_eq := by
    have := h.keysDrawn_eq
    simp only [countP_replace] at this ⊢
    omega
  exclusive := by
    have := h.exclusive
    simp only [countP_replace] at this ⊢
    omega
  isReady_eq := by
    have := h.isReady_eq
    simp only [any_replace] at this ⊢
    rw [hready, this]
    cases hkeep : task.hasKey with
    | false => rw [Bool.or_false]
    | true => rw [hhas hkeep, Bool.or_true, Bool.or_true]

theorem isReady_of_hasKey (h : Sound supply shared) (hmem : task ∈ shared.tasks)
    (hkey : task.hasKey = true) : shared.session.isReady = true := by
  rw [h.isReady_eq, List.any_eq_true]
  exact ⟨task, hmem, hkey⟩

theorem activeKey_eq (h : Sound supply shared) (hready : shared.session.isReady = true) :
    shared.session.activeKey supply = supply.key 0 := by
  obtain ⟨key, hkey⟩ := Option.isSome_iff_exists.1 hready
  rw [← h.key key hkey]
  simp only [activeKey, withKey, hkey]

theorem start (h : Sound supply shared) (call : Call) :
    Sound supply { shared with tasks := shared.tasks ++ [.waiting call] } where
  task := by
    intro task hmem
    obtain hmem | hmem := List.mem_append.1 hmem
    · apply h.task task hmem
    · rw [List.mem_singleton.1 hmem]
      trivial
  key := h.key
  keysDrawn_eq := by
    rw [List.countP_append]
    apply h.keysDrawn_eq
  exclusive := by
    rw [List.countP_append]
    apply h.exclusive
  isReady_eq := by
    rw [List.any_append, h.isReady_eq]
    apply (Bool.or_false _).symm

theorem enter {call : Call} (h : Sound supply ⟨session, before ++ .waiting call :: behind⟩)
    (hkey : session.key? = none)
    (hfree : ∀ task ∈ before ++ behind, task.isDrawing = false ∧ task.isDrawn = false) :
    Sound supply ⟨session, before ++ .drawing call :: behind⟩ := by
  have hdrawing : (before ++ behind).countP (·.isDrawing) = 0 := by
    rw [List.countP_eq_zero]
    intro task hmem
    simp [(hfree task hmem).1]
  have hdrawn : (before ++ behind).countP (·.isDrawn) = 0 := by
    rw [List.countP_eq_zero]
    intro task hmem
    simp [(hfree task hmem).2]
  have hnone : session.isReady = false := by
    simp [isReady, hkey]
  have hkeys := h.keysDrawn_eq
  simp only [countP_replace, hdrawn, hnone] at hkeys
  refine ⟨?_, h.key, ?_, ?_, ?_⟩
  · intro task hmem
    obtain rfl | hmem := mem_replace_iff.1 hmem
    · trivial
    · apply h.task task
      apply mem_replace_iff.2 (.inr hmem)
  · simp only [countP_replace]
    apply h.keysDrawn_eq.trans
    simp only [countP_replace]
    rfl
  · have hone : (Task.drawing call).isDrawing.toNat = 1 := rfl
    rw [countP_replace, hdrawing, hone]
    apply Nat.le_of_eq
    rw [hkeys]
    rfl
  · have := h.isReady_eq
    rw [any_replace] at this ⊢
    exact this

/-- What a call does that has the key, or gets the one that the session has. -/
theorem keep {after : Session} {next : Task} (h : Sound supply ⟨session, before ++ task :: behind⟩)
    (hready : session.isReady = true) (hkey : after.key? = session.key?)
    (hkeys : after.keysDrawn = session.keysDrawn) (hdrawn : task.isDrawn = false)
    (hnext : next.Sound supply) (hhas : next.hasKey = true) :
    Sound supply ⟨after, before ++ next :: behind⟩ := by
  have hsame : after.isReady = session.isReady := congrArg Option.isSome hkey
  have hplain : next.isDrawing = false ∧ next.isDrawn = false := by
    cases next with
    | holding => exact ⟨rfl, rfl⟩
    | sealing => exact ⟨rfl, rfl⟩
    | sealed => exact ⟨rfl, rfl⟩
    | opened => exact ⟨rfl, rfl⟩
    | _ => cases hhas
  apply h.replace hnext
  · rw [hkey]
    apply h.key
  · rw [hkeys, hsame, hdrawn, hplain.2]
  · rw [hkeys, hplain.1, Bool.toNat_false]
    omega
  · rw [hsame, hready, Bool.true_or]
  · intro _
    exact hhas

theorem draw {call : Call} (h : Sound supply ⟨session, before ++ .drawing call :: behind⟩) :
    Sound supply ⟨{ session with keysDrawn := session.keysDrawn + 1 },
      before ++ .drawn call (supply.key session.keysDrawn) :: behind⟩ := by
  have hone : (Task.drawing call).isDrawing.toNat = 1 := rfl
  have hexclusive := h.exclusive
  rw [countP_replace, hone] at hexclusive
  -- The call that draws is the one that may, so no key was drawn before
  have hfirst : session.keysDrawn = 0 := by
    dsimp only at hexclusive
    omega
  apply h.replace
  · rw [hfirst]
    rfl
  · apply h.key
  · simp only [Task.isDrawn, isReady, Bool.toNat_true, Bool.toNat_false]
    omega
  · simp only [Task.isDrawing, Bool.toNat_true, Bool.toNat_false]
    omega
  · apply (Bool.or_false _).symm
  · intro hkey
    cases hkey

theorem publish {call : Call} {key : Key}
    (h : Sound supply ⟨session, before ++ .drawn call key :: behind⟩) :
    Sound supply ⟨{ session with key? := some key }, before ++ .holding call key :: behind⟩ := by
  have hkey : key = supply.key 0 := h.task _ (List.mem_append_right _ List.mem_cons_self)
  have hone : (Task.drawn call key).isDrawn.toNat = 1 := rfl
  have hdrawn := h.keysDrawn_eq
  have hexclusive := h.exclusive
  rw [countP_replace, hone] at hdrawn
  -- The one key that was drawn is that of the call, so the session cannot have another
  have hunready : session.isReady.toNat = 0 := by
    dsimp only at hdrawn hexclusive
    omega
  apply h.replace
  · exact hkey
  · rintro _ ⟨⟩
    exact hkey
  · rw [hunready, hone]
    rfl
  · apply Nat.le_refl
  · apply (Bool.or_true _).symm
  · intro hkey
    cases hkey

theorem advance {after : Session} {next : Task}
    (h : Sound supply ⟨session, before ++ task :: behind⟩)
    (hadvance : task.advance? supply session = some (after, next)) :
    Sound supply ⟨after, before ++ next :: behind⟩ := by
  have hmem : task ∈ before ++ task :: behind := List.mem_append_right _ List.mem_cons_self
  have htask := h.task task hmem
  cases Task.advances_of_advance? hadvance with
  | receive call key hkey =>
    have hready : session.isReady = true := Option.isSome_of_eq_some hkey
    exact h.keep hready rfl rfl rfl (h.key key hkey) rfl
  | draw call => apply h.draw
  | publish call key => apply h.publish
  | drawVector text key =>
    have hready := h.isReady_of_hasKey hmem rfl
    exact h.keep hready rfl rfl rfl htask rfl
  | decrypt entry key =>
    have hready := h.isReady_of_hasKey hmem rfl
    have hopened : Envelope.readUnder key entry = Envelope.readUnder (supply.key 0) entry := by
      rw [show key = supply.key 0 from htask]
    exact h.keep hready rfl rfl rfl hopened rfl
  | encrypt text key draw =>
    have hready := h.isReady_of_hasKey hmem rfl
    have hsealed : Envelope.spell key (supply.iv draw) text =
        Envelope.spell (supply.key 0) (supply.iv draw) text := by
      rw [show key = supply.key 0 from htask]
    exact h.keep hready rfl rfl rfl hsealed rfl

theorem abandon (h : Sound supply ⟨session, before ++ task :: behind⟩)
    (hpending : task.canAbandon = true) :
    Sound supply ⟨session, before ++ .abandoned task.call :: behind⟩ := by
  have hplain : task.isDrawn = false ∧ task.hasKey = false := by
    cases task with
    | waiting => exact ⟨rfl, rfl⟩
    | drawing => exact ⟨rfl, rfl⟩
    | _ => cases hpending
  apply h.replace
  · trivial
  · apply h.key
  · rw [hplain.1]
    rfl
  · simp only [Task.isDrawing, Bool.toNat_false]
    omega
  · apply (Bool.or_false _).symm
  · rw [hplain.2]
    intro hkey
    cases hkey

theorem step {move : Move} (h : Sound supply shared) (step : Step supply shared move after) :
    Sound supply after := by
  cases step with
  | start call => apply h.start
  | enter before behind call hkey hfree => apply h.enter hkey hfree
  | advance before behind hadvance => apply h.advance hadvance
  | abandon before behind hpending => apply h.abandon hpending

theorem of_runs {moves : List Move} (h : Sound supply shared)
    (runs : Runs supply shared moves after) : Sound supply after := by
  induction runs with
  | nil => exact h
  | concat _ step ih => exact ih.step step

end Sound

section Later

variable {moves : List Move}

theorem mem_of_step {move : Move} {task : Task} (step : Step supply shared move after)
    (hended : task.isEnded = true) (hmem : task ∈ shared.tasks) : task ∈ after.tasks := by
  have of_ne {before behind : List Task} {other next : Task}
      (hmem : task ∈ before ++ other :: behind) (hne : task ≠ other) :
      task ∈ before ++ next :: behind := by
    rw [mem_replace_iff] at hmem ⊢
    exact .inr (hmem.resolve_left hne)
  cases step with
  | start call => exact List.mem_append_left _ hmem
  | enter before behind call hkey hfree =>
    apply of_ne hmem
    rintro rfl
    cases hended
  | advance before behind hadvance =>
    apply of_ne hmem
    rintro rfl
    rw [Task.advance?_of_isEnded hended] at hadvance
    cases hadvance
  | abandon before behind hpending =>
    apply of_ne hmem
    rintro rfl
    rw [Task.canAbandon_of_isEnded hended] at hpending
    cases hpending

theorem mem_of_runs {task : Task} (runs : Runs supply shared moves after)
    (hended : task.isEnded = true) (hmem : task ∈ shared.tasks) : task ∈ after.tasks := by
  induction runs with
  | nil => exact hmem
  | concat _ step ih => exact mem_of_step step hended ih

theorem isReady_of_step {move : Move} (step : Step supply shared move after)
    (hready : shared.session.isReady = true) : after.session.isReady = true := by
  cases step with
  | start call => exact hready
  | enter before behind call hkey hfree => exact hready
  | abandon before behind hpending => exact hready
  | advance before behind hadvance =>
    cases Task.advances_of_advance? hadvance with
    | receive call key hkey => exact hready
    | draw call => exact hready
    | publish call key => rfl
    | drawVector text key => exact hready
    | decrypt entry key => exact hready
    | encrypt text key draw => exact hready

theorem isReady_of_runs (runs : Runs supply shared moves after)
    (hready : shared.session.isReady = true) : after.session.isReady = true := by
  induction runs with
  | nil => exact hready
  | concat _ step ih => exact isReady_of_step step ih

end Later

def made (moves : List Move) : List Call :=
  moves.filterMap fun
    | .start call => some call
    | _ => none

theorem map_call_of_step {move : Move} (step : Step supply shared move after) :
    after.tasks.map (·.call) = shared.tasks.map (·.call) ++ made [move] := by
  have of_eq {before behind : List Task} {task next : Task} (h : next.call = task.call) :
      (before ++ next :: behind).map (·.call) =
        (before ++ task :: behind).map (·.call) ++ [] := by
    rw [List.append_nil, List.map_append, List.map_append, List.map_cons, List.map_cons, h]
  cases step with
  | start call => apply List.map_append
  | enter before behind call hkey hfree => exact of_eq rfl
  | advance before behind hadvance => exact of_eq (Task.advances_of_advance? hadvance).call_eq
  | abandon before behind hpending => exact of_eq rfl

theorem map_call_of_runs {moves : List Move} (runs : Runs supply shared moves after) :
    after.tasks.map (·.call) = shared.tasks.map (·.call) ++ made moves := by
  induction runs with
  | nil => exact (List.append_nil _).symm
  | concat _ step ih =>
    rw [map_call_of_step step, ih, List.append_assoc]
    unfold made
    rw [List.filterMap_append]

section Progress

variable (supply) (session : Session) (before behind : List Task) {task : Task}

theorem exists_runs_of_drawing (h : task.isDrawing = true ∨ task.isDrawn = true) :
    ∃ moves after key, Runs supply ⟨session, before ++ task :: behind⟩ moves
      ⟨after, before ++ .holding task.call key :: behind⟩ ∧ after.key? = some key := by
  cases task with
  | drawing call =>
    exact ⟨_, _, _, (Runs.nil.concat (.advance before behind rfl)).concat
      (.advance before behind rfl), rfl⟩
  | drawn call key => exact ⟨_, _, key, Runs.nil.concat (.advance before behind rfl), rfl⟩
  | _ =>
    obtain hno | hno := h
    · cases hno
    · cases hno

/-- Another call that draws the key gives it to the session and leaves a waiting one where it is. -/
theorem exists_runs_of_busy {other : Task} (hmem : other ∈ before ++ behind)
    (h : other.isDrawing = true ∨ other.isDrawn = true) :
    ∃ moves after key front back, Runs supply ⟨session, before ++ task :: behind⟩ moves
      ⟨after, front ++ task :: back⟩ ∧ front.length = before.length ∧ after.key? = some key := by
  obtain hmem | hmem := List.mem_append.1 hmem
  · obtain ⟨first, last, rfl⟩ := List.append_of_mem hmem
    obtain ⟨moves, after, key, runs, hkey⟩ :=
      exists_runs_of_drawing supply session first (last ++ task :: behind) h
    refine ⟨moves, after, key, first ++ .holding other.call key :: last, behind, ?_, ?_, hkey⟩
    · rw [List.append_assoc, List.append_assoc]
      exact runs
    · rw [List.length_append, List.length_append, List.length_cons, List.length_cons]
  · obtain ⟨first, last, rfl⟩ := List.append_of_mem hmem
    obtain ⟨moves, after, key, runs, hkey⟩ :=
      exists_runs_of_drawing supply session (before ++ task :: first) last h
    refine ⟨moves, after, key, before, first ++ .holding other.call key :: last, ?_, rfl, hkey⟩
    rw [List.append_assoc, List.append_assoc] at runs
    exact runs

theorem exists_runs_key_of_waiting {call : Call} :
    ∃ moves after key front back, Runs supply ⟨session, before ++ .waiting call :: behind⟩ moves
      ⟨after, front ++ .holding call key :: back⟩ ∧ front.length = before.length := by
  have receive {session : Session} {key : Key} (hkey : session.key? = some key) :
      (Task.waiting call).advance? supply session = some (session, .holding call key) :=
    congrArg (Option.map _) hkey
  cases hkey : session.key? with
  | some key =>
    exact ⟨_, _, key, before, behind, Runs.nil.concat (.advance before behind (receive hkey)), rfl⟩
  | none =>
    -- Either another call is at the key and brings it in, or this call may enter
    by_cases hbusy : ∃ task ∈ before ++ behind, task.isDrawing = true ∨ task.isDrawn = true
    · obtain ⟨task, hmem, hdrawing⟩ := hbusy
      obtain ⟨moves, after, key, front, back, runs, hlength, hkey⟩ :=
        exists_runs_of_busy supply session before behind hmem hdrawing
      exact ⟨_, after, key, front, back, runs.concat (.advance front back (receive hkey)), hlength⟩
    · have hfree : ∀ task ∈ before ++ behind, task.isDrawing = false ∧ task.isDrawn = false := by
        intro task hmem
        have hno : ¬ (task.isDrawing = true ∨ task.isDrawn = true) :=
          fun h => hbusy ⟨task, hmem, h⟩
        simpa using hno
      have hdrawing : (Task.drawing call).isDrawing = true := rfl
      obtain ⟨moves, after, key, runs, -⟩ :=
        exists_runs_of_drawing supply session before behind (.inl hdrawing)
      exact ⟨_, after, key, before, behind,
        (Runs.nil.concat (.enter before behind call hkey hfree)).append runs, rfl⟩

theorem exists_runs_ended_of_hasKey (h : task.hasKey = true) :
    ∃ moves after ended, Runs supply ⟨session, before ++ task :: behind⟩ moves
      ⟨after, before ++ ended :: behind⟩ ∧ ended.isEnded = true ∧ ended.call = task.call := by
  cases task with
  | holding call key =>
    cases call with
    | encrypt text =>
      have draw : Runs supply ⟨session, before ++ .holding (.encrypt text) key :: behind⟩ _ _ :=
        Runs.nil.concat (.advance before behind rfl)
      have finish := draw.concat (.advance before behind rfl)
      exact ⟨_, _, _, finish, rfl, rfl⟩
    | decrypt entry =>
      have finish : Runs supply ⟨session, before ++ .holding (.decrypt entry) key :: behind⟩ _ _ :=
        Runs.nil.concat (.advance before behind rfl)
      exact ⟨_, _, _, finish, rfl, rfl⟩
  | sealing text key draw =>
    have finish : Runs supply ⟨session, before ++ .sealing text key draw :: behind⟩ _ _ :=
      Runs.nil.concat (.advance before behind rfl)
    exact ⟨_, _, _, finish, rfl, rfl⟩
  | sealed text draw envelope => exact ⟨[], session, _, .nil, rfl, rfl⟩
  | opened entry result => exact ⟨[], session, _, .nil, rfl, rfl⟩
  | _ => cases h

theorem exists_eq_append_cons {index : Nat} {tasks : List Task}
    (h : tasks[index]? = some task) :
    ∃ before behind, tasks = before ++ task :: behind ∧ before.length = index := by
  obtain ⟨hindex, rfl⟩ := List.getElem?_eq_some_iff.1 h
  refine ⟨tasks.take index, tasks.drop (index + 1), ?_, ?_⟩
  · rw [← List.drop_eq_getElem_cons hindex, List.take_append_drop]
  · rw [List.length_take]
    omega

/-- Some moves give a call its result. -/
def CanEnd (supply : Supply) (shared : Shared) (index : Nat) (call : Call) : Prop :=
  ∃ moves after ended, Runs supply shared moves after ∧ after.tasks[index]? = some ended ∧
    ended.isEnded = true ∧ ended.call = call

theorem canEnd_of_ne_abandoned {index : Nat} (hindex : shared.tasks[index]? = some task)
    (hkept : ∀ call, task ≠ .abandoned call) : CanEnd supply shared index task.call := by
  obtain ⟨session, tasks⟩ := shared
  obtain ⟨before, behind, rfl, hlength⟩ := exists_eq_append_cons hindex
  have of_hasKey {moves : List Move} {after : Session} {other : Task} {front back : List Task}
      (runs : Runs supply ⟨session, before ++ task :: behind⟩ moves ⟨after, front ++ other :: back⟩)
      (hfront : front.length = before.length) (hkey : other.hasKey = true)
      (hother : other.call = task.call) :
      CanEnd supply ⟨session, before ++ task :: behind⟩ index task.call := by
    obtain ⟨more, last, ended, rest, hended, hcall⟩ :=
      exists_runs_ended_of_hasKey supply after front back hkey
    refine ⟨_, _, ended, runs.append rest, ?_, hended, hcall.trans hother⟩
    rw [List.getElem?_append_right (by omega), ← hlength, hfront, Nat.sub_self]
    rfl
  cases task with
  | waiting call =>
    obtain ⟨moves, after, key, front, back, runs, hfront⟩ :=
      exists_runs_key_of_waiting supply session before behind
    exact of_hasKey runs hfront rfl rfl
  | drawing call =>
    have hdrawing : (Task.drawing call).isDrawing = true := rfl
    obtain ⟨moves, after, key, runs, -⟩ :=
      exists_runs_of_drawing supply session before behind (.inl hdrawing)
    exact of_hasKey runs rfl rfl rfl
  | drawn call key =>
    have hdrawn : (Task.drawn call key).isDrawn = true := rfl
    obtain ⟨moves, after, key, runs, -⟩ :=
      exists_runs_of_drawing supply session before behind (.inr hdrawn)
    exact of_hasKey runs rfl rfl rfl
  | abandoned call => exact absurd rfl (hkept call)
  | _ => exact of_hasKey .nil rfl rfl rfl

end Progress

/-- What callers can rely on when some moves have led to `shared`. -/
structure OneKey (supply : Supply) (moves : List Move) (shared : Shared) : Prop where
  map_call : shared.tasks.map (·.call) = made moves
  /-- The session is ready as soon as it has given a call its key, and not before. -/
  isReady_eq : shared.session.isReady = shared.tasks.any (·.hasKey)
  keysDrawn_le : shared.session.keysDrawn ≤ 1
  of_isReady : shared.session.isReady = true →
    shared.session.keysDrawn = 1 ∧ shared.session.key? = some (supply.key 0)
  /-- All calls use that key, as far as they have come. -/
  task : ∀ task ∈ shared.tasks, task.Sound supply
  isReady_later : ∀ more after, Runs supply shared more after →
    shared.session.isReady = true → after.session.isReady = true
  /-- Whatever else is called, an envelope that was returned opens to its text from then on. -/
  opens_later : ∀ more after, Runs supply shared more after →
    ∀ text draw envelope, .sealed text draw envelope ∈ shared.tasks →
      .sealed text draw envelope ∈ after.tasks ∧
      (after.session.decrypt supply envelope).1 = .ok text ∧
      ∀ result, .opened envelope result ∈ after.tasks → result = .ok text
  /-- No call waits in vain, unless it is given up. -/
  canEnd : ∀ (index : Nat) (task : Task), shared.tasks[index]? = some task →
    (∀ call, task ≠ .abandoned call) → CanEnd supply shared index task.call

/-- A session draws one key, and whatever it seals under it can be opened ever after. -/
theorem oneKey_of_runs (supply : Supply) :
    (∀ calls, (new.serial supply calls).session.isReady = !calls.isEmpty ∧
      ∃ moves, Runs supply .new moves (new.serial supply calls)) ∧
    ∀ moves shared, Runs supply .new moves shared → OneKey supply moves shared := by
  constructor
  · intro calls
    constructor
    · apply isReady_serial
    · apply exists_runs_serial
      nofun
  · intro moves shared runs
    have h := (Sound.new supply).of_runs runs
    have hdrawn := h.keysDrawn_eq
    have hexclusive := h.exclusive
    refine ⟨?_, h.isReady_eq, ?_, ?_, h.task, ?_, ?_, ?_⟩
    · apply map_call_of_runs runs
    · omega
    · intro hready
      rw [hready, Bool.toNat_true] at hdrawn
      constructor
      · omega
      · obtain ⟨key, hkey⟩ := Option.isSome_iff_exists.1 hready
        rw [hkey, h.key key hkey]
    · intro more after later hready
      apply isReady_of_runs later hready
    · intro more after later text draw envelope hmem
      -- Both ends of the run are sound, so the key that opens is the one that sealed
      have hlater := h.of_runs later
      have hkept := mem_of_runs later rfl hmem
      have hready := hlater.isReady_of_hasKey hkept rfl
      have henvelope : envelope = Envelope.spell (supply.key 0) (supply.iv draw) text :=
        h.task _ hmem
      have hopen : (after.session.decrypt supply envelope).1 = .ok text := by
        rw [henvelope, ← hlater.activeKey_eq hready]
        apply decrypt_spell
      refine ⟨hkept, hopen, ?_⟩
      intro result hresult
      have hread : result = Envelope.readUnder (supply.key 0) envelope := hlater.task _ hresult
      rw [hread, ← hlater.activeKey_eq hready, ← decrypt_fst_eq_readUnder, hopen]
    · intro index task hindex hkept
      apply canEnd_of_ne_abandoned supply hindex hkept

/-- Two callers come first at once. The one whose entry is no envelope brings in the key. -/
theorem oneKey_of_runs_race :
    let supply := Supply.numbered 0
    let moves : List Move :=
      [.start (.encrypt "text"), .start (.decrypt "%%%"), .enter 1, .advance 1, .advance 1,
        .advance 0, .advance 1, .advance 0, .advance 0]
    ∃ shared, Runs supply .new moves shared ∧
      Task.opened "%%%" (.error Envelope.invalidBase64) ∈ shared.tasks ∧
      shared.session.isReady = true ∧ OneKey supply moves shared := by
  intro supply moves
  let key := supply.key 0
  let text : Call := .encrypt "text"
  let broken : Call := .decrypt "%%%"
  have hfree : ∀ task ∈ [Task.waiting text] ++ [],
      task.isDrawing = false ∧ task.isDrawn = false := by
    intro task hmem
    rw [List.mem_singleton.1 hmem]
    exact ⟨rfl, rfl⟩
  have drawn : Runs supply .new _ ⟨⟨some key, 1, 0⟩, [.waiting text, .holding broken key]⟩ :=
    ((((Runs.nil.concat (.start new text)).concat (.start _ broken)).concat
      (.enter [.waiting text] [] broken rfl hfree)).concat
      (.advance [.waiting text] [] rfl)).concat (.advance [.waiting text] [] rfl)
  have opened : Runs supply .new _ ⟨⟨some key, 1, 1⟩,
      [.sealing "text" key 0, .opened "%%%" (Envelope.readUnder key "%%%")]⟩ :=
    ((drawn.concat (.advance [] [.holding broken key] rfl)).concat
      (.advance [.holding text key] [] rfl)).concat (.advance [] _ rfl)
  have runs := opened.concat (.advance [] _ rfl)
  refine ⟨_, runs, ?_, rfl, (oneKey_of_runs supply).2 moves _ runs⟩
  apply List.mem_cons_of_mem
  apply List.mem_singleton_self

end Shared

end SealedVault.Session
