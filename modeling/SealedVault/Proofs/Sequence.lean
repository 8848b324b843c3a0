import SealedVault.Proofs.Pipeline

/-!
This module contains commands that are processed one after the other. Main statement:
`getElem?_replies`, so the reply to a command is the one that is computed on what exactly the
commands before it left.
-/

namespace SealedVault

/-- The command is of a kind that has replies. -/
def Command.isAnswered (command : Command) : Bool :=
  command.refusal?.isSome

namespace Pipeline

variable (setup : Setup) (pipeline : Pipeline)

theorem isSome_reply_dispatch (command : Command) :
    (pipeline.dispatch setup command).reply.isSome = command.isAnswered := by
  unfold dispatch
  cases command with
  | set key value => rfl
  | delete key => rfl
  | clear => rfl
  | flush => rfl
  | script source => rfl
  | get key =>
    simp only [handle]
    split
    · rfl
    · rfl

/-- What some commands leave behind. -/
def after (commands : List Command) : Pipeline :=
  commands.foldl (fun pipeline command => (pipeline.dispatch setup command).pipeline) pipeline

/-- The replies to some commands, in order. -/
def replies (pipeline : Pipeline) : List Command → List Reply
  | [] => []
  | command :: rest =>
    let dispatched := pipeline.dispatch setup command
    dispatched.reply.toList ++ dispatched.pipeline.replies rest

theorem after_append (before commands : List Command) :
    pipeline.after setup (before ++ commands) =
      (pipeline.after setup before).after setup commands := by
  unfold after
  rw [List.foldl_append]

theorem after_concat (before : List Command) (command : Command) :
    pipeline.after setup (before ++ [command]) =
      ((pipeline.after setup before).dispatch setup command).pipeline := by
  rw [after_append]
  rfl

theorem replies_append (before commands : List Command) :
    pipeline.replies setup (before ++ commands) =
      pipeline.replies setup before ++ (pipeline.after setup before).replies setup commands := by
  induction before generalizing pipeline with
  | nil => rfl
  | cons command rest ih =>
    rw [List.cons_append, replies, replies, ih, List.append_assoc]
    rfl

theorem replies_concat (before : List Command) (command : Command) :
    pipeline.replies setup (before ++ [command]) =
      pipeline.replies setup before ++
        ((pipeline.after setup before).dispatch setup command).reply.toList := by
  rw [replies_append, replies, replies, List.append_nil]

theorem length_replies (commands : List Command) :
    (pipeline.replies setup commands).length = commands.countP (·.isAnswered) := by
  induction commands generalizing pipeline with
  | nil => rfl
  | cons command rest ih =>
    have hreply := isSome_reply_dispatch setup pipeline command
    rw [replies, List.length_append, ih, List.countP_cons, ← hreply]
    cases (pipeline.dispatch setup command).reply with
    | none => simp
    | some reply => simp [Nat.add_comm]

theorem getElem?_replies (before : List Command) {command : Command} (rest : List Command)
    (h : command.isAnswered = true) :
    (pipeline.replies setup (before ++ command :: rest))[before.countP (·.isAnswered)]? =
      ((pipeline.after setup before).dispatch setup command).reply := by
  have hreply := isSome_reply_dispatch setup (pipeline.after setup before) command
  rw [h, Option.isSome_iff_exists] at hreply
  obtain ⟨reply, hreply⟩ := hreply
  rw [replies_append, ← length_replies setup pipeline, List.getElem?_append_right (Nat.le_refl _),
    Nat.sub_self, replies, hreply]
  rfl

end Pipeline

end SealedVault
