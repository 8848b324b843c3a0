import SealedVault.Bytecode.Cursor
import SealedVault.Proofs.Faults

/-!
This module contains the reading with a cursor. Main statements: `follows_operand` and
`follows_next`, so a cursor finds what a reader finds and never leaves the bytes, and
`readAll_of_reads`, so reading on with it comes to an end where a reader does.
-/

namespace SealedVault.Bytecode

open Reader

namespace Cursor

/-- The reader that has the same bytes before it. -/
def reader (cursor : Cursor) : Reader :=
  ⟨cursor.position, cursor.bytes.drop cursor.position⟩

/-- The cursor never was behind the end of the bytes. -/
structure InBounds (cursor : Cursor) : Prop where
  position_le : cursor.position ≤ cursor.bytes.length
  past_le : ∀ position ∈ cursor.past, position ≤ cursor.bytes.length

/--
Where an error leaves the cursor: before the part that is cut, or right behind the operand that is
no text or the byte that is no opcode.
-/
inductive Rests (cursor : Cursor) : BytecodeError → Prop where
  | cut {needed remaining : Nat} (hend : cursor.position + remaining = cursor.bytes.length)
    (hcut : remaining < needed) : Rests cursor (.cut cursor.position needed remaining)
  | notUtf8 {offset : Nat} (hfield : 2 ≤ offset)
    (hbody : cursor.position = offset + toSize (cursor.bytes.extract (offset - 2) offset)) :
    Rests cursor (.notUtf8 offset)
  | unknownOpcode {byte : UInt8} {offset : Nat} (hbyte : cursor.bytes[offset]? = some byte)
    (hposition : cursor.position = offset + 1) : Rests cursor (.unknownOpcode byte offset)

theorem inBounds_ofBytes (bytes : Bytes) : (ofBytes bytes).InBounds where
  position_le := Nat.zero_le _
  past_le := nofun

variable {α β : Type} {cursor : Cursor}

theorem length_drop_position (h : cursor.InBounds) :
    cursor.position + (cursor.bytes.drop cursor.position).length = cursor.bytes.length := by
  have := h.position_le
  rw [List.length_drop]
  omega

theorem isAtEnd_iff : cursor.isAtEnd = true ↔ cursor.reader.rest = [] := by
  simp [isAtEnd, reader]

theorem getElem?_position {first : UInt8} {rest : Bytes}
    (hrest : cursor.bytes.drop cursor.position = [first] ++ rest) :
    cursor.bytes[cursor.position]? = some first := by
  have hfirst : (cursor.bytes.drop cursor.position)[0]? = some first := by
    rw [hrest]
    rfl
  simpa using hfirst

section Advance

variable {front rest : Bytes} (hrest : cursor.bytes.drop cursor.position = front ++ rest)
include hrest

theorem reader_advance :
    (cursor.advance front.length).reader = ⟨cursor.position + front.length, rest⟩ := by
  unfold reader advance
  rw [← List.drop_drop, hrest, List.drop_left]

theorem InBounds.advance (h : cursor.InBounds) : (cursor.advance front.length).InBounds where
  position_le := by
    have hlength := length_drop_position h
    rw [hrest, List.length_append] at hlength
    dsimp only [Cursor.advance]
    omega
  past_le := List.forall_mem_cons.2 ⟨h.position_le, h.past_le⟩

end Advance

section Run

theorem run_bind (first : Scan α) (more : α → Scan β) (cursor : Cursor) :
    (first >>= more).run cursor =
      match first.run cursor with
      | none => none
      | some (.ok a, after) => (more a).run after
      | some (.error e, after) => some (.error e, after) := by
  rw [ExceptT.run_bind]
  simp only [bind, StateT.bind]
  cases first.run cursor with
  | none => rfl
  | some ran =>
    obtain ⟨found, after⟩ := ran
    cases found with
    | ok a => rfl
    | error e => rfl

theorem run_get (cursor : Cursor) : (get : Scan Cursor).run cursor = some (.ok cursor, cursor) := by
  rfl

/-- What is not in range breaks the reading off. -/
theorem run_lift (part : Option α) (cursor : Cursor) :
    (liftM part : Scan α).run cursor = part.map fun a => (.ok a, cursor) := by
  cases part with
  | none => rfl
  | some a => rfl

theorem remaining?_of_inBounds (h : cursor.InBounds) :
    cursor.remaining? = some (cursor.bytes.drop cursor.position).length := by
  unfold remaining?
  rw [if_pos h.position_le, List.length_drop]

theorem take_of_drop {front rest : Bytes} (h : cursor.InBounds)
    (hrest : cursor.bytes.drop cursor.position = front ++ rest) :
    (take front.length).run cursor = some (.ok front, cursor.advance front.length) := by
  have hlength := length_drop_position h
  rw [hrest, List.length_append] at hlength
  have hslice : slice? cursor.bytes cursor.position (cursor.position + front.length) =
      some front := by
    unfold slice?
    rw [if_pos ⟨by omega, by omega⟩, List.extract_eq_take_drop, hrest, Nat.add_sub_cancel_left,
      List.take_left]
  have henough : ¬ (front ++ rest).length < front.length := by simp
  unfold take
  simp only [run_bind, run_get, run_lift, remaining?_of_inBounds h, hrest, hslice,
    Option.map_some, if_neg henough]
  rfl

theorem take_of_short {size : Nat} (h : cursor.InBounds)
    (hcut : (cursor.bytes.drop cursor.position).length < size) :
    (take size).run cursor =
      some (.error (.cut cursor.position size (cursor.bytes.drop cursor.position).length),
        cursor) := by
  unfold take
  simp only [run_bind, run_get, run_lift, remaining?_of_inBounds h, Option.map_some, if_pos hcut]
  rfl

theorem byte_of_drop {first : UInt8} {rest : Bytes} (h : cursor.InBounds)
    (hrest : cursor.bytes.drop cursor.position = [first] ++ rest) :
    byte.run cursor = some (.ok first, cursor.advance 1) := by
  have hfront := take_of_drop h hrest
  rw [List.length_singleton] at hfront
  unfold byte
  rw [run_bind, hfront]
  rfl

theorem byte_of_nil (h : cursor.InBounds) (hrest : cursor.bytes.drop cursor.position = []) :
    byte.run cursor = some (.error (.cut cursor.position 1 0), cursor) := by
  unfold byte
  rw [run_bind, take_of_short h (by simp [hrest]), hrest]
  rfl

/-- What the reading of an operand does behind its length field. -/
def body (size : Nat) : Scan String := do
  let offset := (← get).position
  let body ← take size
  match ofUtf8? body with
  | some text => return text
  | none => throw (.notUtf8 offset)

theorem operand_of_field {high low : UInt8} {rest : Bytes} (h : cursor.InBounds)
    (hrest : cursor.bytes.drop cursor.position = [high, low] ++ rest) :
    operand.run cursor = (body (toSize [high, low])).run (cursor.advance 2) := by
  have hfield := take_of_drop h hrest
  have hsize : [high, low].length = lengthSize := rfl
  rw [hsize] at hfield
  unfold operand
  rw [run_bind, hfield]
  rfl

theorem body_of_short {size : Nat} (h : cursor.InBounds)
    (hcut : (cursor.bytes.drop cursor.position).length < size) :
    (body size).run cursor =
      some (.error (.cut cursor.position size (cursor.bytes.drop cursor.position).length),
        cursor) := by
  unfold body
  simp only [run_bind, run_get, take_of_short h hcut]

theorem body_of_drop {front rest : Bytes} (h : cursor.InBounds)
    (hrest : cursor.bytes.drop cursor.position = front ++ rest) :
    (body front.length).run cursor =
      some ((ofUtf8? front).elim (.error (.notUtf8 cursor.position)) .ok,
        cursor.advance front.length) := by
  unfold body
  simp only [run_bind, run_get, take_of_drop h hrest]
  cases ofUtf8? front with
  | none => rfl
  | some text => rfl

end Run

/-- A cursor finds what a reader finds, stays in bounds and ends where the reader ends. -/
inductive Tracks (cursor : Cursor) :
    Except BytecodeError (α × Reader) → Option (Except BytecodeError α × Cursor) → Prop where
  | ok {after : Cursor} {behind : Reader} (a : α) (hbytes : after.bytes = cursor.bytes)
    (hbounds : after.InBounds) (hbehind : after.reader = behind) :
    Tracks cursor (.ok (a, behind)) (some (.ok a, after))
  | error {after : Cursor} {e : BytecodeError} (hbytes : after.bytes = cursor.bytes)
    (hbounds : after.InBounds) (hrests : after.Rests e) :
    Tracks cursor (.error e) (some (.error e, after))

/-- From every place in the bytes a cursor finds what a reader finds. -/
def Follows (scan : Scan α) (read : Reader → Except BytecodeError (α × Reader)) : Prop :=
  ∀ cursor : Cursor, cursor.InBounds → cursor.Tracks (read cursor.reader) (scan.run cursor)

theorem Tracks.of_bytes_eq {middle : Cursor} {expected : Except BytecodeError (α × Reader)}
    {found : Option (Except BytecodeError α × Cursor)} (hbytes : middle.bytes = cursor.bytes)
    (h : middle.Tracks expected found) : cursor.Tracks expected found := by
  cases h with
  | ok a hafter hbounds hbehind => exact .ok a (hafter.trans hbytes) hbounds hbehind
  | error hafter hbounds hrests => exact .error (hafter.trans hbytes) hbounds hrests

theorem Follows.bind {first : Scan α} {more : α → Scan β}
    {read : Reader → Except BytecodeError (α × Reader)}
    {readMore : α → Reader → Except BytecodeError (β × Reader)} (hfirst : Follows first read)
    (hmore : ∀ a, Follows (more a) (readMore a)) :
    Follows (first >>= more)
      fun reader => (read reader).bind fun found => readMore found.1 found.2 := by
  intro cursor h
  have htracks := hfirst cursor h
  rw [run_bind]
  dsimp only
  generalize read cursor.reader = expected at htracks ⊢
  generalize first.run cursor = found at htracks ⊢
  cases htracks with
  | ok a hbytes hbounds hbehind =>
    subst hbehind
    apply (hmore a _ hbounds).of_bytes_eq hbytes
  | error hbytes hbounds hrests => exact .error hbytes hbounds hrests

theorem follows_pure (a : α) : Follows (pure a) fun behind => .ok (a, behind) := by
  intro cursor h
  exact .ok a rfl h rfl

theorem tracks_operand_of_field {high low : UInt8} {rest : Bytes} (h : cursor.InBounds)
    (hfield : cursor.bytes.drop cursor.position = high :: low :: rest) :
    cursor.Tracks cursor.reader.operand (operand.run cursor) := by
  have hrest : cursor.bytes.drop cursor.position = [high, low] ++ rest := hfield
  have hmiddle : (cursor.advance 2).InBounds := h.advance hrest
  have hreader : (cursor.advance 2).reader = ⟨cursor.position + 2, rest⟩ := reader_advance hrest
  have hbehind : (cursor.advance 2).bytes.drop (cursor.advance 2).position = rest :=
    congrArg Reader.rest hreader
  have hread : cursor.reader.operand = _ := Reader.operand_of_field hfield
  rw [hread, operand_of_field h hrest, ← toSize_pair]
  by_cases hcut : rest.length < toSize [high, low]
  · have hlength := length_drop_position hmiddle
    rw [hbehind] at hlength
    rw [take_eq_error_iff.2 ⟨hcut, rfl⟩, body_of_short hmiddle (by rwa [hbehind]), hbehind]
    exact .error rfl hmiddle (.cut hlength hcut)
  · obtain ⟨front, behind, rfl, hsize⟩ :
        ∃ front behind, rest = front ++ behind ∧ front.length = toSize [high, low] := by
      refine ⟨_, _, (List.take_append_drop (toSize [high, low]) rest).symm, ?_⟩
      rw [List.length_take]
      omega
    have hafter := hmiddle.advance hbehind
    have hend : ((cursor.advance 2).advance front.length).reader = _ := reader_advance hbehind
    have htake := take_append (cursor.reader.offset + 2) front behind
    rw [← hsize, htake, body_of_drop hmiddle hbehind]
    simp only [bind, Except.bind]
    cases ofUtf8? front with
    | none =>
      have hannounced : cursor.bytes.extract (cursor.position + 2 - 2) (cursor.position + 2) =
          [high, low] := by
        rw [Nat.add_sub_cancel, List.extract_eq_take_drop, Nat.add_sub_cancel_left, hfield]
        rfl
      have hposition : ((cursor.advance 2).advance front.length).position =
          cursor.position + 2 +
            toSize (cursor.bytes.extract (cursor.position + 2 - 2) (cursor.position + 2)) := by
        rw [hannounced, ← hsize]
        rfl
      exact .error rfl hafter (.notUtf8 (Nat.le_add_left 2 cursor.position) hposition)
    | some text => exact .ok text rfl hafter hend

theorem follows_operand : Follows operand Reader.operand := by
  intro cursor h
  match hrest : cursor.bytes.drop cursor.position with
  | [] | [_] =>
    have hshort : (cursor.bytes.drop cursor.position).length < 2 := by simp [hrest]
    have hread : cursor.reader.operand = _ := operand_of_short hshort
    rw [hread]
    unfold operand
    rw [run_bind, lengthSize, take_of_short h hshort]
    exact .error rfl h (.cut (length_drop_position h) hshort)
  | high :: low :: rest => apply tracks_operand_of_field h hrest

theorem follows_operands (opcode : Opcode) : Follows (operands opcode) (·.operands opcode) := by
  cases opcode with
  | store =>
    have hvalue (key : String) :=
      follows_operand.bind fun value => follows_pure (Instruction.store key value)
    exact follows_operand.bind hvalue
  | load => exact follows_operand.bind fun key => follows_pure (Instruction.load key none)
  | delete => exact follows_operand.bind fun key => follows_pure (Instruction.delete key)

theorem follows_next : Follows next Reader.next := by
  intro cursor h
  unfold Reader.next next
  simp only [run_bind, run_get]
  cases hrest : cursor.bytes.drop cursor.position with
  | nil =>
    have hreader : cursor.reader.rest = [] := hrest
    have hlength := length_drop_position h
    rw [hrest] at hlength
    rw [byte_of_nil h hrest, hreader]
    exact .error rfl h (.cut hlength Nat.one_pos)
  | cons first rest =>
    have hreader : cursor.reader.rest = first :: rest := hrest
    have hfront : cursor.bytes.drop cursor.position = [first] ++ rest := hrest
    have hafter : (cursor.advance 1).InBounds := h.advance hfront
    have hbehind : (cursor.advance 1).reader = ⟨cursor.position + 1, rest⟩ := reader_advance hfront
    rw [byte_of_drop h hfront, hreader]
    dsimp only
    cases Opcode.ofByte? first with
    | none =>
      exact .error rfl hafter (.unknownOpcode (getElem?_position hfront) rfl)
    | some opcode =>
      have htracks := follows_operands opcode _ hafter
      dsimp only at htracks ⊢
      rw [hbehind] at htracks
      apply Tracks.of_bytes_eq _ htracks
      rfl

section ReadAll

variable {σ : Type} (visit : σ → Nat → Instruction → σ) (rounds : Nat) (state : σ)

/-- What comes of handing on instructions that are written one behind the other. -/
def handed (visit : σ → Nat → Instruction → σ) : σ → Nat → List Instruction → σ
  | state, _, [] => state
  | state, offset, instruction :: rest =>
    handed visit (visit state offset instruction) (offset + instruction.bytes.length) rest

theorem readAll_of_end (h : cursor.reader.rest = []) :
    readAll visit (rounds + 1) state cursor = some (state, none, cursor) := by
  rw [readAll, if_pos (isAtEnd_iff.2 h)]

theorem readAll_of_error {e : BytecodeError} (h : cursor.InBounds)
    (hrest : cursor.reader.rest ≠ []) (hnext : cursor.reader.next = .error e) :
    ∃ after : Cursor, readAll visit (rounds + 1) state cursor = some (state, some e, after) ∧
      after.bytes = cursor.bytes ∧ after.InBounds := by
  have htracks := follows_next cursor h
  rw [hnext] at htracks
  rw [readAll, if_neg (mt isAtEnd_iff.1 hrest)]
  generalize next.run cursor = found at htracks ⊢
  cases htracks with
  | error hbytes hbounds hrests => exact ⟨_, rfl, hbytes, hbounds⟩

theorem readAll_of_ok {instruction : Instruction} {behind : Reader} (h : cursor.InBounds)
    (hnext : cursor.reader.next = .ok (instruction, behind)) :
    ∃ after : Cursor, readAll visit (rounds + 1) state cursor =
        readAll visit rounds (visit state cursor.position instruction) after ∧
      after.bytes = cursor.bytes ∧ after.InBounds ∧ after.reader = behind := by
  have htracks := follows_next cursor h
  rw [hnext] at htracks
  rw [readAll, if_neg (mt isAtEnd_iff.1 (rest_ne_nil_of_next hnext))]
  generalize next.run cursor = found at htracks ⊢
  cases htracks with
  | ok a hbytes hbounds hbehind => exact ⟨_, rfl, hbytes, hbounds, hbehind⟩

/-- One more round than there are instructions is enough. -/
theorem readAll_of_reads {reader behind : Reader} {program : List Instruction}
    {fault : Option BytecodeError} (hreads : reader.Reads program behind)
    (hends : behind.Ends fault) (hrounds : program.length ≤ rounds) (h : cursor.InBounds)
    (hreader : cursor.reader = reader) :
    ∃ after : Cursor, readAll visit (rounds + 1) state cursor =
        some (handed visit state cursor.position program, fault, after) ∧
      after.bytes = cursor.bytes ∧ after.InBounds := by
  induction hreads generalizing cursor rounds state with
  | nil behind =>
    subst hreader
    cases hends with
    | completed hrest => exact ⟨cursor, readAll_of_end visit rounds state hrest, rfl, h⟩
    | faulted hrest hnext => apply readAll_of_error visit rounds state h hrest hnext
  | @cons reader middle behind instruction rest head tail ih =>
    subst hreader
    obtain ⟨next, hrun, hbytes, hbounds, hmiddle⟩ := readAll_of_ok visit rounds state h head
    cases rounds with
    | zero => exact absurd hrounds (Nat.not_succ_le_zero _)
    | succ rounds =>
      obtain ⟨after, hloop, hafter, hwithin⟩ :=
        ih rounds (visit state cursor.position instruction) hends
          (Nat.le_of_succ_le_succ hrounds) hbounds hmiddle
      have hposition : next.position = cursor.position + instruction.bytes.length := by
        have hoffset := (next_eq_ok_iff.1 head).2.offset_eq
        rw [← hmiddle] at hoffset
        exact hoffset
      refine ⟨after, ?_, hafter.trans hbytes, hwithin⟩
      rw [hrun, hloop, hposition]
      rfl

end ReadAll

end Cursor

end SealedVault.Bytecode
