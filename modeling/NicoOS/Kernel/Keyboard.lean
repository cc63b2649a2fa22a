import NicoOS.Kernel.Pipe.Order

/-!
# Keyboard input

`kernel/device/keyboard.c`.  The interrupt handler decodes scancodes and puts characters
into a ring buffer, unless the buffer is full; tasks take them out in `keyboard_read`.
-/

namespace NicoOS
namespace Kernel
namespace Keyboard

open Lib
open Pipe (Ringbuffer Outcome putChar putCharResume readChar readCharResume)
open RingOrder (Ordered)

/-!
# Decoding
-/

structure Status where
  ctrlPressed : Bool
  shiftPressed : Bool
  altPressed : Bool
  capsLockPressed : Bool
  extScancode : Bool
  deriving DecidableEq, Repr

def makecodeLeftShift : UInt16 := 0x2a
def makecodeRightShift : UInt16 := 0x36
def makecodeLeftAlt : UInt16 := 0x38
def makecodeRightAlt : UInt16 := 0xe038
def makecodeLeftCtrl : UInt16 := 0x1d
def makecodeRightCtrl : UInt16 := 0xe01d
def makecodeCapsLock : UInt16 := 0x3a

/-- `shift_keymap`, by the scancodes from 0 to 0x3a. -/
def shiftKeymap : List (UInt8 × UInt8) :=
  [ (0x00, 0x00), (0x1b, 0x1b), (0x31, 0x21), (0x32, 0x40), (0x33, 0x23), (0x34, 0x24),
    (0x35, 0x25), (0x36, 0x5e), (0x37, 0x26), (0x38, 0x2a), (0x39, 0x28), (0x30, 0x29),
    (0x2d, 0x5f), (0x3d, 0x2b), (0x08, 0x08), (0x09, 0x09), (0x71, 0x51), (0x77, 0x57),
    (0x65, 0x45), (0x72, 0x52), (0x74, 0x54), (0x79, 0x59), (0x75, 0x75), (0x69, 0x49),
    (0x6f, 0x4f), (0x70, 0x50), (0x5b, 0x7b), (0x5d, 0x7d), (0x0d, 0x0d), (0x00, 0x00),
    (0x61, 0x41), (0x73, 0x53), (0x64, 0x44), (0x66, 0x46), (0x67, 0x47), (0x68, 0x48),
    (0x6a, 0x4a), (0x6b, 0x4b), (0x6c, 0x4c), (0x3b, 0x3a), (0x27, 0x22), (0x60, 0x7e),
    (0x00, 0x00), (0x5c, 0x7c), (0x7a, 0x5a), (0x78, 0x58), (0x63, 0x43), (0x76, 0x56),
    (0x62, 0x42), (0x6e, 0x4e), (0x6d, 0x4d), (0x2c, 0x3c), (0x2e, 0x3e), (0x2f, 0x3f),
    (0x00, 0x00), (0x2a, 0x2a), (0x00, 0x00), (0x20, 0x20), (0x00, 0x00) ]

def resetStatus (makeCode : UInt16) (isBreakCode : Bool) (k : Status) : Status :=
  if makeCode = makecodeLeftCtrl ∨ makeCode = makecodeRightCtrl then
    { k with ctrlPressed := !isBreakCode }
  else if makeCode = makecodeLeftShift ∨ makeCode = makecodeRightShift then
    { k with shiftPressed := !isBreakCode }
  else if makeCode = makecodeLeftAlt ∨ makeCode = makecodeRightAlt then
    { k with altPressed := !isBreakCode }
  else if makeCode = makecodeCapsLock then
    if isBreakCode then k else { k with capsLockPressed := !k.capsLockPressed }
  else
    k

/-- The character of a make code, or `none` for a key without one. -/
def keyChar (scancode : UInt16) (k : Status) : Option UInt8 :=
  let entry := shiftKeymap.getD scancode.toNat (0, 0)
  let shift :=
    if 0x61 ≤ entry.1 ∧ entry.1 ≤ 0x7a then k.shiftPressed ^^ k.capsLockPressed
    else k.shiftPressed || k.capsLockPressed
  let ch := if shift then entry.2 else entry.1
  if ch ≠ 0 then
    let ch := if ch = 0x0d then 0x0a else ch
    some (if ch = 0x64 ∧ k.ctrlPressed then 0 else ch)
  else
    none

/-- The handler up to its test of the ring buffer: the character that it has decoded. -/
def decode (code : UInt8) (k : Status) : Status × Option UInt8 :=
  if code = 0xe0 then
    ({ k with extScancode := true }, none)
  else
    let scancode : UInt16 := if k.extScancode then 0xe000 ||| code.toUInt16 else code.toUInt16
    let k := { k with extScancode := false }
    if scancode &&& 0x0080 ≠ 0 then
      (resetStatus (scancode &&& 0xff7f) true k, none)
    else if (scancode = 0x00 ∨ scancode > 0x3a) ∧ scancode ≠ makecodeRightAlt ∧
        scancode ≠ makecodeRightCtrl then
      (k, none)
    else
      let scancode := scancode &&& 0x00ff
      match keyChar scancode k with
      | some ch => (k, some ch)
      | none => (resetStatus scancode false k, none)

theorem lookup_in_table {scancode : UInt16}
    (h : Not ((scancode = 0x00 ∨ scancode > 0x3a) ∧ scancode ≠ makecodeRightAlt ∧
      scancode ≠ makecodeRightCtrl)) : (scancode &&& 0x00ff).toNat < shiftKeymap.length := by
  have hlen : shiftKeymap.length = 59 := rfl
  rw [hlen]
  by_cases halt : scancode = makecodeRightAlt
  · rw [halt]
    decide
  · by_cases hctrl : scancode = makecodeRightCtrl
    · rw [hctrl]
      decide
    · have hle : Not (scancode > 0x3a) := fun hgt => h ⟨Or.inr hgt, halt, hctrl⟩
      have hle' : Not ((0x3a : UInt16).toNat < scancode.toNat) := hle
      have hand : (scancode &&& 0x00ff).toNat ≤ scancode.toNat := by
        rw [UInt16.toNat_and]
        exact Nat.and_le_left
      have hconst : (0x3a : UInt16).toNat = 58 := rfl
      omega

/-!
# The handler and the readers
-/

def inputBufferSize : UInt32 := 256

/-- The decoder, and the ring buffer with the calls of `keyboard_read` on it. -/
structure State where
  status : Status
  ring : RingOrder.State

def keyboardInit : State :=
  { status :=
      { ctrlPressed := false
        shiftPressed := false
        altPressed := false
        capsLockPressed := false
        extScancode := false }
    ring := RingOrder.start inputBufferSize }

def ringbufferIsfull (rb : Ringbuffer) : Bool := RingQueue.nextPos rb.size rb.head == rb.tail

/-- What a call of the handler comes to. -/
inductive Handled where
  | quiet
  | kept (ch : UInt8)
  | dropped (ch : UInt8)
  | blocked (ch : UInt8)
  | refused (ch : UInt8)
  deriving DecidableEq, Repr

/-- The state behind what `ringbuffer_put_char` did for the handler. -/
def afterPut (s : State) (ch : UInt8) :
    Option (Outcome Unit × Ringbuffer) -> Option (Handled × State)
  | none => none
  | some (Outcome.blocked, rb) =>
      some (Handled.blocked ch, { s with ring := { s.ring with rb := rb } })
  | some (Outcome.refused, rb) =>
      some (Handled.refused ch, { s with ring := { s.ring with rb := rb } })
  | some (Outcome.done (), rb) =>
      some (Handled.kept ch,
        { s with ring := { s.ring with rb := rb, accepted := s.ring.accepted ++ [ch] } })

/--
`keyboard_intr_handler`, which interrupts `task`; `code` is the byte at the port of the
keyboard.  `none` is a failed assertion.
-/
def keyboardIntrHandler (task : Nat) (code : UInt8) (s : State) : Option (Handled × State) :=
  match decode code s.status with
  | (status, none) => some (Handled.quiet, { s with status := status })
  | (status, some ch) =>
      if ringbufferIsfull s.ring.rb then
        some (Handled.dropped ch, { s with status := status })
      else
        afterPut { s with status := status } ch (putChar task ch false s.ring.rb)

inductive Action where
  | interrupt (task : Nat) (code : UInt8)
  | read (task : Nat)
  | resume (task : Nat)

/-- One action; `none` if it is not possible or an assertion fails. -/
def step (s : State) : Action -> Option State
  | Action.interrupt task code =>
      match keyboardIntrHandler task code s with
      | none => none
      | some (_, t) => some t
  | Action.read task =>
      match RingOrder.step s.ring (RingOrder.Action.read task) with
      | none => none
      | some ring => some { s with ring := ring }
  | Action.resume task =>
      match RingOrder.step s.ring (RingOrder.Action.resume task) with
      | none => none
      | some ring => some { s with ring := ring }

/-- The characters that were kept and not read yet. -/
def State.pending (s : State) : List UInt8 := s.ring.pending

/--
The handler drops the character that it has decoded if all places but one are taken, and
puts it into the buffer otherwise.
-/
def Answers (s : State) (task : Nat) (code : UInt8) : Prop :=
  match decode code s.status with
  | (status, none) =>
      keyboardIntrHandler task code s = some (Handled.quiet, { s with status := status })
  | (status, some ch) =>
      (s.pending.length = inputBufferSize.toNat - 1 ∧
        keyboardIntrHandler task code s = some (Handled.dropped ch, { s with status := status })) ∨
      (s.pending.length < inputBufferSize.toNat - 1 ∧
        exists t, keyboardIntrHandler task code s = some (Handled.kept ch, t) ∧
          t.status = status ∧ t.ring.accepted = s.ring.accepted ++ [ch] ∧
          t.ring.delivered = s.ring.delivered ∧ t.pending = s.pending ++ [ch])

/-- No interrupt waits, none is lost while there is a place, and the order is kept. -/
structure InputSound (s : State) : Prop where
  answers : forall task code, Answers s task code
  order : s.ring.delivered <+: s.ring.accepted

/-!
# The places that are left

The handler alone takes units of `empty_sem` and never waits for one, so its value is the
number of places that are left; one of them stays empty.
-/

structure Fed (size : Nat) (rb : Ringbuffer) (pending : List UInt8) (r : Nat) : Prop where
  ordered : Ordered size rb pending r 0
  readOpen : rb.rclosed = false
  writeOpen : rb.wclosed = false
  places : rb.emptySem =
    { val := ((size - pending.length : Nat) : Int), waiting := [], released := [] }
  fullSound : rb.fullSem.Sound
  room : pending.length < size

section Buffer

variable {size : Nat} {rb : Ringbuffer} {pending : List UInt8} {task : Nat}

theorem Fed.isfull_iff (h : Fed size rb pending 0) :
    ringbufferIsfull rb = true <-> pending.length + 1 = size := by
  have hring := h.ordered.ring
  have hsize := h.ordered.size_eq
  have htail := hring.tail_lt
  have hroom := h.room
  unfold ringbufferIsfull RingQueue.nextPos
  rw [beq_iff_eq, hring.head_eq, Nat.mod_add_mod]
  rw [hsize] at htail ⊢
  cases Nat.lt_or_ge (rb.tail + pending.length + 1) size with
  | inl hlt =>
      rw [Nat.mod_eq_of_lt hlt]
      omega
  | inr hge =>
      rw [Nat.mod_eq_sub_mod hge, Nat.mod_eq_of_lt (by omega)]
      omega

/-- A put into a buffer that is not full does not wait. -/
theorem Fed.put (h : Fed size rb pending 0) (task : Nat) (ch : UInt8)
    (hroom : pending.length + 1 < size) :
    exists rb', putChar task ch false rb = some (Outcome.done (), rb') ∧
      Fed size rb' (pending ++ [ch]) 0 := by
  have hordered := RingOrder.putChar_ordered task ch h.ordered
  rcases Turnstile.signal_spec h.fullSound with ⟨sem, hsignal, hsound, -⟩
  have hwait : rb.emptySem.wait task =
      (true, { val := ((size - (pending ++ [ch]).length : Nat) : Int)
               waiting := []
               released := [] }) := by
    have hlen : (pending ++ [ch]).length = pending.length + 1 := by
      rw [List.length_append, List.length_singleton]
    rcases Turnstile.wait_cases rb.emptySem task with ⟨-, heq⟩ | ⟨hlow, -⟩
    · rw [heq, h.places, hlen]
      simp only
      congr 3
      omega
    · rw [h.places] at hlow
      simp only at hlow
      omega
  have hput : putChar task ch false rb = some (Outcome.done (),
      { rb with
        toRingQueue := rb.toRingQueue.push ch
        emptySem :=
          { val := ((size - (pending ++ [ch]).length : Nat) : Int)
            waiting := []
            released := [] }
        fullSem := sem }) := by
    unfold putChar
    rw [h.readOpen, if_neg Bool.false_ne_true, hwait]
    unfold putCharResume
    simp only
    rw [Bool.or_false, if_neg Bool.false_ne_true, hsignal]
  rw [hput] at hordered
  refine ⟨_, hput, hordered, h.readOpen, h.writeOpen, rfl, hsound, ?_⟩
  rw [List.length_append, List.length_singleton]
  exact hroom

/-- A reader with a unit in hand takes the oldest character. -/
theorem Fed.readResume (h : Fed size rb pending 1) :
    exists ch rest rb', readCharResume false rb = some (Outcome.done ch, rb') ∧
      pending = ch :: rest ∧ Fed size rb' rest 0 := by
  have hordered := RingOrder.readCharResume_ordered h.ordered
  have hroom := h.room
  have hgo : (rb.isEmpty && rb.wclosed) = false := by
    rw [h.writeOpen, Bool.and_false]
  have hsignal : rb.emptySem.signal =
      some { val := ((size - pending.length : Nat) : Int) + 1, waiting := [], released := [] } := by
    rw [h.places]
    unfold Turnstile.signal Semaphore.signal
    simp only
    rw [if_neg (by omega)]
    rfl
  have hread : readCharResume false rb = some (Outcome.done rb.toRingQueue.front,
      { rb with
        toRingQueue := rb.toRingQueue.pop
        emptySem :=
          { val := ((size - pending.length : Nat) : Int) + 1
            waiting := []
            released := [] } }) := by
    unfold readCharResume
    rw [hgo, Bool.or_false, if_neg Bool.false_ne_true, hsignal]
  rw [hread] at hordered
  rcases hordered with ⟨rest, hpending, hordered⟩
  refine ⟨_, rest, _, hread, hpending, hordered, h.readOpen, h.writeOpen, ?_, h.fullSound, ?_⟩
  · rw [hpending, List.length_cons] at hroom ⊢
    show ({ val := _, waiting := [], released := [] } : Turnstile) = _
    congr 2
    omega
  · rw [hpending, List.length_cons] at hroom
    omega

theorem Fed.read (h : Fed size rb pending 0) (task : Nat) :
    (exists rb', readChar task false rb = some (Outcome.blocked, rb') ∧
        Fed size rb' pending 0) ∨
      exists ch rest rb', readChar task false rb = some (Outcome.done ch, rb') ∧
        pending = ch :: rest ∧ Fed size rb' rest 0 := by
  have hordered := RingOrder.readChar_ordered task h.ordered
  have hgo : (rb.isEmpty && rb.wclosed) = false := by
    rw [h.writeOpen, Bool.and_false]
  have hfull := Turnstile.wait_sound h.fullSound task
  unfold readChar at hordered ⊢
  rw [hgo, if_neg Bool.false_ne_true] at hordered ⊢
  rcases hwait : rb.fullSem.wait task with ⟨passed, sem⟩
  rw [hwait] at hordered hfull
  cases passed with
  | false => exact Or.inl ⟨_, rfl, hordered, h.readOpen, h.writeOpen, h.places, hfull, h.room⟩
  | true =>
      right
      have hunits := Turnstile.wait_units_pass (congrArg Prod.fst hwait)
      rw [hwait] at hunits
      have hin : Fed size { rb with fullSem := sem } pending 1 := by
        refine ⟨⟨h.ordered.ring, h.ordered.size_eq, ?_, h.ordered.empty⟩, h.readOpen, h.writeOpen,
          h.places, hfull, h.room⟩
        intro hopen
        have hunitsFull := h.ordered.full hopen
        show sem.units + 1 ≤ pending.length
        lia
      exact hin.readResume

end Buffer

/-!
# Every interleaving
-/

/-- Only readers wait, and the buffer holds what was kept and not read. -/
structure Quiet (size : Nat) (s : State) (pending : List UInt8) : Prop where
  fed : Fed size s.ring.rb pending 0
  split : s.ring.accepted = s.ring.delivered ++ pending
  readers : forall task, s.ring.calls task = RingOrder.Call.idle ∨
    s.ring.calls task = RingOrder.Call.reading

section Runs

variable {size : Nat} {s t : State} {pending : List UInt8} {task : Nat} {code : UInt8}

theorem Quiet.pending_eq (h : Quiet size s pending) : s.pending = pending := by
  unfold State.pending RingOrder.State.pending
  rw [h.split, List.drop_left]

theorem Quiet.setStatus (h : Quiet size s pending) (status : Status) :
    Quiet size { s with status := status } pending :=
  ⟨h.fed, h.split, h.readers⟩

theorem Quiet.handles (h : Quiet size s pending) (task : Nat) (ch : UInt8) :
    (pending.length + 1 = size ∧ ringbufferIsfull s.ring.rb = true) ∨
      (pending.length + 1 < size ∧ ringbufferIsfull s.ring.rb = false ∧
        exists rb', afterPut s ch (putChar task ch false s.ring.rb) =
            some (Handled.kept ch,
              { s with ring := { s.ring with rb := rb', accepted := s.ring.accepted ++ [ch] } }) ∧
          Quiet size
            { s with ring := { s.ring with rb := rb', accepted := s.ring.accepted ++ [ch] } }
            (pending ++ [ch])) := by
  have hroom := h.fed.room
  by_cases hfull : pending.length + 1 = size
  · exact Or.inl ⟨hfull, h.fed.isfull_iff.mpr hfull⟩
  · right
    have hless : pending.length + 1 < size := by omega
    rcases h.fed.put task ch hless with ⟨rb', hput, hfed⟩
    refine ⟨hless, ?_, rb', ?_, hfed, ?_, h.readers⟩
    · exact eq_false_of_ne_true (fun htrue => hfull (h.fed.isfull_iff.mp htrue))
    · rw [hput]
      rfl
    · show s.ring.accepted ++ [ch] = s.ring.delivered ++ (pending ++ [ch])
      rw [h.split, List.append_assoc]

theorem Quiet.answers (h : Quiet inputBufferSize.toNat s pending) (task : Nat) (code : UInt8) :
    Answers s task code := by
  unfold Answers keyboardIntrHandler
  rw [h.pending_eq]
  rcases decode code s.status with ⟨status, produced⟩
  cases produced with
  | none => rfl
  | some ch =>
      simp only
      rcases (h.setStatus status).handles task ch with
        ⟨hlen, hfull⟩ | ⟨hless, hroom, rb', hput, hquiet⟩
      · left
        refine ⟨by omega, ?_⟩
        rw [if_pos hfull]
      · right
        have hnot : Not (ringbufferIsfull s.ring.rb = true) := by
          rw [hroom]
          exact Bool.false_ne_true
        exact ⟨by omega, _, (if_neg hnot).trans hput, rfl, rfl, rfl, hquiet.pending_eq⟩

theorem Quiet.interrupt (h : Quiet size s pending)
    (hstep : step s (Action.interrupt task code) = some t) :
    exists pending', Quiet size t pending' := by
  simp only [Keyboard.step, keyboardIntrHandler] at hstep
  rcases hdecode : decode code s.status with ⟨status, produced⟩
  rw [hdecode] at hstep
  cases produced with
  | none =>
      cases hstep
      exact ⟨pending, h.setStatus status⟩
  | some ch =>
      simp only at hstep
      rcases (h.setStatus status).handles task ch with
        ⟨-, hfull⟩ | ⟨-, hroom, rb', hput, hquiet⟩
      · rw [if_pos hfull] at hstep
        cases hstep
        exact ⟨pending, h.setStatus status⟩
      · rw [if_neg (by rw [hroom]; exact Bool.false_ne_true), hput] at hstep
        cases hstep
        exact ⟨pending ++ [ch], hquiet⟩

theorem Quiet.setCall {ring : RingOrder.State} {c : RingOrder.Call}
    (h : Quiet size { s with ring := ring } pending)
    (hc : c = RingOrder.Call.idle ∨ c = RingOrder.Call.reading) :
    Quiet size { s with ring := ring.setCall task c } pending where
  fed := h.fed
  split := h.split
  readers u := by
    show (if u = task then c else ring.calls u) = _ ∨ (if u = task then c else ring.calls u) = _
    split
    · exact hc
    · exact h.readers u

theorem Quiet.afterRead {result : Option (Outcome UInt8 × Ringbuffer)} {ring : RingOrder.State}
    (h : Quiet size s pending)
    (hresult : (exists rb', result = some (Outcome.blocked, rb') ∧ Fed size rb' pending 0) ∨
      exists ch rest rb', result = some (Outcome.done ch, rb') ∧ pending = ch :: rest ∧
        Fed size rb' rest 0)
    (hstep : RingOrder.afterRead s.ring task result = some ring) :
    exists pending', Quiet size { s with ring := ring } pending' := by
  rcases hresult with ⟨rb', hresult, hfed⟩ | ⟨ch, rest, rb', hresult, hpending, hfed⟩
  · rw [hresult] at hstep
    cases hstep
    have hnext : Quiet size { s with ring := { s.ring with rb := rb' } } pending :=
      ⟨hfed, h.split, h.readers⟩
    exact ⟨pending, hnext.setCall (Or.inr rfl)⟩
  · rw [hresult] at hstep
    cases hstep
    have hsplit : s.ring.accepted = s.ring.delivered ++ [ch] ++ rest := by
      rw [h.split, hpending, List.append_assoc]
      rfl
    have hnext : Quiet size { s with ring :=
        { s.ring with rb := rb', delivered := s.ring.delivered ++ [ch] } } rest :=
      ⟨hfed, hsplit, h.readers⟩
    exact ⟨rest, hnext.setCall (Or.inl rfl)⟩

theorem Quiet.reads (h : Quiet size s pending)
    (hstep : step s (Action.read task) = some t) : exists pending', Quiet size t pending' := by
  simp only [Keyboard.step] at hstep
  cases hring : RingOrder.step s.ring (RingOrder.Action.read task) with
  | none =>
      rw [hring] at hstep
      cases hstep
  | some ring =>
      rw [hring] at hstep
      cases hstep
      simp only [RingOrder.step] at hring
      split at hring
      · exact h.afterRead (h.fed.read task) hring
      · cases hring

theorem Quiet.resumes (h : Quiet size s pending)
    (hstep : step s (Action.resume task) = some t) : exists pending', Quiet size t pending' := by
  simp only [Keyboard.step] at hstep
  cases hring : RingOrder.step s.ring (RingOrder.Action.resume task) with
  | none =>
      rw [hring] at hstep
      cases hstep
  | some ring =>
      rw [hring] at hstep
      cases hstep
      simp only [RingOrder.step, RingOrder.resume] at hring
      rcases h.readers task with hidle | hreading
      · rw [hidle] at hring
        cases hring
      · simp only [hreading] at hring
        split at hring
        · rename_i hmem
          have hin : Fed size { s.ring.rb with fullSem := s.ring.rb.fullSem.resume task } pending
              1 :=
            ⟨h.fed.ordered.resumeRead hmem, h.fed.readOpen, h.fed.writeOpen, h.fed.places,
              h.fed.fullSound, h.fed.room⟩
          exact h.afterRead (Or.inr hin.readResume) hring
        · cases hring

theorem Quiet.step (h : Quiet size s pending) {a : Action} (hstep : Keyboard.step s a = some t) :
    exists pending', Quiet size t pending' := by
  cases a with
  | interrupt task code => exact h.interrupt hstep
  | read task => exact h.reads hstep
  | resume task => exact h.resumes hstep

end Runs

theorem keyboardInit_quiet : Quiet inputBufferSize.toNat keyboardInit [] where
  fed :=
    { ordered := RingOrder.ringbufferInit_ordered (by decide)
      readOpen := rfl
      writeOpen := rfl
      places := rfl
      fullSound := Semaphore.init_sound (Int.le_refl 0)
      room := by decide }
  split := rfl
  readers _ := Or.inl rfl

/--
In every interleaving of keyboard interrupts with readers the handler never waits, it drops
a character only if all places but one are taken, and what was read is a prefix of what
was not dropped.
-/
theorem keyboard_input_sound {s : State}
    (h : Reaches step (fun _ _ => True) keyboardInit s) : InputSound s := by
  have hquiet : exists pending, Quiet inputBufferSize.toNat s pending := by
    apply h.invariant (P := fun s => exists pending, Quiet inputBufferSize.toNat s pending)
    · exact ⟨[], keyboardInit_quiet⟩
    · intro r t a hr _ hstep
      rcases hr with ⟨pending, hr⟩
      exact hr.step hstep
  rcases hquiet with ⟨pending, hquiet⟩
  exact ⟨hquiet.answers, pending, hquiet.split.symm⟩

/-- A reader waits; shift and `a` are typed, and the reader gets the letter. -/
def oneLetter : List Action :=
  [Action.read 1, Action.interrupt 0 0x2a, Action.interrupt 0 0x1e, Action.resume 1]

theorem keyboard_input_sound_oneLetter :
    exists s, runFrom step keyboardInit oneLetter = some s ∧ InputSound s := by
  have hcheck : runCheck step (fun _ _ => true) keyboardInit oneLetter = true := by decide
  have hsome : (runFrom step keyboardInit oneLetter).isSome = true := by decide
  have htest : forall (s : State) (a : Action), true = true -> True := fun _ _ _ => trivial
  rcases reaches_of_runCheck htest hcheck hsome with ⟨s, hrun, hreach⟩
  exact ⟨s, hrun, keyboard_input_sound hreach⟩

end Keyboard
end Kernel
end NicoOS
