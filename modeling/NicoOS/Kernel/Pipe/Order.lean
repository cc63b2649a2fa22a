import NicoOS.Kernel.Pipe.Model

/-!
# The order of the characters in a ring buffer

`kernel/ringbuffer.c` used by any number of tasks, with a buffer of any size.  A
call runs until it blocks in `sem_wait`; `ringbuffer_close` takes no lock, so other
tasks may run between its two statements.
-/

namespace NicoOS
namespace Kernel
namespace RingOrder

open Lib
open Pipe (Ringbuffer Outcome putChar putCharResume readChar readCharResume)

/-- `ringbuffer_init`; `sem_init` takes the size as an `int32_t`. -/
def ringbufferInit (size : UInt32) : Ringbuffer :=
  { Pipe.ringbufferInit size.toNat with emptySem := Turnstile.init size.toInt32.toInt }

inductive Call where
  | idle
  | putting (ch : UInt8)
  | reading
  | closing (writable : Bool)

/-- The ring buffer, the calls on it, and the characters put and read so far. -/
structure State where
  rb : Ringbuffer
  calls : Nat -> Call
  accepted : List UInt8
  delivered : List UInt8

def start (size : UInt32) : State :=
  { rb := ringbufferInit size
    calls := fun _ => Call.idle
    accepted := []
    delivered := [] }

def State.setCall (s : State) (task : Nat) (c : Call) : State :=
  { s with calls := fun t => if t = task then c else s.calls t }

/-- The state behind what `ringbuffer_put_char` did. -/
def afterPut (s : State) (task : Nat) (ch : UInt8) :
    Option (Outcome Unit × Ringbuffer) -> Option State
  | none => none
  | some (Outcome.blocked, rb) => some ({ s with rb := rb }.setCall task (Call.putting ch))
  | some (Outcome.refused, rb) => some ({ s with rb := rb }.setCall task Call.idle)
  | some (Outcome.done (), rb) =>
      some ({ s with rb := rb, accepted := s.accepted ++ [ch] }.setCall task Call.idle)

/-- The state behind what `ringbuffer_read_char` did. -/
def afterRead (s : State) (task : Nat) :
    Option (Outcome UInt8 × Ringbuffer) -> Option State
  | none => none
  | some (Outcome.blocked, rb) => some ({ s with rb := rb }.setCall task Call.reading)
  | some (Outcome.refused, rb) => some ({ s with rb := rb }.setCall task Call.idle)
  | some (Outcome.done ch, rb) =>
      some ({ s with rb := rb, delivered := s.delivered ++ [ch] }.setCall task Call.idle)

def markClosed (writable : Bool) (rb : Ringbuffer) : Ringbuffer :=
  if writable then { rb with wclosed := true } else { rb with rclosed := true }

def wakeAll (writable : Bool) (rb : Ringbuffer) : Option Ringbuffer :=
  if writable then
    match rb.fullSem.signalAll with
    | none => none
    | some sem => some { rb with fullSem := sem }
  else
    match rb.emptySem.signalAll with
    | none => none
    | some sem => some { rb with emptySem := sem }

inductive Action where
  | put (task : Nat) (ch : UInt8)
  | read (task : Nat)
  | close (task : Nat) (writable : Bool)
  | resume (task : Nat)

/-- A call in progress goes on; one that waits in a queue cannot. -/
def resume (task : Nat) (s : State) : Option State :=
  match s.calls task with
  | Call.idle => none
  | Call.putting ch =>
      if task ∈ s.rb.emptySem.released then
        afterPut s task ch
          (putCharResume ch false { s.rb with emptySem := s.rb.emptySem.resume task })
      else
        none
  | Call.reading =>
      if task ∈ s.rb.fullSem.released then
        afterRead s task
          (readCharResume false { s.rb with fullSem := s.rb.fullSem.resume task })
      else
        none
  | Call.closing writable =>
      match wakeAll writable s.rb with
      | none => none
      | some rb => some ({ s with rb := rb }.setCall task Call.idle)

/-- One action; `none` if it is not possible or an assertion fails. -/
def step (s : State) : Action -> Option State
  | Action.put task ch =>
      match s.calls task with
      | Call.idle => afterPut s task ch (putChar task ch false s.rb)
      | _ => none
  | Action.read task =>
      match s.calls task with
      | Call.idle => afterRead s task (readChar task false s.rb)
      | _ => none
  | Action.close task writable =>
      match s.calls task with
      | Call.idle =>
          some ({ s with rb := markClosed writable s.rb }.setCall task (Call.closing writable))
      | _ => none
  | Action.resume task => resume task s

/-- The characters that were put and not read yet. -/
def State.pending (s : State) : List UInt8 := s.accepted.drop s.delivered.length

/-- What is read comes in the order of the puts, and the buffer holds the rest. -/
structure InOrder (size : Nat) (s : State) : Prop where
  order : s.delivered <+: s.accepted
  bounded : s.pending.length ≤ size
  intact : forall k (h : k < s.pending.length),
    s.rb.buf ((s.rb.tail + k) % size) = s.pending.get ⟨k, h⟩

/-!
# Units and pending characters

While the write end is open there are at least as many pending characters as
units of `full_sem`, and while the read end is open there is a free place for each
unit of `empty_sem`.  A call behind its `sem_wait` has `r` or `w` units in hand.
-/

structure Ordered (size : Nat) (rb : Ringbuffer) (pending : List UInt8) (r w : Nat) : Prop where
  ring : rb.toRingQueue.Holds pending
  size_eq : rb.size = size
  full : rb.wclosed = false -> rb.fullSem.units + r ≤ pending.length
  empty : rb.rclosed = false -> pending.length + rb.emptySem.units + w ≤ size

variable {size : Nat} {rb : Ringbuffer} {pending : List UInt8}

/-- What a successful call does to the pending characters. -/
def PutResult (size : Nat) (pending : List UInt8) (ch : UInt8) :
    Option (Outcome Unit × Ringbuffer) -> Prop
  | none => True
  | some (Outcome.done (), rb') => Ordered size rb' (pending ++ [ch]) 0 0
  | some (_, rb') => Ordered size rb' pending 0 0

def ReadResult (size : Nat) (pending : List UInt8) :
    Option (Outcome UInt8 × Ringbuffer) -> Prop
  | none => True
  | some (Outcome.done ch, rb') => exists rest, pending = ch :: rest ∧ Ordered size rb' rest 0 0
  | some (_, rb') => Ordered size rb' pending 0 0

theorem ringbufferInit_ordered {size : UInt32} (h : 1 ≤ size.toNat) :
    Ordered size.toNat (ringbufferInit size) [] 0 0 := by
  constructor
  · exact ⟨h, Nat.zero_le _, (Nat.zero_mod _).symm, fun k hk => by cases hk⟩
  · rfl
  · intro _
    exact Nat.le_refl 0
  · intro _
    have hval : size.toInt32.toInt.toNat ≤ size.toNat := by
      show size.toBitVec.toInt.toNat ≤ size.toBitVec.toNat
      rw [BitVec.toInt_eq_toNat_cond]
      split
      · lia
      · have hlt := size.toBitVec.isLt
        lia
    show 0 + (size.toInt32.toInt.toNat + 0) + 0 ≤ size.toNat
    lia

theorem putCharResume_ordered (ch : UInt8) (h : Ordered size rb pending 0 1) :
    PutResult size pending ch (putCharResume ch false rb) := by
  unfold putCharResume
  rw [Bool.or_false]
  cases hclosed : rb.rclosed with
  | true =>
      refine ⟨h.ring, h.size_eq, h.full, ?_⟩
      intro hopen
      rw [hclosed] at hopen
      cases hopen
  | false =>
      rw [if_neg Bool.false_ne_true]
      have hroom := h.empty hclosed
      have hsize := h.size_eq
      cases hsignal : rb.fullSem.signal with
      | none => exact trivial
      | some sem =>
          have hunits := Turnstile.signal_units hsignal
          refine ⟨h.ring.push (by lia) ch, hsize, ?_, ?_⟩
          · intro hopen
            have hfull := h.full hopen
            show sem.units + 0 ≤ (pending ++ [ch]).length
            rw [List.length_append, List.length_singleton]
            lia
          · intro _
            show (pending ++ [ch]).length + rb.emptySem.units + 0 ≤ size
            rw [List.length_append, List.length_singleton]
            lia

theorem putChar_ordered (task : Nat) (ch : UInt8) (h : Ordered size rb pending 0 0) :
    PutResult size pending ch (putChar task ch false rb) := by
  unfold putChar
  cases hclosed : rb.rclosed with
  | true => exact h
  | false =>
      have hroom := h.empty hclosed
      rw [if_neg Bool.false_ne_true]
      rcases hwait : rb.emptySem.wait task with ⟨passed, sem⟩
      cases passed with
      | false =>
          have hunits := Turnstile.wait_units_block (congrArg Prod.fst hwait)
          rw [hwait] at hunits
          refine ⟨h.ring, h.size_eq, h.full, ?_⟩
          intro _
          show pending.length + sem.units + 0 ≤ size
          lia
      | true =>
          have hunits := Turnstile.wait_units_pass (congrArg Prod.fst hwait)
          rw [hwait] at hunits
          refine putCharResume_ordered ch ⟨h.ring, h.size_eq, h.full, ?_⟩
          intro _
          show pending.length + sem.units + 1 ≤ size
          lia

theorem Ordered.pending_ne_nil (h : Ordered size rb pending 1 0)
    (hgo : (rb.isEmpty && rb.wclosed) = false) : pending ≠ [] := by
  intro hnil
  have hempty : rb.isEmpty = true := by
    unfold Ringbuffer.isEmpty
    rw [beq_iff_eq, h.ring.head_eq_tail_iff, hnil]
    exact Or.inl rfl
  rw [hempty, Bool.true_and] at hgo
  have hfull := h.full hgo
  rw [hnil, List.length_nil] at hfull
  lia

theorem readCharResume_ordered (h : Ordered size rb pending 1 0) :
    ReadResult size pending (readCharResume false rb) := by
  unfold readCharResume
  rw [Bool.or_false]
  cases hgo : (rb.isEmpty && rb.wclosed) with
  | true =>
      have hclosed := (Bool.and_eq_true_iff.mp hgo).right
      refine ⟨h.ring, h.size_eq, ?_, h.empty⟩
      intro hopen
      rw [hclosed] at hopen
      cases hopen
  | false =>
      rw [if_neg Bool.false_ne_true]
      cases pending with
      | nil => exact absurd rfl (h.pending_ne_nil hgo)
      | cons ch rest =>
          cases hsignal : rb.emptySem.signal with
          | none => exact trivial
          | some sem =>
              have hunits := Turnstile.signal_units hsignal
              show ReadResult size (ch :: rest) (some (Outcome.done rb.toRingQueue.front,
                { rb with toRingQueue := rb.toRingQueue.pop, emptySem := sem }))
              rw [h.ring.front]
              refine ⟨rest, rfl, h.ring.pop, h.size_eq, ?_, ?_⟩
              · intro hopen
                have hfull := h.full hopen
                rw [List.length_cons] at hfull
                exact Nat.le_of_succ_le_succ hfull
              · intro hopen
                have hroom := h.empty hopen
                rw [List.length_cons] at hroom
                show rest.length + sem.units + 0 ≤ size
                lia

theorem readChar_ordered (task : Nat) (h : Ordered size rb pending 0 0) :
    ReadResult size pending (readChar task false rb) := by
  unfold readChar
  split
  · exact h
  · rcases hwait : rb.fullSem.wait task with ⟨passed, sem⟩
    cases passed with
    | false =>
        have hunits := Turnstile.wait_units_block (congrArg Prod.fst hwait)
        rw [hwait] at hunits
        refine ⟨h.ring, h.size_eq, ?_, h.empty⟩
        intro hopen
        have hfull := h.full hopen
        show sem.units + 0 ≤ pending.length
        lia
    | true =>
        have hunits := Turnstile.wait_units_pass (congrArg Prod.fst hwait)
        rw [hwait] at hunits
        refine readCharResume_ordered ⟨h.ring, h.size_eq, ?_, h.empty⟩
        intro hopen
        have hfull := h.full hopen
        show sem.units + 1 ≤ pending.length
        lia

/-- The calls that were woken up have their unit in hand. -/
theorem Ordered.resumeWrite {task : Nat} (h : Ordered size rb pending 0 0)
    (hmem : task ∈ rb.emptySem.released) :
    Ordered size { rb with emptySem := rb.emptySem.resume task } pending 0 1 := by
  have hunits := Turnstile.resume_units hmem
  refine ⟨h.ring, h.size_eq, h.full, ?_⟩
  intro hopen
  have hroom := h.empty hopen
  show pending.length + (rb.emptySem.resume task).units + 1 ≤ size
  lia

theorem Ordered.resumeRead {task : Nat} (h : Ordered size rb pending 0 0)
    (hmem : task ∈ rb.fullSem.released) :
    Ordered size { rb with fullSem := rb.fullSem.resume task } pending 1 0 := by
  have hunits := Turnstile.resume_units hmem
  refine ⟨h.ring, h.size_eq, ?_, h.empty⟩
  intro hopen
  have hfull := h.full hopen
  show (rb.fullSem.resume task).units + 1 ≤ pending.length
  lia

/-!
# Every interleaving
-/

def Marked (rb : Ringbuffer) : Call -> Prop
  | Call.closing true => rb.wclosed = true
  | Call.closing false => rb.rclosed = true
  | _ => True

structure Sound (size : Nat) (s : State) (pending : List UInt8) : Prop where
  rb : Ordered size s.rb pending 0 0
  split : s.accepted = s.delivered ++ pending
  marked : forall task, Marked s.rb (s.calls task)

structure Closes (rb rb' : Ringbuffer) : Prop where
  reading : rb.rclosed = true -> rb'.rclosed = true
  writing : rb.wclosed = true -> rb'.wclosed = true

theorem Marked.mono {rb' : Ringbuffer} {c : Call} (h : Marked rb c) (hrb : Closes rb rb') :
    Marked rb' c := by
  cases c with
  | closing writable =>
      cases writable with
      | true => exact hrb.writing h
      | false => exact hrb.reading h
  | _ => exact trivial

theorem Closes.refl (rb : Ringbuffer) : Closes rb rb := ⟨fun h => h, fun h => h⟩

variable {s t : State} {task : Nat}

/-- One call moves on; the others keep what they rely on. -/
theorem Sound.setCall {s' : State} {c : Call} (h : Sound size s pending)
    (hcalls : s'.calls = s.calls) (hrb : Closes s.rb s'.rb) (hc : Marked s'.rb c) :
    forall u, Marked s'.rb ((s'.setCall task c).calls u) := by
  intro u
  show Marked s'.rb (if u = task then c else s'.calls u)
  split
  · exact hc
  · rw [hcalls]
    exact (h.marked u).mono hrb

/-- The ends of the buffer as a call leaves them. -/
def SameEnds {α : Type} (rb : Ringbuffer) : Option (Outcome α × Ringbuffer) -> Prop
  | none => True
  | some (_, rb') => Closes rb rb'

theorem putCharResume_ends (ch : UInt8) (killed : Bool) {rb' : Ringbuffer}
    (h : Closes rb rb') : SameEnds rb (putCharResume ch killed rb') := by
  unfold putCharResume
  split
  · exact h
  · cases rb'.fullSem.signal with
    | none => exact trivial
    | some sem => exact ⟨h.reading, h.writing⟩

theorem putChar_ends (ch : UInt8) (killed : Bool) (rb : Ringbuffer) :
    SameEnds rb (putChar task ch killed rb) := by
  unfold putChar
  split
  · exact Closes.refl rb
  · rcases rb.emptySem.wait task with ⟨passed, sem⟩
    cases passed with
    | false => exact ⟨fun h => h, fun h => h⟩
    | true => exact putCharResume_ends ch killed ⟨fun h => h, fun h => h⟩

theorem readCharResume_ends (killed : Bool) {rb' : Ringbuffer} (h : Closes rb rb') :
    SameEnds rb (readCharResume killed rb') := by
  unfold readCharResume
  split
  · exact h
  · cases rb'.emptySem.signal with
    | none => exact trivial
    | some sem => exact ⟨h.reading, h.writing⟩

theorem readChar_ends (killed : Bool) (rb : Ringbuffer) :
    SameEnds rb (readChar task killed rb) := by
  unfold readChar
  split
  · exact Closes.refl rb
  · rcases rb.fullSem.wait task with ⟨passed, sem⟩
    cases passed with
    | false => exact ⟨fun h => h, fun h => h⟩
    | true => exact readCharResume_ends killed ⟨fun h => h, fun h => h⟩

theorem afterPut_sound {ch : UInt8} {result : Option (Outcome Unit × Ringbuffer)}
    (h : Sound size s pending) (hresult : PutResult size pending ch result)
    (hends : SameEnds s.rb result) (hstep : afterPut s task ch result = some t) :
    exists pending', Sound size t pending' := by
  match result, hresult, hends, hstep with
  | some (Outcome.blocked, rb'), hrb, hends, hstep =>
      cases hstep
      exact ⟨pending, hrb, h.split, h.setCall rfl hends trivial⟩
  | some (Outcome.refused, rb'), hrb, hends, hstep =>
      cases hstep
      exact ⟨pending, hrb, h.split, h.setCall rfl hends trivial⟩
  | some (Outcome.done (), rb'), hrb, hends, hstep =>
      cases hstep
      refine ⟨pending ++ [ch], hrb, ?_, h.setCall rfl hends trivial⟩
      show s.accepted ++ [ch] = s.delivered ++ (pending ++ [ch])
      rw [h.split, List.append_assoc]

theorem afterRead_sound {result : Option (Outcome UInt8 × Ringbuffer)}
    (h : Sound size s pending) (hresult : ReadResult size pending result)
    (hends : SameEnds s.rb result) (hstep : afterRead s task result = some t) :
    exists pending', Sound size t pending' := by
  match result, hresult, hends, hstep with
  | some (Outcome.blocked, rb'), hrb, hends, hstep =>
      cases hstep
      exact ⟨pending, hrb, h.split, h.setCall rfl hends trivial⟩
  | some (Outcome.refused, rb'), hrb, hends, hstep =>
      cases hstep
      exact ⟨pending, hrb, h.split, h.setCall rfl hends trivial⟩
  | some (Outcome.done ch, rb'), ⟨rest, hcons, hrb⟩, hends, hstep =>
      cases hstep
      refine ⟨rest, hrb, ?_, h.setCall rfl hends trivial⟩
      show s.accepted = s.delivered ++ [ch] ++ rest
      rw [h.split, hcons, List.append_assoc]
      rfl

theorem markClosed_sound (h : Sound size s pending) (writable : Bool) :
    Sound size ({ s with rb := markClosed writable s.rb }.setCall task
      (Call.closing writable)) pending := by
  cases writable with
  | true =>
      refine ⟨⟨h.rb.ring, h.rb.size_eq, ?_, h.rb.empty⟩, h.split,
        h.setCall rfl ⟨fun hr => hr, fun _ => rfl⟩ rfl⟩
      intro hopen
      cases hopen
  | false =>
      refine ⟨⟨h.rb.ring, h.rb.size_eq, h.rb.full, ?_⟩, h.split,
        h.setCall rfl ⟨fun _ => rfl, fun hw => hw⟩ rfl⟩
      intro hopen
      cases hopen

/-- Waking up the waiting calls adds units on a side that is closed. -/
theorem wakeAll_sound {writable : Bool} {rb' : Ringbuffer} (h : Sound size s pending)
    (hmarked : Marked s.rb (Call.closing writable)) (hwake : wakeAll writable s.rb = some rb') :
    Ordered size rb' pending 0 0 ∧ Closes s.rb rb' := by
  unfold wakeAll at hwake
  cases writable with
  | true =>
      rw [if_pos rfl] at hwake
      split at hwake
      · cases hwake
      · cases hwake
        refine ⟨⟨h.rb.ring, h.rb.size_eq, ?_, h.rb.empty⟩, fun hr => hr, fun hw => hw⟩
        intro hopen
        have hclosed : s.rb.wclosed = true := hmarked
        exact absurd hclosed (ne_true_of_eq_false hopen)
  | false =>
      rw [if_neg Bool.false_ne_true] at hwake
      split at hwake
      · cases hwake
      · cases hwake
        refine ⟨⟨h.rb.ring, h.rb.size_eq, h.rb.full, ?_⟩, fun hr => hr, fun hw => hw⟩
        intro hopen
        have hclosed : s.rb.rclosed = true := hmarked
        exact absurd hclosed (ne_true_of_eq_false hopen)

theorem resume_sound (h : Sound size s pending) (hstep : resume task s = some t) :
    exists pending', Sound size t pending' := by
  have hmarked := h.marked task
  unfold resume at hstep
  cases hcall : s.calls task with
  | idle =>
      rw [hcall] at hstep
      cases hstep
  | putting ch =>
      simp only [hcall] at hstep
      split at hstep
      · rename_i hmem
        exact afterPut_sound h (putCharResume_ordered ch (h.rb.resumeWrite hmem))
          (putCharResume_ends ch false ⟨fun hr => hr, fun hw => hw⟩) hstep
      · cases hstep
  | reading =>
      simp only [hcall] at hstep
      split at hstep
      · rename_i hmem
        exact afterRead_sound h (readCharResume_ordered (h.rb.resumeRead hmem))
          (readCharResume_ends false ⟨fun hr => hr, fun hw => hw⟩) hstep
      · cases hstep
  | closing writable =>
      rw [hcall] at hmarked
      simp only [hcall] at hstep
      cases hwake : wakeAll writable s.rb with
      | none =>
          rw [hwake] at hstep
          cases hstep
      | some rb' =>
          rw [hwake] at hstep
          cases hstep
          rcases wakeAll_sound h hmarked hwake with ⟨hrb, hends⟩
          exact ⟨pending, hrb, h.split, h.setCall rfl hends trivial⟩

theorem step_sound {a : Action} (h : Sound size s pending) (hstep : step s a = some t) :
    exists pending', Sound size t pending' := by
  cases a with
  | put task ch =>
      simp only [step] at hstep
      split at hstep
      · exact afterPut_sound h (putChar_ordered task ch h.rb) (putChar_ends ch false s.rb) hstep
      · cases hstep
  | read task =>
      simp only [step] at hstep
      split at hstep
      · exact afterRead_sound h (readChar_ordered task h.rb) (readChar_ends false s.rb) hstep
      · cases hstep
  | close task writable =>
      simp only [step] at hstep
      split at hstep
      · cases hstep
        exact ⟨pending, markClosed_sound h writable⟩
      · cases hstep
  | resume task => exact resume_sound h hstep

theorem Sound.inOrder (h : Sound size s pending) : InOrder size s := by
  have hpending : s.pending = pending := by
    unfold State.pending
    rw [h.split, List.drop_left]
  refine ⟨⟨pending, h.split.symm⟩, ?_, ?_⟩
  · rw [hpending, ← h.rb.size_eq]
    exact h.rb.ring.length_le
  · have helems := h.rb.ring.elems
    rw [h.rb.size_eq] at helems
    rw [hpending]
    exact helems

/--
Whatever puts, reads and closes are interleaved, the characters read are a
prefix of the characters put, and the ring holds the characters in between.
-/
theorem ringbuffer_in_order (size : UInt32) (hsize : 1 ≤ size.toNat) {s : State}
    (h : Reaches step (fun _ _ => True) (start size) s) : InOrder size.toNat s := by
  have hsound : exists pending, Sound size.toNat s pending := by
    apply h.invariant (P := fun s => exists pending, Sound size.toNat s pending)
    · exact ⟨[], ringbufferInit_ordered hsize, rfl, fun _ => trivial⟩
    · intro r t a hr _ hstep
      rcases hr with ⟨pending, hr⟩
      exact step_sound hr hstep
  rcases hsound with ⟨pending, hsound⟩
  exact hsound.inOrder

/-- A buffer of one character, a writer that blocks, a reader and a close. -/
def tightRun : List Action :=
  [Action.put 0 97, Action.put 0 98, Action.read 1, Action.resume 0, Action.close 0 true,
    Action.resume 0]

theorem ringbuffer_in_order_tightRun :
    exists s, runFrom step (start 1) tightRun = some s ∧ InOrder 1 s := by
  have hcheck : runCheck step (fun _ _ => true) (start 1) tightRun = true := by decide
  have hsome : (runFrom step (start 1) tightRun).isSome = true := by decide
  have htest : forall (s : State) (a : Action), true = true -> True := fun _ _ _ => trivial
  rcases reaches_of_runCheck htest hcheck hsome with ⟨s, hrun, hreach⟩
  exact ⟨s, hrun, ringbuffer_in_order 1 (Nat.le_refl 1) hreach⟩

end RingOrder
end Kernel
end NicoOS
