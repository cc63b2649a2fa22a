import NicoOS.Kernel.Pipe.Model

/-!
# What a pipe delivers

The units of the two semaphores count the pending bytes and the free places as
long as the ends are open.  With the write end closed only the positions of the
ring tell whether bytes are pending, and they do so unless the ring is full.
-/

namespace NicoOS
namespace Kernel
namespace Pipe

open Lib

/--
The ring buffer holds the pending bytes.  A call behind its `sem_wait` has `r`
units of `full_sem`, or `w` units of `empty_sem`, in hand.
-/
structure RbSound (rb : Ringbuffer) (pending : List UInt8) (r w : Nat) : Prop where
  ring : rb.toRingQueue.Holds pending
  fullSound : rb.fullSem.Sound
  emptySound : rb.emptySem.Sound
  full : rb.wclosed = false -> pending.length = rb.fullSem.units + r
  empty : rb.rclosed = false -> pending.length + rb.emptySem.units + w = rb.size
  closed : rb.wclosed = true -> pending.length < rb.size

variable {rb : Ringbuffer} {pending : List UInt8}

theorem ringbufferInit_sound {size : Nat} (h : 0 < size) :
    RbSound (ringbufferInit size) [] 0 0 := by
  constructor
  · exact ⟨h, Nat.zero_le size, (Nat.zero_mod size).symm, fun k hk => nomatch hk⟩
  · exact Semaphore.init_sound (Int.le_refl 0)
  · exact Semaphore.init_sound (Int.natCast_nonneg size)
  · intro _
    rfl
  · intro _
    show 0 + ((size : Int).toNat + 0) + 0 = size
    lia
  · intro hclosed
    cases hclosed

/-!
# One character
-/

/-- With the write end closed, `BUFFER_ISEMPTY` is true only of an empty pipe. -/
theorem RbSound.isEmpty_iff {r w : Nat} (h : RbSound rb pending r w)
    (hclosed : rb.wclosed = true) : rb.isEmpty = true <-> pending = [] := by
  have hlt := h.closed hclosed
  have hpos := h.ring.head_eq_tail_iff
  rw [← List.length_eq_zero_iff]
  unfold Ringbuffer.isEmpty
  rw [beq_iff_eq, hpos]
  lia

theorem readCharResume_spec (h : RbSound rb pending 1 0) :
    (pending = [] ∧ readCharResume false rb = some (Outcome.refused, rb) ∧
        RbSound rb pending 0 0) ∨
      (exists ch rest rb', pending = ch :: rest ∧
        readCharResume false rb = some (Outcome.done ch, rb') ∧
        RbSound rb' rest 0 0) := by
  unfold readCharResume
  rw [Bool.or_false]
  cases htest : (rb.isEmpty && rb.wclosed) with
  | true =>
      rcases Bool.and_eq_true_iff.mp htest with ⟨hempty, hclosed⟩
      have hopen : Not (rb.wclosed = false) := by
        intro hw
        rw [hclosed] at hw
        cases hw
      exact Or.inl ⟨(h.isEmpty_iff hclosed).mp hempty, rfl,
        ⟨h.ring, h.fullSound, h.emptySound, fun hw => absurd hw hopen, h.empty, h.closed⟩⟩
  | false =>
      cases pending with
      | nil =>
          exfalso
          cases hclosed : rb.wclosed with
          | true =>
              have hempty := (h.isEmpty_iff hclosed).mpr rfl
              rw [hempty, hclosed] at htest
              cases htest
          | false =>
              have hlen := h.full hclosed
              rw [List.length_nil] at hlen
              lia
      | cons ch rest =>
          rcases Turnstile.signal_spec h.emptySound with ⟨sem, hsem, hsound, hunits⟩
          refine Or.inr ⟨ch, rest,
            { rb with toRingQueue := rb.toRingQueue.pop, emptySem := sem }, rfl, ?_, ?_⟩
          · rw [if_neg Bool.false_ne_true, hsem, h.ring.front]
          · constructor
            · exact h.ring.pop
            · exact h.fullSound
            · exact hsound
            · intro hclosed
              have hlen := h.full hclosed
              rw [List.length_cons] at hlen
              exact Nat.succ.inj hlen
            · intro hclosed
              have hlen := h.empty hclosed
              rw [List.length_cons] at hlen
              show rest.length + sem.units + 0 = rb.size
              lia
            · intro hclosed
              have hlen := h.closed hclosed
              rw [List.length_cons] at hlen
              exact Nat.lt_of_succ_lt hlen

theorem putCharResume_spec (ch : UInt8) (h : RbSound rb pending 0 1) :
    (putCharResume ch false rb = some (Outcome.refused, rb) ∧ RbSound rb pending 0 0) ∨
      (exists rb', putCharResume ch false rb = some (Outcome.done (), rb') ∧
        (rb.wclosed = false -> RbSound rb' (pending ++ [ch]) 0 0)) := by
  unfold putCharResume
  rw [Bool.or_false]
  cases hclosed : rb.rclosed with
  | true =>
      have hopen : Not (rb.rclosed = false) := by
        intro hr
        rw [hclosed] at hr
        cases hr
      exact Or.inl ⟨rfl, ⟨h.ring, h.fullSound, h.emptySound, h.full,
        fun hr => absurd hr hopen, h.closed⟩⟩
  | false =>
      rcases Turnstile.signal_spec h.fullSound with ⟨sem, hsem, hsound, hunits⟩
      refine Or.inr
        ⟨{ rb with toRingQueue := rb.toRingQueue.push ch, fullSem := sem }, ?_, ?_⟩
      · rw [if_neg Bool.false_ne_true, hsem, hclosed]
      · intro hw
        have hroom := h.empty hclosed
        have hlen := h.full hw
        constructor
        · exact h.ring.push (by lia) ch
        · exact hsound
        · exact h.emptySound
        · intro _
          show (pending ++ [ch]).length = sem.units + 0
          rw [List.length_append, hunits, hlen]
          rfl
        · intro _
          show (pending ++ [ch]).length + rb.emptySem.units + 0 = rb.size
          rw [List.length_append, List.length_singleton]
          lia
        · intro hw'
          change rb.wclosed = true at hw'
          rw [hw] at hw'
          cases hw'

/-- The call that was woken has the unit of `full_sem` in hand. -/
theorem RbSound.resumeRead {task : Nat} (h : RbSound rb pending 0 0)
    (hmem : task ∈ rb.fullSem.released) :
    RbSound { rb with fullSem := rb.fullSem.resume task } pending 1 0 := by
  refine ⟨h.ring, h.fullSound, h.emptySound, ?_, h.empty, h.closed⟩
  intro hclosed
  have hunits := Turnstile.resume_units hmem
  have hlen := h.full hclosed
  show pending.length = (rb.fullSem.resume task).units + 1
  lia

theorem RbSound.resumeWrite {task : Nat} (h : RbSound rb pending 0 0)
    (hmem : task ∈ rb.emptySem.released) :
    RbSound { rb with emptySem := rb.emptySem.resume task } pending 0 1 := by
  refine ⟨h.ring, h.fullSound, h.emptySound, h.full, ?_, h.closed⟩
  intro hclosed
  have hunits := Turnstile.resume_units hmem
  have hlen := h.empty hclosed
  show pending.length + (rb.emptySem.resume task).units + 1 = rb.size
  lia

/-- What a round of `pipe_read` may see from `ringbuffer_read_char`. -/
def ReadResult (pending : List UInt8) :
    Option (Outcome UInt8 × Ringbuffer) -> Prop
  | none => False
  | some (Outcome.blocked, rb') => RbSound rb' pending 0 0
  | some (Outcome.refused, rb') => pending = [] ∧ RbSound rb' pending 0 0
  | some (Outcome.done ch, rb') =>
      exists rest, pending = ch :: rest ∧ RbSound rb' rest 0 0

/-- What a round of `pipe_write` may see from `ringbuffer_put_char`. -/
def PutResult (rb : Ringbuffer) (pending : List UInt8) (ch : UInt8) :
    Option (Outcome Unit × Ringbuffer) -> Prop
  | none => False
  | some (Outcome.blocked, rb') => RbSound rb' pending 0 0
  | some (Outcome.refused, rb') => RbSound rb' pending 0 0
  | some (Outcome.done (), rb') =>
      rb.wclosed = false -> RbSound rb' (pending ++ [ch]) 0 0

theorem readCharResume_result (h : RbSound rb pending 1 0) :
    ReadResult pending (readCharResume false rb) := by
  rcases readCharResume_spec h with ⟨hnil, heq, hrb⟩ | ⟨ch, rest, rb', hcons, heq, hrb⟩
  · rw [heq]
    exact ⟨hnil, hrb⟩
  · rw [heq]
    exact ⟨rest, hcons, hrb⟩

theorem readChar_result (task : Nat) (h : RbSound rb pending 0 0) :
    ReadResult pending (readChar task false rb) := by
  unfold readChar
  cases htest : (rb.isEmpty && rb.wclosed) with
  | true =>
      rcases Bool.and_eq_true_iff.mp htest with ⟨hempty, hclosed⟩
      exact ⟨(h.isEmpty_iff hclosed).mp hempty, h⟩
  | false =>
      rw [if_neg Bool.false_ne_true]
      have hsound := Turnstile.wait_sound h.fullSound task
      rcases hwait : rb.fullSem.wait task with ⟨passed, sem⟩
      rw [hwait] at hsound
      cases passed with
      | false =>
          have hunits := Turnstile.wait_units_block (congrArg Prod.fst hwait)
          rw [hwait] at hunits
          refine ⟨h.ring, hsound, h.emptySound, ?_, h.empty, h.closed⟩
          intro hclosed
          rw [h.full hclosed]
          exact hunits.symm
      | true =>
          have hunits := Turnstile.wait_units_pass (congrArg Prod.fst hwait)
          rw [hwait] at hunits
          refine readCharResume_result
            ⟨h.ring, hsound, h.emptySound, ?_, h.empty, h.closed⟩
          intro hclosed
          rw [h.full hclosed]
          exact hunits.symm

theorem putCharResume_result (ch : UInt8) (h : RbSound rb pending 0 1) :
    PutResult rb pending ch (putCharResume ch false rb) := by
  rcases putCharResume_spec ch h with ⟨heq, hrb⟩ | ⟨rb', heq, hrb⟩
  · rw [heq]
    exact hrb
  · rw [heq]
    exact hrb

theorem putChar_result (task : Nat) (ch : UInt8) (h : RbSound rb pending 0 0) :
    PutResult rb pending ch (putChar task ch false rb) := by
  unfold putChar
  cases hclosed : rb.rclosed with
  | true => exact h
  | false =>
      rw [if_neg Bool.false_ne_true]
      have hsound := Turnstile.wait_sound h.emptySound task
      have hlen := h.empty hclosed
      rcases hwait : rb.emptySem.wait task with ⟨passed, sem⟩
      rw [hwait] at hsound
      cases passed with
      | false =>
          have hunits := Turnstile.wait_units_block (congrArg Prod.fst hwait)
          rw [hwait] at hunits
          refine ⟨h.ring, h.fullSound, hsound, h.full, ?_, h.closed⟩
          intro _
          show pending.length + sem.units + 0 = rb.size
          lia
      | true =>
          have hunits := Turnstile.wait_units_pass (congrArg Prod.fst hwait)
          rw [hwait] at hunits
          refine putCharResume_result ch
            ⟨h.ring, h.fullSound, hsound, h.full, ?_, h.closed⟩
          intro _
          show pending.length + sem.units + 1 = rb.size
          lia

theorem ringbufferClose_sound (writable : Bool) (h : RbSound rb pending 0 0)
    (hroom : writable = true -> pending.length < rb.size) :
    exists rb', ringbufferClose writable rb = some rb' ∧ RbSound rb' pending 0 0 := by
  unfold ringbufferClose
  cases writable with
  | true =>
      rcases Turnstile.signalAll_spec h.fullSound with ⟨sem, hsem, hsound⟩
      rw [if_pos rfl, hsem]
      exact ⟨_, rfl, h.ring, hsound, h.emptySound, fun hw => (by cases hw), h.empty,
        fun _ => hroom rfl⟩
  | false =>
      rcases Turnstile.signalAll_spec h.emptySound with ⟨sem, hsem, hsound⟩
      rw [if_neg Bool.false_ne_true, hsem]
      exact ⟨_, rfl, h.ring, h.fullSound, hsound, h.full, fun hr => (by cases hr),
        h.closed⟩

/-!
# Whole runs
-/

structure Inv (s : State) (pending : List UInt8) : Prop where
  rbuf : RbSound s.rbuf pending 0 0
  split : s.accepted = s.delivered ++ pending
  short : DeliversAll s

theorem Inv.readRound {s t : State} (h : Inv s pending) {task n : Nat}
    {got : List UInt8} (hround : readRound task false n got s = some t) :
    exists pending', Inv t pending' := by
  have hresult : ReadResult pending
      (if task ∈ s.rbuf.fullSem.released then
        readCharResume false { s.rbuf with fullSem := s.rbuf.fullSem.resume task }
      else
        readChar task false s.rbuf) := by
    split
    · rename_i hmem
      exact readCharResume_result (h.rbuf.resumeRead hmem)
    · exact readChar_result task h.rbuf
  unfold Pipe.readRound at hround
  simp only at hround
  generalize (if task ∈ s.rbuf.fullSem.released then
      readCharResume false { s.rbuf with fullSem := s.rbuf.fullSem.resume task }
    else
      readChar task false s.rbuf) = result at hresult hround
  match result, hresult, hround with
  | some (Outcome.blocked, rb'), hrb, hround =>
      cases hround
      exact ⟨pending, hrb, h.split, h.short⟩
  | some (Outcome.refused, rb'), ⟨hnil, hrb⟩, hround =>
      cases hround
      refine ⟨pending, hrb, h.split, ?_⟩
      intro r hr
      rcases List.mem_cons.mp hr with rfl | hold
      · show s.delivered = s.accepted
        rw [h.split, hnil, List.append_nil]
      · exact h.short r hold
  | some (Outcome.done ch, rb'), ⟨rest, hcons, hrb⟩, hround =>
      cases hround
      refine ⟨rest, hrb, ?_, h.short⟩
      show s.accepted = s.delivered ++ [ch] ++ rest
      rw [h.split, hcons, List.append_assoc]
      rfl

theorem Inv.writeRound {s t : State} (h : Inv s pending) {task sent : Nat} {ch : UInt8}
    {rest : List UInt8} (hround : writeRound task false ch rest sent s = some t)
    (hlast : s.rbuf.wclosed = true -> t.accepted = s.accepted) :
    exists pending', Inv t pending' := by
  have hresult : PutResult s.rbuf pending ch
      (if task ∈ s.rbuf.emptySem.released then
        putCharResume ch false { s.rbuf with emptySem := s.rbuf.emptySem.resume task }
      else
        putChar task ch false s.rbuf) := by
    split
    · rename_i hmem
      exact putCharResume_result ch (h.rbuf.resumeWrite hmem)
    · exact putChar_result task ch h.rbuf
  unfold Pipe.writeRound at hround
  simp only at hround
  generalize (if task ∈ s.rbuf.emptySem.released then
      putCharResume ch false { s.rbuf with emptySem := s.rbuf.emptySem.resume task }
    else
      putChar task ch false s.rbuf) = result at hresult hround
  match result, hresult, hround with
  | some (Outcome.blocked, rb'), hrb, hround =>
      cases hround
      exact ⟨pending, hrb, h.split, h.short⟩
  | some (Outcome.refused, rb'), hrb, hround =>
      cases hround
      exact ⟨pending, hrb, h.split, h.short⟩
  | some (Outcome.done (), rb'), hrb, hround =>
      cases hround
      have hopen : s.rbuf.wclosed = false := by
        cases hclosed : s.rbuf.wclosed with
        | false => rfl
        | true =>
            have hsame : s.accepted ++ [ch] = s.accepted := hlast hclosed
            have hlen := congrArg List.length hsame
            rw [List.length_append, List.length_singleton] at hlen
            lia
      refine ⟨pending ++ [ch], hrb hopen, ?_, h.short⟩
      show s.accepted ++ [ch] = s.delivered ++ (pending ++ [ch])
      rw [h.split, List.append_assoc]

/-- The write end is not closed while the ring is full. -/
def ClosesBelowFull (s : State) : Action -> Prop
  | Action.close writable => writable = true ->
      s.accepted.length ≠ s.delivered.length + s.rbuf.size
  | _ => True

theorem Inv.pending_length {s : State} (h : Inv s pending) :
    s.accepted.length = s.delivered.length + pending.length := by
  rw [h.split, List.length_append]

theorem Inv.setCall {s : State} (h : Inv s pending) (task : Nat) (c : Call) :
    Inv (s.setCall task c) pending :=
  ⟨h.rbuf, h.split, h.short⟩

theorem Inv.step {s t : State} {a : Action} (h : Inv s pending) (hlegal : Legal s a)
    (hclose : ClosesBelowFull s a) (hstep : step s a = some t) :
    exists pending', Inv t pending' := by
  have hrun := hstep
  unfold Pipe.step at hstep
  split at hstep
  · cases hstep
  · cases a with
    | read task n =>
        simp only at hstep
        split at hstep
        · cases hstep
          unfold pipeRead
          split
          · exact ⟨pending, h⟩
          · exact ⟨pending, h.setCall task _⟩
        · cases hstep
    | write task src n =>
        simp only at hstep
        split at hstep
        · cases hstep
          unfold pipeWrite
          split
          · exact ⟨pending, h⟩
          · exact ⟨pending, h.setCall task _⟩
        · cases hstep
    | run task killed =>
        rcases hlegal with ⟨rfl, hlast⟩
        simp only at hstep
        split at hstep
        · cases hstep
        · split at hstep
          · cases hstep
          · exact h.readRound hstep
        · cases hstep
        · split at hstep
          · cases hstep
          · exact h.writeRound hstep (fun hclosed => hlast hclosed t hrun)
    | close writable =>
        have hroom : writable = true -> pending.length < s.rbuf.size := by
          intro hw
          have hne := hclose hw
          have hlen := h.pending_length
          have hle : pending.length ≤ s.rbuf.size := h.rbuf.ring.length_le
          lia
        rcases ringbufferClose_sound writable h.rbuf hroom with ⟨rb', heq, hrb⟩
        simp only [pipeClose, heq] at hstep
        cases hstep
        exact ⟨pending, hrb, h.split, h.short⟩

theorem pipeAlloc_inv : Inv pipeAlloc [] :=
  ⟨ringbufferInit_sound (Nat.succ_pos 4095), rfl, fun _ hr => nomatch hr⟩

/-- Bytes come out in the order they went in, and none is lost before end-of-file. -/
theorem pipe_delivers_before_eof {s : State}
    (h : Reaches step (fun s a => Legal s a ∧ ClosesBelowFull s a) pipeAlloc s) :
    DeliversAll s ∧ exists pending, s.accepted = s.delivered ++ pending := by
  have hinv : exists pending, Inv s pending := by
    refine h.invariant (P := fun s => exists pending, Inv s pending) ⟨[], pipeAlloc_inv⟩ ?_
    intro r t a hex hboth hstep
    rcases hex with ⟨pending, hr⟩
    rcases hboth with ⟨hlegal, hclose⟩
    exact hr.step hlegal hclose hstep
  rcases hinv with ⟨pending, hinv⟩
  exact ⟨hinv.short, pending, hinv.split⟩

/-- One byte is written, the write end is closed, and two bytes are asked for. -/
def oneByteRun : List Action :=
  [Action.write 0 [7] 1, Action.run 0 false, Action.close true, Action.read 1 2,
    Action.run 1 false, Action.run 1 false]

theorem oneByteRun_meets :
    RunMeets step (fun s a => Legal s a ∧ ClosesBelowFull s a) pipeAlloc oneByteRun := by
  refine ⟨⟨trivial, trivial⟩, ?_⟩
  intro _ hfalse
  cases hfalse
  refine ⟨⟨⟨rfl, fun hclosed => by cases hclosed⟩, trivial⟩, ?_⟩
  intro _ hfalse
  cases hfalse
  refine ⟨⟨trivial, fun _ => by decide⟩, ?_⟩
  intro _ hfalse
  cases hfalse
  refine ⟨⟨trivial, trivial⟩, ?_⟩
  intro _ hfalse
  cases hfalse
  refine ⟨⟨⟨rfl, fun _ t ht => by cases ht; rfl⟩, trivial⟩, ?_⟩
  intro _ hfalse
  cases hfalse
  refine ⟨⟨⟨rfl, fun _ t ht => by cases ht; rfl⟩, trivial⟩, ?_⟩
  intro _ hfalse
  cases hfalse
  trivial

theorem pipe_delivers_one_byte :
    exists s, runFrom step pipeAlloc oneByteRun = some s ∧ DeliversAll s ∧
      s.shortReads.length = 1 := by
  refine ⟨_, rfl, ?_, rfl⟩
  exact (pipe_delivers_before_eof (runFrom_reaches oneByteRun_meets rfl)).left

/-!
# A full pipe is taken for an empty one
-/

def writeCall (rest : List UInt8) (sent : Nat) : Call :=
  if rest.isEmpty then Call.idle else Call.writing rest sent

/-- Task 0 has written `k` bytes and has `rest` to go; nothing was read. -/
structure Filling (k : Nat) (rest : List UInt8) (s : State) : Prop where
  freed : s.freed = false
  writer : s.calls 0 = writeCall rest k
  reader : s.calls 1 = Call.idle
  size : s.rbuf.size = pgSize
  head : s.rbuf.head = k % pgSize
  tail : s.rbuf.tail = 0
  rclosed : s.rbuf.rclosed = false
  wclosed : s.rbuf.wclosed = false
  fullSem : s.rbuf.fullSem = ⟨⟨k, []⟩, []⟩
  emptySem : s.rbuf.emptySem = ⟨⟨(pgSize : Int) - k, []⟩, []⟩
  accepted : s.accepted.length = k
  delivered : s.delivered = []

def afterByte (s : State) (k : Nat) (ch : UInt8) (rest : List UInt8) : State :=
  { s with
    rbuf :=
      { s.rbuf with
        toRingQueue := s.rbuf.toRingQueue.push ch
        emptySem := ⟨⟨(pgSize : Int) - k - 1, []⟩, []⟩
        fullSem := ⟨⟨(k : Int) + 1, []⟩, []⟩ }
    accepted := s.accepted ++ [ch] }.setCall 0 (writeCall rest (k + 1))

theorem Filling.step_run {k : Nat} {ch : UInt8} {rest : List UInt8} {s : State}
    (h : Filling k (ch :: rest) s) (hk : k < pgSize) :
    step s (Action.run 0 false) = some (afterByte s k ch rest) := by
  have hwait : s.rbuf.emptySem.wait 0 = (true, ⟨⟨(pgSize : Int) - k - 1, []⟩, []⟩) := by
    have hpos : Not ((pgSize : Int) - k - 1 < 0) := by lia
    rw [h.emptySem]
    unfold Turnstile.wait Semaphore.wait
    simp only [if_neg hpos]
  have hsignal : s.rbuf.fullSem.signal = some ⟨⟨(k : Int) + 1, []⟩, []⟩ := by
    have hpos : Not ((k : Int) + 1 ≤ 0) := by lia
    rw [h.fullSem]
    unfold Turnstile.signal Semaphore.signal
    simp only [if_neg hpos]
    rfl
  have hput : putChar 0 ch false s.rbuf =
      some (Outcome.done (), (afterByte s k ch rest).rbuf) := by
    unfold putChar putCharResume
    simp only [h.rclosed, hwait, hsignal, Bool.false_eq_true, Bool.or_self, if_false]
    unfold afterByte State.setCall
    simp only [h.rclosed]
  have hreleased : Not (0 ∈ s.rbuf.emptySem.released) := by
    rw [h.emptySem]
    exact List.not_mem_nil
  have hwaiting : Not (0 ∈ s.rbuf.emptySem.waiting) := by
    rw [h.emptySem]
    exact List.not_mem_nil
  unfold step
  rw [h.freed, if_neg Bool.false_ne_true]
  simp only [h.writer, writeCall, List.isEmpty_cons, Bool.false_eq_true, if_false]
  rw [if_neg hwaiting]
  unfold writeRound
  simp only [if_neg hreleased, hput]
  rfl

theorem Filling.next {k : Nat} {ch : UInt8} {rest : List UInt8} {s : State}
    (h : Filling k (ch :: rest) s) : Filling (k + 1) rest (afterByte s k ch rest) := by
  constructor
  · exact h.freed
  · rfl
  · exact h.reader
  · exact h.size
  · show RingQueue.nextPos s.rbuf.size s.rbuf.head = (k + 1) % pgSize
    unfold RingQueue.nextPos
    rw [h.size, h.head, Nat.mod_add_mod]
  · exact h.tail
  · exact h.rclosed
  · exact h.wclosed
  · rfl
  · have hval : (pgSize : Int) - k - 1 = (pgSize : Int) - (k + 1 : Nat) := by lia
    rw [← hval]
    rfl
  · show (s.accepted ++ [ch]).length = k + 1
    rw [List.length_append, h.accepted]
    rfl
  · exact h.delivered

theorem Filling.fill {k : Nat} {rest : List UInt8} {s : State}
    (h : Filling k rest s) (hlen : k + rest.length = pgSize) :
    exists t, Reaches step Legal s t ∧ Filling pgSize [] t := by
  induction rest generalizing k s with
  | nil =>
      rw [List.length_nil, Nat.add_zero] at hlen
      subst hlen
      exact ⟨s, Reaches.refl, h⟩
  | cons ch rest ih =>
      rw [List.length_cons] at hlen
      rcases ih h.next (by lia) with ⟨t, hreach, hfull⟩
      have hlegal : Legal s (Action.run 0 false) := by
        refine ⟨rfl, ?_⟩
        intro hclosed
        rw [h.wclosed] at hclosed
        cases hclosed
      have hfirst := Reaches.next Reaches.refl hlegal (h.step_run (by lia))
      exact ⟨t, Reaches.trans hfirst hreach, hfull⟩

theorem Filling.start (src : List UInt8) :
    Filling 0 src (pipeAlloc.setCall 0 (writeCall src 0)) :=
  ⟨rfl, rfl, rfl, rfl, rfl, rfl, rfl, rfl, rfl, rfl, rfl, rfl⟩

theorem step_write_page (src : List UInt8) (hlen : src.length = pgSize) :
    step pipeAlloc (Action.write 0 src pgSize) =
      some (pipeAlloc.setCall 0 (writeCall src 0)) := by
  have htake : src.take (pgSize : Int).toNat = src := by
    rw [Int.toNat_natCast, ← hlen]
    exact List.take_length
  have hpos : Not ((pgSize : Int) ≤ 0) := by
    unfold pgSize
    lia
  show some (pipeWrite 0 src pgSize pipeAlloc) = _
  unfold pipeWrite
  rw [if_neg hpos, htake]
  cases src with
  | nil => rfl
  | cons ch rest => rfl

/-- The state after the write end of a filled pipe was closed. -/
def afterClose (s : State) : State :=
  { s with
    rbuf := { s.rbuf with wclosed := true, fullSem := ⟨⟨(pgSize : Int) + 1, []⟩, []⟩ } }

theorem Filling.step_close {s : State} (h : Filling pgSize [] s) :
    step s (Action.close true) = some (afterClose s) := by
  have hall : s.rbuf.fullSem.signalAll = some ⟨⟨(pgSize : Int) + 1, []⟩, []⟩ := by
    have hpos : Not ((pgSize : Int) + 1 ≤ 0) := by lia
    rw [h.fullSem]
    unfold Turnstile.signalAll Semaphore.signalAll Semaphore.signalAllFrom
    rw [if_neg hpos]
    rfl
  unfold step
  rw [h.freed, if_neg Bool.false_ne_true]
  simp only [pipeClose, ringbufferClose, hall, h.rclosed]
  unfold afterClose
  simp only [h.freed, h.rclosed]
  rfl

theorem Filling.read_refused {s : State} (h : Filling pgSize [] s) :
    readChar 1 false (afterClose s).rbuf = some (Outcome.refused, (afterClose s).rbuf) := by
  have hempty : (afterClose s).rbuf.isEmpty = true := by
    show (s.rbuf.head == s.rbuf.tail) = true
    rw [h.head, h.tail]
    rfl
  unfold readChar
  rw [hempty]
  rfl

def afterAsking (s : State) : State := (afterClose s).setCall 1 (Call.reading 1 [])

/-- The state in which task 1 has just been refused. -/
def afterRefusal (s : State) : State :=
  { afterAsking s with
    rbuf := (afterClose s).rbuf
    shortReads := ⟨1, 1, [], s.accepted, s.delivered⟩ :: s.shortReads }.setCall 1 Call.idle

theorem Filling.step_refused {s : State} (h : Filling pgSize [] s) :
    step (afterAsking s) (Action.run 1 false) = some (afterRefusal s) := by
  have hfreed : Not ((afterAsking s).freed = true) := by
    intro hfreed
    have hopen : (afterAsking s).freed = false := h.freed
    rw [hopen] at hfreed
    cases hfreed
  have hmiss : Not (1 ∈ ([] : List Nat)) := List.not_mem_nil
  have hresult : readChar 1 false (afterAsking s).rbuf =
      some (Outcome.refused, (afterClose s).rbuf) := h.read_refused
  unfold step
  rw [if_neg hfreed]
  simp only [show (afterAsking s).calls 1 = Call.reading 1 [] from rfl]
  rw [if_neg (show Not (1 ∈ (afterAsking s).rbuf.fullSem.waiting) from hmiss)]
  unfold readRound
  simp only [if_neg (show Not (1 ∈ (afterAsking s).rbuf.fullSem.released) from hmiss),
    hresult]
  rfl

/-- A page of bytes is written and the write end is closed; the next read gets none. -/
theorem pipe_loses_full_page :
    Not (forall s, Reaches step Legal pipeAlloc s -> DeliversAll s) := by
  intro hall
  have hwrite := step_write_page (List.replicate pgSize 7) List.length_replicate
  have hstart := Reaches.next (a := Action.write 0 (List.replicate pgSize 7) pgSize)
    (Reaches.refl : Reaches step Legal pipeAlloc pipeAlloc) trivial hwrite
  rcases (Filling.start (List.replicate pgSize 7)).fill
    (by rw [List.length_replicate, Nat.zero_add]) with ⟨s, hreach, hfull⟩
  have hfilled := Reaches.trans hstart hreach
  have hclosed := Reaches.next (a := Action.close true) hfilled trivial hfull.step_close
  have hread : step (afterClose s) (Action.read 1 1) =
      some (afterAsking s) := by
    unfold step
    rw [show (afterClose s).freed = false from hfull.freed, if_neg Bool.false_ne_true]
    simp only [show (afterClose s).calls 1 = Call.idle from hfull.reader]
    rfl
  have hasked := Reaches.next (a := Action.read 1 1) hclosed trivial hread
  have hlegal : Legal (afterAsking s) (Action.run 1 false) := by
    refine ⟨rfl, ?_⟩
    intro _ t ht
    rw [hfull.step_refused] at ht
    cases ht
    rfl
  have hrefused := Reaches.next hasked hlegal hfull.step_refused
  have hdelivers := hall _ hrefused _ List.mem_cons_self
  have hlen := congrArg List.length (hdelivers : s.delivered = s.accepted)
  rw [hfull.delivered, hfull.accepted] at hlen
  cases hlen

end Pipe
end Kernel
end NicoOS
