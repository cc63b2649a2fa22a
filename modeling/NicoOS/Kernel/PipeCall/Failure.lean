import NicoOS.Fs.Syscall.Descriptors
import NicoOS.Kernel.PipeCall.Heap

/-!
# Calls of `sys_pipe` that fail

Wherever `sys_pipe` gives up, the tables are as before, and the object and the page of the
pipe went back once each.
-/

namespace NicoOS
namespace Kernel
namespace PipeCall

open Lib
open Program (op Ends)
open Fs.Syscall (FdType)

/-!
# Files that the call holds
-/

/-- Entries that were free and have one reference now; the others are as they were. -/
structure Held (k k' : Fs.Syscall.State) (held : List Nat) : Prop where
  nodup : held.Nodup
  fresh : forall f, f ∈ held -> (k.files f).refs = 0
  live : forall f, f ∈ held -> (k'.files f).refs = 1
  others : forall f, Not (f ∈ held) ->
    (k'.files f).refs = (k.files f).refs ∧ (k'.files f).type = (k.files f).type

/-- A free entry of the file table has no type, as `file_init` and `file_close` leave it. -/
def Idle (k : Fs.Syscall.State) : Prop :=
  forall f, (k.files f).refs = 0 -> (k.files f).type = FdType.none

theorem Idle.of_table {k : Fs.Syscall.State} (h : Fs.Syscall.Table k (fun _ => 0) none) :
    Idle k := h.idle

section Files

variable {k k' k'' : Fs.Syscall.State} {held : List Nat} {f : Nat}

theorem Held.refl (k : Fs.Syscall.State) : Held k k [] where
  nodup := List.nodup_nil
  fresh g hg := by cases hg
  live g hg := by cases hg
  others _ _ := ⟨rfl, rfl⟩

theorem Held.not_mem (h : Held k k' held) (hfree : (k'.files f).refs = 0) : Not (f ∈ held) := by
  intro hmem
  rw [h.live f hmem] at hfree
  cases hfree

/-- `file_alloc` takes one more entry, which has no type. -/
theorem Held.take (h : Held k k' held) (hidle : Idle k) (hfree : (k'.files f).refs = 0) :
    Held k (Fs.Syscall.takeFile f k') (held ++ [f]) ∧
      ((Fs.Syscall.takeFile f k').files f).type = FdType.none := by
  have hnot := h.not_mem hfree
  have hother := h.others f hnot
  have hfresh : (k.files f).refs = 0 := by
    rw [<- hother.left]
    exact hfree
  constructor
  · constructor
    · rw [List.nodup_append_comm, List.singleton_append, List.nodup_cons]
      exact ⟨hnot, h.nodup⟩
    · intro g hg
      rcases List.mem_append.mp hg with hg | hg
      · exact h.fresh g hg
      · rw [List.mem_singleton.mp hg]
        exact hfresh
    · intro g hg
      rcases List.mem_append.mp hg with hg | hg
      · have hne : g ≠ f := fun heq => hnot (heq ▸ hg)
        rw [Fs.Syscall.takeFile_other hne]
        exact h.live g hg
      · rw [List.mem_singleton.mp hg, Fs.Syscall.takeFile_self]
    · intro g hg
      rw [List.mem_append, not_or, List.mem_singleton] at hg
      rw [Fs.Syscall.takeFile_other hg.right]
      exact h.others g hg.left
  · rw [Fs.Syscall.takeFile_self]
    exact hother.right.trans (hidle f hfresh)

/-- The last reference of the first entry is given up. -/
theorem Held.close (h : Held k k' (f :: held)) (hidle : Idle k)
    (hself : (k''.files f).refs = 0 ∧ (k''.files f).type = FdType.none)
    (hother : forall g, g ≠ f -> k''.files g = k'.files g) : Held k k'' held := by
  have hnot := (List.nodup_cons.mp h.nodup).left
  have hfresh := h.fresh f List.mem_cons_self
  constructor
  · exact (List.nodup_cons.mp h.nodup).right
  · exact fun g hg => h.fresh g (List.mem_cons_of_mem f hg)
  · intro g hg
    have hne : g ≠ f := fun heq => hnot (heq ▸ hg)
    rw [hother g hne]
    exact h.live g (List.mem_cons_of_mem f hg)
  · intro g hg
    by_cases heq : g = f
    · rw [heq, hself.left, hself.right, hfresh, hidle f hfresh]
      exact ⟨rfl, rfl⟩
    · rw [hother g heq]
      exact h.others g (List.not_mem_cons_of_ne_of_not_mem heq hg)

theorem Held.ne {g : Nat} (h : Held k k' [f, g]) : f ≠ g := by
  have hnodup := h.nodup
  simp at hnodup
  exact hnodup

theorem Held.congr (h : Held k k' held)
    (hfile : forall g, (k''.files g).refs = (k'.files g).refs)
    (htype : forall g, Not (g ∈ held) -> (k''.files g).type = (k'.files g).type) :
    Held k k'' held where
  nodup := h.nodup
  fresh := h.fresh
  live g hg := (hfile g).trans (h.live g hg)
  others g hg := ⟨(hfile g).trans (h.others g hg).left, (htype g hg).trans (h.others g hg).right⟩

end Files

section Calls

variable {t : Nat} {s : State}

/-- An operation on the tables of the kernel and the rest behind it. -/
theorem kernel_bind {α : Type} (o : Fs.Syscall.Op) {next : o.Answer -> Code α}
    {Q : α -> State -> Prop}
    (h : forall a k, Fs.Syscall.perform t o s.kernel = Except.ok (a, k) ->
      Ends (perform t) (next a) { s with kernel := k } Q) :
    Ends (perform t) (op (Op.kernel o) >>= next) s Q := by
  apply Program.ends_op
  intro a s1 hrun
  have hkernel : performKernel t o s = Except.ok (a, s1) := hrun
  unfold performKernel at hkernel
  split at hkernel
  · cases hkernel
  · rename_i r k hperform
    cases hkernel
    exact h a k hperform

theorem fileAlloc_bind {α : Type} {next : Option Nat -> Code α} {Q : α -> State -> Prop}
    (hnone : Ends (perform t) (next none) s Q)
    (hsome : forall f, (s.kernel.files f).refs = 0 ->
      Ends (perform t) (next (some f)) { s with kernel := Fs.Syscall.takeFile f s.kernel } Q) :
    Ends (perform t) (op (Op.kernel Fs.Syscall.Op.fileAlloc) >>= next) s Q := by
  apply kernel_bind
  intro found k halloc
  have halloc' : Except.ok (Fs.Syscall.fileAlloc s.kernel) = Except.ok (found, k) := halloc
  rcases Fs.Syscall.fileAlloc_cases s.kernel with hfull | ⟨f, hfree, htake⟩
  · rw [hfull] at halloc'
    cases halloc'
    exact hnone
  · rw [htake] at halloc'
    cases halloc'
    exact hsome f hfree

theorem fdAlloc_bind {α : Type} {f : Nat} {next : Option Nat -> Code α}
    {Q : α -> State -> Prop} (hnone : Ends (perform t) (next none) s Q)
    (hsome : forall fd, Fs.Syscall.LowestFree (s.kernel.tasks t).ofiles fd ->
      Ends (perform t) (next (some fd))
        { s with kernel := Fs.Syscall.setDescriptor t fd (some f) s.kernel } Q) :
    Ends (perform t) (op (Op.kernel (Fs.Syscall.Op.fdAlloc f)) >>= next) s Q := by
  apply kernel_bind
  intro found k halloc
  have halloc' : Except.ok (Fs.Syscall.fdAlloc t f s.kernel) = Except.ok (found, k) := halloc
  rcases Fs.Syscall.fdAlloc_lowest t f s.kernel with hfull | ⟨fd, hlowest, hset⟩
  · rw [hfull] at halloc'
    cases halloc'
    exact hnone
  · rw [hset] at halloc'
    cases halloc'
    exact hsome fd hlowest

/-- The table after `file_close` of the last reference. -/
def dropFile (f : Nat) (k : Fs.Syscall.State) : Fs.Syscall.State :=
  k.setFile f { k.files f with refs := 0, type := FdType.none }

theorem Held.drop {k k' : Fs.Syscall.State} {held : List Nat} {f : Nat}
    (h : Held k k' (f :: held)) (hidle : Idle k) : Held k (dropFile f k') held := by
  apply h.close hidle
  · rw [dropFile, Fs.Syscall.setFile_self]
    exact ⟨rfl, rfl⟩
  · intro g hg
    rw [dropFile, Fs.Syscall.setFile_other hg]

theorem fileClose_bind {α : Type} {f : Nat} {rest : Unit -> Code α} {Q : α -> State -> Prop}
    (hlive : (s.kernel.files f).refs = 1)
    (hnone : (s.kernel.files f).type = FdType.none ->
      Ends (perform t) (rest ()) { s with kernel := dropFile f s.kernel } Q)
    (hinode : (s.kernel.files f).type ≠ FdType.inode)
    (hpipe : (s.kernel.files f).type = FdType.pipe ->
      Ends (perform t)
        (pipeClose (s.kernel.files f).pipe (s.kernel.files f).writable >>= rest)
        { s with kernel := dropFile f s.kernel } Q) :
    Ends (perform t) (fileClose f >>= rest) s Q := by
  apply kernel_bind
  intro found k hdrop
  rcases (Fs.Syscall.fileDrop_ok hdrop).right with ⟨hmore, -, -⟩ | ⟨-, hfound, hk⟩
  · lia
  · rw [hfound, hk]
    show Ends (perform t) (fileRelease (some (s.kernel.files f)) >>= rest)
      { s with kernel := dropFile f s.kernel } Q
    cases htype : (s.kernel.files f).type with
    | none =>
        have hrelease : fileRelease (some (s.kernel.files f)) = pure () := by
          simp only [fileRelease, htype]
        rw [hrelease]
        exact hnone htype
    | inode => exact absurd htype hinode
    | pipe =>
        have hrelease : fileRelease (some (s.kernel.files f)) =
            pipeClose (s.kernel.files f).pipe (s.kernel.files f).writable := by
          simp only [fileRelease, htype]
        rw [hrelease]
        exact hpipe htype

/-!
# What a failed call leaves
-/

/-- Every object and page that was taken was given back once, the page first. -/
inductive Undone : List Event -> Prop
  | nothing : Undone []
  | object (pipe : Nat) : Undone [Event.kalloc pipe, Event.kfree pipe]
  | page (pipe buffer : Nat) : Undone [Event.kalloc pipe, Event.getFreePage buffer,
      Event.freePage buffer, Event.kfree pipe]

/-- The heap after some calls of the allocators, next to the heap before. -/
structure Ledger (s s' : State) (events : List Event) (objects pages : List Nat) : Prop where
  trace : s'.trace = s.trace ++ events
  live : forall x, x ∈ s'.heap.live -> x ∈ s.heap.live ∨ x.1 ∈ objects
  outside : s'.heap.outside = pages ++ s.heap.outside

structure LeavesNothing (s s' : State) : Prop where
  tasks : s'.kernel.tasks = s.kernel.tasks
  refs : forall f, (s'.kernel.files f).refs = (s.kernel.files f).refs
  types : forall f, (s'.kernel.files f).type = (s.kernel.files f).type
  ledger : exists events, Undone events ∧ Ledger s s' events [] []

variable {s' : State} {events : List Event} {objects pages : List Nat}

theorem LeavesNothing.of_held (htasks : s'.kernel.tasks = s.kernel.tasks)
    (h : Held s.kernel s'.kernel []) (hundone : Undone events)
    (hledger : Ledger s s' events [] []) : LeavesNothing s s' where
  tasks := htasks
  refs f := (h.others f List.not_mem_nil).left
  types f := (h.others f List.not_mem_nil).right
  ledger := ⟨events, hundone, hledger⟩

theorem Ledger.refl (s : State) : Ledger s s [] [] [] where
  trace := (List.append_nil _).symm
  live _ hx := Or.inl hx
  outside := rfl

theorem Ledger.setKernel (h : Ledger s s' events objects pages) (k : Fs.Syscall.State) :
    Ledger s { s' with kernel := k } events objects pages :=
  ⟨h.trace, h.live, h.outside⟩

theorem Ledger.kalloc {r : Nat} {s1 : State} (halign : Aligned s.heap)
    (hrun : kalloc s = Except.ok (r, s1)) :
    s1.kernel = s.kernel ∧ (forall page, page ∈ s1.heap.pool -> page ∈ s.heap.pool) ∧
      ((r = 0 ∧ Ledger s s1 [] [] []) ∨
        (r ≠ 0 ∧ r % 4 = 0 ∧ Ledger s s1 [Event.kalloc r] [r] [])) := by
  unfold PipeCall.kalloc at hrun
  split at hrun
  · cases hrun
  · rename_i ptr heap hkalloc
    have hgiven := kalloc_given halign hkalloc
    split at hrun
    · cases hrun
      refine ⟨rfl, hgiven.pool, Or.inl ⟨rfl, ?_⟩⟩
      constructor
      · exact (List.append_nil _).symm
      · intro x hx
        exact Or.inl (hgiven.live ▸ hx)
      · exact hgiven.outside
    · rename_i hne
      cases hrun
      refine ⟨rfl, hgiven.pool, Or.inr ⟨hne, hgiven.aligned, ?_⟩⟩
      constructor
      · rfl
      · intro x hx
        rcases List.mem_cons.mp hx with hx | hx
        · rw [hx]
          exact Or.inr List.mem_cons_self
        · exact Or.inl (hgiven.live ▸ hx)
      · exact hgiven.outside

theorem Ledger.kfree {ptr : Nat} {s1 : State} {a : Unit} (h : Ledger s s' events [ptr] [])
    (hrun : kfree ptr s' = Except.ok (a, s1)) :
    s1.kernel = s'.kernel ∧ Ledger s s1 (events ++ [Event.kfree ptr]) [] [] := by
  unfold PipeCall.kfree at hrun
  split at hrun
  · cases hrun
  · rename_i heap hfree
    rcases Kalloc.kfree_keeps hfree with ⟨-, hlive⟩
    have houtside := kfree_outside hfree
    cases hrun
    refine ⟨rfl, ?_⟩
    constructor
    · show s'.trace ++ [Event.kfree ptr] = _
      rw [h.trace, List.append_assoc]
    · intro x hx
      rcases List.mem_filter.mp hx with ⟨hmem, hne⟩
      rw [hlive] at hmem
      rcases h.live x hmem with hold | hnew
      · exact Or.inl hold
      · exact absurd (List.mem_singleton.mp hnew) (of_decide_eq_true hne)
    · show heap.outside = _
      rw [houtside, h.outside]

/-!
# The object of a pipe
-/

/-- A pipe that both ends refer to; its memory may be shared with the buffer. -/
structure Ready (s s' : State) (pipe buffer : Nat) : Prop where
  ledger : Ledger s s' [Event.kalloc pipe, Event.getFreePage buffer] [pipe] [buffer]
  wopen : s'.heap.mem (pipe + wclosedOffset) = 0
  stored : s'.heap.mem.word (pipe + bufferOffset) = buffer ∨
    s'.heap.mem.word (pipe + bufferOffset) = 0

theorem Ready.setKernel {pipe buffer : Nat} (h : Ready s s' pipe buffer)
    (k : Fs.Syscall.State) : Ready s { s' with kernel := k } pipe buffer :=
  ⟨h.ledger.setKernel k, h.wopen, h.stored⟩

theorem setByte_self (mem : Lib.Memory) (a : Nat) (v : UInt8) : mem.setByte a v a = v :=
  if_pos rfl

theorem setByte_of_ne (mem : Lib.Memory) {a b : Nat} (v : UInt8) (h : b ≠ a) :
    mem.setByte a v b = mem b :=
  if_neg h

/-- Where the object reaches into the page of the buffer, the buffer pointer is cleared. -/
theorem ready_init {pipe buffer : Nat} (halign : pipe % 4 = 0)
    (hpage : buffer % Kalloc.pgSize = 0 ∧ 0 < buffer ∧
      buffer + Kalloc.pgSize ≤ 0x100000000)
    (h : Ledger s s' [Event.kalloc pipe, Event.getFreePage buffer] [pipe] [buffer]) :
    Ready s (ringbufferInit pipe buffer
      (s'.setMem (s'.heap.mem.setWord (pipe + bufferOffset) buffer))) pipe buffer := by
  have hmod : buffer % 4096 = 0 := hpage.left
  have hlt : buffer + 4096 ≤ 0x100000000 := hpage.right.right
  constructor
  · exact ⟨h.trace, h.live, h.outside⟩
  · show Lib.Memory.fill _ buffer 0 Kalloc.pgSize (pipe + wclosedOffset) = 0
    unfold Lib.Memory.fill
    split
    · rfl
    · exact setByte_self _ _ _
  · show Lib.Memory.word (Lib.Memory.fill _ buffer 0 4096) (pipe + 92) = buffer ∨
      Lib.Memory.word (Lib.Memory.fill _ buffer 0 4096) (pipe + 92) = 0
    by_cases hin : buffer ≤ pipe + 92 ∧ pipe + 92 < buffer + 4096
    · apply Or.inr
      exact Lib.Memory.word_fill_zero _ hin.left (by lia)
    · apply Or.inl
      rw [Lib.Memory.word_fill_of_apart _ _ (by lia),
        Lib.Memory.word_setByte_of_outside _ _ (Or.inl (by unfold wclosedOffset; lia)),
        Lib.Memory.word_setByte_of_outside _ _ (Or.inl (by unfold rclosedOffset; lia))]
      exact Lib.Memory.word_setWord_self _ _ (by lia)

/-- The reading end is closed first; the object stays. -/
theorem pipeClose_read {α : Type} {rest : Unit -> Code α} {Q : α -> State -> Prop}
    {pipe : Nat} (hopen : s.heap.mem (pipe + wclosedOffset) = 0)
    (hrest : Ends (perform t) (rest ())
      (s.setMem (s.heap.mem.setByte (pipe + rclosedOffset) 1)) Q) :
    Ends (perform t) (pipeClose pipe false >>= rest) s Q := by
  apply Program.ends_op
  intro closed s1 hclose
  have hclose' : Except.ok (ringbufferClose pipe false s) = Except.ok (closed, s1) := hclose
  have hne : pipe + wclosedOffset ≠ pipe + rclosedOffset := by
    unfold wclosedOffset rclosedOffset
    lia
  have hanswer : ringbufferClose pipe false s =
      (false, s.setMem (s.heap.mem.setByte (pipe + rclosedOffset) 1)) := by
    unfold ringbufferClose
    rw [if_neg Bool.false_ne_true]
    dsimp only
    rw [setByte_of_ne _ _ hne, hopen, decide_eq_false (fun h => h.right rfl)]
  rw [hanswer] at hclose'
  cases hclose'
  exact hrest

/-- Behind the other end, the writing end gives back the page and the object. -/
theorem pipeClose_write {α : Type} {rest : Unit -> Code α} {Q : α -> State -> Prop}
    {pipe : Nat} (hclosed : s.heap.mem (pipe + rclosedOffset) ≠ 0)
    (hrest : forall buffer s1 s2,
      freePage buffer (s.setMem (s.heap.mem.setByte (pipe + wclosedOffset) 1)) =
        Except.ok ((), s1) ->
      buffer = s.heap.mem.word (pipe + bufferOffset) -> kfree pipe s1 = Except.ok ((), s2) ->
      Ends (perform t) (rest ()) s2 Q) :
    Ends (perform t) (pipeClose pipe true >>= rest) s Q := by
  apply Program.ends_op
  intro closed s1 hclose
  have hclose' : Except.ok (ringbufferClose pipe true s) = Except.ok (closed, s1) := hclose
  have hne : pipe + rclosedOffset ≠ pipe + wclosedOffset := by
    unfold wclosedOffset rclosedOffset
    lia
  have hone : (1 : UInt8) ≠ 0 := by decide
  have hanswer : ringbufferClose pipe true s =
      (true, s.setMem (s.heap.mem.setByte (pipe + wclosedOffset) 1)) := by
    unfold ringbufferClose
    rw [if_pos rfl]
    dsimp only
    rw [setByte_of_ne _ _ hne, setByte_self, decide_eq_true ⟨hclosed, hone⟩]
  rw [hanswer] at hclose'
  cases hclose'
  apply Program.ends_op
  intro buffer s2 hbuffer
  cases hbuffer
  apply Program.ends_op
  intro _ s3 hfree
  apply Program.ends_op
  intro _ s4 hkfree
  apply hrest _ s3 s4 hfree _ hkfree
  show Lib.Memory.word (Lib.Memory.setByte _ (pipe + 17) 1) (pipe + 92) = _
  exact Lib.Memory.word_setByte_of_outside _ _ (Or.inl (by lia))

theorem Ledger.freePage {pipe buffer : Nat} {s1 : State} {a : Unit}
    (h : Ledger s s' events [pipe] [buffer])
    (hrun : freePage buffer s' = Except.ok (a, s1)) :
    s1.kernel = s'.kernel ∧ buffer ≠ 0 ∧
      Ledger s s1 (events ++ [Event.freePage buffer]) [pipe] [] := by
  unfold PipeCall.freePage at hrun
  split at hrun
  · cases hrun
  · split at hrun
    · cases hrun
    · rename_i hne
      cases hrun
      refine ⟨rfl, hne, ?_⟩
      constructor
      · show s'.trace ++ [Event.freePage buffer] = _
        rw [h.trace, List.append_assoc]
      · exact h.live
      · show s'.heap.outside.erase buffer = _
        rw [h.outside]
        simp

theorem Ledger.getFreePage {pipe : Nat} (h : Ledger s s' [Event.kalloc pipe] [pipe] [])
    (hpool : forall page, page ∈ s'.heap.pool -> page % Kalloc.pgSize = 0 ∧ 0 < page ∧
      page + Kalloc.pgSize ≤ 0x100000000) :
    getFreePage s' = (0, s') ∨
      exists page s1, getFreePage s' = (page, s1) ∧ s1.kernel = s'.kernel ∧
        (page % Kalloc.pgSize = 0 ∧ 0 < page ∧ page + Kalloc.pgSize ≤ 0x100000000) ∧
        Ledger s s1 [Event.kalloc pipe, Event.getFreePage page] [pipe] [page] := by
  unfold PipeCall.getFreePage
  cases hlist : s'.heap.pool with
  | nil => exact Or.inl rfl
  | cons page rest =>
      have hmem : page ∈ s'.heap.pool := by
        rw [hlist]
        exact List.mem_cons_self
      refine Or.inr ⟨page, _, rfl, rfl, hpool page hmem, ?_⟩
      constructor
      · show s'.trace ++ [Event.getFreePage page] = _
        rw [h.trace, List.append_assoc]
        rfl
      · exact h.live
      · show page :: s'.heap.outside = _
        rw [h.outside]
        rfl

/-!
# Every failure
-/

theorem closeIdle_bind {α : Type} {k : Fs.Syscall.State} {f : Nat} {held : List Nat}
    {rest : Unit -> Code α} {Q : α -> State -> Prop} (hidle : Idle k)
    (h : Held k s.kernel (f :: held))
    (htype : (s.kernel.files f).type = FdType.none)
    (hrest : forall k', Held k k' held -> k'.tasks = s.kernel.tasks ->
      (forall g, g ≠ f -> k'.files g = s.kernel.files g) ->
      Ends (perform t) (rest ()) { s with kernel := k' } Q) :
    Ends (perform t) (fileClose f >>= rest) s Q := by
  apply fileClose_bind (h.live f List.mem_cons_self)
  · intro _
    apply hrest _ (h.drop hidle) rfl
    intro g hg
    exact Fs.Syscall.setFile_other hg _
  · rw [htype]
    exact FdType.noConfusion
  · intro hpipe
    rw [htype] at hpipe
    cases hpipe

/-- `pipe_alloc` with two files in hand fails and gives back what it has. -/
theorem pipeBad_ends {s0 : State} {rfp wfp pipe : Nat} (hidle : Idle s0.kernel)
    (h : Held s0.kernel s.kernel [rfp, wfp]) (htasks : s.kernel.tasks = s0.kernel.tasks)
    (hread : (s.kernel.files rfp).type = FdType.none)
    (hwrite : (s.kernel.files wfp).type = FdType.none)
    (hledger : (pipe = 0 ∧ Ledger s0 s [] [] []) ∨
      (pipe ≠ 0 ∧ Ledger s0 s [Event.kalloc pipe] [pipe] [])) :
    Ends (perform t) (pipeBad (some rfp) (some wfp) pipe) s (fun r s' =>
      r = none ∧ LeavesNothing s0 s') := by
  have hne : wfp ≠ rfp := h.ne.symm
  apply closeIdle_bind hidle h hread
  intro k1 h1 htasks1 hfiles1
  apply closeIdle_bind (s := { s with kernel := k1 }) hidle h1
  · show (k1.files wfp).type = FdType.none
    rw [hfiles1 wfp hne]
    exact hwrite
  · intro k2 h2 htasks2 _
    have hall : k2.tasks = s0.kernel.tasks := (htasks2.trans htasks1).trans htasks
    apply Program.ends_ite
    · intro hpipe
      rcases hledger with ⟨hzero, -⟩ | ⟨-, hledger⟩
      · exact absurd hzero hpipe
      · apply Program.ends_op
        intro _ s4 hfree
        rcases (hledger.setKernel k2).kfree hfree with ⟨hkernel, hdone⟩
        have hkept : s4.kernel = k2 := hkernel
        rw [<- hkept] at h2 hall
        apply Program.ends_pure
        exact ⟨rfl, LeavesNothing.of_held hall h2 (Undone.object pipe) hdone⟩
    · intro hpipe
      rcases hledger with ⟨-, hledger⟩ | ⟨hne, -⟩
      · apply Program.ends_pure
        exact ⟨rfl, LeavesNothing.of_held hall h2 Undone.nothing (hledger.setKernel k2)⟩
      · exact absurd hne hpipe

/-- The two ends of a pipe that no descriptor of the table before refers to. -/
structure Opened (s0 s : State) (rfp wfp pipe buffer : Nat) : Prop where
  held : Held s0.kernel s.kernel [rfp, wfp]
  read : (s.kernel.files rfp).type = FdType.pipe ∧ (s.kernel.files rfp).pipe = pipe ∧
    (s.kernel.files rfp).writable = false
  write : (s.kernel.files wfp).type = FdType.pipe ∧ (s.kernel.files wfp).pipe = pipe ∧
    (s.kernel.files wfp).writable = true
  ready : Ready s0 s pipe buffer

def PipeAllocPost (s0 : State) (r : Option (Nat × Nat)) (s : State) : Prop :=
  match r with
  | none => LeavesNothing s0 s
  | some (rfp, wfp) => s.kernel.tasks = s0.kernel.tasks ∧
      exists pipe buffer, Opened s0 s rfp wfp pipe buffer

theorem Held.openPipes {k k' : Fs.Syscall.State} {rfp wfp : Nat} (h : Held k k' [rfp, wfp])
    (pipe : Nat) :
    Held k (Fs.Syscall.openPipe wfp pipe true (Fs.Syscall.openPipe rfp pipe false k'))
      [rfp, wfp] := by
  apply h.congr
  · intro g
    by_cases hw : g = wfp
    · rw [hw, Fs.Syscall.openPipe_self]
      by_cases hr : wfp = rfp
      · rw [hr, Fs.Syscall.openPipe_self]
      · rw [Fs.Syscall.openPipe_other hr]
    · rw [Fs.Syscall.openPipe_other hw]
      by_cases hr : g = rfp
      · rw [hr, Fs.Syscall.openPipe_self]
      · rw [Fs.Syscall.openPipe_other hr]
  · intro g hg
    simp at hg
    rw [Fs.Syscall.openPipe_other hg.right, Fs.Syscall.openPipe_other hg.left]

theorem openEnds_ends {s0 : State} {rfp wfp pipe buffer : Nat}
    (h : Held s0.kernel s.kernel [rfp, wfp]) (htasks : s.kernel.tasks = s0.kernel.tasks)
    (hready : Ready s0 s pipe buffer) :
    Ends (perform t) (do
      op (Op.kernel (Fs.Syscall.Op.openPipe rfp pipe false))
      op (Op.kernel (Fs.Syscall.Op.openPipe wfp pipe true))
      pure (some (rfp, wfp))) s (PipeAllocPost s0) := by
  apply kernel_bind
  intro _ k hopen
  cases hopen
  apply kernel_bind
  intro _ k hopen
  cases hopen
  apply Program.ends_pure
  refine ⟨htasks, pipe, buffer, h.openPipes pipe, ?_, ?_, hready.setKernel _⟩
  · dsimp only
    rw [Fs.Syscall.openPipe_other h.ne, Fs.Syscall.openPipe_self]
    exact ⟨rfl, rfl, rfl⟩
  · dsimp only
    rw [Fs.Syscall.openPipe_self]
    exact ⟨rfl, rfl, rfl⟩

theorem pipeMemory_ends {s0 : State} {rfp wfp : Nat} (hidle : Idle s0.kernel)
    (halign : Aligned s.heap) (h : Held s0.kernel s.kernel [rfp, wfp])
    (htasks : s.kernel.tasks = s0.kernel.tasks)
    (hread : (s.kernel.files rfp).type = FdType.none)
    (hwrite : (s.kernel.files wfp).type = FdType.none)
    (hheap : s.heap = s0.heap) (htrace : s.trace = s0.trace) :
    Ends (perform t) (pipeMemory rfp wfp) s (PipeAllocPost s0) := by
  have hbad : forall pipe s', s'.kernel = s.kernel ->
      ((pipe = 0 ∧ Ledger s0 s' [] [] []) ∨
        (pipe ≠ 0 ∧ Ledger s0 s' [Event.kalloc pipe] [pipe] [])) ->
      Ends (perform t) (pipeBad (some rfp) (some wfp) pipe) s' (PipeAllocPost s0) := by
    intro pipe s' hkernel hledger
    rw [<- hkernel] at h htasks hread hwrite
    apply Program.ends_mono (pipeBad_ends hidle h htasks hread hwrite hledger)
    intro r s'' hboth
    rcases hboth with ⟨hr, hleaves⟩
    rw [hr]
    exact hleaves
  have hbase : forall s' events objects pages, Ledger s s' events objects pages ->
      Ledger s0 s' events objects pages := by
    intro s' events objects pages hledger
    constructor
    · rw [hledger.trace, htrace]
    · rw [<- hheap]
      exact hledger.live
    · rw [hledger.outside, hheap]
  apply Program.ends_op
  intro (pipe : Nat) s1 hkalloc
  rcases Ledger.kalloc halign hkalloc with ⟨hkernel, hpool, ⟨hzero, hledger⟩ |
    ⟨hnull, haligned, hledger⟩⟩
  · apply Program.ends_ite
    · intro _
      exact hbad 0 s1 hkernel (Or.inl ⟨rfl, hbase s1 _ _ _ hledger⟩)
    · intro hnull
      exact absurd hzero hnull
  · apply Program.ends_ite
    · intro hzero
      exact absurd hzero hnull
    · intro _
      apply Program.ends_op
      intro (buffer : Nat) s2 hget
      have hget' : Except.ok (getFreePage s1) = Except.ok (buffer, s2) := hget
      have hproper := fun page hpage => halign.pool page (hpool page hpage)
      apply Program.ends_op
      intro _ s3 hset
      cases hset
      rcases (hbase s1 _ _ _ hledger).getFreePage hproper with hempty | ⟨page, s1', hserved⟩
      · rw [hempty] at hget'
        cases hget'
        apply Program.ends_ite
        · intro _
          have hledger' := hbase s1 _ _ _ hledger
          exact hbad pipe _ hkernel
            (Or.inr ⟨hnull, hledger'.trace, hledger'.live, hledger'.outside⟩)
        · intro hnonzero
          exact absurd rfl hnonzero
      · rcases hserved with ⟨hpage, hkernel', hpos, hledger'⟩
        rw [hpage] at hget'
        cases hget'
        apply Program.ends_ite
        · intro hzero
          have hpos' := hpos.right.left
          rw [hzero] at hpos'
          exact absurd hpos' (Nat.lt_irrefl 0)
        · intro _
          have hready := ready_init haligned hpos hledger'
          have hsame : s2.kernel = s.kernel := hkernel'.trans hkernel
          apply Program.ends_op
          intro _ s4 hinit
          cases hinit
          rw [<- hsame] at h htasks
          exact openEnds_ends h htasks hready

theorem pipeAlloc_ends {s0 : State} (hidle : Idle s0.kernel) (halign : Aligned s0.heap) :
    Ends (perform t) pipeAlloc s0 (PipeAllocPost s0) := by
  have hstart : LeavesNothing s0 s0 :=
    LeavesNothing.of_held rfl (Held.refl s0.kernel) Undone.nothing (Ledger.refl s0)
  apply fileAlloc_bind
  · exact Program.ends_pure hstart
  · intro rfp hread
    rcases (Held.refl s0.kernel).take hidle hread with ⟨hheld, htype⟩
    apply fileAlloc_bind
    · apply closeIdle_bind hidle hheld htype
      intro k hback htasks _
      apply Program.ends_pure
      exact LeavesNothing.of_held htasks hback Undone.nothing ((Ledger.refl s0).setKernel k)
    · intro wfp hwrite
      rcases hheld.take hidle hwrite with ⟨hboth, htype'⟩
      have hne := hboth.ne
      have hrtype : ((Fs.Syscall.takeFile wfp (Fs.Syscall.takeFile rfp s0.kernel)).files
          rfp).type = FdType.none := by
        rw [Fs.Syscall.takeFile_other hne]
        exact htype
      exact pipeMemory_ends hidle halign hboth rfl hrtype htype' rfl rfl

/-- The writing end is closed behind the reading end, and the pipe goes. -/
theorem closeWrite_bind {s0 : State} {wfp pipe buffer : Nat} {rest : Unit -> Code Int}
    {Q : Int -> State -> Prop} (hidle : Idle s0.kernel)
    (hheld : Held s0.kernel s.kernel [wfp])
    (hwrite : (s.kernel.files wfp).type = FdType.pipe ∧ (s.kernel.files wfp).pipe = pipe ∧
      (s.kernel.files wfp).writable = true)
    (hledger : Ledger s0 s [Event.kalloc pipe, Event.getFreePage buffer] [pipe] [buffer])
    (hclosed : s.heap.mem (pipe + rclosedOffset) ≠ 0)
    (hstored : s.heap.mem.word (pipe + bufferOffset) = buffer ∨
      s.heap.mem.word (pipe + bufferOffset) = 0)
    (hrest : forall s', s'.kernel.tasks = s.kernel.tasks -> Held s0.kernel s'.kernel [] ->
      Ledger s0 s' [Event.kalloc pipe, Event.getFreePage buffer, Event.freePage buffer,
        Event.kfree pipe] [] [] -> Ends (perform t) (rest ()) s' Q) :
    Ends (perform t) (fileClose wfp >>= rest) s Q := by
  rcases hwrite with ⟨htype, hpipe, hmode⟩
  apply fileClose_bind (hheld.live wfp List.mem_cons_self)
  · intro hnone
    rw [htype] at hnone
    cases hnone
  · rw [htype]
    exact FdType.noConfusion
  · intro _
    rw [hpipe, hmode]
    apply pipeClose_write (s := { s with kernel := dropFile wfp s.kernel }) hclosed
    intro page s1 s2 hfree hpage hkfree
    have hmem : page = buffer ∨ page = 0 := by
      rw [hpage]
      exact hstored
    have hledger' : Ledger s0 (State.setMem { s with kernel := dropFile wfp s.kernel }
        (s.heap.mem.setByte (pipe + wclosedOffset) 1))
        [Event.kalloc pipe, Event.getFreePage buffer] [pipe] [buffer] :=
      ⟨hledger.trace, hledger.live, hledger.outside⟩
    rcases hmem with heq | hzero
    · rw [heq] at hfree
      rcases hledger'.freePage hfree with ⟨hkernel1, -, hledger1⟩
      rcases hledger1.kfree hkfree with ⟨hkernel2, hledger2⟩
      have hkernel := hkernel2.trans hkernel1
      apply hrest s2
      · rw [hkernel]
        rfl
      · rw [hkernel]
        exact hheld.drop hidle
      · exact hledger2
    · rw [hzero] at hfree
      cases hfree

theorem closeEnds_bind {s0 : State} {rfp wfp pipe buffer : Nat} {rest : Unit -> Code Int}
    {Q : Int -> State -> Prop} (hidle : Idle s0.kernel)
    (h : Opened s0 s rfp wfp pipe buffer)
    (hrest : forall s', s'.kernel.tasks = s.kernel.tasks -> Held s0.kernel s'.kernel [] ->
      Ledger s0 s' [Event.kalloc pipe, Event.getFreePage buffer, Event.freePage buffer,
        Event.kfree pipe] [] [] -> Ends (perform t) (rest ()) s' Q) :
    Ends (perform t) (fileClose rfp >>= fun _ => fileClose wfp >>= rest) s Q := by
  rcases h.read with ⟨htype, hpipe, hmode⟩
  have hwfile : (dropFile rfp s.kernel).files wfp = s.kernel.files wfp :=
    Fs.Syscall.setFile_other h.held.ne.symm _
  apply fileClose_bind (h.held.live rfp List.mem_cons_self)
  · intro hnone
    rw [htype] at hnone
    cases hnone
  · rw [htype]
    exact FdType.noConfusion
  · intro _
    rw [hpipe, hmode]
    apply pipeClose_read
    · exact h.ready.wopen
    · have hwrite := h.write
      rw [<- hwfile] at hwrite
      apply closeWrite_bind hidle (h.held.drop hidle) hwrite
      · exact ⟨h.ready.ledger.trace, h.ready.ledger.live, h.ready.ledger.outside⟩
      · show Lib.Memory.setByte _ (pipe + rclosedOffset) 1 (pipe + rclosedOffset) ≠ 0
        rw [setByte_self]
        decide
      · show Lib.Memory.word (Lib.Memory.setByte _ (pipe + 16) 1) (pipe + 92) = buffer ∨
          Lib.Memory.word (Lib.Memory.setByte _ (pipe + 16) 1) (pipe + 92) = 0
        rw [Lib.Memory.word_setByte_of_outside _ _ (Or.inl (by lia))]
        exact h.ready.stored
      · exact hrest

theorem setDescriptor_undo {k k' : Fs.Syscall.State} {fd f : Nat}
    (hfree : (k.tasks t).ofiles fd = none)
    (hset : k'.tasks = (Fs.Syscall.setDescriptor t fd (some f) k).tasks) :
    (Fs.Syscall.setDescriptor t fd none k').tasks = k.tasks := by
  funext u
  rw [Fs.Syscall.setDescriptor, Fs.Syscall.setTask_tasks, hset, Fs.Syscall.setDescriptor]
  by_cases hu : u = t
  · rw [if_pos hu, Fs.Syscall.setTask_self, hu]
    dsimp only
    rw [Function.update_idem, <- hfree, Function.update_eq_self]
  · rw [if_neg hu, Fs.Syscall.setTask_other hu]

/-- `sys_pipe` gives up both ends and clears the descriptor that it took. -/
theorem sysPipeBad_ends {s0 : State} {rfp wfp pipe buffer : Nat} {rfd : Option Nat}
    (hidle : Idle s0.kernel) (h : Opened s0 s rfp wfp pipe buffer)
    (htasks : match rfd with
      | none => s.kernel.tasks = s0.kernel.tasks
      | some fd => (s0.kernel.tasks t).ofiles fd = none ∧
          s.kernel.tasks = (Fs.Syscall.setDescriptor t fd (some rfp) s0.kernel).tasks) :
    Ends (perform t) (sysPipeBad t rfp wfp rfd) s (fun _ s' => LeavesNothing s0 s') := by
  apply closeEnds_bind hidle h
  intro s1 htasks1 hback hledger
  cases rfd with
  | none =>
      apply Program.ends_pure
      exact LeavesNothing.of_held (htasks1.trans htasks) hback (Undone.page pipe buffer) hledger
  | some fd =>
      rcases htasks with ⟨hfree, hset⟩
      apply kernel_bind
      intro _ k hclear
      cases hclear
      apply Program.ends_pure
      exact LeavesNothing.of_held (setDescriptor_undo hfree (htasks1.trans hset))
        (hback.congr (fun _ => rfl) (fun _ _ => rfl)) (Undone.page pipe buffer)
        (hledger.setKernel _)

/-- A call of `sys_pipe` that fails leaves nothing, wherever it fails. -/
theorem sysPipe_leavesNothing (t : Nat) (fds : Bool) (s s' : State) (hidle : Idle s.kernel)
    (halign : Aligned s.heap)
    (hrun : Program.exec (perform t) (sysPipe t fds) s = Except.ok (-1, s')) :
    LeavesNothing s s' := by
  have hends : Ends (perform t) (sysPipe t fds) s (fun r s' => r = -1 -> LeavesNothing s s') := by
    apply Program.ends_ite
    · intro _
      apply Program.ends_bind (pipeAlloc_ends hidle halign)
      intro r s1 _ hpost
      cases r with
      | none => exact Program.ends_pure (fun _ => hpost)
      | some ends =>
          rcases ends with ⟨rfp, wfp⟩
          rcases hpost with ⟨htasks, pipe, buffer, hopened⟩
          apply fdAlloc_bind
          · exact Program.ends_mono (sysPipeBad_ends hidle hopened htasks) (fun _ _ h _ => h)
          · intro rfd hrfd
            have hopened' : Opened s { s1 with
                kernel := Fs.Syscall.setDescriptor t rfd (some rfp) s1.kernel }
                rfp wfp pipe buffer :=
              ⟨hopened.held.congr (fun _ => rfl) (fun _ _ => rfl), hopened.read, hopened.write,
                hopened.ready.setKernel _⟩
            have hfree : (s.kernel.tasks t).ofiles rfd = none := by
              rw [<- htasks]
              exact hrfd.free
            have hset : (Fs.Syscall.setDescriptor t rfd (some rfp) s1.kernel).tasks =
                (Fs.Syscall.setDescriptor t rfd (some rfp) s.kernel).tasks := by
              unfold Fs.Syscall.setDescriptor Fs.Syscall.State.setTask
              rw [htasks]
            have hbad : Ends (perform t) (sysPipeBad t rfp wfp (some rfd)) { s1 with
                kernel := Fs.Syscall.setDescriptor t rfd (some rfp) s1.kernel }
                (fun _ s' => LeavesNothing s s') :=
              sysPipeBad_ends hidle hopened' ⟨hfree, hset⟩
            apply fdAlloc_bind
            · exact Program.ends_mono hbad (fun _ _ h _ => h)
            · intro wfd _
              apply Program.ends_pure
              intro hr
              cases hr
    · intro _
      apply Program.ends_pure
      intro _
      exact LeavesNothing.of_held rfl (Held.refl s.kernel) Undone.nothing (Ledger.refl s)
  exact hends.run (-1) s' hrun rfl

end Calls

def booted (pool : List Nat) : State where
  kernel := Fs.Syscall.boot Fs.Syscall.rootDisk
  heap := Kalloc.kallocInit (fun _ => 0) pool
  trace := []

/-- The only page goes to the objects of the size of a pipe, and none is left for the buffer. -/
theorem sysPipe_leavesNothing_booted : exists s',
    Program.exec (perform Fs.Syscall.initTask) (sysPipe Fs.Syscall.initTask true)
        (booted [0x200000]) = Except.ok (-1, s') ∧
      s'.trace = [Event.kalloc 0x200004, Event.kfree 0x200004] ∧
      LeavesNothing (booted [0x200000]) s' := by
  have hfails : ((Program.exec (perform Fs.Syscall.initTask) (sysPipe Fs.Syscall.initTask true)
      (booted [0x200000])).map (fun r => (r.1, r.2.trace))).toOption =
      some (-1, [Event.kalloc 0x200004, Event.kfree 0x200004]) := by
    decide +kernel
  have hidle : Idle (booted [0x200000]).kernel :=
    Idle.of_table (Fs.Syscall.table_boot Fs.Syscall.rootDisk)
  have haligned : Aligned (booted [0x200000]).heap :=
    Aligned.of_seated (Kalloc.kallocInit_tally (fun _ => 0) Kalloc.poolSound_one).seated
  cases hrun : Program.exec (perform Fs.Syscall.initTask) (sysPipe Fs.Syscall.initTask true)
      (booted [0x200000]) with
  | error e =>
      rw [hrun] at hfails
      cases hfails
  | ok r =>
      rcases r with ⟨answer, s'⟩
      rw [hrun] at hfails
      rcases Prod.mk.inj (Option.some.inj hfails) with ⟨hanswer, htrace⟩
      have hfailed : answer = -1 := hanswer
      rw [hfailed] at hrun ⊢
      exact ⟨s', rfl, htrace, sysPipe_leavesNothing Fs.Syscall.initTask true (booted [0x200000]) s'
        hidle haligned hrun⟩

end PipeCall
end Kernel
end NicoOS
