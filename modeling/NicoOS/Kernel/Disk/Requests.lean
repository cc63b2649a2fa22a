import NicoOS.Kernel.Disk.Locks
import NicoOS.Lib.Outcome
import Mathlib.Data.List.Nodup

/-!
# The queue of disk requests

One semaphore serves all requests of the channel, so an interrupt wakes up the
right task only because the tasks wait in the order of their requests.
-/

namespace NicoOS
namespace Kernel
namespace Disk

open Lib

variable {α : Type}

structure Requests (s : State α) : Prop where
  service : s.service = s.queue.head?
  nodup : s.queue.Nodup
  owners : List.Forall₂ (fun b t => (s.calls t).io = some b) s.queue s.chan.waiting
  pending : forall b, b ∈ s.queue -> (s.bufs b).isClean = false
  woken : forall t, t ∈ s.chan.released ->
    exists b, (s.calls t).io = some b ∧ (s.bufs b).isClean = true
  asleep : forall t b, (s.calls t).io = some b -> t ∈ s.chan.waiting ∨ t ∈ s.chan.released
  releasedNodup : s.chan.released.Nodup
  sound : s.chan.Sound
  low : s.chan.val ≤ 0
  issued : s.issued = s.completed ++ s.queue
  started : s.started = s.completed ++ s.queue.take 1

/-- Each request in the queue has a task that waits for it. -/
theorem Requests.owner_of_mem {s : State α} (h : Requests s) {b : Nat} (hb : b ∈ s.queue) :
    exists t, (s.calls t).io = some b := by
  rcases List.forall₂_iff_get.mp h.owners with ⟨hlen, hget⟩
  rcases List.get_of_mem hb with ⟨n, hn⟩
  have hlt : n < s.chan.waiting.length := by
    rw [← hlen]
    exact n.isLt
  refine ⟨s.chan.waiting.get ⟨n, hlt⟩, ?_⟩
  rw [hget n n.isLt hlt]
  exact congrArg some hn

theorem Requests.request_of_mem {s : State α} (h : Requests s) {t : Nat}
    (ht : t ∈ s.chan.waiting) : exists b, b ∈ s.queue ∧ (s.calls t).io = some b := by
  rcases List.forall₂_iff_get.mp h.owners with ⟨hlen, hget⟩
  rcases List.get_of_mem ht with ⟨n, hn⟩
  have hlt : n < s.queue.length := by
    rw [hlen]
    exact n.isLt
  have hio := hget n hlt n.isLt
  rw [hn] at hio
  exact ⟨_, List.get_mem _ _, hio⟩

/-- What of a state the queue of requests depends on. -/
theorem Requests.congr {s s' : State α} (h : Requests s) (hqueue : s'.queue = s.queue)
    (hservice : s'.service = s.service) (hchan : s'.chan = s.chan)
    (hissued : s'.issued = s.issued) (hstarted : s'.started = s.started)
    (hcompleted : s'.completed = s.completed)
    (hio : forall t, (s'.calls t).io = (s.calls t).io)
    (hclean : forall b t, (s.calls t).io = some b ->
      (s'.bufs b).isClean = (s.bufs b).isClean) : Requests s' := by
  constructor
  · rw [hservice, hqueue]
    exact h.service
  · rw [hqueue]
    exact h.nodup
  · rw [hqueue, hchan]
    apply h.owners.imp
    intro b t ht
    rw [hio t]
    exact ht
  · intro b hb
    rw [hqueue] at hb
    rcases h.owner_of_mem hb with ⟨t, ht⟩
    rw [hclean b t ht]
    exact h.pending b hb
  · intro t ht
    rw [hchan] at ht
    rcases h.woken t ht with ⟨b, hb, hdone⟩
    refine ⟨b, ?_, ?_⟩
    · rw [hio t]
      exact hb
    · rw [hclean b t hb]
      exact hdone
  · intro t b ht
    rw [hio t] at ht
    rw [hchan]
    exact h.asleep t b ht
  · rw [hchan]
    exact h.releasedNodup
  · rw [hchan]
    exact h.sound
  · rw [hchan]
    exact h.low
  · rw [hissued, hcompleted, hqueue]
    exact h.issued
  · rw [hstarted, hcompleted, hqueue]
    exact h.started

/-!
# Requests
-/

section Driver

variable {s s' : State α} {t b : Nat}

/-- What the driver leaves alone. -/
structure SameCache (s s' : State α) : Prop where
  bufs : s'.bufs = s.bufs
  lru : s'.lru = s.lru
  calls : s'.calls = s.calls
  stored : s'.stored = s.stored
  reads : s'.reads = s.reads

/-- The data that a started request writes. -/
def written (s : State α) (b : Nat) : Nat -> UInt32 -> α :=
  match (s.bufs b).dirty, (s.bufs b).disk with
  | true, some d => setBlock s.storage d (s.bufs b).blockNo (s.bufs b).data
  | _, _ => s.storage

theorem idestart_ok (h : idestart b s = Except.ok s') :
    s' = { s with service := some b, started := s.started ++ [b], storage := written s b } ∧
      exists d, (s.bufs b).disk = some d := by
  unfold idestart at h
  cases hdisk : (s.bufs b).disk with
  | none =>
      rw [hdisk] at h
      cases h
  | some d =>
      rw [hdisk] at h
      cases h
      refine ⟨?_, d, rfl⟩
      unfold written
      rw [hdisk]
      cases (s.bufs b).dirty with
      | true => rfl
      | false => rfl

/-- The queue behind a new request. -/
structure Enqueued (b : Nat) (s s' : State α) : Prop where
  cache : SameCache s s'
  queue : s'.queue = s.queue ++ [b]
  chan : s'.chan = s.chan
  service : s'.service = (s.queue ++ [b]).head?
  issued : s'.issued = s.issued ++ [b]
  started : s'.started = if s.queue = [] then s.started ++ [b] else s.started
  completed : s'.completed = s.completed
  storage : s'.storage = if s.queue = [] then written s b else s.storage

theorem enqueue_spec (hservice : s.service = s.queue.head?)
    (h : enqueue b s = Except.ok s') : Enqueued b s s' := by
  unfold enqueue at h
  cases hqueue : s.queue with
  | nil =>
      rw [hqueue, if_pos rfl] at h
      rcases idestart_ok h with ⟨heq, _⟩
      rw [heq]
      constructor
      · exact ⟨rfl, rfl, rfl, rfl, rfl⟩
      · rw [hqueue]
        rfl
      · rfl
      · rw [hqueue]
        rfl
      · rfl
      · rw [hqueue, if_pos rfl]
      · rfl
      · rw [hqueue, if_pos rfl]
        rfl
  | cons c rest =>
      rw [hqueue, if_neg (List.cons_ne_nil c rest)] at h
      cases h
      constructor
      · exact ⟨rfl, rfl, rfl, rfl, rfl⟩
      · rw [hqueue]
      · rfl
      · rw [hqueue]
        rw [hqueue] at hservice
        exact hservice
      · rfl
      · rw [hqueue, if_neg (List.cons_ne_nil c rest)]
      · rfl
      · rw [hqueue, if_neg (List.cons_ne_nil c rest)]

def blockOnChan (t : Nat) (s : State α) : State α :=
  { s with
    chan := { s.chan with
      toSemaphore := { val := s.chan.val - 1, waiting := s.chan.waiting ++ [t] } } }

theorem waitForRequest_clean (h : (s.bufs b).isClean = true) :
    waitForRequest t b s = Except.ok (true, s) := by
  rw [waitForRequest, waitLoop, if_pos h]

theorem waitForRequest_block (h : (s.bufs b).isClean = false) (hlow : s.chan.val ≤ 0) :
    waitForRequest t b s = Except.ok (false, blockOnChan t s) := by
  have hwait : s.chan.wait t = (false, { s.chan with
      toSemaphore := { val := s.chan.val - 1, waiting := s.chan.waiting ++ [t] } }) := by
    unfold Turnstile.wait Semaphore.wait
    rw [if_pos (by lia)]
  rw [waitForRequest, waitLoop, h, if_neg Bool.false_ne_true, hwait]
  rfl

/-- A call of `iderw` always waits: the channel has no unit to spare. -/
theorem iderw_spec (h : Requests s) {result : Bool × State α}
    (hio : iderw t b s = Except.ok result) :
    exists s1, Enqueued b s s1 ∧ result = (false, blockOnChan t s1) ∧
      (s.bufs b).isClean = false ∧ (s.bufs b).holder = some t := by
  unfold iderw at hio
  split at hio
  · cases hio
  · rename_i hholder
    split at hio
    · cases hio
    · rename_i hclean
      rw [Bool.not_eq_true] at hclean
      rcases bind_ok hio with ⟨s1, henqueue, hwait⟩
      have henqueued := enqueue_spec h.service henqueue
      rw [waitForRequest_block] at hwait
      · cases hwait
        exact ⟨s1, henqueued, rfl, hclean, not_not.mp hholder⟩
      · rw [henqueued.cache.bufs]
        exact hclean
      · rw [henqueued.chan]
        exact h.low

/-- The request and its task stand at the ends of the two queues. -/
theorem Requests.enqueue {s1 : State α} {c : Call} (h : Requests s)
    (hlocked : Locked s) (henqueued : Enqueued b s s1) (hclean : (s.bufs b).isClean = false)
    (hheld : (s.bufs b).holder = some t) (hold : (s.calls t).io = none) (hc : c.io = some b) :
    Requests ((blockOnChan t s1).setCall t c) := by
  have hcalls : forall u, u ≠ t ->
      ((blockOnChan t s1).setCall t c).calls u = s.calls u := by
    intro u hu
    rw [setCall_of_ne hu]
    show s1.calls u = _
    rw [henqueued.cache.calls]
  have hbusy : forall u e, (s.calls u).io = some e -> u ≠ t := by
    intro u e hu heq
    rw [heq, hold] at hu
    cases hu
  have hnew : Not (b ∈ s.queue) := by
    intro hmem
    rcases h.owner_of_mem hmem with ⟨u, hu⟩
    have hother := hlocked.owned b u (Call.owned_of_io hu)
    rw [hheld] at hother
    exact hbusy u b hu (Option.some.inj hother).symm
  have hbufs : ((blockOnChan t s1).setCall t c).bufs = s.bufs := henqueued.cache.bufs
  have hqueue : ((blockOnChan t s1).setCall t c).queue = s.queue ++ [b] := henqueued.queue
  have hsound : s.chan.waiting.length = (-s.chan.val).toNat := h.sound
  constructor
  · rw [hqueue]
    exact henqueued.service
  · rw [hqueue]
    refine h.nodup.append (List.nodup_singleton b) ?_
    intro e he hlast
    rw [List.mem_singleton.mp hlast] at he
    exact hnew he
  · rw [hqueue]
    show List.Forall₂ _ _ (s1.chan.waiting ++ [t])
    rw [henqueued.chan]
    apply List.rel_append
    · apply h.owners.imp
      intro e u hu
      rw [hcalls u (hbusy u e hu)]
      exact hu
    · refine List.Forall₂.cons ?_ List.Forall₂.nil
      rw [setCall_self]
      exact hc
  · intro e he
    rw [hqueue] at he
    rw [hbufs]
    rcases List.mem_append.mp he with hmem | hlast
    · exact h.pending e hmem
    · rw [List.mem_singleton.mp hlast]
      exact hclean
  · intro u hu
    change u ∈ s1.chan.released at hu
    rw [henqueued.chan] at hu
    rcases h.woken u hu with ⟨e, he, hdone⟩
    refine ⟨e, ?_, ?_⟩
    · rw [hcalls u (hbusy u e he)]
      exact he
    · rw [hbufs]
      exact hdone
  · intro u e hu
    show u ∈ s1.chan.waiting ++ [t] ∨ u ∈ s1.chan.released
    rw [henqueued.chan]
    cases Decidable.em (u = t) with
    | inl heq =>
        rw [heq]
        exact Or.inl (List.mem_append_right _ (List.mem_singleton.mpr rfl))
    | inr hne =>
        rw [hcalls u hne] at hu
        exact (h.asleep u e hu).imp_left (List.mem_append_left _)
  · show s1.chan.released.Nodup
    rw [henqueued.chan]
    exact h.releasedNodup
  · show (s1.chan.waiting ++ [t]).length = (-(s1.chan.val - 1)).toNat
    have hlow := h.low
    rw [henqueued.chan, List.length_append, List.length_singleton]
    lia
  · show s1.chan.val - 1 ≤ 0
    have hlow := h.low
    rw [henqueued.chan]
    lia
  · rw [hqueue]
    show s1.issued = s1.completed ++ _
    rw [henqueued.issued, henqueued.completed, h.issued, List.append_assoc]
  · rw [hqueue]
    show s1.started = s1.completed ++ _
    rw [henqueued.completed, henqueued.started]
    have hstarted := h.started
    cases hq : s.queue with
    | nil =>
        rw [hq, List.take_nil, List.append_nil] at hstarted
        rw [if_pos rfl, hstarted]
        rfl
    | cons e rest =>
        rw [hq] at hstarted
        rw [if_neg (List.cons_ne_nil e rest), hstarted]
        rfl

/-- The storage after the next request of the queue is started. -/
def nextWritten (s : State α) : List Nat -> Nat -> UInt32 -> α
  | [] => s.storage
  | c :: _ => written s c

/-- The queue behind an interrupt: the task at the front is woken up. -/
structure Completed (b : Nat) (rest : List Nat) (s s' : State α) : Prop where
  busy : s.queue = b :: rest
  bufs : s'.bufs = (complete b rest s).bufs
  lru : s'.lru = s.lru
  calls : s'.calls = s.calls
  stored : s'.stored = s.stored
  reads : s'.reads = s.reads
  queue : s'.queue = rest
  chan : s.chan.signal = some s'.chan
  service : s'.service = rest.head?
  issued : s'.issued = s.issued
  started : s'.started = s.started ++ rest.take 1
  completed : s'.completed = s.completed ++ [b]
  storage : s'.storage = nextWritten (complete b rest s) rest

theorem ideIntrHandler_spec (hservice : s.service = s.queue.head?)
    (h : ideIntrHandler s = Except.ok s') : exists b rest, Completed b rest s s' := by
  unfold ideIntrHandler at h
  cases hqueue : s.queue with
  | nil =>
      rw [hqueue] at hservice
      rw [hservice] at h
      cases h
  | cons b rest =>
      rw [hqueue] at hservice
      rw [hservice, hqueue] at h
      dsimp only [List.head?_cons] at h
      cases hsignal : s.chan.signal with
      | none =>
          rw [hsignal] at h
          cases h
      | some sem =>
          rw [hsignal] at h
          refine ⟨b, rest, ?_⟩
          cases rest with
          | nil =>
              cases h
              exact ⟨hqueue, rfl, rfl, rfl, rfl, rfl, rfl, hsignal, rfl, rfl,
                (List.append_nil _).symm, rfl, rfl⟩
          | cons c others =>
              rcases idestart_ok h with ⟨heq, _⟩
              rw [heq]
              exact ⟨hqueue, rfl, rfl, rfl, rfl, rfl, rfl, hsignal, rfl, rfl, rfl, rfl, rfl⟩

theorem complete_isClean (b : Nat) (rest : List Nat) (s : State α) :
    ((complete b rest s).bufs b).isClean = true := by
  show ((s.setBuf b _).bufs b).isClean = true
  rw [setBuf_self]
  rfl

theorem complete_of_ne {c : Nat} (hne : c ≠ b) (rest : List Nat) (s : State α) :
    (complete b rest s).bufs c = s.bufs c := setBuf_of_ne hne _

theorem Requests.complete {rest : List Nat} (h : Requests s)
    (hdone : Completed b rest s s') : Requests s' := by
  have hnodup := h.nodup
  rw [hdone.busy] at hnodup
  have hsound : s.chan.waiting.length = (-s.chan.val).toNat := h.sound
  have howners := h.owners
  rw [hdone.busy] at howners
  cases hwait : s.chan.waiting with
  | nil =>
      rw [hwait] at howners
      cases howners
  | cons t others =>
      rw [hwait] at howners hsound
      cases howners with
      | cons hhead htail =>
          have hval : s.chan.val < 0 := by
            rw [List.length_cons] at hsound
            lia
          have hchan : s'.chan = ⟨⟨s.chan.val + 1, others⟩, t :: s.chan.released⟩ :=
            Option.some.inj (hdone.chan.symm.trans (Turnstile.signal_waiting h.sound hwait))
          have hclean : forall e, e ∈ rest -> (s'.bufs e).isClean = false := by
            intro e he
            have hne : e ≠ b := by
              intro heq
              rw [heq] at he
              exact (List.nodup_cons.mp hnodup).left he
            rw [hdone.bufs, complete_of_ne hne]
            apply h.pending
            rw [hdone.busy]
            exact List.mem_cons_of_mem b he
          constructor
          · rw [hdone.service, hdone.queue]
          · rw [hdone.queue]
            exact (List.nodup_cons.mp hnodup).right
          · rw [hdone.queue, hchan, hdone.calls]
            exact htail
          · intro e he
            rw [hdone.queue] at he
            exact hclean e he
          · intro u hu
            rw [hchan] at hu
            rw [hdone.calls, hdone.bufs]
            rcases List.mem_cons.mp hu with heq | hmem
            · rw [heq]
              exact ⟨b, hhead, complete_isClean b rest s⟩
            · rcases h.woken u hmem with ⟨e, he, hdone'⟩
              refine ⟨e, he, ?_⟩
              cases Decidable.em (e = b) with
              | inl heq =>
                  rw [heq]
                  exact complete_isClean b rest s
              | inr hne =>
                  rw [complete_of_ne hne]
                  exact hdone'
          · intro u e hu
            rw [hdone.calls] at hu
            rw [hchan]
            have hold := h.asleep u e hu
            rw [hwait] at hold
            rcases hold with hmem | hmem
            · rcases List.mem_cons.mp hmem with heq | htail
              · rw [heq]
                exact Or.inr List.mem_cons_self
              · exact Or.inl htail
            · exact Or.inr (List.mem_cons_of_mem t hmem)
          · rw [hchan]
            apply List.nodup_cons.mpr
            refine ⟨?_, h.releasedNodup⟩
            intro hmem
            rcases h.woken t hmem with ⟨e, he, hdone'⟩
            rw [hhead] at he
            have hpending := h.pending b (by rw [hdone.busy]; exact List.mem_cons_self)
            rw [← Option.some.inj he, hpending] at hdone'
            cases hdone'
          · rw [hchan]
            show others.length = (-(s.chan.val + 1)).toNat
            rw [List.length_cons] at hsound
            lia
          · rw [hchan]
            show s.chan.val + 1 ≤ 0
            lia
          · rw [hdone.issued, hdone.completed, hdone.queue, h.issued, hdone.busy,
              List.append_assoc]
            rfl
          · rw [hdone.started, hdone.completed, hdone.queue, h.started, hdone.busy]
            rfl

theorem Requests.resume (h : Requests s) (hwoken : t ∈ s.chan.released) {c : Call}
    (hc : c.io = none) : Requests ({ s with chan := s.chan.resume t }.setCall t c) := by
  rcases h.woken t hwoken with ⟨b, hio, hclean⟩
  have hother : forall u e, e ∈ s.queue -> (s.calls u).io = some e -> u ≠ t := by
    intro u e he hu heq
    rw [heq, hio] at hu
    rw [← Option.some.inj hu] at he
    rw [h.pending b he] at hclean
    cases hclean
  constructor
  · exact h.service
  · exact h.nodup
  · show List.Forall₂ _ s.queue s.chan.waiting
    apply List.forall₂_iff_get.mpr
    rcases List.forall₂_iff_get.mp h.owners with ⟨hlen, hget⟩
    refine ⟨hlen, ?_⟩
    intro n hn hn'
    have hu := hget n hn hn'
    rw [setCall_of_ne (hother _ _ (List.get_mem _ _) hu)]
    exact hu
  · exact h.pending
  · intro u hu
    have hmem : u ∈ s.chan.released.erase t := hu
    have hne : u ≠ t := by
      intro heq
      rw [heq] at hmem
      exact h.releasedNodup.not_mem_erase hmem
    rw [setCall_of_ne hne]
    exact h.woken u (List.mem_of_mem_erase hmem)
  · intro u e hu
    cases Decidable.em (u = t) with
    | inl heq =>
        rw [heq, setCall_self, hc] at hu
        cases hu
    | inr hne =>
        rw [setCall_of_ne hne] at hu
        apply (h.asleep u e hu).imp_right
        intro hmem
        exact (List.mem_erase_of_ne hne).mpr hmem
  · exact h.releasedNodup.erase t
  · exact h.sound
  · exact h.low
  · exact h.issued
  · exact h.started

end Driver

end Disk
end Kernel
end NicoOS
