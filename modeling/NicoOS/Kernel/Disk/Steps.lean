import NicoOS.Kernel.Disk.Requests

/-!
# The steps of tasks and interrupts

What one step can do to the cache and to the queue, as a relation with one case
for each stretch of the code.
-/

namespace NicoOS
namespace Kernel
namespace Disk

open Lib

variable {α : Type}

inductive Moves (s : State α) : State α -> Prop where
  | hit (t d : Nat) (k : UInt32) (b : Nat) (hidle : s.calls t = Call.idle)
      (hfind : walk s.lru.next (isCached s d k) (nbuf + 1) (s.lru.next none) = some b) :
      Moves s ((s.setBuf b { s.bufs b with refcnt := (s.bufs b).refcnt + 1 }).setCall t
        (Call.got d k b))
  | recycle (t d : Nat) (k : UInt32) (b : Nat) (hidle : s.calls t = Call.idle)
      (hmiss : walk s.lru.next (isCached s d k) (nbuf + 1) (s.lru.next none) = none)
      (hfind : walk s.lru.prev (isUnused s) (nbuf + 1) (s.lru.prev none) = some b) :
      Moves s ((s.setBuf b { s.bufs b with
        refcnt := 1
        valid := false
        dirty := false
        disk := some d
        blockNo := k }).setCall t (Call.got d k b))
  | lock (t d : Nat) (k : UInt32) (b : Nat) (sem : Turnstile)
      (hcall : s.calls t = Call.got d k b) (hwait : (s.bufs b).sem.wait t = (true, sem)) :
      Moves s ((s.setBuf b { s.bufs b with sem := sem, holder := some t }).setCall t
        (Call.locked d k b))
  | join (t d : Nat) (k : UInt32) (b : Nat) (sem : Turnstile)
      (hcall : s.calls t = Call.got d k b) (hwait : (s.bufs b).sem.wait t = (false, sem)) :
      Moves s ((s.setBuf b { s.bufs b with sem := sem }).setCall t (Call.locking d k b))
  | wake (t d : Nat) (k : UInt32) (b : Nat) (hcall : s.calls t = Call.locking d k b)
      (hwoken : t ∈ (s.bufs b).sem.released) :
      Moves s ((s.setBuf b { s.bufs b with
        sem := (s.bufs b).sem.resume t
        holder := some t }).setCall t (Call.locked d k b))
  | found (t d : Nat) (k : UInt32) (b : Nat) (hcall : s.calls t = Call.locked d k b)
      (hvalid : (s.bufs b).valid = true) : Moves s (returnRead t d k b s)
  | load (t d : Nat) (k : UInt32) (b : Nat) (s1 : State α)
      (hcall : s.calls t = Call.locked d k b) (hvalid : (s.bufs b).valid = false)
      (henqueued : Enqueued b s s1) :
      Moves s ((blockOnChan t s1).setCall t (Call.reading d k b))
  | loaded (t d : Nat) (k : UInt32) (b : Nat) (hcall : s.calls t = Call.reading d k b)
      (hwoken : t ∈ s.chan.released) (hclean : (s.bufs b).isClean = true) :
      Moves s (returnRead t d k b { s with chan := s.chan.resume t })
  | store (t b : Nat) (data : α) (hidle : s.calls t = Call.idle)
      (hheld : (s.bufs b).holder = some t) : Moves s (storeData b data s)
  | log (t b : Nat) (hidle : s.calls t = Call.idle) (hheld : (s.bufs b).holder = some t) :
      Moves s (markDirty b s)
  | mark (t b : Nat) (hidle : s.calls t = Call.idle) (hheld : (s.bufs b).holder = some t) :
      Moves s ((markDirty b s).setCall t (Call.marked b))
  | flush (t b : Nat) (s1 : State α) (hcall : s.calls t = Call.marked b)
      (hclean : (s.bufs b).isClean = false) (henqueued : Enqueued b s s1) :
      Moves s ((blockOnChan t s1).setCall t (Call.flushing b))
  | flushed (t b : Nat) (hcall : s.calls t = Call.flushing b) (hwoken : t ∈ s.chan.released)
      (hclean : (s.bufs b).isClean = true) :
      Moves s ({ s with chan := s.chan.resume t }.setCall t Call.idle)
  | unlock (t b : Nat) (sem : Turnstile) (hidle : s.calls t = Call.idle)
      (hheld : (s.bufs b).holder = some t) (hmarked : (s.bufs b).unmarked = false)
      (hsignal : (s.bufs b).sem.signal = some sem) :
      Moves s ((s.setBuf b { s.bufs b with sem := sem, holder := none }).setCall t
        (Call.releasing b))
  | drop (t b : Nat) (hcall : s.calls t = Call.releasing b) : Moves s (dropRef t b s)
  | interrupt (b : Nat) (rest : List Nat) (s' : State α) (hdone : Completed b rest s s') :
      Moves s s'

/-!
# The code takes these steps
-/

section Code

variable {s s' : State α} {t d b : Nat} {k : UInt32}

theorem bufGet_moves (hidle : s.calls t = Call.idle) (h : bufGet t d k s = Except.ok s') :
    Moves s s' := by
  unfold bufGet at h
  cases hfind : walk s.lru.next (isCached s d k) (nbuf + 1) (s.lru.next none) with
  | some b =>
      rw [hfind] at h
      cases h
      exact Moves.hit t d k b hidle hfind
  | none =>
      rw [hfind] at h
      cases hunused : walk s.lru.prev (isUnused s) (nbuf + 1) (s.lru.prev none) with
      | none =>
          simp only [hunused] at h
          cases h
      | some b =>
          simp only [hunused] at h
          cases h
          exact Moves.recycle t d k b hidle hfind hunused

theorem lockBuf_moves (hcall : s.calls t = Call.got d k b) : Moves s (lockBuf t d k b s) := by
  unfold lockBuf
  cases hwait : (s.bufs b).sem.wait t with
  | mk pass sem =>
      cases pass with
      | true => exact Moves.lock t d k b sem hcall hwait
      | false => exact Moves.join t d k b sem hcall hwait

theorem checkValid_moves (hreq : Requests s) (hcall : s.calls t = Call.locked d k b)
    (h : checkValid t d k b s = Except.ok s') : Moves s s' := by
  unfold checkValid at h
  cases hvalid : (s.bufs b).valid with
  | true =>
      rw [hvalid, if_pos rfl] at h
      cases h
      exact Moves.found t d k b hcall hvalid
  | false =>
      rw [hvalid, if_neg Bool.false_ne_true] at h
      rcases bind_ok h with ⟨result, hio, hrest⟩
      rcases iderw_spec hreq hio with ⟨s1, henqueued, heq, _, _⟩
      rw [heq] at hrest
      cases hrest
      exact Moves.load t d k b s1 hcall hvalid henqueued

theorem flushBuf_moves (hreq : Requests s) (hcall : s.calls t = Call.marked b)
    (h : flushBuf t b s = Except.ok s') : Moves s s' := by
  rcases bind_ok h with ⟨result, hio, hrest⟩
  rcases iderw_spec hreq hio with ⟨s1, henqueued, heq, hclean, _⟩
  rw [heq] at hrest
  cases hrest
  exact Moves.flush t b s1 hcall hclean henqueued

theorem Requests.clean_of_woken (hreq : Requests s) (hwoken : t ∈ s.chan.released)
    (hio : (s.calls t).io = some b) : (s.bufs b).isClean = true := by
  rcases hreq.woken t hwoken with ⟨e, he, hclean⟩
  rw [hio] at he
  rw [Option.some.inj he]
  exact hclean

theorem run_reading (hcall : s.calls t = Call.reading d k b) (hwoken : t ∈ s.chan.released)
    (hclean : (s.bufs b).isClean = true) :
    run t s = Except.ok (returnRead t d k b { s with chan := s.chan.resume t }) := by
  unfold run
  simp only [hcall]
  rw [if_pos hwoken, waitForRequest_clean (s := { s with chan := s.chan.resume t }) hclean]
  rfl

theorem run_flushing (hcall : s.calls t = Call.flushing b) (hwoken : t ∈ s.chan.released)
    (hclean : (s.bufs b).isClean = true) :
    run t s = Except.ok ({ s with chan := s.chan.resume t }.setCall t Call.idle) := by
  unfold run
  simp only [hcall]
  rw [if_pos hwoken, waitForRequest_clean (s := { s with chan := s.chan.resume t }) hclean]
  rfl

theorem run_moves (hreq : Requests s) (h : run t s = Except.ok s') : Moves s s' := by
  have hrun := h
  unfold run at h
  cases hcall : s.calls t with
  | idle =>
      rw [hcall] at h
      cases h
  | got d k b =>
      rw [hcall] at h
      cases h
      exact lockBuf_moves hcall
  | locking d k b =>
      simp only [hcall] at h
      cases Decidable.em (t ∈ (s.bufs b).sem.released) with
      | inl hwoken =>
          rw [if_pos hwoken] at h
          cases h
          exact Moves.wake t d k b hcall hwoken
      | inr hasleep =>
          rw [if_neg hasleep] at h
          cases h
  | locked d k b =>
      rw [hcall] at h
      exact checkValid_moves hreq hcall h
  | reading d k b =>
      simp only [hcall] at h
      cases Decidable.em (t ∈ s.chan.released) with
      | inl hwoken =>
          have hclean : (s.bufs b).isClean = true :=
            hreq.clean_of_woken hwoken (by rw [hcall]; rfl)
          rw [run_reading hcall hwoken hclean] at hrun
          cases hrun
          exact Moves.loaded t d k b hcall hwoken hclean
      | inr hasleep =>
          rw [if_neg hasleep] at h
          cases h
  | marked b =>
      rw [hcall] at h
      exact flushBuf_moves hreq hcall h
  | flushing b =>
      simp only [hcall] at h
      cases Decidable.em (t ∈ s.chan.released) with
      | inl hwoken =>
          have hclean : (s.bufs b).isClean = true :=
            hreq.clean_of_woken hwoken (by rw [hcall]; rfl)
          rw [run_flushing hcall hwoken hclean] at hrun
          cases hrun
          exact Moves.flushed t b hcall hwoken hclean
      | inr hasleep =>
          rw [if_neg hasleep] at h
          cases h
  | releasing b =>
      rw [hcall] at h
      cases h
      exact Moves.drop t b hcall

theorem idle_of_ok {r : Except Stop (State α)}
    (h : (match s.calls t with
      | Call.idle => r
      | _ => Except.error Stop.disabled) = Except.ok s') :
    s.calls t = Call.idle ∧ r = Except.ok s' := by
  cases hcall : s.calls t with
  | idle =>
      rw [hcall] at h
      exact ⟨rfl, h⟩
  | _ =>
      rw [hcall] at h
      cases h

theorem perform_moves {a : Action α} (hreq : Requests s) (hlegal : Legal s a)
    (h : perform s a = Except.ok s') : Moves s s' := by
  cases a with
  | read t d k =>
      rcases idle_of_ok h with ⟨hidle, hget⟩
      exact bufGet_moves hidle hget
  | store t b data =>
      rcases idle_of_ok h with ⟨hidle, hstore⟩
      cases hstore
      exact Moves.store t b data hidle hlegal
  | write t b =>
      rcases idle_of_ok h with ⟨hidle, hwrite⟩
      unfold bufWrite at hwrite
      split at hwrite
      · rename_i hheld
        cases hwrite
        exact Moves.mark t b hidle hheld
      · cases hwrite
  | logWrite t b =>
      rcases idle_of_ok h with ⟨hidle, hmark⟩
      cases hmark
      exact Moves.log t b hidle hlegal
  | release t b =>
      rcases idle_of_ok h with ⟨hidle, hunlock⟩
      unfold unlockBuf at hunlock
      cases hsignal : (s.bufs b).sem.signal with
      | none =>
          rw [hsignal] at hunlock
          cases hunlock
      | some sem =>
          rw [hsignal] at hunlock
          cases hunlock
          exact Moves.unlock t b sem hidle hlegal.left hlegal.right hsignal
  | run t => exact run_moves hreq h
  | interrupt =>
      rcases ideIntrHandler_spec hreq.service h with ⟨b, rest, hdone⟩
      exact Moves.interrupt b rest s' hdone

theorem step_of_ok {a : Action α} (hup : s.panicked = false)
    (h : perform s a = Except.ok s') : step s a = some s' := by
  rw [step, hup, if_neg Bool.false_ne_true, h]

/-- A step does one of these moves or stops the system. -/
theorem step_moves {a : Action α} (hreq : Requests s) (hlegal : Legal s a)
    (h : step s a = some s') : Moves s s' ∨ s' = { s with panicked := true } := by
  unfold step at h
  split at h
  · cases h
  · cases hperform : perform s a with
    | ok s1 =>
        rw [hperform] at h
        cases h
        exact Or.inl (perform_moves hreq hlegal hperform)
    | error stop =>
        rw [hperform] at h
        cases stop with
        | disabled => cases h
        | assertion =>
            cases h
            exact Or.inr rfl

end Code

/-!
# Locks
-/

section Locks

variable {s s' : State α} {t d b : Nat} {k : UInt32} {refs : Nat -> List Nat}

theorem Locked.lock (h : Locked s) {sem : Turnstile} (hcall : s.calls t = Call.got d k b)
    (hwait : (s.bufs b).sem.wait t = (true, sem)) :
    Locked ((s.setBuf b { s.bufs b with sem := sem, holder := some t }).setCall t
      (Call.locked d k b)) := by
  rcases Turnstile.wait_pass hwait with ⟨hwaiting, hreleased, hunits⟩
  have hsound := Turnstile.wait_sound (h.sound b) t
  rw [hwait] at hsound
  apply h.enter hsound _ hunits
  · intro u hu
    rw [hwaiting, hreleased] at hu
    refine ⟨?_, hu⟩
    intro heq
    have hlocking := h.queued b u hu
    rw [heq, hcall] at hlocking
    cases hlocking
  · intro e _ hlocking
    rw [hcall] at hlocking
    cases hlocking
  · intro e he
    exact (Option.some.inj he).symm
  · rfl
  · rfl
  · rw [hwaiting, hreleased]
    exact h.nodup b

theorem Locked.join (h : Locked s) {sem : Turnstile} (hcall : s.calls t = Call.got d k b)
    (hwait : (s.bufs b).sem.wait t = (false, sem)) :
    Locked ((s.setBuf b { s.bufs b with sem := sem }).setCall t (Call.locking d k b)) := by
  rcases Turnstile.wait_block hwait with ⟨hwaiting, hreleased, hunits⟩
  have hsound := Turnstile.wait_sound (h.sound b) t
  rw [hwait] at hsound
  have hnew : Not (t ∈ (s.bufs b).sem.waiting ++ (s.bufs b).sem.released) := by
    intro hmem
    have hlocking := h.queued b t (List.mem_append.mp hmem)
    rw [hcall] at hlocking
    cases hlocking
  apply h.block hsound _ hunits
  · intro u hu
    rw [hwaiting, hreleased] at hu
    rcases hu with hmem | hmem
    · rcases List.mem_append.mp hmem with hold | hlast
      · exact Or.inr (Or.inl hold)
      · exact Or.inl (List.mem_singleton.mp hlast)
    · exact Or.inr (Or.inr hmem)
  · rw [hcall]
    rfl
  · rfl
  · rfl
  · rfl
  · rfl
  · rw [hwaiting, hreleased, List.append_assoc]
    apply (List.perm_middle).nodup_iff.mpr
    exact List.nodup_cons.mpr ⟨hnew, h.nodup b⟩

theorem Locked.wake (h : Locked s) (hcall : s.calls t = Call.locking d k b)
    (hwoken : t ∈ (s.bufs b).sem.released) :
    Locked ((s.setBuf b { s.bufs b with
      sem := (s.bufs b).sem.resume t
      holder := some t }).setCall t (Call.locked d k b)) := by
  have hnodup := h.nodup b
  have hapart := List.nodup_append.mp hnodup
  have hsound : ((s.bufs b).sem.resume t).Sound := h.sound b
  apply h.enter hsound _ (Turnstile.resume_units hwoken)
  · intro u hu
    rcases hu with hmem | hmem
    · refine ⟨?_, Or.inl hmem⟩
      intro heq
      exact hapart.right.right u hmem t hwoken heq
    · refine ⟨?_, Or.inr (List.mem_of_mem_erase hmem)⟩
      intro heq
      rw [heq] at hmem
      exact hapart.right.left.not_mem_erase hmem
  · intro e hne hlocking
    rw [hcall] at hlocking
    exact hne (Option.some.inj hlocking).symm
  · intro e he
    exact (Option.some.inj he).symm
  · rfl
  · rfl
  · exact hnodup.sublist (List.Sublist.append_left List.erase_sublist _)

theorem Locked.unlock (h : Locked s) {sem : Turnstile} (hidle : s.calls t = Call.idle)
    (hheld : (s.bufs b).holder = some t) (hsignal : (s.bufs b).sem.signal = some sem) :
    Locked ((s.setBuf b { s.bufs b with sem := sem, holder := none }).setCall t
      (Call.releasing b)) := by
  have hperm := Turnstile.signal_perm (h.sound b) hsignal
  rcases Turnstile.signal_spec (h.sound b) with ⟨sem', heq, hsound, hunits⟩
  rw [hsignal] at heq
  rw [← Option.some.inj heq] at hsound hunits
  apply h.leave hheld hsound (hperm.nodup_iff.mpr (h.nodup b)) hunits
  · intro u hu
    exact List.mem_append.mp (hperm.mem_iff.mp (List.mem_append.mpr hu))
  · rw [hidle]
    rfl
  · rw [hidle]
    rfl
  · rfl
  · rfl
  · rfl
  · rfl

theorem Locked.request (h : Locked s) {s1 : State α} (henqueued : Enqueued b s s1) {c : Call}
    (hown : (s.calls t).owned = some b) (hold : (s.calls t).lockingOn = none)
    (hc : c.owned = some b) (hlocking : c.lockingOn = none) :
    Locked ((blockOnChan t s1).setCall t c) := by
  have hsame : Locked (blockOnChan t s1) :=
    h.congr henqueued.cache.bufs henqueued.cache.calls
  have hcalls : (blockOnChan t s1).calls = s.calls := henqueued.cache.calls
  have hbufs : (blockOnChan t s1).bufs = s.bufs := henqueued.cache.bufs
  apply hsame.setCall
  · rw [hcalls, hold, hlocking]
  · intro e he
    rw [hc] at he
    rw [← Option.some.inj he, hbufs]
    exact h.owned b t hown

theorem Locked.finish (h : Locked s) (hold : (s.calls t).lockingOn = none) :
    Locked (s.setCall t Call.idle) := by
  apply h.setCall
  · rw [hold]
    rfl
  · intro e he
    cases he

theorem Locked.moves (h : Locked s) (hmove : Moves s s') : Locked s' := by
  cases hmove with
  | hit t d k b hidle hfind =>
      apply Locked.setCall
      · exact h.setBuf rfl rfl
      · rw [setBuf_calls, hidle]
        rfl
      · intro e he
        cases he
  | recycle t d k b hidle hmiss hfind =>
      apply Locked.setCall
      · exact h.setBuf rfl rfl
      · rw [setBuf_calls, hidle]
        rfl
      · intro e he
        cases he
  | lock t d k b sem hcall hwait => exact h.lock hcall hwait
  | join t d k b sem hcall hwait => exact h.join hcall hwait
  | wake t d k b hcall hwoken => exact h.wake hcall hwoken
  | found t d k b hcall hvalid =>
      have hidle : Locked (s.setCall t Call.idle) := by
        apply h.finish
        rw [hcall]
        rfl
      exact hidle.congr rfl rfl
  | load t d k b s1 hcall hvalid henqueued =>
      apply h.request henqueued
      · rw [hcall]
        rfl
      · rw [hcall]
        rfl
      · rfl
      · rfl
  | loaded t d k b hcall hwoken hclean =>
      have hidle : Locked (s.setCall t Call.idle) := by
        apply h.finish
        rw [hcall]
        rfl
      exact hidle.congr rfl rfl
  | store t b data hidle hheld =>
      have hset : Locked (s.setBuf b { s.bufs b with data := data, unmarked := true }) :=
        h.setBuf rfl rfl
      exact hset.congr rfl rfl
  | log t b hidle hheld => exact h.setBuf rfl rfl
  | mark t b hidle hheld =>
      have hmarked : Locked (markDirty b s) := h.setBuf rfl rfl
      apply hmarked.setCall
      · show _ = (s.calls t).lockingOn
        rw [hidle]
        rfl
      · intro e he
        rw [← Option.some.inj he]
        show ((s.setBuf b _).bufs b).holder = some t
        rw [setBuf_self]
        exact hheld
  | flush t b s1 hcall hclean henqueued =>
      apply h.request henqueued
      · rw [hcall]
        rfl
      · rw [hcall]
        rfl
      · rfl
      · rfl
  | flushed t b hcall hwoken hclean =>
      have hidle : Locked (s.setCall t Call.idle) := by
        apply h.finish
        rw [hcall]
        rfl
      exact hidle.congr rfl rfl
  | unlock t b sem hidle hheld hmarked hsignal => exact h.unlock hidle hheld hsignal
  | drop t b hcall =>
      have hset : Locked (s.setBuf b { s.bufs b with refcnt := (s.bufs b).refcnt - 1 }) :=
        h.setBuf rfl rfl
      have hidle := hset.finish (t := t) (by rw [setBuf_calls, hcall]; rfl)
      exact hidle.congr rfl rfl
  | interrupt b rest s' hdone =>
      have hset : Locked (complete b rest s) := by
        have hbuf : Locked (s.setBuf b ((complete b rest s).bufs b)) := by
          apply h.setBuf
          · show ((s.setBuf b _).bufs b).sem = _
            rw [setBuf_self]
          · show ((s.setBuf b _).bufs b).holder = _
            rw [setBuf_self]
        apply hbuf.congr
        · show _ = Function.update s.bufs b ((s.setBuf b _).bufs b)
          rw [setBuf_self]
          rfl
        · rfl
      exact hset.congr hdone.bufs hdone.calls

/-!
# References
-/

theorem Counted.request (h : Counted s refs) {s1 : State α} (henqueued : Enqueued b s s1)
    {c : Call} (hold : (s.calls t).pending = none) (hc : c.pending = none) :
    Counted ((blockOnChan t s1).setCall t c) refs := by
  have hsame : Counted (blockOnChan t s1) refs :=
    h.congr henqueued.cache.bufs henqueued.cache.calls
  apply hsame.setCall
  have hcalls : (blockOnChan t s1).calls = s.calls := henqueued.cache.calls
  rw [hcalls, hold, hc]

theorem Counted.finish (h : Counted s refs) (hold : (s.calls t).pending = none) :
    Counted (s.setCall t Call.idle) refs := by
  apply h.setCall
  rw [hold]
  rfl

/-- What `buf_get` recycles is neither referred to nor dirty. -/
theorem unused_of_walk (h : walk s.lru.prev (isUnused s) (nbuf + 1) (s.lru.prev none) = some b) :
    (s.bufs b).refcnt = 0 ∧ (s.bufs b).dirty = false := by
  have hunused := walk_property h
  unfold isUnused at hunused
  rw [Bool.and_eq_true, decide_eq_true_iff, Bool.not_eq_true'] at hunused
  exact hunused

theorem Counted.moves (h : Counted s refs) (hlocked : Locked s) (hmove : Moves s s') :
    exists refs', Counted s' refs' := by
  cases hmove with
  | hit t d k b hidle hfind =>
      refine ⟨_, h.get ?_ rfl rfl rfl⟩
      rw [hidle]
      rfl
  | recycle t d k b hidle hmiss hfind =>
      refine ⟨_, h.get ?_ rfl ?_ rfl⟩
      · rw [hidle]
        rfl
      · rw [(unused_of_walk hfind).left]
  | lock t d k b sem hcall hwait =>
      have hpend : (s.calls t).pending = some b := by
        rw [hcall]
        rfl
      rcases Turnstile.wait_pass hwait with ⟨_, _, hunits⟩
      exact ⟨refs, h.enter (hlocked.free (by lia)) hpend rfl rfl rfl⟩
  | join t d k b sem hcall hwait =>
      have hset : Counted (s.setBuf b { s.bufs b with sem := sem }) refs := h.setBuf rfl rfl
      refine ⟨refs, hset.setCall ?_⟩
      rw [setBuf_calls, hcall]
      rfl
  | wake t d k b hcall hwoken =>
      have hpend : (s.calls t).pending = some b := by
        rw [hcall]
        rfl
      have hunits := Turnstile.resume_units hwoken
      exact ⟨refs, h.enter (hlocked.free (by lia)) hpend rfl rfl rfl⟩
  | found t d k b hcall hvalid =>
      have hidle := h.finish (t := t) (by rw [hcall]; rfl)
      exact ⟨refs, hidle.congr rfl rfl⟩
  | load t d k b s1 hcall hvalid henqueued =>
      refine ⟨refs, h.request henqueued ?_ rfl⟩
      rw [hcall]
      rfl
  | loaded t d k b hcall hwoken hclean =>
      have hidle := h.finish (t := t) (by rw [hcall]; rfl)
      exact ⟨refs, hidle.congr rfl rfl⟩
  | store t b data hidle hheld =>
      have hset : Counted (s.setBuf b { s.bufs b with data := data, unmarked := true }) refs :=
        h.setBuf rfl rfl
      exact ⟨refs, hset.congr rfl rfl⟩
  | log t b hidle hheld => exact ⟨refs, h.setBuf rfl rfl⟩
  | mark t b hidle hheld =>
      have hmarked : Counted (markDirty b s) refs := h.setBuf rfl rfl
      refine ⟨refs, hmarked.setCall ?_⟩
      show _ = (s.calls t).pending
      rw [hidle]
      rfl
  | flush t b s1 hcall hclean henqueued =>
      refine ⟨refs, h.request henqueued ?_ rfl⟩
      rw [hcall]
      rfl
  | flushed t b hcall hwoken hclean =>
      have hidle := h.finish (t := t) (by rw [hcall]; rfl)
      exact ⟨refs, hidle.congr rfl rfl⟩
  | unlock t b sem hidle hheld hmarked hsignal =>
      refine ⟨refs, h.leave hheld ?_ rfl rfl rfl⟩
      rw [hidle]
      rfl
  | drop t b hcall =>
      have hdrop : Counted ((s.setBuf b { s.bufs b with refcnt := (s.bufs b).refcnt - 1 }).setCall t
          Call.idle) (Function.update refs b ((refs b).erase t)) := by
        apply h.drop
        · rw [hcall]
          rfl
        · rfl
        · rfl
        · rfl
      exact ⟨_, hdrop.congr rfl rfl⟩
  | interrupt b rest s' hdone =>
      have hset : Counted (complete b rest s) refs := by
        have hbuf : Counted (s.setBuf b ((complete b rest s).bufs b)) refs := by
          apply h.setBuf
          · show ((s.setBuf b _).bufs b).refcnt = _
            rw [setBuf_self]
          · show ((s.setBuf b _).bufs b).holder = _
            rw [setBuf_self]
        apply hbuf.congr
        · show _ = Function.update s.bufs b ((s.setBuf b _).bufs b)
          rw [setBuf_self]
          rfl
        · rfl
      exact ⟨refs, hset.congr hdone.bufs hdone.calls⟩

end Locks

/-!
# The queue
-/

section Queue

variable {s s' : State α} {t d b : Nat} {k : UInt32} {refs : Nat -> List Nat}

/-- A call moves on without a request, and buffers change that nobody waits for. -/
theorem Requests.call (h : Requests s) {c : Call} (hold : (s.calls t).io = none)
    (hc : c.io = none) {bufs : Nat -> Buf α}
    (hbufs : forall e u, (s.calls u).io = some e ->
      (bufs e).isClean = (s.bufs e).isClean) :
    Requests ({ s with bufs := bufs }.setCall t c) := by
  apply h.congr
  · rfl
  · rfl
  · rfl
  · rfl
  · rfl
  · rfl
  · intro u
    apply setCall_field Call.io
    rw [hc]
    exact hold.symm
  · intro e u hu
    exact hbufs e u hu

theorem Requests.setBuf (h : Requests s) {buf : Buf α}
    (hclean : buf.isClean = (s.bufs b).isClean) {c : Call} (hold : (s.calls t).io = none)
    (hc : c.io = none) : Requests ((s.setBuf b buf).setCall t c) := by
  apply h.call hold hc
  intro e u _
  exact setBuf_field Buf.isClean hclean e

theorem Requests.setBuf_free (h : Requests s) (buf : Buf α)
    (hfree : forall u, (s.calls u).io ≠ some b) {c : Call} (hold : (s.calls t).io = none)
    (hc : c.io = none) : Requests ((s.setBuf b buf).setCall t c) := by
  apply h.call hold hc
  intro e u hu
  have hne : e ≠ b := by
    intro heq
    rw [heq] at hu
    exact hfree u hu
  show ((s.setBuf b buf).bufs e).isClean = _
  rw [setBuf_of_ne hne]

theorem Requests.edit (h : Requests s) (buf : Buf α)
    (hfree : forall u, (s.calls u).io ≠ some b) : Requests (s.setBuf b buf) := by
  apply h.congr
  · rfl
  · rfl
  · rfl
  · rfl
  · rfl
  · rfl
  · intro u
    rfl
  · intro e u hu
    have hne : e ≠ b := by
      intro heq
      rw [heq] at hu
      exact hfree u hu
    rw [setBuf_of_ne hne]

/-- Nobody waits for a request of a buffer that an idle task holds. -/
theorem Locked.no_request (h : Locked s) (hheld : (s.bufs b).holder = some t)
    (hidle : (s.calls t).owned = none) (u : Nat) : (s.calls u).io ≠ some b := by
  intro hu
  have hown := Call.owned_of_io hu
  have hholder := h.owned b u hown
  rw [hheld] at hholder
  rw [← Option.some.inj hholder, hidle] at hown
  cases hown

theorem Requests.moves (h : Requests s) (hlocked : Locked s) (hcounted : Counted s refs)
    (hmove : Moves s s') : Requests s' := by
  cases hmove with
  | hit t d k b hidle hfind =>
      apply h.setBuf
      · rfl
      · rw [hidle]
        rfl
      · rfl
  | recycle t d k b hidle hmiss hfind =>
      apply h.setBuf_free
      · intro u hu
        have hheld := hlocked.owned b u (Call.owned_of_io hu)
        have hpos := hcounted.refcnt_pos (Or.inl hheld)
        have hzero := (unused_of_walk hfind).left
        lia
      · rw [hidle]
        rfl
      · rfl
  | lock t d k b sem hcall hwait =>
      apply h.setBuf
      · rfl
      · rw [hcall]
        rfl
      · rfl
  | join t d k b sem hcall hwait =>
      apply h.setBuf
      · rfl
      · rw [hcall]
        rfl
      · rfl
  | wake t d k b hcall hwoken =>
      apply h.setBuf
      · rfl
      · rw [hcall]
        rfl
      · rfl
  | found t d k b hcall hvalid =>
      have hidle : Requests (s.setCall t Call.idle) := by
        apply h.call
        · rw [hcall]
          rfl
        · rfl
        · intro e u _
          rfl
      exact hidle.congr rfl rfl rfl rfl rfl rfl (fun u => rfl) (fun e u _ => rfl)
  | load t d k b s1 hcall hvalid henqueued =>
      apply h.enqueue hlocked henqueued
      · unfold Buf.isClean
        rw [hvalid]
        rfl
      · apply hlocked.owned b t
        rw [hcall]
        rfl
      · rw [hcall]
        rfl
      · rfl
  | loaded t d k b hcall hwoken hclean =>
      have hidle : Requests ({ s with chan := s.chan.resume t }.setCall t Call.idle) :=
        h.resume hwoken rfl
      exact hidle.congr rfl rfl rfl rfl rfl rfl (fun u => rfl) (fun e u _ => rfl)
  | store t b data hidle hheld =>
      have hset : Requests (s.setBuf b { s.bufs b with data := data, unmarked := true }) := by
        apply h.edit
        apply hlocked.no_request hheld
        rw [hidle]
        rfl
      exact hset.congr rfl rfl rfl rfl rfl rfl (fun _ => rfl) (fun _ _ _ => rfl)
  | log t b hidle hheld =>
      apply h.edit
      apply hlocked.no_request hheld
      rw [hidle]
      rfl
  | mark t b hidle hheld =>
      have hmarked : Requests (markDirty b s) := by
        apply h.edit
        apply hlocked.no_request hheld
        rw [hidle]
        rfl
      apply hmarked.call
      · show (s.calls t).io = none
        rw [hidle]
        rfl
      · rfl
      · intro e u _
        rfl
  | flush t b s1 hcall hclean henqueued =>
      apply h.enqueue hlocked henqueued hclean
      · apply hlocked.owned b t
        rw [hcall]
        rfl
      · rw [hcall]
        rfl
      · rfl
  | flushed t b hcall hwoken hclean => exact h.resume hwoken rfl
  | unlock t b sem hidle hheld hmarked hsignal =>
      apply h.setBuf
      · rfl
      · rw [hidle]
        rfl
      · rfl
  | drop t b hcall =>
      have hdrop : Requests ((s.setBuf b
          { s.bufs b with refcnt := (s.bufs b).refcnt - 1 }).setCall t
          Call.idle) := by
        apply h.setBuf
        · rfl
        · rw [hcall]
          rfl
        · rfl
      exact hdrop.congr rfl rfl rfl rfl rfl rfl (fun u => rfl) (fun e u _ => rfl)
  | interrupt b rest s' hdone => exact h.complete hdone

end Queue

/-!
# Runs
-/

/-- Locks, references and the queue of requests agree with each other. -/
structure Consistent (s : State α) : Prop where
  locked : Locked s
  counted : exists refs, Counted s refs
  requests : Requests s

section Runs

variable {s s' : State α} {t b : Nat}

theorem bioInit_consistent (storage : Nat -> UInt32 -> α) (data : Nat -> α) :
    Consistent (bioInit storage data) := by
  constructor
  · constructor
    · intro b
      exact Semaphore.init_sound (by lia)
    · intro b
      rfl
    · intro b t ht
      rcases ht with hmem | hmem
      · cases hmem
      · cases hmem
    · intro b
      exact List.nodup_nil
    · intro b t ht
      cases ht
  · refine ⟨fun _ => [], ?_, ?_⟩
    · intro b
      rfl
    · intro b t
      rfl
  · constructor
    · rfl
    · exact List.nodup_nil
    · exact List.Forall₂.nil
    · intro b hb
      cases hb
    · intro t ht
      cases ht
    · intro t b ht
      cases ht
    · exact List.nodup_nil
    · exact Semaphore.init_sound (by lia)
    · exact Int.le_refl 0
    · rfl
    · rfl

theorem Consistent.moves (h : Consistent s) (hmove : Moves s s') : Consistent s' := by
  rcases h.counted with ⟨refs, hcounted⟩
  constructor
  · exact h.locked.moves hmove
  · exact hcounted.moves h.locked hmove
  · exact h.requests.moves h.locked hcounted hmove

theorem Consistent.panic (h : Consistent s) : Consistent { s with panicked := true } := by
  rcases h.counted with ⟨refs, hcounted⟩
  constructor
  · exact h.locked.congr rfl rfl
  · exact ⟨refs, hcounted.congr rfl rfl⟩
  · exact h.requests.congr rfl rfl rfl rfl rfl rfl (fun u => rfl) (fun e u _ => rfl)

theorem Consistent.step {a : Action α} (h : Consistent s) (hlegal : Legal s a)
    (hstep : step s a = some s') : Consistent s' := by
  rcases step_moves h.requests hlegal hstep with hmove | hpanic
  · exact h.moves hmove
  · rw [hpanic]
    exact h.panic

theorem reaches_consistent {storage : Nat -> UInt32 -> α} {data : Nat -> α}
    (h : Reaches step Legal (bioInit storage data) s) : Consistent s := by
  apply Reaches.invariant (bioInit_consistent storage data) _ h
  intro r r' a hr hlegal hstep
  exact hr.step hlegal hstep

/-- The holders of the queued buffers are the waiting tasks. -/
theorem Consistent.queue_holders (h : Consistent s) :
    s.queue.map (fun b => (s.bufs b).holder) = s.chan.waiting.map some := by
  have hheld : List.Forall₂ (fun b t => (s.bufs b).holder = some t) s.queue s.chan.waiting :=
    h.requests.owners.imp (fun b t ht => h.locked.owned b t (Call.owned_of_io ht))
  generalize s.queue = queue at hheld
  generalize s.chan.waiting = waiting at hheld
  induction hheld with
  | nil => rfl
  | cons hhead _ ih => rw [List.map_cons, List.map_cons, ih, hhead]

/-- A task in `iderw` waits with its buffer in the queue, or was woken up and finds it done. -/
theorem Consistent.waits_for_own (h : Consistent s) (hio : (s.calls t).io = some b) :
    (b ∈ s.queue ∧ (s.bufs b).isClean = false ∧ t ∈ s.chan.waiting ∧
        Not (t ∈ s.chan.released)) ∨
      (Not (b ∈ s.queue) ∧ (s.bufs b).isClean = true ∧ t ∈ s.chan.released ∧
        Not (t ∈ s.chan.waiting)) := by
  have hasleep : t ∈ s.chan.waiting -> b ∈ s.queue := by
    intro hmem
    rcases h.requests.request_of_mem hmem with ⟨e, he, hreq⟩
    rw [hio] at hreq
    rw [Option.some.inj hreq]
    exact he
  have hawake : t ∈ s.chan.released -> (s.bufs b).isClean = true :=
    fun hmem => h.requests.clean_of_woken hmem hio
  rcases h.requests.asleep t b hio with hmem | hmem
  · left
    have hpending := h.requests.pending b (hasleep hmem)
    refine ⟨hasleep hmem, hpending, hmem, ?_⟩
    intro hreleased
    rw [hawake hreleased] at hpending
    cases hpending
  · right
    have hclean := hawake hmem
    have hdone : Not (b ∈ s.queue) := by
      intro hqueued
      rw [h.requests.pending b hqueued] at hclean
      cases hclean
    exact ⟨hdone, hclean, hmem, fun hwaiting => hdone (hasleep hwaiting)⟩

/-- A woken task returns from `iderw` as soon as it runs. -/
theorem Consistent.woken_returns (h : Consistent s) (hio : (s.calls t).io = some b)
    (hwoken : t ∈ s.chan.released) (hup : s.panicked = false) :
    exists s', Disk.step s (Action.run t) = some s' ∧ s'.calls t = Call.idle := by
  have hclean := h.requests.clean_of_woken hwoken hio
  cases hcall : s.calls t with
  | reading d k e =>
      rw [hcall] at hio
      rw [← Option.some.inj hio] at hclean
      exact ⟨_, step_of_ok hup (run_reading hcall hwoken hclean), setCall_self _ t Call.idle⟩
  | flushing e =>
      rw [hcall] at hio
      rw [← Option.some.inj hio] at hclean
      exact ⟨_, step_of_ok hup (run_flushing hcall hwoken hclean), setCall_self _ t Call.idle⟩
  | _ =>
      rw [hcall] at hio
      cases hio

end Runs

/--
The device works on the head of the queue, the holders of the queued buffers are
the waiting tasks in the same order, requests are started and completed once each
in the order in which they were issued, and a task whose request is done is awake
and returns when it runs.
-/
structure InOrder (s : State α) : Prop where
  service : s.service = s.queue.head?
  owners : s.queue.map (fun b => (s.bufs b).holder) = s.chan.waiting.map some
  completed : s.issued = s.completed ++ s.queue
  started : s.started = s.completed ++ s.queue.take 1
  awake : forall t b, (s.calls t).io = some b ->
    (b ∈ s.queue ∧ t ∈ s.chan.waiting) ∨
      (Not (b ∈ s.queue) ∧ Not (t ∈ s.chan.waiting) ∧ t ∈ s.chan.released)
  returns : forall t b, (s.calls t).io = some b -> t ∈ s.chan.released -> s.panicked = false ->
    exists s', step s (Action.run t) = some s' ∧ s'.calls t = Call.idle

theorem disk_requests_in_order {storage : Nat -> UInt32 -> α} {data : Nat -> α} {s : State α}
    (h : Reaches step Legal (bioInit storage data) s) : InOrder s := by
  have hconsistent := reaches_consistent h
  constructor
  · exact hconsistent.requests.service
  · exact hconsistent.queue_holders
  · exact hconsistent.requests.issued
  · exact hconsistent.requests.started
  · intro t b hio
    rcases hconsistent.waits_for_own hio with ⟨hqueued, _, hwaiting, _⟩ | ⟨hdone, _, hawake, hleft⟩
    · exact Or.inl ⟨hqueued, hwaiting⟩
    · exact Or.inr ⟨hdone, hleft, hawake⟩
  · intro t b hio hwoken hup
    exact hconsistent.woken_returns hio hwoken hup

def legalTest (s : State α) : Action α -> Bool
  | Action.store t b _ => decide ((s.bufs b).holder = some t)
  | Action.logWrite t b => decide ((s.bufs b).holder = some t)
  | Action.release t b => decide ((s.bufs b).holder = some t ∧ (s.bufs b).unmarked = false)
  | _ => true

theorem legal_of_legalTest (s : State α) (a : Action α) (h : legalTest s a = true) :
    Legal s a := by
  cases a with
  | store t b data =>
      have hheld := of_decide_eq_true h
      exact hheld
  | logWrite t b =>
      have hheld := of_decide_eq_true h
      exact hheld
  | release t b =>
      have hheld := of_decide_eq_true h
      exact hheld
  | _ => exact trivial

/-- Two tasks read, the disk completes the first request, and the first task returns. -/
def twoReads : List (Action Nat) :=
  [Action.read 1 0 5, Action.run 1, Action.run 1, Action.read 2 0 6, Action.run 2, Action.run 2,
    Action.interrupt, Action.run 1]

theorem disk_requests_in_order_twoReads :
    exists s, runFrom step (bioInit (fun _ k => k.toNat) (fun _ => 0)) twoReads = some s ∧
      (s.completed, s.queue, s.chan.waiting) = ([0], [1], [2]) ∧ InOrder s := by
  have hcheck : runCheck step legalTest (bioInit (fun _ k => k.toNat) (fun _ => 0)) twoReads =
      true := by
    decide +kernel
  have hrun : (runFrom step (bioInit (fun _ k => k.toNat) (fun _ => 0)) twoReads).map
      (fun s => (s.completed, s.queue, s.chan.waiting)) = some ([0], [1], [2]) := by
    decide +kernel
  rcases Option.map_eq_some_iff.mp hrun with ⟨s, hs, hlists⟩
  have hreach := runFrom_reaches (runMeets_of_runCheck legal_of_legalTest hcheck) hs
  exact ⟨s, hs, hlists, disk_requests_in_order hreach⟩

end Disk
end Kernel
end NicoOS
