import NicoOS.Kernel.Disk.Model

/-!
# Locks and references of buffers

A task that has read a buffer holds it until it releases it, and the count of a
buffer stands for its holder and for the calls on their way to or from it.
-/

namespace NicoOS
namespace Kernel
namespace Disk

open Lib

/-!
# Calls
-/

/-- The buffer that the task waits for in `iderw`. -/
def Call.io : Call -> Option Nat
  | Call.reading _ _ b => some b
  | Call.flushing b => some b
  | _ => none

/-- The buffer that the call has locked. -/
def Call.owned : Call -> Option Nat
  | Call.locked _ _ b => some b
  | Call.reading _ _ b => some b
  | Call.marked b => some b
  | Call.flushing b => some b
  | _ => none

/-- The buffer whose semaphore the task waits for. -/
def Call.lockingOn : Call -> Option Nat
  | Call.locking _ _ b => some b
  | _ => none

/-- The buffer that the call refers to without holding it. -/
def Call.pending : Call -> Option Nat
  | Call.got _ _ b => some b
  | Call.locking _ _ b => some b
  | Call.releasing b => some b
  | _ => none

theorem Call.owned_of_io {c : Call} {b : Nat} (h : c.io = some b) : c.owned = some b := by
  cases c with
  | reading d k e => exact h
  | flushing e => exact h
  | _ => cases h

variable {α : Type}

/-!
# Invariants
-/

/-- The unit of a buffer's semaphore is at hand or with the holder. -/
def holders : Option Nat -> Nat
  | none => 0
  | some _ => 1

structure Locked (s : State α) : Prop where
  sound : forall b, (s.bufs b).sem.Sound
  units : forall b, (s.bufs b).sem.units + holders (s.bufs b).holder = 1
  queued : forall b t, t ∈ (s.bufs b).sem.waiting ∨ t ∈ (s.bufs b).sem.released ->
    (s.calls t).lockingOn = some b
  nodup : forall b, ((s.bufs b).sem.waiting ++ (s.bufs b).sem.released).Nodup
  owned : forall b t, (s.calls t).owned = some b -> (s.bufs b).holder = some t

/-- `refs b` lists the tasks that the count of the buffer stands for. -/
structure Counted (s : State α) (refs : Nat -> List Nat) : Prop where
  length : forall b, (s.bufs b).refcnt = (refs b).length
  count : forall b t, (refs b).count t =
    (if (s.bufs b).holder = some t then 1 else 0) +
      (if (s.calls t).pending = some b then 1 else 0)

/-- A buffer that is locked or waited for is referred to. -/
theorem Counted.refcnt_pos {s : State α} {refs : Nat -> List Nat} (h : Counted s refs) {b t : Nat}
    (ht : (s.bufs b).holder = some t ∨ (s.calls t).pending = some b) : 0 < (s.bufs b).refcnt := by
  have hcount := h.count b t
  have hpos : 0 < (refs b).count t := by
    rw [hcount]
    rcases ht with heq | heq
    · rw [if_pos heq]
      lia
    · rw [if_pos heq]
      lia
  rw [h.length b]
  exact List.length_pos_of_mem (List.count_pos_iff.mp hpos)

/-!
# Locks
-/

section Locks

variable {s : State α} {t b : Nat} {refs : Nat -> List Nat}

/-- A field that the change of a buffer leaves alone. -/
theorem setBuf_field {β : Type} (f : Buf α -> β) {buf : Buf α} (hf : f buf = f (s.bufs b))
    (c : Nat) : f ((s.setBuf b buf).bufs c) = f (s.bufs c) := by
  show f (Function.update s.bufs b buf c) = _
  rw [Function.update_apply]
  split
  · rename_i heq
    rw [heq]
    exact hf
  · rfl

theorem setCall_field {β : Type} (f : Call -> β) {c : Call} (hf : f c = f (s.calls t))
    (u : Nat) : f ((s.setCall t c).calls u) = f (s.calls u) := by
  show f (Function.update s.calls t c u) = _
  rw [Function.update_apply]
  split
  · rename_i heq
    rw [heq]
    exact hf
  · rfl

@[simp] theorem setBuf_self (s : State α) (b : Nat) (buf : Buf α) :
    (s.setBuf b buf).bufs b = buf := by simp [State.setBuf]

theorem setBuf_of_ne {c : Nat} (h : c ≠ b) (buf : Buf α) : (s.setBuf b buf).bufs c = s.bufs c := by
  simp [State.setBuf, h]

@[simp] theorem setCall_self (s : State α) (t : Nat) (c : Call) : (s.setCall t c).calls t = c := by
  simp [State.setCall]

theorem setCall_of_ne {u : Nat} (h : u ≠ t) (c : Call) : (s.setCall t c).calls u = s.calls u := by
  simp [State.setCall, h]

@[simp] theorem setCall_bufs (s : State α) (t : Nat) (c : Call) :
    (s.setCall t c).bufs = s.bufs := rfl

@[simp] theorem setBuf_calls (s : State α) (b : Nat) (buf : Buf α) :
    (s.setBuf b buf).calls = s.calls := rfl

theorem Locked.congr {s' : State α} (h : Locked s) (hbufs : s'.bufs = s.bufs)
    (hcalls : s'.calls = s.calls) : Locked s' := by
  constructor
  · rw [hbufs]
    exact h.sound
  · rw [hbufs]
    exact h.units
  · rw [hbufs, hcalls]
    exact h.queued
  · rw [hbufs]
    exact h.nodup
  · rw [hbufs, hcalls]
    exact h.owned

theorem Counted.congr {s' : State α} (h : Counted s refs) (hbufs : s'.bufs = s.bufs)
    (hcalls : s'.calls = s.calls) : Counted s' refs := by
  constructor
  · rw [hbufs]
    exact h.length
  · rw [hbufs, hcalls]
    exact h.count

/-- A buffer changes, but neither its semaphore nor its holder. -/
theorem Locked.setBuf (h : Locked s) {buf : Buf α} (hsem : buf.sem = (s.bufs b).sem)
    (hholder : buf.holder = (s.bufs b).holder) : Locked (s.setBuf b buf) := by
  have hsems := setBuf_field Buf.sem hsem
  have hholders := setBuf_field Buf.holder hholder
  constructor
  · intro c
    rw [hsems c]
    exact h.sound c
  · intro c
    rw [hsems c, hholders c]
    exact h.units c
  · intro c u hu
    rw [hsems c] at hu
    exact h.queued c u hu
  · intro c
    rw [hsems c]
    exact h.nodup c
  · intro c u hu
    rw [hholders c]
    exact h.owned c u hu

/-- A call moves on, but it neither starts nor ends to wait for a buffer. -/
theorem Locked.setCall (h : Locked s) {c : Call} (hlocking : c.lockingOn = (s.calls t).lockingOn)
    (howned : forall e, c.owned = some e -> (s.bufs e).holder = some t) :
    Locked (s.setCall t c) := by
  constructor
  · exact h.sound
  · exact h.units
  · intro e u hu
    rw [setCall_field Call.lockingOn hlocking u]
    exact h.queued e u hu
  · exact h.nodup
  · intro e u hu
    cases Decidable.em (u = t) with
    | inl heq =>
        rw [heq, setCall_self] at hu
        rw [heq]
        exact howned e hu
    | inr hne =>
        rw [setCall_of_ne hne] at hu
        exact h.owned e u hu

theorem Counted.setBuf (h : Counted s refs) {buf : Buf α} (href : buf.refcnt = (s.bufs b).refcnt)
    (hholder : buf.holder = (s.bufs b).holder) : Counted (s.setBuf b buf) refs := by
  constructor
  · intro c
    rw [setBuf_field Buf.refcnt href c]
    exact h.length c
  · intro c u
    rw [setBuf_field Buf.holder hholder c]
    exact h.count c u

theorem Counted.setCall (h : Counted s refs) {c : Call}
    (hpending : c.pending = (s.calls t).pending) : Counted (s.setCall t c) refs := by
  constructor
  · exact h.length
  · intro e u
    rw [setCall_field Call.pending hpending u]
    exact h.count e u

/-- `buf_get` counts a reference of a task that had none pending. -/
theorem Counted.get (h : Counted s refs) (hidle : (s.calls t).pending = none) {c : Call}
    (hc : c.pending = some b) {buf : Buf α} (href : buf.refcnt = (s.bufs b).refcnt + 1)
    (hholder : buf.holder = (s.bufs b).holder) :
    Counted ((s.setBuf b buf).setCall t c) (Function.update refs b (t :: refs b)) := by
  constructor
  · intro e
    have hlen := h.length e
    rw [setCall_bufs, Function.update_apply]
    cases Decidable.em (e = b) with
    | inl heq =>
        rw [if_pos heq, heq, setBuf_self, href, h.length b]
        rfl
    | inr hne =>
        rw [if_neg hne, setBuf_of_ne hne]
        exact hlen
  · intro e u
    have hcount := h.count e u
    have hholders := setBuf_field Buf.holder hholder e
    rw [setCall_bufs, hholders, Function.update_apply]
    cases Decidable.em (e = b) with
    | inl heq =>
        rw [if_pos heq]
        rw [heq] at hcount ⊢
        cases Decidable.em (u = t) with
        | inl hut =>
            rw [hut] at hcount ⊢
            rw [hidle] at hcount
            rw [setCall_self, hc, if_pos rfl, List.count_cons_self, hcount]
            simp
        | inr hne =>
            rw [setCall_of_ne hne, List.count_cons_of_ne (Ne.symm hne)]
            exact hcount
    | inr hne =>
        rw [if_neg hne]
        cases Decidable.em (u = t) with
        | inl hut =>
            rw [hut] at hcount ⊢
            rw [hidle] at hcount
            rw [setCall_self, hc, hcount]
            simp [Ne.symm hne]
        | inr hut =>
            rw [setCall_of_ne hut]
            exact hcount

/-- The holder of a buffer and a pending reference of the same task are exchanged. -/
theorem Counted.exchange (h : Counted s refs) {c : Call} {buf : Buf α}
    (href : buf.refcnt = (s.bufs b).refcnt)
    (hother : forall u, u ≠ t -> (buf.holder = some u <-> (s.bufs b).holder = some u))
    (hpend : forall e, e ≠ b -> (c.pending = some e <-> (s.calls t).pending = some e))
    (hsum : (if buf.holder = some t then 1 else 0) + (if c.pending = some b then 1 else 0) =
      (if (s.bufs b).holder = some t then 1 else 0) +
        (if (s.calls t).pending = some b then 1 else 0)) :
    Counted ((s.setBuf b buf).setCall t c) refs := by
  constructor
  · intro e
    rw [setCall_bufs, setBuf_field Buf.refcnt href e]
    exact h.length e
  · intro e u
    rw [h.count e u, setCall_bufs]
    cases Decidable.em (e = b) with
    | inl heb =>
        rw [heb, setBuf_self]
        cases Decidable.em (u = t) with
        | inl hut =>
            rw [hut, setCall_self]
            exact hsum.symm
        | inr hut =>
            rw [setCall_of_ne hut, setBuf_calls]
            simp only [hother u hut]
    | inr heb =>
        rw [setBuf_of_ne heb]
        cases Decidable.em (u = t) with
        | inl hut =>
            rw [hut, setCall_self]
            simp only [hpend e heb]
        | inr hut => rw [setCall_of_ne hut, setBuf_calls]

theorem Counted.enter (h : Counted s refs) (hfree : (s.bufs b).holder = none) {c : Call}
    (hpend : (s.calls t).pending = some b) (hc : c.pending = none) {buf : Buf α}
    (href : buf.refcnt = (s.bufs b).refcnt) (hholder : buf.holder = some t) :
    Counted ((s.setBuf b buf).setCall t c) refs := by
  apply h.exchange href
  · intro u hut
    rw [hholder, hfree]
    simp [Ne.symm hut]
  · intro e heb
    rw [hc, hpend]
    simp [Ne.symm heb]
  · rw [hholder, hfree, hc, hpend]
    simp

theorem Counted.leave (h : Counted s refs) (hheld : (s.bufs b).holder = some t) {c : Call}
    (hpend : (s.calls t).pending = none) (hc : c.pending = some b) {buf : Buf α}
    (href : buf.refcnt = (s.bufs b).refcnt) (hholder : buf.holder = none) :
    Counted ((s.setBuf b buf).setCall t c) refs := by
  apply h.exchange href
  · intro u hut
    rw [hholder, hheld]
    simp [Ne.symm hut]
  · intro e heb
    rw [hc, hpend]
    simp [Ne.symm heb]
  · rw [hholder, hheld, hc, hpend]
    simp

theorem Counted.drop (h : Counted s refs) (hpend : (s.calls t).pending = some b) {c : Call}
    (hc : c.pending = none) {buf : Buf α} (href : buf.refcnt = (s.bufs b).refcnt - 1)
    (hholder : buf.holder = (s.bufs b).holder) :
    Counted ((s.setBuf b buf).setCall t c) (Function.update refs b ((refs b).erase t)) := by
  have hmem : t ∈ refs b := by
    have hcount := h.count b t
    rw [hpend, if_pos rfl] at hcount
    apply List.count_pos_iff.mp
    lia
  constructor
  · intro e
    rw [setCall_bufs, Function.update_apply]
    cases Decidable.em (e = b) with
    | inl heq => rw [if_pos heq, heq, setBuf_self, href, h.length b, List.length_erase_of_mem hmem]
    | inr hne =>
        rw [if_neg hne, setBuf_of_ne hne]
        exact h.length e
  · intro e u
    have hcount := h.count e u
    rw [setCall_bufs, setBuf_field Buf.holder hholder e, Function.update_apply]
    cases Decidable.em (u = t) with
    | inr hut =>
        rw [setCall_of_ne hut, setBuf_calls]
        split
        · rename_i heq
          rw [List.count_erase_of_ne hut, ← heq]
          exact hcount
        · exact hcount
    | inl hut =>
        rw [hut, setCall_self, hc]
        rw [hut, hpend] at hcount
        split
        · rename_i heq
          rw [heq, if_pos rfl] at hcount
          rw [List.count_erase_self, heq, hcount]
          simp
        · rename_i hne
          rw [if_neg (fun heq => hne (Option.some.inj heq).symm)] at hcount
          rw [hcount]
          simp

theorem Locked.free (h : Locked s) (hpos : 0 < (s.bufs b).sem.units) :
    (s.bufs b).holder = none := by
  have hunits := h.units b
  cases hholder : (s.bufs b).holder with
  | none => rfl
  | some u =>
      rw [hholder] at hunits
      have hone : holders (some u) = 1 := rfl
      lia

/-- A free buffer is locked by a task that does not wait for another one any more. -/
theorem Locked.enter (h : Locked s) {sem : Turnstile} (hsound : sem.Sound)
    (hnodup : (sem.waiting ++ sem.released).Nodup)
    (hunits : sem.units + 1 = (s.bufs b).sem.units)
    (hsub : forall u, u ∈ sem.waiting ∨ u ∈ sem.released ->
      u ≠ t ∧ (u ∈ (s.bufs b).sem.waiting ∨ u ∈ (s.bufs b).sem.released))
    (hout : forall e, e ≠ b -> (s.calls t).lockingOn ≠ some e)
    {c : Call} (hown : forall e, c.owned = some e -> e = b) {buf : Buf α}
    (hsem : buf.sem = sem) (hholder : buf.holder = some t) :
    Locked ((s.setBuf b buf).setCall t c) := by
  have hfree : (s.bufs b).holder = none := h.free (by lia)
  constructor
  · intro e
    rw [setCall_bufs]
    cases Decidable.em (e = b) with
    | inl heq =>
        rw [heq, setBuf_self, hsem]
        exact hsound
    | inr hne =>
        rw [setBuf_of_ne hne]
        exact h.sound e
  · intro e
    rw [setCall_bufs]
    cases Decidable.em (e = b) with
    | inl heq =>
        have hb := h.units b
        rw [hfree] at hb
        rw [heq, setBuf_self, hsem, hholder]
        have hone : holders (some t) = 1 := rfl
        have hzero : holders none = 0 := rfl
        lia
    | inr hne =>
        rw [setBuf_of_ne hne]
        exact h.units e
  · intro e u hu
    rw [setCall_bufs] at hu
    have hold' : (s.calls u).lockingOn = some e ∧ u ≠ t := by
      cases Decidable.em (e = b) with
      | inl heq =>
          rw [heq, setBuf_self, hsem] at hu
          rcases hsub u hu with ⟨hne, hmem⟩
          rw [heq]
          exact ⟨h.queued b u hmem, hne⟩
      | inr hne =>
          rw [setBuf_of_ne hne] at hu
          have hlocking := h.queued e u hu
          refine ⟨hlocking, ?_⟩
          intro heq
          rw [heq] at hlocking
          exact hout e hne hlocking
    rw [setCall_of_ne hold'.right]
    exact hold'.left
  · intro e
    rw [setCall_bufs]
    cases Decidable.em (e = b) with
    | inl heq =>
        rw [heq, setBuf_self, hsem]
        exact hnodup
    | inr hne =>
        rw [setBuf_of_ne hne]
        exact h.nodup e
  · intro e u hu
    rw [setCall_bufs]
    cases Decidable.em (u = t) with
    | inl heq =>
        rw [heq, setCall_self] at hu
        rw [heq, hown e hu, setBuf_self]
        exact hholder
    | inr hne =>
        rw [setCall_of_ne hne] at hu
        have hheld := h.owned e u hu
        cases Decidable.em (e = b) with
        | inl heb =>
            rw [heb, hfree] at hheld
            cases hheld
        | inr heb =>
            rw [setBuf_of_ne heb]
            exact hheld

theorem Locked.block (h : Locked s) {sem : Turnstile} (hsound : sem.Sound)
    (hnodup : (sem.waiting ++ sem.released).Nodup)
    (hunits : sem.units = (s.bufs b).sem.units)
    (hsub : forall u, u ∈ sem.waiting ∨ u ∈ sem.released ->
      u = t ∨ u ∈ (s.bufs b).sem.waiting ∨ u ∈ (s.bufs b).sem.released)
    (hout : (s.calls t).lockingOn = none) {c : Call} (hc : c.lockingOn = some b)
    (hown : c.owned = none) {buf : Buf α} (hsem : buf.sem = sem)
    (hholder : buf.holder = (s.bufs b).holder) : Locked ((s.setBuf b buf).setCall t c) := by
  have hholders := setBuf_field Buf.holder hholder
  constructor
  · intro e
    rw [setCall_bufs]
    cases Decidable.em (e = b) with
    | inl heq =>
        rw [heq, setBuf_self, hsem]
        exact hsound
    | inr hne =>
        rw [setBuf_of_ne hne]
        exact h.sound e
  · intro e
    rw [setCall_bufs, hholders e]
    cases Decidable.em (e = b) with
    | inl heq =>
        rw [heq, setBuf_self, hsem, hunits]
        exact h.units b
    | inr hne =>
        rw [setBuf_of_ne hne]
        exact h.units e
  · intro e u hu
    rw [setCall_bufs] at hu
    cases Decidable.em (e = b) with
    | inl heq =>
        rw [heq, setBuf_self, hsem] at hu
        rw [heq]
        cases Decidable.em (u = t) with
        | inl hut =>
            rw [hut, setCall_self]
            exact hc
        | inr hut =>
            rw [setCall_of_ne hut]
            exact h.queued b u ((hsub u hu).resolve_left hut)
    | inr hne =>
        rw [setBuf_of_ne hne] at hu
        have hlocking := h.queued e u hu
        rw [setCall_of_ne]
        · exact hlocking
        · intro hut
          rw [hut, hout] at hlocking
          cases hlocking
  · intro e
    rw [setCall_bufs]
    cases Decidable.em (e = b) with
    | inl heq =>
        rw [heq, setBuf_self, hsem]
        exact hnodup
    | inr hne =>
        rw [setBuf_of_ne hne]
        exact h.nodup e
  · intro e u hu
    rw [setCall_bufs, hholders e]
    cases Decidable.em (u = t) with
    | inl hut =>
        rw [hut, setCall_self, hown] at hu
        cases hu
    | inr hut =>
        rw [setCall_of_ne hut] at hu
        exact h.owned e u hu

theorem Locked.leave (h : Locked s) (hheld : (s.bufs b).holder = some t) {sem : Turnstile}
    (hsound : sem.Sound) (hnodup : (sem.waiting ++ sem.released).Nodup)
    (hunits : sem.units = (s.bufs b).sem.units + 1)
    (hsub : forall u, u ∈ sem.waiting ∨ u ∈ sem.released ->
      u ∈ (s.bufs b).sem.waiting ∨ u ∈ (s.bufs b).sem.released)
    (hidle : (s.calls t).lockingOn = none) (hnone : (s.calls t).owned = none)
    {c : Call} (hc : c.lockingOn = none) (hown : c.owned = none) {buf : Buf α}
    (hsem : buf.sem = sem) (hholder : buf.holder = none) :
    Locked ((s.setBuf b buf).setCall t c) := by
  constructor
  · intro e
    rw [setCall_bufs]
    cases Decidable.em (e = b) with
    | inl heq =>
        rw [heq, setBuf_self, hsem]
        exact hsound
    | inr hne =>
        rw [setBuf_of_ne hne]
        exact h.sound e
  · intro e
    rw [setCall_bufs]
    cases Decidable.em (e = b) with
    | inl heq =>
        have hb := h.units b
        rw [hheld] at hb
        rw [heq, setBuf_self, hsem, hholder]
        have hone : holders (some t) = 1 := rfl
        have hzero : holders none = 0 := rfl
        lia
    | inr hne =>
        rw [setBuf_of_ne hne]
        exact h.units e
  · intro e u hu
    rw [setCall_bufs] at hu
    rw [setCall_field (s := s.setBuf b buf) Call.lockingOn (hc.trans hidle.symm) u, setBuf_calls]
    cases Decidable.em (e = b) with
    | inl heq =>
        rw [heq, setBuf_self, hsem] at hu
        rw [heq]
        exact h.queued b u (hsub u hu)
    | inr hne =>
        rw [setBuf_of_ne hne] at hu
        exact h.queued e u hu
  · intro e
    rw [setCall_bufs]
    cases Decidable.em (e = b) with
    | inl heq =>
        rw [heq, setBuf_self, hsem]
        exact hnodup
    | inr hne =>
        rw [setBuf_of_ne hne]
        exact h.nodup e
  · intro e u hu
    rw [setCall_bufs]
    rw [setCall_field (s := s.setBuf b buf) Call.owned (hown.trans hnone.symm) u,
      setBuf_calls] at hu
    have hold := h.owned e u hu
    cases Decidable.em (e = b) with
    | inr hne =>
        rw [setBuf_of_ne hne]
        exact hold
    | inl heq =>
        rw [heq, hheld] at hold
        rw [← Option.some.inj hold, hnone] at hu
        cases hu

end Locks

end Disk
end Kernel
end NicoOS
