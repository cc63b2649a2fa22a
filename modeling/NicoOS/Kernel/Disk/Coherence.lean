import NicoOS.Kernel.Disk.Steps

/-!
# Coherence of the buffer cache

A block has at most one buffer.  Its data are those stored last once it is valid,
and the disk has them too unless the buffer is dirty, or its holder has not marked
them yet.  Either keeps the buffer from being recycled.
-/

namespace NicoOS
namespace Kernel
namespace Disk

open Lib

variable {α : Type}

/-- The buffer is assigned to the block. -/
def Caches (buf : Buf α) (d : Nat) (k : UInt32) : Prop := buf.disk = some d ∧ buf.blockNo = k

def Buf.content (buf : Buf α) : Bool × Bool × Option Nat × UInt32 × Bool × α :=
  (buf.valid, buf.dirty, buf.disk, buf.blockNo, buf.unmarked, buf.data)

structure Coherent (s : State α) : Prop where
  unique : forall b c d k, Caches (s.bufs b) d k -> Caches (s.bufs c) d k -> b = c
  uncached : forall d k, (forall b, Not (Caches (s.bufs b) d k)) -> s.storage d k = s.stored d k
  unread : forall b d k, Caches (s.bufs b) d k -> (s.bufs b).valid = false ->
    s.storage d k = s.stored d k
  latest : forall b d k, Caches (s.bufs b) d k -> (s.bufs b).valid = true ->
    (s.bufs b).data = s.stored d k
  clean : forall b d k, Caches (s.bufs b) d k -> (s.bufs b).isClean = true ->
    (s.bufs b).unmarked = false -> s.storage d k = (s.bufs b).data
  inFlight : forall b d k, s.service = some b -> Caches (s.bufs b) d k ->
    (s.bufs b).dirty = true -> s.storage d k = (s.bufs b).data
  marked : forall b, (s.bufs b).dirty = true -> (s.bufs b).valid = true
  assigned : forall b, (s.bufs b).valid = true -> (s.bufs b).disk.isSome = true
  outside : forall b, nbuf ≤ b -> (s.bufs b).disk = none

/-- The block that a call of `buf_read` looks for, and the buffer it found. -/
def Call.target : Call -> Option (Nat × UInt32 × Nat)
  | Call.got d k b => some (d, k, b)
  | Call.locking d k b => some (d, k, b)
  | Call.locked d k b => some (d, k, b)
  | Call.reading d k b => some (d, k, b)
  | _ => none

/-- The buffer that a call of `buf_read` has locked. -/
def Call.fetching : Call -> Option Nat
  | Call.locked _ _ b => some b
  | Call.reading _ _ b => some b
  | _ => none

/-- Calls work on the buffers of their blocks, and a buffer that was read is valid. -/
structure Targeted (s : State α) : Prop where
  target : forall t d k b, (s.calls t).target = some (d, k, b) -> Caches (s.bufs b) d k
  held : forall t b, (s.bufs b).holder = some t ->
    (s.bufs b).valid = true ∨ (s.calls t).fetching = some b

/-- A buffer with data that are not marked yet is valid, and a task holds it. -/
structure Tended (s : State α) : Prop where
  valid : forall b, (s.bufs b).unmarked = true -> (s.bufs b).valid = true
  held : forall b, (s.bufs b).unmarked = true -> (s.bufs b).holder ≠ none

/-- The LRU list is a circle through all buffers, and there are no others. -/
structure Circular (s : State α) : Prop where
  circle : exists xs, s.lru.Circle xs ∧ xs.Perm (List.range nbuf)
  bounded : forall b, nbuf ≤ b -> (s.bufs b).refcnt = 0

/-!
# Contents
-/

section Contents

variable {s s' : State α} {b d : Nat} {k : UInt32}

theorem caches_of_content {buf buf' : Buf α} (h : buf'.content = buf.content) :
    Caches buf' d k <-> Caches buf d k := by
  unfold Buf.content at h
  simp only [Prod.mk.injEq] at h
  unfold Caches
  rw [h.2.2.1, h.2.2.2.1]

theorem caches_inj {buf : Buf α} {i : Nat} {l : UInt32} (h : Caches buf i l)
    (h' : Caches buf d k) : i = d ∧ l = k := by
  rcases h with ⟨hi, hl⟩
  rcases h' with ⟨hd, hk⟩
  rw [hd] at hi
  exact ⟨(Option.some.inj hi).symm, hl.symm.trans hk⟩

theorem Coherent.congr (h : Coherent s)
    (hbufs : forall e, (s'.bufs e).content = (s.bufs e).content)
    (hstorage : s'.storage = s.storage) (hstored : s'.stored = s.stored)
    (hservice : s'.service = s.service) : Coherent s' := by
  have hcaches : forall e d k, Caches (s'.bufs e) d k <-> Caches (s.bufs e) d k :=
    fun e d k => caches_of_content (hbufs e)
  have hfields := hbufs
  unfold Buf.content at hfields
  simp only [Prod.mk.injEq] at hfields
  have hclean : forall e, (s'.bufs e).isClean = (s.bufs e).isClean := by
    intro e
    unfold Buf.isClean
    rw [(hfields e).1, (hfields e).2.1]
  constructor
  · intro e c d k he hc
    exact h.unique e c d k ((hcaches e d k).mp he) ((hcaches c d k).mp hc)
  · intro d k hnone
    rw [hstorage, hstored]
    exact h.uncached d k (fun e he => hnone e ((hcaches e d k).mpr he))
  · intro e d k he hvalid
    rw [(hfields e).1] at hvalid
    rw [hstorage, hstored]
    exact h.unread e d k ((hcaches e d k).mp he) hvalid
  · intro e d k he hvalid
    rw [(hfields e).1] at hvalid
    rw [(hfields e).2.2.2.2.2, hstored]
    exact h.latest e d k ((hcaches e d k).mp he) hvalid
  · intro e d k he hok hmarked
    rw [hclean e] at hok
    rw [(hfields e).2.2.2.2.1] at hmarked
    rw [(hfields e).2.2.2.2.2, hstorage]
    exact h.clean e d k ((hcaches e d k).mp he) hok hmarked
  · intro e d k hserve he hdirty
    rw [hservice] at hserve
    rw [(hfields e).2.1] at hdirty
    rw [(hfields e).2.2.2.2.2, hstorage]
    exact h.inFlight e d k hserve ((hcaches e d k).mp he) hdirty
  · intro e hdirty
    rw [(hfields e).2.1] at hdirty
    rw [(hfields e).1]
    exact h.marked e hdirty
  · intro e hvalid
    rw [(hfields e).1] at hvalid
    rw [(hfields e).2.2.1]
    exact h.assigned e hvalid
  · intro e he
    rw [(hfields e).2.2.1]
    exact h.outside e he

theorem setBlock_self (storage : Nat -> UInt32 -> α) (d : Nat) (k : UInt32) (data : α) :
    setBlock storage d k data d k = data := by
  unfold setBlock
  rw [Function.update_self, Function.update_self]

theorem setBlock_of_ne (storage : Nat -> UInt32 -> α) {d e : Nat} {k l : UInt32} (data : α)
    (h : Not (e = d ∧ l = k)) : setBlock storage d k data e l = storage e l := by
  unfold setBlock
  rw [Function.update_apply]
  split
  · rename_i heq
    rw [Function.update_of_ne]
    · rw [heq]
    · exact fun hl => h ⟨heq, hl⟩
  · rfl

theorem written_clean (hdirty : (s.bufs b).dirty = false) : written s b = s.storage := by
  unfold written
  rw [hdirty]

/-- A started request changes at most the block of its buffer. -/
theorem written_of_ne (h : Not (Caches (s.bufs b) d k)) : written s b d k = s.storage d k := by
  cases hdirty : (s.bufs b).dirty with
  | false => rw [written_clean hdirty]
  | true =>
      unfold written
      rw [hdirty]
      cases hdisk : (s.bufs b).disk with
      | none => rfl
      | some e =>
          apply setBlock_of_ne
          intro heq
          apply h
          rw [heq.left, heq.right]
          exact ⟨hdisk, rfl⟩

theorem written_dirty (h : Caches (s.bufs b) d k) (hdirty : (s.bufs b).dirty = true) :
    written s b d k = (s.bufs b).data := by
  rcases h with ⟨hdisk, hblock⟩
  unfold written
  rw [hdirty, hdisk, ← hblock]
  exact setBlock_self _ _ _ _

theorem Coherent.start (h : Coherent s) (b : Nat) :
    Coherent { s with service := some b, storage := written s b } := by
  have hother : forall e d k, Caches (s.bufs e) d k -> e ≠ b ->
      written s b d k = s.storage d k := by
    intro e d k he hne
    apply written_of_ne
    intro hb
    exact hne (h.unique e b d k he hb)
  constructor
  · exact h.unique
  · intro d k hnone
    have hb : Not (Caches (s.bufs b) d k) := hnone b
    show written s b d k = s.stored d k
    rw [written_of_ne hb]
    exact h.uncached d k hnone
  · intro e d k he hvalid
    show written s b d k = s.stored d k
    cases hdirty : (s.bufs b).dirty with
    | false =>
        rw [written_clean hdirty]
        exact h.unread e d k he hvalid
    | true =>
        rw [hother e d k he]
        · exact h.unread e d k he hvalid
        · intro heq
          have hmarked := h.marked b hdirty
          rw [← heq] at hmarked
          rw [hmarked] at hvalid
          cases hvalid
  · exact h.latest
  · intro e d k he hok hmarked
    show written s b d k = (s.bufs e).data
    cases hdirty : (s.bufs b).dirty with
    | false =>
        rw [written_clean hdirty]
        exact h.clean e d k he hok hmarked
    | true =>
        rw [hother e d k he]
        · exact h.clean e d k he hok hmarked
        · intro heq
          rw [heq] at hok
          change ((s.bufs b).valid && !(s.bufs b).dirty) = true at hok
          rw [hdirty, Bool.not_true, Bool.and_false] at hok
          cases hok
  · intro e d k hserve he hdirty
    have heq : e = b := (Option.some.inj hserve).symm
    rw [heq] at he hdirty ⊢
    exact written_dirty he hdirty
  · exact h.marked
  · exact h.assigned
  · exact h.outside

/-- The disk has the data of a block whose buffer is not dirty and has nothing to be marked. -/
theorem Coherent.settled (h : Coherent s) (hcaches : Caches (s.bufs b) d k)
    (hdirty : (s.bufs b).dirty = false) (hmarked : (s.bufs b).unmarked = false) :
    s.storage d k = s.stored d k := by
  cases hvalid : (s.bufs b).valid with
  | false => exact h.unread b d k hcaches hvalid
  | true =>
      have hclean : (s.bufs b).isClean = true := by
        unfold Buf.isClean
        rw [hvalid, hdirty]
        rfl
      rw [h.clean b d k hcaches hclean hmarked]
      exact h.latest b d k hcaches hvalid

def completed (buf : Buf α) (storage : Nat -> UInt32 -> α) : Buf α :=
  { buf with
    valid := true
    dirty := false
    data :=
      match buf.dirty, buf.disk with
      | false, some d => storage d buf.blockNo
      | _, _ => buf.data }

theorem complete_bufs (b : Nat) (rest : List Nat) (s : State α) :
    (complete b rest s).bufs = (s.setBuf b (completed (s.bufs b) s.storage)).bufs := rfl

/-- After a request the disk, the buffer and the data stored last agree. -/
theorem Coherent.completed_data (h : Coherent s) (hserve : s.service = some b)
    (hpending : (s.bufs b).isClean = false) (hcaches : Caches (s.bufs b) d k) :
    (completed (s.bufs b) s.storage).data = s.stored d k ∧
      s.storage d k = s.stored d k := by
  have hb := hcaches
  rcases hb with ⟨hdisk, hblock⟩
  cases hdirty : (s.bufs b).dirty with
  | true =>
      have hdata : (completed (s.bufs b) s.storage).data = (s.bufs b).data := by
        unfold completed
        simp only [hdirty]
      have hlatest := h.latest b d k hcaches (h.marked b hdirty)
      rw [hdata, h.inFlight b d k hserve hcaches hdirty]
      exact ⟨hlatest, hlatest⟩
  | false =>
      have hdata : (completed (s.bufs b) s.storage).data = s.storage d k := by
        unfold completed
        simp only [hdirty, hdisk, hblock]
      have hinvalid : (s.bufs b).valid = false := by
        unfold Buf.isClean at hpending
        rw [hdirty, Bool.not_false, Bool.and_true] at hpending
        exact hpending
      have hunread := h.unread b d k hcaches hinvalid
      exact ⟨hdata.trans hunread, hunread⟩

theorem Coherent.finish (h : Coherent s) (hserve : s.service = some b)
    (hpending : (s.bufs b).isClean = false) (hcaches : Caches (s.bufs b) d k) :
    Coherent { s.setBuf b (completed (s.bufs b) s.storage) with service := none } := by
  rcases h.completed_data hserve hpending hcaches with ⟨hdata, hsame⟩
  have hdisk : (completed (s.bufs b) s.storage).disk = (s.bufs b).disk := rfl
  have hblockNo : (completed (s.bufs b) s.storage).blockNo = (s.bufs b).blockNo := rfl
  have hassigned : forall e i l,
      Caches ((s.setBuf b (completed (s.bufs b) s.storage)).bufs e) i l <->
        Caches (s.bufs e) i l := by
    intro e i l
    unfold Caches
    rw [setBuf_field Buf.disk hdisk e, setBuf_field Buf.blockNo hblockNo e]
  have hblock : forall i l, Caches (s.bufs b) i l -> i = d ∧ l = k :=
    fun i l hb => caches_inj hb hcaches
  constructor
  · intro e c i l he hc
    exact h.unique e c i l ((hassigned e i l).mp he) ((hassigned c i l).mp hc)
  · intro i l hnone
    exact h.uncached i l (fun e he => hnone e ((hassigned e i l).mpr he))
  · intro e i l he hvalid
    have hold := (hassigned e i l).mp he
    cases Decidable.em (e = b) with
    | inl heq =>
        rw [heq, setBuf_self] at hvalid
        cases hvalid
    | inr hne =>
        rw [setBuf_of_ne hne] at hvalid
        exact h.unread e i l hold hvalid
  · intro e i l he hvalid
    have hold := (hassigned e i l).mp he
    cases Decidable.em (e = b) with
    | inl heq =>
        rw [heq] at hold ⊢
        rw [setBuf_self, (hblock i l hold).left, (hblock i l hold).right]
        exact hdata
    | inr hne =>
        rw [setBuf_of_ne hne] at hvalid ⊢
        exact h.latest e i l hold hvalid
  · intro e i l he hclean hmarked
    have hold := (hassigned e i l).mp he
    cases Decidable.em (e = b) with
    | inl heq =>
        rw [heq] at hold ⊢
        rw [setBuf_self, hdata, (hblock i l hold).left, (hblock i l hold).right]
        exact hsame
    | inr hne =>
        rw [setBuf_of_ne hne] at hclean hmarked ⊢
        exact h.clean e i l hold hclean hmarked
  · intro e i l hnone
    cases hnone
  · intro e hdirty
    cases Decidable.em (e = b) with
    | inl heq =>
        rw [heq, setBuf_self] at hdirty
        cases hdirty
    | inr hne =>
        rw [setBuf_of_ne hne] at hdirty ⊢
        exact h.marked e hdirty
  · intro e hvalid
    cases Decidable.em (e = b) with
    | inl heq =>
        rw [heq, setBuf_self]
        show (s.bufs b).disk.isSome = true
        rw [hcaches.left]
        rfl
    | inr hne =>
        rw [setBuf_of_ne hne] at hvalid ⊢
        exact h.assigned e hvalid
  · intro e he
    rw [setBuf_field Buf.disk hdisk e]
    exact h.outside e he

/-- The holder of a buffer that was read stores data. -/
theorem Coherent.store (h : Coherent s) (hcaches : Caches (s.bufs b) d k)
    (hvalid : (s.bufs b).valid = true) (hserve : s.service ≠ some b) (data : α) :
    Coherent (storeData b data s) := by
  have hbufs : (storeData b data s).bufs =
      (s.setBuf b { s.bufs b with data := data, unmarked := true }).bufs := rfl
  have hstored : (storeData b data s).stored = setBlock s.stored d k data := by
    unfold storeData
    rw [hcaches.left, ← hcaches.right]
  have hassigned : forall e i l,
      Caches ((storeData b data s).bufs e) i l <-> Caches (s.bufs e) i l := by
    intro e i l
    have hdisk : ({ s.bufs b with data := data, unmarked := true } : Buf α).disk =
      (s.bufs b).disk := rfl
    have hblockNo : ({ s.bufs b with data := data, unmarked := true } : Buf α).blockNo =
      (s.bufs b).blockNo := rfl
    unfold Caches
    rw [hbufs, setBuf_field Buf.disk hdisk e, setBuf_field Buf.blockNo hblockNo e]
  have hother : forall e i l, Caches (s.bufs e) i l -> e ≠ b ->
      setBlock s.stored d k data i l = s.stored i l := by
    intro e i l he hne
    apply setBlock_of_ne
    intro heq
    rw [heq.left, heq.right] at he
    exact hne (h.unique e b d k he hcaches)
  constructor
  · intro e c i l he hc
    exact h.unique e c i l ((hassigned e i l).mp he) ((hassigned c i l).mp hc)
  · intro i l hnone
    rw [hstored, setBlock_of_ne]
    · exact h.uncached i l (fun e he => hnone e ((hassigned e i l).mpr he))
    · intro heq
      apply hnone b
      rw [hassigned, heq.left, heq.right]
      exact hcaches
  · intro e i l he hinvalid
    have hold := (hassigned e i l).mp he
    have hne : e ≠ b := by
      intro heq
      rw [heq, hbufs, setBuf_self] at hinvalid
      change (s.bufs b).valid = false at hinvalid
      rw [hvalid] at hinvalid
      cases hinvalid
    rw [hbufs, setBuf_of_ne hne] at hinvalid
    rw [hstored, hother e i l hold hne]
    exact h.unread e i l hold hinvalid
  · intro e i l he hok
    have hold := (hassigned e i l).mp he
    rw [hstored]
    cases Decidable.em (e = b) with
    | inl heq =>
        rw [heq] at hold ⊢
        rw [hbufs, setBuf_self, (caches_inj hold hcaches).left, (caches_inj hold hcaches).right,
          setBlock_self]
    | inr hne =>
        rw [hbufs, setBuf_of_ne hne] at hok ⊢
        rw [hother e i l hold hne]
        exact h.latest e i l hold hok
  · intro e i l he hclean hmarked
    have hold := (hassigned e i l).mp he
    have hne : e ≠ b := by
      intro heq
      rw [heq, hbufs, setBuf_self] at hmarked
      cases hmarked
    rw [hbufs, setBuf_of_ne hne] at hclean hmarked ⊢
    exact h.clean e i l hold hclean hmarked
  · intro e i l hflight he hdirty
    have hold := (hassigned e i l).mp he
    have hne : e ≠ b := by
      intro heq
      rw [heq] at hflight
      exact hserve hflight
    rw [hbufs, setBuf_of_ne hne] at hdirty ⊢
    exact h.inFlight e i l hflight hold hdirty
  · intro e hdirty
    cases Decidable.em (e = b) with
    | inl heq =>
        rw [heq, hbufs, setBuf_self]
        exact hvalid
    | inr hne =>
        rw [hbufs, setBuf_of_ne hne] at hdirty ⊢
        exact h.marked e hdirty
  · intro e hok
    cases Decidable.em (e = b) with
    | inl heq =>
        rw [heq, hbufs, setBuf_self]
        exact h.assigned b hvalid
    | inr hne =>
        rw [hbufs, setBuf_of_ne hne] at hok ⊢
        exact h.assigned e hok
  · intro e he
    have hdisk : ({ s.bufs b with data := data, unmarked := true } : Buf α).disk =
      (s.bufs b).disk := rfl
    rw [hbufs, setBuf_field Buf.disk hdisk e]
    exact h.outside e he

theorem Coherent.markDirty (h : Coherent s) (hvalid : (s.bufs b).valid = true)
    (hserve : s.service ≠ some b) : Coherent (markDirty b s) := by
  have hdisk : forall e, ((Disk.markDirty b s).bufs e).disk = (s.bufs e).disk := by
    intro e
    apply setBuf_field Buf.disk
    rfl
  have hblockNo : forall e, ((Disk.markDirty b s).bufs e).blockNo = (s.bufs e).blockNo := by
    intro e
    apply setBuf_field Buf.blockNo
    rfl
  have hassigned : forall e i l,
      Caches ((Disk.markDirty b s).bufs e) i l <-> Caches (s.bufs e) i l := by
    intro e i l
    unfold Caches
    rw [hdisk, hblockNo]
  have hflag : forall e, ((Disk.markDirty b s).bufs e).valid = (s.bufs e).valid := by
    intro e
    apply setBuf_field Buf.valid
    rfl
  have hdata : forall e, ((Disk.markDirty b s).bufs e).data = (s.bufs e).data := by
    intro e
    apply setBuf_field Buf.data
    rfl
  have hother : forall e, e ≠ b -> (Disk.markDirty b s).bufs e = s.bufs e :=
    fun e hne => setBuf_of_ne hne _
  constructor
  · intro e c i l he hc
    exact h.unique e c i l ((hassigned e i l).mp he) ((hassigned c i l).mp hc)
  · exact fun i l hnone => h.uncached i l (fun e he => hnone e ((hassigned e i l).mpr he))
  · intro e i l he hinvalid
    rw [hflag] at hinvalid
    exact h.unread e i l ((hassigned e i l).mp he) hinvalid
  · intro e i l he hok
    rw [hflag] at hok
    rw [hdata]
    exact h.latest e i l ((hassigned e i l).mp he) hok
  · intro e i l he hclean hmarked
    have hne : e ≠ b := by
      intro heq
      rw [heq] at hclean
      change (((Disk.markDirty b s).bufs b).valid && !((Disk.markDirty b s).bufs b).dirty) = true
        at hclean
      rw [show ((Disk.markDirty b s).bufs b).dirty = true from congrArg Buf.dirty (setBuf_self ..),
        Bool.not_true, Bool.and_false] at hclean
      cases hclean
    have hold := (hassigned e i l).mp he
    rw [hother e hne] at hclean hmarked ⊢
    exact h.clean e i l hold hclean hmarked
  · intro e i l hflight he hdirty
    have hne : e ≠ b := by
      intro heq
      rw [heq] at hflight
      exact hserve hflight
    have hold := (hassigned e i l).mp he
    rw [hother e hne] at hdirty ⊢
    exact h.inFlight e i l hflight hold hdirty
  · intro e hdirty
    rw [hflag]
    cases Decidable.em (e = b) with
    | inl heq =>
        rw [heq]
        exact hvalid
    | inr hne =>
        rw [hother e hne] at hdirty
        exact h.marked e hdirty
  · intro e hok
    rw [hflag] at hok
    rw [hdisk]
    exact h.assigned e hok
  · intro e he
    rw [hdisk]
    exact h.outside e he

/-- A buffer with nothing to be written is assigned to a block without a buffer. -/
theorem Coherent.recycle (h : Coherent s) (hdirty : (s.bufs b).dirty = false)
    (hmarked : (s.bufs b).unmarked = false)
    (hmiss : forall e, Not (Caches (s.bufs e) d k)) (hin : b < nbuf) {buf : Buf α}
    (hnew : Caches buf d k) (hvalid : buf.valid = false) (hclean : buf.dirty = false) :
    Coherent (s.setBuf b buf) := by
  have hold : forall e i l, e ≠ b -> (Caches ((s.setBuf b buf).bufs e) i l <->
      Caches (s.bufs e) i l) := by
    intro e i l hne
    rw [setBuf_of_ne hne]
  have hfresh : forall e i l, e ≠ b -> Caches ((s.setBuf b buf).bufs e) i l ->
      Not (Caches ((s.setBuf b buf).bufs b) i l) := by
    intro e i l hne he hb
    rw [setBuf_self] at hb
    rw [hold e i l hne, (caches_inj hb hnew).left, (caches_inj hb hnew).right] at he
    exact hmiss e he
  constructor
  · intro e c i l he hc
    cases Decidable.em (e = b) with
    | inl heb =>
        cases Decidable.em (c = b) with
        | inl hcb => rw [heb, hcb]
        | inr hcb =>
            rw [heb] at he
            exact absurd he (hfresh c i l hcb hc)
    | inr heb =>
        cases Decidable.em (c = b) with
        | inl hcb =>
            rw [hcb] at hc
            exact absurd hc (hfresh e i l heb he)
        | inr hcb => exact h.unique e c i l ((hold e i l heb).mp he) ((hold c i l hcb).mp hc)
  · intro i l hnone
    cases Classical.em (Caches (s.bufs b) i l) with
    | inl hb => exact h.settled hb hdirty hmarked
    | inr hb =>
        apply h.uncached i l
        intro e he
        cases Decidable.em (e = b) with
        | inl heb =>
            rw [heb] at he
            exact hb he
        | inr heb => exact hnone e ((hold e i l heb).mpr he)
  · intro e i l he hinvalid
    cases Decidable.em (e = b) with
    | inl heb =>
        rw [heb, setBuf_self] at he
        rw [(caches_inj he hnew).left, (caches_inj he hnew).right]
        exact h.uncached d k hmiss
    | inr heb =>
        rw [setBuf_of_ne heb] at hinvalid
        exact h.unread e i l ((hold e i l heb).mp he) hinvalid
  · intro e i l he hok
    have heb : e ≠ b := by
      intro heq
      rw [heq, setBuf_self, hvalid] at hok
      cases hok
    rw [setBuf_of_ne heb] at hok ⊢
    exact h.latest e i l ((hold e i l heb).mp he) hok
  · intro e i l he hok hdone
    have heb : e ≠ b := by
      intro heq
      rw [heq, setBuf_self] at hok
      unfold Buf.isClean at hok
      rw [hvalid, Bool.false_and] at hok
      cases hok
    rw [setBuf_of_ne heb] at hok hdone ⊢
    exact h.clean e i l ((hold e i l heb).mp he) hok hdone
  · intro e i l hflight he hmarked
    have heb : e ≠ b := by
      intro heq
      rw [heq, setBuf_self, hclean] at hmarked
      cases hmarked
    rw [setBuf_of_ne heb] at hmarked ⊢
    exact h.inFlight e i l hflight ((hold e i l heb).mp he) hmarked
  · intro e hmarked
    have heb : e ≠ b := by
      intro heq
      rw [heq, setBuf_self, hclean] at hmarked
      cases hmarked
    rw [setBuf_of_ne heb] at hmarked ⊢
    exact h.marked e hmarked
  · intro e hok
    have heb : e ≠ b := by
      intro heq
      rw [heq, setBuf_self, hvalid] at hok
      cases hok
    rw [setBuf_of_ne heb] at hok ⊢
    exact h.assigned e hok
  · intro e he
    have heb : e ≠ b := by lia
    rw [setBuf_of_ne heb]
    exact h.outside e he

end Contents

/-!
# Targets
-/

section Targets

variable {s s' : State α} {t b d : Nat} {k : UInt32} {refs : Nat -> List Nat}

theorem Targeted.congr (h : Targeted s) (hbufs : s'.bufs = s.bufs) (hcalls : s'.calls = s.calls) :
    Targeted s' := by
  constructor
  · rw [hbufs, hcalls]
    exact h.target
  · rw [hbufs, hcalls]
    exact h.held

theorem Targeted.setCall (h : Targeted s) {c : Call}
    (htarget : forall d k b, c.target = some (d, k, b) -> Caches (s.bufs b) d k)
    (hheld : forall b, (s.bufs b).holder = some t ->
      (s.bufs b).valid = true ∨ c.fetching = some b) :
    Targeted (s.setCall t c) := by
  constructor
  · intro u i l e hu
    cases Decidable.em (u = t) with
    | inl heq =>
        rw [heq, setCall_self] at hu
        exact htarget i l e hu
    | inr hne =>
        rw [setCall_of_ne hne] at hu
        exact h.target u i l e hu
  · intro u e hu
    cases Decidable.em (u = t) with
    | inl heq =>
        rw [heq] at hu ⊢
        rw [setCall_self]
        exact hheld e hu
    | inr hne =>
        rw [setCall_of_ne hne]
        exact h.held u e hu

/-- A buffer changes that stays assigned to its block, and it does not become invalid. -/
theorem Targeted.setBuf (h : Targeted s) {buf : Buf α} (hdisk : buf.disk = (s.bufs b).disk)
    (hblock : buf.blockNo = (s.bufs b).blockNo)
    (hvalid : (s.bufs b).valid = true -> buf.valid = true)
    (hholder : forall u, buf.holder = some u -> (s.bufs b).holder = some u ∨
      (s.calls u).fetching = some b) : Targeted (s.setBuf b buf) := by
  constructor
  · intro u i l e hu
    have hcaches := h.target u i l e hu
    unfold Caches at hcaches ⊢
    rw [setBuf_field Buf.disk hdisk e, setBuf_field Buf.blockNo hblock e]
    exact hcaches
  · intro u e hu
    cases Decidable.em (e = b) with
    | inl heq =>
        rw [heq, setBuf_self] at hu ⊢
        rcases hholder u hu with hold | hfetch
        · exact (h.held u b hold).imp_left hvalid
        · exact Or.inr hfetch
    | inr hne =>
        rw [setBuf_of_ne hne] at hu ⊢
        exact h.held u e hu

/-- A call that does not fetch a buffer holds valid ones only. -/
theorem Targeted.valid_of_held (h : Targeted s) (hheld : (s.bufs b).holder = some t)
    (hcall : (s.calls t).fetching ≠ some b) : (s.bufs b).valid = true :=
  (h.held t b hheld).resolve_right hcall

/-- A call of `buf_read` returns with a valid buffer. -/
theorem Targeted.finish (h : Targeted s) (hvalid : forall e, (s.calls t).fetching = some e ->
    (s.bufs e).valid = true) {c : Call} (htarget : c.target = none) :
    Targeted (s.setCall t c) := by
  apply h.setCall
  · intro i l e he
    rw [htarget] at he
    cases he
  · intro e he
    rcases h.held t e he with hok | hfetch
    · exact Or.inl hok
    · exact Or.inl (hvalid e hfetch)

theorem Call.referred {c : Call} {i : Nat} {l : UInt32} {e : Nat}
    (h : c.target = some (i, l, e)) : c.pending = some e ∨ c.owned = some e := by
  cases c with
  | got d k b =>
      cases h
      exact Or.inl rfl
  | locking d k b =>
      cases h
      exact Or.inl rfl
  | locked d k b =>
      cases h
      exact Or.inr rfl
  | reading d k b =>
      cases h
      exact Or.inr rfl
  | _ => cases h

theorem Targeted.recycle (h : Targeted s) (hlocked : Locked s) (hcounted : Counted s refs)
    (hidle : s.calls t = Call.idle) (hfree : (s.bufs b).refcnt = 0) {buf : Buf α}
    (hnew : Caches buf d k) (hholder : buf.holder = (s.bufs b).holder) :
    Targeted ((s.setBuf b buf).setCall t (Call.got d k b)) := by
  have hunheld : forall u, (s.bufs b).holder ≠ some u := by
    intro u hu
    have hpos := hcounted.refcnt_pos (Or.inl hu)
    lia
  have hset : Targeted (s.setBuf b buf) := by
    constructor
    · intro u i l e hu
      have hne : e ≠ b := by
        intro heq
        rw [heq] at hu
        rcases Call.referred hu with hpend | hown
        · have hpos := hcounted.refcnt_pos (Or.inr hpend)
          lia
        · exact hunheld u (hlocked.owned b u hown)
      rw [setBuf_of_ne hne]
      exact h.target u i l e hu
    · intro u e hu
      have hne : e ≠ b := by
        intro heq
        rw [heq, setBuf_self, hholder] at hu
        exact hunheld u hu
      rw [setBuf_of_ne hne] at hu ⊢
      exact h.held u e hu
  apply hset.setCall
  · intro i l e he
    cases he
    rw [setBuf_self]
    exact hnew
  · intro e he
    rcases hset.held t e he with hok | hfetch
    · exact Or.inl hok
    · rw [setBuf_calls, hidle] at hfetch
      cases hfetch

theorem caches_of_isCached (h : isCached s d k b = true) : Caches (s.bufs b) d k := by
  unfold isCached at h
  rw [Bool.and_eq_true, decide_eq_true_iff, decide_eq_true_iff] at h
  exact h

theorem Targeted.hit (h : Targeted s) (hidle : s.calls t = Call.idle)
    (hcaches : Caches (s.bufs b) d k) {buf : Buf α} (hcontent : buf.content = (s.bufs b).content)
    (hholder : buf.holder = (s.bufs b).holder) :
    Targeted ((s.setBuf b buf).setCall t (Call.got d k b)) := by
  have hnew := (caches_of_content hcontent).mpr hcaches
  unfold Buf.content at hcontent
  simp only [Prod.mk.injEq] at hcontent
  have hset : Targeted (s.setBuf b buf) := by
    apply h.setBuf hcontent.2.2.1 hcontent.2.2.2.1
    · intro hvalid
      rw [hcontent.1]
      exact hvalid
    · intro u hu
      rw [hholder] at hu
      exact Or.inl hu
  apply hset.setCall
  · intro i l e he
    cases he
    rw [setBuf_self]
    exact hnew
  · intro e he
    rcases hset.held t e he with hok | hfetch
    · exact Or.inl hok
    · rw [setBuf_calls, hidle] at hfetch
      cases hfetch

theorem Targeted.enter (h : Targeted s) (hcall : (s.calls t).target = some (d, k, b))
    (hfetch : (s.calls t).fetching = none) {buf : Buf α}
    (hcontent : buf.content = (s.bufs b).content) (hholder : buf.holder = some t) :
    Targeted ((s.setBuf b buf).setCall t (Call.locked d k b)) := by
  have hcaches : forall e i l, Caches ((s.setBuf b buf).bufs e) i l <-> Caches (s.bufs e) i l :=
    fun e i l => caches_of_content (setBuf_field Buf.content hcontent e)
  constructor
  · intro u i l e hu
    rw [setCall_bufs, hcaches]
    cases Decidable.em (u = t) with
    | inl heq =>
        rw [heq, setCall_self] at hu
        exact h.target t i l e (hcall.trans hu)
    | inr hne =>
        rw [setCall_of_ne hne] at hu
        exact h.target u i l e hu
  · intro u e hu
    rw [setCall_bufs] at hu ⊢
    cases Decidable.em (e = b) with
    | inl heb =>
        rw [heb, setBuf_self, hholder] at hu
        rw [← Option.some.inj hu, setCall_self, heb]
        exact Or.inr rfl
    | inr heb =>
        rw [setBuf_of_ne heb] at hu ⊢
        cases Decidable.em (u = t) with
        | inl heq =>
            rw [heq] at hu
            apply Or.inl
            apply h.valid_of_held hu
            rw [hfetch]
            exact (Option.some_ne_none e).symm
        | inr hne =>
            rw [setCall_of_ne hne]
            exact h.held u e hu

/-- A request leaves the buffers and the other calls alone. -/
theorem Targeted.request (h : Targeted s) {s1 : State α} (henqueued : Enqueued b s s1) {c : Call}
    (htarget : c.target = (s.calls t).target) (hfetch : c.fetching = (s.calls t).fetching) :
    Targeted ((blockOnChan t s1).setCall t c) := by
  have hsame : Targeted (blockOnChan t s1) :=
    h.congr henqueued.cache.bufs henqueued.cache.calls
  have hcalls : (blockOnChan t s1).calls = s.calls := henqueued.cache.calls
  apply hsame.setCall
  · intro i l e he
    rw [htarget, ← hcalls] at he
    exact hsame.target t i l e he
  · intro e he
    rw [hfetch, ← hcalls]
    exact hsame.held t e he

theorem Targeted.moves (h : Targeted s) (hlocked : Locked s) (hcounted : Counted s refs)
    (hmove : Moves s s') : Targeted s' := by
  cases hmove with
  | hit t d k b hidle hfind =>
      exact h.hit hidle (caches_of_isCached (walk_property hfind)) rfl rfl
  | recycle t d k b hidle hmiss hfind =>
      exact h.recycle hlocked hcounted hidle (unused_of_walk hfind).left ⟨rfl, rfl⟩ rfl
  | lock t d k b sem hcall hwait =>
      apply h.enter
      · rw [hcall]
        rfl
      · rw [hcall]
        rfl
      · rfl
      · rfl
  | join t d k b sem hcall hwait =>
      have hset : Targeted (s.setBuf b { s.bufs b with sem := sem }) :=
        h.setBuf rfl rfl id (fun u hu => Or.inl hu)
      apply hset.setCall
      · intro i l e he
        apply hset.target t i l e
        rw [setBuf_calls, hcall]
        exact he
      · intro e he
        have hheld := hset.held t e he
        rw [setBuf_calls, hcall] at hheld
        exact hheld
  | wake t d k b hcall hwoken =>
      apply h.enter
      · rw [hcall]
        rfl
      · rw [hcall]
        rfl
      · rfl
      · rfl
  | found t d k b hcall hvalid =>
      have hidle : Targeted (s.setCall t Call.idle) := by
        apply h.finish _ rfl
        intro e he
        rw [hcall] at he
        rw [← Option.some.inj he]
        exact hvalid
      exact hidle.congr rfl rfl
  | load t d k b s1 hcall hvalid henqueued =>
      apply h.request henqueued
      · rw [hcall]
        rfl
      · rw [hcall]
        rfl
  | loaded t d k b hcall hwoken hclean =>
      have hidle : Targeted (s.setCall t Call.idle) := by
        apply h.finish _ rfl
        intro e he
        rw [hcall] at he
        rw [← Option.some.inj he]
        exact (Bool.and_eq_true_iff.mp hclean).left
      exact hidle.congr rfl rfl
  | store t b data hidle hheld =>
      have hset : Targeted (s.setBuf b { s.bufs b with data := data, unmarked := true }) :=
        h.setBuf rfl rfl id (fun u hu => Or.inl hu)
      exact hset.congr rfl rfl
  | log t b hidle hheld => exact h.setBuf rfl rfl id (fun u hu => Or.inl hu)
  | mark t b hidle hheld =>
      have hmarked : Targeted (markDirty b s) := h.setBuf rfl rfl id (fun u hu => Or.inl hu)
      apply hmarked.finish _ rfl
      intro e he
      change (s.calls t).fetching = some e at he
      rw [hidle] at he
      cases he
  | flush t b s1 hcall hclean henqueued =>
      apply h.request henqueued
      · rw [hcall]
        rfl
      · rw [hcall]
        rfl
  | flushed t b hcall hwoken hclean =>
      have hidle : Targeted (s.setCall t Call.idle) := by
        apply h.finish _ rfl
        intro e he
        rw [hcall] at he
        cases he
      exact hidle.congr rfl rfl
  | unlock t b sem hidle hheld hmarked hsignal =>
      have hset : Targeted (s.setBuf b { s.bufs b with sem := sem, holder := none }) := by
        apply h.setBuf
        · rfl
        · rfl
        · exact id
        · intro u hu
          cases hu
      apply hset.finish _ rfl
      intro e he
      rw [setBuf_calls, hidle] at he
      cases he
  | drop t b hcall =>
      have hset : Targeted (s.setBuf b { s.bufs b with refcnt := (s.bufs b).refcnt - 1 }) :=
        h.setBuf rfl rfl id (fun u hu => Or.inl hu)
      have hidle : Targeted ((s.setBuf b
          { s.bufs b with refcnt := (s.bufs b).refcnt - 1 }).setCall t Call.idle) := by
        apply hset.finish _ rfl
        intro e he
        rw [setBuf_calls, hcall] at he
        cases he
      exact hidle.congr rfl rfl
  | interrupt b rest s' hdone =>
      have hset : Targeted (s.setBuf b (completed (s.bufs b) s.storage)) :=
        h.setBuf rfl rfl (fun _ => rfl) (fun u hu => Or.inl hu)
      exact hset.congr hdone.bufs hdone.calls

theorem Tended.congr (h : Tended s) (hbufs : s'.bufs = s.bufs) : Tended s' := by
  constructor
  · rw [hbufs]
    exact h.valid
  · rw [hbufs]
    exact h.held

theorem Tended.update (h : Tended s) {buf : Buf α}
    (hbufs : s'.bufs = Function.update s.bufs b buf)
    (hbuf : buf.unmarked = true -> buf.valid = true ∧ buf.holder ≠ none) : Tended s' := by
  have hself : s'.bufs b = buf := by
    rw [hbufs, Function.update_self]
  have hother : forall e, e ≠ b -> s'.bufs e = s.bufs e := by
    intro e hne
    rw [hbufs, Function.update_of_ne hne]
  constructor
  · intro e he
    cases Decidable.em (e = b) with
    | inl heq =>
        rw [heq, hself] at he ⊢
        exact (hbuf he).left
    | inr hne =>
        rw [hother e hne] at he ⊢
        exact h.valid e he
  · intro e he
    cases Decidable.em (e = b) with
    | inl heq =>
        rw [heq, hself] at he ⊢
        exact (hbuf he).right
    | inr hne =>
        rw [hother e hne] at he ⊢
        exact h.held e he

/-- A buffer without references has nothing to be marked. -/
theorem Tended.marked_of_free (h : Tended s) (hcounted : Counted s refs)
    (hfree : (s.bufs b).refcnt = 0) : (s.bufs b).unmarked = false := by
  cases hmarked : (s.bufs b).unmarked with
  | false => rfl
  | true =>
      rcases Option.ne_none_iff_exists'.mp (h.held b hmarked) with ⟨u, hu⟩
      have hpos := hcounted.refcnt_pos (Or.inl hu)
      lia

theorem Tended.moves (h : Tended s) (htargeted : Targeted s) (hcounted : Counted s refs)
    (hmove : Moves s s') : Tended s' := by
  have hkeep : forall b, (s.bufs b).unmarked = true ->
      (s.bufs b).valid = true ∧ (s.bufs b).holder ≠ none :=
    fun b hb => ⟨h.valid b hb, h.held b hb⟩
  cases hmove with
  | hit t d k b hidle hfind => exact h.update rfl (hkeep b)
  | recycle t d k b hidle hmiss hfind =>
      apply h.update rfl
      intro hunmarked
      have hmarked := h.marked_of_free hcounted (unused_of_walk hfind).left
      exact absurd (hmarked.symm.trans hunmarked) Bool.false_ne_true
  | lock t d k b sem hcall hwait =>
      exact h.update rfl (fun hunmarked => ⟨h.valid b hunmarked, Option.some_ne_none t⟩)
  | join t d k b sem hcall hwait => exact h.update rfl (hkeep b)
  | wake t d k b hcall hwoken =>
      exact h.update rfl (fun hunmarked => ⟨h.valid b hunmarked, Option.some_ne_none t⟩)
  | found t d k b hcall hvalid => exact h.congr rfl
  | load t d k b s1 hcall hvalid henqueued => exact h.congr henqueued.cache.bufs
  | loaded t d k b hcall hwoken hclean => exact h.congr rfl
  | store t b data hidle hheld =>
      apply h.update rfl
      intro _
      have hvalid : (s.bufs b).valid = true := by
        apply htargeted.valid_of_held hheld
        rw [hidle]
        exact (Option.some_ne_none b).symm
      have hholder : (s.bufs b).holder ≠ none := by
        rw [hheld]
        exact Option.some_ne_none t
      exact ⟨hvalid, hholder⟩
  | log t b hidle hheld =>
      apply h.update rfl
      intro hunmarked
      cases hunmarked
  | mark t b hidle hheld =>
      apply h.update rfl
      intro hunmarked
      cases hunmarked
  | flush t b s1 hcall hclean henqueued => exact h.congr henqueued.cache.bufs
  | flushed t b hcall hwoken hclean => exact h.congr rfl
  | unlock t b sem hidle hheld hmarked hsignal =>
      apply h.update rfl
      intro hunmarked
      exact absurd (hmarked.symm.trans hunmarked) Bool.false_ne_true
  | drop t b hcall => exact h.update rfl (hkeep b)
  | interrupt b rest s' hdone =>
      exact h.update hdone.bufs (fun hunmarked => ⟨rfl, h.held b hunmarked⟩)

end Targets

/-!
# The LRU list
-/

section Lru

variable {s s' : State α} {t b d : Nat} {k : UInt32}

/-- A search from the front finds every buffer of the list. -/
theorem Circular.walk_next (h : Circular s) (p : Nat -> Bool) :
    exists xs : List Nat, (forall b, b ∈ xs <-> b < nbuf) ∧
      walk s.lru.next p (nbuf + 1) (s.lru.next none) = xs.find? p := by
  rcases h.circle with ⟨xs, hcircle, hperm⟩
  refine ⟨xs, ?_, ?_⟩
  · intro e
    rw [hperm.mem_iff, List.mem_range]
  · apply hcircle.forwards.walk_eq
    rw [hperm.length_eq, List.length_range]
    exact Nat.lt_succ_self nbuf

theorem Circular.walk_prev (h : Circular s) (p : Nat -> Bool) :
    exists xs : List Nat, (forall b, b ∈ xs <-> b < nbuf) ∧
      walk s.lru.prev p (nbuf + 1) (s.lru.prev none) = xs.find? p := by
  rcases h.circle with ⟨xs, hcircle, hperm⟩
  refine ⟨xs.reverse, ?_, ?_⟩
  · intro e
    rw [List.mem_reverse, hperm.mem_iff, List.mem_range]
  · apply hcircle.backwards.walk_eq
    rw [List.length_reverse, hperm.length_eq, List.length_range]
    exact Nat.lt_succ_self nbuf

/-- What a search of the cache found or did not find. -/
theorem Circular.found (h : Circular s) {p : Nat -> Bool}
    (hfind : walk s.lru.next p (nbuf + 1) (s.lru.next none) = some b) : b < nbuf := by
  rcases h.walk_next p with ⟨xs, hxs, heq⟩
  rw [heq] at hfind
  exact (hxs b).mp (List.mem_of_find?_eq_some hfind)

theorem Circular.found_prev (h : Circular s) {p : Nat -> Bool}
    (hfind : walk s.lru.prev p (nbuf + 1) (s.lru.prev none) = some b) : b < nbuf := by
  rcases h.walk_prev p with ⟨xs, hxs, heq⟩
  rw [heq] at hfind
  exact (hxs b).mp (List.mem_of_find?_eq_some hfind)

theorem Circular.missed (h : Circular s) (hcoherent : Coherent s)
    (hmiss : walk s.lru.next (isCached s d k) (nbuf + 1) (s.lru.next none) = none) (b : Nat) :
    Not (Caches (s.bufs b) d k) := by
  intro hcaches
  have hin : b < nbuf := by
    apply Nat.lt_of_not_le
    intro hout
    have hnone := hcoherent.outside b hout
    rw [hcaches.left] at hnone
    cases hnone
  rcases h.walk_next (isCached s d k) with ⟨xs, hxs, heq⟩
  rw [heq] at hmiss
  have hno := List.find?_eq_none.mp hmiss b ((hxs b).mpr hin)
  apply hno
  unfold isCached
  rw [hcaches.left, hcaches.right]
  simp

/-- `buf_release` moves a buffer to the front of the list. -/
theorem circle_moveToFront {l : Links Nat} {xs : List Nat} (h : l.Circle xs) (hb : b ∈ xs) :
    exists ys, ((l.unlink b).insertHead b).Circle ys ∧ ys.Perm xs := by
  rcases List.append_of_mem hb with ⟨before, behind, heq⟩
  rw [heq] at h
  have hperm : (before ++ b :: behind).Perm (b :: (before ++ behind)) := List.perm_middle
  have hout : Not (b ∈ before ++ behind) :=
    (List.nodup_cons.mp (hperm.nodup_iff.mp h.nodup)).left
  refine ⟨b :: (before ++ behind), h.unlink.insertHead hout, ?_⟩
  rw [heq]
  exact hperm.symm

theorem Circular.congr (h : Circular s) (hlru : s'.lru = s.lru)
    (hrefs : forall b, nbuf ≤ b -> (s'.bufs b).refcnt = (s.bufs b).refcnt) : Circular s' := by
  constructor
  · rw [hlru]
    exact h.circle
  · intro e he
    rw [hrefs e he]
    exact h.bounded e he

theorem Circular.drop (h : Circular s) {refs : Nat -> List Nat} (hcounted : Counted s refs)
    (hcall : s.calls t = Call.releasing b) : Circular (dropRef t b s) := by
  have hpos : 0 < (s.bufs b).refcnt := by
    apply hcounted.refcnt_pos (t := t)
    rw [hcall]
    exact Or.inr rfl
  have hin : b < nbuf := by
    apply Nat.lt_of_not_le
    intro hout
    have hzero := h.bounded b hout
    lia
  rcases h.circle with ⟨xs, hcircle, hperm⟩
  constructor
  · show exists ys, (if (s.bufs b).refcnt - 1 = 0 then (s.lru.unlink b).insertHead b
      else s.lru).Circle ys ∧ _
    split
    · have hmem : b ∈ xs := hperm.mem_iff.mpr (List.mem_range.mpr hin)
      rcases circle_moveToFront hcircle hmem with ⟨ys, hys, hsame⟩
      exact ⟨ys, hys, hsame.trans hperm⟩
    · exact ⟨xs, hcircle, hperm⟩
  · intro e he
    have hne : e ≠ b := by lia
    show ((s.setBuf b _).bufs e).refcnt = 0
    rw [setBuf_of_ne hne]
    exact h.bounded e he

end Lru

/-!
# Steps
-/

section Steps

variable {s s' : State α} {t b d : Nat} {k : UInt32} {refs : Nat -> List Nat}

theorem Circular.setBuf (h : Circular s) {buf : Buf α}
    (href : buf.refcnt = (s.bufs b).refcnt ∨ b < nbuf) (c : Call) :
    Circular ((s.setBuf b buf).setCall t c) := by
  apply h.congr
  · rfl
  · intro e he
    rcases href with hsame | hin
    · exact setBuf_field Buf.refcnt hsame e
    · have hne : e ≠ b := by lia
      rw [setCall_bufs, setBuf_of_ne hne]

theorem Circular.request (h : Circular s) {s1 : State α} (henqueued : Enqueued b s s1) (c : Call) :
    Circular ((blockOnChan t s1).setCall t c) := by
  apply h.congr
  · exact henqueued.cache.lru
  · intro e _
    show (s1.bufs e).refcnt = _
    rw [henqueued.cache.bufs]

theorem Circular.store (h : Circular s) (data : α) : Circular (storeData b data s) := by
  apply h.congr
  · rfl
  · intro e _
    apply setBuf_field Buf.refcnt
    rfl

theorem Circular.markDirty (h : Circular s) : Circular (Disk.markDirty b s) := by
  apply h.congr
  · rfl
  · intro e _
    apply setBuf_field Buf.refcnt
    rfl

theorem Circular.moves (h : Circular s) (hcounted : Counted s refs) (hmove : Moves s s') :
    Circular s' := by
  cases hmove with
  | hit t d k b hidle hfind =>
      apply h.setBuf
      exact Or.inr (h.found hfind)
  | recycle t d k b hidle hmiss hfind =>
      apply h.setBuf
      exact Or.inr (h.found_prev hfind)
  | lock t d k b sem hcall hwait =>
      apply h.setBuf
      exact Or.inl rfl
  | join t d k b sem hcall hwait =>
      apply h.setBuf
      exact Or.inl rfl
  | wake t d k b hcall hwoken =>
      apply h.setBuf
      exact Or.inl rfl
  | found t d k b hcall hvalid => exact ⟨h.circle, h.bounded⟩
  | load t d k b s1 hcall hvalid henqueued => exact h.request henqueued _
  | loaded t d k b hcall hwoken hclean => exact ⟨h.circle, h.bounded⟩
  | store t b data hidle hheld => exact h.store data
  | log t b hidle hheld => exact h.markDirty
  | mark t b hidle hheld =>
      have hmarked : Circular (Disk.markDirty b s) := h.markDirty
      exact ⟨hmarked.circle, hmarked.bounded⟩
  | flush t b s1 hcall hclean henqueued => exact h.request henqueued _
  | flushed t b hcall hwoken hclean => exact ⟨h.circle, h.bounded⟩
  | unlock t b sem hidle hheld hmarked hsignal =>
      apply h.setBuf
      exact Or.inl rfl
  | drop t b hcall => exact h.drop hcounted hcall
  | interrupt b rest s' hdone =>
      apply h.congr hdone.lru
      intro e _
      rw [hdone.bufs, complete_bufs]
      apply setBuf_field Buf.refcnt
      rfl

theorem queued_caches (hcoherent : Coherent s) (htargeted : Targeted s) (hlocked : Locked s)
    (hrequests : Requests s) (hb : b ∈ s.queue) : exists d k, Caches (s.bufs b) d k := by
  rcases hrequests.owner_of_mem hb with ⟨t, hio⟩
  cases hcall : s.calls t with
  | reading d k e =>
      rw [hcall] at hio
      refine ⟨d, k, ?_⟩
      apply htargeted.target t
      rw [hcall, ← Option.some.inj hio]
      rfl
  | flushing e =>
      have hheld := hlocked.owned b t (Call.owned_of_io hio)
      have hvalid : (s.bufs b).valid = true := by
        apply htargeted.valid_of_held hheld
        rw [hcall]
        exact (Option.some_ne_none b).symm
      rcases Option.isSome_iff_exists.mp (hcoherent.assigned b hvalid) with ⟨d, hd⟩
      exact ⟨d, (s.bufs b).blockNo, hd, rfl⟩
  | _ =>
      rw [hcall] at hio
      cases hio

/-- A new request starts at once when the queue is empty. -/
theorem Coherent.request (h : Coherent s) (hrequests : Requests s) {s1 : State α}
    (henqueued : Enqueued b s s1) (c : Call) : Coherent ((blockOnChan t s1).setCall t c) := by
  have hbufs : forall e, (((blockOnChan t s1).setCall t c).bufs e).content =
      (s.bufs e).content := by
    intro e
    show (s1.bufs e).content = _
    rw [henqueued.cache.bufs]
  have hstorage : ((blockOnChan t s1).setCall t c).storage = s1.storage := rfl
  have hservice : ((blockOnChan t s1).setCall t c).service = s1.service := rfl
  cases hqueue : s.queue with
  | nil =>
      apply (h.start b).congr hbufs
      · rw [hstorage, henqueued.storage, if_pos hqueue]
      · exact henqueued.cache.stored
      · rw [hservice, henqueued.service, hqueue]
        rfl
  | cons e rest =>
      have hne : s.queue ≠ [] := by
        rw [hqueue]
        exact List.cons_ne_nil e rest
      apply h.congr hbufs
      · rw [hstorage, henqueued.storage, if_neg hne]
      · exact henqueued.cache.stored
      · rw [hservice, henqueued.service, hrequests.service, hqueue]
        rfl

theorem Coherent.interrupt (h : Coherent s) (htargeted : Targeted s) (hlocked : Locked s)
    (hrequests : Requests s) {rest : List Nat} (hdone : Completed b rest s s') : Coherent s' := by
  have hmem : b ∈ s.queue := by
    rw [hdone.busy]
    exact List.mem_cons_self
  have hserve : s.service = some b := by
    rw [hrequests.service, hdone.busy]
    rfl
  rcases queued_caches h htargeted hlocked hrequests hmem with ⟨d, k, hcaches⟩
  have hfinish := h.finish hserve (hrequests.pending b hmem) hcaches
  have hbufs : s'.bufs = (s.setBuf b (completed (s.bufs b) s.storage)).bufs := hdone.bufs
  have hstorage := hdone.storage
  have hservice := hdone.service
  cases rest with
  | nil =>
      apply hfinish.congr
      · intro e
        rw [hbufs]
      · exact hstorage
      · exact hdone.stored
      · exact hservice
  | cons c others =>
      apply (hfinish.start c).congr
      · intro e
        rw [hbufs]
      · exact hstorage
      · exact hdone.stored
      · exact hservice

/-- A held buffer that no call works on is valid, assigned and not with the device. -/
theorem idle_held (hcoherent : Coherent s) (htargeted : Targeted s) (hlocked : Locked s)
    (hrequests : Requests s) (hidle : s.calls t = Call.idle)
    (hheld : (s.bufs b).holder = some t) :
    (s.bufs b).valid = true ∧ (exists d, Caches (s.bufs b) d (s.bufs b).blockNo) ∧
      s.service ≠ some b := by
  have hvalid : (s.bufs b).valid = true := by
    apply htargeted.valid_of_held hheld
    rw [hidle]
    exact (Option.some_ne_none b).symm
  rcases Option.isSome_iff_exists.mp (hcoherent.assigned b hvalid) with ⟨d, hd⟩
  refine ⟨hvalid, ⟨d, hd, rfl⟩, ?_⟩
  intro hserve
  rw [hrequests.service] at hserve
  rcases hrequests.owner_of_mem (List.mem_of_head? hserve) with ⟨u, hu⟩
  apply hlocked.no_request hheld _ u hu
  rw [hidle]
  rfl

theorem Coherent.setBuf (h : Coherent s) {buf : Buf α}
    (hcontent : buf.content = (s.bufs b).content) : Coherent (s.setBuf b buf) := by
  apply h.congr
  · intro e
    exact setBuf_field Buf.content hcontent e
  · rfl
  · rfl
  · rfl

theorem Coherent.setCall (h : Coherent s) (c : Call) : Coherent (s.setCall t c) := by
  apply h.congr
  · intro e
    rfl
  · rfl
  · rfl
  · rfl

theorem Coherent.moves (h : Coherent s) (htargeted : Targeted s) (hcircular : Circular s)
    (htended : Tended s) (hconsistent : Consistent s) (hmove : Moves s s') : Coherent s' := by
  have hlocked := hconsistent.locked
  have hrequests := hconsistent.requests
  cases hmove with
  | hit t d k b hidle hfind =>
      apply Coherent.setCall
      apply h.setBuf
      rfl
  | recycle t d k b hidle hmiss hfind =>
      rcases unused_of_walk hfind with ⟨hfree, hdirty⟩
      rcases hconsistent.counted with ⟨refs, hcounted⟩
      have hnew : Coherent (s.setBuf b { s.bufs b with
          refcnt := 1
          valid := false
          dirty := false
          disk := some d
          blockNo := k }) :=
        h.recycle hdirty (htended.marked_of_free hcounted hfree) (hcircular.missed h hmiss)
          (hcircular.found_prev hfind) ⟨rfl, rfl⟩ rfl rfl
      exact hnew.setCall _
  | lock t d k b sem hcall hwait =>
      apply Coherent.setCall
      apply h.setBuf
      rfl
  | join t d k b sem hcall hwait =>
      apply Coherent.setCall
      apply h.setBuf
      rfl
  | wake t d k b hcall hwoken =>
      apply Coherent.setCall
      apply h.setBuf
      rfl
  | found t d k b hcall hvalid =>
      have hidle : Coherent (s.setCall t Call.idle) := h.setCall _
      exact hidle.congr (fun _ => rfl) rfl rfl rfl
  | load t d k b s1 hcall hvalid henqueued => exact h.request hrequests henqueued _
  | loaded t d k b hcall hwoken hclean =>
      have hidle : Coherent (s.setCall t Call.idle) := h.setCall _
      exact hidle.congr (fun _ => rfl) rfl rfl rfl
  | store t b data hidle hheld =>
      rcases idle_held h htargeted hlocked hrequests hidle hheld with ⟨hvalid, ⟨d, hd⟩, hserve⟩
      exact h.store hd hvalid hserve data
  | log t b hidle hheld =>
      rcases idle_held h htargeted hlocked hrequests hidle hheld with ⟨hvalid, -, hserve⟩
      exact h.markDirty hvalid hserve
  | mark t b hidle hheld =>
      rcases idle_held h htargeted hlocked hrequests hidle hheld with ⟨hvalid, -, hserve⟩
      exact (h.markDirty hvalid hserve).setCall _
  | flush t b s1 hcall hclean henqueued => exact h.request hrequests henqueued _
  | flushed t b hcall hwoken hclean =>
      have hidle : Coherent (s.setCall t Call.idle) := h.setCall _
      exact hidle.congr (fun _ => rfl) rfl rfl rfl
  | unlock t b sem hidle hheld hmarked hsignal =>
      apply Coherent.setCall
      apply h.setBuf
      rfl
  | drop t b hcall =>
      have hset : Coherent (s.setBuf b { s.bufs b with refcnt := (s.bufs b).refcnt - 1 }) := by
        apply h.setBuf
        rfl
      exact hset.congr (fun _ => rfl) rfl rfl rfl
  | interrupt b rest s' hdone => exact h.interrupt htargeted hlocked hrequests hdone

end Steps

/-!
# Reads and assignments
-/

section Reads

variable {s s' : State α} {t b d : Nat} {k : UInt32}

/-- Every `buf_read` returned the data stored last. -/
def ReadsLatest (s : State α) : Prop := forall r, r ∈ s.reads -> r.data = r.stored

theorem ReadsLatest.congr (h : ReadsLatest s) (hreads : s'.reads = s.reads) : ReadsLatest s' := by
  unfold ReadsLatest
  rw [hreads]
  exact h

/-- A valid buffer is returned for the block that was asked for. -/
theorem ReadsLatest.read (h : ReadsLatest s) (hcoherent : Coherent s)
    (hcaches : Caches (s.bufs b) d k) (hvalid : (s.bufs b).valid = true)
    (hreads : s'.reads = s.reads ++ [⟨t, d, k, (s.bufs b).data, s.stored d k⟩]) :
    ReadsLatest s' := by
  intro r hr
  rw [hreads] at hr
  rcases List.mem_append.mp hr with hold | hlast
  · exact h r hold
  · rw [List.mem_singleton.mp hlast]
    exact hcoherent.latest b d k hcaches hvalid

theorem ReadsLatest.moves (h : ReadsLatest s) (hcoherent : Coherent s) (htargeted : Targeted s)
    (hmove : Moves s s') : ReadsLatest s' := by
  cases hmove with
  | found t d k b hcall hvalid =>
      apply h.read hcoherent _ hvalid rfl
      apply htargeted.target t
      rw [hcall]
      rfl
  | load t d k b s1 hcall hvalid henqueued => exact h.congr henqueued.cache.reads
  | loaded t d k b hcall hwoken hclean =>
      apply h.read hcoherent _ (Bool.and_eq_true_iff.mp hclean).left rfl
      apply htargeted.target t
      rw [hcall]
      rfl
  | flush t b s1 hcall hclean henqueued => exact h.congr henqueued.cache.reads
  | interrupt b rest s' hdone => exact h.congr hdone.reads
  | _ => exact h

/-- A step leaves the block of a buffer that is referred to or dirty. -/
theorem Moves.keeps_block (hmove : Moves s s')
    (hpinned : 0 < (s.bufs b).refcnt ∨ (s.bufs b).dirty = true) :
    (s'.bufs b).disk = (s.bufs b).disk ∧ (s'.bufs b).blockNo = (s.bufs b).blockNo := by
  have hset : forall (e : Nat) (buf : Buf α), buf.disk = (s.bufs e).disk ->
      buf.blockNo = (s.bufs e).blockNo ->
      ((s.setBuf e buf).bufs b).disk = (s.bufs b).disk ∧
        ((s.setBuf e buf).bufs b).blockNo = (s.bufs b).blockNo := by
    intro e buf hdisk hblock
    exact ⟨setBuf_field Buf.disk hdisk b, setBuf_field Buf.blockNo hblock b⟩
  cases hmove with
  | hit t d k c hidle hfind => exact hset c { s.bufs c with refcnt := _ } rfl rfl
  | recycle t d k c hidle hmiss hfind =>
      rcases unused_of_walk hfind with ⟨hfree, hclean⟩
      have hne : b ≠ c := by
        intro heq
        rw [heq] at hpinned
        rcases hpinned with hpos | hdirty
        · lia
        · rw [hclean] at hdirty
          cases hdirty
      rw [setCall_bufs, setBuf_of_ne hne]
      exact ⟨rfl, rfl⟩
  | lock t d k c sem hcall hwait => exact hset c { s.bufs c with sem := _, holder := _ } rfl rfl
  | join t d k c sem hcall hwait => exact hset c { s.bufs c with sem := _ } rfl rfl
  | wake t d k c hcall hwoken => exact hset c { s.bufs c with sem := _, holder := _ } rfl rfl
  | load t d k c s1 hcall hvalid henqueued =>
      show (s1.bufs b).disk = _ ∧ (s1.bufs b).blockNo = _
      rw [henqueued.cache.bufs]
      exact ⟨rfl, rfl⟩
  | store t c data hidle hheld => exact hset c { s.bufs c with data := _, unmarked := _ } rfl rfl
  | log t c hidle hheld => exact hset c { s.bufs c with dirty := _, unmarked := _ } rfl rfl
  | mark t c hidle hheld => exact hset c { s.bufs c with dirty := _, unmarked := _ } rfl rfl
  | flush t c s1 hcall hclean henqueued =>
      show (s1.bufs b).disk = _ ∧ (s1.bufs b).blockNo = _
      rw [henqueued.cache.bufs]
      exact ⟨rfl, rfl⟩
  | unlock t c sem hidle hheld hmarked hsignal =>
      exact hset c { s.bufs c with sem := _, holder := _ } rfl rfl
  | drop t c hcall => exact hset c { s.bufs c with refcnt := _ } rfl rfl
  | interrupt c rest s' hdone =>
      rw [hdone.bufs]
      exact hset c (completed (s.bufs c) s.storage) rfl rfl
  | _ => exact ⟨rfl, rfl⟩

end Reads

/-!
# Runs
-/

section Runs

variable {s s' : State α}

structure Sound (s : State α) : Prop where
  consistent : Consistent s
  coherent : Coherent s
  targeted : Targeted s
  tended : Tended s
  circular : Circular s
  reads : ReadsLatest s

theorem insertHead_circle {l : Links Nat} (h : l.Circle []) (n : Nat) :
    ((List.range n).foldl Links.insertHead l).Circle (List.range n).reverse := by
  induction n with
  | zero => exact h
  | succ n ih =>
      rw [List.range_succ, List.foldl_append, List.reverse_append]
      apply ih.insertHead
      rw [List.mem_reverse, List.mem_range]
      exact Nat.lt_irrefl n

theorem bioInit_sound (storage : Nat -> UInt32 -> α) (data : Nat -> α) :
    Sound (bioInit storage data) := by
  constructor
  · exact bioInit_consistent storage data
  · constructor
    · intro b c d k hb
      cases hb.left
    · intro d k _
      rfl
    · intro b d k hb
      cases hb.left
    · intro b d k hb
      cases hb.left
    · intro b d k hb
      cases hb.left
    · intro b d k hserve
      cases hserve
    · intro b hdirty
      cases hdirty
    · intro b hvalid
      cases hvalid
    · intro b _
      rfl
  · constructor
    · intro t d k b ht
      cases ht
    · intro t b ht
      cases ht
  · constructor
    · intro b hb
      cases hb
    · intro b hb
      cases hb
  · constructor
    · refine ⟨(List.range nbuf).reverse, insertHead_circle ?_ nbuf, List.reverse_perm _⟩
      exact ⟨List.nodup_nil, rfl, rfl⟩
    · intro b _
      rfl
  · intro r hr
    cases hr

theorem Sound.moves (h : Sound s) (hmove : Moves s s') : Sound s' := by
  rcases h.consistent.counted with ⟨refs, hcounted⟩
  constructor
  · exact h.consistent.moves hmove
  · exact h.coherent.moves h.targeted h.circular h.tended h.consistent hmove
  · exact h.targeted.moves h.consistent.locked hcounted hmove
  · exact h.tended.moves h.targeted hcounted hmove
  · exact h.circular.moves hcounted hmove
  · exact h.reads.moves h.coherent h.targeted hmove

theorem Sound.panic (h : Sound s) : Sound { s with panicked := true } := by
  constructor
  · exact h.consistent.panic
  · exact h.coherent.congr (fun _ => rfl) rfl rfl rfl
  · exact h.targeted.congr rfl rfl
  · exact h.tended.congr rfl
  · exact h.circular.congr rfl (fun _ _ => rfl)
  · exact h.reads

theorem reaches_sound {storage : Nat -> UInt32 -> α} {data : Nat -> α}
    (h : Reaches step Legal (bioInit storage data) s) : Sound s := by
  apply Reaches.invariant (bioInit_sound storage data) _ h
  intro r r' a hr hlegal hstep
  rcases step_moves hr.consistent.requests hlegal hstep with hmove | hpanic
  · exact hr.moves hmove
  · rw [hpanic]
    exact hr.panic

end Runs

/--
A block has at most one buffer, the LRU list goes through all buffers, a step does
not reassign a buffer that is referred to or dirty, the disk has the data of valid
buffers that are neither dirty nor held by a task that has data to be marked, and
reads returned the data stored last.
-/
structure CacheCoherent (s : State α) : Prop where
  unique : forall b c d k, Caches (s.bufs b) d k -> Caches (s.bufs c) d k -> b = c
  circle : exists xs, s.lru.Circle xs ∧ xs.Perm (List.range nbuf)
  pinned : forall a s', Legal s a -> step s a = some s' ->
    forall b, 0 < (s.bufs b).refcnt ∨ (s.bufs b).dirty = true ->
      (s'.bufs b).disk = (s.bufs b).disk ∧ (s'.bufs b).blockNo = (s.bufs b).blockNo
  clean : forall b d k, Caches (s.bufs b) d k -> (s.bufs b).valid = true ->
    (s.bufs b).dirty = false -> (s.bufs b).unmarked = false -> (s.bufs b).data = s.storage d k
  unmarked : forall b, (s.bufs b).unmarked = true -> (s.bufs b).holder ≠ none
  reads : forall r, r ∈ s.reads -> r.data = r.stored

theorem buffer_cache_coherent {storage : Nat -> UInt32 -> α} {data : Nat -> α} {s : State α}
    (h : Reaches step Legal (bioInit storage data) s) : CacheCoherent s := by
  have hsound := reaches_sound h
  constructor
  · exact hsound.coherent.unique
  · exact hsound.circular.circle
  · intro a s' hlegal hstep b hpinned
    rcases step_moves hsound.consistent.requests hlegal hstep with hmove | hpanic
    · exact hmove.keeps_block hpinned
    · rw [hpanic]
      exact ⟨rfl, rfl⟩
  · intro b d k hcaches hvalid hdirty hmarked
    symm
    apply hsound.coherent.clean b d k hcaches _ hmarked
    unfold Buf.isClean
    rw [hvalid, hdirty]
    rfl
  · exact hsound.tended.held
  · exact hsound.reads

/-- A task stores data and marks them with `log_write`, and another task reads them. -/
def storeThenRead : List (Action Nat) :=
  [Action.read 1 0 5, Action.run 1, Action.run 1, Action.interrupt, Action.run 1,
    Action.store 1 0 77, Action.logWrite 1 0, Action.read 2 0 5, Action.run 2, Action.release 1 0,
    Action.run 2, Action.run 1, Action.run 2]

theorem buffer_cache_coherent_storeThenRead :
    exists s, runFrom step (bioInit (fun _ k => k.toNat) (fun _ => 0)) storeThenRead = some s ∧
      s.reads.map Read.data = [5, 77] ∧ CacheCoherent s := by
  have hcheck : runCheck step legalTest (bioInit (fun _ k => k.toNat) (fun _ => 0))
      storeThenRead = true := by
    decide +kernel
  have hrun : (runFrom step (bioInit (fun _ k => k.toNat) (fun _ => 0)) storeThenRead).map
      (fun s => s.reads.map Read.data) = some [5, 77] := by
    decide +kernel
  rcases Option.map_eq_some_iff.mp hrun with ⟨s, hs, hreads⟩
  have hreach := runFrom_reaches (runMeets_of_runCheck legal_of_legalTest hcheck) hs
  exact ⟨s, hs, hreads, buffer_cache_coherent hreach⟩

/--
As `itruncate` does with an indirect block, a task stores data and waits for another
block before it marks them.
-/
def storeThenWait : List (Action Nat) :=
  [Action.read 1 0 5, Action.run 1, Action.run 1, Action.interrupt, Action.run 1,
    Action.store 1 0 77, Action.read 1 0 6, Action.run 1, Action.run 1]

/-- Meanwhile the buffer is valid and not dirty, and the disk does not have its data. -/
theorem unmarked_not_on_disk :
    Not (forall s : State Nat, Reaches step Legal (bioInit (fun _ k => k.toNat) (fun _ => 0)) s ->
      forall b d k, Caches (s.bufs b) d k -> (s.bufs b).valid = true ->
        (s.bufs b).dirty = false -> (s.bufs b).data = s.storage d k) := by
  intro hall
  have hcheck : runCheck step legalTest (bioInit (fun _ k => k.toNat) (fun _ => 0))
      storeThenWait = true := by
    decide +kernel
  have hrun : (runFrom step (bioInit (fun _ k => k.toNat) (fun _ => 0)) storeThenWait).map
      (fun s => (((s.bufs 0).disk, (s.bufs 0).blockNo, (s.bufs 0).valid, (s.bufs 0).dirty),
        (s.bufs 0).data, s.storage 0 5)) = some ((some 0, 5, true, false), 77, 5) := by
    decide +kernel
  rcases Option.map_eq_some_iff.mp hrun with ⟨s, hs, hfields⟩
  rcases Prod.mk.inj hfields with ⟨hflags, hdata⟩
  simp only [Prod.mk.injEq] at hflags hdata
  have hreach := runFrom_reaches (runMeets_of_runCheck legal_of_legalTest hcheck) hs
  have hsame := hall s hreach 0 0 5 ⟨hflags.left, hflags.right.left⟩ hflags.right.right.left
    hflags.right.right.right
  rw [hdata.left, hdata.right] at hsame
  exact absurd hsame (by decide)

end Disk
end Kernel
end NicoOS
