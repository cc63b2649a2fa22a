import NicoOS.Fs.Inode.Model
import NicoOS.Lib.Ownership
import Mathlib.Logic.Function.Basic

/-!
# Block ownership

Every block that the bitmap marks belongs to one address slot of one inode.  The
inodes are given by a table, which is the one on the disk between two calls; while
a call works on an inode, its entry is the copy in the cache.
-/

namespace NicoOS
namespace Fs
namespace Inode

open Lib
open Log (Block LogHeader)

/-- A place for a block address: in the inode or in its indirect block. -/
inductive Slot where
  | addr (i : Nat)
  | entry (i : Nat)
  deriving DecidableEq, Repr

def slotAddr (v : Volume) (d : Dinode) : Slot -> UInt32
  | Slot.addr i => d.addr i
  | Slot.entry i => if d.indirect = 0 then 0 else entryAt v d.indirect i

abbrev Table := UInt32 -> Dinode

/-- An inode that is in use according to a table. -/
def Live (v : Volume) (T : Table) (inum : UInt32) : Prop :=
  inum < v.sb.ninodes ∧ (T inum).type ≠ InodeType.none.code

instance (v : Volume) (T : Table) (inum : UInt32) : Decidable (Live v T inum) :=
  inferInstanceAs (Decidable (_ ∧ _))

/-- The address in a slot of an inode, where only inodes in use hold any. -/
def refAddr (v : Volume) (T : Table) (p : UInt32 × Slot) : UInt32 :=
  if Live v T p.1 then slotAddr v (T p.1) p.2 else 0

def InUse (v : Volume) (a : UInt32) : Prop :=
  exists k, k < v.sb.bits ∧ v.used k = true ∧ a = v.sb.dataBlock k

def Owned (v : Volume) (T : Table) : Prop := Exact 0 (refAddr v T) (InUse v)

/-!
# Addresses
-/

theorem addr_setAddr_self (d : Dinode) {i : Nat} (a : UInt32) (h : i < ndirectDataBlocks + 1) :
    (d.setAddr i a).addr i = a := by
  unfold Dinode.addr Dinode.setAddr
  rw [dif_pos h]
  exact if_pos rfl

theorem addr_setAddr_of_ne (d : Dinode) {i j : Nat} (a : UInt32) (h : j ≠ i) :
    (d.setAddr i a).addr j = d.addr j := by
  unfold Dinode.addr Dinode.setAddr
  split
  · exact if_neg h
  · rfl

theorem addr_of_ge (d : Dinode) {i : Nat} (h : ndirectDataBlocks + 1 ≤ i) : d.addr i = 0 :=
  dif_neg (by lia)

theorem word_of_ge (b : Block) {i : Nat} (h : nindirectDataBlocks ≤ i) : b.word (4 * i) = 0 := by
  have hsize : nindirectDataBlocks = 128 := rfl
  have hmem : forall j, 512 ≤ j -> b.mem j = 0 := by
    intro j hj
    exact dif_neg (by
      unfold blockSize
      lia)
  unfold Bytes.word Memory.word
  rw [hmem _ (by lia), hmem _ (by lia), hmem _ (by lia), hmem _ (by lia)]
  rfl

theorem refAddr_of_live {v : Volume} {T : Table} {inum : UInt32} (h : Live v T inum) (s : Slot) :
    refAddr v T (inum, s) = slotAddr v (T inum) s :=
  if_pos h

theorem refAddr_of_not_live {v : Volume} {T : Table} {inum : UInt32} (h : Not (Live v T inum))
    (s : Slot) : refAddr v T (inum, s) = 0 :=
  if_neg h

/-- The slots of an inode depend on its addresses and on its indirect block. -/
theorem slotAddr_congr {v w : Volume} (d : Dinode)
    (h : d.indirect ≠ 0 -> w.blk d.indirect = v.blk d.indirect) (s : Slot) :
    slotAddr w d s = slotAddr v d s := by
  cases s with
  | addr i => rfl
  | entry i =>
      cases Classical.em (d.indirect = 0) with
      | inl hzero => rw [slotAddr, slotAddr, if_pos hzero, if_pos hzero]
      | inr hne =>
          rw [slotAddr, slotAddr, if_neg hne, if_neg hne, entryAt, entryAt, h hne]

theorem indirect_setAddr_self (d : Dinode) (a : UInt32) :
    (d.setAddr ndirectDataBlocks a).indirect = a :=
  addr_setAddr_self d a (by decide)

theorem indirect_setAddr_of_ne (d : Dinode) {i : Nat} (a : UInt32) (h : i ≠ ndirectDataBlocks) :
    (d.setAddr i a).indirect = d.indirect :=
  addr_setAddr_of_ne d a h.symm

/-!
# Blocks in use
-/

section InUse

variable {v : Volume}

theorem InUse.ne_bmapBlock (h : v.sb.LaidOut) {a : UInt32} (ha : InUse v a) {k : Nat}
    (hk : k < v.sb.bits) : a ≠ v.sb.bmapBlock k := by
  rcases ha with ⟨j, hj, _, heq⟩
  rw [heq]
  exact (h.numbered.bmapBlock_ne_dataBlock hk hj).symm

theorem InUse.mem_data (h : v.sb.LaidOut) {a : UInt32} (ha : InUse v a) :
    v.sb.dataRegion.Mem a.toNat := by
  rcases ha with ⟨k, hk, _, heq⟩
  rw [heq]
  exact h.numbered.dataBlock_mem hk

theorem not_inUse_dataBlock (h : v.sb.LaidOut) {k : Nat} (hk : k < v.sb.bits)
    (hfree : v.used k = false) : Not (InUse v (v.sb.dataBlock k)) := by
  intro ha
  rcases ha with ⟨j, hj, hused, heq⟩
  rw [h.numbered.dataBlock_inj hk hj heq, hused] at hfree
  cases hfree

theorem inUse_take (h : v.sb.LaidOut) {k : Nat} (hk : k < v.sb.bits) (a : UInt32) :
    InUse (v.take k) a <-> InUse v a ∨ a = v.sb.dataBlock k := by
  constructor
  · intro ha
    rcases ha with ⟨j, hj, hused, heq⟩
    rw [Volume.used_take h.numbered hj hk] at hused
    cases Bool.or_eq_true_iff.mp hused with
    | inl hold => exact Or.inl ⟨j, hj, hold, heq⟩
    | inr hkj =>
        rw [of_decide_eq_true hkj]
        exact Or.inr heq
  · intro ha
    cases ha with
    | inl hold =>
        rcases hold with ⟨j, hj, hused, heq⟩
        refine ⟨j, hj, ?_, heq⟩
        rw [Volume.used_take h.numbered hj hk, hused]
        rfl
    | inr heq =>
        refine ⟨k, hk, ?_, heq⟩
        rw [Volume.used_take h.numbered hk hk, decide_eq_true rfl, Bool.or_true]

theorem inUse_release (h : v.sb.LaidOut) {k : Nat} (hk : k < v.sb.bits) (a : UInt32) :
    InUse (v.release k) a <-> InUse v a ∧ a ≠ v.sb.dataBlock k := by
  constructor
  · intro ha
    rcases ha with ⟨j, hj, hused, heq⟩
    rw [Volume.used_release h.numbered hj hk] at hused
    rcases Bool.and_eq_true_iff.mp hused with ⟨hold, hne⟩
    refine ⟨⟨j, hj, hold, heq⟩, ?_⟩
    intro hak
    rw [heq] at hak
    rw [h.numbered.dataBlock_inj hj hk hak, decide_eq_true rfl] at hne
    cases hne
  · intro ha
    rcases ha with ⟨⟨j, hj, hused, heq⟩, hne⟩
    refine ⟨j, hj, ?_, heq⟩
    have hkj : k ≠ j := by
      intro hkj
      rw [hkj] at hne
      exact hne heq
    rw [Volume.used_release h.numbered hj hk, hused, decide_eq_false hkj]
    rfl

/-- A store outside the bitmap leaves the blocks in use alone. -/
theorem inUse_congr (h : v.sb.LaidOut) {w : Volume} (hsb : w.sb = v.sb)
    (hblk : forall b, v.sb.bmapRegion.Mem b.toNat -> w.blk b = v.blk b) (a : UInt32) :
    InUse w a <-> InUse v a := by
  unfold InUse
  rw [hsb]
  constructor
  · intro ha
    rcases ha with ⟨k, hk, hused, heq⟩
    rw [Volume.used_congr h.numbered hsb hblk hk] at hused
    exact ⟨k, hk, hused, heq⟩
  · intro ha
    rcases ha with ⟨k, hk, hused, heq⟩
    rw [← Volume.used_congr h.numbered hsb hblk hk] at hused
    exact ⟨k, hk, hused, heq⟩

theorem InUse.blk_take (h : v.sb.LaidOut) {a : UInt32} (ha : InUse v a) {k : Nat}
    (hk : k < v.sb.bits) (hfree : v.used k = false) : (v.take k).blk a = v.blk a := by
  apply Volume.take_blk_of_ne
  · intro heq
    rw [heq] at ha
    exact not_inUse_dataBlock h hk hfree ha
  · exact ha.ne_bmapBlock h hk

theorem InUse.blk_release (h : v.sb.LaidOut) {a : UInt32} (ha : InUse v a) {k : Nat}
    (hk : k < v.sb.bits) : (v.release k).blk a = v.blk a :=
  Volume.release_blk_of_ne (ha.ne_bmapBlock h hk)

end InUse

/-!
# References
-/

section Owned

variable {v : Volume} {T : Table}

theorem Owned.inUse (h : Owned v T) {j : UInt32} (hj : Live v T j) {s : Slot}
    (hs : slotAddr v (T j) s ≠ 0) : InUse v (slotAddr v (T j) s) := by
  have hused := h.used_of_ref (j, s)
  rw [refAddr_of_live hj] at hused
  exact hused hs

theorem Owned.slot_inj (h : Owned v T) {j j' : UInt32} (hj : Live v T j) (hj' : Live v T j')
    {s t : Slot} (heq : slotAddr v (T j) s = slotAddr v (T j') t)
    (hs : slotAddr v (T j) s ≠ 0) : j = j' ∧ s = t := by
  have hone := h.unique (j, s) (j', t)
  rw [refAddr_of_live hj, refAddr_of_live hj'] at hone
  have hpair := hone heq hs
  exact And.intro (congrArg Prod.fst hpair) (congrArg Prod.snd hpair)

theorem Owned.indirect_inUse (h : Owned v T) {j : UInt32} (hj : Live v T j)
    (hne : (T j).indirect ≠ 0) : InUse v (T j).indirect :=
  h.inUse hj (s := Slot.addr ndirectDataBlocks) hne

theorem live_update_self {inum : UInt32} {d : Dinode} (hin : inum < v.sb.ninodes)
    (hd : d.type ≠ InodeType.none.code) : Live v (Function.update T inum d) inum := by
  unfold Live
  rw [Function.update_self]
  exact And.intro hin hd

theorem live_update_of_ne {inum j : UInt32} (d : Dinode) (hne : j ≠ inum) :
    Live v (Function.update T inum d) j <-> Live v T j := by
  unfold Live
  rw [Function.update_of_ne hne]

theorem refAddr_congr_slot {w : Volume} {U : Table} {p : UInt32 × Slot}
    (hlive : Live w U p.1 <-> Live v T p.1)
    (hslot : Live v T p.1 -> slotAddr w (U p.1) p.2 = slotAddr v (T p.1) p.2) :
    refAddr w U p = refAddr v T p := by
  cases Classical.em (Live v T p.1) with
  | inl h => rw [refAddr, refAddr, if_pos h, if_pos (hlive.mpr h), hslot h]
  | inr h => rw [refAddr, refAddr, if_neg h, if_neg (fun hw => h (hlive.mp hw))]

theorem refAddr_update_of_ne {inum : UInt32} (d : Dinode) {p : UInt32 × Slot}
    (hne : p.1 ≠ inum) : refAddr v (Function.update T inum d) p = refAddr v T p := by
  apply refAddr_congr_slot (live_update_of_ne d hne)
  intro _
  rw [Function.update_of_ne hne]

theorem refAddr_update_self {inum : UInt32} {d : Dinode} (hin : inum < v.sb.ninodes)
    (hd : d.type ≠ InodeType.none.code) (s : Slot) :
    refAddr v (Function.update T inum d) (inum, s) = slotAddr v d s := by
  rw [refAddr_of_live (live_update_self hin hd), Function.update_self]

/-- The references of the other inodes depend on their indirect blocks only. -/
theorem refAddr_congr {w : Volume} (hsb : w.sb = v.sb) {p : UInt32 × Slot}
    (hblk : Live v T p.1 -> (T p.1).indirect ≠ 0 ->
      w.blk (T p.1).indirect = v.blk (T p.1).indirect) :
    refAddr w T p = refAddr v T p := by
  have hlive : Live w T p.1 <-> Live v T p.1 := by
    unfold Live
    rw [hsb]
  exact refAddr_congr_slot hlive (fun h => slotAddr_congr _ (hblk h) _)

end Owned

/-!
# Mapped blocks
-/

def slotOf (bn : Nat) : Slot :=
  if bn < ndirectDataBlocks then Slot.addr bn else Slot.entry (bn - ndirectDataBlocks)

/-- The address of block `bn` of a file, or 0 if it has none. -/
def blockOf (v : Volume) (d : Dinode) (bn : Nat) : UInt32 := slotAddr v d (slotOf bn)

theorem slotOf_inj {m n : Nat} (h : slotOf m = slotOf n) : m = n := by
  unfold slotOf at h
  split at h
  · split at h
    · cases h
      rfl
    · cases h
  · split at h
    · cases h
    · injection h
      lia

theorem slotOf_ne_indirect (bn : Nat) : slotOf bn ≠ Slot.addr ndirectDataBlocks := by
  unfold slotOf
  split
  · intro h
    injection h
    lia
  · intro h
    cases h

/-- The blocks that an inode has are kept, at their places and with their bytes. -/
def KeepsBlocks (v w : Volume) (d e : Dinode) : Prop :=
  forall bn, blockOf v d bn ≠ 0 ->
    blockOf w e bn = blockOf v d bn ∧ w.blk (blockOf v d bn) = v.blk (blockOf v d bn)

theorem KeepsBlocks.refl (v : Volume) (d : Dinode) : KeepsBlocks v v d d :=
  fun _ _ => And.intro rfl rfl

theorem KeepsBlocks.trans {v w x : Volume} {d e f : Dinode} (h1 : KeepsBlocks v w d e)
    (h2 : KeepsBlocks w x e f) : KeepsBlocks v x d f := by
  intro bn hne
  rcases h1 bn hne with ⟨haddr, hblk⟩
  rcases h2 bn (by rw [haddr]; exact hne) with ⟨haddr', hblk'⟩
  rw [haddr] at haddr' hblk'
  exact And.intro haddr' (hblk'.trans hblk)

/-- A call that works on one inode `d` has left `w` and the inode `e`. -/
structure Moved (v : Volume) (T : Table) (inum : UInt32) (d : Dinode) (w : Volume)
    (e : Dinode) : Prop where
  sb : w.sb = v.sb
  owned : Owned w (Function.update T inum e)
  fields : e = { d with addrs := e.addrs }
  others : forall j, Live v T j -> j ≠ inum -> KeepsBlocks v w (T j) (T j)
  inodes : forall b, v.sb.inodeRegion.Mem b.toNat -> w.blk b = v.blk b

/-- The call has changed no block that the inode had. -/
structure Mapped (v : Volume) (T : Table) (inum : UInt32) (d : Dinode) (w : Volume)
    (e : Dinode) : Prop extends Moved v T inum d w e where
  own : KeepsBlocks v w d e

section Moved

variable {v w x : Volume} {T : Table} {inum : UInt32} {d e f : Dinode}

theorem Moved.refl (h : Owned v (Function.update T inum d)) : Moved v T inum d v d where
  sb := rfl
  owned := h
  fields := rfl
  others := fun j _ _ => KeepsBlocks.refl v (T j)
  inodes := fun _ _ => rfl

theorem Mapped.refl (h : Owned v (Function.update T inum d)) : Mapped v T inum d v d where
  toMoved := Moved.refl h
  own := KeepsBlocks.refl v d

theorem Moved.type_eq (h : Moved v T inum d w e) : e.type = d.type := by
  rw [h.fields]

theorem Moved.size_eq (h : Moved v T inum d w e) : e.size = d.size := by
  rw [h.fields]

theorem Moved.live_iff (h : Moved v T inum d w e) (j : UInt32) : Live w T j <-> Live v T j := by
  unfold Live
  rw [h.sb]

theorem Moved.trans (h1 : Moved v T inum d w e) (h2 : Moved w T inum e x f) :
    Moved v T inum d x f where
  sb := h2.sb.trans h1.sb
  owned := h2.owned
  fields := by
    rw [h2.fields, h1.fields]
  others := fun j hj hne =>
    (h1.others j hj hne).trans (h2.others j ((h1.live_iff j).mpr hj) hne)
  inodes := by
    intro b hb
    rw [h2.inodes b (by rw [h1.sb]; exact hb), h1.inodes b hb]

theorem Mapped.trans (h1 : Mapped v T inum d w e) (h2 : Mapped w T inum e x f) :
    Mapped v T inum d x f where
  toMoved := h1.toMoved.trans h2.toMoved
  own := h1.own.trans h2.own

end Moved

/-!
# One inode at work
-/

/-- A call works on the inode `d`; the other inodes are those of the table. -/
structure Held (v : Volume) (T : Table) (inum : UInt32) (d : Dinode) : Prop where
  laidOut : v.sb.LaidOut
  inside : inum < v.sb.ninodes
  typed : d.type ≠ InodeType.none.code
  owned : Owned v (Function.update T inum d)

/-- Only blocks of the inode at work and blocks that are not in use have changed. -/
def Confined (v w : Volume) (d : Dinode) : Prop :=
  forall b, InUse v b -> (forall s, b ≠ slotAddr v d s) -> w.blk b = v.blk b

namespace Held

variable {v w : Volume} {T : Table} {inum : UInt32} {d e : Dinode}

theorem moved (h : Held v T inum d) (hm : Moved v T inum d w e) : Held w T inum e where
  laidOut := by
    rw [hm.sb]
    exact h.laidOut
  inside := by
    rw [hm.sb]
    exact h.inside
  typed := by
    rw [hm.type_eq]
    exact h.typed
  owned := hm.owned

theorem live (h : Held v T inum d) : Live v (Function.update T inum d) inum :=
  live_update_self h.inside h.typed

theorem inUse (h : Held v T inum d) {s : Slot} (hs : slotAddr v d s ≠ 0) :
    InUse v (slotAddr v d s) := by
  have hused := h.owned.inUse h.live (s := s)
  rw [Function.update_self] at hused
  exact hused hs

theorem slot_inj (h : Held v T inum d) {s t : Slot} (heq : slotAddr v d s = slotAddr v d t)
    (hs : slotAddr v d s ≠ 0) : s = t := by
  have hinj := h.owned.slot_inj h.live h.live (s := s) (t := t)
  rw [Function.update_self] at hinj
  exact (hinj heq hs).right

theorem other_inUse (h : Held v T inum d) {j : UInt32} (hj : Live v T j) (hne : j ≠ inum)
    {s : Slot} (hs : slotAddr v (T j) s ≠ 0) : InUse v (slotAddr v (T j) s) := by
  have hused := h.owned.inUse ((live_update_of_ne d hne).mpr hj) (s := s)
  rw [Function.update_of_ne hne] at hused
  exact hused hs

theorem other_ne (h : Held v T inum d) {j : UInt32} (hj : Live v T j) (hne : j ≠ inum)
    {s : Slot} (hs : slotAddr v (T j) s ≠ 0) (s' : Slot) :
    slotAddr v (T j) s ≠ slotAddr v d s' := by
  intro heq
  have hinj := h.owned.slot_inj ((live_update_of_ne d hne).mpr hj) h.live (s := s) (t := s')
  rw [Function.update_self, Function.update_of_ne hne] at hinj
  exact hne (hinj heq hs).left

theorem other_blk (h : Held v T inum d) (hc : Confined v w d) {j : UInt32} (hj : Live v T j)
    (hne : j ≠ inum) {s : Slot} (hs : slotAddr v (T j) s ≠ 0) :
    w.blk (slotAddr v (T j) s) = v.blk (slotAddr v (T j) s) :=
  hc _ (h.other_inUse hj hne hs) (h.other_ne hj hne hs)

theorem other_slots (h : Held v T inum d) (hc : Confined v w d) {j : UInt32} (hj : Live v T j)
    (hne : j ≠ inum) (s : Slot) : slotAddr w (T j) s = slotAddr v (T j) s := by
  apply slotAddr_congr
  intro hind
  exact h.other_blk hc hj hne (s := Slot.addr ndirectDataBlocks) hind

theorem keeps_others (h : Held v T inum d) (hc : Confined v w d) {j : UInt32}
    (hj : Live v T j) (hne : j ≠ inum) : KeepsBlocks v w (T j) (T j) := by
  intro bn hbn
  exact And.intro (h.other_slots hc hj hne _) (h.other_blk hc hj hne hbn)

theorem refAddr_others (h : Held v T inum d) (hsb : w.sb = v.sb) (hc : Confined v w d)
    {p : UInt32 × Slot} (hne : p.1 ≠ inum) :
    refAddr w (Function.update T inum e) p = refAddr v (Function.update T inum d) p := by
  rw [refAddr_update_of_ne e hne, refAddr_update_of_ne d hne]
  apply refAddr_congr hsb
  intro hj hind
  exact h.other_blk hc hj hne (s := Slot.addr ndirectDataBlocks) hind

theorem refAddr_self (h : Held v T inum d) (hsb : w.sb = v.sb) (htype : e.type = d.type)
    (s : Slot) : refAddr w (Function.update T inum e) (inum, s) = slotAddr w e s := by
  apply refAddr_update_self
  · rw [hsb]
    exact h.inside
  · rw [htype]
    exact h.typed

theorem refAddr_rest (h : Held v T inum d) (hsb : w.sb = v.sb) (hc : Confined v w d)
    (htype : e.type = d.type) {s : Slot} {a : UInt32}
    (hslots : forall s', slotAddr w e s' = if s' = s then a else slotAddr v d s')
    {p : UInt32 × Slot} (hp : p ≠ (inum, s)) :
    refAddr w (Function.update T inum e) p = refAddr v (Function.update T inum d) p := by
  rcases p with ⟨j, s'⟩
  cases Classical.em (j = inum) with
  | inl heq =>
      rw [heq] at hp ⊢
      rw [h.refAddr_self hsb htype, h.refAddr_self rfl rfl, hslots]
      apply if_neg
      intro hs
      rw [hs] at hp
      exact hp rfl
  | inr hne => exact h.refAddr_others hsb hc hne

/-- An empty slot of the inode at work takes a free block. -/
theorem assign (h : Held v T inum d) (hsb : w.sb = v.sb) (hc : Confined v w d)
    (htype : e.type = d.type) {s : Slot} {k : Nat} (hk : k < v.sb.bits)
    (hfree : v.used k = false) (hempty : slotAddr v d s = 0)
    (hslots : forall s', slotAddr w e s' =
      if s' = s then v.sb.dataBlock k else slotAddr v d s')
    (hused : forall a, InUse w a <-> InUse v a ∨ a = v.sb.dataBlock k) :
    Owned w (Function.update T inum e) := by
  apply Exact.assign h.owned (p := (inum, s)) (a := v.sb.dataBlock k)
  · rw [h.refAddr_self rfl rfl]
    exact hempty
  · exact h.laidOut.dataBlock_ne_zero hk
  · exact not_inUse_dataBlock h.laidOut hk hfree
  · rw [h.refAddr_self hsb htype, hslots]
    exact if_pos rfl
  · exact fun q hq => h.refAddr_rest hsb hc htype hslots hq
  · exact hused

/-- A slot of the inode at work is emptied, and its block was released. -/
theorem clear (h : Held v T inum d) (hsb : w.sb = v.sb) (hc : Confined v w d)
    (htype : e.type = d.type) {s : Slot}
    (hslots : forall s', slotAddr w e s' = if s' = s then 0 else slotAddr v d s')
    (hused : forall a, InUse w a <-> InUse v a ∧ a ≠ slotAddr v d s) :
    Owned w (Function.update T inum e) := by
  apply Exact.clear h.owned (p := (inum, s))
  · rw [h.refAddr_self hsb htype, hslots]
    exact if_pos rfl
  · exact fun q hq => h.refAddr_rest hsb hc htype hslots hq
  · rw [h.refAddr_self rfl rfl]
    exact hused

end Held

/-!
# Steps of the calls
-/

theorem inodes_take {v : Volume} (h : v.sb.LaidOut) {k : Nat} (hk : k < v.sb.bits)
    {b : UInt32} (hb : v.sb.inodeRegion.Mem b.toNat) : (v.take k).blk b = v.blk b := by
  apply Volume.take_blk_of_ne
  · intro heq
    rw [heq] at hb
    exact h.inode_apart_data.not_mem hb (h.numbered.dataBlock_mem hk)
  · intro heq
    rw [heq] at hb
    exact h.inode_apart_bmap.not_mem hb (h.numbered.bmapBlock_mem hk)

theorem confined_take {v : Volume} (h : v.sb.LaidOut) (d : Dinode) {k : Nat}
    (hk : k < v.sb.bits) (hfree : v.used k = false) : Confined v (v.take k) d :=
  fun _ hb _ => hb.blk_take h hk hfree

namespace Held

variable {v : Volume} {T : Table} {inum : UInt32} {d : Dinode}

theorem slotAddr_assignAddr (h : Held v T inum d) {i k : Nat} (hi : i < ndirectDataBlocks + 1)
    (hempty : d.addr i = 0) (hk : k < v.sb.bits) (hfree : v.used k = false) (s : Slot) :
    slotAddr (v.take k) (d.setAddr i (v.sb.dataBlock k)) s =
      if s = Slot.addr i then v.sb.dataBlock k else slotAddr v d s := by
  split
  · rename_i hs
    rw [hs]
    exact addr_setAddr_self d _ hi
  · rename_i hs
    cases s with
    | addr j =>
        apply addr_setAddr_of_ne
        intro heq
        rw [heq] at hs
        exact hs rfl
    | entry j =>
        cases Classical.em (i = ndirectDataBlocks) with
        | inl heq =>
            have hold : d.indirect = 0 := by
              unfold Dinode.indirect
              rw [← heq]
              exact hempty
            rw [slotAddr, slotAddr, if_pos hold, heq, indirect_setAddr_self,
              if_neg (h.laidOut.dataBlock_ne_zero hk), entryAt, Volume.take_blk_self]
            exact Bytes.word_zero _
        | inr hne =>
            rw [slotAddr, indirect_setAddr_of_ne d _ hne]
            apply slotAddr_congr d _ (Slot.entry j)
            intro hind
            exact (h.inUse (s := Slot.addr ndirectDataBlocks) hind).blk_take h.laidOut hk hfree

theorem slotOf_ne_of_empty {s : Slot} (hempty : slotAddr v d s = 0) {bn : Nat}
    (hbn : blockOf v d bn ≠ 0) : slotOf bn ≠ s := by
  intro heq
  unfold blockOf at hbn
  rw [heq] at hbn
  exact hbn hempty

theorem assignAddr (h : Held v T inum d) {i k : Nat} (hi : i < ndirectDataBlocks + 1)
    (hempty : d.addr i = 0) (hk : k < v.sb.bits) (hfree : v.used k = false) :
    Mapped v T inum d (v.take k) (d.setAddr i (v.sb.dataBlock k)) := by
  have hc := confined_take h.laidOut d hk hfree
  have hslots := h.slotAddr_assignAddr hi hempty hk hfree
  exact
    { sb := rfl
      owned := h.assign (s := Slot.addr i) rfl hc rfl hk hfree hempty hslots
        (inUse_take h.laidOut hk)
      fields := rfl
      own := by
        intro bn hbn
        constructor
        · rw [blockOf, hslots]
          exact if_neg (slotOf_ne_of_empty (s := Slot.addr i) hempty hbn)
        · exact (h.inUse hbn).blk_take h.laidOut hk hfree
      others := fun _ hj hne => h.keeps_others hc hj hne
      inodes := fun _ hb => inodes_take h.laidOut hk hb }

end Held

/-- The volume after an entry of the indirect block was set to the fresh block `k`. -/
def entered (v : Volume) (d : Dinode) (i k : Nat) : Volume :=
  (setEntry (v.take k) d.indirect i (v.sb.dataBlock k)).logged d.indirect

theorem word_setEntry (b : Block) {i j : Nat} (a : UInt32) (hi : i < nindirectDataBlocks) :
    (b.setWord (4 * i) a).word (4 * j) = if j = i then a else b.word (4 * j) := by
  have hsize : nindirectDataBlocks = 128 := rfl
  split
  · rename_i heq
    rw [heq]
    apply Bytes.word_setWord_self
    unfold blockSize
    lia
  · exact Bytes.word_setWord_of_apart b a (by lia)

theorem inUse_logged_store {v : Volume} (h : v.sb.LaidOut) {b : UInt32} (data : Block)
    (hb : v.sb.dataRegion.Mem b.toNat) (a : UInt32) :
    InUse ((v.store b data).logged b) a <-> InUse v a := by
  apply inUse_congr h
  · rfl
  · intro c hc
    apply Volume.store_blk_of_ne
    intro heq
    rw [heq] at hc
    exact h.bmap_apart_data.not_mem hc hb

theorem inodes_logged_store {v : Volume} (h : v.sb.LaidOut) {b : UInt32} (data : Block)
    (hb : v.sb.dataRegion.Mem b.toNat) {c : UInt32} (hc : v.sb.inodeRegion.Mem c.toNat) :
    ((v.store b data).logged b).blk c = v.blk c := by
  apply Volume.store_blk_of_ne
  intro heq
  rw [heq] at hc
  exact h.inode_apart_data.not_mem hc hb

namespace Held

variable {v : Volume} {T : Table} {inum : UInt32} {d : Dinode}

theorem indirect_inUse (h : Held v T inum d) (hind : d.indirect ≠ 0) : InUse v d.indirect :=
  h.inUse (s := Slot.addr ndirectDataBlocks) hind

theorem slotAddr_assignEntry (h : Held v T inum d) {i k : Nat} (hi : i < nindirectDataBlocks)
    (hind : d.indirect ≠ 0) (hk : k < v.sb.bits) (hfree : v.used k = false) (s : Slot) :
    slotAddr (entered v d i k) d s =
      if s = Slot.entry i then v.sb.dataBlock k else slotAddr v d s := by
  have hblk := (h.indirect_inUse hind).blk_take h.laidOut hk hfree
  cases s with
  | addr j => rw [if_neg Slot.noConfusion, slotAddr, slotAddr]
  | entry j =>
      rw [slotAddr, slotAddr, if_neg hind, if_neg hind, entryAt, entryAt, entered,
        Volume.logged_blk, setEntry, Volume.store_blk_self, word_setEntry _ _ hi, hblk]
      simp only [Slot.entry.injEq]

/-- An entry of the indirect block is set to a fresh block. -/
theorem assignEntry (h : Held v T inum d) {i k : Nat} (hi : i < nindirectDataBlocks)
    (hind : d.indirect ≠ 0) (hempty : entryAt v d.indirect i = 0) (hk : k < v.sb.bits)
    (hfree : v.used k = false) : Mapped v T inum d (entered v d i k) d := by
  have hdata := (h.indirect_inUse hind).mem_data h.laidOut
  have hslots := h.slotAddr_assignEntry hi hind hk hfree
  have hblk : forall b, InUse v b -> b ≠ d.indirect -> (entered v d i k).blk b = v.blk b := by
    intro b hb hne
    rw [entered, Volume.logged_blk, setEntry, Volume.store_blk_of_ne _ _ hne]
    exact hb.blk_take h.laidOut hk hfree
  have hc : Confined v (entered v d i k) d :=
    fun b hb hne => hblk b hb (hne (Slot.addr ndirectDataBlocks))
  have hempty' : slotAddr v d (Slot.entry i) = 0 := by
    rw [slotAddr, if_neg hind]
    exact hempty
  exact
    { sb := rfl
      owned := by
        apply h.assign (s := Slot.entry i) (by rfl) hc rfl hk hfree hempty' hslots
        intro a
        exact (inUse_logged_store (v := v.take k) h.laidOut _ hdata a).trans
          (inUse_take h.laidOut hk a)
      fields := rfl
      own := by
        intro bn hbn
        constructor
        · rw [blockOf, hslots]
          exact if_neg (slotOf_ne_of_empty hempty' hbn)
        · apply hblk _ (h.inUse hbn)
          intro heq
          exact slotOf_ne_indirect bn
            (h.slot_inj (s := slotOf bn) (t := Slot.addr ndirectDataBlocks) heq hbn)
      others := fun _ hj hne => h.keeps_others hc hj hne
      inodes := fun b hb =>
        (inodes_logged_store (v := v.take k) h.laidOut _ hdata hb).trans
          (inodes_take h.laidOut hk hb) }

end Held

end Inode
end Fs
end NicoOS
