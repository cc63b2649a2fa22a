import NicoOS.Fs.Inode.Image
import NicoOS.Fs.Inode.Mapping
import NicoOS.Mkfs.Files

/-!
# Blocks that `mkfs` gives to a file

`balloc` of `mkfs` takes the block that the kernel would take.  A file whose first blocks
are mapped, and no others, grows block by block, and every block counts against the free
ones.
-/

namespace NicoOS
namespace Mkfs

open Lib
open Fs
open Fs.Log (Block LogHeader)
open Fs.Inode (Dinode InUse Slot slotAddr slotOf blockOf)

/-!
# The image as a volume
-/

/-- What the kernel's model sees of the image; nothing in `mkfs` reads the log. -/
def Disk.volume (d : Disk) : Volume where
  sb := d.sb
  blk := d.blk
  lh := { n := 0, blocks := fun _ => 0 }
  outstanding := 1

/-- The regions of the superblock are disjoint, and their blocks have numbers of 32 bits. -/
def Formatted (d : Disk) : Prop := d.volume.sb.LaidOut

theorem volume_sb_of_sb {d d' : Disk} (hsb : d'.sb = d.sb) : d'.volume.sb = d.volume.sb := by
  unfold Disk.volume
  rw [hsb]

theorem Formatted.congr {d d' : Disk} (h : Formatted d) (hsb : d'.sb = d.sb) : Formatted d' := by
  unfold Formatted
  rw [volume_sb_of_sb hsb]
  exact h

/-- The image after a `balloc` that takes bit `k`. -/
def Disk.take (d : Disk) (k : Nat) : Disk := { d with blk := (d.volume.take k).blk }

theorem formatted_of_superblockInit {sectorCnt : Int32} {sb : Superblock}
    (h : superblockInit sectorCnt = some sb) (blk : UInt32 -> Block) :
    Formatted { sb := sb, blk := blk } := by
  have hc := superblockInit_computed h
  have hapart : sb.RegionsApart := computed_regionsApart hc
  refine ⟨hapart, ?_⟩
  have hbytes := hc.bmapBytes
  have hblocks := hc.nblocks
  have hinodes : roundUp nfilesPerDisk inodesPerBlock = 2341 := rfl
  have hlog : logSize + 1 = 31 := rfl
  -- The second estimate of the bitmap makes up for the two blocks between the regions.
  have hend : 2377 + roundUp sb.bmapBytes.toNat blockSize + 8 * sb.bmapBytes.toNat ≤
      0x100000000 := by
    have hlt := sb.size.toNat_lt
    unfold dataBlocksOf firstBmapBlocks roundUp overhead blockSize at hblocks
    unfold roundUp blockSize
    lia
  simp only [Disk.volume, Superblock.regions, List.mem_cons, List.not_mem_nil, or_false,
    forall_eq_or_imp, forall_eq, Region.finish, Superblock.superRegion,
    Superblock.inodeRegion, Superblock.logRegion, Superblock.bmapRegion,
    Superblock.dataRegion, hc.inodeStart, hc.ninodes, hc.logStart, hc.nlog, hc.bmapStart,
    hc.bdataStart, hinodes, hlog]
  lia

section Balloc

variable {d : Disk}

theorem logWrite_empty (b : UInt32) {v : Volume} (hn : v.lh.n < logSize)
    (hout : v.outstanding = 1) : logWrite b v = Except.ok (v.logged b) := by
  unfold logWrite
  rw [if_pos hn, if_pos (Nat.le_of_eq hout.symm)]
  rfl

/-- With room in its log the kernel stores what `mkfs` stores. -/
theorem takeBit_volume (b : UInt32) (bit : Nat) (d : Disk) :
    exists w, Fs.takeBit b bit d.volume = Except.ok ((takeBit b bit d).1, w) ∧
      w.blk = (takeBit b bit d).2.blk := by
  have hnone : b ∉ d.volume.lh.entries := fun h => by cases h
  have hfirst : (d.volume.lh.record b).n = 1 := (LogHeader.record_of_not_mem hnone).right.left
  unfold Fs.takeBit
  have hroom : (d.volume.store b ((d.volume.blk b).setBit bit)).lh.n < logSize :=
    Nat.succ_pos _
  rw [logWrite_empty b hroom rfl, ok_bind]
  dsimp only
  unfold bzero
  rw [logWrite_empty _ _ rfl]
  · exact ⟨_, rfl, rfl⟩
  · show (d.volume.lh.record b).n < 30
    rw [hfirst]
    decide

/-- The answer of the kernel's `balloc`, for the image. -/
def answer (d : Disk) : Except Fs.Stop (UInt32 × Volume) -> Except Stop (UInt32 × Disk)
  | Except.ok r => Except.ok (r.1, { d with blk := r.2.blk })
  | Except.error _ => Except.error Stop.exit

theorem ballocFrom_eq (d : Disk) (fuel : Nat) (bmapBits b : UInt32) :
    ballocFrom d fuel bmapBits b = answer d (Fs.ballocFrom d.volume fuel bmapBits b) := by
  induction fuel generalizing bmapBits b with
  | zero => rfl
  | succ fuel ih =>
      unfold ballocFrom Fs.ballocFrom
      split
      · have hblk : d.volume.blk b = d.blk b := rfl
        dsimp only
        rw [hblk]
        cases findClear (d.blk b) (if UInt32.ofNat bitsPerBlock > bmapBits then bmapBits
            else UInt32.ofNat bitsPerBlock).toNat 0 with
        | some bit =>
            rcases takeBit_volume b bit d with ⟨w, htake, hw⟩
            dsimp only
            rw [htake]
            show _ = Except.ok ((takeBit b bit d).1, { d with blk := w.blk })
            rw [hw]
            rfl
        | none => exact ih _ _
      · rfl

theorem balloc_eq (d : Disk) : balloc d = answer d (Fs.balloc d.volume) :=
  ballocFrom_eq d _ _ _

theorem balloc_meets (h : Formatted d) :
    Meets (fun r => exists k, k < d.volume.sb.bits ∧ d.volume.used k = false ∧
        r = (d.volume.sb.dataBlock k, d.take k))
      (fun e => e = Stop.exit ∧ d.volume.freeBits.card = 0) (balloc d) := by
  have hkernel := Fs.balloc_meets h.numbered
  rw [balloc_eq]
  cases hrun : Fs.balloc d.volume with
  | ok r =>
      rw [hrun] at hkernel
      rcases hkernel with ⟨k, hk, hfree, hr⟩
      refine ⟨k, hk, hfree, ?_⟩
      rw [hr]
      rfl
  | error e =>
      rw [hrun] at hkernel
      refine ⟨rfl, ?_⟩
      cases e with
      | outOfBlocks =>
          have hempty : d.volume.freeBits = ∅ := hkernel
          rw [hempty]
          rfl
      | logFull =>
          rcases hkernel with ⟨k, _, hload⟩
          have hfull : 30 < 0 + 2 := hload.log
          contradiction
      | noOperation =>
          rcases hkernel with ⟨k, _, hload⟩
          have hnone : 1 = 0 := hload
          contradiction
      | _ =>
          rcases hkernel with ⟨k, _, hload⟩
          cases hload

end Balloc

/-!
# Mapped blocks

The first `m` blocks of a file are mapped, to blocks in use other than its indirect block.
-/

structure Grown (v : Volume) (i : Dinode) (m : Nat) : Prop where
  le : m ≤ maxDataBlocks
  block : forall bn, blockOf v i bn ≠ 0 <-> bn < m
  apart : forall bn, bn < m -> blockOf v i bn ≠ i.indirect
  inUse : forall s, slotAddr v i s ≠ 0 -> InUse v (slotAddr v i s)

/-- Besides, there is an indirect block where one is needed, and only there. -/
structure Whole (v : Volume) (i : Dinode) (m : Nat) : Prop extends Grown v i m where
  needed : i.indirect ≠ 0 <-> ndirectDataBlocks < m

/-- What one file changes: blocks of its own, and blocks that were free. -/
structure Widens (v : Volume) (i : Dinode) (w : Volume) (j : Dinode) : Prop where
  use : forall a, InUse v a -> InUse w a
  confined : Inode.Confined v w i
  owns : forall s, InUse v (slotAddr w j s) -> exists t, slotAddr w j s = slotAddr v i t

section Grown

variable {v w : Volume} {i j : Dinode} {m : Nat} {a : UInt32}

theorem Grown.block_inUse (h : Grown v i m) {bn : Nat} (hbn : bn < m) :
    InUse v (blockOf v i bn) :=
  h.inUse (slotOf bn) ((h.block bn).mpr hbn)

theorem Grown.indirect_inUse (h : Grown v i m) (hind : i.indirect ≠ 0) : InUse v i.indirect :=
  h.inUse (Slot.addr ndirectDataBlocks) hind

theorem blockOf_direct (v : Volume) (i : Dinode) {bn : Nat} (h : bn < ndirectDataBlocks) :
    blockOf v i bn = i.addr bn := by
  unfold blockOf slotOf
  rw [if_pos h]
  rfl

theorem blockOf_entry (v : Volume) {i : Dinode} {bn : Nat} (h : ndirectDataBlocks ≤ bn)
    (hind : i.indirect ≠ 0) :
    blockOf v i bn = (v.blk i.indirect).word (4 * (bn - ndirectDataBlocks)) := by
  unfold blockOf slotOf
  rw [if_neg (Nat.not_lt_of_le h), slotAddr, if_neg hind]
  rfl

theorem Grown.congr (h : Grown v i m) (hslots : forall s, slotAddr w j s = slotAddr v i s)
    (huse : forall a, InUse v a -> InUse w a) : Grown w j m := by
  have hind : j.indirect = i.indirect := hslots (Slot.addr ndirectDataBlocks)
  have hblock : forall bn, blockOf w j bn = blockOf v i bn := fun bn => hslots (slotOf bn)
  constructor
  · exact h.le
  · intro bn
    rw [hblock]
    exact h.block bn
  · intro bn
    rw [hblock, hind]
    exact h.apart bn
  · intro s
    rw [hslots]
    exact fun hne => huse _ (h.inUse s hne)

theorem Whole.congr (h : Whole v i m) (hslots : forall s, slotAddr w j s = slotAddr v i s)
    (huse : forall a, InUse v a -> InUse w a) : Whole w j m where
  toGrown := h.toGrown.congr hslots huse
  needed := by
    have hind : j.indirect = i.indirect := hslots (Slot.addr ndirectDataBlocks)
    rw [hind]
    exact h.needed

theorem slotAddr_congr_addrs (haddrs : j.addrs = i.addrs) (s : Slot) :
    slotAddr v j s = slotAddr v i s := by
  have haddr : forall k, j.addr k = i.addr k := by
    intro k
    unfold Dinode.addr
    rw [haddrs]
  have hind : j.indirect = i.indirect := haddr ndirectDataBlocks
  cases s with
  | addr k => exact haddr k
  | entry k => rw [slotAddr, slotAddr, hind]

theorem slotAddr_of_empty (v : Volume) (h : forall k, i.addr k = 0) (s : Slot) :
    slotAddr v i s = 0 := by
  have hind : i.indirect = 0 := h ndirectDataBlocks
  cases s with
  | addr k => exact h k
  | entry k => rw [slotAddr, if_pos hind]

theorem whole_of_empty (v : Volume) (h : forall k, i.addr k = 0) : Whole v i 0 := by
  have hind : i.indirect = 0 := h ndirectDataBlocks
  have hslots := slotAddr_of_empty v h
  constructor
  · constructor
    · exact Nat.zero_le _
    · intro bn
      constructor
      · exact fun hne => absurd (hslots (slotOf bn)) hne
      · exact fun hlt => absurd hlt (Nat.not_lt_zero bn)
    · exact fun bn hbn => absurd hbn (Nat.not_lt_zero bn)
    · exact fun s hne => absurd (hslots s) hne
  · constructor
    · exact fun hne => absurd hind hne
    · exact fun hlt => absurd hlt (Nat.not_lt_zero _)

theorem Grown.assignBlock (h : Grown v i m) (hm : m < maxDataBlocks)
    (hslots : forall s, slotAddr w j s = if s = slotOf m then a else slotAddr v i s)
    (huse : forall b, InUse v b -> InUse w b) (hzero : a ≠ 0) (ha : InUse w a)
    (hne : a ≠ i.indirect) : Grown w j (m + 1) := by
  have hind : j.indirect = i.indirect := by
    have hslot := hslots (Slot.addr ndirectDataBlocks)
    rw [if_neg (Inode.slotOf_ne_indirect m).symm] at hslot
    exact hslot
  have hself : blockOf w j m = a := (hslots (slotOf m)).trans (if_pos rfl)
  have hother : forall bn, bn ≠ m -> blockOf w j bn = blockOf v i bn := by
    intro bn hbn
    exact (hslots (slotOf bn)).trans (if_neg (fun heq => hbn (Inode.slotOf_inj heq)))
  constructor
  · exact hm
  · intro bn
    cases Classical.em (bn = m) with
    | inl heq =>
        rw [heq, hself]
        exact ⟨fun _ => Nat.lt_succ_self m, fun _ => hzero⟩
    | inr hbn =>
        rw [hother bn hbn, h.block bn]
        lia
  · intro bn hbn
    rw [hind]
    cases Classical.em (bn = m) with
    | inl heq =>
        rw [heq, hself]
        exact hne
    | inr hbn' =>
        rw [hother bn hbn']
        exact h.apart bn (by lia)
  · intro s
    rw [hslots]
    split
    · exact fun _ => ha
    · exact fun hs => huse _ (h.inUse s hs)

/-- The indirect block is set to `a`, which no slot held. -/
theorem Grown.assignIndirect (h : Grown v i m)
    (hslots : forall s, slotAddr w j s =
      if s = Slot.addr ndirectDataBlocks then a else slotAddr v i s)
    (huse : forall b, InUse v b -> InUse w b) (ha : InUse w a)
    (hnew : forall b, InUse v b -> b ≠ a) : Grown w j m := by
  have hind : j.indirect = a := (hslots (Slot.addr ndirectDataBlocks)).trans (if_pos rfl)
  have hblock : forall bn, blockOf w j bn = blockOf v i bn := fun bn =>
    (hslots (slotOf bn)).trans (if_neg (Inode.slotOf_ne_indirect bn))
  constructor
  · exact h.le
  · intro bn
    rw [hblock]
    exact h.block bn
  · intro bn hbn
    rw [hblock, hind]
    exact hnew _ (h.block_inUse hbn)
  · intro s
    rw [hslots]
    split
    · exact fun _ => ha
    · exact fun hs => huse _ (h.inUse s hs)

theorem Widens.refl (v : Volume) (i : Dinode) : Widens v i v i where
  use := fun _ h => h
  confined := fun _ _ _ => rfl
  owns := fun s _ => ⟨s, rfl⟩

theorem Widens.trans {x : Volume} {k : Dinode} (h1 : Widens v i w j) (h2 : Widens w j x k) :
    Widens v i x k where
  use := fun a h => h2.use a (h1.use a h)
  confined := by
    intro b hb hslots
    rw [h2.confined b (h1.use b hb) _]
    · exact h1.confined b hb hslots
    · intro s heq
      rw [heq] at hb
      rcases h1.owns s hb with ⟨t, ht⟩
      exact hslots t (heq.trans ht)
  owns := by
    intro s hs
    rcases h2.owns s (h1.use _ hs) with ⟨t, ht⟩
    rw [ht] at hs
    rcases h1.owns t hs with ⟨r, hr⟩
    exact ⟨r, ht.trans hr⟩

end Grown

/-!
# Stores to data blocks
-/

section Store

variable {v : Volume} {i : Dinode} {b : UInt32}

theorem bmap_store (hl : v.sb.LaidOut) (data : Block) (hb : v.sb.dataRegion.Mem b.toNat)
    {c : UInt32} (hc : v.sb.bmapRegion.Mem c.toNat) : (v.store b data).blk c = v.blk c := by
  apply Volume.store_blk_of_ne
  intro heq
  rw [heq] at hc
  exact hl.bmap_apart_data.not_mem hc hb

theorem inUse_store (hl : v.sb.LaidOut) (data : Block) (hb : v.sb.dataRegion.Mem b.toNat)
    (a : UInt32) : InUse (v.store b data) a <-> InUse v a := by
  have hsb : (v.store b data).sb = v.sb := rfl
  exact Inode.inUse_congr hl hsb (fun _ hc => bmap_store hl data hb hc) a

theorem freeBits_store (hl : v.sb.LaidOut) (data : Block) (hb : v.sb.dataRegion.Mem b.toNat) :
    (v.store b data).freeBits = v.freeBits := by
  have hsb : (v.store b data).sb = v.sb := rfl
  exact Volume.freeBits_congr hl.numbered hsb (fun _ hc => bmap_store hl data hb hc)

/-- A store to a slot of the file other than its indirect block. -/
theorem slotAddr_store (data : Block) (hne : b ≠ i.indirect) (s : Slot) :
    slotAddr (v.store b data) i s = slotAddr v i s :=
  Inode.slotAddr_congr i (fun _ => Volume.store_blk_of_ne v data hne.symm) s

theorem widens_store (hl : v.sb.LaidOut) (data : Block) {s : Slot}
    (hs : InUse v (slotAddr v i s)) (hne : slotAddr v i s ≠ i.indirect) :
    Widens v i (v.store (slotAddr v i s) data) i where
  use := fun a ha => (inUse_store hl data (hs.mem_data hl) a).mpr ha
  confined := fun _ _ hslots => Volume.store_blk_of_ne v data (hslots s)
  owns := fun t _ => ⟨t, slotAddr_store data hne t⟩

end Store

/-!
# Taken blocks
-/

section Take

variable {v : Volume} {i j : Dinode} {k m : Nat}

/-- Without an indirect block only the addresses in the inode count. -/
theorem slotAddr_takeDirect (hm : m < ndirectDataBlocks) (hind : i.indirect = 0) (a : UInt32)
    (s : Slot) :
    slotAddr (v.take k) (i.setAddr m a) s = if s = slotOf m then a else slotAddr v i s := by
  have hslot : slotOf m = Slot.addr m := if_pos hm
  have hnone : (i.setAddr m a).indirect = 0 := by
    rw [Inode.indirect_setAddr_of_ne i _ (Nat.ne_of_lt hm)]
    exact hind
  rw [hslot]
  cases s with
  | addr n =>
      split
      · rename_i heq
        cases heq
        exact Inode.addr_setAddr_self i a (Nat.lt_succ_of_lt hm)
      · rename_i hne
        exact Inode.addr_setAddr_of_ne i a (fun heq => hne (congrArg Slot.addr heq))
  | entry n => rw [if_neg Slot.noConfusion, slotAddr, slotAddr, if_pos hnone, if_pos hind]

/-- The entry of the next block is set in the indirect block. -/
theorem slotAddr_takeEntry (hge : ndirectDataBlocks ≤ m) (hlt : m < maxDataBlocks)
    (hind : i.indirect ≠ 0) (s : Slot) :
    slotAddr ((v.take k).store i.indirect ((v.blk i.indirect).setWord
        (4 * (m - ndirectDataBlocks)) (v.sb.dataBlock k))) i s =
      if s = slotOf m then v.sb.dataBlock k else slotAddr v i s := by
  have hmax : maxDataBlocks = ndirectDataBlocks + nindirectDataBlocks := rfl
  have hslot : slotOf m = Slot.entry (m - ndirectDataBlocks) := if_neg (Nat.not_lt_of_le hge)
  rw [hslot]
  cases s with
  | addr n => rw [if_neg Slot.noConfusion, slotAddr, slotAddr]
  | entry n =>
      rw [slotAddr, slotAddr, if_neg hind, if_neg hind, Inode.entryAt, Inode.entryAt,
        Volume.store_blk_self, Inode.word_setEntry _ _ (by lia)]
      simp only [Slot.entry.injEq]

variable (hl : v.sb.LaidOut) (hk : k < v.sb.bits) (hfree : v.used k = false)

include hl hk

theorem use_take {a : UInt32} (ha : InUse v a) : InUse (v.take k) a :=
  (Inode.inUse_take hl hk a).mpr (Or.inl ha)

theorem inUse_dataBlock : InUse (v.take k) (v.sb.dataBlock k) :=
  (Inode.inUse_take hl hk _).mpr (Or.inr rfl)

theorem slotAddr_takeIndirect (hind : i.indirect = 0) (s : Slot) :
    slotAddr (v.take k) (i.setAddr ndirectDataBlocks (v.sb.dataBlock k)) s =
      if s = Slot.addr ndirectDataBlocks then v.sb.dataBlock k else slotAddr v i s := by
  have hself := Inode.indirect_setAddr_self i (v.sb.dataBlock k)
  cases s with
  | addr n =>
      split
      · rename_i heq
        cases heq
        exact hself
      · rename_i hne
        exact Inode.addr_setAddr_of_ne i _ (fun heq => hne (congrArg Slot.addr heq))
  | entry n =>
      rw [if_neg Slot.noConfusion, slotAddr, slotAddr, hself, if_pos hind,
        if_neg (hl.dataBlock_ne_zero hk), Inode.entryAt, Volume.take_blk_self]
      exact Bytes.word_zero _

include hfree

theorem ne_dataBlock {a : UInt32} (ha : InUse v a) : a ≠ v.sb.dataBlock k := by
  intro heq
  rw [heq] at ha
  exact Inode.not_inUse_dataBlock hl hk hfree ha

theorem widens_assign {w : Volume} {s : Slot} (huse : forall a, InUse v a -> InUse w a)
    (hconfined : Inode.Confined v w i)
    (hslots : forall t, slotAddr w j t = if t = s then v.sb.dataBlock k else slotAddr v i t) :
    Widens v i w j where
  use := huse
  confined := hconfined
  owns := by
    intro t ht
    rw [hslots] at ht ⊢
    split at ht
    · exact absurd ht (Inode.not_inUse_dataBlock hl hk hfree)
    · rename_i hne
      exact ⟨t, if_neg hne⟩

/-- The taken block becomes the entry of the next block. -/
theorem widens_takeEntry (h : Grown v i m) (hge : ndirectDataBlocks ≤ m)
    (hlt : m < maxDataBlocks) (hind : i.indirect ≠ 0) :
    Widens v i ((v.take k).store i.indirect ((v.blk i.indirect).setWord
      (4 * (m - ndirectDataBlocks)) (v.sb.dataBlock k))) i := by
  have hl' : (v.take k).sb.LaidOut := hl
  have huse := h.indirect_inUse hind
  have hregion : (v.take k).sb.dataRegion.Mem i.indirect.toNat := huse.mem_data hl
  apply widens_assign hl hk hfree _ _ (slotAddr_takeEntry hge hlt hind)
  · exact fun a ha => (inUse_store hl' _ hregion a).mpr (use_take hl hk ha)
  · intro b hb hother
    have hne : b ≠ i.indirect := hother (Slot.addr ndirectDataBlocks)
    rw [Volume.store_blk_of_ne _ _ hne]
    exact hb.blk_take hl hk hfree

theorem Grown.takeEntry (h : Grown v i m) (hge : ndirectDataBlocks ≤ m)
    (hlt : m < maxDataBlocks) (hind : i.indirect ≠ 0) :
    Grown ((v.take k).store i.indirect ((v.blk i.indirect).setWord
      (4 * (m - ndirectDataBlocks)) (v.sb.dataBlock k))) i (m + 1) := by
  have hl' : (v.take k).sb.LaidOut := hl
  have huse := h.indirect_inUse hind
  have hregion : (v.take k).sb.dataRegion.Mem i.indirect.toNat := huse.mem_data hl
  apply h.assignBlock hlt (slotAddr_takeEntry hge hlt hind)
  · exact (widens_takeEntry hl hk hfree h hge hlt hind).use
  · exact hl.dataBlock_ne_zero hk
  · exact (inUse_store hl' _ hregion _).mpr (inUse_dataBlock hl hk)
  · exact (ne_dataBlock hl hk hfree huse).symm

end Take

end Mkfs
end NicoOS
