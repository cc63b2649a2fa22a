import NicoOS.Fs.Log.Commit
import NicoOS.Lib.Outcome
import Mathlib.Data.Finset.Card
import Mathlib.Data.Finset.Dedup

/-!
# The block allocator

`fs/balloc.c` over a mounted volume.  A call either returns or stops at a failed
assertion, a panic or a wait that nobody ends.
-/

namespace NicoOS
namespace Fs

open Lib
open Log (Block LogHeader)

/--
Where a call of the file system stops: the assertions of `log_write`, `bfree`,
`bmap`, `iget`, `inode_lock`, `inode_put` and of the device branch, the two
panics, a semaphore that is taken, an inode that is used without its lock, and the
assertions on the records of a directory.
-/
inductive Stop where
  | logFull
  | noOperation
  | outOfBlocks
  | bitClear
  | blockNo
  | noSlot
  | noInodes
  | noRef
  | noType
  | badDevice
  | waits
  | notHeld
  | badRecord
  deriving DecidableEq, Repr

/--
A mounted file system as its functions see it.  `blk` holds what `buf_read`
gives for a block, `lh` and `outstanding` are those of `struct log`.
-/
structure Volume where
  sb : Superblock
  blk : UInt32 -> Block
  lh : LogHeader
  outstanding : Nat

def Volume.store (v : Volume) (b : UInt32) (data : Block) : Volume :=
  { v with blk := fun c => if c = b then data else v.blk c }

def logWrite (b : UInt32) (v : Volume) : Except Stop Volume :=
  if v.lh.n < logSize then
    if v.outstanding ≥ 1 then
      Except.ok { v with lh := v.lh.record b }
    else
      Except.error Stop.noOperation
  else
    Except.error Stop.logFull

def bzero (b : UInt32) (v : Volume) : Except Stop Volume :=
  logWrite b (v.store b Bytes.zero)

/-- The inner loop of `balloc`: the first clear bit from `bit` on. -/
def findClear (data : Block) : Nat -> Nat -> Option Nat
  | 0, _ => none
  | k + 1, bit => if data.bit bit = false then some bit else findClear data k (bit + 1)

def takeBit (b : UInt32) (bit : Nat) (v : Volume) : Except Stop (UInt32 × Volume) := do
  let v <- logWrite b (v.store b ((v.blk b).setBit bit))
  let blockNo :=
    v.sb.bdataStart + (b - v.sb.bmapStart) * UInt32.ofNat bitsPerBlock + UInt32.ofNat bit
  let v <- bzero blockNo v
  Except.ok (blockNo, v)

/-- The outer loop of `balloc`; every round takes at least one of the bits. -/
def ballocFrom (v : Volume) : Nat -> UInt32 -> UInt32 -> Except Stop (UInt32 × Volume)
  | 0, _, _ => Except.error Stop.outOfBlocks
  | fuel + 1, bmapBits, b =>
      if bmapBits > 0 then
        let bits :=
          if UInt32.ofNat bitsPerBlock > bmapBits then bmapBits else UInt32.ofNat bitsPerBlock
        match findClear (v.blk b) bits.toNat 0 with
        | some bit => takeBit b bit v
        | none => ballocFrom v fuel (bmapBits - bits) (b + 1)
      else
        Except.error Stop.outOfBlocks

def balloc (v : Volume) : Except Stop (UInt32 × Volume) :=
  let bmapBits := v.sb.bmapBytes * 8
  ballocFrom v bmapBits.toNat bmapBits v.sb.bmapStart

def bfree (dblockNo : UInt32) (v : Volume) : Except Stop Volume :=
  let k := dblockNo - v.sb.bdataStart
  let b := v.sb.bmapStart + k / UInt32.ofNat bitsPerBlock
  let bits := (k % UInt32.ofNat bitsPerBlock).toNat
  if (v.blk b).bit bits then
    logWrite b (v.store b ((v.blk b).clearBit bits))
  else
    Except.error Stop.bitClear

/-!
# The bitmap as a whole

Bit `k` of the bitmap stands for the `k`-th data block.
-/

/-- The regions are disjoint, and their blocks have numbers of 32 bits. -/
structure Superblock.LaidOut (sb : Superblock) : Prop where
  apart : sb.RegionsApart
  numbers : forall r, r ∈ sb.regions -> r.finish ≤ 0x100000000

def Superblock.bits (sb : Superblock) : Nat := 8 * sb.bmapBytes.toNat

/-- Bitmap and data blocks are different blocks with numbers of 32 bits. -/
structure Superblock.Numbered (sb : Superblock) : Prop where
  bmap : sb.bmapStart.toNat + roundUp sb.bmapBytes.toNat blockSize ≤ 0x100000000
  data : sb.bdataStart.toNat + sb.bits ≤ 0x100000000
  apart : sb.bmapRegion.Apart sb.dataRegion

def Superblock.bmapBlock (sb : Superblock) (k : Nat) : UInt32 :=
  sb.bmapStart + UInt32.ofNat (k / bitsPerBlock)

def Superblock.dataBlock (sb : Superblock) (k : Nat) : UInt32 :=
  sb.bdataStart + UInt32.ofNat k

namespace Volume

def used (v : Volume) (k : Nat) : Bool :=
  (v.blk (v.sb.bmapBlock k)).bit (k % bitsPerBlock)

def freeBits (v : Volume) : Finset Nat :=
  (Finset.range v.sb.bits).filter (fun k => v.used k = false)

@[simp] theorem store_sb (v : Volume) (b : UInt32) (data : Block) :
    (v.store b data).sb = v.sb := rfl

@[simp] theorem store_lh (v : Volume) (b : UInt32) (data : Block) :
    (v.store b data).lh = v.lh := rfl

@[simp] theorem store_outstanding (v : Volume) (b : UInt32) (data : Block) :
    (v.store b data).outstanding = v.outstanding := rfl

theorem store_blk_self (v : Volume) (b : UInt32) (data : Block) :
    (v.store b data).blk b = data :=
  if_pos rfl

theorem store_blk_of_ne (v : Volume) {b c : UInt32} (data : Block) (h : c ≠ b) :
    (v.store b data).blk c = v.blk c :=
  if_neg h

end Volume

namespace Superblock

variable {sb : Superblock}

theorem LaidOut.inode_finish (h : sb.LaidOut) :
    sb.inodeStart.toNat + roundUp sb.ninodes.toNat inodesPerBlock ≤ 0x100000000 :=
  h.numbers sb.inodeRegion (by simp [regions])

theorem LaidOut.inode_apart_bmap (h : sb.LaidOut) : sb.inodeRegion.Apart sb.bmapRegion := by
  have hp := h.apart
  simp only [RegionsApart, regions, List.pairwise_cons, List.mem_cons, List.not_mem_nil,
    or_false, forall_eq_or_imp, forall_eq] at hp
  exact hp.right.left.right.left

theorem LaidOut.inode_apart_data (h : sb.LaidOut) : sb.inodeRegion.Apart sb.dataRegion := by
  have hp := h.apart
  simp only [RegionsApart, regions, List.pairwise_cons, List.mem_cons, List.not_mem_nil,
    or_false, forall_eq_or_imp, forall_eq] at hp
  exact hp.right.left.right.right

theorem LaidOut.bmap_apart_data (h : sb.LaidOut) : sb.bmapRegion.Apart sb.dataRegion := by
  have hp := h.apart
  simp only [RegionsApart, regions, List.pairwise_cons, List.mem_cons, List.not_mem_nil,
    or_false, forall_eq_or_imp, forall_eq] at hp
  exact hp.right.right.right.left

theorem LaidOut.super_apart_data (h : sb.LaidOut) : superRegion.Apart sb.dataRegion := by
  have hp := h.apart
  simp only [RegionsApart, regions, List.pairwise_cons, List.mem_cons, List.not_mem_nil,
    or_false, forall_eq_or_imp, forall_eq] at hp
  exact hp.left.right.right.right

theorem LaidOut.numbered (h : sb.LaidOut) : sb.Numbered where
  bmap := h.numbers sb.bmapRegion (by simp [regions])
  data := h.numbers sb.dataRegion (by simp [regions])
  apart := h.bmap_apart_data

/-- The number of bits is one of 32 bits, since the bitmap has blocks of its own. -/
theorem Numbered.bits_lt (h : sb.Numbered) : sb.bits < 0x100000000 := by
  have hdata := h.data
  have hbmap := h.bmap
  have hapart := h.apart
  unfold Region.Apart Region.finish bmapRegion dataRegion roundUp blockSize at hapart
  unfold roundUp blockSize at hbmap
  unfold bits at hdata ⊢
  simp only at hapart
  lia

theorem Numbered.toNat_dataBlock (h : sb.Numbered) {k : Nat} (hk : k < sb.bits) :
    (sb.dataBlock k).toNat = sb.bdataStart.toNat + k := by
  have hlt := h.data
  have hofk : (UInt32.ofNat k).toNat = k := UInt32.toNat_ofNat_of_lt' (by lia)
  unfold dataBlock
  rw [UInt32.toNat_add, hofk]
  lia

theorem Numbered.toNat_bmapBlock (h : sb.Numbered) {k : Nat} (hk : k < sb.bits) :
    (sb.bmapBlock k).toNat = sb.bmapStart.toNat + k / bitsPerBlock := by
  have hlt := h.bmap
  have hd := h.data
  have hbits : bitsPerBlock = 4096 := rfl
  unfold roundUp blockSize at hlt
  unfold bits at hk hd
  have hofk : (UInt32.ofNat (k / bitsPerBlock)).toNat = k / bitsPerBlock :=
    UInt32.toNat_ofNat_of_lt' (by lia)
  unfold bmapBlock
  rw [UInt32.toNat_add, hofk]
  lia

theorem Numbered.bmapBlock_mem (h : sb.Numbered) {k : Nat} (hk : k < sb.bits) :
    sb.bmapRegion.Mem (sb.bmapBlock k).toNat := by
  have hbits : bitsPerBlock = 4096 := rfl
  unfold bits at hk
  unfold Region.Mem Region.finish bmapRegion roundUp blockSize
  rw [h.toNat_bmapBlock hk]
  lia

theorem Numbered.dataBlock_mem (h : sb.Numbered) {k : Nat} (hk : k < sb.bits) :
    sb.dataRegion.Mem (sb.dataBlock k).toNat := by
  unfold Region.Mem Region.finish dataRegion
  rw [h.toNat_dataBlock hk]
  unfold bits at hk
  lia

theorem Numbered.dataBlock_inj (h : sb.Numbered) {j k : Nat} (hj : j < sb.bits)
    (hk : k < sb.bits) (heq : sb.dataBlock j = sb.dataBlock k) : j = k := by
  have hnat := congrArg UInt32.toNat heq
  rw [h.toNat_dataBlock hj, h.toNat_dataBlock hk] at hnat
  lia

theorem Numbered.bmapBlock_ne_dataBlock (h : sb.Numbered) {j k : Nat} (hj : j < sb.bits)
    (hk : k < sb.bits) : sb.bmapBlock j ≠ sb.dataBlock k := by
  intro heq
  have hmem := h.bmapBlock_mem hj
  rw [heq] at hmem
  exact h.apart.not_mem hmem (h.dataBlock_mem hk)

/-- No data block has the number 0, so 0 marks a missing address. -/
theorem LaidOut.dataBlock_ne_zero (h : sb.LaidOut) {k : Nat} (hk : k < sb.bits) :
    sb.dataBlock k ≠ 0 := by
  intro heq
  have hnat := congrArg UInt32.toNat heq
  rw [h.numbered.toNat_dataBlock hk] at hnat
  have hap := h.super_apart_data
  unfold Region.Apart Region.finish superRegion dataRegion at hap
  unfold bits at hk
  have hzero : (0 : UInt32).toNat = 0 := rfl
  lia

end Superblock

/-!
# What a call leaves

The calls are compared by the volume they leave and by the room they need in the
log header.
-/

def Volume.logged (v : Volume) (b : UInt32) : Volume := { v with lh := v.lh.record b }

/-- The volume after a `balloc` that takes bit `k`. -/
def Volume.take (v : Volume) (k : Nat) : Volume :=
  let b := v.sb.bmapBlock k
  let v := (v.store b ((v.blk b).setBit (k % bitsPerBlock))).logged b
  (v.store (v.sb.dataBlock k) Bytes.zero).logged (v.sb.dataBlock k)

/-- The volume after a `bfree` that clears bit `k`. -/
def Volume.release (v : Volume) (k : Nat) : Volume :=
  let b := v.sb.bmapBlock k
  (v.store b ((v.blk b).clearBit (k % bitsPerBlock))).logged b

def Volume.logSet (v : Volume) : Finset UInt32 := v.lh.entries.toFinset

/-- The number of blocks in the log header once those of `W` are logged. -/
def logLoad (v : Volume) (W : Finset UInt32) : Nat := v.lh.n + (W \ v.logSet).card

/-- The volume `w` comes from `v`, and nothing but blocks of `W` was logged. -/
structure Logs (v w : Volume) (W : Finset UInt32) : Prop where
  outstanding : w.outstanding = v.outstanding
  entries : v.logSet ⊆ w.logSet
  only : w.logSet ⊆ v.logSet ∪ W
  count : w.lh.n + v.logSet.card = v.lh.n + w.logSet.card

/-- Where a call may stop that logs the blocks of `W` before its last `log_write`. -/
def LoadStops (v : Volume) (W : Finset UInt32) : Stop -> Prop
  | Stop.logFull => logSize ≤ logLoad v W
  | Stop.noOperation => v.outstanding = 0
  | _ => False

/-- Where a call may stop that needs room for `c` blocks in the log header. -/
def LogStops (v : Volume) (c : Nat) : Stop -> Prop
  | Stop.logFull => logSize < v.lh.n + c
  | Stop.noOperation => v.outstanding = 0
  | _ => False

/-- Bit `k` is the one that `balloc` takes. -/
def Volume.FirstFree (v : Volume) (k : Nat) : Prop :=
  k < v.sb.bits ∧ v.used k = false ∧ forall j, j < k -> v.used j = true

/-- Where `balloc` may stop: it logs the bitmap block, and then the fresh block. -/
def AllocStops (v : Volume) : Stop -> Prop
  | Stop.outOfBlocks => v.freeBits = ∅
  | e => exists k, v.FirstFree k ∧ LoadStops v {v.sb.bmapBlock k} e

theorem logWrite_meets (b : UInt32) (v : Volume) :
    Meets (fun w => w = v.logged b) (LogStops v 1) (logWrite b v) := by
  unfold logWrite
  split
  · split
    · rfl
    · rename_i _ hout
      show v.outstanding = 0
      lia
  · rename_i hfull
    show logSize < v.lh.n + 1
    lia

theorem logWrite_store_meets (b : UInt32) (data : Block) (v : Volume) :
    Meets (fun w => w = (v.store b data).logged b) (LogStops v 1)
      (logWrite b (v.store b data)) :=
  logWrite_meets b (v.store b data)

theorem logSet_logged (v : Volume) (b : UInt32) : (v.logged b).logSet = insert b v.logSet := by
  show (v.lh.record b).entries.toFinset = insert b v.lh.entries.toFinset
  cases Classical.em (b ∈ v.lh.entries) with
  | inl hmem =>
      rw [(LogHeader.record_of_mem hmem).right]
      exact (Finset.insert_eq_of_mem (List.mem_toFinset.mpr hmem)).symm
  | inr hnot =>
      rw [(LogHeader.record_of_not_mem hnot).right.right, List.toFinset_append]
      simp

namespace Logs

variable {v w x : Volume} {W W' : Finset UInt32}

theorem refl (v : Volume) (W : Finset UInt32) : Logs v v W where
  outstanding := rfl
  entries := Finset.Subset.refl _
  only := Finset.subset_union_left
  count := rfl

theorem store (h : Logs v w W) (b : UInt32) (data : Block) : Logs v (w.store b data) W where
  outstanding := h.outstanding
  entries := h.entries
  only := h.only
  count := h.count

theorem logged (h : Logs v w W) {b : UInt32} (hb : b ∈ W) : Logs v (w.logged b) W where
  outstanding := h.outstanding
  entries := by
    rw [logSet_logged]
    exact h.entries.trans (Finset.subset_insert b _)
  only := by
    rw [logSet_logged]
    exact Finset.insert_subset (Finset.mem_union_right _ hb) h.only
  count := by
    have hcount := h.count
    rw [logSet_logged]
    show (w.lh.record b).n + v.logSet.card = v.lh.n + (insert b w.logSet).card
    cases Classical.em (b ∈ w.lh.entries) with
    | inl hmem =>
        have hold : b ∈ w.logSet := List.mem_toFinset.mpr hmem
        rw [(LogHeader.record_of_mem hmem).right, Finset.insert_eq_of_mem hold]
        exact hcount
    | inr hnot =>
        have hnew : Not (b ∈ w.logSet) := fun hmem => hnot (List.mem_toFinset.mp hmem)
        rw [(LogHeader.record_of_not_mem hnot).right.left, Finset.card_insert_of_notMem hnew]
        lia

theorem mono (h : Logs v w W) (hsub : W ⊆ W') : Logs v w W' where
  outstanding := h.outstanding
  entries := h.entries
  only := h.only.trans (Finset.union_subset_union_right hsub)
  count := h.count

theorem trans (h : Logs v w W) (h' : Logs w x W) : Logs v x W where
  outstanding := h'.outstanding.trans h.outstanding
  entries := h.entries.trans h'.entries
  only := h'.only.trans (Finset.union_subset h.only Finset.subset_union_right)
  count := by
    have hfirst := h.count
    have hsecond := h'.count
    lia

/-- What is still to be logged was to be logged before. -/
theorem load (h : Logs v w W) (hsub : W' ⊆ W) : logLoad w W' ≤ logLoad v W := by
  have hcount := h.count
  have hunion : w.logSet ∪ W' ⊆ v.logSet ∪ W :=
    Finset.union_subset h.only (hsub.trans Finset.subset_union_right)
  have hcard := Finset.card_le_card hunion
  have hw := Finset.card_sdiff_add_card W' w.logSet
  have hv := Finset.card_sdiff_add_card W v.logSet
  rw [Finset.union_comm] at hw hv
  unfold logLoad
  lia

theorem stops (h : Logs v w W) (hsub : W' ⊆ W) {e : Stop} (he : LoadStops w W' e) :
    LoadStops v W e := by
  cases e with
  | logFull => exact Nat.le_trans he (h.load hsub)
  | noOperation => exact h.outstanding.symm.trans he
  | _ => cases he

end Logs

theorem LoadStops.of_log {v : Volume} {W : Finset UInt32} {e : Stop} (h : LogStops v 1 e) :
    LoadStops v W e := by
  cases e with
  | logFull =>
      have hfull : logSize < v.lh.n + 1 := h
      show logSize ≤ v.lh.n + _
      lia
  | noOperation => exact h
  | _ => cases h

theorem LoadStops.log {v : Volume} {b : UInt32} {e : Stop} (h : LoadStops v {b} e) :
    LogStops v 2 e := by
  cases e with
  | logFull =>
      have hfull : logSize ≤ v.lh.n + (({b} : Finset UInt32) \ v.logSet).card := h
      have hone := Finset.card_le_card (Finset.sdiff_subset (s := {b}) (t := v.logSet))
      rw [Finset.card_singleton] at hone
      show logSize < v.lh.n + 2
      lia
  | noOperation => exact h
  | _ => cases h

/-!
# Specification of `balloc` and `bfree`
-/

theorem findClear_spec (data : Block) (k bit : Nat) :
    match findClear data k bit with
    | some found => bit ≤ found ∧ found < bit + k ∧ data.bit found = false ∧
        forall j, bit ≤ j -> j < found -> data.bit j = true
    | none => forall j, bit ≤ j -> j < bit + k -> data.bit j = true := by
  induction k generalizing bit with
  | zero =>
      intro j h1 h2
      lia
  | succ k ih =>
      unfold findClear
      cases hbit : data.bit bit with
      | false =>
          refine ⟨Nat.le_refl bit, by lia, hbit, ?_⟩
          intro j h1 h2
          lia
      | true =>
          have hrest := ih (bit + 1)
          simp only [Bool.true_eq_false, if_false]
          cases hfind : findClear data k (bit + 1) with
          | none =>
              rw [hfind] at hrest
              intro j h1 h2
              cases Nat.eq_or_lt_of_le h1 with
              | inl heq =>
                  rw [← heq]
                  exact hbit
              | inr hlt => exact hrest j hlt (by lia)
          | some found =>
              rw [hfind] at hrest
              rcases hrest with ⟨h1, h2, h3, hbelow⟩
              refine ⟨by lia, by lia, h3, ?_⟩
              intro j hj1 hj2
              cases Nat.eq_or_lt_of_le hj1 with
              | inl heq =>
                  rw [← heq]
                  exact hbit
              | inr hlt => exact hbelow j hlt hj2

theorem takeBit_meets (v : Volume) (k : Nat) :
    Meets (fun r => r = (v.sb.dataBlock k, v.take k)) (LoadStops v {v.sb.bmapBlock k})
      (takeBit (v.sb.bmapBlock k) (k % bitsPerBlock) v) := by
  have hnumber : v.sb.bdataStart +
      (v.sb.bmapBlock k - v.sb.bmapStart) * UInt32.ofNat bitsPerBlock +
        UInt32.ofNat (k % bitsPerBlock) = v.sb.dataBlock k := by
    have hsplit : UInt32.ofNat k =
        UInt32.ofNat (k / bitsPerBlock) * UInt32.ofNat bitsPerBlock +
          UInt32.ofNat (k % bitsPerBlock) := by
      rw [← UInt32.ofNat_mul, ← UInt32.ofNat_add, Nat.mul_comm, Nat.div_add_mod]
    unfold Superblock.bmapBlock Superblock.dataBlock
    rw [hsplit]
    grind
  unfold takeBit
  apply Meets.bind ((logWrite_store_meets _ _ _).mono (fun _ hw => hw)
    (fun _ he => LoadStops.of_log he))
  intro w hw
  have hsb : w.sb = v.sb := by
    rw [hw]
    rfl
  have hlogs : Logs v w {v.sb.bmapBlock k} := by
    rw [hw]
    exact ((Logs.refl v _).store _ _).logged (Finset.mem_singleton_self _)
  simp only [hsb, hnumber]
  apply Meets.bind ((logWrite_store_meets _ _ _).mono (fun _ hx => hx)
    (fun _ he => hlogs.stops (Finset.Subset.refl _) (LoadStops.of_log he)))
  intro x hx
  show (_, x) = _
  rw [hx, hw]
  rfl

theorem toNat_round (n : UInt32) :
    (if UInt32.ofNat bitsPerBlock > n then n else UInt32.ofNat bitsPerBlock).toNat =
      min n.toNat bitsPerBlock := by
  have hconst : (UInt32.ofNat bitsPerBlock).toNat = bitsPerBlock := rfl
  split
  · rename_i hlt
    have hlt' : n.toNat < (UInt32.ofNat bitsPerBlock).toNat := hlt
    lia
  · rename_i hge
    have hge' : Not (n.toNat < (UInt32.ofNat bitsPerBlock).toNat) := hge
    lia

theorem bmapBlock_at (sb : Superblock) (i : Nat) {j : Nat} (hj : j < bitsPerBlock) :
    sb.bmapBlock (bitsPerBlock * i + j) = sb.bmapStart + UInt32.ofNat i ∧
      (bitsPerBlock * i + j) % bitsPerBlock = j := by
  have hsize : bitsPerBlock = 4096 := rfl
  have hdiv : (bitsPerBlock * i + j) / bitsPerBlock = i := by lia
  unfold Superblock.bmapBlock
  rw [hdiv]
  exact ⟨rfl, by lia⟩

theorem used_at (v : Volume) (i : Nat) {j : Nat} (hj : j < bitsPerBlock) :
    v.used (bitsPerBlock * i + j) = (v.blk (v.sb.bmapStart + UInt32.ofNat i)).bit j := by
  rcases bmapBlock_at v.sb i hj with ⟨hblock, hmod⟩
  unfold Volume.used
  rw [hblock, hmod]

/-- A scan that finds `m` more bits set in the next bitmap block. -/
theorem used_below {v : Volume} {i m : Nat} (hm : m ≤ bitsPerBlock)
    (hold : forall j, j < v.sb.bits -> j < bitsPerBlock * i -> v.used j = true)
    (hfound : forall j, j < m -> (v.blk (v.sb.bmapStart + UInt32.ofNat i)).bit j = true) (j : Nat)
    (hj : j < v.sb.bits) (hlt : j < bitsPerBlock * i + m) : v.used j = true := by
  cases Nat.lt_or_ge j (bitsPerBlock * i) with
  | inl hbelow => exact hold j hj hbelow
  | inr hge =>
      have hsplit : j = bitsPerBlock * i + (j - bitsPerBlock * i) := by lia
      rw [hsplit, used_at v i (by lia)]
      exact hfound (j - bitsPerBlock * i) (by lia)

theorem freeBits_empty {v : Volume} (h : forall j, j < v.sb.bits -> v.used j = true) :
    v.freeBits = ∅ := by
  apply Finset.filter_eq_empty_iff.mpr
  intro j hj
  rw [h j (Finset.mem_range.mp hj)]
  exact Bool.noConfusion

/-- The loop reaches the first clear bit, or finds all bits set. -/
theorem ballocFrom_meets {v : Volume} {fuel i : Nat} {bmapBits b : UInt32}
    (hfuel : bmapBits.toNat ≤ fuel)
    (hbits : bmapBits.toNat + bitsPerBlock * i = v.sb.bits ∨
      bmapBits.toNat = 0 ∧ v.sb.bits ≤ bitsPerBlock * i)
    (hb : b = v.sb.bmapStart + UInt32.ofNat i)
    (hset : forall j, j < v.sb.bits -> j < bitsPerBlock * i -> v.used j = true) :
    Meets (fun r => exists k, v.FirstFree k ∧ r = (v.sb.dataBlock k, v.take k))
      (AllocStops v) (ballocFrom v fuel bmapBits b) := by
  have hsize : bitsPerBlock = 4096 := rfl
  have hzero : (0 : UInt32).toNat = 0 := rfl
  induction fuel generalizing i bmapBits b with
  | zero => exact freeBits_empty (fun j hj => hset j hj (by lia))
  | succ fuel ih =>
      unfold ballocFrom
      split
      · rename_i hpos
        have hpos' : 0 < bmapBits.toNat := hpos
        have hmin := toNat_round bmapBits
        generalize (if UInt32.ofNat bitsPerBlock > bmapBits then bmapBits
          else UInt32.ofNat bitsPerBlock) = bits at hmin ⊢
        have hspec := findClear_spec (v.blk b) bits.toNat 0
        simp only
        cases hfind : findClear (v.blk b) bits.toNat 0 with
        | some bit =>
            rw [hfind] at hspec
            rcases hspec with ⟨_, hlt, hclear, hbelow⟩
            rcases bmapBlock_at v.sb i (j := bit) (by lia) with ⟨hblock, hmod⟩
            have htake := takeBit_meets v (bitsPerBlock * i + bit)
            rw [hblock, hmod, <- hb] at htake
            rw [hb] at hclear hbelow
            have hfirst : v.FirstFree (bitsPerBlock * i + bit) := by
              refine ⟨by lia, ?_, ?_⟩
              · rw [used_at v i (by lia)]
                exact hclear
              · exact fun j hj => used_below (by lia) hset
                  (fun x hx => hbelow x (Nat.zero_le x) hx) j (by lia) hj
            apply htake.mono
            · exact fun r hr => ⟨_, hfirst, hr⟩
            · intro e he
              cases e with
              | outOfBlocks => cases he
              | _ =>
                  rw [hb, <- hblock] at he
                  exact ⟨_, hfirst, he⟩
        | none =>
            rw [hfind, hb] at hspec
            have hsub : (bmapBits - bits).toNat = bmapBits.toNat - bits.toNat := by
              rw [UInt32.toNat_sub_of_le]
              exact UInt32.le_iff_toNat_le.mpr (by lia)
            apply ih (i := i + 1)
            · lia
            · lia
            · rw [hb, UInt32.ofNat_add]
              grind
            · exact fun j hj _ => used_below (m := bits.toNat) (by lia) hset
                (fun x hx => hspec x (Nat.zero_le x) (by lia)) j hj (by lia)
      · rename_i hnone
        have hle : Not (0 < bmapBits.toNat) := hnone
        exact freeBits_empty (fun j hj => hset j hj (by lia))

/-- `balloc` takes the first free block, clears it and marks it, or there is none. -/
theorem balloc_least {v : Volume} (h : v.sb.Numbered) :
    Meets (fun r => exists k, v.FirstFree k ∧ r = (v.sb.dataBlock k, v.take k))
      (AllocStops v) (balloc v) := by
  have hlt := h.bits_lt
  have height : (8 : UInt32).toNat = 8 := rfl
  have hbits : (v.sb.bmapBytes * 8).toNat = v.sb.bits := by
    unfold Superblock.bits at hlt ⊢
    rw [UInt32.toNat_mul]
    lia
  apply ballocFrom_meets (i := 0) (Nat.le_refl _)
  · left
    lia
  · grind
  · intro j _ hj
    lia

theorem balloc_meets {v : Volume} (h : v.sb.Numbered) :
    Meets (fun r => exists k, k < v.sb.bits ∧ v.used k = false ∧
        r = (v.sb.dataBlock k, v.take k))
      (AllocStops v) (balloc v) := by
  apply (balloc_least h).mono
  · intro r hr
    rcases hr with ⟨k, ⟨hk, hfree, _⟩, hr⟩
    exact ⟨k, hk, hfree, hr⟩
  · exact fun _ he => he

/-- `bfree` clears the bit of a block that is in use. -/
theorem bfree_meets {v : Volume} (h : v.sb.Numbered) {k : Nat} (hk : k < v.sb.bits)
    (hused : v.used k = true) :
    Meets (fun w => w = v.release k) (LogStops v 1) (bfree (v.sb.dataBlock k) v) := by
  have hlt := h.bits_lt
  have hsize : bitsPerBlock = 4096 := rfl
  have hconst : (UInt32.ofNat bitsPerBlock).toNat = bitsPerBlock := rfl
  have hofk : (UInt32.ofNat k).toNat = k := UInt32.toNat_ofNat_of_lt' (by lia)
  have hindex : v.sb.dataBlock k - v.sb.bdataStart = UInt32.ofNat k := by
    unfold Superblock.dataBlock
    grind
  have hblock : v.sb.bmapStart + UInt32.ofNat k / UInt32.ofNat bitsPerBlock = v.sb.bmapBlock k := by
    unfold Superblock.bmapBlock
    congr 1
    apply UInt32.toNat_inj.mp
    rw [UInt32.toNat_div, hofk, hconst]
    exact (UInt32.toNat_ofNat_of_lt' (by lia)).symm
  have hbit : (UInt32.ofNat k % UInt32.ofNat bitsPerBlock).toNat = k % bitsPerBlock := by
    rw [UInt32.toNat_mod, hofk, hconst]
  unfold bfree
  simp only [hindex, hblock, hbit]
  unfold Volume.used at hused
  rw [if_pos hused]
  exact logWrite_store_meets _ _ v

/-!
# The bitmap after a call
-/

namespace Volume

variable {v : Volume}

@[simp] theorem logged_sb (v : Volume) (b : UInt32) : (v.logged b).sb = v.sb := rfl

@[simp] theorem logged_blk (v : Volume) (b : UInt32) : (v.logged b).blk = v.blk := rfl

@[simp] theorem take_sb (v : Volume) (k : Nat) : (v.take k).sb = v.sb := rfl

@[simp] theorem release_sb (v : Volume) (k : Nat) : (v.release k).sb = v.sb := rfl

theorem take_blk_self (v : Volume) (k : Nat) : (v.take k).blk (v.sb.dataBlock k) = Bytes.zero :=
  store_blk_self _ _ _

theorem take_blk_of_ne {k : Nat} {b : UInt32} (hdata : b ≠ v.sb.dataBlock k)
    (hbmap : b ≠ v.sb.bmapBlock k) : (v.take k).blk b = v.blk b :=
  (store_blk_of_ne _ _ hdata).trans (store_blk_of_ne v _ hbmap)

theorem release_blk_of_ne {k : Nat} {b : UInt32} (hbmap : b ≠ v.sb.bmapBlock k) :
    (v.release k).blk b = v.blk b :=
  store_blk_of_ne v _ hbmap

/-- Two bits with the same place in the same bitmap block are one. -/
theorem bmapBlock_mod_inj (h : v.sb.Numbered) {j k : Nat} (hj : j < v.sb.bits)
    (hk : k < v.sb.bits) (hblock : v.sb.bmapBlock j = v.sb.bmapBlock k) :
    k % bitsPerBlock = j % bitsPerBlock <-> k = j := by
  have hnat := congrArg UInt32.toNat hblock
  rw [h.toNat_bmapBlock hj, h.toNat_bmapBlock hk] at hnat
  have hsize : bitsPerBlock = 4096 := rfl
  lia

theorem used_take (h : v.sb.Numbered) {j k : Nat} (hj : j < v.sb.bits) (hk : k < v.sb.bits) :
    (v.take k).used j = (v.used j || decide (k = j)) := by
  have hsize : bitsPerBlock = 4096 := rfl
  unfold used
  have hblk : (v.take k).blk (v.sb.bmapBlock j) =
      if v.sb.bmapBlock j = v.sb.bmapBlock k then
        (v.blk (v.sb.bmapBlock k)).setBit (k % bitsPerBlock)
      else v.blk (v.sb.bmapBlock j) :=
    store_blk_of_ne _ _ (h.bmapBlock_ne_dataBlock hj hk)
  rw [take_sb, hblk]
  split
  · rename_i heq
    have hin : j % bitsPerBlock / 8 < blockSize := by
      unfold blockSize
      lia
    rw [Bytes.bit_setBit _ _ hin, heq]
    congr 1
    rw [decide_eq_decide]
    exact bmapBlock_mod_inj h hj hk heq
  · rename_i hne
    have hkj : k ≠ j := by
      intro heq
      rw [heq] at hne
      exact hne rfl
    rw [decide_eq_false hkj, Bool.or_false]

theorem used_release (h : v.sb.Numbered) {j k : Nat} (hj : j < v.sb.bits)
    (hk : k < v.sb.bits) : (v.release k).used j = (v.used j && !decide (k = j)) := by
  have hsize : bitsPerBlock = 4096 := rfl
  unfold used
  have hblk : (v.release k).blk (v.sb.bmapBlock j) =
      if v.sb.bmapBlock j = v.sb.bmapBlock k then
        (v.blk (v.sb.bmapBlock k)).clearBit (k % bitsPerBlock)
      else v.blk (v.sb.bmapBlock j) := rfl
  rw [release_sb, hblk]
  split
  · rename_i heq
    have hin : j % bitsPerBlock / 8 < blockSize := by
      unfold blockSize
      lia
    rw [Bytes.bit_clearBit _ _ hin, heq]
    congr 2
    rw [decide_eq_decide]
    exact bmapBlock_mod_inj h hj hk heq
  · rename_i hne
    have hkj : k ≠ j := by
      intro heq
      rw [heq] at hne
      exact hne rfl
    rw [decide_eq_false hkj, Bool.not_false, Bool.and_true]

theorem freeBits_take (h : v.sb.Numbered) {k : Nat} (hk : k < v.sb.bits) :
    (v.take k).freeBits = v.freeBits.erase k := by
  ext j
  unfold freeBits
  rw [Finset.mem_filter, Finset.mem_erase, Finset.mem_filter, take_sb, Finset.mem_range]
  constructor
  · intro hj
    rcases hj with ⟨hlt, hfree⟩
    rw [used_take h hlt hk] at hfree
    rcases Bool.or_eq_false_iff.mp hfree with ⟨hold, hne⟩
    exact ⟨fun heq => of_decide_eq_false hne heq.symm, hlt, hold⟩
  · intro hj
    rcases hj with ⟨hne, hlt, hold⟩
    rw [used_take h hlt hk, hold, decide_eq_false (fun heq => hne heq.symm)]
    exact ⟨hlt, rfl⟩

theorem used_congr (h : v.sb.Numbered) {w : Volume} (hsb : w.sb = v.sb)
    (hblk : forall b, v.sb.bmapRegion.Mem b.toNat -> w.blk b = v.blk b) {k : Nat}
    (hk : k < v.sb.bits) : w.used k = v.used k := by
  unfold used
  rw [hsb, hblk _ (h.bmapBlock_mem hk)]

theorem freeBits_congr (h : v.sb.Numbered) {w : Volume} (hsb : w.sb = v.sb)
    (hblk : forall b, v.sb.bmapRegion.Mem b.toNat -> w.blk b = v.blk b) :
    w.freeBits = v.freeBits := by
  unfold freeBits
  rw [hsb]
  apply Finset.filter_congr
  intro k hk
  rw [used_congr h hsb hblk (Finset.mem_range.mp hk)]

end Volume

end Fs
end NicoOS
