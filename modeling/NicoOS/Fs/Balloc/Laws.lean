import NicoOS.Fs.Balloc
import Mathlib.Data.Nat.Count

/-!
# Laws of the block allocator

`balloc` takes the first free block, `bfree` gives a block back, and
`get_free_data_blocks` counts what is left.
-/

namespace NicoOS
namespace Fs

open Lib
open Log (Block LogHeader)

/-!
# Counting the free blocks
-/

def countClear (data : Block) : Nat -> Nat -> UInt32 -> UInt32
  | 0, _, n => n
  | k + 1, bit, n => countClear data k (bit + 1) (if data.bit bit = false then n + 1 else n)

/-- The outer loop of `get_free_data_blocks`; every round takes at least one of the bits. -/
def countFrom (v : Volume) : Nat -> UInt32 -> UInt32 -> UInt32 -> UInt32
  | 0, _, _, n => n
  | fuel + 1, bmapBits, b, n =>
      if bmapBits > 0 then
        let bits :=
          if UInt32.ofNat bitsPerBlock > bmapBits then bmapBits else UInt32.ofNat bitsPerBlock
        countFrom v fuel (bmapBits - bits) (b + 1) (countClear (v.blk b) bits.toNat 0 n)
      else
        n

def getFreeDataBlocks (v : Volume) : UInt32 :=
  let bmapBits := v.sb.bmapBytes * 8
  countFrom v bmapBits.toNat bmapBits v.sb.bmapStart 0

theorem countClear_eq (data : Block) (k bit : Nat) (n : UInt32) :
    countClear data k bit n =
      n + UInt32.ofNat (Nat.count (fun j => data.bit (bit + j) = false) k) := by
  induction k generalizing bit n with
  | zero => exact (UInt32.add_zero n).symm
  | succ k ih =>
      have hshift : (fun j => data.bit (bit + 1 + j) = false) =
          fun j => data.bit (bit + (j + 1)) = false := by
        funext j
        rw [Nat.add_assoc, Nat.add_comm 1 j]
      unfold countClear
      rw [ih, Nat.count_succ', UInt32.ofNat_add]
      simp only [hshift, Nat.add_zero]
      split
      · have hone : UInt32.ofNat 1 = 1 := rfl
        rw [hone, UInt32.add_assoc, UInt32.add_comm 1]
      · have hzero : UInt32.ofNat 0 = 0 := rfl
        rw [hzero, UInt32.add_zero]

theorem count_used {v : Volume} {i n : Nat} (hn : n ≤ bitsPerBlock) :
    Nat.count (fun j => v.used (bitsPerBlock * i + j) = false) n =
      Nat.count (fun j => (v.blk (v.sb.bmapStart + UInt32.ofNat i)).bit (0 + j) = false) n := by
  rw [Nat.count_eq_card_filter_range, Nat.count_eq_card_filter_range]
  congr 1
  apply Finset.filter_congr
  intro j hj
  have hlt := Finset.mem_range.mp hj
  rw [used_at v i (by lia), Nat.zero_add]

/-- A round takes a whole bitmap block, or it is the last one. -/
theorem count_next {v : Volume} {i m rest : Nat} (h : m = bitsPerBlock ∨ rest = 0) :
    Nat.count (fun j => v.used (bitsPerBlock * (i + 1) + j) = false) rest =
      Nat.count (fun j => v.used (bitsPerBlock * i + (m + j)) = false) rest := by
  rcases h with hwhole | hlast
  · have hindex : forall j, bitsPerBlock * (i + 1) + j = bitsPerBlock * i + (m + j) := by
      intro j
      lia
    simp only [hindex]
  · rw [hlast, Nat.count_zero, Nat.count_zero]

theorem countFrom_eq {v : Volume} {fuel i : Nat} {bmapBits b n : UInt32}
    (hfuel : bmapBits.toNat ≤ fuel) (hb : b = v.sb.bmapStart + UInt32.ofNat i) :
    countFrom v fuel bmapBits b n =
      n + UInt32.ofNat
        (Nat.count (fun j => v.used (bitsPerBlock * i + j) = false) bmapBits.toNat) := by
  have hsize : bitsPerBlock = 4096 := rfl
  have hnone : bmapBits.toNat = 0 -> n = n + UInt32.ofNat
      (Nat.count (fun j => v.used (bitsPerBlock * i + j) = false) bmapBits.toNat) := by
    intro hzero
    rw [hzero]
    exact (UInt32.add_zero n).symm
  induction fuel generalizing i bmapBits b n with
  | zero => exact hnone (by lia)
  | succ fuel ih =>
      unfold countFrom
      split
      · rename_i hpos
        have hpos' : 0 < bmapBits.toNat := hpos
        have hmin := toNat_round bmapBits
        generalize (if UInt32.ofNat bitsPerBlock > bmapBits then bmapBits
          else UInt32.ofNat bitsPerBlock) = bits at hmin ⊢
        have hsub : (bmapBits - bits).toNat = bmapBits.toNat - bits.toNat := by
          rw [UInt32.toNat_sub_of_le]
          exact UInt32.le_iff_toNat_le.mpr (by lia)
        have hsplit : bmapBits.toNat = bits.toNat + (bmapBits - bits).toNat := by lia
        have hone : UInt32.ofNat 1 = 1 := rfl
        have hnext : b + 1 = v.sb.bmapStart + UInt32.ofNat (i + 1) := by
          rw [hb, UInt32.ofNat_add, UInt32.add_assoc, hone]
        simp only
        rw [countClear_eq, ih (i := i + 1) (by lia) hnext]
        · have htotal :
              Nat.count (fun j => v.used (bitsPerBlock * i + j) = false) bmapBits.toNat =
                Nat.count (fun j => (v.blk b).bit (0 + j) = false) bits.toNat +
                  Nat.count (fun j => v.used (bitsPerBlock * (i + 1) + j) = false)
                    (bmapBits - bits).toNat := by
            rw [hsplit, Nat.count_add, count_used (by lia), hb,
              count_next (m := bits.toNat) (by lia)]
          rw [UInt32.add_assoc, <- UInt32.ofNat_add, htotal]
        · intro hzero
          rw [hzero]
          exact (UInt32.add_zero _).symm
      · rename_i hzero
        have hle : Not (0 < bmapBits.toNat) := hzero
        exact hnone (by lia)

/-- The function counts the clear bits of the bitmap. -/
theorem toNat_getFreeDataBlocks {v : Volume} (h : v.sb.Numbered) :
    (getFreeDataBlocks v).toNat = v.freeBits.card := by
  have hlt := h.bits_lt
  have height : (8 : UInt32).toNat = 8 := rfl
  have hbits : (v.sb.bmapBytes * 8).toNat = v.sb.bits := by
    unfold Superblock.bits at hlt ⊢
    rw [UInt32.toNat_mul]
    lia
  have hstart : v.sb.bmapStart = v.sb.bmapStart + UInt32.ofNat 0 := (UInt32.add_zero _).symm
  have hcount : Nat.count (fun j => v.used (bitsPerBlock * 0 + j) = false) v.sb.bits =
      v.freeBits.card := by
    rw [Nat.count_eq_card_filter_range]
    unfold Volume.freeBits
    simp only [Nat.mul_zero, Nat.zero_add]
  have hcard : v.freeBits.card ≤ v.sb.bits := by
    rw [<- hcount]
    exact Nat.count_le _
  unfold getFreeDataBlocks
  simp only
  rw [countFrom_eq (Nat.le_refl _) hstart, hbits, hcount, UInt32.zero_add]
  exact UInt32.toNat_ofNat_of_lt' (by lia)

/-!
# The laws
-/

/-- `balloc` took bit `k`. -/
structure Allocated (v : Volume) (k : Nat) (w : Volume) : Prop where
  clear : v.used k = false
  least : forall j, j < k -> v.used j = true
  sets : forall bit, bit < bitsPerBlock -> (w.blk (v.sb.bmapBlock k)).bit bit =
    ((v.blk (v.sb.bmapBlock k)).bit bit || decide (k % bitsPerBlock = bit))
  zeroes : w.blk (v.sb.dataBlock k) = Bytes.zero
  others : forall c, c ≠ v.sb.bmapBlock k -> c ≠ v.sb.dataBlock k -> w.blk c = v.blk c
  counts : (getFreeDataBlocks w).toNat + 1 = (getFreeDataBlocks v).toNat

/-- `bfree` cleared bit `k`. -/
structure Released (v : Volume) (k : Nat) (w : Volume) : Prop where
  clears : forall bit, bit < bitsPerBlock -> (w.blk (v.sb.bmapBlock k)).bit bit =
    ((v.blk (v.sb.bmapBlock k)).bit bit && !decide (k % bitsPerBlock = bit))
  others : forall c, c ≠ v.sb.bmapBlock k -> w.blk c = v.blk c
  counts : (getFreeDataBlocks w).toNat = (getFreeDataBlocks v).toNat + 1

section Laws

variable {v : Volume} {k : Nat}

theorem bit_in_block {bit : Nat} (h : bit < bitsPerBlock) : bit / 8 < blockSize := by
  have hbits : bitsPerBlock = 8 * blockSize := rfl
  lia

theorem take_allocated (h : v.sb.Numbered) (hk : k < v.sb.bits) (hclear : v.used k = false)
    (hleast : forall j, j < k -> v.used j = true) : Allocated v k (v.take k) := by
  have hbmap : (v.take k).blk (v.sb.bmapBlock k) =
      (v.blk (v.sb.bmapBlock k)).setBit (k % bitsPerBlock) :=
    (Volume.store_blk_of_ne _ _ (h.bmapBlock_ne_dataBlock hk hk)).trans
      (Volume.store_blk_self v _ _)
  constructor
  · exact hclear
  · exact hleast
  · intro bit hbit
    rw [hbmap]
    exact Bytes.bit_setBit _ _ (bit_in_block hbit)
  · exact Volume.take_blk_self v k
  · exact fun c hc hdata => Volume.take_blk_of_ne hdata hc
  · have hmem : k ∈ v.freeBits := Finset.mem_filter.mpr ⟨Finset.mem_range.mpr hk, hclear⟩
    rw [toNat_getFreeDataBlocks h, toNat_getFreeDataBlocks (v := v.take k) h,
      Volume.freeBits_take h hk, Finset.card_erase_add_one hmem]

theorem freeBits_release (h : v.sb.Numbered) (hk : k < v.sb.bits) :
    (v.release k).freeBits = insert k v.freeBits := by
  ext j
  unfold Volume.freeBits
  rw [Finset.mem_filter, Finset.mem_insert, Finset.mem_filter, Volume.release_sb, Finset.mem_range]
  constructor
  · intro hboth
    rcases hboth with ⟨hlt, hfree⟩
    rw [Volume.used_release h hlt hk] at hfree
    by_cases hkj : k = j
    · exact Or.inl hkj.symm
    · rw [decide_eq_false hkj, Bool.not_false, Bool.and_true] at hfree
      exact Or.inr ⟨hlt, hfree⟩
  · intro hor
    rcases hor with rfl | ⟨hlt, hfree⟩
    · rw [Volume.used_release h hk hk, decide_eq_true rfl, Bool.not_true, Bool.and_false]
      exact ⟨hk, rfl⟩
    · rw [Volume.used_release h hlt hk, hfree]
      exact ⟨hlt, rfl⟩

theorem release_released (h : v.sb.Numbered) (hk : k < v.sb.bits) (hused : v.used k = true) :
    Released v k (v.release k) := by
  have hbmap : (v.release k).blk (v.sb.bmapBlock k) =
      (v.blk (v.sb.bmapBlock k)).clearBit (k % bitsPerBlock) :=
    Volume.store_blk_self v _ _
  constructor
  · intro bit hbit
    rw [hbmap]
    exact Bytes.bit_clearBit _ _ (bit_in_block hbit)
  · exact fun c hc => Volume.release_blk_of_ne hc
  · have hnot : Not (k ∈ v.freeBits) := by
      intro hmem
      have hfree := (Finset.mem_filter.mp hmem).right
      rw [hused] at hfree
      cases hfree
    rw [toNat_getFreeDataBlocks h, toNat_getFreeDataBlocks (v := v.release k) h,
      freeBits_release h hk, Finset.card_insert_of_notMem hnot]

/-- What `bfree` gives back is what `balloc` has taken. -/
theorem release_take (h : v.sb.Numbered) (hk : k < v.sb.bits) (hclear : v.used k = false)
    {c : UInt32} (hc : c ≠ v.sb.dataBlock k) : ((v.take k).release k).blk c = v.blk c := by
  by_cases hbmap : c = v.sb.bmapBlock k
  · have htaken : (v.take k).blk (v.sb.bmapBlock k) =
        (v.blk (v.sb.bmapBlock k)).setBit (k % bitsPerBlock) :=
      (Volume.store_blk_of_ne _ _ (h.bmapBlock_ne_dataBlock hk hk)).trans
        (Volume.store_blk_self v _ _)
    have hgiven : ((v.take k).release k).blk (v.sb.bmapBlock k) =
        ((v.take k).blk (v.sb.bmapBlock k)).clearBit (k % bitsPerBlock) :=
      Volume.store_blk_self _ _ _
    rw [hbmap, hgiven, htaken]
    exact Bytes.clearBit_setBit hclear
  · have hsame : ((v.take k).release k).blk c = (v.take k).blk c :=
      Volume.release_blk_of_ne hbmap
    rw [hsame, Volume.take_blk_of_ne hc hbmap]

end Laws

/--
`balloc` takes the first free block or there is none, `bfree` clears one bit, and
`bfree` of what `balloc` returned restores the bitmap.  Besides, a call stops only
where `log_write` does.
-/
theorem block_allocator_laws (v : Volume) (h : v.sb.Numbered) :
    Meets
      (fun r => exists k, k < v.sb.bits ∧ r.1.toNat = v.sb.bdataStart.toNat + k ∧
        Allocated v k r.2 ∧
        Meets (fun w => forall c, c ≠ r.1 -> w.blk c = v.blk c) (LogStops r.2 1) (bfree r.1 r.2))
      (fun e => (e = Stop.outOfBlocks ∧ forall k, k < v.sb.bits -> v.used k = true) ∨
        LogStops v 2 e)
      (balloc v) ∧
    forall k, k < v.sb.bits -> v.used k = true ->
      Meets (fun w => Released v k w) (LogStops v 1) (bfree (v.sb.dataBlock k) v) := by
  constructor
  · apply (balloc_least h).mono
    · intro r hr
      rcases hr with ⟨k, ⟨hk, hclear, hleast⟩, hr⟩
      cases hr
      refine ⟨k, hk, h.toNat_dataBlock hk, take_allocated h hk hclear hleast, ?_⟩
      have hused : (v.take k).used k = true := by
        rw [Volume.used_take h hk hk, decide_eq_true rfl, Bool.or_true]
      apply (bfree_meets (v := v.take k) h hk hused).mono
      · intro w hw c hc
        rw [hw]
        exact release_take h hk hclear hc
      · exact fun _ he => he
    · intro e he
      cases e with
      | outOfBlocks =>
          left
          refine ⟨rfl, ?_⟩
          intro k hk
          have hnone : v.freeBits = ∅ := he
          cases hused : v.used k with
          | true => rfl
          | false =>
              have hmem : k ∈ v.freeBits := Finset.mem_filter.mpr ⟨Finset.mem_range.mpr hk, hused⟩
              rw [hnone] at hmem
              cases hmem
      | _ =>
          rcases he with ⟨k, _, he⟩
          exact Or.inr he.log
  · intro k hk hused
    apply (bfree_meets h hk hused).mono
    · intro w hw
      rw [hw]
      exact release_released h hk hused
    · exact fun _ he => he

/-- A volume of zeroes in an operation, with a bitmap of the given size at the given place. -/
def blankVolume (bmapBytes bmapStart bdataStart : UInt32) : Volume where
  sb :=
    { magic := superBlockMagic
      size := 200
      nblocks := 8
      ninodes := 0
      inodeStart := 2
      nlog := 0
      logStart := 2
      bmapStart := bmapStart
      bmapBytes := bmapBytes
      bdataStart := bdataStart }
  blk := fun _ => Bytes.zero
  lh := { n := 0, blocks := fun _ => 0 }
  outstanding := 1

theorem block_allocator_laws_blank :
    exists r, balloc (blankVolume 1 10 20) = Except.ok r ∧
      exists k, k < 8 ∧ r.1.toNat = 20 + k ∧ Allocated (blankVolume 1 10 20) k r.2 := by
  have hlaws := (block_allocator_laws (blankVolume 1 10 20)
    ⟨by decide, by decide, by decide⟩).left
  rcases hlaws.ok (by
    intro e hor
    rcases hor with ⟨-, hall⟩ | hstop
    · have hfree : (blankVolume 1 10 20).used 0 = false := Bytes.bit_zero _
      have hused := hall 0 (by decide)
      rw [hfree] at hused
      cases hused
    · cases e with
      | logFull =>
          have hfull : logSize < 2 := hstop
          exact absurd hfull (by decide)
      | noOperation => cases hstop
      | _ => exact hstop) with ⟨r, hrun, k, hk, hnumber, hallocated, -⟩
  exact ⟨r, hrun, k, hk, hnumber, hallocated⟩

/--
With `2^29` bytes the number of bits is 0 modulo `2^32`, and where the bitmap lies
among the data blocks, the cleared block may be the bitmap itself.
-/
theorem balloc_wraps_and_overlaps :
    (0 < (blankVolume 0x20000000 10 20).sb.bits ∧ (blankVolume 0x20000000 10 20).used 0 = false ∧
      balloc (blankVolume 0x20000000 10 20) = Except.error Stop.outOfBlocks) ∧
    exists w, balloc (blankVolume 1 100 100) = Except.ok (100, w) ∧ w.used 0 = false := by
  refine ⟨⟨by decide, Bytes.bit_zero _, rfl⟩, (blankVolume 1 100 100).take 0, rfl, ?_⟩
  have hblock : ((blankVolume 1 100 100).take 0).blk 100 = Bytes.zero :=
    Volume.take_blk_self (blankVolume 1 100 100) 0
  show Bytes.bit (((blankVolume 1 100 100).take 0).blk 100) 0 = false
  rw [hblock]
  exact Bytes.bit_zero 0

end Fs
end NicoOS
