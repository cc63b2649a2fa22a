import NicoOS.Fs.Inode.Mapping
import Mathlib.Order.Interval.Finset.Nat

/-!
# Contents of files

What the loops of `inode_read` and `inode_write` do to the bytes of a file, block
by block.
-/

namespace NicoOS
namespace Fs
namespace Inode

open Lib
open Log (Block LogHeader)

def byteAt (v : Volume) (d : Dinode) (i : Nat) : UInt8 :=
  (v.blk (blockOf v d (i / blockSize))).mem (i % blockSize)

def contents (v : Volume) (d : Dinode) : List UInt8 :=
  (List.range d.size.toNat).map (byteAt v d)

/-- No block below the size is missing, and the size is one that a file can have. -/
structure Filled (v : Volume) (d : Dinode) : Prop where
  mapped : forall bn, bn * blockSize < d.size.toNat -> blockOf v d bn ≠ 0
  bounded : d.size.toNat ≤ maxDataBlocks * blockSize

/-- The number of blocks that a range of bytes meets. -/
def touched (offset len : Nat) : Nat :=
  if len = 0 then 0 else (offset + len - 1) / blockSize - offset / blockSize + 1

/-- The number of blocks from the start of the file to the end of a range. -/
def lastBlock (offset len : Nat) : Nat := roundUp (offset + len) blockSize

/-- The blocks of a file from `lo` up to `hi` that exist. -/
def fileBlocks (v : Volume) (d : Dinode) (lo hi : Nat) : Finset UInt32 :=
  ((Finset.Ico lo hi).image (blockOf v d)).erase 0

/-- The bytes of a range were stored, and all others were kept. -/
structure Spliced (v : Volume) (d : Dinode) (w : Volume) (e : Dinode) (offset len : Nat)
    (src : Memory) : Prop where
  kept : forall bn, blockOf v d bn ≠ 0 -> blockOf w e bn = blockOf v d bn
  outside : forall i, blockOf v d (i / blockSize) ≠ 0 -> i < offset ∨ offset + len ≤ i ->
    byteAt w e i = byteAt v d i
  inside : forall i, offset ≤ i -> i < offset + len ->
    blockOf w e (i / blockSize) ≠ 0 ∧ byteAt w e i = src (i - offset)

theorem Spliced.refl (v : Volume) (d : Dinode) (offset : Nat) (src : Memory) :
    Spliced v d v d offset 0 src where
  kept := fun _ _ => rfl
  outside := fun _ _ _ => rfl
  inside := by
    intro i h1 h2
    lia

theorem Spliced.trans {v w x : Volume} {d e f : Dinode} {offset m len : Nat} {src : Memory}
    (h1 : Spliced v d w e offset m src)
    (h2 : Spliced w e x f (offset + m) len (fun i => src (m + i))) :
    Spliced v d x f offset (m + len) src where
  kept := by
    intro bn hne
    have hw := h1.kept bn hne
    rw [h2.kept bn (by rw [hw]; exact hne), hw]
  outside := by
    intro i hne hi
    have hw := h1.kept _ hne
    rw [h2.outside i (by rw [hw]; exact hne) (by lia), h1.outside i hne (by lia)]
  inside := by
    intro i hlo hhi
    cases Nat.lt_or_ge i (offset + m) with
    | inl hlt =>
        rcases h1.inside i hlo hlt with ⟨hne, hbyte⟩
        rw [h2.kept _ hne, h2.outside i hne (Or.inl hlt)]
        exact And.intro hne hbyte
    | inr hge =>
        rcases h2.inside i hge (by lia) with ⟨hne, hbyte⟩
        have hindex : m + (i - (offset + m)) = i - offset := by lia
        rw [hindex] at hbyte
        exact And.intro hne hbyte

/-!
# One round
-/

theorem toNat_roundLength {n total : UInt32} (offset : UInt32) (h : total.toNat ≤ n.toNat) :
    (roundLength n total offset).toNat =
      min (blockSize - offset.toNat % blockSize) (n.toNat - total.toNat) := by
  have hsize : blockSize = 512 := rfl
  have hconst : (UInt32.ofNat blockSize).toNat = 512 := rfl
  have hsub : (n - total).toNat = n.toNat - total.toNat := by
    apply UInt32.toNat_sub_of_le
    exact UInt32.le_iff_toNat_le.mpr h
  have hmod : (offset % UInt32.ofNat blockSize).toNat = offset.toNat % 512 := by
    rw [UInt32.toNat_mod, hconst]
  have hrest : (UInt32.ofNat blockSize - offset % UInt32.ofNat blockSize).toNat =
      512 - offset.toNat % 512 := by
    rw [UInt32.toNat_sub_of_le]
    · rw [hconst, hmod]
    · apply UInt32.le_iff_toNat_le.mpr
      rw [hconst, hmod]
      lia
  unfold roundLength
  simp only
  split
  · rename_i hlt
    have hlt' : (n - total).toNat <
      (UInt32.ofNat blockSize - offset % UInt32.ofNat blockSize).toNat := hlt
    lia
  · rename_i hge
    have hge' : Not ((n - total).toNat <
      (UInt32.ofNat blockSize - offset % UInt32.ofNat blockSize).toNat) := hge
    lia

section Store

variable {v : Volume} {T : Table} {inum : UInt32} {d : Dinode}

/-- A store to a block of the file changes no address. -/
theorem Held.slotAddr_storeData (h : Held v T inum d) {bn : Nat} (hbn : blockOf v d bn ≠ 0)
    (data : Block) (s : Slot) :
    slotAddr ((v.store (blockOf v d bn) data).logged (blockOf v d bn)) d s =
      slotAddr v d s := by
  apply slotAddr_congr
  intro hind
  apply Volume.store_blk_of_ne
  intro heq
  exact slotOf_ne_indirect bn
    (h.slot_inj (s := slotOf bn) (t := Slot.addr ndirectDataBlocks) heq.symm hbn)

theorem Held.storeData (h : Held v T inum d) {bn : Nat} (hbn : blockOf v d bn ≠ 0)
    (data : Block) :
    Moved v T inum d ((v.store (blockOf v d bn) data).logged (blockOf v d bn)) d := by
  have hdata := (h.inUse hbn).mem_data h.laidOut
  have hc : Confined v ((v.store (blockOf v d bn) data).logged (blockOf v d bn)) d :=
    fun b _ hne => Volume.store_blk_of_ne v data (hne (slotOf bn))
  exact
    { sb := rfl
      owned := by
        apply Exact.congr h.owned
        · intro p
          rcases p with ⟨j, s⟩
          cases Classical.em (j = inum) with
          | inl heq =>
              rw [heq, h.refAddr_self (by rfl) rfl, h.refAddr_self rfl rfl]
              exact h.slotAddr_storeData hbn data s
          | inr hne => exact h.refAddr_others (by rfl) hc hne
        · exact inUse_logged_store h.laidOut data hdata
      fields := rfl
      others := fun _ hj hne => h.keeps_others hc hj hne
      inodes := fun _ hb => inodes_logged_store h.laidOut data hdata hb }

/-- The volume after a round of `inode_write` at the mapped block. -/
def roundStored (v : Volume) (d : Dinode) (offset m : Nat) (src : Memory) : Volume :=
  let addr := blockOf v d (offset / blockSize)
  (v.store addr ((v.blk addr).copyIn (offset % blockSize) m src)).logged addr

theorem Held.spliced_round (h : Held v T inum d) {offset m : Nat}
    (hbn : blockOf v d (offset / blockSize) ≠ 0) (hm : m ≤ blockSize - offset % blockSize)
    (src : Memory) : Spliced v d (roundStored v d offset m src) d offset m src := by
  have hsize : blockSize = 512 := rfl
  have hkept : forall bn, blockOf (roundStored v d offset m src) d bn = blockOf v d bn :=
    fun bn => h.slotAddr_storeData hbn _ (slotOf bn)
  have hsame : forall i, i / blockSize = offset / blockSize ->
      byteAt (roundStored v d offset m src) d i =
        ((v.blk (blockOf v d (offset / blockSize))).copyIn (offset % blockSize) m src).mem
          (i % blockSize) := by
    intro i hi
    rw [byteAt, hkept, hi, roundStored, Volume.logged_blk, Volume.store_blk_self]
  constructor
  · exact fun bn _ => hkept bn
  · intro i hne hi
    cases Classical.em (i / blockSize = offset / blockSize) with
    | inl heq =>
        rw [hsame i heq, byteAt, heq]
        apply Bytes.mem_copyIn_outside
        lia
    | inr hdiff =>
        rw [byteAt, byteAt, hkept, roundStored, Volume.logged_blk, Volume.store_blk_of_ne]
        intro heq
        exact hdiff (slotOf_inj (h.slot_inj (s := slotOf (i / blockSize)) heq hne))
  · intro i hlo hhi
    have hdiv : i / blockSize = offset / blockSize := by lia
    have hmod : i % blockSize - offset % blockSize = i - offset := by lia
    constructor
    · rw [hkept, hdiv]
      exact hbn
    · rw [hsame i hdiv, Bytes.mem_copyIn_inside _ _ (by lia) (by lia) (by lia), hmod]

theorem charged_round (h : Held v T inum d) {offset m : Nat} (last : Nat)
    (hbn : blockOf v d (offset / blockSize) ≠ 0) (src : Memory) {W : Finset UInt32}
    (hW : blockOf v d (offset / blockSize) ∈ W) :
    Charged v d (roundStored v d offset m src) d last W := by
  have hdata := (h.inUse hbn).mem_data h.laidOut
  have hkept : forall s, slotAddr (roundStored v d offset m src) d s = slotAddr v d s :=
    h.slotAddr_storeData hbn _
  have hblocks : forall bn, blockOf (roundStored v d offset m src) d bn = blockOf v d bn :=
    fun bn => hkept (slotOf bn)
  have hmissing : missing (roundStored v d offset m src) d last = missing v d last := by
    unfold missing
    simp only [hblocks]
  have hbits : (roundStored v d offset m src).freeBits = v.freeBits := by
    apply Volume.freeBits_congr h.laidOut.numbered
    · rfl
    · intro c hc
      apply Volume.store_blk_of_ne
      intro heq
      rw [heq] at hc
      exact h.laidOut.bmap_apart_data.not_mem hc hdata
  have htaken : takenBlocks (roundStored v d offset m src) (missing v d last) =
      takenBlocks v (missing v d last) := takenBlocks_congr rfl hbits
  have hmaps : mapBlocks (roundStored v d offset m src) d last = mapBlocks v d last := by
    unfold mapBlocks entryBlocks
    simp only [hblocks]
    rw [hmissing, htaken]
  exact
    { free := by rw [hbits, hmissing]
      shrinks := Nat.le_of_eq hmissing
      same := fun _ => rfl
      logs := ((Logs.refl v W).store _ _).logged hW
      maps := by rw [hmaps]
      blocks := fun bn => Or.inl (hblocks bn) }

end Store

/-!
# The loop of `inode_write`
-/

/-- What the loop leaves that writes up to block `last`. -/
def WritePost (v : Volume) (T : Table) (inum : UInt32) (d : Dinode) (last offset len : Nat)
    (src : Memory) (r : UInt32 × Dinode × Volume) : Prop :=
  r.1.toNat = offset + len ∧ Moved v T inum d r.2.2 r.2.1 ∧
    Spliced v d r.2.2 r.2.1 offset len src ∧
    Charged v d r.2.2 r.2.1 last (mapBlocks v d last ∪ fileBlocks v d (offset / blockSize) last)

theorem mem_fileBlocks {v : Volume} {d : Dinode} {lo hi bn : Nat} (hlo : lo ≤ bn) (hhi : bn < hi)
    (hne : blockOf v d bn ≠ 0) : blockOf v d bn ∈ fileBlocks v d lo hi :=
  Finset.mem_erase.mpr ⟨hne, Finset.mem_image_of_mem _ (Finset.mem_Ico.mpr ⟨hlo, hhi⟩)⟩

theorem Charged.fileBlocks_subset {v w : Volume} {d e : Dinode} {last lo hi lo' : Nat}
    {W : Finset UInt32} (h : Charged v d w e last W) (hlo : lo ≤ lo') :
    mapBlocks w e last ∪ fileBlocks w e lo' hi ⊆ mapBlocks v d last ∪ fileBlocks v d lo hi := by
  apply Finset.union_subset (h.maps.trans Finset.subset_union_left)
  intro b hb
  rcases Finset.mem_erase.mp hb with ⟨hne, himage⟩
  rcases Finset.mem_image.mp himage with ⟨bn, hbn, heq⟩
  rcases Finset.mem_Ico.mp hbn with ⟨hge, hlt⟩
  rcases h.blocks bn with hsame | hnew
  · apply Finset.mem_union_right
    rw [<- heq, hsame]
    apply mem_fileBlocks (Nat.le_trans hlo hge) hlt
    rw [<- hsame, heq]
    exact hne
  · rw [heq] at hnew
    exact Finset.mem_union_left _ hnew

theorem Spliced.of_mapped {v w x : Volume} {T : Table} {inum : UInt32} {d e f : Dinode}
    {offset len : Nat} {src : Memory} (hm : Mapped v T inum d w e)
    (h : Spliced w e x f offset len src) : Spliced v d x f offset len src where
  kept := by
    intro bn hne
    rcases hm.own bn hne with ⟨haddr, _⟩
    rw [h.kept bn (by rw [haddr]; exact hne), haddr]
  outside := by
    intro i hne hi
    rcases hm.own _ hne with ⟨haddr, hblk⟩
    rw [h.outside i (by rw [haddr]; exact hne) hi, byteAt, byteAt, haddr, hblk]
  inside := h.inside

def RoundPost (v : Volume) (T : Table) (inum : UInt32) (d : Dinode) (last offset m : Nat)
    (src : Memory) (r : Dinode × Volume) : Prop :=
  Moved v T inum d r.2 r.1 ∧ Spliced v d r.2 r.1 offset m src ∧
    Charged v d r.2 r.1 last
      (mapBlocks v d last ∪ fileBlocks v d (offset / blockSize) (offset / blockSize + 1))

theorem writeRound_meets {v : Volume} {T : Table} {inum : UInt32} {d : Dinode}
    (h : Held v T inum d) (last : Nat) (m offset : UInt32) (src : Memory)
    (hlt : offset.toNat / blockSize < maxDataBlocks) (hlast : offset.toNat / blockSize < last)
    (hm : m.toNat ≤ blockSize - offset.toNat % blockSize) :
    Meets (RoundPost v T inum d last offset.toNat m.toNat src)
      (FileStops v d last (mapBlocks v d last)) (writeRound src m offset d v) := by
  have hconst : (UInt32.ofNat blockSize).toNat = blockSize := rfl
  have hbn : (offset / UInt32.ofNat blockSize).toNat = offset.toNat / blockSize := by
    rw [UInt32.toNat_div, hconst]
  have hat : (offset % UInt32.ofNat blockSize).toNat = offset.toNat % blockSize := by
    rw [UInt32.toNat_mod, hconst]
  have hmap := bmap_meets h (offset / UInt32.ofNat blockSize)
    (by rw [hbn]; exact hlt) (by rw [hbn]; exact hlast)
  rw [hbn] at hmap
  unfold writeRound
  apply Meets.bind hmap
  intro r hr
  rcases r with ⟨addr, e, w⟩
  rcases hr with ⟨hmap, haddr, hne, hcharged⟩
  have haddr' : addr = blockOf w e (offset.toNat / blockSize) := haddr
  have hheld := h.moved hmap.toMoved
  rw [haddr'] at hne
  have hfirst : Charged v d w e last (mapBlocks v d last ∪
      fileBlocks v d (offset.toNat / blockSize) (offset.toNat / blockSize + 1)) :=
    hcharged.mono Finset.subset_union_left
  have hin : blockOf w e (offset.toNat / blockSize) ∈ mapBlocks v d last ∪
      fileBlocks v d (offset.toNat / blockSize) (offset.toNat / blockSize + 1) :=
    hcharged.fileBlocks_subset (Nat.le_refl _)
      (Finset.mem_union_right _ (mem_fileBlocks (Nat.le_refl _) (Nat.lt_succ_self _) hne))
  simp only [hat, haddr']
  apply Meets.bind ((logWrite_store_meets _ _ w).mono (fun _ hx => hx)
    (fun _ he => FileStops.back (Finset.Subset.refl _) hcharged (FileStops.of_log he)))
  intro x hx
  have hx' : x = roundStored w e offset.toNat m.toNat src := hx
  rw [hx']
  exact ⟨hmap.toMoved.trans (hheld.storeData hne _),
    Spliced.of_mapped hmap (hheld.spliced_round hne hm src),
    hfirst.trans (charged_round hheld last hne src hin)⟩

theorem fileBlocks_mono {v : Volume} {d : Dinode} {lo hi hi' : Nat} (h : hi ≤ hi') :
    fileBlocks v d lo hi ⊆ fileBlocks v d lo hi' :=
  Finset.erase_subset_erase _
    (Finset.image_subset_image (Finset.Ico_subset_Ico (Nat.le_refl lo) h))

theorem union_fileBlocks_mono {v : Volume} {d : Dinode} {W : Finset UInt32} {lo hi hi' : Nat}
    (h : hi ≤ hi') : W ∪ fileBlocks v d lo hi ⊆ W ∪ fileBlocks v d lo hi' :=
  Finset.union_subset_union_right (fileBlocks_mono h)

theorem card_fileBlocks_le (v : Volume) (d : Dinode) (lo hi : Nat) :
    (fileBlocks v d lo hi).card ≤ hi - lo := by
  have himage := Finset.card_image_le (f := blockOf v d) (s := Finset.Ico lo hi)
  rw [Nat.card_Ico] at himage
  exact (Finset.card_erase_le).trans himage

/--
The loop stops only with bytes left to write; `hi` leaves out the last block at most, whose
`log_write` is the last one.
-/
theorem writeFrom_meets {v : Volume} {T : Table} {inum : UInt32} {d : Dinode}
    (h : Held v T inum d) (last hi fuel : Nat) (n total offset : UInt32) (src : Memory)
    (hle : total.toNat ≤ n.toNat) (hfuel : n.toNat - total.toNat ≤ fuel)
    (hmax : offset.toNat + (n.toNat - total.toNat) ≤ maxDataBlocks * blockSize)
    (hlast : offset.toNat + (n.toNat - total.toNat) ≤ last * blockSize) (hhi : last ≤ hi + 1) :
    Meets (WritePost v T inum d last offset.toNat (n.toNat - total.toNat) src)
      (fun stop => total.toNat < n.toNat ∧ FileStops v d last
        (mapBlocks v d last ∪ fileBlocks v d (offset.toNat / blockSize) hi) stop)
      (writeFrom n fuel src total offset d v) := by
  have hsize : blockSize = 512 := rfl
  have hblocks : maxDataBlocks = 139 := rfl
  induction fuel generalizing v d total offset src with
  | zero =>
      have hzero : n.toNat - total.toNat = 0 := by lia
      rw [hzero]
      exact ⟨rfl, Moved.refl h.owned, Spliced.refl v d _ src, Charged.refl v d last _⟩
  | succ fuel ih =>
      unfold writeFrom
      split
      · rename_i hlt
        have hlt' : total.toNat < n.toNat := hlt
        have hmlen := toNat_roundLength offset hle
        generalize roundLength n total offset = m at hmlen ⊢
        have htotal : (total + m).toNat = total.toNat + m.toNat := by
          rw [UInt32.toNat_add]
          have hn := n.toNat_lt
          lia
        have hoffset : (offset + m).toNat = offset.toNat + m.toNat := by
          rw [UInt32.toNat_add]
          lia
        have hrest : n.toNat - (total + m).toNat = n.toNat - total.toNat - m.toNat := by lia
        have hround := writeRound_meets h last m offset src (by lia)
          (by lia) (by lia)
        apply Meets.bind (hround.mono (fun _ hr => hr)
          (fun _ he => ⟨hlt', FileStops.mono Finset.subset_union_left he⟩))
        intro r hr
        rcases r with ⟨e, w⟩
        rcases hr with ⟨hmoved, hspliced, hcharged⟩
        have hnext := ih (h.moved hmoved) (total + m) (offset + m)
          (fun i => src (m.toNat + i)) (by lia) (by lia) (by lia) (by lia)
        rw [hoffset, hrest] at hnext
        have hdiv : offset.toNat / blockSize ≤ (offset.toNat + m.toNat) / blockSize := by lia
        have hwide : offset.toNat / blockSize < last := by lia
        apply hnext.mono
        · intro r hr
          rcases hr with ⟨hend, hmoved', hspliced', hcharged'⟩
          have hjoin := hspliced.trans hspliced'
          have hlen : m.toNat + (n.toNat - total.toNat - m.toNat) = n.toNat - total.toNat := by
            lia
          rw [hlen] at hjoin
          refine ⟨by lia, hmoved.trans hmoved', hjoin, ?_⟩
          exact (hcharged.mono (union_fileBlocks_mono hwide)).trans
            (hcharged'.mono (hcharged.fileBlocks_subset hdiv))
        · intro stop hstop
          rcases hstop with ⟨hleft, hstop⟩
          -- There is another block, so this one is below `hi`.
          have hbelow : offset.toNat / blockSize + 1 ≤ hi := by lia
          exact ⟨hlt', FileStops.back (hcharged.fileBlocks_subset hdiv)
            (hcharged.mono (union_fileBlocks_mono hbelow)) hstop⟩
      · rename_i hge
        have hge' : Not (total.toNat < n.toNat) := hge
        have hzero : n.toNat - total.toNat = 0 := by lia
        rw [hzero]
        exact ⟨rfl, Moved.refl h.owned, Spliced.refl v d _ src, Charged.refl v d last _⟩

/-!
# The loop of `inode_read`
-/

theorem map_range_append {α : Type} (f : Nat -> α) (m len : Nat) :
    (List.range m).map f ++ (List.range len).map (fun i => f (m + i)) =
      (List.range (m + len)).map f := by
  rw [List.range_add, List.map_append, List.map_map]
  rfl

/-- Where all blocks exist the loop copies the bytes and changes nothing. -/
theorem readFrom_eq {v : Volume} {d : Dinode} (fuel : Nat) (n total offset : UInt32)
    (hle : total.toNat ≤ n.toNat) (hfuel : n.toNat - total.toNat ≤ fuel)
    (hmax : offset.toNat + (n.toNat - total.toNat) ≤ maxDataBlocks * blockSize)
    (hmapped : forall bn, bn * blockSize < offset.toNat + (n.toNat - total.toNat) ->
      blockOf v d bn ≠ 0) :
    readFrom n fuel total offset d v =
      Except.ok ((List.range (n.toNat - total.toNat)).map
        (fun i => byteAt v d (offset.toNat + i)), d, v) := by
  have hsize : blockSize = 512 := rfl
  have hblocks : maxDataBlocks = 139 := rfl
  have hconst : (UInt32.ofNat blockSize).toNat = blockSize := rfl
  induction fuel generalizing total offset with
  | zero =>
      have hzero : n.toNat - total.toNat = 0 := by lia
      rw [hzero]
      rfl
  | succ fuel ih =>
      unfold readFrom
      split
      · rename_i hlt
        have hlt' : total.toNat < n.toNat := hlt
        have hmlen := toNat_roundLength offset hle
        generalize roundLength n total offset = m at hmlen ⊢
        have htotal : (total + m).toNat = total.toNat + m.toNat := by
          rw [UInt32.toNat_add]
          have hn := n.toNat_lt
          lia
        have hoffset : (offset + m).toNat = offset.toNat + m.toNat := by
          rw [UInt32.toNat_add]
          lia
        have hrest : n.toNat - (total + m).toNat = n.toNat - total.toNat - m.toNat := by lia
        have hbn : (offset / UInt32.ofNat blockSize).toNat = offset.toNat / blockSize := by
          rw [UInt32.toNat_div, hconst]
        have hat : (offset % UInt32.ofNat blockSize).toNat = offset.toNat % blockSize := by
          rw [UInt32.toNat_mod, hconst]
        have hmap := bmap_of_mapped (v := v) (d := d) (offset / UInt32.ofNat blockSize) (by lia)
          (hmapped _ (by lia))
        have hnext := ih (total + m) (offset + m) (by lia) (by lia) (by lia)
          (fun bn hlt => hmapped bn (by lia))
        have hcopied : (List.range m.toNat).map
              (fun i => (v.blk (blockOf v d (offset.toNat / blockSize))).mem
                (offset.toNat % blockSize + i)) =
            (List.range m.toNat).map (fun i => byteAt v d (offset.toNat + i)) := by
          apply List.map_congr_left
          intro i hi
          have hi' := List.mem_range.mp hi
          have hdiv : (offset.toNat + i) / blockSize = offset.toNat / blockSize := by lia
          have hmod : (offset.toNat + i) % blockSize = offset.toNat % blockSize + i := by lia
          rw [byteAt, hdiv, hmod]
        rw [hbn] at hmap
        rw [hmap]
        show (do
          let r <- readFrom n fuel (total + m) (offset + m) d v
          Except.ok ((List.range m.toNat).map (fun i =>
            (v.blk (blockOf v d (offset.toNat / blockSize))).mem
              ((offset % UInt32.ofNat blockSize).toNat + i)) ++ r.1, r.2.1, r.2.2)) = _
        rw [hnext, hat, hcopied, hrest, hoffset]
        have hlen : n.toNat - total.toNat = m.toNat + (n.toNat - total.toNat - m.toNat) := by lia
        have hjoin := map_range_append (fun i => byteAt v d (offset.toNat + i)) m.toNat
          (n.toNat - total.toNat - m.toNat)
        rw [← hlen] at hjoin
        rw [← hjoin]
        simp only [Nat.add_assoc]
        rfl
      · rename_i hge
        have hge' : Not (total.toNat < n.toNat) := hge
        have hzero : n.toNat - total.toNat = 0 := by lia
        rw [hzero]
        rfl

end Inode
end Fs
end NicoOS
