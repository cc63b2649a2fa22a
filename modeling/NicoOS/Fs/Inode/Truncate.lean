import NicoOS.Fs.Inode.Image

/-!
# Freeing an inode

`itruncate` and the branch of `inode_put` that frees the inode.  The address of
the indirect block stays behind in a freed inode; it no longer counts, because the
inode has no type.
-/

namespace NicoOS
namespace Fs
namespace Inode

open Lib
open Log (Block LogHeader)

/-- The stops of a call that only releases blocks. -/
def LogPanics (stop : Stop) : Prop := stop = Stop.logFull ∨ stop = Stop.noOperation

theorem LogStops.logPanics {v : Volume} {c : Nat} {stop : Stop} (h : LogStops v c stop) :
    LogPanics stop := by
  cases stop with
  | logFull => exact Or.inl rfl
  | noOperation => exact Or.inr rfl
  | _ => cases h

section Clear

variable {v : Volume} {T : Table} {inum : UInt32} {d : Dinode}

theorem inodes_release (h : v.sb.LaidOut) {k : Nat} (hk : k < v.sb.bits) {b : UInt32}
    (hb : v.sb.inodeRegion.Mem b.toNat) : (v.release k).blk b = v.blk b := by
  apply Volume.release_blk_of_ne
  intro heq
  rw [heq] at hb
  exact h.inode_apart_bmap.not_mem hb (h.numbered.bmapBlock_mem hk)

theorem confined_release (h : v.sb.LaidOut) (d : Dinode) {k : Nat} (hk : k < v.sb.bits) :
    Confined v (v.release k) d :=
  fun _ hb _ => hb.blk_release h hk

theorem Held.clearAddr (h : Held v T inum d) {i k : Nat} (hi : i < ndirectDataBlocks)
    (hk : k < v.sb.bits) (haddr : d.addr i = v.sb.dataBlock k) :
    Moved v T inum d (v.release k) (d.setAddr i 0) := by
  have hc := confined_release h.laidOut d hk
  have hslots : forall s, slotAddr (v.release k) (d.setAddr i 0) s =
      if s = Slot.addr i then 0 else slotAddr v d s := by
    intro s
    split
    · rename_i hs
      rw [hs]
      exact addr_setAddr_self d 0 (by lia)
    · rename_i hs
      cases s with
      | addr j =>
          apply addr_setAddr_of_ne
          intro heq
          rw [heq] at hs
          exact hs rfl
      | entry j =>
          rw [slotAddr, indirect_setAddr_of_ne d 0 (by lia)]
          apply slotAddr_congr d _ (Slot.entry j)
          intro hind
          exact (h.indirect_inUse hind).blk_release h.laidOut hk
  exact
    { sb := rfl
      owned := by
        apply h.clear (s := Slot.addr i) (by rfl) hc (by rfl) hslots
        intro a
        have hslot : slotAddr v d (Slot.addr i) = v.sb.dataBlock k := haddr
        rw [hslot]
        exact inUse_release h.laidOut hk a
      fields := rfl
      others := fun _ hj hne => h.keeps_others hc hj hne
      inodes := fun _ hb => inodes_release h.laidOut hk hb }

/-- An entry of the indirect block is released and cleared. -/
theorem Held.clearEntry (h : Held v T inum d) {i k : Nat} (hi : i < nindirectDataBlocks)
    (hind : d.indirect ≠ 0) (hk : k < v.sb.bits)
    (hentry : entryAt v d.indirect i = v.sb.dataBlock k) :
    Moved v T inum d (setEntry (v.release k) d.indirect i 0) d ∧
      forall s, slotAddr (setEntry (v.release k) d.indirect i 0) d s =
        if s = Slot.entry i then 0 else slotAddr v d s := by
  have hdata := (h.indirect_inUse hind).mem_data h.laidOut
  have hblk := (h.indirect_inUse hind).blk_release h.laidOut hk
  have hc : Confined v (setEntry (v.release k) d.indirect i 0) d := by
    intro b hb hne
    have hbind : b ≠ d.indirect := hne (Slot.addr ndirectDataBlocks)
    rw [setEntry, Volume.store_blk_of_ne _ _ hbind]
    exact hb.blk_release h.laidOut hk
  have hslots : forall s, slotAddr (setEntry (v.release k) d.indirect i 0) d s =
      if s = Slot.entry i then 0 else slotAddr v d s := by
    intro s
    cases s with
    | addr j => rw [if_neg Slot.noConfusion, slotAddr, slotAddr]
    | entry j =>
        rw [slotAddr, slotAddr, if_neg hind, if_neg hind, entryAt, entryAt, setEntry,
          Volume.store_blk_self, word_setEntry _ _ hi, hblk]
        simp only [Slot.entry.injEq]
  have hslot : slotAddr v d (Slot.entry i) = v.sb.dataBlock k := by
    rw [slotAddr, if_neg hind]
    exact hentry
  refine And.intro ?_ hslots
  exact
    { sb := rfl
      owned := by
        apply h.clear (s := Slot.entry i) (by rfl) hc rfl hslots
        intro a
        rw [hslot]
        exact (inUse_logged_store (v := v.release k) h.laidOut _ hdata a).trans
          (inUse_release h.laidOut hk a)
      fields := rfl
      others := fun _ hj hne => h.keeps_others hc hj hne
      inodes := fun b hb =>
        (inodes_logged_store (v := v.release k) h.laidOut _ hdata hb).trans
          (inodes_release h.laidOut hk hb) }

end Clear

/-!
# The loops of `itruncate`
-/

section Loops

variable {v : Volume} {T : Table} {inum : UInt32} {d : Dinode}

/-- The block of a slot is in use, so the assertion of `bfree` holds. -/
theorem Held.bfree_meets (h : Held v T inum d) {s : Slot} (hs : slotAddr v d s ≠ 0) :
    Meets (fun w => exists k, k < v.sb.bits ∧ slotAddr v d s = v.sb.dataBlock k ∧
        w = v.release k) LogPanics (bfree (slotAddr v d s) v) := by
  rcases h.inUse hs with ⟨k, hk, hused, heq⟩
  have hfree := Fs.bfree_meets h.laidOut.numbered hk hused
  rw [← heq] at hfree
  exact hfree.mono (fun w hw => ⟨k, hk, heq, hw⟩) (fun _ he => LogStops.logPanics he)

/-- What the loop over the direct addresses leaves. -/
def DirectPost (v : Volume) (T : Table) (inum : UInt32) (d : Dinode) (k i : Nat)
    (r : Dinode × Volume) : Prop :=
  Moved v T inum d r.2 r.1 ∧ (forall j, i ≤ j -> j < i + k -> r.1.addr j = 0) ∧
    forall j, j < i -> r.1.addr j = d.addr j

theorem truncateDirect_meets (h : Held v T inum d) (k i : Nat) (hi : i + k ≤ ndirectDataBlocks) :
    Meets (DirectPost v T inum d k i) LogPanics (truncateDirect k i d v) := by
  induction k generalizing v d i with
  | zero =>
      refine ⟨Moved.refl h.owned, ?_, fun _ _ => rfl⟩
      intro j h1 h2
      lia
  | succ k ih =>
      unfold truncateDirect
      split
      · rename_i hne
        apply Meets.bind (h.bfree_meets (s := Slot.addr i) hne)
        intro w hw
        rcases hw with ⟨b, hb, haddr, hw⟩
        rw [hw]
        have hmoved := h.clearAddr (i := i) (by lia) hb haddr
        apply (ih (h.moved hmoved) (i + 1) (by lia)).mono
        · intro r hr
          rcases hr with ⟨hrest, hzero, hkept⟩
          refine ⟨hmoved.trans hrest, ?_, ?_⟩
          · intro j h1 h2
            cases Nat.eq_or_lt_of_le h1 with
            | inl heq =>
                rw [← heq, hkept i (Nat.lt_succ_self i)]
                exact addr_setAddr_self d 0 (by lia)
            | inr hlt => exact hzero j hlt (by lia)
          · intro j hj
            rw [hkept j (by lia)]
            exact addr_setAddr_of_ne d 0 (by lia)
        · exact fun _ he => he
      · rename_i hzero
        have hempty : d.addr i = 0 := Classical.not_not.mp hzero
        apply (ih h (i + 1) (by lia)).mono
        · intro r hr
          rcases hr with ⟨hrest, hclear, hkept⟩
          refine ⟨hrest, ?_, fun j hj => hkept j (by lia)⟩
          intro j h1 h2
          cases Nat.eq_or_lt_of_le h1 with
          | inl heq =>
              rw [← heq, hkept i (Nat.lt_succ_self i)]
              exact hempty
          | inr hlt => exact hclear j hlt (by lia)
        · exact fun _ he => he

def EntriesPost (v : Volume) (T : Table) (inum : UInt32) (d : Dinode) (k i : Nat)
    (w : Volume) : Prop :=
  Moved v T inum d w d ∧ (forall j, i ≤ j -> j < i + k -> slotAddr w d (Slot.entry j) = 0) ∧
    forall j, j < i -> slotAddr w d (Slot.entry j) = slotAddr v d (Slot.entry j)

theorem truncateEntries_meets (h : Held v T inum d) (hind : d.indirect ≠ 0) (k i : Nat)
    (hi : i + k ≤ nindirectDataBlocks) :
    Meets (EntriesPost v T inum d k i) LogPanics (truncateEntries d.indirect k i v) := by
  induction k generalizing v i with
  | zero =>
      refine ⟨Moved.refl h.owned, ?_, fun _ _ => rfl⟩
      intro j h1 h2
      lia
  | succ k ih =>
      have hslot : slotAddr v d (Slot.entry i) = entryAt v d.indirect i := by
        rw [slotAddr, if_neg hind]
      unfold truncateEntries
      rw [← hslot]
      split
      · rename_i hne
        apply Meets.bind (h.bfree_meets (s := Slot.entry i) hne)
        intro w hw
        rcases hw with ⟨b, hb, haddr, hw⟩
        rw [hw]
        rw [hslot] at haddr
        rcases h.clearEntry (i := i) (by lia) hind hb haddr with ⟨hmoved, hslots⟩
        apply (ih (h.moved hmoved) (i + 1) (by lia)).mono
        · intro x hx
          rcases hx with ⟨hrest, hzero, hkept⟩
          refine ⟨hmoved.trans hrest, ?_, ?_⟩
          · intro j h1 h2
            cases Nat.eq_or_lt_of_le h1 with
            | inl heq =>
                rw [← heq, hkept i (Nat.lt_succ_self i), hslots]
                exact if_pos rfl
            | inr hlt => exact hzero j hlt (by lia)
          · intro j hj
            rw [hkept j (by lia), hslots]
            apply if_neg
            intro heq
            injection heq
            lia
        · exact fun _ he => he
      · rename_i hzero
        have hempty : slotAddr v d (Slot.entry i) = 0 := Classical.not_not.mp hzero
        apply (ih h (i + 1) (by lia)).mono
        · intro x hx
          rcases hx with ⟨hrest, hclear, hkept⟩
          refine ⟨hrest, ?_, fun j hj => hkept j (by lia)⟩
          intro j h1 h2
          cases Nat.eq_or_lt_of_le h1 with
          | inl heq =>
              rw [← heq, hkept i (Nat.lt_succ_self i)]
              exact hempty
          | inr hlt => exact hclear j hlt (by lia)
        · exact fun _ he => he

end Loops

/-!
# The freed inode
-/

/-- The inode at work owns no block any more, once it has no type. -/
structure Emptied (v : Volume) (T : Table) (inum : UInt32) (w : Volume) : Prop where
  sb : w.sb = v.sb
  owned : forall f, f.type = InodeType.none.code -> Owned w (Function.update T inum f)
  others : forall j, Live v T j -> j ≠ inum -> KeepsBlocks v w (T j) (T j)
  inodes : forall b, v.sb.inodeRegion.Mem b.toNat -> w.blk b = v.blk b

section Freed

variable {v w : Volume} {T : Table} {inum : UInt32} {d e : Dinode}

theorem Moved.emptied {x : Volume} (h1 : Moved v T inum d w e) (h2 : Emptied w T inum x) :
    Emptied v T inum x where
  sb := h2.sb.trans h1.sb
  owned := h2.owned
  others := fun j hj hne =>
    (h1.others j hj hne).trans (h2.others j ((h1.live_iff j).mpr hj) hne)
  inodes := by
    intro b hb
    rw [h2.inodes b (by rw [h1.sb]; exact hb), h1.inodes b hb]

theorem refAddr_update_none {f : Dinode} (hf : f.type = InodeType.none.code) (s : Slot) :
    refAddr v (Function.update T inum f) (inum, s) = 0 := by
  apply refAddr_of_not_live
  intro hlive
  have htype := hlive.right
  rw [Function.update_self] at htype
  exact htype hf

theorem Held.emptied_nothing (h : Held v T inum d) (hzero : forall s, slotAddr v d s = 0) :
    Emptied v T inum v where
  sb := rfl
  owned := by
    intro f hf
    apply Exact.congr h.owned
    · intro p
      rcases p with ⟨j, s⟩
      cases Classical.em (j = inum) with
      | inl heq => rw [heq, refAddr_update_none hf, h.refAddr_self rfl rfl, hzero]
      | inr hne => rw [refAddr_update_of_ne f hne, refAddr_update_of_ne d hne]
    · exact fun _ => Iff.rfl
  others := fun j _ _ => KeepsBlocks.refl v (T j)
  inodes := fun _ _ => rfl

/-- The last address is the one of the indirect block, whose entries are clear. -/
theorem Held.emptied_indirect (h : Held v T inum d) {k : Nat} (hk : k < v.sb.bits)
    (hind : d.indirect = v.sb.dataBlock k)
    (hzero : forall s, s ≠ Slot.addr ndirectDataBlocks -> slotAddr v d s = 0) :
    Emptied v T inum (v.release k) := by
  have hc := confined_release h.laidOut d hk
  exact
    { sb := rfl
      owned := by
        intro f hf
        apply Exact.clear h.owned (p := (inum, Slot.addr ndirectDataBlocks))
        · exact refAddr_update_none hf _
        · intro p hp
          rcases p with ⟨j, s⟩
          cases Classical.em (j = inum) with
          | inl heq =>
              rw [heq] at hp ⊢
              rw [refAddr_update_none hf, h.refAddr_self rfl rfl, hzero]
              intro hs
              rw [hs] at hp
              exact hp rfl
          | inr hne => exact h.refAddr_others (by rfl) hc hne
        · intro a
          have hslot : slotAddr v d (Slot.addr ndirectDataBlocks) = v.sb.dataBlock k := hind
          rw [h.refAddr_self rfl rfl, hslot]
          exact inUse_release h.laidOut hk a
      others := fun _ hj hne => h.keeps_others hc hj hne
      inodes := fun _ hb => inodes_release h.laidOut hk hb }

theorem Moved.logged (h : Moved v T inum d w e) (b : UInt32) :
    Moved v T inum d (w.logged b) e where
  sb := h.sb
  owned := h.owned
  fields := h.fields
  others := h.others
  inodes := h.inodes

theorem truncateIndirect_meets (h : Held v T inum d)
    (hdirect : forall i, i < ndirectDataBlocks -> d.addr i = 0) :
    Meets (Emptied v T inum) LogPanics (truncateIndirect d v) := by
  have haddr : forall i, i ≠ ndirectDataBlocks -> d.addr i = 0 := by
    intro i hi
    cases Nat.lt_or_ge i ndirectDataBlocks with
    | inl hlt => exact hdirect i hlt
    | inr hge => exact addr_of_ge d (by lia)
  unfold truncateIndirect
  split
  · rename_i hind
    apply Meets.bind (truncateEntries_meets h hind nindirectDataBlocks 0 (by lia))
    intro w hw
    rcases hw with ⟨hmoved, hzero, _⟩
    apply Meets.bind ((logWrite_meets d.indirect w).mono (fun _ hx => hx)
      (fun _ he => LogStops.logPanics he))
    intro x hx
    rw [hx]
    have hmoved' := hmoved.logged d.indirect
    have hheld := h.moved hmoved'
    apply (hheld.bfree_meets (s := Slot.addr ndirectDataBlocks) hind).mono
    · intro y hy
      rcases hy with ⟨k, hk, heq, hy⟩
      rw [hy]
      apply hmoved'.emptied
      apply hheld.emptied_indirect hk heq
      intro s hs
      cases s with
      | addr i =>
          apply haddr i
          intro heq
          rw [heq] at hs
          exact hs rfl
      | entry j =>
          cases Nat.lt_or_ge j nindirectDataBlocks with
          | inl hlt => exact hzero j (Nat.zero_le j) (by lia)
          | inr hge =>
              rw [slotAddr, if_neg hind, entryAt]
              exact word_of_ge _ hge
    · exact fun _ he => he
  · rename_i hind
    have hnone : d.indirect = 0 := Classical.not_not.mp hind
    apply h.emptied_nothing
    intro s
    cases s with
    | addr i =>
        cases Classical.em (i = ndirectDataBlocks) with
        | inl heq =>
            rw [heq]
            exact hnone
        | inr hne => exact haddr i hne
    | entry j => rw [slotAddr, if_pos hnone]

theorem emptied_updated (hs : Sound v) {inum : UInt32} (hin : inum < v.sb.ninodes)
    (h : Emptied v (dinodeAt v) inum w) (e : Dinode) {f : Dinode}
    (hf : f.type = InodeType.none.code) :
    Stepped v inum (updated (updated w inum e) inum f) := by
  have hlaid : w.sb.LaidOut := by
    rw [h.sb]
    exact hs.laidOut
  have hin' : inum < w.sb.ninodes := by
    rw [h.sb]
    exact hin
  have hlaid1 : (updated w inum e).sb.LaidOut := hlaid
  have hin1 : inum < (updated w inum e).sb.ninodes := hin'
  have howned := h.owned f hf
  have howned1 := howned.updated hlaid hin' e
  have hlive : forall j, Live v (dinodeAt v) j -> j ≠ inum ->
      Live w (Function.update (dinodeAt v) inum f) j := by
    intro j hj hne
    apply (live_update_of_ne f hne).mpr
    unfold Live
    rw [h.sb]
    exact hj
  apply hs.stepped (f := f)
  · exact h.sb
  · exact howned1.updated hlaid1 hin1 f
  · intro j hj
    have hj' : j < w.sb.ninodes := by
      rw [h.sb]
      exact hj
    cases Classical.em (j = inum) with
    | inl heq =>
        rw [heq, Function.update_self]
        exact dinodeAt_updated_self _ inum f
    | inr hne =>
        rw [Function.update_of_ne hne, dinodeAt_updated_of_ne hlaid1 f hin1 hj' hne,
          dinodeAt_updated_of_ne hlaid e hin' hj' hne]
        exact dinodeAt_congr hs.laidOut h.sb h.inodes hj
  · exact fun hne => absurd hf hne
  · intro j hj hne
    have hslots := fun s hs' => howned.inUse (hlive j hj hne) (s := s) hs'
    rw [Function.update_of_ne hne] at hslots
    have hslots1 := fun s hs' => howned1.inUse (hlive j hj hne) (s := s) hs'
    rw [Function.update_of_ne hne] at hslots1
    exact ((h.others j hj hne).trans (keepsBlocks_updated hlaid hin' e hslots)).trans
      (keepsBlocks_updated hlaid1 hin1 f hslots1)

/-- What freeing an inode leaves: it has no type, and its blocks are free. -/
def FreedPost (v : Volume) (inum : UInt32) (r : Dinode × Volume) : Prop :=
  Stepped v inum r.2 ∧ dinodeAt r.2 inum = r.1 ∧ r.1.type = InodeType.none.code

theorem freeInode_meets (hs : Sound v) {inum : UInt32} {d : Dinode} (hd : dinodeAt v inum = d)
    (hlive : Live v (dinodeAt v) inum) :
    Meets (FreedPost v inum) LogPanics (freeInode inum d v) := by
  have hheld := hs.held hlive
  rw [hd] at hheld
  have htrunc : Meets (fun r => exists w e, Emptied v (dinodeAt v) inum w ∧
      r = (e, updated w inum e)) LogPanics (itruncate inum d v) := by
    unfold itruncate
    apply Meets.bind (truncateDirect_meets hheld ndirectDataBlocks 0 (by lia))
    intro r hr
    rcases r with ⟨e, w⟩
    rcases hr with ⟨hmoved, hzero, _⟩
    apply Meets.bind (truncateIndirect_meets (hheld.moved hmoved)
      (fun i hi => hzero i (Nat.zero_le i) (by lia)))
    intro x hx
    apply Meets.bind ((inodeUpdate_meets inum _ x).mono (fun _ hy => hy)
      (fun _ he => LogStops.logPanics he))
    intro y hy
    exact ⟨x, { e with size := 0 }, hmoved.emptied hx, by rw [hy]⟩
  unfold freeInode
  apply Meets.bind htrunc
  intro r hr
  rcases hr with ⟨w, e, hemptied, hr⟩
  rw [hr]
  apply Meets.bind ((inodeUpdate_meets inum _ _).mono (fun _ hx => hx)
    (fun _ he => LogStops.logPanics he))
  intro x hx
  rw [hx]
  exact ⟨emptied_updated hs hlive.left hemptied e rfl, dinodeAt_updated_self _ inum _, rfl⟩

end Freed

end Inode
end Fs
end NicoOS
