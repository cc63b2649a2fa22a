import NicoOS.Fs.Inode.Image

/-!
# Reading and writing files

`inode_read` and `inode_write` of an inode that is no device, as operations on the
list of its bytes.
-/

namespace NicoOS
namespace Fs
namespace Inode

open Lib
open Log (Block LogHeader)

/-- Replace the bytes from `offset` on, and extend the list where it is too short. -/
def splice (c data : List UInt8) (offset : Nat) : List UInt8 :=
  c.take offset ++ data ++ c.drop (offset + data.length)

def sourceBytes (src : Memory) (n : Nat) : List UInt8 := (List.range n).map src

theorem map_range_splice {f g src : Nat -> UInt8} {size offset len : Nat} (hoff : offset ≤ size)
    (hlow : forall i, i < offset -> f i = g i)
    (hmid : forall i, offset ≤ i -> i < offset + len -> f i = src (i - offset))
    (hhigh : forall i, offset + len ≤ i -> i < size -> f i = g i) :
    (List.range (max size (offset + len))).map f =
      splice ((List.range size).map g) (sourceBytes src len) offset := by
  unfold splice sourceBytes
  apply List.ext_getElem
  · simp
    lia
  · intro i h1 h2
    rw [List.length_map, List.length_range] at h1
    rw [List.getElem_map, List.getElem_range]
    cases Nat.lt_or_ge i offset with
    | inl hlt =>
        rw [List.getElem_append_left (by simp; lia), List.getElem_append_left (by simp; lia),
          List.getElem_take, List.getElem_map, List.getElem_range]
        exact hlow i hlt
    | inr hge =>
        cases Nat.lt_or_ge i (offset + len) with
        | inl hlt =>
            rw [List.getElem_append_left (by simp; lia),
              List.getElem_append_right (by simp; lia), List.getElem_map, List.getElem_range,
              hmid i hge hlt]
            congr 1
            simp
            lia
        | inr hge' =>
            rw [List.getElem_append_right (by simp; lia), List.getElem_drop, List.getElem_map,
              List.getElem_range, hhigh i hge' (by lia)]
            congr 1
            simp
            lia

/-!
# Arguments
-/

/-- The arguments that both functions refuse: past the end, or with wraparound. -/
def RangeRefused (size offset n : Nat) : Prop := offset > size ∨ 0x100000000 ≤ offset + n

def WriteRefused (size offset n : Nat) : Prop :=
  RangeRefused size offset n ∨ offset + n > maxDataBlocks * blockSize

instance (size offset n : Nat) : Decidable (RangeRefused size offset n) :=
  inferInstanceAs (Decidable (_ ∨ _))

instance (size offset n : Nat) : Decidable (WriteRefused size offset n) :=
  inferInstanceAs (Decidable (_ ∨ _))

theorem badRange_iff (d : Dinode) (offset n : UInt32) :
    badRange d offset n = true <-> RangeRefused d.size.toNat offset.toNat n.toNat := by
  have hn := n.toNat_lt
  have hoff := offset.toNat_lt
  unfold badRange RangeRefused
  rw [Bool.or_eq_true_iff, decide_eq_true_iff, decide_eq_true_iff, gt_iff_lt,
    UInt32.lt_iff_toNat_lt, UInt32.lt_iff_toNat_lt, UInt32.toNat_add]
  lia

theorem toNat_add_of_accepted {d : Dinode} {offset n : UInt32}
    (h : Not (RangeRefused d.size.toNat offset.toNat n.toNat)) :
    (offset + n).toNat = offset.toNat + n.toNat := by
  unfold RangeRefused at h
  rw [UInt32.toNat_add]
  lia

theorem length_contents (v : Volume) (d : Dinode) : (contents v d).length = d.size.toNat := by
  unfold contents
  rw [List.length_map, List.length_range]

/-!
# Reading
-/

/-- `inode_read` gives the bytes of the list and changes nothing. -/
theorem readFile_eq {v : Volume} {d : Dinode} (hf : Filled v d) (offset n : UInt32) :
    readFile offset n d v =
      if RangeRefused d.size.toNat offset.toNat n.toNat then Except.ok (-1, [], d, v)
      else Except.ok ((UInt32.ofNat (min n.toNat (d.size.toNat - offset.toNat))).toInt32,
        ((contents v d).drop offset.toNat).take n.toNat, d, v) := by
  have hbad := badRange_iff d offset n
  unfold readFile
  cases Classical.em (RangeRefused d.size.toNat offset.toNat n.toNat) with
  | inl h => rw [if_pos (hbad.mpr h), if_pos h]
  | inr h =>
      have hadd := toNat_add_of_accepted h
      have hbound := hf.bounded
      rw [if_neg (fun hb => h (hbad.mp hb)), if_neg h]
      unfold RangeRefused at h
      have hsub : (d.size - offset).toNat = d.size.toNat - offset.toNat := by
        apply UInt32.toNat_sub_of_le
        exact UInt32.le_iff_toNat_le.mpr (by lia)
      generalize hclip : (if offset + n > d.size then d.size - offset else n) = m
      have hm : m.toNat = min n.toNat (d.size.toNat - offset.toNat) := by
        rw [← hclip]
        split
        · rename_i hgt
          have hgt' : d.size.toNat < (offset + n).toNat := hgt
          lia
        · rename_i hle
          have hle' : Not (d.size.toNat < (offset + n).toNat) := hle
          lia
      have hzero : (0 : UInt32).toNat = 0 := rfl
      have hread := readFrom_eq (v := v) (d := d) m.toNat m 0 offset (by lia) (by lia) (by lia)
        (fun bn hbn => hf.mapped bn (by lia))
      have hbytes : (List.range (m.toNat - (0 : UInt32).toNat)).map
          (fun i => byteAt v d (offset.toNat + i)) =
            ((contents v d).drop offset.toNat).take n.toNat := by
        unfold contents
        apply List.ext_getElem
        · simp
          lia
        · intro i h1 h2
          simp
      rw [hbytes] at hread
      simp only
      rw [hread, ← hm, UInt32.ofNat_toNat]
      rfl

/-!
# Writing
-/

section Write

variable {v w : Volume} {d e f : Dinode} {offset len : Nat} {src : Memory}

theorem slotAddr_congr_addrs (v : Volume) (haddrs : f.addrs = e.addrs) (s : Slot) :
    slotAddr v f s = slotAddr v e s := by
  have haddr : forall i, f.addr i = e.addr i := by
    intro i
    unfold Dinode.addr
    rw [haddrs]
  cases s with
  | addr i => exact haddr i
  | entry i =>
      have hind : f.indirect = e.indirect := haddr _
      rw [slotAddr, slotAddr, hind]

/-- The bytes up to the new size are the old list with the range replaced. -/
theorem Spliced.contents_eq (h : Spliced v d w e offset len src) (hf : Filled v d)
    (hoff : offset ≤ d.size.toNat) (haddrs : f.addrs = e.addrs)
    (hsize : f.size.toNat = max d.size.toNat (offset + len)) :
    contents w f = splice (contents v d) (sourceBytes src len) offset := by
  have hblock : blockSize = 512 := rfl
  have hbyte : forall i, byteAt w f i = byteAt w e i := by
    intro i
    rw [byteAt, byteAt, blockOf, blockOf, slotAddr_congr_addrs w haddrs]
  unfold contents
  rw [hsize]
  apply map_range_splice hoff
  · intro i hi
    rw [hbyte, h.outside i (hf.mapped _ (by lia)) (Or.inl hi)]
  · intro i h1 h2
    rw [hbyte, (h.inside i h1 h2).right]
  · intro i h1 h2
    rw [hbyte, h.outside i (hf.mapped _ (by lia)) (Or.inr h1)]

theorem Spliced.filled (h : Spliced v d w e offset len src) (hf : Filled v d)
    (hoff : offset ≤ d.size.toNat) (haddrs : f.addrs = e.addrs)
    (hsize : f.size.toNat = max d.size.toNat (offset + len))
    (hmax : offset + len ≤ maxDataBlocks * blockSize) : Filled w f where
  mapped := by
    intro bn hbn
    have hblock : blockSize = 512 := rfl
    have hbound := hf.bounded
    rw [blockOf, slotAddr_congr_addrs w haddrs]
    cases Nat.lt_or_ge (bn * blockSize) d.size.toNat with
    | inl hlt =>
        have hne := hf.mapped bn hlt
        have hkept := h.kept bn hne
        unfold blockOf at hkept
        rw [hkept]
        exact hne
    | inr hge =>
        have hdiv : bn * blockSize / blockSize = bn := by lia
        have hin := (h.inside (bn * blockSize) (by lia) (by lia)).left
        rw [hdiv] at hin
        exact hin
  bounded := by
    have hbound := hf.bounded
    lia

/-- Below the size of a file without holes no block is missing. -/
theorem Filled.missing_eq_zero (hf : Filled v d) (last : Nat)
    (hlast : last * blockSize < d.size.toNat + blockSize) : missing v d last = 0 := by
  have hblock : blockSize = 512 := rfl
  have hnone : (Finset.range last).filter (fun bn => blockOf v d bn = 0) = ∅ := by
    apply Finset.filter_eq_empty_iff.mpr
    intro bn hbn
    have hlt := Finset.mem_range.mp hbn
    exact hf.mapped bn (by lia)
  unfold missing
  rw [hnone, Finset.card_empty, if_neg]
  intro hind
  have hne := hf.mapped ndirectDataBlocks (by
    have hdirect : ndirectDataBlocks = 11 := rfl
    lia)
  have hslot : slotOf ndirectDataBlocks = Slot.entry 0 := rfl
  rw [blockOf, hslot, slotAddr, if_pos hind.right] at hne
  exact hne rfl

end Write

/-- What `inode_write` leaves if it accepts its arguments. -/
structure WriteDone (v : Volume) (inum : UInt32) (d : Dinode) (src : Memory)
    (offset n : UInt32) (r : Int32 × Dinode × Volume) : Prop where
  result : r.1 = n.toInt32
  stepped : Stepped v inum r.2.2
  stored : dinodeAt r.2.2 inum = r.2.1
  fields : r.2.1 = { d with size := r.2.1.size, addrs := r.2.1.addrs }
  contents : contents r.2.2 r.2.1 =
    splice (contents v d) (sourceBytes src n.toNat) offset.toNat

theorem updated_stepped {v w : Volume} (hs : Sound v) {inum : UInt32} {d e f : Dinode}
    (hmoved : Moved v (dinodeAt v) inum d w e) (hheld : Held w (dinodeAt v) inum e)
    (haddrs : f.addrs = e.addrs) (htype : f.type = e.type) (hfilled : Filled w f) :
    Stepped v inum (updated w inum f) ∧
      contents (updated w inum f) f = contents w f := by
  have hheldf : Held w (dinodeAt v) inum f :=
    { laidOut := hheld.laidOut
      inside := hheld.inside
      typed := by
        rw [htype]
        exact hheld.typed
      owned := hheld.owned.congr_addrs haddrs htype }
  have hkeeps := keepsBlocks_updated hheld.laidOut hheld.inside f
    (fun _ hs => hheldf.inUse hs)
  constructor
  · apply hs.stepped (f := f)
    · exact hmoved.sb
    · exact hheldf.owned.updated hheld.laidOut hheld.inside f
    · intro j hj
      have hj' : j < w.sb.ninodes := by
        rw [hmoved.sb]
        exact hj
      cases Classical.em (j = inum) with
      | inl heq =>
          rw [heq, Function.update_self]
          exact dinodeAt_updated_self w inum f
      | inr hne =>
          rw [Function.update_of_ne hne,
            dinodeAt_updated_of_ne hheld.laidOut f hheld.inside hj' hne]
          exact dinodeAt_congr hs.laidOut hmoved.sb hmoved.inodes hj
    · exact fun _ => hkeeps.filled hfilled
    · intro j hj hne
      apply (hmoved.others j hj hne).trans
      apply keepsBlocks_updated hheld.laidOut hheld.inside f
      intro s hslot
      exact hheld.other_inUse ((hmoved.live_iff j).mpr hj) hne hslot
  · exact hkeeps.contents_eq hfilled

section Done

variable {v w : Volume} {inum : UInt32} {d e : Dinode} {src : Memory} {offset n offset' : UInt32}

/-- A file that has grown: the new size is stored with the addresses. -/
theorem writeDone_grown (hs : Sound v) (hf : Filled v d)
    (hoff : offset.toNat ≤ d.size.toNat)
    (hmax : offset.toNat + n.toNat ≤ maxDataBlocks * blockSize)
    (hend : offset'.toNat = offset.toNat + n.toNat)
    (hmoved : Moved v (dinodeAt v) inum d w e) (hheld : Held w (dinodeAt v) inum e)
    (hspliced : Spliced v d w e offset.toNat n.toNat src) (hgrown : d.size < offset') :
    WriteDone v inum d src offset n
      (n.toInt32, { e with size := offset' }, updated w inum { e with size := offset' }) := by
  have hgrown' : d.size.toNat < offset'.toNat := hgrown
  have hsize : ({ e with size := offset' } : Dinode).size.toNat =
      max d.size.toNat (offset.toNat + n.toNat) := by
    show offset'.toNat = _
    lia
  have hfilled := hspliced.filled (f := { e with size := offset' }) hf hoff rfl hsize hmax
  have hdone := updated_stepped hs hmoved hheld (f := { e with size := offset' }) rfl rfl hfilled
  have hfields := hmoved.fields
  exact
    { result := rfl
      stepped := hdone.left
      stored := dinodeAt_updated_self w inum _
      fields := by
        show ({ e with size := offset' } : Dinode) = _
        rw [hfields]
      contents := hdone.right.trans
        (hspliced.contents_eq (f := { e with size := offset' }) hf hoff rfl hsize) }

/-- A file that has not grown: only its bytes have changed. -/
theorem writeDone_inside (hs : Sound v) (hf : Filled v d) (hd : dinodeAt v inum = d)
    (hlive : Live v (dinodeAt v) inum) (hin : offset.toNat + n.toNat ≤ d.size.toNat)
    (hmoved : Moved v (dinodeAt v) inum d w d)
    (hspliced : Spliced v d w d offset.toNat n.toNat src) :
    WriteDone v inum d src offset n (n.toInt32, d, w) := by
  have hbound := hf.bounded
  have hsize : d.size.toNat = max d.size.toNat (offset.toNat + n.toNat) := by lia
  have hfilled : Filled w d := hspliced.filled hf (by lia) rfl hsize (by lia)
  exact
    { result := rfl
      stepped := by
        apply hs.stepped (f := d) hmoved.sb hmoved.owned
        · intro j hj
          rw [← hd, Function.update_eq_self]
          exact dinodeAt_congr hs.laidOut hmoved.sb hmoved.inodes hj
        · exact fun _ => hfilled
        · exact hmoved.others
      stored := by
        show dinodeAt w inum = d
        rw [← hd]
        exact dinodeAt_congr hs.laidOut hmoved.sb hmoved.inodes hlive.left
      fields := rfl
      contents := hspliced.contents_eq hf (by lia) rfl hsize }

/--
The blocks that a write logs before its last `log_write`, which is that of the inode if the
file grows, and that of the last block else.
-/
def writeBlocks (v : Volume) (d : Dinode) (offset n : Nat) : Finset UInt32 :=
  mapBlocks v d (lastBlock offset n) ∪
    fileBlocks v d (offset / blockSize)
      (if d.size.toNat < offset + n then lastBlock offset n else lastBlock offset n - 1)

def WriteStops (v : Volume) (d : Dinode) (offset n : Nat) (stop : Stop) : Prop :=
  Not (WriteRefused d.size.toNat offset n) ∧ 0 < n ∧
    FileStops v d (lastBlock offset n) (writeBlocks v d offset n) stop

theorem writeEnd_meets (hs : Sound v) (hf : Filled v d) (hd : dinodeAt v inum = d)
    (hlive : Live v (dinodeAt v) inum) (hheld : Held v (dinodeAt v) inum d)
    (haccept : Not (WriteRefused d.size.toNat offset.toNat n.toNat))
    (hoff : offset.toNat ≤ d.size.toNat)
    (hmax : offset.toNat + n.toNat ≤ maxDataBlocks * blockSize)
    (hpost : WritePost v (dinodeAt v) inum d (lastBlock offset.toNat n.toNat) offset.toNat
      n.toNat src (offset', e, w)) :
    Meets (WriteDone v inum d src offset n) (WriteStops v d offset.toNat n.toNat)
      (writeEnd inum n offset' e w) := by
  rcases hpost with ⟨hend, hmoved, hspliced, hcharged⟩
  simp only at hend hmoved hspliced hcharged
  have hsize := hmoved.size_eq
  have hblock : blockSize = 512 := rfl
  unfold writeEnd
  split
  · rename_i hgrown
    rw [hsize] at hgrown
    apply Meets.bind ((inodeUpdate_meets inum { e with size := offset' } w).mono
      (fun _ hx => hx) _)
    · intro x hx
      rw [hx]
      exact writeDone_grown hs hf hoff hmax hend hmoved (hheld.moved hmoved) hspliced hgrown.right
    · intro stop hstop
      have hgrows : d.size.toNat < offset.toNat + n.toNat := by
        rw [<- hend]
        exact hgrown.right
      refine ⟨haccept, hgrown.left, ?_⟩
      unfold writeBlocks
      rw [if_pos hgrows]
      exact FileStops.back (Finset.Subset.refl _) hcharged (FileStops.of_log hstop)
  · rename_i hgrown
    have hin : offset.toNat + n.toNat ≤ d.size.toNat := by
      cases Nat.eq_zero_or_pos n.toNat with
      | inl hn => lia
      | inr hpos =>
          have hnot : Not (e.size.toNat < offset'.toNat) :=
            fun hlt => hgrown (And.intro hpos hlt)
          rw [hsize] at hnot
          lia
    have hmissing := hf.missing_eq_zero (lastBlock offset.toNat n.toNat) (by
      unfold lastBlock roundUp
      lia)
    have hsame : e = d := hcharged.same hmissing
    rw [hsame] at hmoved hspliced ⊢
    exact writeDone_inside hs hf hd hlive hin hmoved hspliced

end Done

theorem logLoad_writeBlocks_le (v : Volume) (d : Dinode) (offset n : Nat) :
    logLoad v (writeBlocks v d offset n) ≤
      v.lh.n + missing v d (lastBlock offset n) +
        min (missing v d (lastBlock offset n)) (roundUp v.sb.bits bitsPerBlock) +
        (entryBlocks v d (lastBlock offset n) ∪
          fileBlocks v d (offset / blockSize) (lastBlock offset n)).card := by
  have htaken := card_takenBlocks_le v (missing v d (lastBlock offset n))
  have hfile : fileBlocks v d (offset / blockSize)
      (if d.size.toNat < offset + n then lastBlock offset n else lastBlock offset n - 1) ⊆
        fileBlocks v d (offset / blockSize) (lastBlock offset n) := by
    apply fileBlocks_mono
    split
    · exact Nat.le_refl _
    · exact Nat.sub_le _ _
  have hsub : writeBlocks v d offset n ⊆ takenBlocks v (missing v d (lastBlock offset n)) ∪
      (entryBlocks v d (lastBlock offset n) ∪
        fileBlocks v d (offset / blockSize) (lastBlock offset n)) := by
    unfold writeBlocks mapBlocks
    rw [Finset.union_assoc]
    exact Finset.union_subset_union_right (Finset.union_subset_union_right hfile)
  have hcard := (Finset.card_le_card hsub).trans (Finset.card_union_le _ _)
  have hnew := Finset.card_le_card
    (Finset.sdiff_subset (s := writeBlocks v d offset n) (t := v.logSet))
  unfold logLoad
  lia

/-- The bytes are spliced into the list, or the call refuses and changes nothing. -/
def WriteReply (v : Volume) (inum : UInt32) (d : Dinode) (src : Memory) (offset n : UInt32)
    (r : Int32 × Dinode × Volume) : Prop :=
  if WriteRefused d.size.toNat offset.toNat n.toNat then r = (-1, d, v)
  else WriteDone v inum d src offset n r

theorem writeFile_meets {v : Volume} (hs : Sound v) {inum : UInt32} {d : Dinode}
    (hd : dinodeAt v inum = d) (hlive : Live v (dinodeAt v) inum) (src : Memory)
    (offset n : UInt32) :
    Meets (WriteReply v inum d src offset n) (WriteStops v d offset.toNat n.toNat)
      (writeFile inum src offset n d v) := by
  have hf := hs.filled inum hlive
  have hheld := hs.held hlive
  rw [hd] at hf hheld
  have hbad := badRange_iff d offset n
  have hmaxnat : (UInt32.ofNat (maxDataBlocks * blockSize)).toNat =
      maxDataBlocks * blockSize := rfl
  have hrefused : WriteRefused d.size.toNat offset.toNat n.toNat ->
      WriteReply v inum d src offset n (-1, d, v) := fun h => by
    rw [WriteReply, if_pos h]
  unfold writeFile
  cases Classical.em (RangeRefused d.size.toNat offset.toNat n.toNat) with
  | inl h =>
      rw [if_pos (hbad.mpr h)]
      exact hrefused (Or.inl h)
  | inr h =>
      have hadd := toNat_add_of_accepted h
      rw [if_neg (fun hb => h (hbad.mp hb))]
      cases Classical.em (offset + n > UInt32.ofNat (maxDataBlocks * blockSize)) with
      | inl hgt =>
          have hgt' : (UInt32.ofNat (maxDataBlocks * blockSize)).toNat < (offset + n).toNat := hgt
          rw [if_pos hgt]
          exact hrefused (Or.inr (by lia))
      | inr hle =>
          have hle' : Not ((UInt32.ofNat (maxDataBlocks * blockSize)).toNat <
            (offset + n).toNat) := hle
          have hoff : offset.toNat ≤ d.size.toNat := by
            unfold RangeRefused at h
            lia
          have haccept : Not (WriteRefused d.size.toNat offset.toNat n.toNat) := by
            unfold WriteRefused
            lia
          have hblock : blockSize = 512 := rfl
          have hloop := writeFrom_meets hheld (lastBlock offset.toNat n.toNat)
            (if d.size.toNat < offset.toNat + n.toNat then lastBlock offset.toNat n.toNat
              else lastBlock offset.toNat n.toNat - 1)
            n.toNat n 0 offset src (Nat.zero_le _) (Nat.sub_le _ _) (by simp; lia) (by
              unfold lastBlock roundUp
              simp
              lia) (by split <;> lia)
          have hzero : (0 : UInt32).toNat = 0 := rfl
          rw [hzero, Nat.sub_zero] at hloop
          rw [if_neg hle]
          apply Meets.bind (hloop.mono (fun _ hr => hr) (fun _ he => ⟨haccept, he⟩))
          intro r hr
          rcases r with ⟨offset', e, w⟩
          apply (writeEnd_meets hs hf hd hlive hheld haccept hoff (by lia) hr).mono
          · intro r hr
            rw [WriteReply, if_neg haccept]
            exact hr
          · exact fun _ he => he

end Inode
end Fs
end NicoOS
