import NicoOS.Fs.Dir.Scan
import NicoOS.Fs.Inode.Refinement

/-!
# What the directory operations do

Every operation of `fs/dir.c` on a directory with distinct names, as an operation on
its table of slots.
-/

namespace NicoOS
namespace Fs
namespace Dir

open Lib
open Inode (State CachedInode Coherent CacheFull Ready Call iget)

/-- The names of an open directory are distinct, and its entries name inodes that exist. -/
structure Listed (s : State) (i : Nat) : Prop extends Opened s i where
  distinct : SlotMap.Distinct (slotAt (bytesOf s i)) (slots (bytesOf s i))
  inside : forall k l inum, k < slots (bytesOf s i) ->
    slotAt (bytesOf s i) k = some (l, inum) -> inum < s.vol.sb.ninodes

/-- The step left the directory in place `i` as it was. -/
structure Untouched (s t : State) (i : Nat) : Prop where
  coherent : Coherent t
  sb : t.vol.sb = s.vol.sb
  locked : (t.icache i).locked = (s.icache i).locked
  type : (t.icache i).diskInode.type = (s.icache i).diskInode.type
  bytes : bytesOf t i = bytesOf s i

theorem Untouched.listed {s t : State} {i : Nat} (h : Untouched s t i) (hl : Listed s i) :
    Listed t i where
  coherent := h.coherent
  locked := by
    rw [h.locked]
    exact hl.locked
  directory := by
    rw [h.type]
    exact hl.directory
  whole := by
    have hlen := Inode.length_contents t.vol (t.icache i).diskInode
    rw [← hlen]
    show (bytesOf t i).length % direntSize = 0
    rw [h.bytes]
    exact hl.readable.whole_bytes
  distinct := by
    rw [h.bytes]
    exact hl.distinct
  inside := by
    rw [h.bytes, h.sb]
    exact hl.inside

theorem Untouched.refl {s : State} {i : Nat} (h : Coherent s) : Untouched s s i where
  coherent := h
  sb := rfl
  locked := rfl
  type := rfl
  bytes := rfl

/-- The volume is the same, and so is the place of the directory. -/
theorem Untouched.of_place {s t : State} {i : Nat} (h : Coherent t) (hvol : t.vol = s.vol)
    (hlocked : (t.icache i).locked = (s.icache i).locked)
    (hdinode : (t.icache i).diskInode = (s.icache i).diskInode) : Untouched s t i where
  coherent := h
  sb := by rw [hvol]
  locked := hlocked
  type := by rw [hdinode]
  bytes := by rw [bytesOf, bytesOf, hvol, hdinode]

/-!
# References
-/

section References

variable {s t : State} {i j : Nat} {inum : UInt32}

/-- `iget` counts a reference on a place that names the inode, or takes an empty one. -/
theorem iget_cases (h : iget inum s = Except.ok (j, t)) :
    (0 < (s.icache j).ref ∧ (s.icache j).inum = inum ∧
      t = s.setInode j { s.icache j with ref := (s.icache j).ref + 1 }) ∨
    ((s.icache j).ref = 0 ∧
      t = s.setInode j { s.icache j with inum := inum, ref := 1, valid := false }) := by
  have hspec := Inode.findInode_spec s.icache inum Inode.nicache 0 none
  unfold iget at h
  generalize Inode.findInode s.icache inum Inode.nicache 0 none = result at hspec h
  cases result with
  | inl k =>
      cases h
      exact Or.inl ⟨hspec.right.right.left, hspec.right.right.right, rfl⟩
  | inr found =>
      cases found with
      | none => cases h
      | some k =>
          cases h
          rcases hspec.right with habsurd | hfree
          · cases habsurd
          · exact Or.inr (And.intro hfree.right.right rfl)

theorem iget_untouched (hc : Coherent s) (hlocked : (s.icache i).locked = true)
    (hin : inum < s.vol.sb.ninodes) (h : iget inum s = Except.ok (j, t)) :
    Untouched s t i ∧ (t.icache j).inum = inum := by
  have hpost := (Inode.iget_meets hc hin).of_ok h
  refine And.intro ?_ hpost.right.right.left
  cases Classical.em (i = j) with
  | inr hne =>
      have hsame := hpost.right.right.right i hne
      exact Untouched.of_place hpost.left hpost.right.left (by rw [hsame]) (by rw [hsame])
  | inl heq =>
      rcases iget_cases h with ⟨_, _, ht⟩ | ⟨hzero, _⟩
      · apply Untouched.of_place hpost.left hpost.right.left
        · rw [ht, heq, Inode.setInode_self]
        · rw [ht, heq, Inode.setInode_self]
      · have hpos := (hc.held i hlocked).left
        rw [heq] at hpos
        lia

theorem iget_returns (hc : Coherent s) (hin : inum < s.vol.sb.ninodes)
    (hplace : Not (CacheFull s)) : exists j t, iget inum s = Except.ok (j, t) := by
  have hmeets := Inode.iget_meets hc hin
  cases hrun : iget inum s with
  | ok r => exact ⟨r.1, r.2, rfl⟩
  | error stop => exact absurd (hmeets.of_error hrun).right hplace

/-- A put that does not free the inode drops one reference. -/
theorem inodePut_eq (href : 0 < (s.icache j).ref) (hopen : (s.icache j).locked = false)
    (hkeep : Not (Inode.Frees (s.icache j))) :
    Inode.inodePut j s =
      Except.ok (s.setInode j { s.icache j with ref := (s.icache j).ref - 1 }) := by
  have href' : (s.icache j).ref ≥ 1 := href
  unfold Inode.Frees at hkeep
  unfold Inode.inodePut
  simp only
  rw [if_pos href', hopen, if_neg (fun hf => (nomatch hf)), if_neg hkeep]

/-- The inode with a number is not locked by anyone. -/
def Unlocked (s : State) (inum : UInt32) : Prop :=
  forall j, 0 < (s.icache j).ref -> (s.icache j).inum = inum -> (s.icache j).locked = false

/-- A reference that `iget` took can be dropped again, if nobody has locked the inode. -/
theorem put_after_iget (hc : Coherent s) (hlocked : (s.icache i).locked = true)
    (hin : inum < s.vol.sb.ninodes) (hfree : Unlocked s inum)
    (h : iget inum s = Except.ok (j, t)) :
    exists u, Inode.inodePut j t = Except.ok u ∧ Untouched s u i := by
  have hpost := (Inode.iget_meets hc hin).of_ok h
  have hheld := (hc.held i hlocked).left
  have hfacts : 0 < (t.icache j).ref ∧ (t.icache j).locked = false ∧
      Not (Inode.Frees (t.icache j)) ∧ i ≠ j := by
    rcases iget_cases h with ⟨hpos, hnum, ht⟩ | ⟨hzero, ht⟩
    · have hplace : t.icache j = { s.icache j with ref := (s.icache j).ref + 1 } := by
        rw [ht, Inode.setInode_self]
      have hopen := hfree j hpos hnum
      rw [hplace]
      refine ⟨Nat.succ_pos _, hopen, ?_, ?_⟩
      · intro hfrees
        have hone : (s.icache j).ref + 1 = 1 := hfrees.right.right
        lia
      · intro heq
        rw [heq, hopen] at hlocked
        cases hlocked
    · have hplace : t.icache j =
          { s.icache j with inum := inum, ref := 1, valid := false } := by
        rw [ht, Inode.setInode_self]
      rw [hplace]
      refine ⟨Nat.one_pos, ?_, fun hfrees => (nomatch hfrees.left), ?_⟩
      · cases hl : (s.icache j).locked with
        | false => rfl
        | true =>
            have hpos := (hc.held j hl).left
            lia
      · intro heq
        rw [heq] at hheld
        lia
  rcases hfacts with ⟨href, hopen, hkeep, hne⟩
  have hput := inodePut_eq href hopen hkeep
  refine ⟨_, hput, ?_⟩
  have hmeets := Inode.put_meets hpost.left j
  rw [Inode.perform, hput] at hmeets
  have hsame : (t.setInode j { t.icache j with ref := (t.icache j).ref - 1 }).icache i =
      s.icache i := by
    rw [Inode.setInode_of_ne t _ hne, hpost.right.right.right i hne]
  exact Untouched.of_place hmeets.left hpost.right.left (by rw [hsame]) (by rw [hsame])

end References

/-!
# Looking up a name
-/

section Lookup

variable {s : State} {i : Nat}

theorem dirScan_eq (h : Readable s i) {name : Memory} (hname : nameFits name = true) :
    dirScan i name s =
      Except.ok ((SlotMap.find (slotAt (bytesOf s i)) (label name) (slots (bytesOf s i)) 0).map
        (fun p => (p.2, UInt32.ofNat (direntSize * p.1))), s) := by
  have hsize := h.size_eq
  have hdirent : direntSize = 64 := rfl
  have hloop := dirLookupFrom_eq h name (s.icache i).diskInode.size.toNat 0 (Nat.zero_le _)
    (by lia)
  unfold dirScan
  rw [if_pos ⟨h.holding, hname, h.whole⟩]
  exact hloop

theorem dirLookup_none (h : Readable s i) {name : Memory} (hname : nameFits name = true)
    (hfind : SlotMap.find (slotAt (bytesOf s i)) (label name) (slots (bytesOf s i)) 0 = none) :
    dirLookup i name s = Except.ok (none, s) := by
  unfold dirLookup
  rw [dirScan_eq h hname, hfind]
  rfl

theorem dirLookup_some (h : Readable s i) {name : Memory} (hname : nameFits name = true)
    {k : Nat} {inum : UInt32}
    (hfind : SlotMap.find (slotAt (bytesOf s i)) (label name) (slots (bytesOf s i)) 0 =
      some (k, inum)) {j : Nat} {t : State} (hget : iget inum s = Except.ok (j, t)) :
    dirLookup i name s = Except.ok (some (j, UInt32.ofNat (direntSize * k)), t) := by
  unfold dirLookup
  rw [dirScan_eq h hname, hfind, ok_bind]
  simp only [Option.map_some]
  rw [hget]
  rfl

theorem Listed.inside_of_find (h : Listed s i) {key : List UInt8} {k : Nat} {inum : UInt32}
    (hfind : SlotMap.find (slotAt (bytesOf s i)) key (slots (bytesOf s i)) 0 = some (k, inum)) :
    inum < s.vol.sb.ninodes := by
  rcases (SlotMap.find_eq_some_iff h.distinct).mp hfind with ⟨hk, hslot⟩
  exact h.inside k key inum hk hslot

end Lookup

/-!
# Storing a record
-/

section Store

variable {s : State} {i : Nat}

/-- The bytes of the directory after a write that is accepted. -/
structure Written (s : State) (i : Nat) (src : Memory) (offset n : UInt32) (t : State) :
    Prop where
  opened : Coherent t ∧ (t.icache i).locked = true ∧
    (t.icache i).diskInode.type = Inode.InodeType.directory.code
  sb : t.vol.sb = s.vol.sb
  inum : (t.icache i).inum = (s.icache i).inum
  others : forall j, j ≠ i -> t.icache j = s.icache j
  bytes : bytesOf t i = Inode.splice (bytesOf s i) (Inode.sourceBytes src n.toNat) offset.toNat

theorem write_of_ok (h : Opened s i) {src : Memory} {offset n : UInt32} {r : Int32} {t : State}
    (hrun : Inode.inodeWrite i none src offset n s = Except.ok (r, t)) :
    if Inode.WriteRefused (s.icache i).diskInode.size.toNat offset.toNat n.toNat then
      r = -1 ∧ t = s
    else
      r = n.toInt32 ∧ Written s i src offset n t := by
  rcases h.coherent.held i h.locked with ⟨href, hvalid⟩
  rcases h.coherent.loaded i href hvalid with ⟨hsame, _⟩
  have hmeets := Inode.writeFile_meets h.coherent.sound hsame (h.coherent.live href hvalid) src
    offset n
  unfold Inode.inodeWrite at hrun
  simp only at hrun
  rw [if_neg h.readable.noDevice] at hrun
  rcases bind_ok hrun with ⟨q, hwrite, hq⟩
  rcases q with ⟨ret, d, w⟩
  cases hq
  have hreply := hmeets.of_ok hwrite
  unfold Inode.WriteReply at hreply
  split
  · rename_i hrefused
    rw [if_pos hrefused] at hreply
    cases hreply
    exact And.intro rfl (Inode.setInode_same s i)
  · rename_i haccepted
    rw [if_neg haccepted] at hreply
    have hpost := Inode.writeDone_post h.coherent h.locked h.readable.noDevice none haccepted hreply
    have hself := Inode.setInode_self { s with vol := w } i { s.icache i with diskInode := d }
    have hfields := hreply.fields
    simp only at hfields
    refine And.intro hreply.result ?_
    constructor
    · refine ⟨hpost.left, ?_, ?_⟩
      · rw [hself]
        exact h.locked
      · rw [hself]
        have htype : d.type = (s.icache i).diskInode.type := by rw [hfields]
        exact htype.trans h.directory
    · exact hreply.stepped.sb
    · rw [hself]
    · exact fun j hj => Inode.setInode_of_ne _ _ hj
    · unfold bytesOf
      rw [hself]
      exact hreply.contents

theorem write_returns (h : Opened s i) {src : Memory} {offset n : UInt32}
    (hready : Ready s (Call.write i none src offset n)) :
    exists r t, Inode.inodeWrite i none src offset n s = Except.ok (r, t) := by
  have hmeets := Inode.write_meets h.coherent i none src offset n
  rw [Inode.perform, if_pos h.locked] at hmeets
  cases hrun : Inode.inodeWrite i none src offset n s with
  | ok r => exact ⟨r.1, r.2, rfl⟩
  | error stop =>
      rw [hrun] at hmeets
      exact absurd hmeets (hready.not_stops stop)

theorem write_refused (h : Opened s i) {src : Memory} {offset n : UInt32}
    (hrefused : Inode.WriteRefused (s.icache i).diskInode.size.toNat offset.toNat n.toNat) :
    Inode.inodeWrite i none src offset n s = Except.ok (-1, s) := by
  have hbad := Inode.badRange_iff (s.icache i).diskInode offset n
  have hmax : (UInt32.ofNat (maxDataBlocks * blockSize)).toNat = maxDataBlocks * blockSize := rfl
  have hwrite : Inode.writeFile (s.icache i).inum src offset n (s.icache i).diskInode s.vol =
      Except.ok (-1, (s.icache i).diskInode, s.vol) := by
    unfold Inode.writeFile
    cases Classical.em (Inode.RangeRefused (s.icache i).diskInode.size.toNat offset.toNat
        n.toNat) with
    | inl hrange => rw [if_pos (hbad.mpr hrange)]
    | inr hrange =>
        have hadd := Inode.toNat_add_of_accepted hrange
        have hlarge : offset.toNat + n.toNat > maxDataBlocks * blockSize :=
          hrefused.resolve_left hrange
        have hgt : offset + n > UInt32.ofNat (maxDataBlocks * blockSize) := by
          show UInt32.ofNat (maxDataBlocks * blockSize) < offset + n
          rw [UInt32.lt_iff_toNat_lt, hmax, hadd]
          exact hlarge
        rw [if_neg (fun hb => hrange (hbad.mp hb)), if_pos hgt]
  unfold Inode.inodeWrite
  simp only
  rw [if_neg h.readable.noDevice, hwrite, ok_bind]
  simp only
  rw [Inode.setInode_same]

theorem length_record (src : Memory) : (Inode.sourceBytes src direntSize).length = direntSize :=
  Inode.length_sourceBytes src direntSize

/-- A record written at a slot, or behind the last one, is stored in that slot. -/
theorem Written.stored (h : Opened s i) {src : Memory} {k : Nat} {t : State}
    (hk : k ≤ slots (bytesOf s i))
    (hw : Written s i src (UInt32.ofNat (direntSize * k)) (UInt32.ofNat direntSize) t) :
    Opened t i ∧ SlotMap.Stored (slotAt (bytesOf s i)) (slots (bytesOf s i)) k
      (readDirent (Inode.sourceBytes src direntSize)).slot (slotAt (bytesOf t i))
      (slots (bytesOf t i)) := by
  have hbytes := hw.bytes
  have hnat : (UInt32.ofNat direntSize).toNat = direntSize := rfl
  rw [h.readable.toNat_offset hk, hnat] at hbytes
  rw [hbytes]
  refine And.intro ?_ (stored_splice h.readable.whole_bytes hk (length_record src))
  exact
    { coherent := hw.opened.left
      locked := hw.opened.right.left
      directory := hw.opened.right.right
      whole := by
        have hlen := Inode.length_contents t.vol (t.icache i).diskInode
        rw [← hlen]
        show (bytesOf t i).length % direntSize = 0
        rw [hbytes]
        exact length_splice_mod h.readable.whole_bytes hk (length_record src) }

theorem refused_iff (h : Opened s i) {k : Nat} (hk : k ≤ slots (bytesOf s i)) :
    Inode.WriteRefused (s.icache i).diskInode.size.toNat
      (UInt32.ofNat (direntSize * k)).toNat (UInt32.ofNat direntSize).toNat <->
        direntSize * (k + 1) > maxDataBlocks * blockSize := by
  have hsize : direntSize = 64 := rfl
  have hmax : maxDataBlocks * blockSize = 71168 := rfl
  have hnat : (UInt32.ofNat direntSize).toNat = direntSize := rfl
  have hb := h.readable.bounded
  rw [h.readable.toNat_offset hk, h.readable.size_eq, hnat]
  unfold Inode.WriteRefused Inode.RangeRefused
  lia

theorem Written.listed (h : Listed s i) {e : Dirent} (hinum : e.inum < s.vol.sb.ninodes)
    (hnew : SlotMap.binding (slotAt (bytesOf s i)) (slots (bytesOf s i)) (label e.name) = none)
    {k : Nat} {t : State} (hk : k ≤ slots (bytesOf s i))
    (hslot : e.slot = some (label e.name, e.inum))
    (hw : Written s i e.bytes (UInt32.ofNat (direntSize * k)) (UInt32.ofNat direntSize) t) :
    Listed t i ∧ SlotMap.Stored (slotAt (bytesOf s i)) (slots (bytesOf s i)) k
      (some (label e.name, e.inum)) (slotAt (bytesOf t i)) (slots (bytesOf t i)) := by
  rcases hw.stored h.toOpened hk with ⟨hopened, hstored⟩
  rw [slot_readDirent_bytes, hslot] at hstored
  refine And.intro ?_ hstored
  exact
    { toOpened := hopened
      distinct := hstored.distinct h.distinct hnew
      inside := by
        intro j l inum hj hjslot
        rw [hw.sb]
        cases Classical.em (j = k) with
        | inl heq =>
            rw [heq, hstored.self] at hjslot
            cases hjslot
            exact hinum
        | inr hne =>
            have hjn := hstored.grown j hj hne
            rw [hstored.others j hjn hne] at hjslot
            exact h.inside j l inum hjn hjslot }

theorem Written.cleared (h : Listed s i) {k : Nat} {t : State} (hk : k < slots (bytesOf s i))
    (hw : Written s i (fun _ => 0) (UInt32.ofNat (direntSize * k)) (UInt32.ofNat direntSize) t) :
    Listed t i ∧ SlotMap.Stored (slotAt (bytesOf s i)) (slots (bytesOf s i)) k none
      (slotAt (bytesOf t i)) (slots (bytesOf t i)) := by
  rcases hw.stored h.toOpened (Nat.le_of_lt hk) with ⟨hopened, hstored⟩
  rw [slot_readDirent_zero] at hstored
  refine And.intro ?_ hstored
  exact
    { toOpened := hopened
      distinct := hstored.distinct_clear h.distinct
      inside := by
        intro j l inum hj hjslot
        rw [hw.sb]
        have hne : j ≠ k := by
          intro heq
          rw [heq, hstored.self] at hjslot
          cases hjslot
        have hjn := hstored.grown j hj hne
        rw [hstored.others j hjn hne] at hjslot
        exact h.inside j l inum hjn hjslot }

end Store

/-!
# Adding and removing a name
-/

section Link

variable {s t : State} {i : Nat} {e : Dirent} {r : Int32}

/-- The directory has its maximum size and no free slot. -/
def Full (c : List UInt8) : Prop :=
  c.length = maxDataBlocks * blockSize ∧ forall k, k < slots c -> slotAt c k ≠ none

instance (c : List UInt8) : Decidable (Full c) :=
  inferInstanceAs (Decidable (_ ∧ _))

def freeSlot (c : List UInt8) : Nat := SlotMap.firstFree (slotAt c) (slots c) 0

theorem freeSlot_le (c : List UInt8) : freeSlot c ≤ slots c := by
  have hle := (SlotMap.firstFree_le (slotAt c) (slots c) 0).right
  rw [Nat.zero_add] at hle
  exact hle

theorem slotAt_freeSlot {c : List UInt8} (h : freeSlot c < slots c) :
    slotAt c (freeSlot c) = none := by
  apply SlotMap.slots_firstFree 0
  rw [Nat.zero_add]
  exact h

theorem full_iff (h : Opened s i) :
    Full (bytesOf s i) <->
      direntSize * (freeSlot (bytesOf s i) + 1) > maxDataBlocks * blockSize := by
  have hsize : direntSize = 64 := rfl
  have hmax : maxDataBlocks * blockSize = 71168 := rfl
  have hb := h.readable.bounded
  have hle := freeSlot_le (bytesOf s i)
  have hlen := h.readable.length_bytes
  rw [h.readable.size_eq] at hlen
  unfold Full
  constructor
  · intro hfull
    cases Nat.lt_or_ge (freeSlot (bytesOf s i)) (slots (bytesOf s i)) with
    | inl hlt => exact absurd (slotAt_freeSlot hlt) (hfull.right _ hlt)
    | inr hge =>
        have hend := hfull.left
        lia
  · intro hgt
    refine And.intro (by lia) ?_
    intro k hk
    have hend : freeSlot (bytesOf s i) = 0 + slots (bytesOf s i) := by lia
    exact SlotMap.ne_none_of_firstFree hend k (Nat.zero_le k) (by lia)

theorem dirLink_eq (h : Opened s i) (hinum : e.inum ≠ 0) (hname : e.name 0 ≠ 0)
    (hfits : nameFits e.name = true)
    (hfind : SlotMap.find (slotAt (bytesOf s i)) (label e.name) (slots (bytesOf s i)) 0 = none) :
    dirLink i e s = linkAt i e (UInt32.ofNat (direntSize * freeSlot (bytesOf s i))) s := by
  have hsize := h.readable.size_eq
  have hdirent : direntSize = 64 := rfl
  have hloop := emptyFrom_eq h.readable (s.icache i).diskInode.size.toNat 0 (Nat.zero_le _) (by lia)
  unfold dirLink
  rw [if_pos ⟨h.readable.holding, hinum, hname⟩, dirLookup_none h.readable hfits hfind, ok_bind]
  simp only
  have hzero : UInt32.ofNat (direntSize * 0) = 0 := rfl
  rw [← hzero, hloop]
  rfl

/-- Where the name is bound, `dir_link` refuses, if it can drop its reference again. -/
theorem dirLink_bound (h : Listed s i) (hinum : e.inum ≠ 0) (hname : e.name 0 ≠ 0)
    (hfits : nameFits e.name = true) {k : Nat} {inum : UInt32}
    (hfind : SlotMap.find (slotAt (bytesOf s i)) (label e.name) (slots (bytesOf s i)) 0 =
      some (k, inum)) (hplace : Not (CacheFull s)) (hfree : Unlocked s inum) :
    exists u, dirLink i e s = Except.ok (-1, u) ∧ Untouched s u i := by
  have hin := h.inside_of_find hfind
  rcases iget_returns h.coherent hin hplace with ⟨j, t, hget⟩
  rcases put_after_iget h.coherent h.locked hin hfree hget with ⟨u, hput, hsame⟩
  refine ⟨u, ?_, hsame⟩
  unfold dirLink
  rw [if_pos ⟨h.readable.holding, hinum, hname⟩, dirLookup_some h.readable hfits hfind hget,
    ok_bind]
  simp only
  rw [hput]
  rfl

theorem linkAt_returns (h : Opened s i)
    (hready : Full (bytesOf s i) ∨ Ready s (Call.write i none e.bytes
      (UInt32.ofNat (direntSize * freeSlot (bytesOf s i))) (UInt32.ofNat direntSize))) :
    exists r t, linkAt i e (UInt32.ofNat (direntSize * freeSlot (bytesOf s i))) s =
      Except.ok (r, t) := by
  unfold linkAt
  rcases hready with hfull | hready
  · have hrefused := (refused_iff h (freeSlot_le (bytesOf s i))).mpr ((full_iff h).mp hfull)
    rw [write_refused h hrefused]
    exact ⟨-1, s, rfl⟩
  · rcases write_returns h hready with ⟨r, t, hrun⟩
    have hcases := write_of_ok h hrun
    rw [hrun, ok_bind]
    simp only
    split at hcases
    · rw [hcases.left]
      exact ⟨-1, t, rfl⟩
    · rw [hcases.left]
      exact ⟨0, t, rfl⟩

/-- Where the name is not bound, `dir_link` refuses if the directory is full, and else
stores the record. -/
theorem linkAt_of_ok (h : Listed s i) (hinum : e.inum ≠ 0) (hin : e.inum < s.vol.sb.ninodes)
    (hnew : SlotMap.binding (slotAt (bytesOf s i)) (slots (bytesOf s i)) (label e.name) = none)
    (hrun : linkAt i e (UInt32.ofNat (direntSize * freeSlot (bytesOf s i))) s =
      Except.ok (r, t)) :
    (Full (bytesOf s i) ∧ r = -1 ∧ t = s) ∨
      (Not (Full (bytesOf s i)) ∧ r = 0 ∧ Listed t i ∧
        (t.icache i).inum = (s.icache i).inum ∧ (forall j, j ≠ i -> t.icache j = s.icache j) ∧
        SlotMap.Stored (slotAt (bytesOf s i)) (slots (bytesOf s i)) (freeSlot (bytesOf s i))
          (some (label e.name, e.inum)) (slotAt (bytesOf t i)) (slots (bytesOf t i))) := by
  have hle := freeSlot_le (bytesOf s i)
  have hrefused := (refused_iff h.toOpened hle).trans (full_iff h.toOpened).symm
  have hslot : e.slot = some (label e.name, e.inum) := if_neg hinum
  unfold linkAt at hrun
  rcases bind_ok hrun with ⟨q, hwrite, hq⟩
  rcases q with ⟨n, u⟩
  have hcases := write_of_ok h.toOpened hwrite
  simp only at hq
  split at hcases
  · rename_i hfull
    rcases hcases with ⟨hn, hu⟩
    rw [hn, hu] at hq
    cases hq
    exact Or.inl ⟨hrefused.mp hfull, rfl, rfl⟩
  · rename_i hfull
    rcases hcases with ⟨hn, hw⟩
    rw [hn] at hq
    cases hq
    rcases hw.listed h hin hnew hle hslot with ⟨hlisted, hstored⟩
    exact Or.inr ⟨fun hf => hfull (hrefused.mpr hf), rfl, hlisted, hw.inum, hw.others, hstored⟩

theorem dirUnlink_clears (h : Listed s i) {k : Nat} {l : List UInt8} {inum : UInt32}
    (hk : k < slots (bytesOf s i)) (hslot : slotAt (bytesOf s i) k = some (l, inum))
    (hready : Ready s (Call.write i none (fun _ => 0) (UInt32.ofNat (direntSize * k))
      (UInt32.ofNat direntSize))) :
    exists t, dirUnlink i (UInt32.ofNat (direntSize * k)) s = Except.ok (0, t) ∧ Listed t i ∧
      (t.icache i).inum = (s.icache i).inum ∧
      SlotMap.Stored (slotAt (bytesOf s i)) (slots (bytesOf s i)) k none
        (slotAt (bytesOf t i)) (slots (bytesOf t i)) := by
  have hdirent : direntSize = 64 := rfl
  have hmax : maxDataBlocks * blockSize = 71168 := rfl
  have hb := h.readable.bounded
  have hle := Nat.le_of_lt hk
  have hinum : (readDirent (((bytesOf s i).drop (direntSize * k)).take direntSize)).inum ≠ 0 := by
    intro hzero
    rw [slotAt_eq, (slot_eq_none_iff _).mpr hzero] at hslot
    cases hslot
  have haccepted : Not (Inode.WriteRefused (s.icache i).diskInode.size.toNat
      (UInt32.ofNat (direntSize * k)).toNat (UInt32.ofNat direntSize).toNat) := by
    intro hrefused
    have hgt := (refused_iff h.toOpened hle).mp hrefused
    lia
  rcases write_returns h.toOpened hready with ⟨n, t, hrun⟩
  have hcases := write_of_ok h.toOpened hrun
  rw [if_neg haccepted] at hcases
  rcases hcases with ⟨hn, hw⟩
  rcases hw.cleared h hk with ⟨hlisted, hstored⟩
  refine ⟨t, ?_, hlisted, hw.inum, hstored⟩
  have hguard : Dir.holding i s = true ∧
      (s.icache i).diskInode.size > UInt32.ofNat (direntSize * k) ∧
        (UInt32.ofNat (direntSize * k)).toNat % direntSize = 0 := by
    refine ⟨h.readable.holding, (h.readable.offset_lt_iff hle).mpr hk, ?_⟩
    rw [h.readable.toNat_offset hle]
    exact Nat.mul_mod_right _ _
  unfold dirUnlink
  rw [if_pos hguard, h.readable.read hk, ok_bind]
  simp only
  rw [if_pos (And.intro recordLength_toInt hinum), hrun, ok_bind]
  simp only
  rw [hn, if_neg (fun hne => hne recordLength_toInt)]

end Link

end Dir
end Fs
end NicoOS
