import NicoOS.Fs.Inode.Refinement
import Mathlib.Order.Interval.Finset.Nat

/-!
# Writes in chunks

`file_write` splits a write into chunks that fit a log operation each.  The offset of the
file advances from chunk to chunk, the source does not.
-/

namespace NicoOS
namespace Fs
namespace Inode

open Lib
open Log (Block LogHeader)

/-- A `struct file` of type `FD_INODE`; `inode` is a place of the cache. -/
structure InodeFile where
  writable : Bool
  inode : Nat
  offset : UInt32

def maxWrite : UInt32 := UInt32.ofNat ((maxOpenBlocks - 4) / 2 * blockSize)

/-- Where `file_write` stops: in a call, or at its own assertion. -/
inductive WriteStop where
  | call (stop : Stop)
  | shortWrite
  deriving DecidableEq, Repr

/-- One round of the loop, with the answer of `inode_write`. -/
def writeChunk (answer : Option Int32) (src : Memory) (n1 : UInt32) (f : InodeFile) (s : State) :
    Except Stop (Int32 × InodeFile × State) := do
  let v <- logBeginOp s.vol
  let s <- inodeLock f.inode { s with vol := v }
  let (r, s) <- inodeWrite f.inode answer src f.offset n1 s
  let f := if r > 0 then { f with offset := f.offset + r.toUInt32 } else f
  let s <- inodeUnlock f.inode s
  let v <- logEndOp s.vol
  Except.ok (r, f, { s with vol := v })

def fileWriteFrom (answer : Option Int32) (src : Memory) (n : UInt32) :
    Nat -> UInt32 -> InodeFile -> State -> Except WriteStop (UInt32 × InodeFile × State)
  | 0, i, f, s => Except.ok (i, f, s)
  | fuel + 1, i, f, s =>
      if i < n then do
        let n1 := if n - i > maxWrite then maxWrite else n - i
        let (r, f, s) <- (writeChunk answer src n1 f s).mapError WriteStop.call
        if r < 0 then
          Except.ok (i, f, s)
        else if r.toUInt32 = n1 then
          fileWriteFrom answer src n fuel (i + r.toUInt32) f s
        else
          Except.error WriteStop.shortWrite
      else
        Except.ok (i, f, s)

def fileWrite (answer : Option Int32) (src : Memory) (n : UInt32) (f : InodeFile) (s : State) :
    Except WriteStop (Int32 × InodeFile × State) :=
  if f.writable then do
    let (i, f, s) <- fileWriteFrom answer src n n.toNat 0 f s
    Except.ok (if i = n then 0 else -1, f, s)
  else
    Except.ok (-1, f, s)

/-!
# What a write owes
-/

/-- The bytes of the file at a place of the cache. -/
def bytesAt (s : State) (i : Nat) : List UInt8 :=
  contents s.vol (dinodeAt s.vol (s.icache i).inum)

/-- A regular file that a caller holds open, while no operation is running. -/
structure OpenRegular (s : State) (i : Nat) : Prop where
  coherent : Coherent s
  ref : 0 < (s.icache i).ref
  unlocked : (s.icache i).locked = false
  regular : (dinodeAt s.vol (s.icache i).inum).type = InodeType.file.code
  idle : s.vol.outstanding = 0
  clean : s.vol.lh.n = 0

/-- `file_write` has returned 0, and the file holds the bytes of the caller. -/
structure BytesWritten (src : Memory) (n : UInt32) (f : InodeFile) (s : State)
    (r : Int32 × InodeFile × State) : Prop where
  result : r.1 = 0
  advanced : r.2.1 = { f with offset := f.offset + n }
  files : fileAt r.2.2.vol = Function.update (fileAt s.vol) (s.icache f.inode).inum
    (some
      { device := false
        bytes := splice (bytesAt s f.inode) (sourceBytes src n.toNat) f.offset.toNat })

/-- There is a free block for each block that the file misses up to the end of the write. -/
def RoomFor (f : InodeFile) (n : UInt32) (s : State) : Prop :=
  missing s.vol (dinodeAt s.vol (s.icache f.inode).inum) (lastBlock f.offset.toNat n.toNat) ≤
    s.vol.freeBits.card

def RepeatsChunk (src : Memory) (n : UInt32) : Prop :=
  forall k, k < n.toNat -> src k = src (k % maxWrite.toNat)

/-!
# Lists of bytes
-/

section Lists

variable {c a b : List UInt8} {offset : Nat}

theorem length_splice (h : offset ≤ c.length) :
    (splice c a offset).length = max c.length (offset + a.length) := by
  unfold splice
  rw [List.length_append, List.length_append, List.length_take, List.length_drop]
  omega

theorem splice_append (h : offset ≤ c.length) :
    splice (splice c a offset) b (offset + a.length) = splice c (a ++ b) offset := by
  have htake : (c.take offset ++ a).length = offset + a.length := by
    rw [List.length_append, List.length_take]
    omega
  have hfirst : (splice c a offset).take (offset + a.length) = c.take offset ++ a := by
    unfold splice
    rw [<- htake]
    exact List.take_left
  have hrest : (splice c a offset).drop (offset + a.length + b.length) =
      c.drop (offset + (a ++ b).length) := by
    unfold splice
    rw [<- htake, List.drop_length_add_append, List.drop_drop, htake, List.length_append]
    congr 1
    omega
  show (splice c a offset).take (offset + a.length) ++ b ++
    (splice c a offset).drop (offset + a.length + b.length) = _
  rw [hfirst, hrest]
  unfold splice
  rw [List.append_assoc (c.take offset)]

theorem splice_injective (hlen : a.length = b.length)
    (h : splice c a offset = splice c b offset) : a = b := by
  unfold splice at h
  rw [hlen] at h
  exact List.append_cancel_left (List.append_cancel_right h)

def repeated (src : Memory) : Memory := fun k => src (k % maxWrite.toNat)

theorem maxWrite_toNat : maxWrite.toNat = 1536 := rfl

theorem sourceBytes_repeated {src : Memory} {m : Nat} (h : m ≤ 1536) :
    sourceBytes (repeated src) m = sourceBytes src m := by
  unfold sourceBytes
  apply List.map_congr_left
  intro k hk
  have hlt := List.mem_range.mp hk
  unfold repeated
  rw [maxWrite_toNat, Nat.mod_eq_of_lt (by omega)]

theorem sourceBytes_chunk (src : Memory) (m : Nat) :
    sourceBytes (repeated src) (1536 + m) =
      sourceBytes src 1536 ++ sourceBytes (repeated src) m := by
  rw [<- sourceBytes_repeated (Nat.le_refl 1536)]
  unfold sourceBytes
  rw [List.range_add, List.map_append, List.map_map]
  congr 1
  apply List.map_congr_left
  intro k _
  show repeated src (1536 + k) = repeated src k
  unfold repeated
  rw [maxWrite_toNat, Nat.add_mod_left]

theorem sourceBytes_split (src : Memory) (m : Nat) :
    sourceBytes (repeated src) m =
      sourceBytes src (min 1536 m) ++ sourceBytes (repeated src) (m - min 1536 m) := by
  by_cases hm : m ≤ 1536
  · rw [Nat.min_eq_right hm, Nat.sub_self, sourceBytes_repeated hm]
    exact (List.append_nil _).symm
  · have hsum : m = 1536 + (m - 1536) := by omega
    have hmin : min 1536 m = 1536 := by omega
    rw [hmin, <- sourceBytes_chunk, <- hsum]

theorem sourceBytes_eq_iff {src src' : Memory} {n : Nat} :
    sourceBytes src n = sourceBytes src' n <-> forall k, k < n -> src k = src' k := by
  unfold sourceBytes
  rw [List.map_inj_left]
  constructor
  · intro h k hk
    exact h k (List.mem_range.mpr hk)
  · intro h k hk
    exact h k (List.mem_range.mp hk)

end Lists

/-!
# Resources
-/

section Resources

variable {v w : Volume} {d e f : Dinode} {inum offset n : UInt32} {src : Memory} {r : Int32}

theorem touched_le {a len : Nat} (h : len ≤ 1536) : touched a len ≤ 4 := by
  have hblock : blockSize = 512 := rfl
  unfold touched
  rw [hblock]
  split
  · omega
  · omega

theorem lastBlock_sub_le (a : Nat) {len : Nat} (hlen : 0 < len) :
    lastBlock a len - a / blockSize ≤ touched a len := by
  have hblock : blockSize = 512 := rfl
  unfold lastBlock roundUp touched
  rw [if_neg (by omega), hblock]
  omega

/-- A file misses no more blocks than the write touches, and the indirect block. -/
theorem missing_le_touched (hf : Filled v d) {a len : Nat} (ha : a ≤ d.size.toNat)
    (hlen : 0 < len) : missing v d (lastBlock a len) ≤ touched a len + 1 := by
  have hblock : blockSize = 512 := rfl
  have hsub : (Finset.range (lastBlock a len)).filter (fun bn => blockOf v d bn = 0) ⊆
      Finset.Ico (a / 512) (lastBlock a len) := by
    intro bn hbn
    rcases Finset.mem_filter.mp hbn with ⟨hlt, hzero⟩
    apply Finset.mem_Ico.mpr
    constructor
    · have hge : Not (bn * blockSize < d.size.toNat) := fun hin => hf.mapped bn hin hzero
      rw [hblock] at hge
      omega
    · exact Finset.mem_range.mp hlt
  have hcard := Finset.card_le_card hsub
  rw [Nat.card_Ico] at hcard
  have htouched : touched a len = (a + len - 1) / 512 - a / 512 + 1 := by
    unfold touched
    rw [if_neg (by omega), hblock]
  have hlast : lastBlock a len = (a + len - 1) / 512 + 1 := by
    unfold lastBlock roundUp
    rw [hblock]
    omega
  have hind : (if ndirectDataBlocks < lastBlock a len ∧ d.indirect = 0 then 1 else 0) ≤ 1 := by
    split
    · exact Nat.le_refl 1
    · exact Nat.zero_le 1
  unfold missing
  omega

theorem missing_mono {last last' : Nat} (h : last ≤ last') :
    missing v d last ≤ missing v d last' := by
  unfold missing
  apply Nat.add_le_add
  · apply Finset.card_le_card
    apply Finset.filter_subset_filter
    exact Finset.range_subset_range.mpr h
  · split
    · rename_i hind
      rw [if_pos ⟨Nat.lt_of_lt_of_le hind.left h, hind.right⟩]
    · exact Nat.zero_le _

theorem missing_updated (hheld : Held w (dinodeAt v) inum e) (haddrs : f.addrs = e.addrs)
    (last : Nat) : missing (updated w inum f) f last = missing w e last := by
  have hslots : forall s, slotAddr (updated w inum f) f s = slotAddr w e s := by
    intro s
    rw [slotAddr_congr_addrs _ haddrs]
    apply slotAddr_congr
    intro hind
    apply updated_blk_inUse hheld.laidOut hheld.inside
    exact hheld.inUse (s := Slot.addr ndirectDataBlocks) hind
  have hind : f.indirect = e.indirect := by
    unfold Dinode.indirect Dinode.addr
    rw [haddrs]
  unfold missing blockOf
  simp only [hslots, hind]

theorem freeBits_updated (hheld : Held w (dinodeAt v) inum e) :
    (updated w inum f).freeBits = w.freeBits := by
  apply Volume.freeBits_congr hheld.laidOut.numbered
  · rfl
  · intro b hb
    apply updated_blk hheld.laidOut f hheld.inside
    intro hmem
    exact hheld.laidOut.inode_apart_bmap.not_mem hmem hb

/-- A write takes the blocks that are missing before it and not behind it. -/
theorem writeFile_charged (hs : Sound v) (hlive : Live v (dinodeAt v) inum)
    (hd : dinodeAt v inum = d)
    (haccepted : Not (WriteRefused d.size.toNat offset.toNat n.toNat)) {last : Nat}
    (hlast : offset.toNat + n.toNat ≤ last * blockSize)
    (hrun : writeFile inum src offset n d v = Except.ok (r, e, w)) :
    w.freeBits.card + missing v d last = v.freeBits.card + missing w e last ∧
      w.outstanding = v.outstanding := by
  have hheld := hs.held hlive
  rw [hd] at hheld
  have hrange : Not (RangeRefused d.size.toNat offset.toNat n.toNat) :=
    fun h => haccepted (Or.inl h)
  have hmax : offset.toNat + n.toNat ≤ maxDataBlocks * blockSize := by
    unfold WriteRefused at haccepted
    omega
  have hzero : (0 : UInt32).toNat = 0 := rfl
  have hloop := writeFrom_meets hheld last last n.toNat n 0 offset src (Nat.zero_le _)
    (Nat.sub_le _ _) (by rw [hzero, Nat.sub_zero]; exact hmax)
    (by rw [hzero, Nat.sub_zero]; exact hlast) (Nat.le_succ last)
  unfold writeFile at hrun
  split at hrun
  · rename_i hbad
    exact absurd ((badRange_iff d offset n).mp hbad) hrange
  · split at hrun
    · rename_i hgt
      have hgt' : maxDataBlocks * blockSize < (offset + n).toNat := hgt
      rw [toNat_add_of_accepted hrange] at hgt'
      omega
    · rcases bind_ok hrun with ⟨⟨offset', e1, w1⟩, hfrom, hend⟩
      rcases hloop.of_ok hfrom with ⟨-, hmoved, -, hcharged⟩
      have hheld' := hheld.moved hmoved
      have hend : writeEnd inum n offset' e1 w1 = Except.ok (r, e, w) := hend
      unfold writeEnd at hend
      split at hend
      · rcases bind_ok hend with ⟨w2, hupdate, hend⟩
        have hw2 := (inodeUpdate_meets inum { e1 with size := offset' } w1).of_ok hupdate
        cases hend
        have hmissing := missing_updated (f := { e1 with size := offset' }) hheld' rfl last
        rw [hw2, freeBits_updated hheld', hmissing]
        exact ⟨hcharged.free, hcharged.logs.outstanding⟩
      · cases hend
        exact ⟨hcharged.free, hcharged.logs.outstanding⟩

end Resources

/-!
# One chunk
-/

/-- The file holds `data` from `offset` on; `last` bounds the blocks that are counted. -/
structure Stored (s : State) (i : Nat) (data : List UInt8) (offset last : Nat) (t : State) :
    Prop where
  opened : OpenRegular t i
  inum : (t.icache i).inum = (s.icache i).inum
  bytes : bytesAt t i = splice (bytesAt s i) data offset
  others : forall j, j ≠ (s.icache i).inum -> fileAt t.vol j = fileAt s.vol j
  free : t.vol.freeBits.card + missing s.vol (dinodeAt s.vol (s.icache i).inum) last =
    s.vol.freeBits.card + missing t.vol (dinodeAt t.vol (t.icache i).inum) last

section Chunk

variable {s t : State} {i last : Nat} {data rest : List UInt8} {offset : Nat}

theorem OpenRegular.live (h : OpenRegular s i) :
    Live s.vol (dinodeAt s.vol) (s.icache i).inum := by
  constructor
  · exact h.coherent.inside i h.ref
  · rw [h.regular]
    decide

theorem OpenRegular.fileAt_eq (h : OpenRegular s i) :
    fileAt s.vol (s.icache i).inum = some { device := false, bytes := bytesAt s i } := by
  rw [fileAt_of_live h.live, h.regular]
  rfl

theorem Stored.nothing (h : OpenRegular s i) (last : Nat) (hoff : offset ≤ (bytesAt s i).length) :
    Stored s i [] offset last s where
  opened := h
  inum := rfl
  bytes := by
    unfold splice
    rw [List.append_nil, List.length_nil, Nat.add_zero, List.take_append_drop]
  others _ _ := rfl
  free := rfl

theorem Stored.append {u : State} (hoff : offset ≤ (bytesAt s i).length)
    (h : Stored s i data offset last t) (hrest : Stored t i rest (offset + data.length) last u) :
    Stored s i (data ++ rest) offset last u where
  opened := hrest.opened
  inum := hrest.inum.trans h.inum
  bytes := by rw [hrest.bytes, h.bytes, splice_append hoff]
  others j hj := by
    rw [hrest.others j, h.others j hj]
    rw [h.inum]
    exact hj
  free := by
    have hfirst := h.free
    have hsecond := hrest.free
    omega

theorem Stored.files (h : Stored s i data offset last t) :
    fileAt t.vol = Function.update (fileAt s.vol) (s.icache i).inum
      (some { device := false, bytes := splice (bytesAt s i) data offset }) := by
  funext j
  by_cases hj : j = (s.icache i).inum
  · rw [hj, Function.update_self, <- h.inum, h.opened.fileAt_eq, h.bytes]
  · rw [Function.update_of_ne hj, h.others j hj]

def lockedInode (s : State) (i : Nat) : CachedInode :=
  { s.icache i with
    locked := true
    valid := true
    diskInode := dinodeAt s.vol (s.icache i).inum }

theorem inodeLock_free (h : Coherent s) (hi : 0 < (s.icache i).ref)
    (hfree : (s.icache i).locked = false)
    (htype : (dinodeAt s.vol (s.icache i).inum).type ≠ InodeType.none.code) :
    inodeLock i s = Except.ok (s.setInode i (lockedInode s i)) := by
  unfold inodeLock lockedInode
  have hge : (s.icache i).ref ≥ 1 := hi
  simp only
  rw [if_pos hge, if_neg (by rw [hfree]; exact Bool.false_ne_true)]
  split
  · rename_i hvalid
    rw [(h.loaded i hi hvalid).left, hvalid]
  · rfl

theorem Coherent.locked (h : Coherent s) (hi : 0 < (s.icache i).ref)
    (hfree : (s.icache i).locked = false)
    (htype : (dinodeAt s.vol (s.icache i).inum).type ≠ InodeType.none.code) :
    Coherent (s.setInode i (lockedInode s i)) := by
  have hmeets := lock_meets h i
  rw [perform, inodeLock_free h hi hfree htype] at hmeets
  exact hmeets.left

theorem Coherent.unlocked (h : Coherent s) (hlocked : (s.icache i).locked = true) :
    inodeUnlock i s = Except.ok (s.setInode i { s.icache i with locked := false }) ∧
      Coherent (s.setInode i { s.icache i with locked := false }) := by
  have hunlock : inodeUnlock i s =
      Except.ok (s.setInode i { s.icache i with locked := false }) := by
    unfold inodeUnlock
    simp only
    rw [if_pos ⟨hlocked, (h.held i hlocked).left⟩]
  have hmeets := unlock_meets h i
  rw [perform, hunlock] at hmeets
  exact ⟨hunlock, hmeets.left⟩

def inChunk (s : State) (i : Nat) : State :=
  ({ s with vol := { s.vol with outstanding := 1 } } : State).setInode i (lockedInode s i)

/-- The state behind a chunk that has left the volume `w` and the inode `d`. -/
def behindChunk (s : State) (i : Nat) (d : Dinode) (w : Volume) : State :=
  { vol := { w with lh := { w.lh with n := 0 }, outstanding := 0 }
    icache := fun j =>
      if j = i then { s.icache i with locked := false, valid := true, diskInode := d }
      else s.icache j }

theorem OpenRegular.begin_lock (h : OpenRegular s i) :
    logBeginOp s.vol = Except.ok { s.vol with outstanding := 1 } ∧
      inodeLock i { s with vol := { s.vol with outstanding := 1 } } =
        Except.ok (inChunk s i) ∧ Coherent (inChunk s i) := by
  have hcoherent : Coherent { s with vol := { s.vol with outstanding := 1 } } :=
    h.coherent.relog s.vol.lh 1
  have htype := h.live.right
  refine ⟨?_, ?_, ?_⟩
  · have hroom : Not (s.vol.lh.n + (s.vol.outstanding + 1) * maxOpenBlocks > logSize) := by
      rw [h.clean, h.idle]
      decide
    unfold logBeginOp
    rw [if_neg hroom, h.idle]
  · exact inodeLock_free hcoherent h.ref h.unlocked htype
  · exact hcoherent.locked h.ref h.unlocked htype

theorem inChunk_place (s : State) (i : Nat) : (inChunk s i).icache i = lockedInode s i :=
  setInode_self _ i _

theorem OpenRegular.write_meets (h : OpenRegular s i) (answer : Option Int32) (src : Memory)
    (off n : UInt32) (hpos : 0 < n.toNat) (hn : n.toNat ≤ 1536)
    (hoff : off.toNat ≤ (bytesAt s i).length)
    (hmax : off.toNat + n.toNat ≤ maxDataBlocks * blockSize)
    (hlast : off.toNat + n.toNat ≤ last * blockSize) :
    Meets (fun r => exists d w, r = (n.toInt32,
          { inChunk s i with vol := w }.setInode i { lockedInode s i with diskInode := d }) ∧
        WriteDone (inChunk s i).vol (s.icache i).inum (dinodeAt s.vol (s.icache i).inum) src off n
          (n.toInt32, d, w) ∧
        w.freeBits.card + missing s.vol (dinodeAt s.vol (s.icache i).inum) last =
          s.vol.freeBits.card + missing w d last ∧ w.outstanding = 1)
      (fun stop => stop = Stop.outOfBlocks ∧
        s.vol.freeBits.card <
          missing s.vol (dinodeAt s.vol (s.icache i).inum) (lastBlock off.toNat n.toNat))
      (inodeWrite i answer src off n (inChunk s i)) := by
  have hcoherent := h.begin_lock.right.right
  have hlive : Live (inChunk s i).vol (dinodeAt (inChunk s i).vol) (s.icache i).inum := h.live
  have hsize : off.toNat ≤ (dinodeAt s.vol (s.icache i).inum).size.toNat := by
    rw [bytesAt, length_contents] at hoff
    exact hoff
  have hmaxEq : maxDataBlocks * blockSize = 71168 := rfl
  have haccepted : Not (WriteRefused (dinodeAt s.vol (s.icache i).inum).size.toNat off.toNat
      n.toNat) := by
    unfold WriteRefused RangeRefused
    omega
  have hfile : (lockedInode s i).diskInode.type ≠ InodeType.device.code := by
    show (dinodeAt s.vol (s.icache i).inum).type ≠ _
    rw [h.regular]
    decide
  have hmeets := writeFile_meets hcoherent.sound (d := dinodeAt s.vol (s.icache i).inum) rfl hlive
    src off n
  unfold inodeWrite
  simp only
  rw [inChunk_place, if_neg hfile]
  cases hrun : writeFile (lockedInode s i).inum src off n (lockedInode s i).diskInode
      (inChunk s i).vol with
  | ok r =>
      rcases r with ⟨r, d, w⟩
      have hdone := hmeets.of_ok hrun
      unfold WriteReply at hdone
      rw [if_neg haccepted] at hdone
      have hr : r = n.toInt32 := hdone.result
      rw [hr] at hdone
      rcases writeFile_charged hcoherent.sound hlive rfl haccepted hlast hrun with
        ⟨hfree, hout⟩
      show exists d w, _ ∧ _
      rw [hr]
      exact ⟨d, w, rfl, hdone, hfree, hout⟩
  | error stop =>
      rcases hmeets.of_error hrun with ⟨_, _, hstop⟩
      have hfilled := h.coherent.sound.filled _ h.live
      have hmissing := missing_le_touched hfilled hsize hpos
      have htouched := touched_le (a := off.toNat) hn
      cases stop with
      | outOfBlocks => exact ⟨rfl, hstop⟩
      | logFull =>
          have hload : logSize ≤ logLoad (inChunk s i).vol (writeBlocks (inChunk s i).vol
              (dinodeAt s.vol (s.icache i).inum) off.toNat n.toNat) := hstop
          have hmost := logLoad_writeBlocks_le (inChunk s i).vol
            (dinodeAt s.vol (s.icache i).inum) off.toNat n.toNat
          have hentry := card_entryBlocks_le (inChunk s i).vol
            (dinodeAt s.vol (s.icache i).inum) (lastBlock off.toNat n.toNat)
          have hfile := card_fileBlocks_le (inChunk s i).vol
            (dinodeAt s.vol (s.icache i).inum) (off.toNat / blockSize)
            (lastBlock off.toNat n.toNat)
          have hunion := Finset.card_union_le
            (entryBlocks (inChunk s i).vol (dinodeAt s.vol (s.icache i).inum)
              (lastBlock off.toNat n.toNat))
            (fileBlocks (inChunk s i).vol (dinodeAt s.vol (s.icache i).inum)
              (off.toNat / blockSize) (lastBlock off.toNat n.toNat))
          have hblocks : lastBlock off.toNat n.toNat - off.toNat / blockSize ≤
              touched off.toNat n.toNat := lastBlock_sub_le _ hpos
          have hclean : (inChunk s i).vol.lh.n = 0 := h.clean
          have hsame : missing (inChunk s i).vol (dinodeAt s.vol (s.icache i).inum)
              (lastBlock off.toNat n.toNat) = missing s.vol (dinodeAt s.vol (s.icache i).inum)
                (lastBlock off.toNat n.toNat) := rfl
          have hsizeLog : logSize = 30 := rfl
          omega
      | noOperation =>
          have hout : (1 : Nat) = 0 := hstop
          cases hout
      | _ => cases hstop

theorem OpenRegular.unlock_end (h : OpenRegular s i) {src : Memory} {off n : UInt32}
    {d : Dinode} {w : Volume}
    (hdone : WriteDone (inChunk s i).vol (s.icache i).inum (dinodeAt s.vol (s.icache i).inum) src
      off n (n.toInt32, d, w))
    (haccepted : Not (WriteRefused (dinodeAt s.vol (s.icache i).inum).size.toNat off.toNat
      n.toNat))
    (hout : w.outstanding = 1) :
    exists u, inodeUnlock i ({ inChunk s i with vol := w }.setInode i
          { lockedInode s i with diskInode := d }) = Except.ok u ∧
      logEndOp u.vol = Except.ok (behindChunk s i d w).vol ∧
      { u with vol := (behindChunk s i d w).vol } = behindChunk s i d w ∧
      Coherent (behindChunk s i d w) := by
  have hcoherent := h.begin_lock.right.right
  have hplace := inChunk_place s i
  have hlocked : ((inChunk s i).icache i).locked = true := by
    rw [hplace]
    rfl
  have hfile : ((inChunk s i).icache i).diskInode.type ≠ InodeType.device.code := by
    rw [hplace]
    show (dinodeAt s.vol (s.icache i).inum).type ≠ _
    rw [h.regular]
    decide
  have hdone' : WriteDone (inChunk s i).vol ((inChunk s i).icache i).inum
      ((inChunk s i).icache i).diskInode src off n (n.toInt32, d, w) := by
    rw [hplace]
    exact hdone
  have hpost := writeDone_post hcoherent hlocked hfile none (by rw [hplace]; exact haccepted) hdone'
  have hwritten := hpost.left
  rw [hplace] at hwritten
  have hself : ({ inChunk s i with vol := w }.setInode i
      { lockedInode s i with diskInode := d }).icache i =
        { lockedInode s i with diskInode := d } := setInode_self _ i _
  have hunlock := hwritten.unlocked (i := i) (by rw [hself]; rfl)
  rw [hself] at hunlock
  have hend : { ({ inChunk s i with vol := w }.setInode i
        { lockedInode s i with diskInode := d }).setInode i
          { lockedInode s i with diskInode := d, locked := false } with
      vol := (behindChunk s i d w).vol } = behindChunk s i d w := by
    have hcache : (fun j => if j = i then
          ({ lockedInode s i with diskInode := d, locked := false } : CachedInode)
        else ({ inChunk s i with vol := w }.setInode i
          { lockedInode s i with diskInode := d }).icache j) = (behindChunk s i d w).icache := by
      funext j
      by_cases hj : j = i
      · show (if j = i then _ else _) = if j = i then _ else _
        rw [if_pos hj, if_pos hj]
        rfl
      · show (if j = i then _ else _) = if j = i then _ else _
        rw [if_neg hj, if_neg hj, setInode_of_ne _ _ hj]
        exact setInode_of_ne _ _ hj
    exact congrArg (fun c => ({ vol := (behindChunk s i d w).vol, icache := c } : State)) hcache
  refine ⟨_, hunlock.left, ?_, hend, ?_⟩
  · show logEndOp w = _
    unfold logEndOp
    rw [hout]
    rfl
  · rw [<- hend]
    exact hunlock.right.relog { w.lh with n := 0 } 0

/-- A chunk stores the first bytes of the source and moves the offset behind them. -/
theorem writeChunk_meets (answer : Option Int32) (src : Memory) (n : UInt32) (f : InodeFile)
    (h : OpenRegular s f.inode) (hpos : 0 < n.toNat) (hn : n.toNat ≤ 1536)
    (hoff : f.offset.toNat ≤ (bytesAt s f.inode).length)
    (hmax : f.offset.toNat + n.toNat ≤ maxDataBlocks * blockSize)
    (hlast : f.offset.toNat + n.toNat ≤ last * blockSize) :
    Meets (fun r => r.1 = n.toInt32 ∧ r.2.1 = { f with offset := f.offset + n } ∧
        Stored s f.inode (sourceBytes src n.toNat) f.offset.toNat last r.2.2)
      (fun stop => stop = Stop.outOfBlocks ∧
        s.vol.freeBits.card < missing s.vol (dinodeAt s.vol (s.icache f.inode).inum)
          (lastBlock f.offset.toNat n.toNat))
      (writeChunk answer src n f s) := by
  rcases h.begin_lock with ⟨hbegin, hlock, hcoherent⟩
  have hint := toInt_ofNat_small (m := n.toNat) (by omega)
  rw [UInt32.ofNat_toNat] at hint
  have hgt : n.toInt32 > 0 := by
    show (0 : Int32) < n.toInt32
    rw [Int32.lt_iff_toInt_lt, hint]
    show (0 : Int) < _
    omega
  unfold writeChunk
  rw [hbegin, ok_bind, hlock, ok_bind]
  apply Meets.bind (h.write_meets answer src f.offset n hpos hn hoff hmax hlast)
  intro r hr
  rcases hr with ⟨d, w, hr, hdone, hfree, hout⟩
  have hmaxEq : maxDataBlocks * blockSize = 71168 := rfl
  have haccepted : Not (WriteRefused (dinodeAt s.vol (s.icache f.inode).inum).size.toNat
      f.offset.toNat n.toNat) := by
    rw [bytesAt, length_contents] at hoff
    unfold WriteRefused RangeRefused
    omega
  rcases h.unlock_end hdone haccepted hout with ⟨u, hunlock, hendOp, hend, hlast'⟩
  rw [hr]
  simp only
  rw [if_pos hgt]
  show Meets _ _ (inodeUnlock f.inode _ >>= _)
  rw [hunlock, ok_bind, hendOp, ok_bind]
  have hself : ((behindChunk s f.inode d w).icache f.inode) =
      { s.icache f.inode with locked := false, valid := true, diskInode := d } := if_pos rfl
  have hinum : ((behindChunk s f.inode d w).icache f.inode).inum = (s.icache f.inode).inum := by
    rw [hself]
  have hdinode : dinodeAt (behindChunk s f.inode d w).vol (s.icache f.inode).inum = d :=
    hdone.stored
  have htype : d.type = (dinodeAt s.vol (s.icache f.inode).inum).type := by
    have hfields : d = { dinodeAt s.vol (s.icache f.inode).inum with
        size := d.size, addrs := d.addrs } := hdone.fields
    rw [hfields]
  refine ⟨rfl, ?_, ?_⟩
  · rfl
  · rw [hend]
    constructor
    · constructor
      · exact hlast'
      · rw [hself]
        exact h.ref
      · rw [hself]
      · rw [hinum, hdinode, htype]
        exact h.regular
      · rfl
      · rfl
    · exact hinum
    · unfold bytesAt
      rw [hinum, hdinode]
      exact hdone.contents
    · intro j hj
      exact hdone.stepped.fileAt_of_ne hj
    · rw [hinum, hdinode]
      exact hfree

end Chunk

/-!
# The loop
-/

section Loop

variable {s : State} {f : InodeFile} {src : Memory} {n : UInt32} {last : Nat}

/-- Where the loop stops that has `m` bytes left. -/
def RoomStops (s : State) (i : Nat) (last : Nat) (stop : WriteStop) : Prop :=
  stop = WriteStop.call Stop.outOfBlocks ∧
    s.vol.freeBits.card < missing s.vol (dinodeAt s.vol (s.icache i).inum) last

theorem toNat_chunk {i : UInt32} (hi : i.toNat < n.toNat) :
    (if n - i > maxWrite then maxWrite else n - i).toNat = min 1536 (n.toNat - i.toNat) := by
  have hsub : (n - i).toNat = n.toNat - i.toNat := by
    apply UInt32.toNat_sub_of_le
    exact UInt32.le_iff_toNat_le.mpr (Nat.le_of_lt hi)
  split
  · rename_i hgt
    have hgt' : maxWrite.toNat < (n - i).toNat := hgt
    rw [hsub, maxWrite_toNat] at hgt'
    rw [maxWrite_toNat]
    omega
  · rename_i hle
    have hle' : Not (maxWrite.toNat < (n - i).toNat) := hle
    rw [hsub, maxWrite_toNat] at hle'
    rw [hsub]
    omega

theorem not_negative {m : UInt32} (hm : m.toNat ≤ 1536) : Not (m.toInt32 < 0) := by
  have hmaxEq : maxDataBlocks * blockSize = 71168 := rfl
  have hint := toInt_ofNat_small (m := m.toNat) (by omega)
  rw [UInt32.ofNat_toNat] at hint
  rw [Int32.lt_iff_toInt_lt, hint]
  show Not ((m.toNat : Int) < 0)
  omega

/-- The loop writes the first chunk of the source again and again. -/
theorem fileWriteFrom_meets (src : Memory) (n : UInt32) (last : Nat) (answer : Option Int32)
    (fuel : Nat) :
    forall (i : UInt32) (f : InodeFile) (s : State), OpenRegular s f.inode ->
      i.toNat ≤ n.toNat -> n.toNat - i.toNat ≤ fuel ->
      f.offset.toNat ≤ (bytesAt s f.inode).length ->
      f.offset.toNat + (n.toNat - i.toNat) ≤ maxDataBlocks * blockSize ->
      lastBlock f.offset.toNat (n.toNat - i.toNat) = last ->
      Meets (fun r => r.1 = n ∧ r.2.1 = { f with offset := f.offset + (n - i) } ∧
          Stored s f.inode (sourceBytes (repeated src) (n.toNat - i.toNat)) f.offset.toNat last
            r.2.2)
        (RoomStops s f.inode last) (fileWriteFrom answer src n fuel i f s) := by
  have hblock : blockSize = 512 := rfl
  have hdone : forall (i : UInt32) (f : InodeFile) (s : State), OpenRegular s f.inode ->
      i.toNat = n.toNat -> f.offset.toNat ≤ (bytesAt s f.inode).length ->
      i = n ∧ f = { f with offset := f.offset + (n - i) } ∧
        Stored s f.inode (sourceBytes (repeated src) (n.toNat - i.toNat)) f.offset.toNat last
          s := by
    intro i f s h hi hoff
    have heq : i = n := UInt32.toNat_inj.mp hi
    rw [heq, Nat.sub_self, UInt32.sub_self, UInt32.add_zero]
    exact ⟨rfl, rfl, Stored.nothing h last hoff⟩
  induction fuel with
  | zero =>
      intro i f s h hi hfuel hoff _ _
      exact hdone i f s h (by omega) hoff
  | succ fuel ih =>
      intro i f s h hi hfuel hoff hmax hlast
      unfold fileWriteFrom
      split
      · rename_i hlt
        have hlt' : i.toNat < n.toNat := hlt
        have hchunk := toNat_chunk hlt'
        simp only
        generalize (if n - i > maxWrite then maxWrite else n - i) = m at hchunk ⊢
        have hwithin : f.offset.toNat + m.toNat ≤ last * blockSize := by
          rw [<- hlast]
          unfold lastBlock roundUp
          rw [hblock]
          omega
        have hone := writeChunk_meets answer src m f h (by omega) (by omega) hoff (by omega) hwithin
        apply Meets.bind (hone.mapError (F := RoomStops s f.inode last) _)
        · intro r hr
          rcases r with ⟨r, f', t⟩
          rcases hr with ⟨hr, hf, hstored⟩
          simp only at hr hf hstored
          rw [hr]
          simp only
          rw [if_neg (not_negative (by omega)), hf]
          have hstep : (i + m).toNat = i.toNat + m.toNat := by
            rw [UInt32.toNat_add]
            have hn := n.toNat_lt
            omega
          have hmove : (f.offset + m).toNat = f.offset.toNat + m.toNat := by
            have hmaxEq : maxDataBlocks * blockSize = 71168 := rfl
            rw [UInt32.toNat_add]
            omega
          have hlen : (sourceBytes src m.toNat).length = m.toNat := length_sourceBytes src m.toNat
          have hbytes : (bytesAt t f.inode).length =
              max (bytesAt s f.inode).length (f.offset.toNat + m.toNat) := by
            rw [hstored.bytes, length_splice hoff, hlen]
          have hnext := ih (i + m) { f with offset := f.offset + m } t hstored.opened (by omega)
            (by omega)
          simp only at hnext
          rw [hmove, hstep] at hnext
          have hsum : f.offset.toNat + m.toNat + (n.toNat - (i.toNat + m.toNat)) =
              f.offset.toNat + (n.toNat - i.toNat) := by omega
          have hrest := hnext (by omega) (by omega) (by
            rw [<- hlast]
            unfold lastBlock
            rw [hsum])
          show Meets _ _ (if m.toInt32.toUInt32 = m then _ else _)
          have hback : m.toInt32.toUInt32 = m := rfl
          rw [if_pos hback, hback]
          apply hrest.mono
          · intro r hr
            rcases hr with ⟨hi', hf', hstored'⟩
            refine ⟨hi', ?_, ?_⟩
            · rw [hf', UInt32.add_assoc]
              have hadd : m + (n - (i + m)) = n - i := by grind
              rw [hadd]
            · have hsplit : sourceBytes (repeated src) (n.toNat - i.toNat) =
                  sourceBytes src m.toNat ++
                    sourceBytes (repeated src) (n.toNat - (i.toNat + m.toNat)) := by
                have hrem : n.toNat - (i.toNat + m.toNat) = n.toNat - i.toNat - m.toNat := by omega
                rw [hrem, hchunk]
                exact sourceBytes_split src _
              rw [hsplit]
              apply hstored.append hoff
              rw [hlen]
              exact hstored'
          · intro stop hstop
            refine ⟨hstop.left, ?_⟩
            have hfree := hstored.free
            have hless := hstop.right
            omega
        · intro stop hstop
          refine ⟨congrArg WriteStop.call hstop.left, ?_⟩
          apply Nat.lt_of_lt_of_le hstop.right
          apply missing_mono
          rw [<- hlast]
          unfold lastBlock roundUp
          apply Nat.div_le_div_right
          omega
      · rename_i hge
        have hge' : Not (i.toNat < n.toNat) := hge
        exact hdone i f s h (by omega) hoff

theorem fileWrite_meets (src : Memory) (n : UInt32) (answer : Option Int32)
    (h : OpenRegular s f.inode)
    (hwritable : f.writable = true) (hoff : f.offset.toNat ≤ (bytesAt s f.inode).length)
    (hmax : f.offset.toNat + n.toNat ≤ maxDataBlocks * blockSize) :
    Meets (fun r => r.1 = 0 ∧ r.2.1 = { f with offset := f.offset + n } ∧
        Stored s f.inode (sourceBytes (repeated src) n.toNat) f.offset.toNat
          (lastBlock f.offset.toNat n.toNat) r.2.2)
      (RoomStops s f.inode (lastBlock f.offset.toNat n.toNat)) (fileWrite answer src n f s) := by
  have hzero : (0 : UInt32).toNat = 0 := rfl
  have hloop := fileWriteFrom_meets src n (lastBlock f.offset.toNat n.toNat) answer n.toNat 0 f s h
    (Nat.zero_le _) (Nat.sub_le _ _) hoff
  rw [hzero, Nat.sub_zero, UInt32.sub_zero] at hloop
  unfold fileWrite
  rw [if_pos hwritable]
  apply Meets.bind (hloop hmax rfl)
  intro r hr
  rcases r with ⟨i, f', t⟩
  rcases hr with ⟨hi, hf, hstored⟩
  refine ⟨?_, hf, hstored⟩
  show (if i = n then (0 : Int32) else -1) = 0
  rw [if_pos hi]

/-- Behind the write the file misses no block up to its end. -/
theorem Stored.missing_eq_zero {t : State} {i offset len : Nat} {data : List UInt8}
    (h : Stored s i data offset (lastBlock offset len) t) (hoff : offset ≤ (bytesAt s i).length)
    (hlen : data.length = len) :
    missing t.vol (dinodeAt t.vol (t.icache i).inum) (lastBlock offset len) = 0 := by
  have hblock : blockSize = 512 := rfl
  have hfilled := h.opened.coherent.sound.filled _ h.opened.live
  have hsize : (dinodeAt t.vol (t.icache i).inum).size.toNat =
      max (bytesAt s i).length (offset + data.length) := by
    rw [<- length_splice hoff, <- h.bytes, bytesAt, length_contents]
  apply hfilled.missing_eq_zero
  unfold lastBlock roundUp
  rw [hsize, hlen, hblock]
  omega

/-- A file that holds the bytes of the caller shows that the source repeats. -/
theorem Stored.repeats {t : State} {i offset last : Nat}
    (h : Stored s i (sourceBytes (repeated src) n.toNat) offset last t)
    (hfiles : fileAt t.vol = Function.update (fileAt s.vol) (s.icache i).inum
      (some { device := false, bytes := splice (bytesAt s i) (sourceBytes src n.toNat) offset })) :
    RepeatsChunk src n := by
  rw [h.files] at hfiles
  have hfile := congrFun hfiles (s.icache i).inum
  rw [Function.update_self, Function.update_self] at hfile
  have hsplice := congrArg File.bytes (Option.some.inj hfile)
  apply sourceBytes_eq_iff.mp
  apply (splice_injective _ hsplice).symm
  rw [length_sourceBytes, length_sourceBytes]

/--
A write to an open regular file leaves the bytes of the caller, and nothing else changed,
exactly if there are free blocks for the blocks that the file misses and the source
repeats its first chunk.
-/
theorem fileWrite_writes_iff (answer : Option Int32) (src : Memory) (n : UInt32)
    (f : InodeFile) (s : State) (h : OpenRegular s f.inode) (hwritable : f.writable = true)
    (hoff : f.offset.toNat ≤ (bytesAt s f.inode).length)
    (hmax : f.offset.toNat + n.toNat ≤ maxDataBlocks * blockSize) :
    (exists r, fileWrite answer src n f s = Except.ok r ∧ BytesWritten src n f s r) <->
      RoomFor f n s ∧ RepeatsChunk src n := by
  have hmeets := fileWrite_meets src n answer h hwritable hoff hmax
  have hlen : (sourceBytes (repeated src) n.toNat).length = n.toNat := length_sourceBytes _ _
  constructor
  · intro hex
    rcases hex with ⟨r, hrun, hwritten⟩
    rcases hmeets.of_ok hrun with ⟨-, -, hstored⟩
    constructor
    · have hnone := hstored.missing_eq_zero hoff hlen
      have hfree := hstored.free
      unfold RoomFor
      omega
    · exact hstored.repeats hwritten.files
  · intro hboth
    rcases hboth with ⟨hroom, hrep⟩
    have hno : forall stop, Not (RoomStops s f.inode (lastBlock f.offset.toNat n.toNat) stop) := by
      intro stop hstop
      exact Nat.not_lt_of_ge hroom hstop.right
    rcases hmeets.ok hno with ⟨r, hrun, hresult, hadvanced, hstored⟩
    refine ⟨r, hrun, hresult, hadvanced, ?_⟩
    rw [hstored.files, sourceBytes_eq_iff.mpr hrep]
    rfl

end Loop

/-!
# A file that loses its second chunk
-/

def openFresh : List Call :=
  [Call.beginOp, Call.alloc InodeType.file, Call.lock 0, Call.unlock 0, Call.endOp]

def longSource : Memory := fun k => if k < 1536 then 0 else 1

def freshOpen : InodeFile := { writable := true, inode := 0, offset := 0 }

/-- What is checked of the state with the open file. -/
def OpenFreshTest (s : State) : Prop :=
  0 < (s.icache 0).ref ∧ (s.icache 0).locked = false ∧
    (dinodeAt s.vol (s.icache 0).inum).type = InodeType.file.code ∧ s.vol.outstanding = 0 ∧
    s.vol.lh.n = 0 ∧ missing s.vol (dinodeAt s.vol (s.icache 0).inum) 4 ≤ s.vol.freeBits.card

instance (s : State) : Decidable (OpenFreshTest s) :=
  inferInstanceAs (Decidable (_ ∧ _ ∧ _ ∧ _ ∧ _ ∧ _))

theorem openFresh_runs :
    exists replies s, performAll (inodesInit (emptyVolume smallDisk)) openFresh =
        Except.ok (replies, s) ∧ OpenRegular s 0 ∧ RoomFor freshOpen 1537 s := by
  have htest : (match performAll (inodesInit (emptyVolume smallDisk)) openFresh with
      | Except.ok (_, s) => decide (OpenFreshTest s)
      | Except.error _ => false) = true := by
    decide +kernel
  have hmeets := performAll_meets (emptyVolume_sound smallDisk_laidOut).coherent openFresh
  cases hrun : performAll (inodesInit (emptyVolume smallDisk)) openFresh with
  | error stop =>
      rw [hrun] at htest
      cases htest
  | ok r =>
      rcases r with ⟨replies, s⟩
      rw [hrun] at htest
      rcases of_decide_eq_true htest with ⟨href, hlocked, htype, hout, hclean, hroom⟩
      refine ⟨replies, s, rfl, ?_, hroom⟩
      exact
        { coherent := hmeets.of_ok hrun
          ref := href
          unlocked := hlocked
          regular := htype
          idle := hout
          clean := hclean }

theorem fileWrite_writes_iff_openFresh :
    exists s, OpenRegular s 0 ∧
      ((exists r, fileWrite none longSource 1537 freshOpen s = Except.ok r ∧
          BytesWritten longSource 1537 freshOpen s r) <->
        RoomFor freshOpen 1537 s ∧ RepeatsChunk longSource 1537) := by
  rcases openFresh_runs with ⟨-, s, -, hopen, -⟩
  exact ⟨s, hopen, fileWrite_writes_iff none longSource 1537 freshOpen s hopen rfl
    (Nat.zero_le _) (by decide)⟩

/-- The write returns 0, but its last byte is the first one of the source. -/
theorem fileWrite_repeats_chunk :
    exists replies s r, performAll (inodesInit (emptyVolume smallDisk)) openFresh =
        Except.ok (replies, s) ∧
      OpenRegular s 0 ∧ fileWrite none longSource 1537 freshOpen s = Except.ok r ∧ r.1 = 0 ∧
      Not (BytesWritten longSource 1537 freshOpen s r) := by
  rcases openFresh_runs with ⟨replies, s, hrun, hopen, hroom⟩
  have hmeets := fileWrite_meets (s := s) (f := freshOpen) longSource 1537 none
    hopen rfl (Nat.zero_le _) (by decide)
  have hno : forall stop, Not (RoomStops s freshOpen.inode
      (lastBlock freshOpen.offset.toNat (1537 : UInt32).toNat) stop) := by
    intro stop hstop
    exact Nat.not_lt_of_ge hroom hstop.right
  rcases hmeets.ok hno with ⟨r, hwrite, hresult, -, hstored⟩
  refine ⟨replies, s, r, hrun, hopen, hwrite, hresult, ?_⟩
  intro hwritten
  have hlast := hstored.repeats hwritten.files 1536 (by decide)
  revert hlast
  decide

end Inode
end Fs
end NicoOS
