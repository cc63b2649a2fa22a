import NicoOS.Fs.Inode.Integrity

/-!
# Block ownership and file contents over runs

Two results about every sequence of calls on a sound image: the bitmap marks just
the blocks that one address slot of one inode names, and files behave as lists of
bytes as long as the resources of each call suffice.
-/

namespace NicoOS
namespace Fs
namespace Inode

open Lib
open Log (Block LogHeader)

theorem Sound.coherent {v : Volume} (h : Sound v) : Coherent (inodesInit v) where
  sound := h
  bound := fun _ hi => absurd hi (Nat.lt_irrefl 0)
  inside := fun _ hi => absurd hi (Nat.lt_irrefl 0)
  distinct := fun _ _ hi => absurd hi (Nat.lt_irrefl 0)
  loaded := fun _ hi => absurd hi (Nat.lt_irrefl 0)
  held := fun _ hl => (nomatch hl)

/-!
# An image without files
-/

/-- A mounted image with a clear bitmap and no inode in use. -/
def emptyVolume (sb : Superblock) : Volume :=
  { sb := sb, blk := fun _ => Bytes.zero, lh := { n := 0, blocks := fun _ => 0 }, outstanding := 0 }

theorem emptyVolume_sound {sb : Superblock} (h : sb.LaidOut) : Sound (emptyVolume sb) := by
  have hnone : forall j, Not (Live (emptyVolume sb) (dinodeAt (emptyVolume sb)) j) := by
    intro j hl
    exact hl.right (Bytes.word_zero _)
  have hunused : forall a, Not (InUse (emptyVolume sb) a) := by
    intro a ha
    rcases ha with ⟨k, _, hused, _⟩
    have hclear : (emptyVolume sb).used k = false := Bytes.bit_zero _
    rw [hclear] at hused
    cases hused
  have href : forall p, refAddr (emptyVolume sb) (dinodeAt (emptyVolume sb)) p = 0 :=
    fun p => refAddr_of_not_live (hnone p.1) p.2
  exact
    { laidOut := h
      owned :=
        { used_of_ref := fun p hp => absurd (href p) hp
          unique := fun p _ _ hp => absurd (href p) hp
          covered := fun a ha => absurd ha (hunused a) }
      filled := fun j hl => absurd hl (hnone j) }

/-!
# Block ownership
-/

def References (v : Volume) (inum : UInt32) (slot : Slot) (a : UInt32) : Prop :=
  inum < v.sb.ninodes ∧ (dinodeAt v inum).type ≠ InodeType.none.code ∧
    slotAddr v (dinodeAt v inum) slot = a

/--
A bit of the bitmap is set just if one slot of one inode holds the address of its
block, and every address that an inode in use holds is a block whose bit is set.
-/
structure BlocksOwned (v : Volume) : Prop where
  bit_iff : forall k, k < v.sb.bits -> (v.used k = true <->
    ExistsUnique (fun p : UInt32 × Slot => References v p.1 p.2 (v.sb.dataBlock k)))
  marked : forall inum slot a, References v inum slot a -> a ≠ 0 ->
    exists k, k < v.sb.bits ∧ v.used k = true ∧ a = v.sb.dataBlock k

theorem references_iff {v : Volume} {p : UInt32 × Slot} {a : UInt32} (ha : a ≠ 0) :
    References v p.1 p.2 a <-> refAddr v (dinodeAt v) p = a := by
  constructor
  · intro h
    have hl : Live v (dinodeAt v) p.1 := And.intro h.left h.right.left
    rw [refAddr, if_pos hl]
    exact h.right.right
  · intro h
    cases Classical.em (Live v (dinodeAt v) p.1) with
    | inl hl =>
        rw [refAddr, if_pos hl] at h
        exact ⟨hl.left, hl.right, h⟩
    | inr hl =>
        rw [refAddr, if_neg hl] at h
        exact absurd h.symm ha

theorem Sound.blocksOwned {v : Volume} (h : Sound v) : BlocksOwned v where
  bit_iff := by
    intro k hk
    have hne := h.laidOut.dataBlock_ne_zero hk
    have hused : v.used k = true <-> InUse v (v.sb.dataBlock k) := by
      constructor
      · intro hk'
        exact ⟨k, hk, hk', rfl⟩
      · intro ha
        rcases ha with ⟨j, hj, hj', heq⟩
        rw [h.laidOut.numbered.dataBlock_inj hk hj heq]
        exact hj'
    have hrefs : (fun p : UInt32 × Slot => References v p.1 p.2 (v.sb.dataBlock k)) =
        fun p => refAddr v (dinodeAt v) p = v.sb.dataBlock k := by
      funext p
      exact propext (references_iff hne)
    rw [hused, hrefs]
    exact h.owned.used_iff hne
  marked := by
    intro inum slot a href ha
    have hlive : Live v (dinodeAt v) inum := And.intro href.left href.right.left
    have hslot := href.right.right
    rw [← hslot] at ha ⊢
    exact h.owned.inUse hlive ha

theorem CallStops.ne_bitClear {s : State} {call : Call} {stop : Stop}
    (h : CallStops s call stop) : stop ≠ Stop.bitClear := by
  intro heq
  rw [heq] at h
  cases call with
  | beginOp => cases h.left
  | endOp => cases h.left
  | alloc typ =>
      rcases h with h | h
      · exact h
      · cases h.left
  | get inum =>
      rcases h with h | h
      · cases h.left
      · cases h.left
  | dup i => cases h.left
  | lock i =>
      rcases h with h | h | h
      · cases h.left
      · cases h.left
      · cases h.left
  | unlock i => cases h.left
  | put i =>
      rcases h with h | h | h
      · cases h.left
      · cases h.left
      · rcases h.left with h | h
        · cases h
        · cases h
  | update i nlink major minor =>
      rcases h with h | h
      · cases h.left
      · exact h
  | read i answer offset n =>
      rcases h with h | h
      · cases h.left
      · cases h.left
  | write i answer src offset n =>
      rcases h with h | h | h
      · cases h.left
      · cases h.left
      · exact h.right.right

theorem performAll_meets {s : State} (h : Coherent s) (calls : List Call) :
    Meets (fun r => Coherent r.2) (fun stop => stop ≠ Stop.bitClear) (performAll s calls) := by
  induction calls generalizing s with
  | nil => exact h
  | cons call rest ih =>
      unfold performAll
      apply Meets.bind ((perform_meets h call).mono (fun _ hr => hr)
        (fun _ he => CallStops.ne_bitClear he))
      intro r hr
      apply Meets.bind (ih hr.left)
      exact fun _ ht => ht

/--
After any sequence of calls on a sound image the bitmap is exact, and no call
stops at the assertion of `bfree`.
-/
theorem block_ownership (v : Volume) (h : Sound v) (calls : List Call) :
    Meets (fun r => BlocksOwned r.2.vol) (fun stop => stop ≠ Stop.bitClear)
      (performAll (inodesInit v) calls) :=
  (performAll_meets h.coherent calls).mono (fun _ hr => hr.sound.blocksOwned) (fun _ he => he)

def smallDisk : Superblock :=
  { magic := superBlockMagic
    size := 200
    nblocks := 160
    ninodes := 14
    inodeStart := 2
    nlog := 31
    logStart := 5
    bmapStart := 37
    bmapBytes := 20
    bdataStart := 39 }

theorem smallDisk_laidOut : smallDisk.LaidOut where
  apart := by
    unfold Superblock.RegionsApart
    decide
  numbers := by decide

/-- A file is made, written, and freed with its last reference. -/
def oneFile : List Call :=
  [Call.beginOp, Call.alloc InodeType.file, Call.lock 0,
    Call.write 0 none (fun i => UInt8.ofNat i) 0 600, Call.unlock 0, Call.put 0, Call.endOp]

theorem block_ownership_oneFile :
    exists r, performAll (inodesInit (emptyVolume smallDisk)) oneFile = Except.ok r ∧
      BlocksOwned r.2.vol := by
  have hsound := emptyVolume_sound smallDisk_laidOut
  have hruns :
      (performAll (inodesInit (emptyVolume smallDisk)) oneFile).toOption.isSome = true := by
    decide +kernel
  have howned := block_ownership (emptyVolume smallDisk) hsound oneFile
  cases hrun : performAll (inodesInit (emptyVolume smallDisk)) oneFile with
  | ok r =>
      rw [hrun] at howned
      exact ⟨r, rfl, howned⟩
  | error stop =>
      rw [hrun] at hruns
      cases hruns

/-!
# File contents
-/

/--
What a caller provides: the inode is locked, the call is inside a log operation,
and the resources suffice.  A write that is not refused needs free blocks for the
missing ones, and the log header has a place left for its last `log_write` behind the
blocks that it logs before.
-/
def Ready (s : State) : Call -> Prop
  | Call.beginOp => s.vol.lh.n + (s.vol.outstanding + 1) * maxOpenBlocks ≤ logSize
  | Call.endOp => 1 ≤ s.vol.outstanding
  | Call.alloc _ => 1 ≤ s.vol.outstanding ∧ s.vol.lh.n < logSize ∧
      Not (NoFreeInode s.vol 1) ∧ Not (CacheFull s)
  | Call.get inum => inum < s.vol.sb.ninodes ∧ Not (CacheFull s)
  | Call.dup i => 0 < (s.icache i).ref
  | Call.lock i => 0 < (s.icache i).ref ∧ (s.icache i).locked = false ∧
      Live s.vol (dinodeAt s.vol) (s.icache i).inum
  | Call.unlock i => (s.icache i).locked = true
  | Call.put i => 0 < (s.icache i).ref ∧ (s.icache i).locked = false ∧ Not (Frees (s.icache i))
  | Call.update i _ _ _ => (s.icache i).locked = true ∧ 1 ≤ s.vol.outstanding ∧
      s.vol.lh.n < logSize
  | Call.read i _ _ _ => (s.icache i).locked = true ∧ Not (IsDevice (s.icache i))
  | Call.write i _ _ offset n => (s.icache i).locked = true ∧ Not (IsDevice (s.icache i)) ∧
      1 ≤ s.vol.outstanding ∧
      (0 < n.toNat ->
        Not (WriteRefused (s.icache i).diskInode.size.toNat offset.toNat n.toNat) ->
        missing s.vol (s.icache i).diskInode (lastBlock offset.toNat n.toNat) ≤
            s.vol.freeBits.card ∧
          logLoad s.vol (writeBlocks s.vol (s.icache i).diskInode offset.toNat n.toNat) <
            logSize)

theorem LogStops.false_of_room {v : Volume} {e : Stop} (h : LogStops v 1 e)
    (hop : 1 ≤ v.outstanding) (hroom : v.lh.n < logSize) : False := by
  cases e with
  | logFull =>
      have hfull : logSize < v.lh.n + 1 := h
      lia
  | noOperation =>
      have hzero : v.outstanding = 0 := h
      lia
  | _ => cases h

theorem InodeStops.false_of_room {v : Volume} {inum : UInt32} {stop : Stop}
    (h : InodeStops v inum stop) (hop : 1 ≤ v.outstanding) (hroom : v.lh.n < logSize)
    (hinode : Not (NoFreeInode v inum)) : False := by
  cases stop with
  | noInodes => exact hinode h
  | logFull => exact LogStops.false_of_room (e := Stop.logFull) h hop hroom
  | noOperation => exact LogStops.false_of_room (e := Stop.noOperation) h hop hroom
  | _ => cases h

theorem FileStops.false_of_room {v : Volume} {d : Dinode} {last : Nat} {W : Finset UInt32}
    {stop : Stop} (h : FileStops v d last W stop) (hop : 1 ≤ v.outstanding)
    (hfree : missing v d last ≤ v.freeBits.card) (hroom : logLoad v W < logSize) : False := by
  cases stop with
  | logFull =>
      have hfull : logSize ≤ logLoad v W := h
      lia
  | noOperation =>
      have hzero : v.outstanding = 0 := h
      lia
  | outOfBlocks =>
      have hout : v.freeBits.card < missing v d last := h
      lia
  | _ => cases h

theorem Ready.not_stops {s : State} {call : Call} (h : Ready s call) (stop : Stop) :
    Not (CallStops s call stop) := by
  intro hstop
  cases call with
  | beginOp =>
      have hroom : s.vol.lh.n + (s.vol.outstanding + 1) * maxOpenBlocks ≤ logSize := h
      have hfull := hstop.right
      lia
  | endOp =>
      have hop : 1 ≤ s.vol.outstanding := h
      have hzero := hstop.right
      lia
  | alloc typ =>
      rcases h with ⟨hop, hroom, hinode, hplace⟩
      rcases hstop with hstop | hstop
      · exact InodeStops.false_of_room hstop hop hroom hinode
      · exact hplace hstop.right
  | get inum =>
      rcases hstop with hstop | hstop
      · exact hstop.right h.left
      · exact h.right hstop.right
  | dup i =>
      have href : 0 < (s.icache i).ref := h
      have hzero := hstop.right
      lia
  | lock i =>
      rcases h with ⟨href, hfree, hlive⟩
      rcases hstop with hstop | hstop | hstop
      · have hzero := hstop.right
        lia
      · rw [hfree] at hstop
        cases hstop.right
      · exact hstop.right hlive
  | unlock i =>
      have hlocked : (s.icache i).locked = true := h
      rw [hstop.right] at hlocked
      cases hlocked
  | put i =>
      rcases h with ⟨href, hfree, hnot⟩
      rcases hstop with hstop | hstop | hstop
      · have hzero := hstop.right
        lia
      · rw [hfree] at hstop
        cases hstop.right
      · exact hnot hstop.right
  | update i nlink major minor =>
      rcases h with ⟨hlocked, hop, hroom⟩
      rcases hstop with hstop | hstop
      · rw [hlocked] at hstop
        cases hstop.right
      · exact LogStops.false_of_room hstop hop hroom
  | read i answer offset n =>
      rcases h with ⟨hlocked, hfile⟩
      rcases hstop with hstop | hstop
      · rw [hlocked] at hstop
        cases hstop.right
      · exact hfile hstop.right
  | write i answer src offset n =>
      rcases h with ⟨hlocked, hfile, hop, hgranted⟩
      rcases hstop with hstop | hstop | hstop
      · rw [hlocked] at hstop
        cases hstop.right
      · exact hfile hstop.right
      · rcases hstop with ⟨haccepted, hpos, hstop⟩
        rcases hgranted hpos haccepted with ⟨hfree, hroom⟩
        exact FileStops.false_of_room hstop hop hfree hroom

/-- Every call of the sequence is ready when its turn comes. -/
def AllReady (s : State) : List Call -> Prop
  | [] => True
  | call :: rest => Ready s call ∧
      forall reply t, perform s call = Except.ok (reply, t) -> AllReady t rest

/-- A sequence of steps of the abstract file system. -/
def FileRun : FileSystem -> List Call -> List Reply -> FileSystem -> Prop
  | fs, [], [], fs' => fs' = fs
  | fs, call :: rest, reply :: replies, fs' =>
      exists mid, FileStep fs call reply mid ∧ FileRun mid rest replies fs'
  | _, _, _, _ => False

theorem performAll_refines {s : State} (h : Coherent s) {calls : List Call}
    (hready : AllReady s calls) :
    exists replies t, performAll s calls = Except.ok (replies, t) ∧
      FileRun (abstract s) calls replies (abstract t) := by
  induction calls generalizing s with
  | nil => exact ⟨[], s, rfl, rfl⟩
  | cons call rest ih =>
      have hcall := perform_meets h call
      cases hresult : perform s call with
      | error stop =>
          rw [hresult] at hcall
          exact absurd hcall (hready.left.not_stops stop)
      | ok r =>
          rcases r with ⟨reply, t⟩
          rw [hresult] at hcall
          rcases ih hcall.left (hready.right reply t hresult) with ⟨replies, u, hrest, hrun⟩
          refine ⟨reply :: replies, u, ?_, ?_⟩
          · unfold performAll
            rw [hresult]
            show (do
              let r <- performAll t rest
              Except.ok (reply :: r.1, r.2)) = _
            rw [hrest]
            rfl
          · exact ⟨abstract t, hcall.right, hrun⟩

/--
Files refine lists of bytes: a sequence of calls that are all ready returns, and
its replies are those of the abstract file system.
-/
theorem files_refine_byteLists (v : Volume) (h : Sound v) (calls : List Call)
    (hready : AllReady (inodesInit v) calls) :
    exists replies t, performAll (inodesInit v) calls = Except.ok (replies, t) ∧
      FileRun (abstract (inodesInit v)) calls replies (abstract t) :=
  performAll_refines h.coherent hready

/-- Evaluate the conditions of the calls that make, lock, write and read files. -/
def readyTest (s : State) : Call -> Bool
  | Call.beginOp =>
      decide (s.vol.lh.n + (s.vol.outstanding + 1) * maxOpenBlocks ≤ logSize)
  | Call.endOp => decide (1 ≤ s.vol.outstanding)
  | Call.alloc _ => decide (1 ≤ s.vol.outstanding) && decide (s.vol.lh.n < logSize) &&
      decide ((1 : UInt32) < s.vol.sb.ninodes) &&
      decide ((dinodeAt s.vol 1).type = InodeType.none.code) && decide ((s.icache 0).ref = 0)
  | Call.lock i => decide (0 < (s.icache i).ref) && decide ((s.icache i).locked = false) &&
      decide (Live s.vol (dinodeAt s.vol) (s.icache i).inum)
  | Call.unlock i => (s.icache i).locked
  | Call.read i _ _ _ => (s.icache i).locked &&
      decide ((s.icache i).diskInode.type ≠ InodeType.device.code)
  | Call.write i _ _ offset n => (s.icache i).locked &&
      decide ((s.icache i).diskInode.type ≠ InodeType.device.code) &&
      decide (1 ≤ s.vol.outstanding) &&
      decide (missing s.vol (s.icache i).diskInode (lastBlock offset.toNat n.toNat) ≤
        s.vol.freeBits.card) &&
      decide (s.vol.lh.n +
        missing s.vol (s.icache i).diskInode (lastBlock offset.toNat n.toNat) +
        min (missing s.vol (s.icache i).diskInode (lastBlock offset.toNat n.toNat))
          (roundUp s.vol.sb.bits bitsPerBlock) +
        (entryBlocks s.vol (s.icache i).diskInode (lastBlock offset.toNat n.toNat) ∪
          fileBlocks s.vol (s.icache i).diskInode (offset.toNat / blockSize)
            (lastBlock offset.toNat n.toNat)).card < logSize)
  | _ => false

theorem ready_of_readyTest {s : State} {call : Call} (h : readyTest s call = true) :
    Ready s call := by
  cases call with
  | beginOp =>
      simp only [readyTest, decide_eq_true_eq] at h
      exact h
  | endOp =>
      simp only [readyTest, decide_eq_true_eq] at h
      exact h
  | alloc typ =>
      simp only [readyTest, Bool.and_eq_true, decide_eq_true_eq] at h
      rcases h with ⟨⟨⟨⟨hop, hroom⟩, hone⟩, htype⟩, href⟩
      refine ⟨hop, hroom, ?_, ?_⟩
      · exact fun hnone => hnone 1 (UInt32.le_refl 1) hone htype
      · intro hfull
        have hpos := hfull 0 (by decide)
        lia
  | lock i =>
      simp only [readyTest, Bool.and_eq_true, decide_eq_true_eq] at h
      exact ⟨h.left.left, h.left.right, h.right⟩
  | unlock i => exact h
  | read i answer offset n =>
      simp only [readyTest, Bool.and_eq_true, decide_eq_true_eq] at h
      exact h
  | write i answer src offset n =>
      simp only [readyTest, Bool.and_eq_true, decide_eq_true_eq] at h
      refine ⟨h.left.left.left.left, h.left.left.left.right, h.left.left.right, ?_⟩
      intro _ _
      have hload := logLoad_writeBlocks_le s.vol (s.icache i).diskInode offset.toNat n.toNat
      exact ⟨h.left.right, Nat.lt_of_le_of_lt hload h.right⟩
  | _ => cases h

def allReadyTest (s : State) : List Call -> Bool
  | [] => true
  | call :: rest => readyTest s call &&
      match perform s call with
      | Except.ok (_, t) => allReadyTest t rest
      | Except.error _ => true

theorem allReady_of_test {s : State} {calls : List Call} (h : allReadyTest s calls = true) :
    AllReady s calls := by
  induction calls generalizing s with
  | nil => exact trivial
  | cons call rest ih =>
      rcases Bool.and_eq_true_iff.mp h with ⟨hfirst, hrest⟩
      refine And.intro (ready_of_readyTest hfirst) ?_
      intro reply t hcall
      rw [hcall] at hrest
      exact ih hrest

/-- A file is made, written with 26 blocks, and read over a block border. -/
def bigWrite : List Call :=
  [Call.beginOp, Call.alloc InodeType.file, Call.lock 0,
    Call.write 0 none (fun i => UInt8.ofNat i) 0 13312, Call.read 0 none 500 50, Call.unlock 0,
    Call.endOp]

theorem files_refine_byteLists_bigWrite :
    exists replies t, performAll (inodesInit (emptyVolume smallDisk)) bigWrite =
        Except.ok (replies, t) ∧
      FileRun (abstract (inodesInit (emptyVolume smallDisk))) bigWrite replies (abstract t) :=
  files_refine_byteLists (emptyVolume smallDisk) (emptyVolume_sound smallDisk_laidOut) bigWrite
    (allReady_of_test (by decide +kernel))

def stopOf {α : Type} : Except Stop α -> Option Stop
  | Except.ok _ => none
  | Except.error stop => some stop

/-- A write inside an operation that fits the file, for which there are free blocks. -/
def WriteGranted (s : State) (i : Nat) (offset n : UInt32) : Prop :=
  (s.icache i).locked = true ∧ (s.icache i).diskInode.type ≠ InodeType.device.code ∧
    1 ≤ s.vol.outstanding ∧
    missing s.vol (s.icache i).diskInode (lastBlock offset.toNat n.toNat) ≤
      s.vol.freeBits.card ∧
    Not (WriteRefused (s.icache i).diskInode.size.toNat offset.toNat n.toNat)

instance (s : State) (i : Nat) (offset n : UInt32) : Decidable (WriteGranted s i offset n) :=
  inferInstanceAs (Decidable (_ ∧ _ ∧ _ ∧ _ ∧ _))

def freshFile : List Call := [Call.beginOp, Call.alloc InodeType.file, Call.lock 0]

/-- A write of 31 blocks in one operation stops at the assertion of `log_write`. -/
theorem files_do_not_refine_large_write :
    exists replies s, performAll (inodesInit (emptyVolume smallDisk)) freshFile =
        Except.ok (replies, s) ∧
      WriteGranted s 0 0 15872 ∧
      perform s (Call.write 0 none (fun i => UInt8.ofNat i) 0 15872) =
        Except.error Stop.logFull := by
  have htest : (match performAll (inodesInit (emptyVolume smallDisk)) freshFile with
      | Except.ok (_, s) => decide (WriteGranted s 0 0 15872) &&
          decide (stopOf (perform s (Call.write 0 none (fun i => UInt8.ofNat i) 0 15872)) =
            some Stop.logFull)
      | Except.error _ => false) = true := by
    decide +kernel
  cases hrun : performAll (inodesInit (emptyVolume smallDisk)) freshFile with
  | error stop =>
      rw [hrun] at htest
      cases htest
  | ok r =>
      rcases r with ⟨replies, s⟩
      rw [hrun] at htest
      rcases Bool.and_eq_true_iff.mp htest with ⟨hgranted, hstop⟩
      refine ⟨replies, s, rfl, of_decide_eq_true hgranted, ?_⟩
      have hstop' := of_decide_eq_true hstop
      cases hwrite : perform s (Call.write 0 none (fun i => UInt8.ofNat i) 0 15872) with
      | ok r =>
          rw [hwrite] at hstop'
          cases hstop'
      | error stop =>
          rw [hwrite] at hstop'
          cases hstop'
          rfl

end Inode
end Fs
end NicoOS
