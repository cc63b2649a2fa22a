import NicoOS.Fs.Inode.FileSystem

/-!
# Integrity of the file system

Every call keeps the cache coherent with a sound image and is a step of the
abstract file system, or stops for one of the reasons listed here.
-/

namespace NicoOS
namespace Fs
namespace Inode

open Lib
open Log (Block LogHeader)

/-- The put takes the last reference of an inode without links. -/
def Frees (ip : CachedInode) : Prop := ip.valid = true ∧ ip.diskInode.nlink = 0 ∧ ip.ref = 1

instance (ip : CachedInode) : Decidable (Frees ip) :=
  inferInstanceAs (Decidable (_ ∧ _ ∧ _))

def IsDevice (ip : CachedInode) : Prop := ip.diskInode.type = InodeType.device.code

def CallStops (s : State) : Call -> Stop -> Prop
  | Call.beginOp, stop => stop = Stop.waits ∧
      s.vol.lh.n + (s.vol.outstanding + 1) * maxOpenBlocks > logSize
  | Call.endOp, stop => stop = Stop.noOperation ∧ s.vol.outstanding = 0
  | Call.alloc _, stop => InodeStops s.vol 1 stop ∨ stop = Stop.noSlot ∧ CacheFull s
  | Call.get inum, stop => stop = Stop.notHeld ∧ Not (inum < s.vol.sb.ninodes) ∨
      stop = Stop.noSlot ∧ CacheFull s
  | Call.dup i, stop => stop = Stop.notHeld ∧ (s.icache i).ref = 0
  | Call.lock i, stop => stop = Stop.noRef ∧ (s.icache i).ref = 0 ∨
      stop = Stop.waits ∧ (s.icache i).locked = true ∨
      stop = Stop.noType ∧ Not (Live s.vol (dinodeAt s.vol) (s.icache i).inum)
  | Call.unlock i, stop => stop = Stop.notHeld ∧ (s.icache i).locked = false
  | Call.put i, stop => stop = Stop.noRef ∧ (s.icache i).ref = 0 ∨
      stop = Stop.waits ∧ (s.icache i).locked = true ∨ LogPanics stop ∧ Frees (s.icache i)
  | Call.update i _ _ _, stop => stop = Stop.notHeld ∧ (s.icache i).locked = false ∨
      LogStops s.vol 1 stop
  | Call.read i _ _ _, stop => stop = Stop.notHeld ∧ (s.icache i).locked = false ∨
      stop = Stop.badDevice ∧ IsDevice (s.icache i)
  | Call.write i _ _ offset n, stop => stop = Stop.notHeld ∧ (s.icache i).locked = false ∨
      stop = Stop.badDevice ∧ IsDevice (s.icache i) ∨
      WriteStops s.vol (s.icache i).diskInode offset.toNat n.toNat stop

def CallPost (s : State) (call : Call) (r : Reply × State) : Prop :=
  Coherent r.2 ∧ FileStep (abstract s) call r.1 (abstract r.2)

/-!
# The log around the calls
-/

theorem Coherent.relog {s : State} (h : Coherent s) (lh : LogHeader) (outstanding : Nat) :
    Coherent { s with vol := { s.vol with lh := lh, outstanding := outstanding } } where
  sound :=
    { laidOut := h.sound.laidOut
      owned := h.sound.owned
      filled := fun j hj =>
        { mapped := (h.sound.filled j hj).mapped
          bounded := (h.sound.filled j hj).bounded } }
  bound := h.bound
  inside := h.inside
  distinct := h.distinct
  loaded := h.loaded
  held := h.held

theorem beginOp_meets {s : State} (h : Coherent s) :
    Meets (CallPost s Call.beginOp) (CallStops s Call.beginOp) (perform s Call.beginOp) := by
  rw [perform]
  unfold logBeginOp
  split
  · rename_i hfull
    exact And.intro rfl hfull
  · exact And.intro (h.relog s.vol.lh (s.vol.outstanding + 1)) rfl

theorem endOp_meets {s : State} (h : Coherent s) :
    Meets (CallPost s Call.endOp) (CallStops s Call.endOp) (perform s Call.endOp) := by
  rw [perform]
  unfold logEndOp
  split
  · rename_i hzero
    exact And.intro rfl hzero
  · split
    · exact And.intro (h.relog { s.vol.lh with n := 0 } 0) rfl
    · exact And.intro (h.relog s.vol.lh (s.vol.outstanding - 1)) rfl

/-!
# References and locks
-/

theorem abstract_setInode {s : State} {i : Nat} {ip : CachedInode}
    (hinum : ip.inum = (s.icache i).inum) : abstract (s.setInode i ip) = abstract s := by
  have hname : (fun j => ((s.setInode i ip).icache j).inum) = fun j => (s.icache j).inum := by
    funext j
    cases Classical.em (j = i) with
    | inl heq => rw [heq, setInode_self, hinum]
    | inr hne => rw [setInode_of_ne s ip hne]
  unfold abstract
  rw [hname]
  rfl

theorem Coherent.others_ne {s : State} (h : Coherent s) {i : Nat} (hi : 0 < (s.icache i).ref) :
    forall j, j ≠ i -> 0 < (s.icache j).ref -> (s.icache j).inum ≠ (s.icache i).inum :=
  fun j hj href heq => hj (h.distinct j i href hi heq)

theorem alloc_meets {s : State} (h : Coherent s) (typ : InodeType) :
    Meets (CallPost s (Call.alloc typ)) (CallStops s (Call.alloc typ))
      (perform s (Call.alloc typ)) := by
  rw [perform]
  unfold inodeAlloc
  apply Meets.bind (P := fun r => exists inum, inum < s.vol.sb.ninodes ∧
    (dinodeAt s.vol inum).type = InodeType.none.code ∧
    GetPost { s with vol := updated s.vol inum (Dinode.fresh typ) } inum r)
  · apply Meets.bind ((inodeAllocFrom_meets s.vol typ s.vol.sb.ninodes.toNat 1 (by lia)).mono
      (fun _ hr => hr) (fun _ he => Or.inl he))
    intro r hr
    rcases hr with ⟨inum, hin, hfree, hr⟩
    rw [hr]
    have hstep := h.sound.fresh_stepped hin hfree typ
    have hcoherent : Coherent { s with vol := updated s.vol inum (Dinode.fresh typ) } := by
      have hloaded : forall j, 0 < (s.icache j).ref -> (s.icache j).valid = true ->
          (s.icache j).inum ≠ inum := by
        intro j href hvalid heq
        rcases h.loaded j href hvalid with ⟨hsame, htyped⟩
        rw [heq] at hsame
        rw [← hsame] at htyped
        exact htyped hfree
      exact
        { sound := hstep.sound
          bound := h.bound
          inside := h.inside
          distinct := h.distinct
          loaded := by
            intro j href hvalid
            show dinodeAt (updated s.vol inum (Dinode.fresh typ)) (s.icache j).inum = _ ∧ _
            rw [hstep.table _ (h.inside j href) (hloaded j href hvalid)]
            exact h.loaded j href hvalid
          held := h.held }
    apply (iget_meets hcoherent hin).mono
    · intro r hr
      exact ⟨inum, hin, hfree, hr⟩
    · intro stop hstop
      exact Or.inr hstop
  · intro r hr
    rcases r with ⟨i, t⟩
    rcases hr with ⟨inum, hin, hfree, hcoherent, hvol, hname, hothers⟩
    simp only at hcoherent hvol hname hothers
    have hstep := h.sound.fresh_stepped hin hfree typ
    refine ⟨hcoherent, ?_, ?_, ?_⟩
    · show fileAt s.vol (t.icache i).inum = none
      rw [hname]
      exact fileAt_of_not_live (fun hl => hl.right hfree)
    · show fileAt t.vol = Function.update (fileAt s.vol) (t.icache i).inum (newFile typ)
      rw [hvol, hname, hstep.fileAt_eq, fileAt_fresh hin]
    · intro j hj
      show (t.icache j).inum = (s.icache j).inum
      rw [hothers j hj]

theorem get_meets {s : State} (h : Coherent s) (inum : UInt32) :
    Meets (CallPost s (Call.get inum)) (CallStops s (Call.get inum))
      (perform s (Call.get inum)) := by
  rw [perform]
  split
  · rename_i hin
    apply Meets.bind ((iget_meets h hin).mono (fun _ hr => hr) (fun _ he => Or.inr he))
    intro r hr
    rcases r with ⟨i, t⟩
    rcases hr with ⟨hcoherent, hvol, hname, hothers⟩
    simp only at hcoherent hvol hname hothers
    refine ⟨hcoherent, ?_, hname, ?_⟩
    · show fileAt t.vol = fileAt s.vol
      rw [hvol]
    · intro j hj
      show (t.icache j).inum = (s.icache j).inum
      rw [hothers j hj]
  · rename_i hout
    exact Or.inl (And.intro rfl hout)

theorem dup_meets {s : State} (h : Coherent s) (i : Nat) :
    Meets (CallPost s (Call.dup i)) (CallStops s (Call.dup i)) (perform s (Call.dup i)) := by
  rw [perform]
  split
  · rename_i href
    have hi : 0 < (s.icache i).ref := href
    refine And.intro ?_ (abstract_setInode rfl)
    apply h.setPlace
    · exact
        { bound := fun _ => h.bound i hi
          inside := fun _ => h.inside i hi
          loaded := fun _ hv => h.loaded i hi hv
          held := fun hl => And.intro (Nat.succ_pos _) (h.held i hl).right }
    · exact fun _ => h.others_ne hi
  · rename_i href
    refine And.intro rfl ?_
    lia

theorem lock_meets {s : State} (h : Coherent s) (i : Nat) :
    Meets (CallPost s (Call.lock i)) (CallStops s (Call.lock i)) (perform s (Call.lock i)) := by
  rw [perform]
  unfold inodeLock
  simp only
  split
  · rename_i href
    have hi : 0 < (s.icache i).ref := href
    split
    · rename_i hlocked
      exact Or.inr (Or.inl (And.intro rfl hlocked))
    · split
      · rename_i _ hvalid
        refine And.intro ?_ (abstract_setInode rfl)
        apply h.setPlace
        · exact
            { bound := fun _ => h.bound i hi
              inside := fun _ => h.inside i hi
              loaded := fun _ hv => h.loaded i hi hv
              held := fun _ => And.intro hi hvalid }
        · exact fun _ => h.others_ne hi
      · split
        · rename_i htyped
          refine And.intro ?_ (abstract_setInode rfl)
          apply h.setPlace
          · exact
              { bound := fun _ => h.bound i hi
                inside := fun _ => h.inside i hi
                loaded := fun _ _ => And.intro rfl htyped
                held := fun _ => And.intro hi rfl }
          · exact fun _ => h.others_ne hi
        · rename_i htype
          refine Or.inr (Or.inr (And.intro rfl ?_))
          intro hlive
          exact htype hlive.right
  · rename_i href
    refine Or.inl (And.intro rfl ?_)
    lia

theorem unlock_meets {s : State} (h : Coherent s) (i : Nat) :
    Meets (CallPost s (Call.unlock i)) (CallStops s (Call.unlock i))
      (perform s (Call.unlock i)) := by
  rw [perform]
  unfold inodeUnlock
  simp only
  split
  · rename_i hheld
    have hi : 0 < (s.icache i).ref := hheld.right
    refine And.intro ?_ (abstract_setInode rfl)
    apply h.setPlace
    · exact
        { bound := fun _ => h.bound i hi
          inside := fun _ => h.inside i hi
          loaded := fun _ hv => h.loaded i hi hv
          held := fun hl => (nomatch hl) }
    · exact fun _ => h.others_ne hi
  · rename_i hnot
    refine And.intro rfl ?_
    cases hlocked : (s.icache i).locked with
    | false => rfl
    | true => exact absurd (And.intro hlocked (h.held i hlocked).left) hnot

/-!
# Puts and updates
-/

section Held

variable {s : State} {i : Nat}

theorem Coherent.live (h : Coherent s) (hi : 0 < (s.icache i).ref)
    (hvalid : (s.icache i).valid = true) :
    Live s.vol (dinodeAt s.vol) (s.icache i).inum := by
  rcases h.loaded i hi hvalid with ⟨hsame, htyped⟩
  rw [← hsame] at htyped
  exact And.intro (h.inside i hi) htyped

theorem abstract_stepped {w : Volume} {ip : CachedInode}
    (hw : Stepped s.vol (s.icache i).inum w) (hinum : ip.inum = (s.icache i).inum) :
    abstract ({ s with vol := w }.setInode i ip) =
      { abstract s with
        files := Function.update (fileAt s.vol) (s.icache i).inum
          (fileAt w (s.icache i).inum) } := by
  rw [abstract_setInode (s := { s with vol := w }) hinum]
  unfold abstract
  rw [← hw.fileAt_eq]

theorem put_meets (h : Coherent s) (i : Nat) :
    Meets (CallPost s (Call.put i)) (CallStops s (Call.put i)) (perform s (Call.put i)) := by
  rw [perform]
  unfold inodePut
  simp only
  split
  · rename_i href
    have hi : 0 < (s.icache i).ref := href
    split
    · rename_i hlocked
      exact Or.inr (Or.inl (And.intro rfl hlocked))
    · rename_i hunlocked
      split
      · rename_i hfrees
        have hlive := h.live hi hfrees.left
        have hsame := (h.loaded i hi hfrees.left).left
        apply Meets.bind (P := fun t => CallPost s (Call.put i) (Reply.done, t))
        · apply Meets.bind ((freeInode_meets h.sound hsame hlive).mono (fun _ hr => hr)
            (fun _ he => Or.inr (Or.inr (And.intro he hfrees))))
          intro r hr
          rcases r with ⟨d, w⟩
          rcases hr with ⟨hstep, hstored, hnone⟩
          simp only at hstep hstored hnone
          constructor
          · apply h.stepped hi hstep
            · rfl
            · exact
                { bound := fun _ => h.bound i hi
                  inside := fun _ => by
                    show (s.icache i).inum < w.sb.ninodes
                    rw [hstep.sb]
                    exact h.inside i hi
                  loaded := fun _ hv => (nomatch hv)
                  held := fun hl => absurd hl hunlocked }
          · show FileStep (abstract s) (Call.put i) Reply.done _
            rw [abstract_stepped hstep (by rfl), fileAt_of_none hstored hnone]
            exact And.intro rfl (Or.inr rfl)
        · exact fun _ ht => ht
      · refine And.intro ?_ (And.intro (congrArg FileSystem.name (abstract_setInode rfl))
          (Or.inl rfl))
        apply h.setPlace
        · exact
            { bound := fun _ => h.bound i hi
              inside := fun _ => h.inside i hi
              loaded := fun _ hv => h.loaded i hi hv
              held := fun hl => absurd hl hunlocked }
        · exact fun _ => h.others_ne hi
  · rename_i href
    refine Or.inl (And.intro rfl ?_)
    lia

theorem update_meets (h : Coherent s) (i : Nat) (nlink : UInt32) (major minor : Int32) :
    Meets (CallPost s (Call.update i nlink major minor))
      (CallStops s (Call.update i nlink major minor))
      (perform s (Call.update i nlink major minor)) := by
  rw [perform]
  unfold updateFields
  split
  · rename_i hlocked
    rcases h.held i hlocked with ⟨hi, hvalid⟩
    rcases h.loaded i hi hvalid with ⟨hsame, htyped⟩
    have hlive := h.live hi hvalid
    have hheld := h.sound.held hlive
    have hfilled := h.sound.filled _ hlive
    rw [hsame] at hheld hfilled
    apply Meets.bind (P := fun t =>
      CallPost s (Call.update i nlink major minor) (Reply.done, t))
    · apply Meets.bind ((inodeUpdate_meets _ _ s.vol).mono (fun _ hw => hw)
        (fun _ he => Or.inr he))
      intro w hw
      rw [hw]
      have hstep := updated_stepped h.sound (Moved.refl hheld.owned) hheld
        (f := { (s.icache i).diskInode with nlink := nlink, major := major, minor := minor })
        rfl rfl { mapped := hfilled.mapped, bounded := hfilled.bounded }
      have hstored := dinodeAt_updated_self s.vol (s.icache i).inum
        { (s.icache i).diskInode with nlink := nlink, major := major, minor := minor }
      constructor
      · apply h.stepped hi hstep.left
        · rfl
        · exact
            { bound := fun _ => h.bound i hi
              inside := fun _ => h.inside i hi
              loaded := fun _ _ => And.intro hstored htyped
              held := fun _ => And.intro hi hvalid }
      · show FileStep (abstract s) (Call.update i nlink major minor) Reply.done _
        rw [abstract_stepped hstep.left (by rfl),
          fileAt_of_typed hstored (h.inside i hi) htyped, hstep.right]
        have hfile := fileAt_of_typed hsame (h.inside i hi) htyped
        have hback : Function.update (fileAt s.vol) (s.icache i).inum
            (some { device := decide ((s.icache i).diskInode.type = InodeType.device.code)
                    bytes := contents s.vol (s.icache i).diskInode }) = fileAt s.vol := by
          rw [← hfile, Function.update_eq_self]
        exact congrArg
          (fun f => ({ files := f, name := fun j => (s.icache j).inum } : FileSystem)) hback
    · exact fun _ ht => ht
  · rename_i hlocked
    exact Or.inl (And.intro rfl (Bool.eq_false_iff.mpr hlocked))

/-!
# Reads and writes
-/

theorem toInt_ofNat_small {m : Nat} (h : m ≤ maxDataBlocks * blockSize) :
    (UInt32.ofNat m).toInt32.toInt = (m : Int) := by
  have hmax : maxDataBlocks * blockSize = 71168 := rfl
  have hnat : (UInt32.ofNat m).toNat = m := UInt32.toNat_ofNat_of_lt' (by lia)
  have hlt : 2 * (UInt32.ofNat m).toBitVec.toNat < 4294967296 := by
    show 2 * (UInt32.ofNat m).toNat < _
    lia
  show (UInt32.ofNat m).toBitVec.toInt = _
  rw [BitVec.toInt_eq_toNat_of_lt hlt]
  exact congrArg Nat.cast hnat

theorem setInode_same (s : State) (i : Nat) : s.setInode i (s.icache i) = s := by
  unfold State.setInode
  have hcache : (fun j => if j = i then s.icache i else s.icache j) = s.icache := by
    funext j
    split
    · rename_i heq
      rw [heq]
    · rfl
  rw [hcache]

theorem read_meets (h : Coherent s) (i : Nat) (answer : Option (Int32 × List UInt8))
    (offset n : UInt32) :
    Meets (CallPost s (Call.read i answer offset n)) (CallStops s (Call.read i answer offset n))
      (perform s (Call.read i answer offset n)) := by
  rw [perform]
  split
  · rename_i hlocked
    rcases h.held i hlocked with ⟨hi, hvalid⟩
    rcases h.loaded i hi hvalid with ⟨hsame, htyped⟩
    have hlive := h.live hi hvalid
    have hfile := fileAt_of_typed hsame (h.inside i hi) htyped
    apply Meets.bind (P := fun r => r.2.2 = s ∧
      ((s.icache i).diskInode.type ≠ InodeType.device.code ->
        ReadAnswer (contents s.vol (s.icache i).diskInode) offset.toNat n.toNat r.1 r.2.1))
    · unfold inodeRead
      simp only
      split
      · rename_i hdevice
        split
        · cases answer with
          | none => exact And.intro rfl (fun hne => absurd hdevice hne)
          | some a => exact And.intro rfl (fun hne => absurd hdevice hne)
        · exact Or.inr (And.intro rfl hdevice)
      · have hfilled := h.sound.filled _ hlive
        rw [hsame] at hfilled
        have hsize := length_contents s.vol (s.icache i).diskInode
        have hbound := hfilled.bounded
        rw [readFile_eq hfilled]
        cases Classical.em (RangeRefused (s.icache i).diskInode.size.toNat offset.toNat
            n.toNat) with
        | inl hrefused =>
            rw [if_pos hrefused]
            refine And.intro (setInode_same s i) (fun _ => ?_)
            rw [ReadAnswer, hsize, if_pos hrefused]
            exact And.intro rfl rfl
        | inr haccepted =>
            rw [if_neg haccepted]
            refine And.intro (setInode_same s i) (fun _ => ?_)
            rw [ReadAnswer, hsize, if_neg haccepted]
            exact And.intro (toInt_ofNat_small (by lia)) rfl
    · intro r hr
      rcases r with ⟨ret, bytes, t⟩
      rcases hr with ⟨hstate, hanswer⟩
      simp only at hstate hanswer
      rw [hstate]
      refine ⟨h, rfl, ?_⟩
      intro f hf hdevice
      have hfile' : fileAt s.vol (s.icache i).inum = some f := hf
      rw [hfile] at hfile'
      cases hfile'
      exact hanswer (of_decide_eq_false hdevice)
  · rename_i hlocked
    exact Or.inl (And.intro rfl (Bool.eq_false_iff.mpr hlocked))

/-- A write to a device, or one that is refused, leaves the file as it is. -/
theorem fileStep_write_same (answer : Option Int32) (src : Memory) (offset n : UInt32)
    {f : File} (hf : fileAt s.vol (s.icache i).inum = some f) {r : Int32}
    (hanswer : f.device = false ->
      WriteAnswer f.bytes (sourceBytes src n.toNat) offset.toNat r f.bytes) :
    FileStep (abstract s) (Call.write i answer src offset n) (Reply.bytes r []) (abstract s) := by
  refine ⟨f, f.bytes, hf, ?_, fun _ => rfl, hanswer⟩
  have hback : Function.update (fileAt s.vol) (s.icache i).inum (some f) = fileAt s.vol := by
    rw [← hf, Function.update_eq_self]
  exact (congrArg
    (fun g => ({ files := g, name := fun j => (s.icache j).inum } : FileSystem)) hback).symm

theorem length_sourceBytes (src : Memory) (n : Nat) : (sourceBytes src n).length = n := by
  unfold sourceBytes
  rw [List.length_map, List.length_range]

theorem writeDone_post (h : Coherent s) (hlocked : (s.icache i).locked = true)
    (hfile : (s.icache i).diskInode.type ≠ InodeType.device.code) (answer : Option Int32)
    {src : Memory} {offset n : UInt32} {r : Int32 × Dinode × Volume}
    (haccepted : Not (WriteRefused (s.icache i).diskInode.size.toNat offset.toNat n.toNat))
    (hdone : WriteDone s.vol (s.icache i).inum (s.icache i).diskInode src offset n r) :
    CallPost s (Call.write i answer src offset n)
      (Reply.bytes r.1 [],
        { s with vol := r.2.2 }.setInode i { s.icache i with diskInode := r.2.1 }) := by
  rcases h.held i hlocked with ⟨hi, hvalid⟩
  rcases h.loaded i hi hvalid with ⟨hsame, htyped⟩
  have htype : r.2.1.type = (s.icache i).diskInode.type := by rw [hdone.fields]
  have htyped' : r.2.1.type ≠ InodeType.none.code := by
    rw [htype]
    exact htyped
  have hin : (s.icache i).inum < r.2.2.sb.ninodes := by
    rw [hdone.stepped.sb]
    exact h.inside i hi
  have hold := fileAt_of_typed hsame (h.inside i hi) htyped
  have hnew := fileAt_of_typed hdone.stored hin htyped'
  constructor
  · apply h.stepped hi hdone.stepped
    · rfl
    · exact
        { bound := fun _ => h.bound i hi
          inside := fun _ => hin
          loaded := fun _ _ => And.intro hdone.stored htyped'
          held := fun _ => And.intro hi hvalid }
  · show FileStep (abstract s) (Call.write i answer src offset n) (Reply.bytes r.1 []) _
    rw [abstract_stepped hdone.stepped (by rfl), hnew, hdone.contents, htype]
    refine ⟨_, splice (contents s.vol (s.icache i).diskInode) (sourceBytes src n.toNat)
      offset.toNat, hold, rfl, ?_, ?_⟩
    · intro hdevice
      exact absurd (of_decide_eq_true hdevice) hfile
    · intro _
      have hmax : n.toNat ≤ maxDataBlocks * blockSize := by
        unfold WriteRefused at haccepted
        lia
      rw [WriteAnswer, length_contents, length_sourceBytes, if_neg haccepted, hdone.result]
      have hint := toInt_ofNat_small hmax
      rw [UInt32.ofNat_toNat] at hint
      exact And.intro hint rfl

theorem write_meets (h : Coherent s) (i : Nat) (answer : Option Int32) (src : Memory)
    (offset n : UInt32) :
    Meets (CallPost s (Call.write i answer src offset n))
      (CallStops s (Call.write i answer src offset n))
      (perform s (Call.write i answer src offset n)) := by
  rw [perform]
  split
  · rename_i hlocked
    rcases h.held i hlocked with ⟨hi, hvalid⟩
    rcases h.loaded i hi hvalid with ⟨hsame, htyped⟩
    have hlive := h.live hi hvalid
    have hold := fileAt_of_typed hsame (h.inside i hi) htyped
    apply Meets.bind (P := fun r =>
      CallPost s (Call.write i answer src offset n) (Reply.bytes r.1 [], r.2))
    · unfold inodeWrite
      simp only
      split
      · rename_i hdevice
        have hsame := fun r => fileStep_write_same (s := s) (i := i) answer src offset n hold
          (r := r) (fun hno => absurd hdevice (of_decide_eq_false hno))
        split
        · cases answer with
          | none => exact And.intro h (hsame (-1))
          | some r => exact And.intro h (hsame r)
        · exact Or.inr (Or.inl (And.intro rfl hdevice))
      · rename_i hfile
        apply Meets.bind ((writeFile_meets h.sound hsame hlive src offset n).mono
          (fun _ hr => hr) (fun _ he => Or.inr (Or.inr he)))
        intro r hr
        unfold WriteReply at hr
        cases Classical.em (WriteRefused (s.icache i).diskInode.size.toNat offset.toNat
            n.toNat) with
        | inl hrefused =>
            rw [if_pos hrefused] at hr
            rw [hr]
            show CallPost s (Call.write i answer src offset n)
              (Reply.bytes (-1) [], s.setInode i (s.icache i))
            rw [setInode_same]
            refine And.intro h (fileStep_write_same answer src offset n hold (fun _ => ?_))
            rw [WriteAnswer, length_contents, length_sourceBytes, if_pos hrefused]
            exact And.intro rfl rfl
        | inr haccepted =>
            rw [if_neg haccepted] at hr
            exact writeDone_post h hlocked hfile answer haccepted hr
    · exact fun _ hr => hr
  · rename_i hlocked
    exact Or.inl (And.intro rfl (Bool.eq_false_iff.mpr hlocked))

end Held

/-- Every call keeps the invariant and is a step of the abstract file system. -/
theorem perform_meets {s : State} (h : Coherent s) (call : Call) :
    Meets (CallPost s call) (CallStops s call) (perform s call) := by
  cases call with
  | beginOp => exact beginOp_meets h
  | endOp => exact endOp_meets h
  | alloc typ => exact alloc_meets h typ
  | get inum => exact get_meets h inum
  | dup i => exact dup_meets h i
  | lock i => exact lock_meets h i
  | unlock i => exact unlock_meets h i
  | put i => exact put_meets h i
  | update i nlink major minor => exact update_meets h i nlink major minor
  | read i answer offset n => exact read_meets h i answer offset n
  | write i answer src offset n => exact write_meets h i answer src offset n

end Inode
end Fs
end NicoOS
