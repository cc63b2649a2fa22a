import NicoOS.Fs.Dir.Operations

/-!
# Directories as finite maps

A directory maps names to inode numbers.  The operations of `fs/dir.c`, in any order,
are operations on this map.
-/

namespace NicoOS
namespace Fs
namespace Dir

open Lib
open Inode (State CachedInode InodeType Coherent CacheFull Ready Call)

/-!
# The map
-/

def nameMap (c : List UInt8) : List UInt8 -> Option UInt32 :=
  SlotMap.binding (slotAt c) (slots c)

def offsetOf (c : List UInt8) (l : List UInt8) : Option UInt32 :=
  (SlotMap.find (slotAt c) l (slots c) 0).map (fun p => UInt32.ofNat (direntSize * p.1))

def dot : List UInt8 := [46]

def dotdot : List UInt8 := [46, 46]

/-- A name that is not empty and ends within the field. -/
def Named (name : Memory) : Prop :=
  name 0 ≠ 0 ∧ exists k, k < direntNameLength ∧ name k = 0

instance (name : Memory) : Decidable (Named name) :=
  inferInstanceAs (Decidable (_ ∧ _))

theorem Named.fits {name : Memory} (h : Named name) : nameFits name = true := by
  rcases h with ⟨_, k, hk, hzero⟩
  unfold nameFits
  rw [List.any_eq_true]
  exact ⟨k, List.mem_range.mpr (by lia), beq_iff_eq.mpr hzero⟩

/-- A directory: its names are distinct, its first two records are the reserved ones. -/
structure Directory (s : State) (i : Nat) (own parent : UInt32) : Prop extends Listed s i where
  two : 2 ≤ slots (bytesOf s i)
  dot : slotAt (bytesOf s i) 0 = some (dot, own)
  dotdot : slotAt (bytesOf s i) 1 = some (dotdot, parent)

/-!
# Histories
-/

/-- Calls on a directory, and the calls that end and begin around them. -/
inductive DirCall where
  | lookup (name : Memory)
  | link (newDirent : Dirent)
  | unlink (offset : UInt32)
  | isempty
  | put (j : Nat)
  | beginOp
  | endOp

inductive DirReply where
  | found (ip : Option (Nat × UInt32))
  | result (r : Int32)
  | truth (b : Bool)
  | done

def dirPerform (i : Nat) (s : State) : DirCall -> Except Stop (DirReply × State)
  | DirCall.lookup name => do
      let (ip, s) <- dirLookup i name s
      Except.ok (DirReply.found ip, s)
  | DirCall.link newDirent => do
      let (r, s) <- dirLink i newDirent s
      Except.ok (DirReply.result r, s)
  | DirCall.unlink offset => do
      let (r, s) <- dirUnlink i offset s
      Except.ok (DirReply.result r, s)
  | DirCall.isempty => do
      let (b, s) <- dirIsempty i s
      Except.ok (DirReply.truth b, s)
  | DirCall.put j => do
      let (_, s) <- Inode.perform s (Call.put j)
      Except.ok (DirReply.done, s)
  | DirCall.beginOp => do
      let (_, s) <- Inode.perform s Call.beginOp
      Except.ok (DirReply.done, s)
  | DirCall.endOp => do
      let (_, s) <- Inode.perform s Call.endOp
      Except.ok (DirReply.done, s)

/-- One call as a step of the map. -/
def DirStep (i : Nat) (s : State) : DirCall -> DirReply -> State -> Prop
  | DirCall.lookup name, DirReply.found none, t =>
      nameMap (bytesOf s i) (label name) = none ∧ bytesOf t i = bytesOf s i
  | DirCall.lookup name, DirReply.found (some (j, offset)), t =>
      nameMap (bytesOf s i) (label name) = some (t.icache j).inum ∧
        offsetOf (bytesOf s i) (label name) = some offset ∧ bytesOf t i = bytesOf s i
  | DirCall.link e, DirReply.result r, t =>
      if nameMap (bytesOf s i) (label e.name) ≠ none ∨ Full (bytesOf s i) then
        r = -1 ∧ bytesOf t i = bytesOf s i
      else
        r = 0 ∧ nameMap (bytesOf t i) =
          Function.update (nameMap (bytesOf s i)) (label e.name) (some e.inum)
  | DirCall.unlink offset, DirReply.result r, t =>
      r = 0 ∧ exists l, offsetOf (bytesOf s i) l = some offset ∧
        nameMap (bytesOf t i) = Function.update (nameMap (bytesOf s i)) l none
  | DirCall.isempty, DirReply.truth b, t =>
      bytesOf t i = bytesOf s i ∧
        (b = true <-> forall l, l ≠ dot -> l ≠ dotdot -> nameMap (bytesOf s i) l = none)
  | DirCall.put _, DirReply.done, t => bytesOf t i = bytesOf s i
  | DirCall.beginOp, DirReply.done, t => bytesOf t i = bytesOf s i
  | DirCall.endOp, DirReply.done, t => bytesOf t i = bytesOf s i
  | _, _, _ => False

/--
What a caller provides: proper names, records that name inodes, offsets that
`dir_lookup` gives for names other than the reserved ones, and the resources of the
read or write.  A bound name is only linked again while nobody has locked its inode.
-/
def DirReady (i : Nat) (s : State) : DirCall -> Prop
  | DirCall.lookup name => Named name ∧
      (nameMap (bytesOf s i) (label name) ≠ none -> Not (CacheFull s))
  | DirCall.link e => Named e.name ∧ e.inum ≠ 0 ∧ e.inum < s.vol.sb.ninodes ∧
      match nameMap (bytesOf s i) (label e.name) with
      | some inum => Not (CacheFull s) ∧ Unlocked s inum
      | none => Full (bytesOf s i) ∨ Ready s (Call.write i none e.bytes
          (UInt32.ofNat (direntSize * freeSlot (bytesOf s i))) (UInt32.ofNat direntSize))
  | DirCall.unlink offset =>
      (exists l, l ≠ dot ∧ l ≠ dotdot ∧ offsetOf (bytesOf s i) l = some offset) ∧
        Ready s (Call.write i none (fun _ => 0) offset (UInt32.ofNat direntSize))
  | DirCall.isempty => True
  | DirCall.put j => Ready s (Call.put j)
  | DirCall.beginOp => Ready s Call.beginOp
  | DirCall.endOp => Ready s Call.endOp

/-- Every call of the history is ready when its turn comes. -/
def AllDirReady (i : Nat) : State -> List DirCall -> Prop
  | _, [] => True
  | s, call :: rest => DirReady i s call ∧
      forall reply t, dirPerform i s call = Except.ok (reply, t) -> AllDirReady i t rest

/-- A history of calls that return, each a step of the map to a directory. -/
def DirRun (i : Nat) (own parent : UInt32) : State -> List DirCall -> List DirReply -> State ->
    Prop
  | s, [], [], u => u = s
  | s, call :: rest, reply :: replies, u =>
      exists t, dirPerform i s call = Except.ok (reply, t) ∧ DirStep i s call reply t ∧
        Directory t i own parent ∧ DirRun i own parent t rest replies u
  | _, _, _, _ => False

/-!
# One call
-/

section Steps

variable {s t : State} {i : Nat} {own parent : UInt32}

theorem Directory.untouched (h : Directory s i own parent) (hsame : Untouched s t i) :
    Directory t i own parent where
  toListed := hsame.listed h.toListed
  two := by
    rw [hsame.bytes]
    exact h.two
  dot := by
    rw [hsame.bytes]
    exact h.dot
  dotdot := by
    rw [hsame.bytes]
    exact h.dotdot

theorem Directory.stored (h : Directory s i own parent) (hl : Listed t i) {k : Nat}
    {x : Option (List UInt8 × UInt32)} (hk : 2 ≤ k)
    (hs : SlotMap.Stored (slotAt (bytesOf s i)) (slots (bytesOf s i)) k x (slotAt (bytesOf t i))
      (slots (bytesOf t i))) : Directory t i own parent where
  toListed := hl
  two := Nat.le_trans h.two hs.kept
  dot := by
    have htwo := h.two
    rw [hs.others 0 (by lia) (by lia)]
    exact h.dot
  dotdot := by
    have htwo := h.two
    rw [hs.others 1 (by lia) (by lia)]
    exact h.dotdot

theorem Directory.two_le_freeSlot (h : Directory s i own parent) :
    2 ≤ freeSlot (bytesOf s i) := by
  have htwo := h.two
  have hdot := h.dot
  have hdotdot := h.dotdot
  cases Nat.lt_or_ge (freeSlot (bytesOf s i)) 2 with
  | inr hge => exact hge
  | inl hlt =>
      have hnone := slotAt_freeSlot (c := bytesOf s i) (by lia)
      cases Nat.lt_or_ge (freeSlot (bytesOf s i)) 1 with
      | inl hzero =>
          have heq : freeSlot (bytesOf s i) = 0 := by lia
          rw [heq, hdot] at hnone
          cases hnone
      | inr hone =>
          have heq : freeSlot (bytesOf s i) = 1 := by lia
          rw [heq, hdotdot] at hnone
          cases hnone

theorem Listed.nameMap_find (_ : Listed s i) {l : List UInt8} {inum : UInt32}
    (hbound : nameMap (bytesOf s i) l = some inum) :
    exists k, SlotMap.find (slotAt (bytesOf s i)) l (slots (bytesOf s i)) 0 = some (k, inum) := by
  rcases Option.map_eq_some_iff.mp hbound with ⟨p, hp, hinum⟩
  rcases p with ⟨k, b⟩
  cases hinum
  exact ⟨k, hp⟩

theorem find_of_nameMap_none {c l : List UInt8} (h : nameMap c l = none) :
    SlotMap.find (slotAt c) l (slots c) 0 = none :=
  Option.map_eq_none_iff.mp h

theorem lookup_step (h : Directory s i own parent) {name : Memory}
    (hready : DirReady i s (DirCall.lookup name)) :
    exists reply t, dirPerform i s (DirCall.lookup name) = Except.ok (reply, t) ∧
      DirStep i s (DirCall.lookup name) reply t ∧ Directory t i own parent := by
  rcases hready with ⟨hname, hplace⟩
  have hfits := hname.fits
  rw [dirPerform]
  cases hfind : SlotMap.find (slotAt (bytesOf s i)) (label name) (slots (bytesOf s i)) 0 with
  | none =>
      rw [dirLookup_none h.readable hfits hfind]
      exact ⟨_, s, rfl, And.intro (SlotMap.binding_eq_none hfind) rfl, h⟩
  | some p =>
      rcases p with ⟨k, inum⟩
      have hin := h.inside_of_find hfind
      have hbound : nameMap (bytesOf s i) (label name) = some inum :=
        SlotMap.binding_eq_some hfind
      rcases iget_returns h.coherent hin (hplace (by rw [hbound]; exact fun hn => (nomatch hn)))
        with ⟨j, t, hget⟩
      rcases iget_untouched h.coherent h.locked hin hget with ⟨hsame, hnum⟩
      rw [dirLookup_some h.readable hfits hfind hget]
      refine ⟨_, t, rfl, ⟨?_, ?_, hsame.bytes⟩, h.untouched hsame⟩
      · rw [hnum]
        exact hbound
      · unfold offsetOf
        rw [hfind]
        rfl

theorem link_step (h : Directory s i own parent) {e : Dirent}
    (hready : DirReady i s (DirCall.link e)) :
    exists reply t, dirPerform i s (DirCall.link e) = Except.ok (reply, t) ∧
      DirStep i s (DirCall.link e) reply t ∧ Directory t i own parent := by
  rcases hready with ⟨hname, hinum, hin, hrest⟩
  rw [dirPerform]
  cases hbound : nameMap (bytesOf s i) (label e.name) with
  | some inum =>
      rw [hbound] at hrest
      rcases h.nameMap_find hbound with ⟨k, hfind⟩
      rcases dirLink_bound h.toListed hinum hname.left hname.fits hfind hrest.left hrest.right
        with ⟨u, hrun, hsame⟩
      rw [hrun]
      refine ⟨_, u, rfl, ?_, h.untouched hsame⟩
      rw [DirStep, if_pos (Or.inl (by rw [hbound]; exact fun hn => (nomatch hn)))]
      exact And.intro rfl hsame.bytes
  | none =>
      rw [hbound] at hrest
      rcases linkAt_returns h.toOpened hrest with ⟨r, t, hrun⟩
      rw [dirLink_eq h.toOpened hinum hname.left hname.fits (find_of_nameMap_none hbound), hrun]
      refine ⟨_, t, rfl, ?_⟩
      rcases linkAt_of_ok h.toListed hinum hin hbound hrun with
        ⟨hfull, hr, ht⟩ | ⟨hfull, hr, hlisted, _, _, hstored⟩
      · rw [DirStep, if_pos (Or.inr hfull), ht]
        exact And.intro (And.intro hr rfl) h
      · refine And.intro ?_ (h.stored hlisted h.two_le_freeSlot hstored)
        rw [DirStep, if_neg (fun hc => hc.elim (fun hne => hne hbound) hfull)]
        exact And.intro hr (hstored.binding_eq h.distinct hbound (fun hlt => slotAt_freeSlot hlt))

theorem unlink_step (h : Directory s i own parent) {offset : UInt32}
    (hready : DirReady i s (DirCall.unlink offset)) :
    exists reply t, dirPerform i s (DirCall.unlink offset) = Except.ok (reply, t) ∧
      DirStep i s (DirCall.unlink offset) reply t ∧ Directory t i own parent := by
  rcases hready with ⟨⟨l, hdot, hdotdot, hoffset⟩, hwrite⟩
  have hplace := hoffset
  unfold offsetOf at hplace
  rcases Option.map_eq_some_iff.mp hplace with ⟨p, hfind, heq⟩
  rcases p with ⟨k, inum⟩
  rcases (SlotMap.find_eq_some_iff h.distinct).mp hfind with ⟨hk, hslot⟩
  simp only at heq
  rw [← heq] at hwrite
  have htwo : 2 ≤ k := by
    cases Nat.lt_or_ge k 2 with
    | inr hge => exact hge
    | inl hlt =>
        cases Nat.lt_or_ge k 1 with
        | inl hzero =>
            have hk0 : k = 0 := by lia
            rw [hk0, h.dot] at hslot
            cases hslot
            exact absurd rfl hdot
        | inr hone =>
            have hk1 : k = 1 := by lia
            rw [hk1, h.dotdot] at hslot
            cases hslot
            exact absurd rfl hdotdot
  rcases dirUnlink_clears h.toListed hk hslot hwrite with ⟨t, hrun, hlisted, _, hstored⟩
  rw [dirPerform, ← heq, hrun]
  refine ⟨_, t, rfl, ⟨rfl, l, ?_, ?_⟩, h.stored hlisted htwo hstored⟩
  · rw [hoffset, heq]
  · exact hstored.binding_clear h.distinct hk hslot

theorem isempty_step (h : Directory s i own parent) :
    exists reply t, dirPerform i s DirCall.isempty = Except.ok (reply, t) ∧
      DirStep i s DirCall.isempty reply t ∧ Directory t i own parent := by
  have hsize := h.readable.size_eq
  have hdirent : direntSize = 64 := rfl
  have htwo := h.two
  rcases isemptyFrom_eq h.readable (s.icache i).diskInode.size.toNat 2 h.two (by lia) with
    ⟨b, hrun, hb⟩
  rw [dirPerform]
  unfold dirIsempty
  rw [if_pos h.readable.holding, hrun]
  refine ⟨_, s, rfl, ⟨rfl, hb.trans ?_⟩, h⟩
  constructor
  · intro hall l hdot hdotdot
    apply (SlotMap.binding_eq_none_iff h.distinct).mpr
    intro k inum hk hslot
    cases Nat.lt_or_ge k 2 with
    | inr hge =>
        rw [hall k hge hk] at hslot
        cases hslot
    | inl hlt =>
        cases Nat.lt_or_ge k 1 with
        | inl hzero =>
            have hk0 : k = 0 := by lia
            rw [hk0, h.dot] at hslot
            cases hslot
            exact hdot rfl
        | inr hone =>
            have hk1 : k = 1 := by lia
            rw [hk1, h.dotdot] at hslot
            cases hslot
            exact hdotdot rfl
  · intro hall k hge hk
    cases hslot : slotAt (bytesOf s i) k with
    | none => rfl
    | some p =>
        rcases p with ⟨l, inum⟩
        have hdot : l ≠ dot := by
          intro heq
          rw [heq] at hslot
          have hzero := h.distinct k 0 _ _ _ hk (by lia) hslot h.dot
          lia
        have hdotdot : l ≠ dotdot := by
          intro heq
          rw [heq] at hslot
          have hone := h.distinct k 1 _ _ _ hk (by lia) hslot h.dotdot
          lia
        exact absurd hslot ((SlotMap.binding_eq_none_iff h.distinct).mp (hall l hdot hdotdot) k
          inum hk)

/-- Dropping a reference that does not free its inode. -/
theorem put_step (h : Directory s i own parent) {j : Nat}
    (hready : DirReady i s (DirCall.put j)) :
    exists reply t, dirPerform i s (DirCall.put j) = Except.ok (reply, t) ∧
      DirStep i s (DirCall.put j) reply t ∧ Directory t i own parent := by
  rcases hready with ⟨href, hopen, hkeep⟩
  have hput : Inode.perform s (Call.put j) = Except.ok (Inode.Reply.done,
      s.setInode j { s.icache j with ref := (s.icache j).ref - 1 }) := by
    rw [Inode.perform, inodePut_eq href hopen hkeep]
    rfl
  have hmeets := Inode.put_meets h.coherent j
  rw [hput] at hmeets
  have hne : i ≠ j := by
    intro heq
    have hlocked := h.locked
    rw [heq, hopen] at hlocked
    cases hlocked
  have hplace := Inode.setInode_of_ne s { s.icache j with ref := (s.icache j).ref - 1 } hne
  have hsame : Untouched s (s.setInode j { s.icache j with ref := (s.icache j).ref - 1 }) i :=
    Untouched.of_place hmeets.left rfl (by rw [hplace]) (by rw [hplace])
  rw [dirPerform, hput]
  exact ⟨_, _, rfl, hsame.bytes, h.untouched hsame⟩

theorem Directory.relog (h : Directory s i own parent) (lh : Log.LogHeader) (outstanding : Nat) :
    Untouched s { s with vol := { s.vol with lh := lh, outstanding := outstanding } } i where
  coherent := h.coherent.relog lh outstanding
  sb := rfl
  locked := rfl
  type := rfl
  bytes := rfl

theorem beginOp_step (h : Directory s i own parent)
    (hready : DirReady i s DirCall.beginOp) :
    exists reply t, dirPerform i s DirCall.beginOp = Except.ok (reply, t) ∧
      DirStep i s DirCall.beginOp reply t ∧ Directory t i own parent := by
  have hroom : s.vol.lh.n + (s.vol.outstanding + 1) * maxOpenBlocks ≤ logSize := hready
  have hsame := h.relog s.vol.lh (s.vol.outstanding + 1)
  rw [dirPerform, Inode.perform]
  unfold Inode.logBeginOp
  rw [if_neg (by lia)]
  exact ⟨_, _, rfl, hsame.bytes, h.untouched hsame⟩

theorem endOp_step (h : Directory s i own parent) (hready : DirReady i s DirCall.endOp) :
    exists reply t, dirPerform i s DirCall.endOp = Except.ok (reply, t) ∧
      DirStep i s DirCall.endOp reply t ∧ Directory t i own parent := by
  have hop : 1 ≤ s.vol.outstanding := hready
  rw [dirPerform, Inode.perform]
  unfold Inode.logEndOp
  rw [if_neg (by lia)]
  split
  · have hsame := h.relog { s.vol.lh with n := 0 } 0
    exact ⟨_, _, rfl, hsame.bytes, h.untouched hsame⟩
  · have hsame := h.relog s.vol.lh (s.vol.outstanding - 1)
    exact ⟨_, _, rfl, hsame.bytes, h.untouched hsame⟩

/-- A call that is ready returns, is a step of the map and keeps the directory. -/
theorem dirPerform_step (h : Directory s i own parent) {call : DirCall}
    (hready : DirReady i s call) :
    exists reply t, dirPerform i s call = Except.ok (reply, t) ∧ DirStep i s call reply t ∧
      Directory t i own parent := by
  cases call with
  | lookup name => exact lookup_step h hready
  | link e => exact link_step h hready
  | unlink offset => exact unlink_step h hready
  | isempty => exact isempty_step h
  | put j => exact put_step h hready
  | beginOp => exact beginOp_step h hready
  | endOp => exact endOp_step h hready

theorem dirRun_of_ready (h : Directory s i own parent) {calls : List DirCall}
    (hready : AllDirReady i s calls) :
    exists replies u, DirRun i own parent s calls replies u := by
  induction calls generalizing s with
  | nil => exact ⟨[], s, rfl⟩
  | cons call rest ih =>
      rcases dirPerform_step h hready.left with ⟨reply, t, hrun, hstep, hdir⟩
      rcases ih hdir (hready.right reply t hrun) with ⟨replies, u, hrest⟩
      exact ⟨reply :: replies, u, t, hrun, hstep, hdir, hrest⟩

end Steps

/-!
# Making a directory
-/

section Make

variable {s t : State} {i : Nat}

/-- A link that succeeds stored its record in the free slot. -/
theorem dirLink_of_ok (h : Listed s i) {e : Dirent} (hname : Named e.name)
    (hin : e.inum < s.vol.sb.ninodes) {r : Int32} (hrun : dirLink i e s = Except.ok (r, t))
    (hr : Not (r < 0)) :
    nameMap (bytesOf s i) (label e.name) = none ∧ Listed t i ∧
      (t.icache i).inum = (s.icache i).inum ∧ (forall j, j ≠ i -> t.icache j = s.icache j) ∧
      SlotMap.Stored (slotAt (bytesOf s i)) (slots (bytesOf s i)) (freeSlot (bytesOf s i))
        (some (label e.name, e.inum)) (slotAt (bytesOf t i)) (slots (bytesOf t i)) := by
  have hinum : e.inum ≠ 0 := by
    intro hzero
    unfold dirLink at hrun
    rw [if_neg (fun hc => hc.right.left hzero)] at hrun
    cases hrun
  cases hfind : SlotMap.find (slotAt (bytesOf s i)) (label e.name) (slots (bytesOf s i)) 0 with
  | none =>
      have hnew : nameMap (bytesOf s i) (label e.name) = none := SlotMap.binding_eq_none hfind
      rw [dirLink_eq h.toOpened hinum hname.left hname.fits hfind] at hrun
      rcases linkAt_of_ok h hinum hin hnew hrun with
        ⟨_, hneg, _⟩ | ⟨_, _, hlisted, hnum, hothers, hstored⟩
      · rw [hneg] at hr
        exact absurd (by decide) hr
      · exact ⟨hnew, hlisted, hnum, hothers, hstored⟩
  | some q =>
      rcases q with ⟨k, inum⟩
      unfold dirLink at hrun
      rw [if_pos ⟨h.readable.holding, hinum, hname.left⟩] at hrun
      rcases bind_ok hrun with ⟨found, hlookup, hrest⟩
      unfold dirLookup at hlookup
      rw [dirScan_eq h.readable hname.fits, hfind, ok_bind] at hlookup
      simp only [Option.map_some] at hlookup
      rcases bind_ok hlookup with ⟨g, _, hg⟩
      cases hg
      simp only at hrest
      rcases bind_ok hrest with ⟨u, _, hu⟩
      cases hu
      exact absurd (by decide) hr

theorem named_dotName (junk : Memory) : Named (dotName junk) :=
  And.intro (by unfold dotName; simp) ⟨1, by decide, rfl⟩

theorem named_dotdotName (junk : Memory) : Named (dotdotName junk) :=
  And.intro (by unfold dotdotName; simp) ⟨2, by decide, rfl⟩

theorem label_dotName (junk : Memory) : label (dotName junk) = dot := by
  simp [label, labelFrom, direntNameLength, dotName, dot]

theorem label_dotdotName (junk : Memory) : label (dotdotName junk) = dotdot := by
  simp [label, labelFrom, direntNameLength, dotdotName, dotdot]

/-- `inode_update` of any inode keeps the bytes of the directory. -/
theorem update_untouched (h : Opened s i) {p : Nat} (hp : (s.icache p).locked = true)
    {nlink : UInt32} {major minor : Int32}
    (hrun : Inode.updateFields p nlink major minor s = Except.ok t) : Untouched s t i := by
  have hmeets := Inode.update_meets h.coherent p nlink major minor
  rw [Inode.perform, if_pos hp, hrun] at hmeets
  rcases hmeets with ⟨hcoherent, hstep⟩
  have hsame : Inode.abstract t = Inode.abstract s := hstep
  unfold Inode.updateFields at hrun
  rcases bind_ok hrun with ⟨w, hupdate, ht⟩
  have hw := (Inode.inodeUpdate_meets _ _ s.vol).of_ok hupdate
  have hinum : (t.icache i).inum = (s.icache i).inum :=
    congrFun (congrArg Inode.FileSystem.name hsame) i
  have hplace : (t.icache i).locked = (s.icache i).locked ∧
      (t.icache i).diskInode.type = (s.icache i).diskInode.type := by
    cases ht
    cases Classical.em (i = p) with
    | inl heq =>
        rw [heq, Inode.setInode_self]
        exact And.intro rfl rfl
    | inr hne =>
        rw [Inode.setInode_of_ne _ _ hne]
        exact And.intro rfl rfl
  have hsb : t.vol.sb = s.vol.sb := by
    cases ht
    show w.sb = s.vol.sb
    rw [hw]
    rfl
  constructor
  · exact hcoherent
  · exact hsb
  · exact hplace.left
  · exact hplace.right
  · have hlocked : (t.icache i).locked = true := hplace.left.trans h.locked
    rcases h.coherent.held i h.locked with ⟨href, hvalid⟩
    rcases h.coherent.loaded i href hvalid with ⟨hs, htyped⟩
    rcases hcoherent.held i hlocked with ⟨href', hvalid'⟩
    rcases hcoherent.loaded i href' hvalid' with ⟨hs', htyped'⟩
    have hold := Inode.fileAt_of_typed hs (h.coherent.inside i href) htyped
    have hnew := Inode.fileAt_of_typed hs' (hcoherent.inside i href') htyped'
    have hfile : Inode.fileAt t.vol = Inode.fileAt s.vol :=
      congrArg Inode.FileSystem.files hsame
    rw [hinum, hfile, hold] at hnew
    exact (congrArg Inode.File.bytes (Option.some.inj hnew)).symm

theorem Opened.listed_empty (h : Opened s i) (hempty : (s.icache i).diskInode.size = 0) :
    Listed s i ∧ slots (bytesOf s i) = 0 := by
  have hdirent : direntSize = 64 := rfl
  have hnone : slots (bytesOf s i) = 0 := by
    have hsize := h.readable.size_eq
    rw [hempty] at hsize
    have hzero : (0 : UInt32).toNat = 0 := rfl
    lia
  refine And.intro ?_ hnone
  exact
    { toOpened := h
      distinct := by
        intro j k l b c hj
        lia
      inside := by
        intro k l inum hk
        lia }

theorem slots_appended {c c' : List UInt8} {x : Option (List UInt8 × UInt32)}
    (h : SlotMap.Stored (slotAt c) (slots c) (slots c) x (slotAt c') (slots c')) :
    slots c' = slots c + 1 := by
  have hin := h.inside
  cases Nat.lt_or_ge (slots c + 1) (slots c') with
  | inl hlt =>
      have hgrown := h.grown (slots c + 1) hlt (by lia)
      lia
  | inr hge => lia

theorem freeSlot_of_none {c : List UInt8} (hnone : slots c = 0) : freeSlot c = 0 := by
  have hle := freeSlot_le c
  lia

theorem freeSlot_of_one {c : List UInt8} {x : List UInt8 × UInt32} (hone : slots c = 1)
    (hused : slotAt c 0 = some x) : freeSlot c = 1 := by
  have hle := freeSlot_le c
  cases Nat.lt_or_ge (freeSlot c) 1 with
  | inl hlt =>
      have hzero : freeSlot c = 0 := by lia
      have hempty := slotAt_freeSlot (c := c) (by lia)
      rw [hzero, hused] at hempty
      cases hempty
  | inr hge => lia

theorem Listed.nameMap_of_none (h : Listed s i) (hnone : slots (bytesOf s i) = 0) :
    nameMap (bytesOf s i) = fun _ => none := by
  funext l
  apply (SlotMap.binding_eq_none_iff h.distinct).mpr
  intro k b hk
  lia

/-- `dir_link` leaves a place that is locked with its inode and its lock. -/
theorem Listed.place_kept (h : Listed t i) (hnum : (t.icache i).inum = (s.icache i).inum)
    (hothers : forall j, j ≠ i -> t.icache j = s.icache j) {p : Nat}
    (hlocked : (s.icache p).locked = true) :
    (t.icache p).inum = (s.icache p).inum ∧ (t.icache p).locked = true := by
  cases Classical.em (p = i) with
  | inl heq =>
      rw [heq]
      exact And.intro hnum h.locked
  | inr hne =>
      rw [hothers p hne]
      exact And.intro rfl hlocked

/-- `dir_make` makes a directory of the two reserved names. -/
theorem dirMake_makes (hc : Coherent s) {p : Nat} {junk : Memory}
    (hempty : (s.icache i).diskInode.size = 0)
    (hmake : dirMake p i junk s = Except.ok (0, t)) :
    Directory t i (s.icache i).inum (s.icache p).inum ∧
      nameMap (bytesOf t i) =
        Function.update (Function.update (fun _ => none) dot (some (s.icache i).inum)) dotdot
          (some (s.icache p).inum) := by
  unfold dirMake at hmake
  split at hmake
  · rename_i hheld
    rcases hheld with ⟨hheldp, hheldi⟩
    unfold holding at hheldp hheldi
    rcases Bool.and_eq_true_iff.mp hheldi with ⟨htype, hlocked⟩
    have hlockedp := (Bool.and_eq_true_iff.mp hheldp).right
    have hopened : Opened s i :=
      { coherent := hc
        locked := hlocked
        directory := of_decide_eq_true htype
        whole := by
          rw [hempty]
          rfl }
    rcases hopened.listed_empty hempty with ⟨hlisted, hnone⟩
    rcases bind_ok hmake with ⟨q1, hlink1, hrest1⟩
    rcases q1 with ⟨r1, s1⟩
    simp only at hrest1
    split at hrest1
    · cases hrest1
    · rename_i hr1
      rcases dirLink_of_ok hlisted (named_dotName junk)
        (hc.inside i (hc.held i hlocked).left) hlink1 hr1 with
        ⟨_, hlisted1, hnum1, hothers1, hstored1⟩
      rw [freeSlot_of_none hnone, label_dotName] at hstored1
      have hone : slots (bytesOf s1 i) = 1 := by
        rw [← hnone] at hstored1
        rw [slots_appended hstored1, hnone]
      have hplacep := hlisted1.place_kept hnum1 hothers1 hlockedp
      rcases bind_ok hrest1 with ⟨q2, hlink2, hrest2⟩
      rcases q2 with ⟨r2, s2⟩
      simp only at hrest2
      split at hrest2
      · cases hrest2
      · rename_i hr2
        rcases dirLink_of_ok hlisted1 (named_dotdotName (dotName junk))
          (hlisted1.coherent.inside p (hlisted1.coherent.held p hplacep.right).left) hlink2 hr2
          with ⟨hnew2, hlisted2, hnum2, hothers2, hstored2⟩
        have hfree1 := freeSlot_of_one hone hstored1.self
        simp only [label_dotdotName] at hnew2 hstored2
        rw [hfree1, hplacep.left] at hstored2
        rcases bind_ok hrest2 with ⟨u, hupdate, hu⟩
        cases hu
        have hlockedp2 := (hlisted2.place_kept hnum2 hothers2 hplacep.right).right
        have hsame := update_untouched hlisted2.toOpened hlockedp2 hupdate
        have hdir2 : Directory s2 i (s.icache i).inum (s.icache p).inum :=
          { toListed := hlisted2
            two := hstored2.inside
            dot := by
              rw [hstored2.others 0 (by lia) (by lia)]
              exact hstored1.self
            dotdot := hstored2.self }
        refine And.intro (hdir2.untouched hsame) ?_
        have hmap0 := hlisted.nameMap_of_none hnone
        have hmap1 := hstored1.binding_eq hlisted.distinct (congrFun hmap0 dot)
          (fun hlt => by lia)
        have hmap2 := hstored2.binding_eq hlisted1.distinct hnew2 (fun hlt => by lia)
        rw [hsame.bytes]
        show SlotMap.binding _ _ = _
        rw [hmap2, hmap1]
        exact congrArg
          (fun f => Function.update (Function.update f dot (some (s.icache i).inum)) dotdot
            (some (s.icache p).inum)) hmap0
  · cases hmake

end Make

/--
Directories refine finite maps: on a directory made by `dir_make`, every history of
calls that are ready returns, each call is a step of the map, and after each call the
names are distinct, the size is a multiple of the record size and the reserved names
are the first two.
-/
theorem directories_refine_maps {s t : State} (hc : Coherent s) {p i : Nat} {junk : Memory}
    (hempty : (s.icache i).diskInode.size = 0) (hmake : dirMake p i junk s = Except.ok (0, t))
    (calls : List DirCall) (hready : AllDirReady i t calls) :
    Directory t i (s.icache i).inum (s.icache p).inum ∧
      nameMap (bytesOf t i) =
        Function.update (Function.update (fun _ => none) dot (some (s.icache i).inum)) dotdot
          (some (s.icache p).inum) ∧
      exists replies u, DirRun i (s.icache i).inum (s.icache p).inum t calls replies u := by
  rcases dirMake_makes hc hempty hmake with ⟨hdir, hmap⟩
  exact ⟨hdir, hmap, dirRun_of_ready hdir hready⟩

/-- An operation is begun, and a directory is allocated and locked. -/
def freshDirectory : List Call :=
  [Call.beginOp, Call.alloc InodeType.directory, Call.lock 0]

/-- Evaluate the conditions of the calls that look, link and test. -/
def dirReadyTest (i : Nat) (s : State) : DirCall -> Bool
  | DirCall.lookup name => decide (Named name) && decide ((s.icache 1).ref = 0)
  | DirCall.link e => decide (Named e.name) && decide (e.inum ≠ 0) &&
      decide (e.inum < s.vol.sb.ninodes) &&
      decide (nameMap (bytesOf s i) (label e.name) = none) &&
      Inode.readyTest s (Call.write i none e.bytes
        (UInt32.ofNat (direntSize * freeSlot (bytesOf s i))) (UInt32.ofNat direntSize))
  | DirCall.isempty => true
  | _ => false

theorem dirReady_of_test {i : Nat} {s : State} {call : DirCall}
    (h : dirReadyTest i s call = true) : DirReady i s call := by
  cases call with
  | lookup name =>
      simp only [dirReadyTest, Bool.and_eq_true, decide_eq_true_eq] at h
      refine And.intro h.left ?_
      intro _ hfull
      have hpos := hfull 1 (by decide)
      have hzero := h.right
      lia
  | link e =>
      simp only [dirReadyTest, Bool.and_eq_true, decide_eq_true_eq] at h
      rcases h with ⟨⟨⟨⟨hname, hinum⟩, hin⟩, hnew⟩, hwrite⟩
      refine ⟨hname, hinum, hin, ?_⟩
      rw [hnew]
      exact Or.inr (Inode.ready_of_readyTest hwrite)
  | isempty => exact trivial
  | _ => cases h

def allDirReadyTest (i : Nat) (s : State) : List DirCall -> Bool
  | [] => true
  | call :: rest => dirReadyTest i s call &&
      match dirPerform i s call with
      | Except.ok (_, t) => allDirReadyTest i t rest
      | Except.error _ => true

theorem allDirReady_of_test {i : Nat} {s : State} {calls : List DirCall}
    (h : allDirReadyTest i s calls = true) : AllDirReady i s calls := by
  induction calls generalizing s with
  | nil => exact trivial
  | cons call rest ih =>
      rcases Bool.and_eq_true_iff.mp h with ⟨hfirst, hrest⟩
      refine And.intro (dirReady_of_test hfirst) ?_
      intro reply t hcall
      rw [hcall] at hrest
      exact ih hrest

def oneName : List DirCall :=
  [DirCall.isempty, DirCall.link { inum := 1, name := fun i => if i = 0 then 97 else 0 },
    DirCall.lookup (fun i => if i = 0 then 97 else 0), DirCall.isempty]

/-- A directory that was made as its own parent, as the root is. -/
def MadeRoot (s t : State) : Prop :=
  exists replies, Inode.performAll (Inode.inodesInit (Inode.emptyVolume Inode.smallDisk))
      freshDirectory = Except.ok (replies, s) ∧
    dirMake 0 0 (fun _ => 0) s = Except.ok (0, t)

/-- What holds of the state that `dir_make` leaves can be evaluated. -/
theorem madeRoot_of_test {P : State -> State -> Bool}
    (htest : (match Inode.performAll (Inode.inodesInit (Inode.emptyVolume Inode.smallDisk))
        freshDirectory with
      | Except.ok (_, s) =>
          match dirMake 0 0 (fun _ => 0) s with
          | Except.ok (r, t) => decide (r = 0) && P s t
          | Except.error _ => false
      | Except.error _ => false) = true) : exists s t, MadeRoot s t ∧ P s t = true := by
  cases hrun : Inode.performAll (Inode.inodesInit (Inode.emptyVolume Inode.smallDisk))
      freshDirectory with
  | error stop =>
      rw [hrun] at htest
      cases htest
  | ok q =>
      rcases q with ⟨replies, s⟩
      rw [hrun] at htest
      simp only at htest
      cases hmake : dirMake 0 0 (fun _ => 0) s with
      | error stop =>
          rw [hmake] at htest
          cases htest
      | ok q =>
          rcases q with ⟨r, t⟩
          rw [hmake] at htest
          rcases Bool.and_eq_true_iff.mp htest with ⟨hr, hP⟩
          refine ⟨s, t, ⟨replies, hrun, ?_⟩, hP⟩
          rw [hmake, of_decide_eq_true hr]

theorem MadeRoot.coherent {s t : State} (h : MadeRoot s t) : Coherent s := by
  rcases h with ⟨replies, hrun, _⟩
  have hmeets := Inode.performAll_meets
    (Inode.emptyVolume_sound Inode.smallDisk_laidOut).coherent freshDirectory
  exact hmeets.of_ok hrun

theorem directories_refine_maps_root :
    exists s t, MadeRoot s t ∧ Directory t 0 (s.icache 0).inum (s.icache 0).inum ∧
      exists replies u, DirRun 0 (s.icache 0).inum (s.icache 0).inum t oneName replies u := by
  rcases madeRoot_of_test (P := fun s t => decide ((s.icache 0).diskInode.size = 0) &&
    allDirReadyTest 0 t oneName) (by decide +kernel) with ⟨s, t, hmade, htest⟩
  rcases Bool.and_eq_true_iff.mp htest with ⟨hsize, hready⟩
  have hmake := hmade
  rcases hmake with ⟨_, _, hmake⟩
  have hrefines := directories_refine_maps hmade.coherent (of_decide_eq_true hsize) hmake oneName
    (allDirReady_of_test hready)
  exact ⟨s, t, hmade, hrefines.left, hrefines.right.right⟩

/--
Linking `"."` again does not return: `dir_link` drops the reference that its lookup
took, and waits for the semaphore that its caller holds.
-/
theorem link_of_dot_waits :
    exists s t, MadeRoot s t ∧ nameMap (bytesOf t 0) dot = some 1 ∧
      dirLink 0 { inum := 1, name := dotName (fun _ => 0) } t = Except.error Stop.waits := by
  rcases madeRoot_of_test (P := fun _ t => decide (nameMap (bytesOf t 0) dot = some 1) &&
    decide (Inode.stopOf (dirLink 0 { inum := 1, name := dotName (fun _ => 0) } t) =
      some Stop.waits)) (by decide +kernel) with ⟨s, t, hmade, htest⟩
  rcases Bool.and_eq_true_iff.mp htest with ⟨hbound, hstop⟩
  refine ⟨s, t, hmade, of_decide_eq_true hbound, ?_⟩
  have hstop' := of_decide_eq_true hstop
  cases hlink : dirLink 0 { inum := 1, name := dotName (fun _ => 0) } t with
  | ok q =>
      rw [hlink] at hstop'
      cases hstop'
  | error stop =>
      rw [hlink] at hstop'
      cases hstop'
      rfl

end Dir
end Fs
end NicoOS
