import NicoOS.Fs.Inode.Files
import NicoOS.Fs.Inode.Truncate

/-!
# The file system as byte lists

What the calls are for: files are lists of bytes, reached through the places of the
inode cache.  Every call of the model is a step of this abstract file system.
-/

namespace NicoOS
namespace Fs
namespace Inode

open Lib
open Log (Block LogHeader)

/-!
# Files
-/

structure File where
  device : Bool
  bytes : List UInt8

/-- The files by number, and the file that each place of the cache names. -/
structure FileSystem where
  files : UInt32 -> Option File
  name : Nat -> UInt32

def newFile : InodeType -> Option File
  | InodeType.none => none
  | InodeType.device => some { device := true, bytes := [] }
  | _ => some { device := false, bytes := [] }

def ReadAnswer (c : List UInt8) (offset n : Nat) (r : Int32) (dst : List UInt8) : Prop :=
  if RangeRefused c.length offset n then r = -1 ∧ dst = []
  else r.toInt = (min n (c.length - offset) : Nat) ∧ dst = (c.drop offset).take n

/-- The answer to a write of `data`, and the list that it leaves. -/
def WriteAnswer (c data : List UInt8) (offset : Nat) (r : Int32) (c' : List UInt8) : Prop :=
  if WriteRefused c.length offset data.length then r = -1 ∧ c' = c
  else r.toInt = (data.length : Nat) ∧ c' = splice c data offset

/-- One call as a step of the abstract file system. -/
def FileStep (fs : FileSystem) : Call -> Reply -> FileSystem -> Prop
  | Call.alloc typ, Reply.inode i, fs' =>
      fs.files (fs'.name i) = none ∧
        fs'.files = Function.update fs.files (fs'.name i) (newFile typ) ∧
        forall j, j ≠ i -> fs'.name j = fs.name j
  | Call.get inum, Reply.inode i, fs' =>
      fs'.files = fs.files ∧ fs'.name i = inum ∧ forall j, j ≠ i -> fs'.name j = fs.name j
  | Call.put i, Reply.done, fs' =>
      fs'.name = fs.name ∧
        (fs'.files = fs.files ∨ fs'.files = Function.update fs.files (fs.name i) none)
  | Call.read i _ offset n, Reply.bytes r dst, fs' =>
      fs' = fs ∧ forall f, fs.files (fs.name i) = some f -> f.device = false ->
        ReadAnswer f.bytes offset.toNat n.toNat r dst
  | Call.write i _ src offset n, Reply.bytes r _, fs' =>
      exists f c, fs.files (fs.name i) = some f ∧
        fs' = { fs with
          files := Function.update fs.files (fs.name i) (some { f with bytes := c }) } ∧
        (f.device = true -> c = f.bytes) ∧
        (f.device = false ->
          WriteAnswer f.bytes (sourceBytes src n.toNat) offset.toNat r c)
  | Call.alloc _, _, _ => False
  | Call.get _, _, _ => False
  | Call.put _, _, _ => False
  | Call.read _ _ _ _, _, _ => False
  | Call.write _ _ _ _ _, _, _ => False
  | _, _, fs' => fs' = fs

/-- The file with a number, if the inode is in use. -/
def fileAt (v : Volume) (inum : UInt32) : Option File :=
  if Live v (dinodeAt v) inum then
    some
      { device := decide ((dinodeAt v inum).type = InodeType.device.code)
        bytes := contents v (dinodeAt v inum) }
  else
    none

/-- The abstract file system of a state. -/
def abstract (s : State) : FileSystem :=
  { files := fileAt s.vol, name := fun i => (s.icache i).inum }

theorem fileAt_of_live {v : Volume} {inum : UInt32} (h : Live v (dinodeAt v) inum) :
    fileAt v inum = some
      { device := decide ((dinodeAt v inum).type = InodeType.device.code)
        bytes := contents v (dinodeAt v inum) } :=
  if_pos h

theorem fileAt_of_not_live {v : Volume} {inum : UInt32} (h : Not (Live v (dinodeAt v) inum)) :
    fileAt v inum = none :=
  if_neg h

theorem fileAt_of_typed {v : Volume} {inum : UInt32} {d : Dinode} (hd : dinodeAt v inum = d)
    (hin : inum < v.sb.ninodes) (htype : d.type ≠ InodeType.none.code) :
    fileAt v inum =
      some { device := decide (d.type = InodeType.device.code), bytes := contents v d } := by
  rw [← hd] at htype ⊢
  exact fileAt_of_live (And.intro hin htype)

theorem fileAt_of_none {v : Volume} {inum : UInt32} {d : Dinode} (hd : dinodeAt v inum = d)
    (htype : d.type = InodeType.none.code) : fileAt v inum = none := by
  rw [← hd] at htype
  exact fileAt_of_not_live (fun hl => hl.right htype)

theorem Stepped.fileAt_of_ne {v w : Volume} {inum j : UInt32} (h : Stepped v inum w)
    (hne : j ≠ inum) : fileAt w j = fileAt v j := by
  cases Classical.em (j < v.sb.ninodes) with
  | inl hj =>
      have htable := h.table j hj hne
      have hlive : Live w (dinodeAt w) j <-> Live v (dinodeAt v) j := by
        unfold Live
        rw [h.sb, htable]
      cases Classical.em (Live v (dinodeAt v) j) with
      | inl hl =>
          rw [fileAt_of_live hl, fileAt_of_live (hlive.mpr hl), htable, h.others j hl hne]
      | inr hl => rw [fileAt_of_not_live hl, fileAt_of_not_live (fun hw => hl (hlive.mp hw))]
  | inr hj =>
      rw [fileAt_of_not_live (fun hl => hj hl.left), fileAt_of_not_live]
      intro hl
      have hlt := hl.left
      rw [h.sb] at hlt
      exact hj hlt

/-- Only the file that the call works on has changed. -/
theorem Stepped.fileAt_eq {v w : Volume} {inum : UInt32} (h : Stepped v inum w) :
    fileAt w = Function.update (fileAt v) inum (fileAt w inum) := by
  funext j
  cases Classical.em (j = inum) with
  | inl heq => rw [heq, Function.update_self]
  | inr hne => rw [Function.update_of_ne hne, h.fileAt_of_ne hne]

/-!
# Coherence of the cache
-/

/-- The invariant between two calls. -/
structure Coherent (s : State) : Prop where
  sound : Sound s.vol
  bound : forall i, 0 < (s.icache i).ref -> i < nicache
  inside : forall i, 0 < (s.icache i).ref -> (s.icache i).inum < s.vol.sb.ninodes
  distinct : forall i j, 0 < (s.icache i).ref -> 0 < (s.icache j).ref ->
    (s.icache i).inum = (s.icache j).inum -> i = j
  loaded : forall i, 0 < (s.icache i).ref -> (s.icache i).valid = true ->
    dinodeAt s.vol (s.icache i).inum = (s.icache i).diskInode ∧
      (s.icache i).diskInode.type ≠ InodeType.none.code
  held : forall i, (s.icache i).locked = true ->
    0 < (s.icache i).ref ∧ (s.icache i).valid = true

/-- What a place of the cache has to meet, apart from the other places. -/
structure PlaceSound (v : Volume) (i : Nat) (ip : CachedInode) : Prop where
  bound : 0 < ip.ref -> i < nicache
  inside : 0 < ip.ref -> ip.inum < v.sb.ninodes
  loaded : 0 < ip.ref -> ip.valid = true ->
    dinodeAt v ip.inum = ip.diskInode ∧ ip.diskInode.type ≠ InodeType.none.code
  held : ip.locked = true -> 0 < ip.ref ∧ ip.valid = true

theorem Coherent.place {s : State} (h : Coherent s) (i : Nat) :
    PlaceSound s.vol i (s.icache i) where
  bound := h.bound i
  inside := h.inside i
  loaded := h.loaded i
  held := h.held i

@[simp] theorem setInode_vol (s : State) (i : Nat) (ip : CachedInode) :
    (s.setInode i ip).vol = s.vol := rfl

theorem setInode_self (s : State) (i : Nat) (ip : CachedInode) :
    (s.setInode i ip).icache i = ip :=
  if_pos rfl

theorem setInode_of_ne (s : State) {i j : Nat} (ip : CachedInode) (h : j ≠ i) :
    (s.setInode i ip).icache j = s.icache j :=
  if_neg h

/-- A call changes the volume and one place of the cache. -/
theorem Coherent.set {s : State} (h : Coherent s) {w : Volume} {i : Nat} {ip : CachedInode}
    (hsound : Sound w) (hsb : w.sb = s.vol.sb)
    (htable : forall j, j ≠ i -> 0 < (s.icache j).ref -> (s.icache j).valid = true ->
      dinodeAt w (s.icache j).inum = dinodeAt s.vol (s.icache j).inum)
    (hplace : PlaceSound w i ip)
    (hdistinct : 0 < ip.ref -> forall j, j ≠ i -> 0 < (s.icache j).ref ->
      (s.icache j).inum ≠ ip.inum) :
    Coherent ({ s with vol := w }.setInode i ip) := by
  have hself : ({ s with vol := w }.setInode i ip).icache i = ip := setInode_self _ i ip
  have hother : forall j, j ≠ i ->
      ({ s with vol := w }.setInode i ip).icache j = s.icache j :=
    fun j hj => setInode_of_ne _ ip hj
  constructor
  · exact hsound
  · intro j hj
    cases Classical.em (j = i) with
    | inl heq =>
        rw [heq] at hj ⊢
        rw [hself] at hj
        exact hplace.bound hj
    | inr hne =>
        rw [hother j hne] at hj
        exact h.bound j hj
  · intro j hj
    cases Classical.em (j = i) with
    | inl heq =>
        rw [heq] at hj ⊢
        rw [hself] at hj ⊢
        exact hplace.inside hj
    | inr hne =>
        rw [hother j hne] at hj ⊢
        have hin := h.inside j hj
        rw [← hsb] at hin
        exact hin
  · intro j k hj hk heq
    cases Classical.em (j = i) with
    | inl hji =>
        cases Classical.em (k = i) with
        | inl hki => exact hji.trans hki.symm
        | inr hki =>
            rw [hji, hself] at hj
            rw [hother k hki] at hk
            rw [hji, hself, hother k hki] at heq
            exact absurd heq.symm (hdistinct hj k hki hk)
    | inr hji =>
        cases Classical.em (k = i) with
        | inl hki =>
            rw [hki, hself] at hk
            rw [hother j hji] at hj
            rw [hki, hself, hother j hji] at heq
            exact absurd heq (hdistinct hk j hji hj)
        | inr hki =>
            rw [hother j hji] at hj heq
            rw [hother k hki] at hk heq
            exact h.distinct j k hj hk heq
  · intro j hj hvalid
    cases Classical.em (j = i) with
    | inl heq =>
        rw [heq] at hj hvalid ⊢
        rw [hself] at hj hvalid ⊢
        exact hplace.loaded hj hvalid
    | inr hne =>
        rw [hother j hne] at hj hvalid ⊢
        have hloaded := h.loaded j hj hvalid
        show dinodeAt w _ = _ ∧ _
        rw [htable j hne hj hvalid]
        exact hloaded
  · intro j hlocked
    cases Classical.em (j = i) with
    | inl heq =>
        rw [heq] at hlocked ⊢
        rw [hself] at hlocked ⊢
        exact hplace.held hlocked
    | inr hne =>
        rw [hother j hne] at hlocked ⊢
        exact h.held j hlocked

theorem Coherent.setPlace {s : State} (h : Coherent s) {i : Nat} {ip : CachedInode}
    (hplace : PlaceSound s.vol i ip)
    (hdistinct : 0 < ip.ref -> forall j, j ≠ i -> 0 < (s.icache j).ref ->
      (s.icache j).inum ≠ ip.inum) : Coherent (s.setInode i ip) :=
  h.set h.sound rfl (fun _ _ _ _ => rfl) hplace hdistinct

/-- A call has worked on the inode in place `i`, which keeps its number. -/
theorem Coherent.stepped {s : State} (h : Coherent s) {i : Nat} (hi : 0 < (s.icache i).ref)
    {w : Volume} (hw : Stepped s.vol (s.icache i).inum w) {ip : CachedInode}
    (hinum : ip.inum = (s.icache i).inum) (hplace : PlaceSound w i ip) :
    Coherent ({ s with vol := w }.setInode i ip) := by
  have hne : forall j, j ≠ i -> 0 < (s.icache j).ref ->
      (s.icache j).inum ≠ (s.icache i).inum :=
    fun j hj href heq => hj (h.distinct j i href hi heq)
  apply h.set hw.sound hw.sb _ hplace
  · intro _ j hj href
    rw [hinum]
    exact hne j hj href
  · intro j hj href _
    exact hw.table _ (h.inside j href) (hne j hj href)

/-!
# Allocating an inode
-/

section Fresh

variable {v : Volume} {inum : UInt32}

theorem slotAddr_fresh (v : Volume) (typ : InodeType) (s : Slot) :
    slotAddr v (Dinode.fresh typ) s = 0 := by
  have haddr : forall i, (Dinode.fresh typ).addr i = 0 := by
    intro i
    unfold Dinode.addr Dinode.fresh
    split
    · rfl
    · rfl
  cases s with
  | addr i => exact haddr i
  | entry i =>
      have hind : (Dinode.fresh typ).indirect = 0 := haddr _
      rw [slotAddr, if_pos hind]

/-- A free inode owns nothing, and neither does a fresh one. -/
theorem Sound.fresh_stepped (h : Sound v) (hin : inum < v.sb.ninodes)
    (hfree : (dinodeAt v inum).type = InodeType.none.code) (typ : InodeType) :
    Stepped v inum (updated v inum (Dinode.fresh typ)) := by
  have howned : Owned v (Function.update (dinodeAt v) inum (Dinode.fresh typ)) := by
    apply Exact.congr h.owned
    · intro p
      rcases p with ⟨j, s⟩
      cases Classical.em (j = inum) with
      | inl heq =>
          have hold : refAddr v (dinodeAt v) (inum, s) = 0 :=
            refAddr_of_not_live (fun hl => hl.right hfree) s
          rw [heq, hold]
          cases Classical.em
              (Live v (Function.update (dinodeAt v) inum (Dinode.fresh typ)) inum) with
          | inl hl => rw [refAddr_of_live hl, Function.update_self, slotAddr_fresh]
          | inr hl => exact refAddr_of_not_live hl s
      | inr hne => exact refAddr_update_of_ne _ hne
    · exact fun _ => Iff.rfl
  apply h.stepped (f := Dinode.fresh typ)
  · rfl
  · exact howned.updated h.laidOut hin _
  · intro j hj
    cases Classical.em (j = inum) with
    | inl heq =>
        rw [heq, Function.update_self]
        exact dinodeAt_updated_self v inum _
    | inr hne =>
        rw [Function.update_of_ne hne]
        exact dinodeAt_updated_of_ne h.laidOut _ hin hj hne
  · intro _
    exact
      { mapped := fun bn hbn => absurd hbn (Nat.not_lt_zero _)
        bounded := Nat.zero_le _ }
  · intro j hj hne
    apply keepsBlocks_updated h.laidOut hin
    intro s hs
    exact h.owned.inUse hj hs

theorem fileAt_fresh (hin : inum < v.sb.ninodes) (typ : InodeType) :
    fileAt (updated v inum (Dinode.fresh typ)) inum = newFile typ := by
  have hself := dinodeAt_updated_self v inum (Dinode.fresh typ)
  cases typ with
  | none => exact fileAt_of_none hself rfl
  | file => exact fileAt_of_typed hself hin (by decide)
  | directory => exact fileAt_of_typed hself hin (by decide)
  | device => exact fileAt_of_typed hself hin (by decide)

def NoFreeInode (v : Volume) (inum : UInt32) : Prop :=
  forall j : UInt32, inum ≤ j -> j < v.sb.ninodes -> (dinodeAt v j).type ≠ InodeType.none.code

def InodeStops (v : Volume) (inum : UInt32) : Stop -> Prop
  | Stop.noInodes => NoFreeInode v inum
  | stop => LogStops v 1 stop

theorem inodeAllocFrom_meets (v : Volume) (typ : InodeType) (fuel : Nat) (inum : UInt32)
    (hfuel : v.sb.ninodes.toNat ≤ inum.toNat + fuel) :
    Meets (fun r => exists j, j < v.sb.ninodes ∧
        (dinodeAt v j).type = InodeType.none.code ∧
        r = (j, updated v j (Dinode.fresh typ)))
      (InodeStops v inum) (inodeAllocFrom typ fuel inum v) := by
  have hend : Not (inum < v.sb.ninodes) -> NoFreeInode v inum := by
    intro hge j hj1 hj2
    exact absurd (UInt32.lt_of_le_of_lt hj1 hj2) hge
  induction fuel generalizing inum with
  | zero =>
      apply hend
      intro hlt
      have hlt' : inum.toNat < v.sb.ninodes.toNat := hlt
      lia
  | succ fuel ih =>
      unfold inodeAllocFrom
      split
      · rename_i hlt
        split
        · rename_i hfree
          apply Meets.bind ((inodeUpdate_meets inum _ v).mono (fun _ hw => hw) _)
          · intro w hw
            rw [hw]
            exact ⟨inum, hlt, hfree, rfl⟩
          · intro stop hstop
            cases stop with
            | noInodes => cases hstop
            | _ => exact hstop
        · rename_i htyped
          have hlt' : inum.toNat < v.sb.ninodes.toNat := hlt
          have hone : (1 : UInt32).toNat = 1 := rfl
          have hbound := v.sb.ninodes.toNat_lt
          have hnext : (inum + 1).toNat = inum.toNat + 1 := by
            rw [UInt32.toNat_add]
            lia
          apply (ih (inum + 1) (by lia) _).mono
          · exact fun _ hr => hr
          · intro stop hstop
            cases stop with
            | noInodes =>
                intro j hj1 hj2
                cases Classical.em (j = inum) with
                | inl heq =>
                    rw [heq]
                    exact htyped
                | inr hne =>
                    apply hstop j _ hj2
                    apply UInt32.le_iff_toNat_le.mpr
                    have hle := UInt32.le_iff_toNat_le.mp hj1
                    have hdiff : j.toNat ≠ inum.toNat := fun heq => hne (UInt32.toNat_inj.mp heq)
                    lia
            | _ => exact hstop
          · intro hge j hj1 hj2
            exact absurd (UInt32.lt_of_le_of_lt hj1 hj2) hge
      · rename_i hge
        exact hend hge

end Fresh

/-!
# Finding a place in the cache
-/

theorem findInode_spec (icache : Nat -> CachedInode) (inum : UInt32) (k i : Nat)
    (empty : Option Nat) :
    match findInode icache inum k i empty with
    | Sum.inl j => i ≤ j ∧ j < i + k ∧ 0 < (icache j).ref ∧ (icache j).inum = inum
    | Sum.inr found =>
        (forall j, i ≤ j -> j < i + k -> 0 < (icache j).ref -> (icache j).inum ≠ inum) ∧
          match found with
          | some j => empty = some j ∨ i ≤ j ∧ j < i + k ∧ (icache j).ref = 0
          | none => empty = none ∧ forall j, i ≤ j -> j < i + k -> 0 < (icache j).ref := by
  induction k generalizing i empty with
  | zero =>
      unfold findInode
      constructor
      · intro j h1 h2
        lia
      · cases empty with
        | none =>
            refine ⟨rfl, ?_⟩
            intro j h1 h2
            lia
        | some j => exact Or.inl rfl
  | succ k ih =>
      unfold findInode
      cases Classical.em ((icache i).ref > 0 ∧ (icache i).inum = inum) with
      | inl hfound =>
          rw [if_pos hfound]
          exact ⟨Nat.le_refl i, by lia, hfound.left, hfound.right⟩
      | inr hnot =>
          rw [if_neg hnot]
          have hrest := ih (i + 1) (if empty = none ∧ (icache i).ref = 0 then some i else empty)
          generalize hresult : findInode icache inum k (i + 1) _ = result at hrest ⊢
          cases result with
          | inl j =>
              rcases hrest with ⟨h1, h2, h3, h4⟩
              exact ⟨by lia, by lia, h3, h4⟩
          | inr found =>
              rcases hrest with ⟨hmiss, hplace⟩
              constructor
              · intro j h1 h2 href heq
                cases Nat.eq_or_lt_of_le h1 with
                | inl hij =>
                    rw [← hij] at href heq
                    exact hnot (And.intro href heq)
                | inr hlt => exact hmiss j hlt (by lia) href heq
              · cases found with
                | none =>
                    rcases hplace with ⟨hempty, hfull⟩
                    cases Classical.em (empty = none ∧ (icache i).ref = 0) with
                    | inl hc =>
                        rw [if_pos hc] at hempty
                        cases hempty
                    | inr hc =>
                        rw [if_neg hc] at hempty
                        refine ⟨hempty, ?_⟩
                        intro j h1 h2
                        cases Nat.eq_or_lt_of_le h1 with
                        | inl hij =>
                            rw [← hij]
                            exact Nat.pos_of_ne_zero (fun h0 => hc (And.intro hempty h0))
                        | inr hlt => exact hfull j hlt (by lia)
                | some j =>
                    rcases hplace with heq | ⟨h1, h2, h3⟩
                    · cases Classical.em (empty = none ∧ (icache i).ref = 0) with
                      | inl hc =>
                          rw [if_pos hc] at heq
                          cases heq
                          exact Or.inr ⟨Nat.le_refl i, by lia, hc.right⟩
                      | inr hc =>
                          rw [if_neg hc] at heq
                          exact Or.inl heq
                    · exact Or.inr ⟨by lia, by lia, h3⟩

def CacheFull (s : State) : Prop := forall i, i < nicache -> 0 < (s.icache i).ref

/-- What `iget` leaves: a place that names the inode. -/
def GetPost (s : State) (inum : UInt32) (r : Nat × State) : Prop :=
  Coherent r.2 ∧ r.2.vol = s.vol ∧ (r.2.icache r.1).inum = inum ∧
    forall j, j ≠ r.1 -> r.2.icache j = s.icache j

theorem iget_meets {s : State} (h : Coherent s) {inum : UInt32}
    (hin : inum < s.vol.sb.ninodes) :
    Meets (GetPost s inum) (fun stop => stop = Stop.noSlot ∧ CacheFull s) (iget inum s) := by
  have hspec := findInode_spec s.icache inum nicache 0 none
  unfold iget
  generalize findInode s.icache inum nicache 0 none = result at hspec ⊢
  cases result with
  | inl i =>
      rcases hspec with ⟨_, hlt, href, heq⟩
      refine ⟨?_, rfl, ?_, fun j hj => setInode_of_ne s _ hj⟩
      · apply h.setPlace
        · exact
            { bound := fun _ => by lia
              inside := fun _ => h.inside i href
              loaded := fun _ hv => h.loaded i href hv
              held := fun hl => And.intro (Nat.succ_pos _) (h.held i hl).right }
        · intro _ j hj hjref hsame
          exact hj (h.distinct j i hjref href hsame)
      · rw [setInode_self]
        exact heq
  | inr found =>
      rcases hspec with ⟨hmiss, hplace⟩
      cases found with
      | none => exact And.intro rfl (fun i hi => hplace.right i (Nat.zero_le i) (by lia))
      | some i =>
          rcases hplace with habsurd | ⟨_, hlt, hfree⟩
          · cases habsurd
          · refine ⟨?_, rfl, ?_, fun j hj => setInode_of_ne s _ hj⟩
            · apply h.setPlace
              · exact
                  { bound := fun _ => by lia
                    inside := fun _ => hin
                    loaded := fun _ hv => (nomatch hv)
                    held := fun hl => absurd (h.held i hl).left (by lia) }
              · intro _ j _ hjref
                exact hmiss j (Nat.zero_le j) (by
                  have hb := h.bound j hjref
                  lia) hjref
            · rw [setInode_self]

end Inode
end Fs
end NicoOS
