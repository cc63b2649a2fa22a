import NicoOS.Kernel.Vm.Isolation

/-!
# Loading programs

The part of `kernel/proc_exec.c` that builds the address space: `load_proghdrs` with
`vm_load`, and `setup_ustack` with `pgdir_setrange`.  A program header is `none` where
`inode_read` gives too few bytes for it.
-/

namespace NicoOS
namespace Kernel
namespace Vm

open Lib

/-- `inode_read` of a regular file with the given contents. -/
def inodeRead (file : List UInt8) (offset n : Nat) : Option (List UInt8) :=
  if offset > file.length ∨ wrap (offset + n) < offset then none
  else some ((file.drop offset).take n)

def writeBytes (mem : Memory) (bytes : List UInt8) : Memory :=
  fun x => if x < bytes.length then bytes.getD x 0 else mem x

/-- The loop of `vm_load` into an address space that is not the current one. -/
def vmLoadFrom (pgdir : Nat) (file : List UInt8) (sz : Nat) :
    Nat -> Nat -> Nat -> Nat -> Phys -> Run (Bool × Phys)
  | 0, _, _, _, s => Except.ok (true, s)
  | k + 1, done, off, dst, s =>
      if done < sz then do
        let perSz := if pgSize > sz - done then sz - done else pgSize
        let page <- pageFramePtr pgdir dst s
        if page = 0 then
          Except.ok (false, s)
        else
          match inodeRead file off perSz with
          | none => Except.ok (false, s)
          | some bytes => do
              let f <- pageAt page s
              vmLoadFrom pgdir file sz k (done + perSz) (wrap (off + perSz)) (wrap (dst + perSz))
                (s.setFrame f (writeBytes (s.frame f) bytes))
      else
        Except.ok (true, s)

def vmLoad (vm : AddressSpace) (dst : Nat) (file : List UInt8) (off sz : Nat) (s : Phys) :
    Run (Bool × Phys) :=
  vmLoadFrom vm.pgdir file sz (sz / pgSize + 1) 0 off dst s

structure Proghdr where
  offset : Nat
  vaddr : Nat
  filesz : Nat
  memsz : Nat

def verifyProghdr (ph : Proghdr) : Bool :=
  if wrap (ph.vaddr + ph.memsz) < ph.vaddr ∨ ph.memsz < ph.filesz then false
  else if ph.vaddr % pgSize ≠ 0 then false
  else decide (ph.vaddr ≥ userBase ∧ wrap (ph.vaddr + ph.memsz) ≤ userHeapBase)

def Proghdr.pages (ph : Proghdr) : Nat := wrap (ph.memsz + (pgSize - 1)) / pgSize

def loadProghdrs (vm : AddressSpace) (file : List UInt8) :
    List (Option Proghdr) -> Phys -> Run (Bool × Phys)
  | [], s => Except.ok (true, s)
  | none :: _, s => Except.ok (false, s)
  | some ph :: rest, s =>
      if ph.memsz = 0 then
        loadProghdrs vm file rest s
      else if verifyProghdr ph = false then
        Except.ok (false, s)
      else do
        let (mapped, s) <- vmValloc vm ph.vaddr ph.pages s
        if mapped then do
          let (loaded, s) <- vmLoad vm ph.vaddr file ph.offset ph.filesz s
          if loaded then loadProghdrs vm file rest s else Except.ok (false, s)
        else
          Except.ok (false, s)

def setrangeFrom (pgdir : Nat) (val : UInt8) (n : Nat) :
    Nat -> Nat -> Nat -> Phys -> Run (Bool × Phys)
  | 0, _, _, s => Except.ok (true, s)
  | k + 1, done, vp, s =>
      if done < n then do
        let rp <- pageFramePtr pgdir vp s
        if rp = 0 then
          Except.ok (false, s)
        else do
          let offset := vp % pgSize
          let per := if pgSize - offset > n - done then n - done else pgSize - offset
          let f <- pageAt rp s
          setrangeFrom pgdir val n k (done + per) (wrap (vp + per))
            (s.setFrame f ((s.frame f).fill offset val per))
      else
        Except.ok (true, s)

def npagesUserStack : Nat := 4

def setupUstack (vm : AddressSpace) (s : Phys) : Run (Bool × Phys) := do
  let (mapped, s) <- vmValloc vm bottomUserStack npagesUserStack s
  if mapped then
    setrangeFrom vm.pgdir 0 (npagesUserStack * pgSize) (npagesUserStack + 1) 0 bottomUserStack s
  else
    Except.ok (false, s)

/-!
# Runs that found the list empty
-/

section DryRuns

variable {s : Phys}

def StaysDry (r : Run (Bool × Phys)) : Prop := Meets (fun a => Dry a.2) (fun e => Dry e.2) r

theorem EndsDry.stays {r : Run (Bool × Phys)} (h : EndsDry r) : StaysDry r :=
  h.mono (fun _ ha => ha.right) (fun _ he => he)

theorem Dry.setFrame (h : Dry s) (f : Nat) (data : Memory) : Dry (s.setFrame f data) :=
  ⟨h.freeList, h.exhausted⟩

theorem Dry.vmValloc (h : Dry s) (vm : AddressSpace) (vaddr pgcnt : Nat) :
    StaysDry (Vm.vmValloc vm vaddr pgcnt s) := by
  unfold Vm.vmValloc
  split
  · exact (h.vallocFrom _ _ _ _ _).stays
  · exact h

theorem Dry.vmLoadFrom (h : Dry s) (pgdir : Nat) (file : List UInt8) (sz k done off dst : Nat) :
    StaysDry (Vm.vmLoadFrom pgdir file sz k done off dst s) := by
  induction k generalizing s done off dst with
  | zero => exact h
  | succ k ih =>
      unfold Vm.vmLoadFrom
      split
      · refine (h.pageFramePtr pgdir dst).bind (fun page _ => ?_)
        split
        · exact h
        · split
          · exact h
          · refine (h.pageAt page).bind (fun f _ => ?_)
            exact ih (h.setFrame f _) _ _ _
      · exact h

theorem Dry.loadProghdrs (h : Dry s) (vm : AddressSpace) (file : List UInt8)
    (headers : List (Option Proghdr)) : StaysDry (Vm.loadProghdrs vm file headers s) := by
  induction headers generalizing s with
  | nil => exact h
  | cons header rest ih =>
      cases header with
      | none => exact h
      | some ph =>
          unfold Vm.loadProghdrs
          split
          · exact ih h
          · split
            · exact h
            · refine (h.vmValloc vm ph.vaddr ph.pages).bind ?_
              intro r h1
              rcases r with ⟨mapped, s1⟩
              dsimp only at h1 ⊢
              split
              · have hload : StaysDry (Vm.vmLoad vm ph.vaddr file ph.offset ph.filesz s1) :=
                  h1.vmLoadFrom _ _ _ _ _ _ _
                refine hload.bind ?_
                intro r h2
                rcases r with ⟨loaded, s2⟩
                dsimp only at h2 ⊢
                split
                · exact ih h2
                · exact h2
              · exact h1

theorem Dry.setrangeFrom (h : Dry s) (pgdir : Nat) (val : UInt8) (n k done vp : Nat) :
    StaysDry (Vm.setrangeFrom pgdir val n k done vp s) := by
  induction k generalizing s done vp with
  | zero => exact h
  | succ k ih =>
      unfold Vm.setrangeFrom
      split
      · refine (h.pageFramePtr pgdir vp).bind (fun rp _ => ?_)
        split
        · exact h
        · refine (h.pageAt rp).bind (fun f _ => ?_)
          exact ih (h.setFrame f _) _ _
      · exact h

theorem Dry.setupUstack (h : Dry s) (vm : AddressSpace) : StaysDry (Vm.setupUstack vm s) := by
  unfold Vm.setupUstack
  refine (h.vmValloc vm bottomUserStack npagesUserStack).bind ?_
  intro r h1
  rcases r with ⟨mapped, s1⟩
  dsimp only at h1 ⊢
  split
  · exact h1.setrangeFrom _ _ _ _ _ _
  · exact h1

end DryRuns

/-!
# Writes to pages
-/

/-- Only bytes `x` of pages `v` with `P v x` change. -/
structure Wrote (s s' : Phys) (L : Layout) (P : Nat -> Nat -> Prop) : Prop where
  freeList : s'.freeList = s.freeList
  exhausted : s'.exhausted = s.exhausted
  bytes : forall g x, s'.frame g x = s.frame g x ∨ exists v, L.page v = some g ∧ P v x

section Writes

variable {s s' : Phys} {free : List Nat} {L : Layout} {P : Nat -> Nat -> Prop}

theorem Wrote.refl (s : Phys) (L : Layout) (P : Nat -> Nat -> Prop) : Wrote s s L P where
  freeList := rfl
  exhausted := rfl
  bytes _ _ := Or.inl rfl

theorem Wrote.trans {s2 : Phys} (h : Wrote s s' L P) (h2 : Wrote s' s2 L P) : Wrote s s2 L P where
  freeList := h2.freeList.trans h.freeList
  exhausted := h2.exhausted.trans h.exhausted
  bytes g x := by
    rcases h2.bytes g x with hsame | hnew
    · rw [hsame]
      exact h.bytes g x
    · exact Or.inr hnew

theorem Wrote.mono {Q : Nat -> Nat -> Prop} (h : Wrote s s' L P)
    (himp : forall v x, P v x -> Q v x) :
    Wrote s s' L Q where
  freeList := h.freeList
  exhausted := h.exhausted
  bytes g x := by
    rcases h.bytes g x with hsame | ⟨v, hv, hp⟩
    · exact Or.inl hsame
    · exact Or.inr ⟨v, hv, himp v x hp⟩

theorem Wrote.frame (h : Wrote s s' L P) {g : Nat} (hg : forall v, L.page v ≠ some g) :
    s'.frame g = s.frame g := by
  funext x
  rcases h.bytes g x with hsame | ⟨v, hv, -⟩
  · exact hsame
  · exact absurd hv (hg v)

theorem Wrote.sound (hs : Sound s free L) (h : Wrote s s' L P) : Sound s' free L := by
  have hslot : forall x f, L.frame x = some f -> (forall v, x ≠ Slot.page v) ->
      s'.frame f = s.frame f := by
    intro x f hx hne
    apply h.frame
    intro v hv
    exact hne v (hs.own x (Slot.page v) f hx hv)
  apply hs.congr
  · refine hs.pool.congr h.freeList ?_
    intro f hf
    apply h.frame
    exact fun v hv => hs.used (Slot.page v) f hv hf
  · exact fun f hf => Or.inl hf
  · exact fun i => entry_congr (hslot Slot.dir L.dir rfl (fun v e => nomatch e)) i
  · exact fun i t ht j => entry_congr (hslot (Slot.table i) t ht (fun v e => nomatch e)) j
  · intro i _ _
    apply entry_congr
    apply h.frame
    exact fun v hv => Sound.ne_kpgdir (hs.page_inPool hv) rfl

theorem wrote_page {v f : Nat} {data : Memory} (hv : L.page v = some f)
    (hdata : forall x, data x = s.frame f x ∨ P v x) : Wrote s (s.setFrame f data) L P where
  freeList := rfl
  exhausted := rfl
  bytes g x := by
    by_cases hg : g = f
    · rw [hg, setFrame_self]
      rcases hdata x with hsame | hnew
      · exact Or.inl hsame
      · exact Or.inr ⟨v, hv, hnew⟩
    · rw [setFrame_of_ne data hg]
      exact Or.inl rfl

theorem inodeRead_length {file bytes : List UInt8} {offset n : Nat}
    (h : inodeRead file offset n = some bytes) : bytes.length ≤ n := by
  unfold inodeRead at h
  split at h
  · cases h
  · cases h
    exact List.length_take_le n _

/-- The bytes of a segment that come from the file. -/
def FromFile (base sz v x : Nat) : Prop := base / 4096 ≤ v ∧ 4096 * (v - base / 4096) + x < sz

/-- `vm_load` writes only bytes of the file's part of the segment. -/
theorem vmLoadFrom_wrote {file : List UInt8} {base sz k done off : Nat} {b : Bool}
    (h : Sound s free L) (hbase : base % 4096 = 0) (htop : base + sz ≤ userHeapBase)
    (hdone : done % 4096 = 0 ∨ sz ≤ done)
    (hrun : vmLoadFrom (kernelAddr L.dir) file sz k done off (base + done) s =
      Except.ok (b, s')) : Wrote s s' L (FromFile base sz) := by
  have htopEq : userHeapBase = 134512640 := rfl
  induction k generalizing s done off with
  | zero =>
      cases hrun
      exact Wrote.refl _ L _
  | succ k ih =>
      unfold vmLoadFrom at hrun
      split at hrun
      · rename_i hlt
        have hdone0 : done % 4096 = 0 := by
          rcases hdone with hzero | hge
          · exact hzero
          · lia
        have hv : base + done < kernelBase := by
          rw [kernelBase_eq]
          omega
        dsimp only at hrun
        generalize hper : (if pgSize > sz - done then sz - done else pgSize) = perSz at hrun
        have hpgSize : pgSize = 4096 := rfl
        have hperLe : perSz ≤ 4096 ∧ done + perSz ≤ sz ∧
            ((done + perSz) % 4096 = 0 ∨ sz ≤ done + perSz) := by
          rw [hpgSize] at hper
          split at hper <;> omega
        cases hpage : L.page ((base + done) / 4096) with
        | none =>
            rw [pageFramePtr_none h hv hpage, ok_bind, if_pos rfl] at hrun
            cases hrun
            exact Wrote.refl _ L _
        | some f =>
            rw [pageFramePtr_some h hv hpage, ok_bind, if_neg (kernelAddr_ne_zero f)] at hrun
            cases hread : inodeRead file off perSz with
            | none =>
                rw [hread] at hrun
                cases hrun
                exact Wrote.refl _ L _
            | some bytes =>
                rw [hread] at hrun
                dsimp only at hrun
                rw [pageAt_kernelAddr (h.page_inPool hpage), ok_bind] at hrun
                have hlen := inodeRead_length hread
                have hwrite : Wrote s (s.setFrame f (writeBytes (s.frame f) bytes)) L
                    (FromFile base sz) := by
                  apply wrote_page hpage
                  intro x
                  unfold writeBytes
                  by_cases hx : x < bytes.length
                  · right
                    unfold FromFile
                    omega
                  · rw [if_neg hx]
                    exact Or.inl rfl
                have hnext : wrap (base + done + perSz) = base + (done + perSz) := by
                  rw [wrap_eq]
                  omega
                rw [hnext] at hrun
                exact hwrite.trans (ih (hwrite.sound h) hperLe.right.right hrun)
      · cases hrun
        exact Wrote.refl _ L _

/-- `pgdir_setrange` writes only to pages of its range. -/
theorem setrangeFrom_wrote {val : UInt8} {base n k done : Nat} {b : Bool} (h : Sound s free L)
    (htop : base + n ≤ kernelBase)
    (hrun : setrangeFrom (kernelAddr L.dir) val n k done (base + done) s = Except.ok (b, s')) :
    Wrote s s' L (fun v _ => base / 4096 ≤ v) := by
  induction k generalizing s done with
  | zero =>
      cases hrun
      exact Wrote.refl _ L _
  | succ k ih =>
      unfold setrangeFrom at hrun
      split at hrun
      · rename_i hlt
        have hv : base + done < kernelBase := by lia
        cases hpage : L.page ((base + done) / 4096) with
        | none =>
            rw [pageFramePtr_none h hv hpage, ok_bind, if_pos rfl] at hrun
            cases hrun
            exact Wrote.refl _ L _
        | some f =>
            rw [pageFramePtr_some h hv hpage, ok_bind, if_neg (kernelAddr_ne_zero f)] at hrun
            dsimp only at hrun
            generalize hper : (if pgSize - (base + done) % pgSize > n - done then n - done
              else pgSize - (base + done) % pgSize) = per at hrun
            have hperLe : done + per ≤ n := by
              split at hper <;> omega
            rw [pageAt_kernelAddr (h.page_inPool hpage), ok_bind] at hrun
            have hwrite : Wrote s (s.setFrame f ((s.frame f).fill ((base + done) % pgSize) val per))
                L (fun v _ => base / 4096 ≤ v) := by
              apply wrote_page hpage
              intro x
              right
              omega
            have hnext : wrap (base + done + per) = base + (done + per) := by
              rw [kernelBase_eq] at htop
              rw [wrap_eq]
              omega
            rw [hnext] at hrun
            exact hwrite.trans (ih (hwrite.sound h) hrun)
      · cases hrun
        exact Wrote.refl _ L _

end Writes

end Vm
end Kernel
end NicoOS
