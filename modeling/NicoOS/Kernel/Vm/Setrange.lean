import NicoOS.Kernel.Vm.Loader

/-!
# Filling a virtual range

`pgdir_setrange` of `kernel/mem/pgtab.c` for any directory, start, length and value.  The range
may wrap at the end of the address space, and its pages may lie anywhere in memory.
-/

namespace NicoOS
namespace Kernel
namespace Vm

open Lib

/-- `pgdir_setrange`; every round of its loop takes a byte at least. -/
def pgdirSetrange (pgdir vstart : Nat) (val : UInt8) (n : Nat) (s : Phys) : Run (Bool × Phys) :=
  setrangeFrom pgdir val n (n + 1) 0 vstart s

def vmSetrange (vm : AddressSpace) (dst : Nat) (val : UInt8) (n : Nat) (s : Phys) :
    Run (Bool × Phys) :=
  pgdirSetrange vm.pgdir dst val n s

/-!
# Translation
-/

/-- The frame of the table that a directory has for a page. -/
def tableOf (s : Phys) (d v : Nat) : Option Nat := target (s.entry d (v / 1024 % 1024))

/-- The frame that a directory and its table give to a page. -/
def frameOf (s : Phys) (d v : Nat) : Option Nat :=
  (tableOf s d v).bind (fun t => target (s.entry t (v % 1024)))

def virtualByte (s : Phys) (d vaddr : Nat) : Option UInt8 :=
  (frameOf s d (vaddr / 4096)).map (fun f => s.frame f (vaddr % 4096))

def addrAt (vstart i : Nat) : Nat := wrap (vstart + i)

def pageOf (vstart i : Nat) : Nat := addrAt vstart i / 4096

/-- Byte `i` of a range lies at offset `x` of a frame. -/
def ByteAt (s : Phys) (d vstart i g x : Nat) : Prop :=
  frameOf s d (pageOf vstart i) = some g ∧ x = addrAt vstart i % 4096

/--
The tables and the pages of the first `n` bytes of a range lie in physical memory, and the pages
are in other frames than the directory and these tables.
-/
structure OwnFrames (s : Phys) (d vstart n : Nat) : Prop where
  table : forall i t, i < n -> tableOf s d (pageOf vstart i) = some t -> t < 262144
  page : forall i f, i < n -> frameOf s d (pageOf vstart i) = some f ->
    f < 262144 ∧ f ≠ d ∧ forall j, j < n -> tableOf s d (pageOf vstart j) ≠ some f

/-- The first `n` bytes of a range read as the value, and no other byte has changed. -/
structure Filled (s : Phys) (d vstart n : Nat) (val : UInt8) (s' : Phys) : Prop where
  freeList : s'.freeList = s.freeList
  reads : forall i, i < n -> virtualByte s' d (addrAt vstart i) = some val
  others : forall g x, (forall i, i < n -> Not (ByteAt s d vstart i g x)) ->
    s'.frame g x = s.frame g x

section Setrange

variable {s s' : Phys} {d vstart n m i f : Nat} {val : UInt8}

theorem frameOf_of_table {v t : Nat} (h : tableOf s d v = some t) :
    frameOf s d v = target (s.entry t (v % 1024)) := by
  unfold frameOf
  rw [h, Option.bind_some]

theorem table_of_frameOf {v : Nat} (h : frameOf s d v = some f) :
    exists t, tableOf s d v = some t := by
  cases ht : tableOf s d v with
  | none =>
      unfold frameOf at h
      rw [ht] at h
      cases h
  | some t => exact ⟨t, rfl⟩

theorem pageFramePtr_frameOf {vaddr : Nat} (hd : d < 262144)
    (htable : forall t, tableOf s d (vaddr / 4096) = some t -> t < 262144)
    (hpage : frameOf s d (vaddr / 4096) = some f) (hf : f < 262144) :
    pageFramePtr (kernelAddr d) vaddr s = Except.ok (kernelAddr f) := by
  rcases table_of_frameOf hpage with ⟨t, ht⟩
  have hlt := htable t ht
  rw [frameOf_of_table ht] at hpage
  have hpde : target (s.entry d (pdeNr vaddr)) = some t := ht
  have hpte : target (s.entry t (pteNr vaddr)) = some f := hpage
  unfold pageFramePtr
  rw [pageAt_of_lt hd, ok_bind, if_pos (target_some hpde).left, tableAt_of_lt hpde hlt, ok_bind,
    if_pos (target_some hpte).left, entryVaddr_of_lt hpte hf]

theorem pageFramePtr_absent {vaddr : Nat} (hd : d < 262144)
    (htable : forall t, tableOf s d (vaddr / 4096) = some t -> t < 262144)
    (hpage : frameOf s d (vaddr / 4096) = none) :
    pageFramePtr (kernelAddr d) vaddr s = Except.ok 0 := by
  unfold pageFramePtr
  rw [pageAt_of_lt hd, ok_bind]
  cases ht : tableOf s d (vaddr / 4096) with
  | none =>
      have hpde : isPresent (s.entry d (pdeNr vaddr)) = false := (target_none_iff _).mp ht
      rw [if_neg (Bool.eq_false_iff.mp hpde)]
  | some t =>
      have hpde : target (s.entry d (pdeNr vaddr)) = some t := ht
      rw [frameOf_of_table ht] at hpage
      have hpte : isPresent (s.entry t (pteNr vaddr)) = false := (target_none_iff _).mp hpage
      rw [if_pos (target_some hpde).left, tableAt_of_lt hpde (htable t ht), ok_bind,
        if_neg (Bool.eq_false_iff.mp hpte)]

/-- Translation depends on the directory and the table only. -/
theorem frameOf_congr {v : Nat} (hdir : s'.frame d = s.frame d)
    (htable : forall t, tableOf s d v = some t -> s'.frame t = s.frame t) :
    tableOf s' d v = tableOf s d v ∧ frameOf s' d v = frameOf s d v := by
  have hsame : tableOf s' d v = tableOf s d v := by
    unfold tableOf
    rw [entry_congr hdir]
  refine ⟨hsame, ?_⟩
  cases ht : tableOf s d v with
  | none =>
      unfold frameOf
      rw [hsame, ht]
      rfl
  | some t =>
      rw [frameOf_of_table ht, frameOf_of_table (hsame.trans ht), entry_congr (htable t ht)]

/-!
# The state inside the loop
-/

/-- The first `m` bytes are filled, and no others. -/
structure Filling (s : Phys) (d vstart m : Nat) (val : UInt8) (s' : Phys) : Prop where
  freeList : s'.freeList = s.freeList
  bytes : forall i g, i < m -> frameOf s d (pageOf vstart i) = some g ->
    s'.frame g (addrAt vstart i % 4096) = val
  others : forall g x, (forall i, i < m -> Not (ByteAt s d vstart i g x)) ->
    s'.frame g x = s.frame g x

theorem Filling.nothing (s : Phys) (d vstart : Nat) (val : UInt8) :
    Filling s d vstart 0 val s where
  freeList := rfl
  bytes _ _ hi := absurd hi (Nat.not_lt_zero _)
  others _ _ _ := rfl

/-- A frame that holds no byte of the range is as before. -/
theorem Filling.same (h : Filling s d vstart m val s') {g : Nat}
    (hg : forall i, i < m -> frameOf s d (pageOf vstart i) ≠ some g) : s'.frame g = s.frame g := by
  funext x
  apply h.others
  intro i hi hbyte
  exact hg i hi hbyte.left

theorem Filling.translates (h : Filling s d vstart m val s') (hown : OwnFrames s d vstart n)
    (hmn : m ≤ n) (hi : i < n) :
    tableOf s' d (pageOf vstart i) = tableOf s d (pageOf vstart i) ∧
      frameOf s' d (pageOf vstart i) = frameOf s d (pageOf vstart i) := by
  apply frameOf_congr
  · apply h.same
    intro j hj hd
    exact (hown.page j d (Nat.lt_of_lt_of_le hj hmn) hd).right.left rfl
  · intro t ht
    apply h.same
    intro j hj hf
    exact (hown.page j t (Nat.lt_of_lt_of_le hj hmn) hf).right.right i hi ht

theorem addrAt_round {done per : Nat} (hper : per ≤ 4096 - addrAt vstart done % 4096)
    (hlow : done ≤ i) (hhigh : i < done + per) :
    pageOf vstart i = pageOf vstart done ∧
      addrAt vstart i % 4096 = addrAt vstart done % 4096 + (i - done) := by
  unfold pageOf
  unfold addrAt at *
  rw [wrap_eq] at hper ⊢
  rw [wrap_eq]
  omega

theorem Filling.round {done per : Nat} (h : Filling s d vstart done val s')
    (hpage : frameOf s d (pageOf vstart done) = some f)
    (hper : per ≤ 4096 - addrAt vstart done % 4096) :
    Filling s d vstart (done + per) val
      (s'.setFrame f ((s'.frame f).fill (addrAt vstart done % 4096) val per)) where
  freeList := h.freeList
  bytes i g hi hg := by
    have hself : (s'.setFrame f ((s'.frame f).fill (addrAt vstart done % 4096) val per)).frame f =
        (s'.frame f).fill (addrAt vstart done % 4096) val per := if_pos rfl
    cases Nat.lt_or_ge i done with
    | inl hold =>
        have hbefore := h.bytes i g hold hg
        cases Decidable.em (g = f) with
        | inl heq =>
            rw [heq] at hbefore ⊢
            rw [hself]
            unfold Memory.fill
            split
            · rfl
            · exact hbefore
        | inr hne =>
            rw [setFrame_of_ne _ hne]
            exact hbefore
    | inr hnew =>
        rcases addrAt_round hper hnew hi with ⟨hsame, haddr⟩
        rw [hsame, hpage] at hg
        cases hg
        rw [hself, haddr]
        exact if_pos (by lia)
  others g x hout := by
    have hbefore := h.others g x (fun i hi => hout i (Nat.lt_add_right per hi))
    cases Decidable.em (g = f) with
    | inr hne =>
        rw [setFrame_of_ne _ hne]
        exact hbefore
    | inl heq =>
        rw [<- hbefore, heq]
        show (s'.setFrame f _).frame f x = _
        have hself : (s'.setFrame f ((s'.frame f).fill (addrAt vstart done % 4096) val
            per)).frame f = (s'.frame f).fill (addrAt vstart done % 4096) val per := if_pos rfl
        rw [hself]
        apply if_neg
        intro hboth
        rcases hboth with ⟨hlow, hhigh⟩
        have hi : done + (x - addrAt vstart done % 4096) < done + per := by lia
        rcases addrAt_round hper (Nat.le_add_right done _) hi with ⟨hsame, haddr⟩
        apply hout _ hi
        refine ⟨?_, ?_⟩
        · rw [hsame, hpage, heq]
        · rw [haddr]
          lia

/--
The loop fills the range up to its end, or up to the first byte `m` of a page that is absent;
`q` bounds the bytes whose tables are looked at.
-/
theorem setrangeFrom_filling {k done q : Nat} (hd : d < 262144) (hown : OwnFrames s d vstart q)
    (hmq : m ≤ q) (hpresent : forall i, i < m -> frameOf s d (pageOf vstart i) ≠ none)
    (hend : m = n ∨ m < n ∧ m < q ∧ frameOf s d (pageOf vstart m) = none)
    (hdone : done ≤ m) (hk : n < done + k) (h : Filling s d vstart done val s') :
    exists s'', setrangeFrom (kernelAddr d) val n k done (addrAt vstart done) s' =
        Except.ok (decide (m = n), s'') ∧ Filling s d vstart m val s'' := by
  have hpg : pgSize = 4096 := rfl
  have hmn : m ≤ n := by
    rcases hend with heq | ⟨hlt, -, -⟩
    · exact Nat.le_of_eq heq
    · exact Nat.le_of_lt hlt
  induction k generalizing done s' with
  | zero => exact absurd (Nat.le_trans hdone hmn) (Nat.not_le.mpr hk)
  | succ k ih =>
      unfold setrangeFrom
      cases Nat.lt_or_ge done m with
      | inl hlt =>
          have hq : done < q := Nat.lt_of_lt_of_le hlt hmq
          rcases h.translates hown (Nat.le_trans hdone hmq) hq with ⟨htable, hframe⟩
          rcases Option.ne_none_iff_exists'.mp (hpresent done hlt) with ⟨f, hf⟩
          rcases hown.page done f hq hf with ⟨hmem, -, -⟩
          have hptr : pageFramePtr (kernelAddr d) (addrAt vstart done) s' =
              Except.ok (kernelAddr f) := by
            apply pageFramePtr_frameOf hd _ (hframe.trans hf) hmem
            intro t ht
            exact hown.table done t hq (htable.symm.trans ht)
          rw [if_pos (Nat.lt_of_lt_of_le hlt hmn), hptr, ok_bind, if_neg (kernelAddr_ne_zero f)]
          dsimp only
          rw [pageAt_of_lt hmem, ok_bind, hpg]
          generalize hper : (if 4096 - addrAt vstart done % 4096 > n - done then n - done
            else 4096 - addrAt vstart done % 4096) = per
          have hpage : per ≤ 4096 - addrAt vstart done % 4096 := by
            split at hper
            · lia
            · lia
          have hleft : done + per ≤ n ∧ 0 < per := by
            have hoff : addrAt vstart done % 4096 < 4096 := Nat.mod_lt _ (by decide)
            split at hper
            · lia
            · lia
          -- the first absent page begins behind this one
          have hinside : done + per ≤ m := by
            rcases hend with heq | ⟨-, -, habsent⟩
            · rw [heq]
              exact hleft.left
            · cases Nat.lt_or_ge m (done + per) with
              | inl hin =>
                  rcases addrAt_round hpage hdone hin with ⟨hsame, -⟩
                  rw [hsame, hf] at habsent
                  cases habsent
              | inr hout => exact hout
          have hnext : wrap (addrAt vstart done + per) = addrAt vstart (done + per) := by
            unfold addrAt
            rw [wrap_eq, wrap_eq, wrap_eq]
            omega
          rw [hnext]
          exact ih hinside (by lia) (h.round hf hpage)
      | inr hge =>
          have hsame : done = m := Nat.le_antisymm hdone hge
          rw [hsame] at h ⊢
          rcases hend with heq | ⟨hlt, hq, habsent⟩
          · rw [if_neg (by lia), decide_eq_true heq]
            exact ⟨s', rfl, h⟩
          · rcases h.translates hown hmq hq with ⟨htable, hframe⟩
            have hptr : pageFramePtr (kernelAddr d) (addrAt vstart m) s' = Except.ok 0 := by
              apply pageFramePtr_absent hd _ (hframe.trans habsent)
              intro t ht
              exact hown.table m t hq (htable.symm.trans ht)
            rw [if_pos hlt, hptr, ok_bind, if_pos rfl, decide_eq_false (Nat.ne_of_lt hlt)]
            exact ⟨s', rfl, h⟩

theorem Filling.filled (h : Filling s d vstart m val s') {q : Nat}
    (hown : OwnFrames s d vstart q) (hmq : m ≤ q)
    (hpresent : forall i, i < m -> frameOf s d (pageOf vstart i) ≠ none) :
    Filled s d vstart m val s' where
  freeList := h.freeList
  others := h.others
  reads i hi := by
    rcases Option.ne_none_iff_exists'.mp (hpresent i hi) with ⟨f, hf⟩
    have hsame := (h.translates hown hmq (Nat.lt_of_lt_of_le hi hmq)).right
    have hbyte := h.bytes i f hi hf
    unfold virtualByte
    show (frameOf s' d (pageOf vstart i)).map _ = _
    rw [hsame, hf, Option.map_some, hbyte]

/-- `pgdir_setrange` answers whether it came to the end of its range. -/
theorem pgdirSetrange_filled {q : Nat} (s : Phys) (vstart n : UInt32) (val : UInt8)
    (hd : d < 262144) (hown : OwnFrames s d vstart.toNat q) (hmq : m ≤ q)
    (hpresent : forall i, i < m -> frameOf s d (pageOf vstart.toNat i) ≠ none)
    (hend : m = n.toNat ∨ m < n.toNat ∧ m < q ∧ frameOf s d (pageOf vstart.toNat m) = none) :
    exists s', pgdirSetrange (kernelAddr d) vstart.toNat val n.toNat s =
        Except.ok (decide (m = n.toNat), s') ∧ Filled s d vstart.toNat m val s' := by
  have hstart : addrAt vstart.toNat 0 = vstart.toNat := by
    have hlt := vstart.toNat_lt
    unfold addrAt
    rw [wrap_eq]
    omega
  have hfuel : n.toNat < 0 + (n.toNat + 1) := by lia
  rcases setrangeFrom_filling hd hown hmq hpresent hend (Nat.zero_le _) hfuel
    (Filling.nothing s d vstart.toNat val) with ⟨s', hrun, hfilling⟩
  rw [hstart] at hrun
  exact ⟨s', hrun, hfilling.filled hown hmq hpresent⟩

theorem vmSetrange_filled (s : Phys) (vm : AddressSpace) (vstart n : UInt32) (val : UInt8)
    (hvm : vm.pgdir = kernelAddr d) (hd : d < 262144)
    (hown : OwnFrames s d vstart.toNat n.toNat)
    (hpresent : forall i, i < n.toNat -> frameOf s d (pageOf vstart.toNat i) ≠ none) :
    exists s', vmSetrange vm vstart.toNat val n.toNat s = Except.ok (true, s') ∧
      Filled s d vstart.toNat n.toNat val s' := by
  rcases pgdirSetrange_filled s vstart n val hd hown (Nat.le_refl _) hpresent (Or.inl rfl) with
    ⟨s', hrun, hfilled⟩
  rw [decide_eq_true rfl] at hrun
  refine ⟨s', ?_, hfilled⟩
  unfold vmSetrange
  rw [hvm]
  exact hrun

end Setrange

/--
Where the pages of a range have frames of their own, apart from those of the directory and the
tables, `pgdir_setrange` fills the range exactly; at the first page that is absent it stops and
has filled what is below.
-/
theorem pgdirSetrange_fills (s : Phys) (d : Nat) (vstart n : UInt32) (val : UInt8)
    (hd : d < 262144) :
    (OwnFrames s d vstart.toNat n.toNat ->
      (forall i, i < n.toNat -> frameOf s d (pageOf vstart.toNat i) ≠ none) ->
      exists s', pgdirSetrange (kernelAddr d) vstart.toNat val n.toNat s = Except.ok (true, s') ∧
        Filled s d vstart.toNat n.toNat val s') ∧
    forall m, m < n.toNat -> OwnFrames s d vstart.toNat (m + 1) ->
      (forall i, i < m -> frameOf s d (pageOf vstart.toNat i) ≠ none) ->
      frameOf s d (pageOf vstart.toNat m) = none ->
      exists s', pgdirSetrange (kernelAddr d) vstart.toNat val n.toNat s = Except.ok (false, s') ∧
        Filled s d vstart.toNat m val s' := by
  constructor
  · intro hown hpresent
    rcases pgdirSetrange_filled s vstart n val hd hown (Nat.le_refl _) hpresent (Or.inl rfl) with
      ⟨s', hrun, hfilled⟩
    rw [decide_eq_true rfl] at hrun
    exact ⟨s', hrun, hfilled⟩
  · intro m hm hown hpresent habsent
    rcases pgdirSetrange_filled s vstart n val hd hown (Nat.le_succ m) hpresent
      (Or.inr ⟨hm, Nat.lt_succ_self m, habsent⟩) with ⟨s', hrun, hfilled⟩
    rw [decide_eq_false (Nat.ne_of_lt hm)] at hrun
    exact ⟨s', hrun, hfilled⟩

/-!
# Kernel addresses
-/

/--
A directory in the first free frame, and the kernel's table for the addresses from `FREE_BASE`
on, with its first three entries.
-/
def windowPhys : Phys where
  frame f :=
    if f = 1024 then Memory.setWord (fun _ => 0) (4 * 513) (4096 * 256 + 3)
    else if f = 256 then
      Memory.setWord (Memory.setWord (Memory.setWord (fun _ => 0) 0 (4096 * 1024 + 3)) 4
        (4096 * 1025 + 3)) 8 (4096 * 1026 + 3)
    else fun _ => 0
  freeList := 0
  exhausted := false

theorem window_table : tableOf windowPhys 1024 525312 = some 256 := by decide +kernel

theorem window_first : frameOf windowPhys 1024 525312 = some 1024 := by decide +kernel

theorem window_second : frameOf windowPhys 1024 525313 = some 1025 := by decide +kernel

theorem window_page {i : Nat} (hi : i < 8192) :
    pageOf 2151677952 i = 525312 ∧ i < 4096 ∨ pageOf 2151677952 i = 525313 ∧ 4096 ≤ i := by
  unfold pageOf addrAt
  rw [wrap_eq]
  omega

/-- The memory behind the first round, which clears the directory. -/
def clearedPhys : Phys :=
  windowPhys.setFrame 1024 ((windowPhys.frame 1024).fill 0 0 4096)

theorem window_ptr :
    pageFramePtr (kernelAddr 1024) 2151677952 windowPhys = Except.ok (kernelAddr 1024) := by
  have hdiv : 2151677952 / 4096 = 525312 := by lia
  apply pageFramePtr_frameOf
  · decide
  · intro t ht
    rw [hdiv, window_table] at ht
    cases ht
    decide
  · rw [hdiv]
    exact window_first
  · decide

theorem cleared_ptr : pageFramePtr (kernelAddr 1024) 2151682048 clearedPhys = Except.ok 0 := by
  have hdiv : 2151682048 / 4096 = 525313 := by lia
  have hself : clearedPhys.frame 1024 = (windowPhys.frame 1024).fill 0 0 4096 := rfl
  have hnr : 4 * (525313 / 1024 % 1024) = 2052 := by lia
  have hgone : tableOf clearedPhys 1024 525313 = none := by
    apply (target_none_iff _).mpr
    unfold Phys.entry
    rw [hself, hnr, Memory.word_fill_zero _ (by lia) (by lia)]
    decide
  apply pageFramePtr_absent
  · decide
  · intro t ht
    rw [hdiv, hgone] at ht
    cases ht
  · unfold frameOf
    rw [hdiv, hgone]
    rfl

/-- Two pages from the directory's own kernel address: clearing the first takes the second away. -/
theorem pgdirSetrange_clears_directory :
    (forall i, i < 8192 ->
      exists f, frameOf windowPhys 1024 (pageOf 2151677952 i) = some f ∧ f < 262144) ∧
      (forall i j f, i < 8192 -> j < 8192 ->
        frameOf windowPhys 1024 (pageOf 2151677952 i) = some f ->
        frameOf windowPhys 1024 (pageOf 2151677952 j) = some f ->
        pageOf 2151677952 i = pageOf 2151677952 j) ∧
      exists s', pgdirSetrange (kernelAddr 1024) 2151677952 0 8192 windowPhys =
        Except.ok (false, s') := by
  refine ⟨?_, ?_, ?_⟩
  · intro i hi
    rcases window_page hi with ⟨hpage, -⟩ | ⟨hpage, -⟩
    · exact ⟨1024, hpage ▸ window_first, by decide⟩
    · exact ⟨1025, hpage ▸ window_second, by decide⟩
  · intro i j f hi hj hfi hfj
    rcases window_page hi with ⟨hpi, -⟩ | ⟨hpi, -⟩
    · rcases window_page hj with ⟨hpj, -⟩ | ⟨hpj, -⟩
      · rw [hpi, hpj]
      · rw [hpi, window_first] at hfi
        rw [hpj, window_second, <- hfi] at hfj
        exact absurd (Option.some.inj hfj) (by decide)
    · rcases window_page hj with ⟨hpj, -⟩ | ⟨hpj, -⟩
      · rw [hpi, window_second] at hfi
        rw [hpj, window_first, <- hfi] at hfj
        exact absurd (Option.some.inj hfj) (by decide)
      · rw [hpi, hpj]
  · refine ⟨clearedPhys, ?_⟩
    have hnext : wrap (2151677952 + 4096) = 2151682048 := by
      rw [wrap_eq]
    have hround : (if pgSize - 2151677952 % pgSize > 8192 - 0 then 8192 - 0
        else pgSize - 2151677952 % pgSize) = 4096 := by
      unfold pgSize
      lia
    have hoffset : 2151677952 % pgSize = 0 := by
      unfold pgSize
      lia
    unfold pgdirSetrange
    rw [setrangeFrom, if_pos (by decide), window_ptr, ok_bind, if_neg (kernelAddr_ne_zero 1024)]
    dsimp only
    rw [pageAt_of_lt (by decide), ok_bind, hround, hnext, hoffset, setrangeFrom,
      if_pos (by decide)]
    show (pageFramePtr (kernelAddr 1024) 2151682048 clearedPhys >>= _) = _
    rw [cleared_ptr, ok_bind, if_pos rfl]
    rfl

theorem window_third : frameOf windowPhys 1024 525314 = some 1026 := by decide +kernel

theorem window_fourth : frameOf windowPhys 1024 525315 = none := by decide +kernel

/-- The range starts 96 bytes below the end of its first page. -/
theorem window_pages {i : Nat} (hi : i ≤ 4192) :
    (pageOf 2151686048 i = 525313 ∧ i < 96) ∨
      (pageOf 2151686048 i = 525314 ∧ 96 ≤ i ∧ i < 4192) ∨
      (pageOf 2151686048 i = 525315 ∧ i = 4192) := by
  unfold pageOf addrAt
  rw [wrap_eq]
  omega

theorem window_tables {i : Nat} (hi : i ≤ 4192) :
    tableOf windowPhys 1024 (pageOf 2151686048 i) = some 256 := by
  rcases window_pages hi with ⟨hpage, -⟩ | ⟨hpage, -⟩ | ⟨hpage, -⟩
  · exact hpage ▸ window_table
  · exact hpage ▸ window_table
  · exact hpage ▸ window_table

theorem window_frames {i f : Nat} (hi : i ≤ 4192)
    (hf : frameOf windowPhys 1024 (pageOf 2151686048 i) = some f) : f = 1025 ∨ f = 1026 := by
  rcases window_pages hi with ⟨hpage, -⟩ | ⟨hpage, -⟩ | ⟨hpage, -⟩
  · rw [hpage, window_second] at hf
    exact Or.inl (Option.some.inj hf).symm
  · rw [hpage, window_third] at hf
    exact Or.inr (Option.some.inj hf).symm
  · rw [hpage, window_fourth] at hf
    cases hf

theorem window_present {i : Nat} (hi : i < 4192) :
    frameOf windowPhys 1024 (pageOf 2151686048 i) ≠ none := by
  rcases window_pages (Nat.le_of_lt hi) with ⟨hpage, -⟩ | ⟨hpage, -⟩ | ⟨-, hlast⟩
  · rw [hpage, window_second]
    exact Option.some_ne_none _
  · rw [hpage, window_third]
    exact Option.some_ne_none _
  · exact absurd hlast (Nat.ne_of_lt hi)

theorem window_own {n : Nat} (hn : n ≤ 4193) : OwnFrames windowPhys 1024 2151686048 n := by
  have hle : forall {i}, i < n -> i ≤ 4192 :=
    fun hi => Nat.le_of_lt_succ (Nat.lt_of_lt_of_le hi hn)
  constructor
  · intro i t hi ht
    rw [window_tables (hle hi)] at ht
    cases ht
    decide
  · intro i f hi hf
    have hapart : f < 262144 ∧ f ≠ 1024 ∧ 256 ≠ f := by
      rcases window_frames (hle hi) hf with hfirst | hsecond
      · rw [hfirst]
        decide
      · rw [hsecond]
        decide
    refine ⟨hapart.left, hapart.right.left, ?_⟩
    intro j hj htable
    rw [window_tables (hle hj)] at htable
    exact hapart.right.right (Option.some.inj htable)

/-- Parts of two pages, and then as far as the page behind them, which is absent. -/
theorem pgdirSetrange_fills_window :
    (exists s', pgdirSetrange (kernelAddr 1024) 2151686048 7 200 windowPhys =
        Except.ok (true, s') ∧ Filled windowPhys 1024 2151686048 200 7 s') ∧
      exists s', pgdirSetrange (kernelAddr 1024) 2151686048 7 8000 windowPhys =
        Except.ok (false, s') ∧ Filled windowPhys 1024 2151686048 4192 7 s' := by
  have hstart : (2151686048 : UInt32).toNat = 2151686048 := rfl
  constructor
  · have hn : (200 : UInt32).toNat = 200 := rfl
    have hfills := (pgdirSetrange_fills windowPhys 1024 2151686048 200 7 (by decide)).left
    rw [hn, hstart] at hfills
    exact hfills (window_own (by decide)) (fun i hi => window_present (by lia))
  · have hn : (8000 : UInt32).toNat = 8000 := rfl
    have hstops := (pgdirSetrange_fills windowPhys 1024 2151686048 8000 7 (by decide)).right
    rw [hn, hstart] at hstops
    have habsent : frameOf windowPhys 1024 (pageOf 2151686048 4192) = none := by
      have hpage : pageOf 2151686048 4192 = 525315 := by
        unfold pageOf addrAt
        rw [wrap_eq]
      rw [hpage, window_fourth]
    exact hstops 4192 (by decide) (window_own (Nat.le_refl _)) (fun i hi => window_present hi)
      habsent

end Vm
end Kernel
end NicoOS
