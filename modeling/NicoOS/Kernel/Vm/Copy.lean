import NicoOS.Kernel.Vm.Ranges

/-!
# Copies of address spaces

`pgtab_copy` and `pgdir_copy` on a sound address space.  A fresh table holds what its
frame held before, so a loop is described by the entries that it has passed.
-/

namespace NicoOS
namespace Kernel
namespace Vm

open Lib

/-!
# Frames that a copy needs
-/

/-- The pages among the given virtual pages. -/
def pagesNeed (pages : Nat -> Bool) : Nat -> Nat -> Nat
  | 0, _ => 0
  | k + 1, v => (if pages v then 1 else 0) + pagesNeed pages k (v + 1)

/-- The tables from the given one on, with their pages. -/
def tablesNeed (tables pages : Nat -> Bool) : Nat -> Nat -> Nat
  | 0, _ => 0
  | k + 1, i =>
      (if tables i then 1 + pagesNeed pages 1024 (1024 * i) else 0) +
        tablesNeed tables pages k (i + 1)

/-- The frames that `pgdir_copy` takes. -/
def copyNeed (tables pages : Nat -> Bool) : Nat := 1 + tablesNeed tables pages 512 0

/-!
# Writes outside an address space
-/

section Outside

variable {s s' : Phys} {free free' : List Nat} {L : Layout}

/-- Writes to free frames and to one more frame keep the address spaces that use neither. -/
theorem Sound.outside (h : Sound s free L) {c : Nat} (hpool : Pool s' free')
    (hsub : forall f, f ∈ free' -> f ∈ free) (hc : L.Unused c) (hcPool : InPool c)
    (hsame : forall f, f ≠ c -> Not (f ∈ free) -> s'.frame f = s.frame f) : Sound s' free' L := by
  have hmine : forall x f, L.frame x = some f -> s'.frame f = s.frame f := by
    intro x f hx
    exact hsame f (fun e => hc x (e ▸ hx)) (h.used x f hx)
  apply h.untouched hpool (fun f hf => Or.inl (hsub f hf)) hmine
  exact hsame kpgdirFrame (Sound.ne_kpgdir hcPool) h.kpgdir_used

end Outside

/-!
# Tables
-/

/-- Entries `nr` to `nr + k` of the table `i` are copied into the frame `dst`. -/
structure Copied (s : Phys) (free : List Nat) (L : Layout) (i dst nr k : Nat) (s' : Phys)
    (free' : List Nat) (m : Nat -> Option Nat) : Prop where
  sound : Sound s' free' L
  taken : forall f, f ∈ free' -> f ∈ free
  entry : forall j, nr ≤ j -> j < nr + k -> target (s'.entry dst j) = m j
  below : forall j, j < nr -> s'.entry dst j = s.entry dst j
  range : forall j f, m j = some f -> nr ≤ j ∧ j < nr + k
  present : forall j, nr ≤ j -> j < nr + k -> (m j).isSome = L.hasPage (1024 * i + j)
  fresh : forall j f, m j = some f -> f ∈ free ∧ Not (f ∈ free')
  inj : forall j l f, m j = some f -> m l = some f -> j = l
  contents : forall j f g, m j = some f -> L.page (1024 * i + j) = some g ->
    s'.frame f = s.frame g
  idle : forall f, f ∈ free' -> s'.frame f = s.frame f
  others : forall f, f ≠ dst -> Not (f ∈ free) -> s'.frame f = s.frame f
  exhausted : s'.exhausted = s.exhausted

section Table

variable {s : Phys} {free : List Nat} {L : Layout}

theorem Copied.nothing (h : Sound s free L) (i dst nr : Nat) :
    Copied s free L i dst nr 0 s free (fun _ => none) where
  sound := h
  taken _ hf := hf
  entry j hlow hhigh := by lia
  below _ _ := rfl
  range j f hm := by cases hm
  present j hlow hhigh := by lia
  fresh j f hm := by cases hm
  inj j l f hm := by cases hm
  contents j f g hm := by cases hm
  idle _ _ := rfl
  others _ _ _ := rfl
  exhausted := rfl

/-- The state behind an entry that is not present. -/
def skipEntry (s : Phys) (dst nr : Nat) : Phys := s.setEntry dst nr 0

/-- The state behind an entry whose page `g` is copied to the free frame `f`. -/
def copyEntry (s : Phys) (dst nr f g : Nat) : Phys :=
  (((s.setEntry dst nr 0).pop f).setEntry dst nr (link f)).copyFrame f g

theorem skipEntry_frame {dst nr f : Nat} (h : f ≠ dst) :
    (skipEntry s dst nr).frame f = s.frame f :=
  setEntry_of_ne h

theorem copyEntry_frame {dst nr f g x : Nat} (hf : x ≠ f) (hd : x ≠ dst) :
    (copyEntry s dst nr f g).frame x = s.frame x := by
  unfold copyEntry Phys.copyFrame
  rw [setFrame_of_ne _ hf, setEntry_of_ne hd]
  exact setEntry_of_ne hd

theorem copyEntry_page {dst nr f g : Nat} (hg : g ≠ dst) :
    (copyEntry s dst nr f g).frame f = s.frame g := by
  unfold copyEntry Phys.copyFrame
  rw [setFrame_self, setEntry_of_ne hg]
  exact setEntry_of_ne hg

theorem copyEntry_entry {dst nr f g : Nat} (hf : InPool f) (hne : dst ≠ f) (j : Nat) :
    (copyEntry s dst nr f g).entry dst j = if j = nr then link f else s.entry dst j := by
  have hframe : (copyEntry s dst nr f g).frame dst =
      (((s.setEntry dst nr 0).pop f).setEntry dst nr (link f)).frame dst := setFrame_of_ne _ hne
  rw [entry_congr hframe, entry_setEntry _ _ _ _ (link_lt hf)]
  by_cases hj : j = nr
  · rw [if_pos ⟨rfl, hj⟩, if_pos hj]
  · rw [if_neg (fun hboth => hj hboth.right), if_neg hj]
    exact entry_setEntry_of_ne hj

theorem skipEntry_entry {dst nr : Nat} (j : Nat) :
    (skipEntry s dst nr).entry dst j = if j = nr then 0 else s.entry dst j := by
  unfold skipEntry
  rw [entry_setEntry dst nr dst j (by decide)]
  by_cases hj : j = nr
  · rw [if_pos ⟨rfl, hj⟩, if_pos hj]
  · rw [if_neg (fun hboth => hj hboth.right), if_neg hj]

/-- What the frame `dst` of a fresh table is to the address space that is copied. -/
structure Fresh (free : List Nat) (L : Layout) (dst : Nat) : Prop where
  inPool : InPool dst
  notFree : Not (dst ∈ free)
  unused : L.Unused dst

theorem sound_skipEntry (nr : Nat) (h : Sound s free L) {dst : Nat} (hdst : Fresh free L dst) :
    Sound (skipEntry s dst nr) free L := by
  apply h.outside _ (fun _ hf => hf) hdst.unused hdst.inPool
  · exact fun f hf _ => skipEntry_frame hf
  · refine h.pool.congr rfl ?_
    exact fun f hf => skipEntry_frame (fun e => hdst.notFree (e ▸ hf))

theorem sound_copyEntry {f g dst nr : Nat} {rest : List Nat} (h : Sound s (f :: rest) L)
    (hdst : Fresh (f :: rest) L dst) : Sound (copyEntry s dst nr f g) rest L := by
  have hnodup := List.nodup_cons.mp h.pool.nodup
  have hfd : f ≠ dst := fun e => hdst.notFree (e ▸ List.mem_cons_self)
  apply h.outside _ (fun _ hx => List.mem_cons_of_mem f hx) hdst.unused hdst.inPool
  · intro x hx hfree
    exact copyEntry_frame (fun e => hfree (e ▸ List.mem_cons_self)) hx
  · refine h.pop.pool.congr ?_ ?_
    · show ((s.setEntry dst nr 0).frame f).word 0 = (s.frame f).word 0
      rw [setEntry_of_ne hfd]
    · intro x hx
      apply copyEntry_frame
      · exact fun e => hnodup.left (e ▸ hx)
      · exact fun e => hdst.notFree (e ▸ List.mem_cons_of_mem f hx)

theorem Fresh.tail {f dst : Nat} {rest : List Nat} (h : Fresh (f :: rest) L dst) :
    Fresh rest L dst where
  inPool := h.inPool
  notFree hmem := h.notFree (List.mem_cons_of_mem f hmem)
  unused := h.unused

theorem Copied.skip {i dst nr k : Nat} {s' : Phys} {free' : List Nat} {m : Nat -> Option Nat}
    (hdst : Fresh free L dst) (hnone : L.page (1024 * i + nr) = none)
    (h : Copied (skipEntry s dst nr) free L i dst (nr + 1) k s' free' m) :
    Copied s free L i dst nr (k + 1) s' free' m where
  sound := h.sound
  taken := h.taken
  entry j hlow hhigh := by
    by_cases hj : j = nr
    · rw [hj, h.below nr (by lia), skipEntry_entry, if_pos rfl]
      cases hm : m nr with
      | none => rfl
      | some f =>
          have hrange := h.range nr f hm
          lia
    · exact h.entry j (by lia) (by lia)
  below j hj := by
    rw [h.below j (by lia), skipEntry_entry, if_neg (by lia)]
  range j f hm := by
    have hrange := h.range j f hm
    lia
  present j hlow hhigh := by
    by_cases hj : j = nr
    · rw [hj, Layout.hasPage_of_none hnone]
      cases hm : m nr with
      | none => rfl
      | some f =>
          have hrange := h.range nr f hm
          lia
    · exact h.present j (by lia) (by lia)
  fresh := h.fresh
  inj := h.inj
  contents j f g hm hg := by
    rw [h.contents j f g hm hg]
    exact skipEntry_frame (fun e => hdst.unused (Slot.page _) (e ▸ hg))
  idle f hf := by
    rw [h.idle f hf]
    exact skipEntry_frame (fun e => hdst.notFree (e ▸ h.taken f hf))
  others f hf hfree := by
    rw [h.others f hf hfree]
    exact skipEntry_frame hf
  exhausted := h.exhausted

/-- A table whose entry `nr` is copied to the first free frame. -/
theorem Copied.take {i dst nr k f g : Nat} {rest free' : List Nat} {s' : Phys}
    {m : Nat -> Option Nat} (hsound : Sound s (f :: rest) L) (hdst : Fresh (f :: rest) L dst)
    (hsome : L.page (1024 * i + nr) = some g)
    (h : Copied (copyEntry s dst nr f g) rest L i dst (nr + 1) k s' free' m) :
    Copied s (f :: rest) L i dst nr (k + 1) s' free' (fun j => if j = nr then some f else m j) := by
  have hf := hsound.pool.inPool f List.mem_cons_self
  have hnodup := (List.nodup_cons.mp hsound.pool.nodup).left
  have hdf : dst ≠ f := fun e => hdst.notFree (e ▸ List.mem_cons_self)
  have hgd : g ≠ dst := fun e => hdst.unused (Slot.page _) (e ▸ hsome)
  have hnew : forall {j x : Nat}, (if j = nr then some f else m j) = some x ->
      (j = nr ∧ x = f) ∨ (j ≠ nr ∧ m j = some x) := by
    intro j x hx
    split at hx
    · rename_i hj
      cases hx
      exact Or.inl ⟨hj, rfl⟩
    · rename_i hj
      exact Or.inr ⟨hj, hx⟩
  have hcopy : forall x, x ≠ f -> x ≠ dst -> (copyEntry s dst nr f g).frame x = s.frame x :=
    fun x => copyEntry_frame
  constructor
  · exact h.sound
  · exact fun x hx => List.mem_cons_of_mem f (h.taken x hx)
  · intro j hlow hhigh
    by_cases hj : j = nr
    · rw [hj, h.below nr (by lia), copyEntry_entry hf hdf, if_pos rfl, if_pos rfl, target_link hf]
    · rw [if_neg hj]
      exact h.entry j (by lia) (by lia)
  · intro j hj
    rw [h.below j (by lia), copyEntry_entry hf hdf, if_neg (by lia)]
  · intro j x hx
    rcases hnew hx with ⟨hj, -⟩ | ⟨-, hold⟩
    · lia
    · have hrange := h.range j x hold
      lia
  · intro j hlow hhigh
    by_cases hj : j = nr
    · rw [if_pos hj, hj, Layout.hasPage_of_some hsome]
      rfl
    · rw [if_neg hj]
      exact h.present j (by lia) (by lia)
  · intro j x hx
    rcases hnew hx with ⟨-, hxf⟩ | ⟨-, hold⟩
    · rw [hxf]
      exact ⟨List.mem_cons_self, fun hmem => hnodup (h.taken f hmem)⟩
    · rcases h.fresh j x hold with ⟨hin, hout⟩
      exact ⟨List.mem_cons_of_mem f hin, hout⟩
  · intro j l x hx hy
    rcases hnew hx with ⟨hj, hxf⟩ | ⟨-, hold⟩
    · rcases hnew hy with ⟨hl, -⟩ | ⟨-, hold⟩
      · lia
      · exact absurd (hxf ▸ (h.fresh l x hold).left) hnodup
    · rcases hnew hy with ⟨-, hxf⟩ | ⟨-, hold'⟩
      · exact absurd (hxf ▸ (h.fresh j x hold).left) hnodup
      · exact h.inj j l x hold hold'
  · intro j x y hx hy
    rcases hnew hx with ⟨hj, hxf⟩ | ⟨-, hold⟩
    · have hyg : some y = some g := by
        rw [<- hsome, <- hj]
        exact hy.symm
      cases hyg
      rw [hxf, h.others f hdf.symm hnodup]
      exact copyEntry_page hgd
    · rw [h.contents j x y hold hy]
      apply hcopy
      · exact fun e => hsound.used (Slot.page _) y hy (e ▸ List.mem_cons_self)
      · exact fun e => hdst.unused (Slot.page _) (e ▸ hy)
  · intro x hx
    rw [h.idle x hx]
    apply hcopy
    · exact fun e => hnodup (e ▸ h.taken x hx)
    · exact fun e => hdst.notFree (e ▸ List.mem_cons_of_mem f (h.taken x hx))
  · intro x hx hfree
    rw [h.others x hx (fun hmem => hfree (List.mem_cons_of_mem f hmem))]
    exact hcopy x (fun e => hfree (e ▸ List.mem_cons_self)) hx
  · exact h.exhausted

theorem pagesNeed_some {k v f : Nat} (h : L.page v = some f) :
    pagesNeed L.hasPage (k + 1) v = 1 + pagesNeed L.hasPage k (v + 1) := by
  show (if L.hasPage v = true then _ else _) + _ = _
  rw [if_pos (Layout.hasPage_of_some h)]

theorem pagesNeed_none {k v : Nat} (h : L.page v = none) :
    pagesNeed L.hasPage (k + 1) v = pagesNeed L.hasPage k (v + 1) := by
  show (if L.hasPage v = true then _ else _) + _ = _
  rw [if_neg (Bool.eq_false_iff.mp (Layout.hasPage_of_none h)), Nat.zero_add]

theorem source_entry (value : Nat) (h : Sound s free L) {i src dst nr : Nat}
    (hsrc : L.table i = some src) (hdst : Fresh free L dst) (hnr : nr < 1024) :
    target ((s.setEntry dst nr value).entry src nr) = L.page (1024 * i + nr) := by
  have hne : src ≠ dst := fun e => hdst.unused (Slot.table i) (e ▸ hsrc)
  rw [entry_congr (setEntry_of_ne hne)]
  exact h.target_table (h.table_lt hsrc) hnr hsrc

theorem pgtabCopyFrom_skip {i src dst nr k : Nat} (h : Sound s free L)
    (hsrc : L.table i = some src) (hdst : Fresh free L dst) (hnr : nr < 1024)
    (hnone : L.page (1024 * i + nr) = none) :
    pgtabCopyFrom src dst (k + 1) nr s =
      pgtabCopyFrom src dst k (nr + 1) (skipEntry s dst nr) := by
  have hentry := source_entry 0 h hsrc hdst hnr
  rw [hnone] at hentry
  have habsent := Bool.eq_false_iff.mp ((target_none_iff _).mp hentry)
  conv => lhs; unfold pgtabCopyFrom
  dsimp only
  rw [if_neg habsent]
  rfl

theorem pgtabCopyFrom_take {i src dst nr k f g : Nat} {rest : List Nat}
    (h : Sound s (f :: rest) L) (hsrc : L.table i = some src) (hdst : Fresh (f :: rest) L dst)
    (hnr : nr < 1024) (hsome : L.page (1024 * i + nr) = some g) :
    pgtabCopyFrom src dst (k + 1) nr s =
      pgtabCopyFrom src dst k (nr + 1) (copyEntry s dst nr f g) := by
  have hentry := source_entry 0 h hsrc hdst hnr
  rw [hsome] at hentry
  rcases target_some hentry with ⟨hpresent, hpaddr⟩
  have hf := h.pool.inPool f List.mem_cons_self
  have hpalloc := (sound_skipEntry nr h hdst).pool.palloc_cons.left
  unfold skipEntry at hpalloc
  conv => lhs; unfold pgtabCopyFrom
  dsimp only
  rw [if_pos hpresent, hpalloc, ok_bind]
  dsimp only
  rw [if_neg (paddr_ne_zero h), hpaddr, pageAt_paddr (h.page_inPool hsome), ok_bind,
    pageAt_paddr hf, ok_bind]
  rfl

theorem pgtabCopyFrom_enough {i src dst nr k : Nat} (h : Sound s free L)
    (hsrc : L.table i = some src) (hdst : Fresh free L dst) (hk : nr + k = 1024)
    (henough : pagesNeed L.hasPage k (1024 * i + nr) ≤ free.length) :
    exists s' free' m, pgtabCopyFrom src dst k nr s = Except.ok (true, s') ∧
      Copied s free L i dst nr k s' free' m ∧
      free'.length + pagesNeed L.hasPage k (1024 * i + nr) = free.length := by
  induction k generalizing s free nr with
  | zero => exact ⟨s, free, fun _ => none, rfl, Copied.nothing h i dst nr, rfl⟩
  | succ k ih =>
      have hnr : nr < 1024 := by lia
      have hnext : 1024 * i + nr + 1 = 1024 * i + (nr + 1) := rfl
      cases hold : L.page (1024 * i + nr) with
      | none =>
          rw [pagesNeed_none hold, hnext] at henough ⊢
          rcases ih (sound_skipEntry nr h hdst) hdst (by lia) henough with
            ⟨s', free', m, hrun, hcopied, hlen⟩
          exact ⟨s', free', m, (pgtabCopyFrom_skip h hsrc hdst hnr hold).trans hrun,
            hcopied.skip hdst hold, hlen⟩
      | some g =>
          rw [pagesNeed_some hold, hnext] at henough ⊢
          cases free with
          | nil =>
              have hlen : ([] : List Nat).length = 0 := rfl
              lia
          | cons f rest =>
              have hrest : pagesNeed L.hasPage k (1024 * i + (nr + 1)) ≤ rest.length := by
                rw [List.length_cons] at henough
                lia
              have hsound : Sound (copyEntry s dst nr f g) rest L := sound_copyEntry h hdst
              rcases ih hsound hdst.tail (by lia) hrest with
                ⟨s', free', m, hrun, hcopied, hlen⟩
              refine ⟨s', free', _, (pgtabCopyFrom_take h hsrc hdst hnr hold).trans hrun,
                hcopied.take h hdst hold, ?_⟩
              rw [List.length_cons]
              lia

/-- A copy that runs out of frames ends in a page fault of the kernel. -/
theorem pgtabCopyFrom_short {i src dst nr k : Nat} (h : Sound s free L)
    (hsrc : L.table i = some src) (hdst : Fresh free L dst) (hk : nr + k = 1024)
    (hshort : free.length < pagesNeed L.hasPage k (1024 * i + nr)) :
    exists s', pgtabCopyFrom src dst k nr s = Except.error (Stop.fault, s') ∧
      s'.exhausted = true := by
  have hanswer : kernelBase ≠ 0 := by decide
  induction k generalizing s free nr with
  | zero => cases hshort
  | succ k ih =>
      have hnr : nr < 1024 := by lia
      have hnext : 1024 * i + nr + 1 = 1024 * i + (nr + 1) := rfl
      cases hold : L.page (1024 * i + nr) with
      | none =>
          rw [pagesNeed_none hold, hnext] at hshort
          rw [pgtabCopyFrom_skip h hsrc hdst hnr hold]
          exact ih (sound_skipEntry nr h hdst) hdst (by lia) hshort
      | some g =>
          rw [pagesNeed_some hold, hnext] at hshort
          cases free with
          | nil =>
              have hentry := source_entry 0 h hsrc hdst hnr
              rw [hold] at hentry
              rcases target_some hentry with ⟨hpresent, hpaddr⟩
              have hpalloc := (sound_skipEntry nr h hdst).pool.palloc_nil
              unfold skipEntry at hpalloc
              let s1 : Phys := { s.setEntry dst nr 0 with exhausted := true }
              refine ⟨s1.setEntry dst nr (kernelBase ||| pgUser ||| pgPresent), ?_, rfl⟩
              unfold pgtabCopyFrom
              dsimp only
              rw [if_pos hpresent, hpalloc, ok_bind]
              dsimp only
              rw [if_neg hanswer, hpaddr, pageAt_paddr (h.page_inPool hold), ok_bind,
                pageAt_kernelBase, error_bind]
          | cons f rest =>
              rw [List.length_cons] at hshort
              rw [pgtabCopyFrom_take h hsrc hdst hnr hold]
              exact ih (sound_copyEntry h hdst) hdst.tail (by lia) (by lia)

end Table

end Vm
end Kernel
end NicoOS
