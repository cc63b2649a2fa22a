import NicoOS.Kernel.Vm.Isolation

/-!
# Releasing address spaces

`pgdir_free` gives back every frame of a sound address space, and writes to no other.
-/

namespace NicoOS
namespace Kernel
namespace Vm

open Lib

/-- The frames in `P` are free now, and only frames in `W` have been written to. -/
structure Freed (s : Phys) (free : List Nat) (P W : Nat -> Prop) (s' : Phys)
    (free' : List Nat) : Prop where
  pool : Pool s' free'
  mem : forall f, f ∈ free' <-> f ∈ free ∨ P f
  same : forall f, Not (W f) -> s'.frame f = s.frame f
  exhausted : s'.exhausted = s.exhausted

section Release

variable {s : Phys} {free : List Nat} {L : Layout}

theorem Freed.nothing (h : Pool s free) (W : Nat -> Prop) :
    Freed s free (fun _ => False) W s free where
  pool := h
  mem f := by
    constructor
    · exact Or.inl
    · intro hor
      rcases hor with hf | hf
      · exact hf
      · exact hf.elim
  same _ _ := rfl
  exhausted := rfl

theorem Freed.trans {s1 s2 : Phys} {free1 free2 : List Nat} {P P1 P2 W W1 W2 : Nat -> Prop}
    (h : Freed s free P W s1 free1) (h1 : Freed s1 free1 P1 W1 s2 free2)
    (hP : forall f, P2 f <-> P f ∨ P1 f) (hW : forall f, W f ∨ W1 f -> W2 f) :
    Freed s free P2 W2 s2 free2 where
  pool := h1.pool
  mem f := by
    rw [h1.mem, h.mem, hP, or_assoc]
  same f hf := by
    rw [h1.same f (fun hw => hf (hW f (Or.inr hw))), h.same f (fun hw => hf (hW f (Or.inl hw)))]
  exhausted := h1.exhausted.trans h.exhausted

theorem freed_one (h : Pool s free) {f : Nat} (hf : InPool f) (hnew : Not (f ∈ free)) :
    exists s' free', Vm.pfree (4096 * f) s = Except.ok s' ∧
      Freed s free (fun g => g = f) (fun g => g = f) s' free' := by
  rcases h.pfree hf hnew with ⟨s', hrun, hpool, hsame, hex⟩
  refine ⟨s', f :: free, hrun, hpool, ?_, hsame, hex⟩
  intro g
  rw [List.mem_cons]
  exact or_comm

/-!
# The tables
-/

/-- One round over a table whose entry points at a page. -/
theorem freeEntries_page {t nr g : Nat} (h : Pool s free) (ht : InPool t)
    (htfree : Not (t ∈ free)) (hg : target (s.entry t nr) = some g) (hgpool : InPool g)
    (hgfree : Not (g ∈ free)) (hgt : g ≠ t) :
    exists s' free', (forall k, freeEntries t (k + 1) nr s = freeEntries t k (nr + 1) s') ∧
      Freed s free (fun f => f = g) (fun f => f = g ∨ f = t) s' free' ∧
      forall j, j ≠ nr -> s'.entry t j = s.entry t j := by
  have hclear : Pool (s.clear g) free := by
    refine h.congr rfl ?_
    intro f hf
    exact clear_of_ne (fun e => hgfree (e ▸ hf))
  rcases freed_one hclear hgpool hgfree with ⟨s1, free1, hrun, hfreed⟩
  refine ⟨s1.setEntry t nr 0, free1, ?_, ?_, ?_⟩
  · intro k
    conv => lhs; unfold freeEntries
    dsimp only
    rw [if_pos (target_some hg).left, (target_some hg).right, pageAt_paddr hgpool, ok_bind, hrun,
      ok_bind]
  · constructor
    · refine hfreed.pool.congr rfl ?_
      intro f hf
      apply setEntry_of_ne
      intro e
      rcases (hfreed.mem f).mp hf with hf | hf
      · exact htfree (e ▸ hf)
      · exact hgt (hf.symm.trans e)
    · exact hfreed.mem
    · intro f hf
      rw [setEntry_of_ne (fun e => hf (Or.inr e)), hfreed.same f (fun e => hf (Or.inl e)),
        clear_of_ne (fun e => hf (Or.inl e))]
    · exact hfreed.exhausted
  · intro j hj
    rw [entry_setEntry_of_ne hj]
    have hframe : s1.frame t = s.frame t := by
      rw [hfreed.same t (fun e => hgt e.symm), clear_of_ne (fun e => hgt e.symm)]
    exact entry_congr hframe j

/-- One round over a table whose entry is not present. -/
theorem freeEntries_skip {t nr : Nat} (h : Pool s free) (htfree : Not (t ∈ free))
    (hnone : target (s.entry t nr) = none) :
    exists s', (forall k, freeEntries t (k + 1) nr s = freeEntries t k (nr + 1) s') ∧
      Freed s free (fun _ => False) (fun f => f = t) s' free ∧
      forall j, j ≠ nr -> s'.entry t j = s.entry t j := by
  have habsent := (target_none_iff _).mp hnone
  refine ⟨s.setEntry t nr 0, ?_, ?_, ?_⟩
  · intro k
    conv => lhs; unfold freeEntries
    dsimp only
    rw [habsent, if_neg Bool.false_ne_true, ok_bind]
  · constructor
    · refine h.congr rfl ?_
      intro f hf
      exact setEntry_of_ne (fun e => htfree (e ▸ hf))
    · exact (Freed.nothing h (fun _ => True)).mem
    · exact fun f hf => setEntry_of_ne hf
    · rfl
  · exact fun j hj => entry_setEntry_of_ne hj

/-- The pages behind entries of a table, and that they may be freed one after the other. -/
structure Entries (s : Phys) (free : List Nat) (t nr k : Nat) (pages : Nat -> Option Nat) :
    Prop where
  target : forall j, nr ≤ j -> j < nr + k -> target (s.entry t j) = pages j
  inPool : forall j f, nr ≤ j -> j < nr + k -> pages j = some f -> InPool f
  notFree : forall j f, nr ≤ j -> j < nr + k -> pages j = some f -> Not (f ∈ free)
  notTable : forall j f, nr ≤ j -> j < nr + k -> pages j = some f -> f ≠ t
  own : forall i j f, pages i = some f -> pages j = some f -> i = j

theorem Entries.tail {s' : Phys} {t nr k : Nat} {pages : Nat -> Option Nat}
    (free' : List Nat) (h : Entries s free t nr (k + 1) pages)
    (hentry : forall j, j ≠ nr -> s'.entry t j = s.entry t j)
    (hmem : forall f, f ∈ free' -> f ∈ free ∨ pages nr = some f) :
    Entries s' free' t (nr + 1) k pages where
  target j hlow hhigh := by
    rw [hentry j (by lia)]
    exact h.target j (by lia) (by lia)
  inPool j f hlow hhigh := h.inPool j f (by lia) (by lia)
  notFree j f hlow hhigh hj hf := by
    rcases hmem f hf with hold | hnr
    · exact h.notFree j f (by lia) (by lia) hj hold
    · have hsame := h.own j nr f hj hnr
      lia
  notTable j f hlow hhigh := h.notTable j f (by lia) (by lia)
  own := h.own

/-- The loop over a table frees the pages behind its entries. -/
theorem freeEntries_freed {t nr k : Nat} {pages : Nat -> Option Nat} (h : Pool s free)
    (ht : InPool t) (htfree : Not (t ∈ free)) (hentries : Entries s free t nr k pages) :
    exists s' free', freeEntries t k nr s = Except.ok s' ∧
      Freed s free (fun f => exists j, nr ≤ j ∧ j < nr + k ∧ pages j = some f)
        (fun f => f = t ∨ exists j, nr ≤ j ∧ j < nr + k ∧ pages j = some f) s' free' := by
  induction k generalizing s free nr with
  | zero =>
      refine ⟨s, free, rfl, h, ?_, fun _ _ => rfl, rfl⟩
      intro f
      constructor
      · exact Or.inl
      · intro hor
        rcases hor with hf | ⟨j, hlow, hhigh, -⟩
        · exact hf
        · lia
  | succ k ih =>
      have hnr := hentries.target nr (by lia) (by lia)
      cases hpage : pages nr with
      | none =>
          rcases freeEntries_skip h htfree (hnr.trans hpage) with ⟨s1, hstep, hfreed, hentry⟩
          have hrest := Entries.tail free hentries hentry (fun f hf => Or.inl hf)
          rcases ih hfreed.pool htfree hrest with ⟨s2, free2, hrun, hfreed2⟩
          refine ⟨s2, free2, (hstep k).trans hrun, hfreed.trans hfreed2 ?_ ?_⟩
          · intro f
            constructor
            · intro hex
              rcases hex with ⟨j, hlow, hhigh, hj⟩
              right
              refine ⟨j, ?_, by lia, hj⟩
              have hne : j ≠ nr := by
                intro e
                rw [e, hpage] at hj
                cases hj
              lia
            · intro hor
              rcases hor with hfalse | ⟨j, hlow, hhigh, hj⟩
              · exact hfalse.elim
              · exact ⟨j, by lia, by lia, hj⟩
          · intro f hor
            rcases hor with hf | hf | ⟨j, hlow, hhigh, hj⟩
            · exact Or.inl hf
            · exact Or.inl hf
            · exact Or.inr ⟨j, by lia, by lia, hj⟩
      | some g =>
          have hlow : nr ≤ nr := Nat.le_refl nr
          have hhigh : nr < nr + (k + 1) := by lia
          rcases freeEntries_page h ht htfree (hnr.trans hpage)
            (hentries.inPool nr g hlow hhigh hpage) (hentries.notFree nr g hlow hhigh hpage)
            (hentries.notTable nr g hlow hhigh hpage) with ⟨s1, free1, hstep, hfreed, hentry⟩
          have htfree1 : Not (t ∈ free1) := by
            intro hmem
            rcases (hfreed.mem t).mp hmem with hold | hg
            · exact htfree hold
            · exact hentries.notTable nr g hlow hhigh hpage hg.symm
          have hrest := Entries.tail free1 hentries hentry (by
            intro f hf
            rcases (hfreed.mem f).mp hf with hold | hg
            · exact Or.inl hold
            · exact Or.inr (hg ▸ hpage))
          rcases ih hfreed.pool htfree1 hrest with ⟨s2, free2, hrun, hfreed2⟩
          refine ⟨s2, free2, (hstep k).trans hrun, hfreed.trans hfreed2 ?_ ?_⟩
          · intro f
            constructor
            · intro hex
              rcases hex with ⟨j, hjlow, hjhigh, hj⟩
              by_cases hjnr : j = nr
              · left
                rw [hjnr, hpage] at hj
                exact (Option.some.inj hj).symm
              · exact Or.inr ⟨j, by lia, by lia, hj⟩
            · intro hor
              rcases hor with hf | ⟨j, hjlow, hjhigh, hj⟩
              · exact ⟨nr, hlow, hhigh, hf ▸ hpage⟩
              · exact ⟨j, by lia, by lia, hj⟩
          · intro f hor
            rcases hor with (hf | hf) | hf | ⟨j, hjlow, hjhigh, hj⟩
            · exact Or.inr ⟨nr, hlow, hhigh, hf ▸ hpage⟩
            · exact Or.inl hf
            · exact Or.inl hf
            · exact Or.inr ⟨j, by lia, by lia, hj⟩

/-!
# The directory
-/

/-- The frame is that of a table below `n` or of one of its pages. -/
def Layout.Below (L : Layout) (n f : Nat) : Prop :=
  exists i, i < n ∧ (L.table i = some f ∨ exists j, j < 1024 ∧ L.page (1024 * i + j) = some f)

theorem Layout.Below.succ {n f : Nat} :
    L.Below (n + 1) f <-> L.Below n f ∨
      (L.table n = some f ∨ exists j, j < 1024 ∧ L.page (1024 * n + j) = some f) := by
  constructor
  · intro hex
    rcases hex with ⟨i, hi, hf⟩
    by_cases hin : i = n
    · cases hin
      exact Or.inr hf
    · exact Or.inl ⟨i, by lia, hf⟩
  · intro hor
    rcases hor with ⟨i, hi, hf⟩ | hf
    · exact ⟨i, by lia, hf⟩
    · exact ⟨n, by lia, hf⟩

theorem Layout.Below.used {n f : Nat} (h : L.Below n f) :
    exists x, x ≠ Slot.dir ∧ L.frame x = some f := by
  rcases h with ⟨i, -, ht | ⟨j, -, hp⟩⟩
  · refine ⟨Slot.table i, ?_, ht⟩
    intro e
    cases e
  · refine ⟨Slot.page (1024 * i + j), ?_, hp⟩
    intro e
    cases e

/-- Neither the directory nor the tables behind the loop have been written to. -/
theorem Sound.not_below_dir (h : Sound s free L) (n : Nat) : Not (L.Below n L.dir) := by
  intro hbelow
  rcases hbelow.used with ⟨x, hx, hf⟩
  exact hx (h.own x Slot.dir L.dir hf rfl)

theorem Sound.not_below_table (h : Sound s free L) {n t : Nat} (ht : L.table n = some t) :
    Not (L.Below n t) := by
  intro hex
  rcases hex with ⟨i, hi, hti | ⟨j, -, hp⟩⟩
  · have hin := h.table_injective hti ht
    lia
  · have hslot := h.own (Slot.page _) (Slot.table n) t hp ht
    cases hslot

theorem Sound.not_below_page (h : Sound s free L) {n j f : Nat} (hj : j < 1024)
    (hp : L.page (1024 * n + j) = some f) : Not (L.Below n f) := by
  intro hex
  rcases hex with ⟨i, hi, hti | ⟨l, hl, hpl⟩⟩
  · have hslot := h.own (Slot.table i) (Slot.page _) f hti hp
    cases hslot
  · have hslot := h.own (Slot.page _) (Slot.page _) f hpl hp
    have heq : 1024 * i + l = 1024 * n + j := Slot.page.inj hslot
    lia

theorem freeTables_table {n t : Nat} {s1 : Phys} {free1 : List Nat} (h : Sound s free L)
    (ht : L.table n = some t) (hfreed : Freed s free (L.Below n) (L.Below n) s1 free1) :
    exists s2 free2, (forall k, freeTables L.dir (k + 1) n s1 = freeTables L.dir k (n + 1) s2) ∧
      Freed s free (L.Below (n + 1)) (L.Below (n + 1)) s2 free2 := by
  have hn := h.table_lt ht
  have htpool := h.table_inPool ht
  have hentry : target (s1.entry L.dir n) = some t := by
    rw [entry_congr (hfreed.same L.dir (h.not_below_dir n)), h.target_dir hn, ht]
  have htfree : Not (t ∈ free1) := by
    intro hmem
    rcases (hfreed.mem t).mp hmem with hold | hbelow
    · exact h.used (Slot.table n) t ht hold
    · exact h.not_below_table ht hbelow
  have hentries : Entries s1 free1 t 0 1024 (fun j => L.page (1024 * n + j)) := by
    constructor
    · intro j _ hj
      rw [entry_congr (hfreed.same t (h.not_below_table ht))]
      exact h.target_table hn (by lia) ht
    · exact fun j f _ _ hp => h.page_inPool hp
    · intro j f _ hj hp hmem
      rcases (hfreed.mem f).mp hmem with hold | hbelow
      · exact h.used (Slot.page _) f hp hold
      · exact h.not_below_page (by lia) hp hbelow
    · intro j f _ _ hp e
      have hslot := h.own (Slot.page _) (Slot.table n) f hp (e ▸ ht)
      cases hslot
    · intro i j f hi hj
      have hslot := h.own (Slot.page _) (Slot.page _) f hi hj
      have heq : 1024 * n + i = 1024 * n + j := Slot.page.inj hslot
      lia
  rcases freeEntries_freed hfreed.pool htpool htfree hentries with ⟨s2, free2, hrun, hpages⟩
  have htfree2 : Not (t ∈ free2) := by
    intro hmem
    rcases (hpages.mem t).mp hmem with hold | ⟨j, hlow, hhigh, hp⟩
    · exact htfree hold
    · exact hentries.notTable j t hlow hhigh hp rfl
  rcases freed_one hpages.pool htpool htfree2 with ⟨s3, free3, hfree, hone⟩
  refine ⟨s3, free3, ?_, ?_⟩
  · intro k
    conv => lhs; unfold freeTables
    dsimp only
    rw [if_pos (target_some hentry).left, entryVaddr_of_target hentry htpool,
      pageAt_kernelAddr htpool, ok_bind, hrun, ok_bind, kv2p_kernelAddr htpool, hfree, ok_bind]
  · have hboth : Freed s1 free1
        (fun f => L.table n = some f ∨ exists j, j < 1024 ∧ L.page (1024 * n + j) = some f)
        (fun f => L.table n = some f ∨ exists j, j < 1024 ∧ L.page (1024 * n + j) = some f)
        s3 free3 := hpages.trans hone (by
        intro f
        constructor
        · intro hor
          rcases hor with hf | ⟨j, hj, hp⟩
          · exact Or.inr (Option.some.inj (hf.symm.trans ht))
          · exact Or.inl ⟨j, by lia, by lia, hp⟩
        · intro hor
          rcases hor with ⟨j, hlow, hhigh, hp⟩ | hf
          · exact Or.inr ⟨j, by lia, hp⟩
          · exact Or.inl (hf ▸ ht)) (by
        intro f hor
        rcases hor with (hf | ⟨j, hlow, hhigh, hp⟩) | hf
        · exact Or.inl (hf ▸ ht)
        · exact Or.inr ⟨j, by lia, hp⟩
        · exact Or.inl (hf ▸ ht))
    exact hfreed.trans hboth (fun f => Layout.Below.succ) (fun f hf => Layout.Below.succ.mpr hf)

theorem freeTables_skip {n : Nat} {s1 : Phys} {free1 : List Nat} (h : Sound s free L)
    (hn : n < 512) (hnone : L.table n = none)
    (hfreed : Freed s free (L.Below n) (L.Below n) s1 free1) :
    (forall k, freeTables L.dir (k + 1) n s1 = freeTables L.dir k (n + 1) s1) ∧
      Freed s free (L.Below (n + 1)) (L.Below (n + 1)) s1 free1 := by
  have hentry : target (s1.entry L.dir n) = none := by
    rw [entry_congr (hfreed.same L.dir (h.not_below_dir n)), h.target_dir hn, hnone]
  have habsent := (target_none_iff _).mp hentry
  have hbelow : L.Below (n + 1) = L.Below n := by
    funext f
    apply propext
    rw [Layout.Below.succ]
    constructor
    · intro hor
      rcases hor with hf | hf | ⟨j, hj, hp⟩
      · exact hf
      · rw [hnone] at hf
        cases hf
      · rw [h.bare hnone hj] at hp
        cases hp
    · exact Or.inl
  constructor
  · intro k
    conv => lhs; unfold freeTables
    dsimp only
    rw [habsent, if_neg Bool.false_ne_true]
  · rw [hbelow]
    exact hfreed

/-- The loop of `pgdir_free` frees every table and every page. -/
theorem freeTables_freed {k n : Nat} {s1 : Phys} {free1 : List Nat} (h : Sound s free L)
    (hk : n + k = 512) (hfreed : Freed s free (L.Below n) (L.Below n) s1 free1) :
    exists s' free', freeTables L.dir k n s1 = Except.ok s' ∧
      Freed s free (L.Below 512) (L.Below 512) s' free' := by
  induction k generalizing n s1 free1 with
  | zero =>
      have hn : n = 512 := hk
      rw [hn] at hfreed
      exact ⟨s1, free1, rfl, hfreed⟩
  | succ k ih =>
      cases ht : L.table n with
      | none =>
          rcases freeTables_skip h (by lia) ht hfreed with ⟨hstep, hnext⟩
          rw [hstep k]
          exact ih (by lia) hnext
      | some t =>
          rcases freeTables_table h ht hfreed with ⟨s2, free2, hstep, hnext⟩
          rw [hstep k]
          exact ih (by lia) hnext

/-- `pgdir_free` frees exactly the frames of the address space. -/
theorem pgdirFree_freed (h : Sound s free L) :
    exists s' free', pgdirFree (kernelAddr L.dir) s = Except.ok s' ∧
      Freed s free (fun f => exists x, L.frame x = some f)
        (fun f => exists x, L.frame x = some f) s' free' := by
  have hnobody : L.Below 0 = fun _ => False := by
    funext f
    apply propext
    constructor
    · intro hex
      rcases hex with ⟨i, hi, -⟩
      cases hi
    · exact False.elim
  have hstart : Freed s free (L.Below 0) (L.Below 0) s free := by
    rw [hnobody]
    exact Freed.nothing h.pool _
  rcases freeTables_freed h (Nat.zero_add 512) hstart with ⟨s1, free1, hrun, hfreed⟩
  have hdirfree : Not (L.dir ∈ free1) := by
    intro hmem
    rcases (hfreed.mem L.dir).mp hmem with hold | hbelow
    · exact h.used Slot.dir L.dir rfl hold
    · exact h.not_below_dir 512 hbelow
  rcases freed_one hfreed.pool h.dir_inPool hdirfree with ⟨s2, free2, hfree, hone⟩
  have hframes : forall f, (exists x, L.frame x = some f) <-> L.Below 512 f ∨ f = L.dir := by
    intro f
    constructor
    · intro hex
      rcases hex with ⟨x, hx⟩
      cases x with
      | dir => exact Or.inr (Option.some.inj hx).symm
      | table i => exact Or.inl ⟨i, h.table_lt hx, Or.inl hx⟩
      | page v =>
          left
          have hv := (h.page_table hx).left
          have hsplit : 1024 * (v / 1024) + v % 1024 = v := by lia
          refine ⟨v / 1024, hv, Or.inr ⟨v % 1024, by lia, ?_⟩⟩
          rw [hsplit]
          exact hx
    · intro hor
      rcases hor with hbelow | hdir
      · rcases hbelow.used with ⟨x, -, hx⟩
        exact ⟨x, hx⟩
      · exact ⟨Slot.dir, congrArg some hdir.symm⟩
  refine ⟨s2, free2, ?_, hfreed.trans hone hframes (fun f => (hframes f).mpr)⟩
  unfold pgdirFree
  rw [pageAt_kernelAddr h.dir_inPool, ok_bind, hrun, ok_bind, kv2p_kernelAddr h.dir_inPool]
  exact hfree

/-- Another address space stays where one is released. -/
theorem Isolated.release {C : Layout} (h : Isolated s free L C) :
    exists s' free', pgdirFree (kernelAddr L.dir) s = Except.ok s' ∧ Sound s' free' C ∧
      Freed s free (fun f => exists x, L.frame x = some f)
        (fun f => exists x, L.frame x = some f) s' free' := by
  rcases pgdirFree_freed h.left with ⟨s', free', hrun, hfreed⟩
  have hsame : forall y f, C.frame y = some f -> s'.frame f = s.frame f := by
    intro y f hy
    apply hfreed.same
    intro hex
    rcases hex with ⟨x, hx⟩
    exact h.apart x y f hx hy
  refine ⟨s', free', hrun, ?_, hfreed⟩
  apply h.right.untouched hfreed.pool ?_ hsame
  · apply hfreed.same
    intro hex
    rcases hex with ⟨x, hx⟩
    exact Sound.ne_kpgdir (h.left.inPool x kpgdirFrame hx) rfl
  · intro f hf
    rcases (hfreed.mem f).mp hf with hold | ⟨x, hx⟩
    · exact Or.inl hold
    · exact Or.inr (fun y hy => h.apart x y f hx hy)

end Release

/-!
# The record of the empty list
-/

section Exhausted

variable {s : Phys}

/-- The run keeps the record that the list was empty. -/
def StaysExhausted (r : Run Phys) : Prop :=
  Meets (fun a => a.exhausted = true) (fun e => e.2.exhausted = true) r

theorem pageAt_keeps (h : s.exhausted = true) (vaddr : Nat) :
    Meets (fun _ => True) (fun e => e.2.exhausted = true) (pageAt vaddr s) :=
  (pageAt_exhausted vaddr s).mono (fun _ _ => trivial) (fun _ he => he.trans h)

theorem pfree_keeps (h : s.exhausted = true) (paddr : Nat) : StaysExhausted (pfree paddr s) := by
  unfold pfree
  split
  · exact (pageAt_keeps h _).bind (fun f _ => h)
  · exact h

theorem freeEntries_keeps (h : s.exhausted = true) (f k nr : Nat) :
    StaysExhausted (freeEntries f k nr s) := by
  induction k generalizing s nr with
  | zero => exact h
  | succ k ih =>
      unfold freeEntries
      dsimp only
      have hentry : StaysExhausted (if isPresent (s.entry f nr) then do
          let g <- pageAt (kp2v (entryPaddr (s.entry f nr))) s
          pfree (entryPaddr (s.entry f nr)) (s.clear g) else Except.ok s) := by
        split
        · exact (pageAt_keeps h _).bind (fun g _ => pfree_keeps (s := s.clear g) h _)
        · exact h
      exact hentry.bind (fun s1 h1 => ih (s := s1.setEntry f nr 0) h1 _)

theorem freeTables_keeps (h : s.exhausted = true) (d k nr : Nat) :
    StaysExhausted (freeTables d k nr s) := by
  induction k generalizing s nr with
  | zero => exact h
  | succ k ih =>
      unfold freeTables
      dsimp only
      split
      · refine (pageAt_keeps h _).bind (fun f _ => ?_)
        refine (freeEntries_keeps h f 1024 0).bind (fun s1 h1 => ?_)
        exact (pfree_keeps h1 _).bind (fun s2 h2 => ih h2 _)
      · exact ih h _

theorem pgdirFree_keeps (h : s.exhausted = true) (pgdir : Nat) :
    StaysExhausted (pgdirFree pgdir s) := by
  unfold pgdirFree
  refine (pageAt_keeps h _).bind (fun d _ => ?_)
  exact (freeTables_keeps h d 512 0).bind (fun s1 h1 => pfree_keeps h1 _)

end Exhausted

end Vm
end Kernel
end NicoOS
