import Mathlib.Tactic.Common

/-!
# System call arguments

`kernel/syscall/include/syscall_pri.h` validates the pointers and strings a user
process passes in its registers, and `sys_execv` in `kernel/syscall/sysproc.c`
walks the argument vector.  The embedding keeps 32-bit addresses and, next to
every result, the list of byte addresses read on the way to it.
-/

namespace NicoOS
namespace Kernel
namespace UserArgs

abbrev Memory := UInt32 -> UInt8

def userBase : UInt32 := 0x04048000

def userTop : UInt32 := 0x80000000

/-- The result of a computation with the addresses it read, oldest first. -/
abbrev Reads (alpha : Type) := alpha × List UInt32

/-- `check_ptr`; the address 0 is `NULL`. -/
def checkPtr (ptr : UInt32) (sz : Int32) : UInt32 :=
  if sz < 0 then
    0
  else if ptr >= userBase ∧ ptr + sz.toUInt32 <= userTop then
    ptr
  else
    0

/-- Read bytes from `s` on until a NUL byte, at most `n` of them. -/
def scanNul (mem : Memory) : Nat -> UInt32 -> Reads Bool
  | 0, _ => (false, [])
  | n + 1, s =>
      if mem s = 0 then
        (true, [s])
      else
        let rest := scanNul mem n (s + 1)
        (rest.1, s :: rest.2)

/-- `check_str`: its loop runs `s` from `ptr` up to `USER_TOP`. -/
def checkStr (mem : Memory) (ptr : UInt32) : Reads UInt32 :=
  if ptr < userBase ∨ ptr >= userTop then
    (ptr, [])
  else
    let scan := scanNul mem (userTop.toNat - ptr.toNat) ptr
    (if scan.1 then ptr else 0, scan.2)

/-!
# The argument vector

A `char *` is a little-endian word; reading it touches four byte addresses.
-/

def wordBytes (p : UInt32) : List UInt32 :=
  [p, p + 1, p + 2, p + 3]

def readWord (mem : Memory) (p : UInt32) : UInt32 :=
  (mem p).toUInt32 ||| ((mem (p + 1)).toUInt32 <<< 8) |||
    ((mem (p + 2)).toUInt32 <<< 16) ||| ((mem (p + 3)).toUInt32 <<< 24)

/-- Address of the argument pointer with index `i`. -/
def slot (argv : UInt32) (i : Nat) : UInt32 :=
  argv + UInt32.ofNat (4 * i)

/--
The loop `for (; *p != NULL; p++)`.  Its pointer comes back to where it started
after `0x40000000` words, so running out of that many words means that the loop
does not end.
-/
def countArgs (mem : Memory) : Nat -> UInt32 -> Reads (Option Nat)
  | 0, _ => (none, [])
  | n + 1, p =>
      if readWord mem p = 0 then
        (some 0, wordBytes p)
      else
        let rest := countArgs mem n (p + 4)
        (rest.1.map (· + 1), wordBytes p ++ rest.2)

def addressWords : Nat := 0x40000000

/-- The loop that replaces each `argv[i]` by `check_str(argv[i])`. -/
def checkArgs (mem : Memory) : Nat -> UInt32 -> Reads Bool
  | 0, _ => (true, [])
  | n + 1, p =>
      let arg := checkStr mem (readWord mem p)
      if arg.1 = 0 then
        (false, wordBytes p ++ arg.2)
      else
        let rest := checkArgs mem n (p + 4)
        (rest.1, wordBytes p ++ arg.2 ++ rest.2)

/-- `strlen` and `strcpy` read up to the NUL byte without any bound. -/
def stringReads (mem : Memory) (s : UInt32) : List UInt32 :=
  (scanNul mem 0x100000000 s).2

def copyArgs (mem : Memory) : Nat -> UInt32 -> List UInt32
  | 0, _ => []
  | n + 1, p =>
      wordBytes p ++ stringReads mem (readWord mem p) ++ copyArgs mem n (p + 4)

/--
What `proc_execv` reads through `argv` once the program is loaded:
`copy_argv_into_stack` counts and copies the strings, and `argv[0]` becomes the
name of the process.
-/
def execReads (mem : Memory) (argc : Nat) (argv : UInt32) : List UInt32 :=
  (countArgs mem addressWords argv).2 ++ copyArgs mem argc argv ++
    wordBytes argv ++ stringReads mem (readWord mem argv)

inductive Outcome where
  | refused
  | hangs
  | execs (argc : Nat)
  deriving DecidableEq, Repr

/-- `sys_execv`, with `path` in `ebx` and `argv` in `ecx`. -/
def sysExecv (mem : Memory) (path argv : UInt32) : Reads Outcome :=
  let pathArg := checkStr mem path
  if pathArg.1 = 0 ∨ checkPtr argv 4 = 0 then
    (Outcome.refused, pathArg.2)
  else
    let count := countArgs mem addressWords argv
    match count.1 with
    | none => (Outcome.hangs, pathArg.2 ++ count.2)
    | some argc =>
        if checkPtr argv (UInt32.ofNat (4 * argc)).toInt32 = 0 then
          (Outcome.refused, pathArg.2 ++ count.2)
        else
          let args := checkArgs mem argc argv
          if args.1 then
            (Outcome.execs argc,
              pathArg.2 ++ count.2 ++ args.2 ++ execReads mem argc argv)
          else
            (Outcome.refused, pathArg.2 ++ count.2 ++ args.2)

/-!
# Address arithmetic

An address is given by its offset from a base; offsets wrap at `0x100000000`.
-/

/-- The addresses `[USER_BASE, USER_TOP)`. -/
def InUser (a : UInt32) : Prop :=
  userBase <= a ∧ a < userTop

instance (a : UInt32) : Decidable (InUser a) :=
  inferInstanceAs (Decidable (_ ∧ _))

theorem inUser_iff (a : UInt32) :
    InUser a <-> 0x04048000 ≤ a.toNat ∧ a.toNat < 0x80000000 := by
  simp only [InUser, UInt32.le_iff_toNat_le, UInt32.lt_iff_toNat_lt]
  exact Iff.rfl

theorem toNat_add_ofNat (p : UInt32) (j : Nat) :
    (p + UInt32.ofNat j).toNat = (p.toNat + j) % 0x100000000 := by
  simp

theorem add_ofNat_add (p : UInt32) (i j : Nat) :
    p + UInt32.ofNat i + UInt32.ofNat j = p + UInt32.ofNat (i + j) := by
  rw [UInt32.ofNat_add, UInt32.add_assoc]

theorem add_ofNat_zero (p : UInt32) : p + UInt32.ofNat 0 = p := by
  simp

theorem succ_add_ofNat (p : UInt32) (j : Nat) :
    p + 1 + UInt32.ofNat j = p + UInt32.ofNat (j + 1) := by
  rw [Nat.add_comm j 1]
  exact add_ofNat_add p 1 j

theorem four_add_ofNat (p : UInt32) (j : Nat) :
    p + 4 + UInt32.ofNat j = p + UInt32.ofNat (j + 4) := by
  rw [Nat.add_comm j 4]
  exact add_ofNat_add p 4 j

theorem slot_succ (p : UInt32) (i : Nat) : slot (p + 4) i = slot p (i + 1) :=
  four_add_ofNat p (4 * i)

theorem slot_zero (p : UInt32) : slot p 0 = p :=
  add_ofNat_zero p

theorem mem_wordBytes {p a : UInt32} :
    a ∈ wordBytes p <-> exists j, j < 4 ∧ a = p + UInt32.ofNat j := by
  constructor
  · intro h
    simp only [wordBytes, List.mem_cons, List.not_mem_nil, or_false] at h
    rcases h with h | h | h | h
    · exact ⟨0, by decide, by rw [h, add_ofNat_zero]⟩
    · exact ⟨1, by decide, h⟩
    · exact ⟨2, by decide, h⟩
    · exact ⟨3, by decide, h⟩
  · intro h
    rcases h with ⟨j, hj, ha⟩
    have hcases : j = 0 ∨ j = 1 ∨ j = 2 ∨ j = 3 := by lia
    rw [ha]
    rcases hcases with h | h | h | h <;> subst h <;> simp [wordBytes]

/-!
# What the loops read

Every loop reads a run of consecutive addresses; the run ends at the first NUL
byte or NULL word, if there is one.
-/

theorem scanNul_found_iff (mem : Memory) (n : Nat) (s : UInt32) :
    (scanNul mem n s).1 = true <->
      exists j, j < n ∧ mem (s + UInt32.ofNat j) = 0 := by
  induction n generalizing s with
  | zero => simp [scanNul]
  | succ n ih =>
      by_cases hs : mem s = 0
      · simp only [scanNul, hs, if_true, true_iff]
        exact ⟨0, by lia, by rw [add_ofNat_zero]; exact hs⟩
      · simp only [scanNul, hs, if_false, ih]
        constructor
        · intro h
          rcases h with ⟨j, hj, hzero⟩
          exact ⟨j + 1, by lia, by rw [← succ_add_ofNat]; exact hzero⟩
        · intro h
          rcases h with ⟨j, hj, hzero⟩
          cases j with
          | zero =>
              rw [add_ofNat_zero] at hzero
              exact absurd hzero hs
          | succ j => exact ⟨j, by lia, by rw [succ_add_ofNat]; exact hzero⟩

theorem scanNul_reads {mem : Memory} {n : Nat} {s a : UInt32}
    (h : a ∈ (scanNul mem n s).2) :
    exists j, j < n ∧ a = s + UInt32.ofNat j ∧
      forall i, i < j -> mem (s + UInt32.ofNat i) ≠ 0 := by
  induction n generalizing s with
  | zero => simp [scanNul] at h
  | succ n ih =>
      have hfirst : a = s -> exists j, j < n + 1 ∧ a = s + UInt32.ofNat j ∧
          forall i, i < j -> mem (s + UInt32.ofNat i) ≠ 0 := by
        intro ha
        exact ⟨0, by lia, by rw [add_ofNat_zero]; exact ha, by
          intro i hi
          lia⟩
      by_cases hs : mem s = 0
      · simp only [scanNul, hs, if_true, List.mem_singleton] at h
        exact hfirst h
      · simp only [scanNul, hs, if_false, List.mem_cons] at h
        cases h with
        | inl ha => exact hfirst ha
        | inr hrest =>
            rcases ih hrest with ⟨j, hj, ha, hbefore⟩
            refine ⟨j + 1, by lia, by rw [← succ_add_ofNat]; exact ha, ?_⟩
            intro i hi
            cases i with
            | zero =>
                rw [add_ofNat_zero]
                exact hs
            | succ i =>
                rw [← succ_add_ofNat]
                exact hbefore i (by lia)

theorem scanNul_reads_start (mem : Memory) {n : Nat} (hn : 0 < n)
    (s : UInt32) : s ∈ (scanNul mem n s).2 := by
  cases n with
  | zero => lia
  | succ n => by_cases hs : mem s = 0 <;> simp [scanNul, hs]

/-- Bytes read by `countArgs`: up to and including the NULL word. -/
def argSpan (n : Nat) : Option Nat -> Nat
  | none => 4 * n
  | some k => 4 * (k + 1)

theorem countArgs_reads_iff (mem : Memory) (n : Nat) (p a : UInt32) :
    a ∈ (countArgs mem n p).2 <->
      exists j, j < argSpan n (countArgs mem n p).1 ∧
        a = p + UInt32.ofNat j := by
  induction n generalizing p with
  | zero => simp [countArgs, argSpan]
  | succ n ih =>
      by_cases hp : readWord mem p = 0
      · simp only [countArgs, hp, if_true, argSpan]
        exact mem_wordBytes
      · have hspan : argSpan (n + 1)
            ((countArgs mem n (p + 4)).1.map (· + 1)) =
              argSpan n (countArgs mem n (p + 4)).1 + 4 := by
          cases (countArgs mem n (p + 4)).1 <;> simp [argSpan] <;> lia
        simp only [countArgs, hp, if_false, List.mem_append, ih,
          mem_wordBytes, hspan]
        constructor
        · intro h
          rcases h with ⟨j, hj, ha⟩ | ⟨j, hj, ha⟩
          · exact ⟨j, by lia, ha⟩
          · exact ⟨j + 4, by lia, by rw [← four_add_ofNat]; exact ha⟩
        · intro h
          rcases h with ⟨j, hj, ha⟩
          by_cases hlt : j < 4
          · exact Or.inl ⟨j, hlt, ha⟩
          · refine Or.inr ⟨j - 4, by lia, ?_⟩
            rw [four_add_ofNat, Nat.sub_add_cancel (by lia)]
            exact ha

theorem countArgs_some {mem : Memory} {n k : Nat} {p : UInt32}
    (h : (countArgs mem n p).1 = some k) :
    k < n ∧ readWord mem (slot p k) = 0 ∧
      forall i, i < k -> readWord mem (slot p i) ≠ 0 := by
  induction n generalizing p k with
  | zero => simp [countArgs] at h
  | succ n ih =>
      by_cases hp : readWord mem p = 0
      · simp only [countArgs, hp, if_true, Option.some.injEq] at h
        subst h
        refine ⟨by lia, by rw [slot_zero]; exact hp, ?_⟩
        intro i hi
        lia
      · simp only [countArgs, hp, if_false, Option.map_eq_some_iff] at h
        rcases h with ⟨k', hk', hk⟩
        rcases ih hk' with ⟨hlt, hzero, hbefore⟩
        subst hk
        refine ⟨by lia, by rw [← slot_succ]; exact hzero, ?_⟩
        intro i hi
        cases i with
        | zero =>
            rw [slot_zero]
            exact hp
        | succ i =>
            rw [← slot_succ]
            exact hbefore i (by lia)

theorem countArgs_none {mem : Memory} {n : Nat} {p : UInt32}
    (h : (countArgs mem n p).1 = none) :
    forall i, i < n -> readWord mem (slot p i) ≠ 0 := by
  induction n generalizing p with
  | zero =>
      intro i hi
      lia
  | succ n ih =>
      by_cases hp : readWord mem p = 0
      · simp [countArgs, hp] at h
      · simp only [countArgs, hp, if_false, Option.map_eq_none_iff] at h
        intro i hi
        cases i with
        | zero =>
            rw [slot_zero]
            exact hp
        | succ i =>
            rw [← slot_succ]
            exact ih h i (by lia)

/-!
# Runs of user addresses
-/

/-- A run of `m` addresses lies in user memory exactly if it does not wrap out. -/
theorem run_inUser_iff (p : UInt32) {m : Nat} (hm : 0 < m) :
    (forall j, j < m -> InUser (p + UInt32.ofNat j)) <->
      userBase <= p ∧ p.toNat + m ≤ userTop.toNat := by
  have hp := p.toNat_lt
  have htop : userTop.toNat = 0x80000000 := rfl
  have hbase : userBase <= p <-> 0x04048000 ≤ p.toNat := by
    rw [UInt32.le_iff_toNat_le]
    exact Iff.rfl
  simp only [inUser_iff, toNat_add_ofNat, hbase, htop]
  constructor
  · intro h
    have hzero := h 0 hm
    by_cases hend : p.toNat + m ≤ 0x80000000
    · lia
    · have hlast := h (0x80000000 - p.toNat) (by lia)
      lia
  · intro h j hj
    lia

theorem inUser_of_wordBytes {p a : UInt32} (hp : userBase <= p)
    (hend : p.toNat + 4 ≤ userTop.toNat) (ha : a ∈ wordBytes p) : InUser a := by
  rcases mem_wordBytes.mp ha with ⟨j, hj, haj⟩
  rw [haj]
  exact (run_inUser_iff p (by decide)).mpr ⟨hp, hend⟩ j hj

/-- A NUL byte stands between `s` and `USER_TOP`. -/
def Terminated (mem : Memory) (s : UInt32) : Prop :=
  exists a, s <= a ∧ a < userTop ∧ mem a = 0

theorem scanNul_user_iff (mem : Memory) {s : UInt32} (hs : InUser s) :
    (scanNul mem (userTop.toNat - s.toNat) s).1 = true <-> Terminated mem s := by
  rw [scanNul_found_iff]
  have hslt := ((inUser_iff s).mp hs).right
  have htop : userTop.toNat = 0x80000000 := rfl
  simp only [Terminated, UInt32.le_iff_toNat_le, UInt32.lt_iff_toNat_lt, htop]
  constructor
  · intro h
    rcases h with ⟨j, hj, hzero⟩
    refine ⟨s + UInt32.ofNat j, ?_, ?_, hzero⟩
    · rw [toNat_add_ofNat]
      lia
    · rw [toNat_add_ofNat]
      lia
  · intro h
    rcases h with ⟨a, hle, hlt, hzero⟩
    have ha : s + UInt32.ofNat (a.toNat - s.toNat) = a := by
      apply UInt32.toNat_inj.mp
      rw [toNat_add_ofNat]
      lia
    exact ⟨a.toNat - s.toNat, by lia, by rw [ha]; exact hzero⟩

theorem checkStr_eq_zero_iff (mem : Memory) (ptr : UInt32) :
    (checkStr mem ptr).1 = 0 <->
      ptr = 0 ∨ InUser ptr ∧ Not (Terminated mem ptr) := by
  by_cases huser : InUser ptr
  · have hguard : Not (ptr < userBase ∨ ptr >= userTop) := by
      intro h
      rcases (inUser_iff ptr).mp huser with ⟨h1, h2⟩
      simp only [UInt32.lt_iff_toNat_lt, ge_iff_le, UInt32.le_iff_toNat_le] at h
      have htop : userTop.toNat = 0x80000000 := rfl
      have hbase : userBase.toNat = 0x04048000 := rfl
      lia
    have hptr : ptr ≠ 0 := by
      intro h
      rw [h] at huser
      exact absurd huser (by decide)
    simp only [checkStr, hguard, if_false, huser, true_and, hptr, false_or,
      ← scanNul_user_iff mem huser]
    cases (scanNul mem (userTop.toNat - ptr.toNat) ptr).1 <;> simp [hptr]
  · have hguard : ptr < userBase ∨ ptr >= userTop := by
      by_cases h : ptr < userBase
      · exact Or.inl h
      · refine Or.inr ?_
        simp only [InUser, UInt32.lt_iff_toNat_lt, ge_iff_le,
          UInt32.le_iff_toNat_le] at huser h ⊢
        lia
    simp [checkStr, hguard, huser]

theorem checkStr_reads_inUser {mem : Memory} {ptr a : UInt32}
    (h : a ∈ (checkStr mem ptr).2) : InUser a := by
  unfold checkStr at h
  split at h
  · cases h
  · rename_i hguard
    rcases scanNul_reads h with ⟨j, hj, ha, _⟩
    have htop : userTop.toNat = 0x80000000 := rfl
    have hbase : userBase.toNat = 0x04048000 := rfl
    simp only [UInt32.lt_iff_toNat_lt, ge_iff_le, UInt32.le_iff_toNat_le] at hguard
    rw [ha, inUser_iff, toNat_add_ofNat]
    lia

theorem stringReads_start (mem : Memory) (s : UInt32) :
    s ∈ stringReads mem s :=
  scanNul_reads_start mem (by decide) s

theorem stringReads_inUser {mem : Memory} {s a : UInt32} (hs : InUser s)
    (hterm : Terminated mem s) (ha : a ∈ stringReads mem s) : InUser a := by
  rcases scanNul_reads ha with ⟨j, _, haj, hbefore⟩
  rcases (scanNul_found_iff mem _ s).mp ((scanNul_user_iff mem hs).mpr hterm)
    with ⟨k, hk, hzero⟩
  have hjk : j ≤ k := by
    by_cases h : k < j
    · exact absurd hzero (hbefore k h)
    · lia
  have htop : userTop.toNat = 0x80000000 := rfl
  rcases (inUser_iff s).mp hs with ⟨h1, h2⟩
  rw [haj, inUser_iff, toNat_add_ofNat]
  lia

/-!
# What the checks accept
-/

theorem checkPtr_eq_zero_iff (ptr : UInt32) (sz : Int32) :
    checkPtr ptr sz = 0 <->
      sz < 0 ∨ ptr < userBase ∨ userTop < ptr + sz.toUInt32 := by
  have hbase : userBase.toNat = 0x04048000 := rfl
  have hzero : (0 : UInt32).toNat = 0 := rfl
  simp only [checkPtr, ge_iff_le]
  by_cases hneg : sz < 0
  · simp [hneg]
  · simp only [hneg, if_false, false_or]
    by_cases hok : userBase <= ptr ∧ ptr + sz.toUInt32 <= userTop
    · simp only [hok, and_self, if_true]
      simp only [UInt32.le_iff_toNat_le, UInt32.lt_iff_toNat_lt,
        ← UInt32.toNat_inj, hzero] at hok ⊢
      lia
    · simp only [hok, if_false, true_iff]
      simp only [UInt32.le_iff_toNat_le, UInt32.lt_iff_toNat_lt] at hok ⊢
      lia

theorem checkArgs_iff (mem : Memory) (n : Nat) (p : UInt32) :
    (checkArgs mem n p).1 = true <->
      forall i, i < n -> (checkStr mem (readWord mem (slot p i))).1 ≠ 0 := by
  induction n generalizing p with
  | zero => simp [checkArgs]
  | succ n ih =>
      by_cases hp : (checkStr mem (readWord mem p)).1 = 0
      · simp only [checkArgs, hp, if_true]
        constructor
        · intro h
          cases h
        · intro h
          exact absurd (by rw [slot_zero]; exact hp) (h 0 (by lia))
      · simp only [checkArgs, hp, if_false, ih]
        constructor
        · intro h i hi
          cases i with
          | zero =>
              rw [slot_zero]
              exact hp
          | succ i =>
              rw [← slot_succ]
              exact h i (by lia)
        · intro h i hi
          rw [slot_succ]
          exact h (i + 1) (by lia)

theorem checkArgs_reads_inUser {mem : Memory} {n : Nat} {p a : UInt32}
    (hp : userBase <= p) (hend : p.toNat + 4 * n ≤ userTop.toNat)
    (ha : a ∈ (checkArgs mem n p).2) : InUser a := by
  induction n generalizing p with
  | zero => simp [checkArgs] at ha
  | succ n ih =>
      have hword : a ∈ wordBytes p -> InUser a :=
        inUser_of_wordBytes hp (by lia)
      have htop : userTop.toNat = 0x80000000 := rfl
      by_cases harg : (checkStr mem (readWord mem p)).1 = 0
      · simp only [checkArgs, harg, if_true, List.mem_append] at ha
        cases ha with
        | inl ha => exact hword ha
        | inr ha => exact checkStr_reads_inUser ha
      · simp only [checkArgs, harg, if_false, List.mem_append] at ha
        rcases ha with (ha | ha) | ha
        · exact hword ha
        · exact checkStr_reads_inUser ha
        · have hnext : (p + 4).toNat = (p.toNat + 4) % 0x100000000 :=
            toNat_add_ofNat p 4
          refine ih ?_ (by lia) ha
          simp only [UInt32.le_iff_toNat_le] at hp ⊢
          lia

theorem mem_copyArgs_iff (mem : Memory) (n : Nat) (p a : UInt32) :
    a ∈ copyArgs mem n p <->
      exists i, i < n ∧ (a ∈ wordBytes (slot p i) ∨
        a ∈ stringReads mem (readWord mem (slot p i))) := by
  induction n generalizing p with
  | zero => simp [copyArgs]
  | succ n ih =>
      simp only [copyArgs, List.mem_append, ih, slot_succ]
      constructor
      · intro h
        rcases h with h | ⟨i, hi, h⟩
        · exact ⟨0, by lia, by rw [slot_zero]; exact h⟩
        · exact ⟨i + 1, by lia, h⟩
      · intro h
        rcases h with ⟨i, hi, h⟩
        cases i with
        | zero =>
            rw [slot_zero] at h
            exact Or.inl h
        | succ i => exact Or.inr ⟨i, by lia, h⟩

/-!
# Exactly when the checks keep the kernel in user memory

Each of the three parts of the barrier is compared with the inputs for which it
does what it is there for.
-/

/-- `check_ptr` accepts only ranges inside user memory, as plain integers. -/
def PtrSafe (ptr : UInt32) (sz : Int32) : Prop :=
  checkPtr ptr sz ≠ 0 ->
    0 ≤ sz.toInt ∧ userBase.toNat ≤ ptr.toNat ∧
      (ptr.toNat : Int) + sz.toInt ≤ userTop.toNat

/-- `check_str` accepts only NUL-terminated strings inside user memory. -/
def StrSafe (mem : Memory) (ptr : UInt32) : Prop :=
  (checkStr mem ptr).1 ≠ 0 -> InUser ptr ∧ Terminated mem ptr

def ExecvSafe (mem : Memory) (path argv : UInt32) : Prop :=
  forall a, a ∈ (sysExecv mem path argv).2 -> InUser a

def PtrNoWrap (ptr : UInt32) (sz : Int32) : Prop :=
  sz < 0 ∨ (ptr.toNat : Int) + sz.toInt < 0x100000000

def StrInUser (ptr : UInt32) : Prop :=
  ptr = 0 ∨ InUser ptr

/-- The path, or the first word of the vector, is turned down. -/
def ExecvTurnedDown (mem : Memory) (path argv : UInt32) : Prop :=
  path = 0 ∨ InUser path ∧ Not (Terminated mem path) ∨
    argv < userBase ∨ userTop < argv + 4

/--
The vector ends inside user memory after `argc` pointers, and these pointers
either all lie in user memory, there being at least one, or one of them starts
a user string without end.
-/
def ExecvVectorInUser (mem : Memory) (argv : UInt32) : Prop :=
  exists argc, readWord mem (slot argv argc) = 0 ∧
    (forall i, i < argc -> readWord mem (slot argv i) ≠ 0) ∧
    argv.toNat + 4 * (argc + 1) ≤ userTop.toNat ∧
    (0 < argc ∧ (forall i, i < argc -> InUser (readWord mem (slot argv i))) ∨
      exists i, i < argc ∧ InUser (readWord mem (slot argv i)) ∧
        Not (Terminated mem (readWord mem (slot argv i))))

theorem ptrSafe_iff (ptr : UInt32) (sz : Int32) :
    PtrSafe ptr sz <-> PtrNoWrap ptr sz := by
  have hbase : userBase.toNat = 0x04048000 := rfl
  have htop : userTop.toNat = 0x80000000 := rfl
  have hptr := ptr.toNat_lt
  by_cases hneg : sz < 0
  · have hzero : checkPtr ptr sz = 0 :=
      (checkPtr_eq_zero_iff ptr sz).mpr (Or.inl hneg)
    simp [PtrSafe, PtrNoWrap, hzero, hneg]
  · have hsz : 0 ≤ sz.toInt := by
      have h := hneg
      rw [Int32.lt_iff_toInt_lt] at h
      simpa using h
    have hlt := sz.toInt_lt
    have hnat : (sz.toUInt32.toNat : Int) = sz.toInt := by
      rw [Int32.toNat_toUInt32_of_le (Int32.not_lt.mp hneg),
        ← Int32.toNat_toInt]
      lia
    simp only [PtrSafe, PtrNoWrap, ne_eq, checkPtr_eq_zero_iff, hneg, false_or,
      UInt32.lt_iff_toNat_lt, UInt32.toNat_add, hbase, htop]
    lia

theorem strSafe_iff (mem : Memory) (ptr : UInt32) :
    StrSafe mem ptr <-> StrInUser ptr := by
  simp only [StrSafe, StrInUser, ne_eq, checkStr_eq_zero_iff]
  by_cases hzero : ptr = 0
  · simp [hzero]
  · by_cases huser : InUser ptr
    · simp [hzero, huser]
    · simp [hzero, huser]

theorem slot_toNat {argv : UInt32} {i n : Nat} (hi : i ≤ n)
    (hend : argv.toNat + 4 * (n + 1) ≤ userTop.toNat) :
    (slot argv i).toNat = argv.toNat + 4 * i := by
  have htop : userTop.toNat = 0x80000000 := rfl
  rw [slot, toNat_add_ofNat]
  lia

theorem wordBytes_slot_inUser {argv a : UInt32} {i n : Nat} (hi : i ≤ n)
    (hbase : userBase <= argv) (hend : argv.toNat + 4 * (n + 1) ≤ userTop.toNat)
    (ha : a ∈ wordBytes (slot argv i)) : InUser a := by
  have hslot := slot_toNat hi hend
  refine inUser_of_wordBytes ?_ (by lia) ha
  rw [UInt32.le_iff_toNat_le] at hbase ⊢
  lia

/-- Once every argument was accepted, only arguments outside user memory, or an
empty vector, make `proc_execv` read outside user memory. -/
theorem execReads_inUser_iff {mem : Memory} {argv : UInt32} {argc : Nat}
    (hcount : (countArgs mem addressWords argv).1 = some argc)
    (hbase : userBase <= argv)
    (hend : argv.toNat + 4 * (argc + 1) ≤ userTop.toNat)
    (hargs : (checkArgs mem argc argv).1 = true) :
    (forall a, a ∈ execReads mem argc argv -> InUser a) <->
      0 < argc ∧
        forall i, i < argc -> InUser (readWord mem (slot argv i)) := by
  rcases countArgs_some hcount with ⟨_, hzero, _⟩
  have haccepted := (checkArgs_iff mem argc argv).mp hargs
  constructor
  · intro h
    have hargv0 : InUser (readWord mem argv) := by
      apply h
      simp only [execReads, List.mem_append]
      exact Or.inr (stringReads_start mem _)
    constructor
    · cases argc with
      | zero =>
          rw [slot_zero] at hzero
          rw [hzero] at hargv0
          exact absurd hargv0 (by decide)
      | succ argc => lia
    · intro i hi
      apply h
      simp only [execReads, List.mem_append, mem_copyArgs_iff]
      exact Or.inl (Or.inl (Or.inr ⟨i, hi, Or.inr (stringReads_start mem _)⟩))
  · intro h a ha
    rcases h with ⟨hpos, huser⟩
    have hstring : forall i, i < argc ->
        a ∈ stringReads mem (readWord mem (slot argv i)) -> InUser a := by
      intro i hi has
      have hok := haccepted i hi
      rw [ne_eq, checkStr_eq_zero_iff, not_or, not_and, not_not] at hok
      exact stringReads_inUser (huser i hi) (hok.right (huser i hi)) has
    simp only [execReads, List.mem_append, mem_copyArgs_iff] at ha
    rcases ha with ((ha | ⟨i, hi, ha | ha⟩) | ha) | ha
    · rw [countArgs_reads_iff, hcount] at ha
      rcases ha with ⟨j, hj, haj⟩
      rw [haj]
      exact (run_inUser_iff argv (by lia)).mpr ⟨hbase, hend⟩ j hj
    · exact wordBytes_slot_inUser (by lia) hbase hend ha
    · exact hstring i hi ha
    · rw [← slot_zero argv] at ha
      exact wordBytes_slot_inUser (Nat.zero_le _) hbase hend ha
    · rw [← slot_zero argv] at ha
      exact hstring 0 hpos ha

/-- The index of the NULL word that ends the vector is unique. -/
theorem argc_unique {mem : Memory} {argv : UInt32} {k l : Nat}
    (hk : readWord mem (slot argv k) = 0)
    (hkBefore : forall i, i < k -> readWord mem (slot argv i) ≠ 0)
    (hl : readWord mem (slot argv l) = 0)
    (hlBefore : forall i, i < l -> readWord mem (slot argv i) ≠ 0) : k = l := by
  by_cases hkl : k < l
  · exact absurd hk (hlBefore k hkl)
  · by_cases hlk : l < k
    · exact absurd hl (hkBefore l hlk)
    · lia

theorem checkPtr_vector_ne_zero {argv : UInt32} {argc : Nat}
    (hbase : userBase <= argv)
    (hend : argv.toNat + 4 * (argc + 1) ≤ userTop.toNat) :
    checkPtr argv (UInt32.ofNat (4 * argc)).toInt32 ≠ 0 := by
  have htop : userTop.toNat = 0x80000000 := rfl
  have hargv : 0x04048000 ≤ argv.toNat := by
    rw [UInt32.le_iff_toNat_le] at hbase
    exact hbase
  have hnat : (UInt32.ofNat (4 * argc)).toNat = 4 * argc := by
    rw [UInt32.toNat_ofNat']
    lia
  rw [ne_eq, checkPtr_eq_zero_iff]
  simp only [UInt32.toUInt32_toInt32, UInt32.lt_iff_toNat_lt, toNat_add_ofNat,
    UInt32.le_iff_toNat_le] at hbase ⊢
  have hneg : Not ((UInt32.ofNat (4 * argc)).toInt32 < 0) := by
    rw [UInt32.toInt32_ofNat']
    exact Int32.not_lt.mpr (Int32.zero_le_ofNat_of_lt (by lia))
  lia

/-- The vector condition, once the number of arguments is known. -/
theorem execvVectorInUser_iff {mem : Memory} {argv : UInt32} {argc : Nat}
    (hcount : (countArgs mem addressWords argv).1 = some argc) :
    ExecvVectorInUser mem argv <->
      argv.toNat + 4 * (argc + 1) ≤ userTop.toNat ∧
      (0 < argc ∧ (forall i, i < argc -> InUser (readWord mem (slot argv i))) ∨
        exists i, i < argc ∧ InUser (readWord mem (slot argv i)) ∧
          Not (Terminated mem (readWord mem (slot argv i)))) := by
  rcases countArgs_some hcount with ⟨_, hzero, hbefore⟩
  constructor
  · intro h
    rcases h with ⟨k, hk, hkBefore, hrest⟩
    rw [argc_unique hzero hbefore hk hkBefore]
    exact hrest
  · intro h
    exact ⟨argc, hzero, hbefore, h⟩

/-- Some argument is refused exactly if it is a user string without end. -/
theorem checkArgs_refused_iff {mem : Memory} {argv : UInt32} {argc : Nat}
    (hcount : (countArgs mem addressWords argv).1 = some argc) :
    (checkArgs mem argc argv).1 = false <->
      exists i, i < argc ∧ InUser (readWord mem (slot argv i)) ∧
        Not (Terminated mem (readWord mem (slot argv i))) := by
  rcases countArgs_some hcount with ⟨_, _, hbefore⟩
  rw [← Bool.not_eq_true, checkArgs_iff]
  simp only [not_forall, ne_eq, not_not, checkStr_eq_zero_iff]
  constructor
  · intro h
    rcases h with ⟨i, hi, hnull | huser⟩
    · exact absurd hnull (hbefore i hi)
    · exact ⟨i, hi, huser⟩
  · intro h
    rcases h with ⟨i, hi, huser⟩
    exact ⟨i, hi, Or.inr huser⟩

/-- The scan of the vector stays in user memory exactly if the vector does. -/
theorem countArgs_inUser_iff (mem : Memory) {argv : UInt32}
    (hbase : userBase <= argv) :
    (forall a, a ∈ (countArgs mem addressWords argv).2 -> InUser a) <->
      exists argc, (countArgs mem addressWords argv).1 = some argc ∧
        argv.toNat + 4 * (argc + 1) ≤ userTop.toNat := by
  have htop : userTop.toNat = 0x80000000 := rfl
  have hspan : (forall a, a ∈ (countArgs mem addressWords argv).2 -> InUser a) <->
      argv.toNat + argSpan addressWords (countArgs mem addressWords argv).1 ≤
        userTop.toNat := by
    have hpos : 0 < argSpan addressWords (countArgs mem addressWords argv).1 := by
      cases (countArgs mem addressWords argv).1 <;>
        simp [argSpan, addressWords]
    have hrun := run_inUser_iff argv hpos
    simp only [hbase, true_and] at hrun
    rw [← hrun]
    constructor
    · intro h j hj
      exact h _ ((countArgs_reads_iff mem addressWords argv _).mpr ⟨j, hj, rfl⟩)
    · intro h a ha
      rcases (countArgs_reads_iff mem addressWords argv a).mp ha with ⟨j, hj, haj⟩
      rw [haj]
      exact h j hj
  rw [hspan]
  cases (countArgs mem addressWords argv).1 with
  | none =>
      simp only [argSpan, addressWords, htop, reduceCtorEq, false_and, exists_false,
        iff_false]
      lia
  | some k => simp [argSpan]

theorem execvSafe_iff (mem : Memory) (path argv : UInt32) :
    ExecvSafe mem path argv <->
      ExecvTurnedDown mem path argv ∨ ExecvVectorInUser mem argv := by
  have hdown : (checkStr mem path).1 = 0 ∨ checkPtr argv 4 = 0 <->
      ExecvTurnedDown mem path argv := by
    have hfour : Not ((4 : Int32) < 0) := by decide
    rw [checkStr_eq_zero_iff, checkPtr_eq_zero_iff]
    simp only [hfour, false_or, ExecvTurnedDown, or_assoc]
    exact Iff.rfl
  have hpath : forall a, a ∈ (checkStr mem path).2 -> InUser a :=
    fun a ha => checkStr_reads_inUser ha
  simp only [ExecvSafe, sysExecv]
  by_cases hrefuse : (checkStr mem path).1 = 0 ∨ checkPtr argv 4 = 0
  · have hturned := hdown.mp hrefuse
    simpa only [hrefuse, if_true, hturned, true_or, iff_true] using hpath
  · have hturned : Not (ExecvTurnedDown mem path argv) :=
      fun h => hrefuse (hdown.mpr h)
    simp only [hrefuse, if_false, hturned, false_or]
    have hbase : userBase <= argv := by
      simp only [ExecvTurnedDown, not_or] at hturned
      exact UInt32.not_lt.mp hturned.right.right.left
    have hscan := countArgs_inUser_iff mem hbase
    cases hcount : (countArgs mem addressWords argv).1 with
    | none =>
        have hno : Not (ExecvVectorInUser mem argv) := by
          intro h
          rcases h with ⟨argc, hzero, _, hend, _⟩
          have htop : userTop.toNat = 0x80000000 := rfl
          refine countArgs_none hcount argc ?_ hzero
          simp only [addressWords]
          lia
        simp only [hno, iff_false, List.mem_append]
        intro h
        rcases hscan.mp (fun a ha => h a (Or.inr ha)) with ⟨argc, hargc, _⟩
        rw [hcount] at hargc
        cases hargc
    | some argc =>
        rw [execvVectorInUser_iff hcount]
        simp only [hcount, Option.some.injEq, exists_eq_left'] at hscan
        by_cases hend : argv.toNat + 4 * (argc + 1) ≤ userTop.toNat
        · have hcountUser := hscan.mpr hend
          simp only [checkPtr_vector_ne_zero hbase hend, if_false, hend, true_and]
          have hargsUser : forall a, a ∈ (checkArgs mem argc argv).2 -> InUser a :=
            fun a ha => checkArgs_reads_inUser hbase (by lia) ha
          cases hargs : (checkArgs mem argc argv).1 with
          | true =>
              have hnone : Not (exists i, i < argc ∧
                  InUser (readWord mem (slot argv i)) ∧
                    Not (Terminated mem (readWord mem (slot argv i)))) := by
                rw [← checkArgs_refused_iff hcount, hargs]
                decide
              simp only [hnone, or_false, if_true, List.mem_append,
                ← execReads_inUser_iff hcount hbase hend hargs]
              constructor
              · intro h a ha
                exact h a (Or.inr ha)
              · intro h a ha
                rcases ha with ((ha | ha) | ha) | ha
                · exact hpath a ha
                · exact hcountUser a ha
                · exact hargsUser a ha
                · exact h a ha
          | false =>
              have hsome := (checkArgs_refused_iff hcount).mp hargs
              simp only [hsome, or_true, iff_true, Bool.false_eq_true, if_false,
                List.mem_append]
              intro a ha
              rcases ha with (ha | ha) | ha
              · exact hpath a ha
              · exact hcountUser a ha
              · exact hargsUser a ha
        · simp only [hend, false_and, iff_false]
          intro h
          refine hend (hscan.mp ?_)
          intro a ha
          apply h
          split
          · exact List.mem_append_right _ ha
          · split
            · exact List.mem_append_left _ (List.mem_append_left _
                (List.mem_append_right _ ha))
            · exact List.mem_append_left _ (List.mem_append_right _ ha)

def lastWordMemory : Memory :=
  fun a => if a = 0x7FFFFFFC then 1 else 0

end UserArgs
end Kernel
end NicoOS
