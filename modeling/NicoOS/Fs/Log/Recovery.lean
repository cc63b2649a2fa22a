import NicoOS.Fs.Log.Commit
import NicoOS.Lib.Outcome

/-!
# Crash atomicity

Until the header is written the home blocks are old; from then on the log holds
the new contents of all of them, until every home block is new and the header is
cleared.  Each write stays in its phase or moves to the next one.
-/

namespace NicoOS
namespace Fs
namespace Log

open Lib

/-!
# Blocks of the log
-/

theorem logBlock_injective {logStart : UInt32} {i j : Nat} (hi : i < logSize)
    (hj : j < logSize) (h : logBlock logStart i = logBlock logStart j) : i = j := by
  have hsame := congrArg UInt32.toNat (UInt32.add_right_inj logStart |>.mp h)
  unfold logSize maxOpenBlocks at hi hj
  rw [UInt32.toNat_ofNat_of_lt' (by lia), UInt32.toNat_ofNat_of_lt' (by lia)] at hsame
  exact Nat.succ.inj hsame

theorem logBlock_ne_start {logStart : UInt32} {i : Nat} (hi : i < logSize) :
    logBlock logStart i ≠ logStart := by
  intro h
  unfold logBlock at h
  have hsum := congrArg UInt32.toNat h
  have hlt := logStart.toNat_lt
  unfold logSize maxOpenBlocks at hi
  rw [UInt32.toNat_add, UInt32.toNat_ofNat_of_lt' (by lia)] at hsum
  lia

theorem inLog_start (logStart : UInt32) : InLog logStart logStart := Or.inl rfl

theorem inLog_block {logStart : UInt32} {i : Nat} (hi : i < logSize) :
    InLog logStart (logBlock logStart i) := Or.inr ⟨i, hi, rfl⟩

/-!
# The header block
-/

theorem slot_end {i : Nat} (h : i < logSize) : slot i + 4 ≤ blockSize := by
  unfold slot blockSize
  unfold logSize maxOpenBlocks at h
  lia

theorem encodeFrom_word_below (blocks : Nat -> UInt32) (k i a : Nat) (data : Block)
    (h : a + 4 ≤ slot i) : (encodeFrom blocks k i data).word a = data.word a := by
  induction k generalizing i data with
  | zero => rfl
  | succ k ih =>
      unfold encodeFrom
      rw [ih (i + 1) _ (by unfold slot at h ⊢; lia)]
      exact Bytes.word_setWord_of_apart data (blocks i) (Or.inl h)

theorem encodeFrom_word (blocks : Nat -> UInt32) (k i j : Nat) (data : Block)
    (hlow : i ≤ j) (hhigh : j < i + k) (hend : i + k ≤ logSize) :
    (encodeFrom blocks k i data).word (slot j) = blocks j := by
  induction k generalizing i data with
  | zero => lia
  | succ k ih =>
      unfold encodeFrom
      cases Nat.lt_or_ge i j with
      | inl hlt => exact ih (i + 1) _ hlt (by lia) (by lia)
      | inr hge =>
          have hij : j = i := Nat.le_antisymm hge hlow
          rw [hij, encodeFrom_word_below blocks k (i + 1) (slot i) _ (by unfold slot; lia)]
          exact Bytes.word_setWord_self data (blocks i) (slot_end (by lia))

theorem toNat_ofNat_count (n : Nat) (h : n ≤ logSize) :
    (UInt32.ofNat n).toInt32.toInt.toNat = n := by
  have hall : forall m : Fin (logSize + 1),
      (UInt32.ofNat m.val).toInt32.toInt.toNat = m.val := by decide
  exact hall ⟨n, Nat.lt_succ_of_le h⟩

/-- The block that `write_head` writes can be read back. -/
theorem encodeHead_spec {lh : LogHeader} (h : lh.n ≤ logSize) (data : Block) :
    headCount (encodeHead lh data) = lh.n ∧
      forall j, j < lh.n -> (encodeHead lh data).word (slot j) = lh.blocks j := by
  constructor
  · unfold headCount encodeHead
    rw [encodeFrom_word_below _ _ _ _ _ (Nat.le_refl 4),
      Bytes.word_setWord_self _ _ (by unfold blockSize; lia)]
    exact toNat_ofNat_count lh.n h
  · intro j hj
    exact encodeFrom_word lh.blocks lh.n 0 j _ (Nat.zero_le j) (by lia) (by lia)

theorem encodeHead_clear (lh : LogHeader) (data : Block) :
    (encodeHead { lh with n := 0 } data).word 0 = 0 :=
  Bytes.word_setWord_self data _ (by unfold blockSize; lia)

theorem headCount_of_clear {data : Block} (h : data.word 0 = 0) : headCount data = 0 := by
  unfold headCount
  rw [h]
  rfl

/-!
# Single writes
-/

section Writes

variable {dev : Device} {b c : UInt32} {data : Block}

def Agrees (dev : Device) (c : UInt32) : Prop := bufRead dev c = dev.disk c

theorem put_disk_self : (dev.put b data).disk b = data := if_pos rfl

theorem put_disk_of_ne (h : c ≠ b) : (dev.put b data).disk c = dev.disk c := if_neg h

theorem bufRead_put_of_ne (h : c ≠ b) : bufRead (dev.put b data) c = bufRead dev c := by
  unfold bufRead Device.put
  simp only [if_neg h]

theorem Agrees.put (h : Agrees dev c) : Agrees (dev.put b data) c := by
  cases decEq c b with
  | isTrue heq =>
      subst heq
      unfold Agrees bufRead Device.put
      simp only [if_true, Option.getD_some]
  | isFalse hne =>
      unfold Agrees
      rw [bufRead_put_of_ne hne, put_disk_of_ne hne]
      exact h

theorem bufWrite_meets {P : Device -> Prop} {E : Disk -> Prop} (hcrash : E dev.disk)
    (hdone : forall power, P { dev.put b data with power := power }) :
    Meets P E (bufWrite b data dev) := by
  unfold bufWrite
  split
  · rename_i hpower
    have hput := hdone none
    have heq : ({ dev.put b data with power := none } : Device) = dev.put b data := by
      unfold Device.put
      rw [hpower]
    rw [heq] at hput
    exact hput
  · exact hcrash
  · exact hdone _

end Writes

/-!
# The phases of a commit
-/

section Phases

variable (logStart : UInt32) (lh : LogHeader) (old new : Disk)

/-- Nothing has happened to the home blocks. -/
structure OldPhase (disk : Disk) : Prop where
  home : forall b, Not (InLog logStart b) -> disk b = old b
  clear : (disk logStart).word 0 = 0

/-- The first `i` copies are in the log. -/
def Copied (i : Nat) (disk : Disk) : Prop :=
  forall j, j < i -> disk (logBlock logStart j) = new (lh.blocks j)

/-- The header and all copies are in the log. -/
structure CommittedPhase (disk : Disk) : Prop where
  count : headCount (disk logStart) = lh.n
  blocks : forall j, j < lh.n -> (disk logStart).word (slot j) = lh.blocks j
  copied : Copied logStart lh new lh.n disk
  others : forall b, Not (InLog logStart b) -> Not (b ∈ lh.entries) -> disk b = old b

/-- The first `i` home blocks are new. -/
def Installed (i : Nat) (disk : Disk) : Prop :=
  forall j, j < i -> disk (lh.blocks j) = new (lh.blocks j)

structure NewPhase (disk : Disk) : Prop where
  installed : forall b, b ∈ lh.entries -> disk b = new b
  others : forall b, Not (InLog logStart b) -> Not (b ∈ lh.entries) -> disk b = old b
  clear : (disk logStart).word 0 = 0

/-- What a power failure may leave. -/
def Phase (disk : Disk) : Prop :=
  OldPhase logStart old disk ∨ CommittedPhase logStart lh old new disk ∨
    NewPhase logStart lh old new disk

end Phases

section Steps

variable {logStart : UInt32} {lh : LogHeader} {old new : Disk} {dev : Device}

theorem blocks_mem {j : Nat} (hj : j < lh.n) : lh.blocks j ∈ lh.entries :=
  LogHeader.mem_entries.mpr ⟨j, hj, rfl⟩

theorem OldPhase.putCopy {i : Nat} (h : OldPhase logStart old dev.disk) (hi : i < logSize)
    (data : Block) : OldPhase logStart old (dev.put (logBlock logStart i) data).disk := by
  constructor
  · intro b hb
    have hne : b ≠ logBlock logStart i := by
      intro heq
      exact hb (heq ▸ inLog_block hi)
    rw [put_disk_of_ne hne]
    exact h.home b hb
  · rw [put_disk_of_ne (Ne.symm (logBlock_ne_start hi))]
    exact h.clear

theorem Copied.putNext {i : Nat} (h : Copied logStart lh new i dev.disk)
    (hi : i < logSize) :
    Copied logStart lh new (i + 1)
      (dev.put (logBlock logStart i) (new (lh.blocks i))).disk := by
  intro j hj
  cases Nat.decEq j i with
  | isTrue heq =>
      rw [heq]
      exact put_disk_self
  | isFalse hne =>
      have hjs : j < logSize := by lia
      rw [put_disk_of_ne (fun heq => hne (logBlock_injective hjs hi heq))]
      exact h j (by lia)

/-- The buffers that `write_log` reads hold the new contents. -/
def Cached (lh : LogHeader) (new : Disk) (dev : Device) : Prop :=
  forall b, b ∈ lh.entries -> bufRead dev b = new b

/-- The invariant of `write_log` in front of entry `i`. -/
structure Copying (logStart : UInt32) (lh : LogHeader) (old new : Disk) (i : Nat)
    (dev : Device) : Prop where
  phase : OldPhase logStart old dev.disk
  copied : Copied logStart lh new i dev.disk
  cached : Cached lh new dev
  agrees : forall b, InLog logStart b -> Agrees dev b

theorem writeLogFrom_meets (hhome : forall b, b ∈ lh.entries -> Not (InLog logStart b))
    (hbound : lh.n ≤ logSize) (k i : Nat) (hk : i + k = lh.n)
    (h : Copying logStart lh old new i dev) :
    Meets (Copying logStart lh old new lh.n) (OldPhase logStart old)
      (writeLogFrom logStart lh.blocks k i dev) := by
  induction k generalizing i dev with
  | zero =>
      rw [Nat.add_zero] at hk
      rw [← hk]
      exact h
  | succ k ih =>
      have hi : i < logSize := by lia
      have hmem : lh.blocks i ∈ lh.entries := blocks_mem (by lia)
      unfold writeLogFrom
      rw [h.cached _ hmem]
      refine Meets.bind (P := Copying logStart lh old new (i + 1))
        (bufWrite_meets h.phase ?_) ?_
      · intro power
        refine ⟨h.phase.putCopy hi _, h.copied.putNext hi, ?_, ?_⟩
        · intro b hb
          have hne : b ≠ logBlock logStart i := by
            intro heq
            exact hhome b hb (heq ▸ inLog_block hi)
          show bufRead (dev.put _ _) b = new b
          rw [bufRead_put_of_ne hne]
          exact h.cached b hb
        · intro b hb
          exact (h.agrees b hb).put
      · intro dev' h'
        exact ih (i + 1) (by lia) h'

/-- The header is written over the old phase with all copies made. -/
theorem committed_putHead (hbound : lh.n ≤ logSize)
    (h : OldPhase logStart old dev.disk) (hcopied : Copied logStart lh new lh.n dev.disk)
    (data : Block) :
    CommittedPhase logStart lh old new (dev.put logStart (encodeHead lh data)).disk := by
  rcases encodeHead_spec hbound data with ⟨hcount, hblocks⟩
  constructor
  · rw [put_disk_self]
    exact hcount
  · rw [put_disk_self]
    exact hblocks
  · intro j hj
    rw [put_disk_of_ne (logBlock_ne_start (by lia))]
    exact hcopied j hj
  · intro b hb _
    have hne : b ≠ logStart := by
      intro heq
      subst heq
      exact hb (inLog_start b)
    rw [put_disk_of_ne hne]
    exact h.home b hb

/-- The invariant of `install_trans` in front of entry `i`. -/
structure Installing (logStart : UInt32) (lh : LogHeader) (old new : Disk) (i : Nat)
    (dev : Device) : Prop where
  phase : CommittedPhase logStart lh old new dev.disk
  installed : Installed lh new i dev.disk
  agrees : forall b, InLog logStart b -> Agrees dev b

theorem CommittedPhase.putHome {b : UInt32} (h : CommittedPhase logStart lh old new dev.disk)
    (hbound : lh.n ≤ logSize) (hb : b ∈ lh.entries) (hhome : Not (InLog logStart b))
    (data : Block) : CommittedPhase logStart lh old new (dev.put b data).disk := by
  have hstart : logStart ≠ b := by
    intro heq
    subst heq
    exact hhome (inLog_start logStart)
  constructor
  · rw [put_disk_of_ne hstart]
    exact h.count
  · rw [put_disk_of_ne hstart]
    exact h.blocks
  · intro j hj
    have hne : logBlock logStart j ≠ b := by
      intro heq
      exact hhome (heq ▸ inLog_block (by lia))
    rw [put_disk_of_ne hne]
    exact h.copied j hj
  · intro c hc hnot
    have hne : c ≠ b := by
      intro heq
      subst heq
      exact hnot hb
    rw [put_disk_of_ne hne]
    exact h.others c hc hnot

/-- `install_trans` with the block numbers of the header, wherever they were read. -/
theorem installFrom_meets (hhome : forall b, b ∈ lh.entries -> Not (InLog logStart b))
    (hbound : lh.n ≤ logSize) {blocks : Nat -> UInt32}
    (hblocks : forall j, j < lh.n -> blocks j = lh.blocks j) (k i : Nat)
    (hk : i + k = lh.n) (h : Installing logStart lh old new i dev) :
    Meets (Installing logStart lh old new lh.n) (CommittedPhase logStart lh old new)
      (installFrom logStart blocks k i dev) := by
  induction k generalizing i dev with
  | zero =>
      rw [Nat.add_zero] at hk
      rw [← hk]
      exact h
  | succ k ih =>
      have hi : i < lh.n := by lia
      have hmem : lh.blocks i ∈ lh.entries := blocks_mem hi
      have hread : bufRead dev (logBlock logStart i) = new (lh.blocks i) := by
        rw [h.agrees _ (inLog_block (by lia))]
        exact h.phase.copied i hi
      unfold installFrom
      rw [hblocks i hi, hread]
      refine Meets.bind (P := Installing logStart lh old new (i + 1))
        (bufWrite_meets h.phase ?_) ?_
      · intro power
        refine ⟨h.phase.putHome hbound hmem (hhome _ hmem) _, ?_, ?_⟩
        · intro j hj
          show (dev.put _ _).disk (lh.blocks j) = _
          cases decEq (lh.blocks j) (lh.blocks i) with
          | isTrue heq =>
              rw [heq]
              exact put_disk_self
          | isFalse hne =>
              rw [put_disk_of_ne hne]
              apply h.installed
              cases Nat.lt_or_ge j i with
              | inl hlt => exact hlt
              | inr hge =>
                  have hji : j = i := by lia
                  exact absurd (congrArg lh.blocks hji) hne
        · intro b hb
          exact (h.agrees b hb).put
      · intro dev' h'
        exact ih (i + 1) (by lia) h'

/-- The header is cleared behind a full installation. -/
theorem new_putHead (hhome : forall b, b ∈ lh.entries -> Not (InLog logStart b))
    (h : Installing logStart lh old new lh.n dev) (lh' : LogHeader) (data : Block) :
    NewPhase logStart lh old new
      (dev.put logStart (encodeHead { lh' with n := 0 } data)).disk := by
  constructor
  · intro b hb
    have hne : b ≠ logStart := by
      intro heq
      subst heq
      exact hhome b hb (inLog_start b)
    rcases LogHeader.mem_entries.mp hb with ⟨j, hj, rfl⟩
    rw [put_disk_of_ne hne]
    exact h.installed j hj
  · intro b hb hnot
    have hne : b ≠ logStart := by
      intro heq
      subst heq
      exact hb (inLog_start b)
    rw [put_disk_of_ne hne]
    exact h.phase.others b hb hnot
  · rw [put_disk_self]
    exact encodeHead_clear lh' data

theorem installClear_meets (hhome : forall b, b ∈ lh.entries -> Not (InLog logStart b))
    (hbound : lh.n ≤ logSize) {lh' : LogHeader} (hn : lh'.n = lh.n)
    (hblocks : forall j, j < lh.n -> lh'.blocks j = lh.blocks j)
    (h : Installing logStart lh old new 0 dev) :
    Meets (fun dev => NewPhase logStart lh old new dev.disk)
      (CommittedPhase logStart lh old new)
      (installTrans logStart lh' dev >>= clearHead logStart lh') := by
  have hinstall := installFrom_meets hhome hbound hblocks lh.n 0 (Nat.zero_add _) h
  rw [← hn] at hinstall
  refine Meets.bind hinstall ?_
  intro dev' h'
  rw [hn] at h'
  exact bufWrite_meets h'.phase (fun _ => new_putHead hhome h' lh' _)

theorem installing_zero (h : CommittedPhase logStart lh old new dev.disk)
    (hagrees : forall b, InLog logStart b -> Agrees dev b) :
    Installing logStart lh old new 0 dev :=
  ⟨h, fun _ hj => absurd hj (Nat.not_lt_zero _), hagrees⟩

/-- Wherever the power fails in `commit`, the disk is in one of the phases. -/
theorem commit_meets (h : Ready logStart lh dev new) (hsome : lh.n > 0) :
    Meets (fun dev' => NewPhase logStart lh dev.disk new dev'.disk)
      (Phase logStart lh dev.disk new) (commit logStart lh dev) := by
  have hstart : Copying logStart lh dev.disk new 0 dev := by
    refine ⟨⟨fun _ _ => rfl, h.clear⟩, fun _ hj => absurd hj (Nat.not_lt_zero _), ?_, ?_⟩
    · intro b hb
      unfold bufRead
      rw [h.cached b hb]
      rfl
    · intro b hb
      unfold Agrees bufRead
      rcases h.clean b (fun hmem => h.home b hmem hb) with hnone | hsame
      · rw [hnone]
        rfl
      · rw [hsame]
        rfl
  unfold commit
  rw [if_pos hsome]
  have hwrite := writeLogFrom_meets h.home h.bounded lh.n 0 (Nat.zero_add _) hstart
  refine Meets.bind (hwrite.mono (fun _ hp => hp) (fun _ he => Or.inl he)) ?_
  intro dev1 h1
  refine Meets.bind (P := Installing logStart lh dev.disk new 0)
    (bufWrite_meets (Or.inl h1.phase) ?_) ?_
  · intro power
    exact installing_zero (committed_putHead h.bounded h1.phase h1.copied _)
      (fun b hb => (h1.agrees b hb).put)
  · intro dev2 h2
    exact (installClear_meets h.home h.bounded rfl (fun _ _ => rfl) h2).mono
      (fun _ hp => hp) (fun _ he => Or.inr (Or.inl he))

theorem commit_phase (h : Ready logStart lh dev new) :
    Phase logStart lh dev.disk new (diskAfter (commit logStart lh dev)) := by
  cases Nat.eq_zero_or_pos lh.n with
  | inl hnone =>
      have hcommit : commit logStart lh dev = Except.ok dev := if_neg (by lia)
      rw [hcommit]
      exact Or.inl ⟨fun _ _ => rfl, h.clear⟩
  | inr hsome =>
      have hmeets := commit_meets h hsome
      cases hres : commit logStart lh dev with
      | ok dev' => exact Or.inr (Or.inr (hmeets.of_ok hres))
      | error disk => exact hmeets.of_error hres

/-!
# Recovery
-/

/-- The two phases that end a recovery. -/
def Settled (logStart : UInt32) (lh : LogHeader) (old new disk : Disk) : Prop :=
  OldPhase logStart old disk ∨ NewPhase logStart lh old new disk

theorem Settled.phase {disk : Disk} (h : Settled logStart lh old new disk) :
    Phase logStart lh old new disk := by
  rcases h with hold | hnew
  · exact Or.inl hold
  · exact Or.inr (Or.inr hnew)

theorem Settled.clear {disk : Disk} (h : Settled logStart lh old new disk) :
    (disk logStart).word 0 = 0 := by
  rcases h with hold | hnew
  · exact hold.clear
  · exact hnew.clear

/-- Writing a clear header again changes nothing that matters. -/
theorem Settled.putHead (hhome : forall b, b ∈ lh.entries -> Not (InLog logStart b))
    (h : Settled logStart lh old new dev.disk) (lh' : LogHeader) (data : Block) :
    Settled logStart lh old new
      (dev.put logStart (encodeHead { lh' with n := 0 } data)).disk := by
  have hne : forall b, Not (InLog logStart b) -> b ≠ logStart := by
    intro b hb heq
    subst heq
    exact hb (inLog_start b)
  have hclear : ((dev.put logStart (encodeHead { lh' with n := 0 } data)).disk
      logStart).word 0 = 0 := by
    rw [put_disk_self]
    exact encodeHead_clear lh' data
  rcases h with hold | hnew
  · left
    refine ⟨?_, hclear⟩
    intro b hb
    rw [put_disk_of_ne (hne b hb)]
    exact hold.home b hb
  · right
    refine ⟨?_, ?_, hclear⟩
    · intro b hb
      rw [put_disk_of_ne (hne b (hhome b hb))]
      exact hnew.installed b hb
    · intro b hb hnot
      rw [put_disk_of_ne (hne b hb)]
      exact hnew.others b hb hnot

/-- A recovery from any phase settles, and keeps to the phases when it fails. -/
theorem recoverFromLog_meets (hhome : forall b, b ∈ lh.entries -> Not (InLog logStart b))
    (hbound : lh.n ≤ logSize) {disk : Disk} (h : Phase logStart lh old new disk)
    (power : Option Nat) :
    Meets (fun dev => Settled logStart lh old new dev.disk) (Phase logStart lh old new)
      (recoverFromLog logStart (powerUp disk power)) := by
  have hsettled : Settled logStart lh old new disk ->
      Meets (fun dev => Settled logStart lh old new dev.disk) (Phase logStart lh old new)
        (recoverFromLog logStart (powerUp disk power)) := by
    intro hs
    have hcount : (readHead logStart (powerUp disk power)).n = 0 :=
      headCount_of_clear hs.clear
    unfold recoverFromLog installTrans
    simp only [hcount]
    exact bufWrite_meets hs.phase (fun _ => hs.putHead hhome _ _)
  rcases h with hold | hcommitted | hnew
  · exact hsettled (Or.inl hold)
  · have hinstalling : Installing logStart lh old new 0 (powerUp disk power) :=
      installing_zero hcommitted (fun _ _ => rfl)
    exact (installClear_meets hhome hbound hcommitted.count hcommitted.blocks
      hinstalling).mono (fun _ hp => Or.inr hp) (fun _ he => Or.inr (Or.inl he))
  · exact hsettled (Or.inr hnew)

theorem Recovers.settled (hhome : forall b, b ∈ lh.entries -> Not (InLog logStart b))
    (hbound : lh.n ≤ logSize) {disk final : Disk} (hrec : Recovers logStart disk final)
    (h : Phase logStart lh old new disk) : Settled logStart lh old new final := by
  induction hrec with
  | completes hdone => exact (recoverFromLog_meets hhome hbound h none).of_ok hdone
  | fails k hfail _ ih =>
      exact ih ((recoverFromLog_meets hhome hbound h (some k)).of_error hfail)

end Steps

/-!
# Without power failures
-/

theorem bufWrite_powered {dev : Device} (h : dev.power = none) (b : UInt32)
    (data : Block) : bufWrite b data dev = Except.ok (dev.put b data) := by
  unfold bufWrite
  rw [h]

theorem installFrom_powered (logStart : UInt32) (blocks : Nat -> UInt32) (k i : Nat)
    (dev : Device) (h : dev.power = none) :
    exists dev', installFrom logStart blocks k i dev = Except.ok dev' ∧
      dev'.power = none := by
  induction k generalizing i dev with
  | zero => exact ⟨dev, rfl, h⟩
  | succ k ih =>
      unfold installFrom
      rw [bufWrite_powered h]
      exact ih (i + 1) _ h

theorem recoverFromLog_powered (logStart : UInt32) (disk : Disk) :
    exists dev, recoverFromLog logStart (powerUp disk none) = Except.ok dev := by
  rcases installFrom_powered logStart (readHead logStart (powerUp disk none)).blocks
    (readHead logStart (powerUp disk none)).n 0 (powerUp disk none) rfl with
    ⟨dev, hdev, hpower⟩
  have hrest : recoverFromLog logStart (powerUp disk none) =
      clearHead logStart (readHead logStart (powerUp disk none)) dev := by
    unfold recoverFromLog installTrans
    simp only [hdev]
    rfl
  exact ⟨_, hrest.trans (bufWrite_powered hpower _ _)⟩

/--
Wherever the power fails during a commit, and however often it fails during the
recoveries, some recovery completes, and each one that does leaves all recorded
blocks old or all of them new.
-/
theorem log_crash_atomic {logStart : UInt32} {lh : LogHeader} {dev : Device}
    {new : UInt32 -> Block} (h : Ready logStart lh dev new) :
    (exists final, Recovers logStart (diskAfter (commit logStart lh dev)) final) ∧
      forall final, Recovers logStart (diskAfter (commit logStart lh dev)) final ->
        Atomic logStart lh dev.disk new final := by
  constructor
  · rcases recoverFromLog_powered logStart (diskAfter (commit logStart lh dev)) with
      ⟨dev', hdev⟩
    exact ⟨dev'.disk, Recovers.completes hdev⟩
  · intro final hrec
    have hsettled := hrec.settled h.home h.bounded (commit_phase h)
    rcases hsettled with hold | hnew
    · exact ⟨Or.inl (fun b hb => hold.home b (h.home b hb)),
        fun b hb _ => hold.home b hb, hold.clear⟩
    · exact ⟨Or.inr hnew.installed, hnew.others, hnew.clear⟩

/-- Two blocks are recorded, and the power fails behind a number of writes. -/
def twoBlockHeader : LogHeader := { n := 2, blocks := fun i => if i = 0 then 5 else 6 }

def twoBlockDevice (writes : Nat) : Device :=
  { disk := fun _ _ => 0
    cache := fun b => if b = 5 ∨ b = 6 then some (fun _ => 1) else none
    power := some writes }

theorem twoBlock_ready (writes : Nat) :
    Ready 100 twoBlockHeader (twoBlockDevice writes) (fun _ _ => 1) := by
  have hentries : twoBlockHeader.entries = [5, 6] := rfl
  have hfive : forall b, b ∈ twoBlockHeader.entries -> b = 5 ∨ b = 6 := by
    intro b hb
    rw [hentries] at hb
    simpa using hb
  refine ⟨rfl, show 2 ≤ logSize by decide, show [(5 : UInt32), 6].Nodup by decide, ?_, ?_, ?_⟩
  · intro b hb
    have hsmall : b ≠ 100 ∧ forall j : Fin logSize, b ≠ logBlock 100 j.val := by
      rcases hfive b hb with rfl | rfl
      · decide
      · decide
    intro hin
    rcases hin with hstart | ⟨i, hi, hblock⟩
    · exact hsmall.left hstart
    · exact hsmall.right ⟨i, hi⟩ hblock
  · intro b hb
    exact if_pos (hfive b hb)
  · intro b hb
    left
    apply if_neg
    intro hblock
    apply hb
    rw [hentries]
    simpa using hblock

/-- The power fails before the write of the header, or behind the first block that is installed. -/
theorem log_crash_atomic_two_blocks :
    (exists final, Recovers 100 (diskAfter (commit 100 twoBlockHeader (twoBlockDevice 2))) final ∧
      Atomic 100 twoBlockHeader (twoBlockDevice 2).disk (fun _ _ => 1) final) ∧
    exists final, Recovers 100 (diskAfter (commit 100 twoBlockHeader (twoBlockDevice 4))) final ∧
      Atomic 100 twoBlockHeader (twoBlockDevice 4).disk (fun _ _ => 1) final := by
  constructor
  · rcases log_crash_atomic (twoBlock_ready 2) with ⟨⟨final, hrec⟩, hatomic⟩
    exact ⟨final, hrec, hatomic final hrec⟩
  · rcases log_crash_atomic (twoBlock_ready 4) with ⟨⟨final, hrec⟩, hatomic⟩
    exact ⟨final, hrec, hatomic final hrec⟩

end Log
end Fs
end NicoOS
