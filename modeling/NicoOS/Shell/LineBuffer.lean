import Mathlib.Data.Option.Basic
import NicoOS.Shell.Quoting

/-!
# The buffer of a line

`sh_read_to_buf` from any state of the shell and on any stream: a byte that is not positive as
a `char` ends the stream for good.
-/

namespace NicoOS
namespace Shell

/-- The bytes up to the first that `get_char` takes for the end. -/
def positive : Text -> Text
  | [] => []
  | ch :: rest => if ch = 0 ∨ 0x80 ≤ ch then [] else ch :: positive rest

namespace Scanner

/-- `sh_read_to_buf` from the state that an earlier call has left. -/
def readToBuf (sc : Scanner) : Option (Int × Scanner) := do
  let (closed, sc) <- readLine (sc.instream.length + 1)
    { sc with buf := [], advance := none, unterminated := none }
  if closed then
    if sc.buf.length < lineBufSize then
      if sc.buf = [] ∧ sc.eof = true then some (0, sc) else some (-1, sc)
    else none
  else
    some (1, sc)

/-- The text that a call still takes: none behind the end of the stream. -/
def line (sc : Scanner) : Text × Pairing :=
  if sc.eof then ([], Pairing.out) else taken Pairing.out (spliced (positive sc.instream))

/-- The scanner whose stream ends where this one takes it to end. -/
def clean (sc : Scanner) : Scanner :=
  { sc with instream := if sc.eof then [] else positive sc.instream }

/-!
# A stream and its positive bytes
-/

section Clean

variable {sc : Scanner} {b t : Text} {quote : UInt8}

theorem ascii_positive (stream : Text) : Ascii (positive stream) := by
  induction stream with
  | nil => exact fun ch hch => absurd hch List.not_mem_nil
  | cons ch rest ih =>
      rw [positive]
      split
      · exact fun c hc => absurd hc List.not_mem_nil
      · rename_i hpos
        rw [not_or, UInt8.not_le] at hpos
        intro c hc
        rcases List.mem_cons.mp hc with heq | hin
        · rw [heq]
          exact hpos
        · exact ih c hin

theorem length_positive (stream : Text) : (positive stream).length ≤ stream.length := by
  induction stream with
  | nil => exact Nat.le_refl _
  | cons ch rest ih =>
      rw [positive]
      split
      · exact Nat.zero_le _
      · exact Nat.succ_le_succ ih

theorem length_clean (sc : Scanner) : (clean sc).instream.length ≤ sc.instream.length := by
  unfold clean
  dsimp only
  split
  · exact Nat.zero_le _
  · exact length_positive _

theorem at_clean (sc : Scanner) : At (clean sc) sc.buf (clean sc).ahead where
  buf := rfl
  ahead := rfl
  ascii := by
    unfold clean
    dsimp only
    split
    · exact fun ch hch => absurd hch List.not_mem_nil
    · exact ascii_positive _

theorem clean_of_open (h : sc.eof = false) :
    clean sc = { sc with instream := positive sc.instream } := by
  simp [clean, h]

theorem getChar_clean (h : sc.eof = false) :
    (clean sc).getChar = (sc.getChar.1, clean sc.getChar.2) := by
  rw [clean_of_open h]
  unfold getChar
  cases hstream : sc.instream with
  | nil => simp [positive, clean]
  | cons ch rest =>
      by_cases hend : ch = 0 ∨ 0x80 ≤ ch
      · rw [positive, if_pos hend]
        simp [clean, hend]
      · rw [positive, if_neg hend]
        by_cases hnl : ch = newline
        · rw [hnl] at hend ⊢
          simp [clean, hend, h]
        · simp [clean, hend, hnl, h]

theorem store_clean (sc : Scanner) (ch : UInt8) :
    (clean sc).store ch = (sc.store ch).map clean := by
  by_cases hroom : sc.buf.length < lineBufSize
  · simp [store, clean, hroom]
  · simp [store, clean, hroom]

theorem getChar_some {sc' : Scanner} {ch : UInt8} (h : sc.getChar = (some ch, sc')) :
    sc.instream = ch :: sc'.instream ∧ sc'.eof = sc.eof := by
  unfold getChar at h
  cases hstream : sc.instream with
  | nil =>
      rw [hstream] at h
      cases h
  | cons c rest =>
      rw [hstream] at h
      dsimp only at h
      split at h
      · cases h
      · split at h
        · cases h
          exact ⟨rfl, rfl⟩
        · cases h
          exact ⟨rfl, rfl⟩

/-- The rest of a call that stores a byte and then gives it. -/
theorem store_bind_clean (sc : Scanner) (ch c : UInt8) (f : Scanner -> Scanner)
    (hf : forall sc, f (clean sc) = clean (f sc)) :
    ((clean sc).store ch >>= fun sc => some (c, f sc)) =
      (sc.store ch >>= fun sc => some (c, f sc)).map (Prod.map id clean) := by
  rw [store_clean]
  cases sc.store ch with
  | none => rfl
  | some sc => exact congrArg (fun sc => some (c, sc)) (hf sc)

theorem readBackslash_clean {again again' : Scanner -> Option (UInt8 × Scanner)}
    (h : sc.eof = false)
    (hagain : forall ch sc', sc.getChar = (some ch, sc') ->
      again' (clean sc') = (again sc').map (Prod.map id clean)) :
    readBackslash again' (clean sc) = (readBackslash again sc).map (Prod.map id clean) := by
  unfold readBackslash
  rw [getChar_clean h]
  rcases hget : sc.getChar with ⟨read, sc'⟩
  cases read with
  | none => exact store_bind_clean sc' backslash backslash (fun sc => sc) (fun _ => rfl)
  | some next =>
      dsimp only
      by_cases hnl : next = newline
      · rw [if_pos hnl, if_pos hnl]
        exact hagain next sc' hget
      · rw [if_neg hnl, if_neg hnl]
        exact store_bind_clean { sc' with advance := some next } backslash backslash
          (fun sc => sc) (fun _ => rfl)

/-- `read_char` gives the same byte, with any number of rounds that is enough. -/
theorem readCharFrom_clean (k : Nat) : forall (k' : Nat) (sc : Scanner),
    sc.instream.length < k -> (clean sc).instream.length < k' ->
    readCharFrom k' (clean sc) = (readCharFrom k sc).map (Prod.map id clean) := by
  induction k with
  | zero => exact fun k' sc hk => absurd hk (Nat.not_lt_zero _)
  | succ k ih =>
      intro k' sc hk hk'
      cases k' with
      | zero => exact absurd hk' (Nat.not_lt_zero _)
      | succ k' =>
          rw [readCharFrom, readCharFrom]
          cases heof : sc.eof with
          | true => simp [clean, heof]
          | false =>
              have hopen : (clean sc).eof = false := heof
              have hclean := getChar_clean heof
              rw [hopen, if_neg Bool.false_ne_true, if_neg Bool.false_ne_true]
              cases hadvance : sc.advance with
              | some ch =>
                  have hsaved : (clean sc).advance = some ch := hadvance
                  rw [hsaved]
                  exact store_bind_clean sc ch ch (fun sc => { sc with advance := none })
                    (fun _ => rfl)
              | none =>
                  have hsaved : (clean sc).advance = none := hadvance
                  rw [hsaved]
                  dsimp only
                  rcases hget : sc.getChar with ⟨read, sc1⟩
                  rw [hget] at hclean
                  rw [hclean]
                  cases read with
                  | none => rfl
                  | some ch =>
                      rcases getChar_some hget with ⟨hstream, hsame⟩
                      rcases getChar_some hclean with ⟨hstream', -⟩
                      rw [hstream, List.length_cons] at hk
                      rw [hstream', List.length_cons] at hk'
                      dsimp only at hk' ⊢
                      by_cases hslash : ch = backslash
                      · rw [if_pos hslash, if_pos hslash]
                        have heof1 : sc1.eof = false := hsame.trans heof
                        apply readBackslash_clean heof1
                        intro next sc2 hget2
                        have hclean2 := getChar_clean heof1
                        rw [hget2] at hclean2
                        have hlen := congrArg List.length (getChar_some hget2).left
                        have hlen' := congrArg List.length (getChar_some hclean2).left
                        simp only [List.length_cons] at hlen hlen'
                        apply ih
                        · lia
                        · lia
                      · rw [if_neg hslash, if_neg hslash]
                        exact store_bind_clean sc1 ch ch (fun sc => sc) (fun _ => rfl)

theorem readChar_clean (sc : Scanner) :
    (clean sc).readChar = sc.readChar.map (Prod.map id clean) :=
  readCharFrom_clean _ _ sc (Nat.lt_succ_self _) (Nat.lt_succ_self _)

theorem readChar_clean_none (h : sc.readChar = none) : (clean sc).readChar = none := by
  rw [readChar_clean, h]
  rfl

theorem readChar_clean_some {sc' : Scanner} {ch : UInt8} (h : sc.readChar = some (ch, sc')) :
    (clean sc).readChar = some (ch, clean sc') := by
  rw [readChar_clean, h]
  rfl

theorem readString_clean (m : Nat) : forall sc : Scanner,
    readString quote m (clean sc) = (readString quote m sc).map (Prod.map id clean) := by
  induction m with
  | zero => exact fun _ => rfl
  | succ m ih =>
      intro sc
      rcases h : sc.readChar with - | ⟨ch, sc1⟩
      · rw [readString_none h, readString_none (readChar_clean_none h)]
        rfl
      · have hread := readChar_clean_some h
        cases heof : sc1.eof with
        | true =>
            rw [readString_eof h heof, readString_eof hread heof]
            rfl
        | false =>
            by_cases hclose : ch = quote
            · rw [hclose] at h hread
              rw [readString_close h heof, readString_close hread heof]
              rfl
            · by_cases hescape : quote = doubleQuote ∧ ch = backslash
              · rcases hescape with ⟨hquote, hslash⟩
                rw [hslash] at h hread
                rw [readString_escape h heof hquote, readString_escape hread heof hquote]
                rcases h2 : sc1.readChar with - | ⟨ch2, sc2⟩
                · rw [readChar_clean_none h2]
                  rfl
                · rw [readChar_clean_some h2]
                  exact ih sc2
              · rw [readString_next h heof hclose hescape,
                  readString_next hread heof hclose hescape]
                exact ih sc1

/-- Rounds beyond the bytes ahead make no difference in a string. -/
theorem readString_rounds (m : Nat) : forall (m' : Nat) (sc : Scanner) (b t : Text), At sc b t ->
    t.length < m -> t.length < m' -> readString quote m sc = readString quote m' sc := by
  induction m with
  | zero => exact fun m' sc b t _ hm => absurd hm (Nat.not_lt_zero _)
  | succ m ih =>
      intro m' sc b t hat hm hm'
      cases m' with
      | zero => exact absurd hm' (Nat.not_lt_zero _)
      | succ m' =>
          cases t with
          | nil =>
              rcases readChar_gives hat with ⟨ch, sc1, hread, -, heof⟩
              rw [readString_eof hread heof, readString_eof hread heof]
          | cons c rest =>
              rw [List.length_cons] at hm hm'
              rcases readChar_gives hat with ⟨-, sc1, hread, hat1, -⟩ | ⟨-, hread⟩
              · cases heof : sc1.eof with
                | true => rw [readString_eof hread heof, readString_eof hread heof]
                | false =>
                    by_cases hclose : c = quote
                    · rw [hclose] at hread
                      rw [readString_close hread heof, readString_close hread heof]
                    · by_cases hescape : quote = doubleQuote ∧ c = backslash
                      · rcases hescape with ⟨hquote, hslash⟩
                        rw [hslash] at hread
                        rw [readString_escape hread heof hquote,
                          readString_escape hread heof hquote]
                        cases rest with
                        | nil =>
                            rcases readChar_gives hat1 with ⟨ch, sc2, hread2, hat2, -⟩
                            rw [hread2]
                            exact ih m' sc2 _ [] hat2 (by lia) (by lia)
                        | cons c2 rest =>
                            rw [List.length_cons] at hm hm'
                            rcases readChar_gives hat1 with ⟨-, sc2, hread2, hat2, -⟩ | ⟨-, hread2⟩
                            · rw [hread2]
                              exact ih m' sc2 _ rest hat2 (by lia) (by lia)
                            · rw [hread2]
                              rfl
                      · rw [readString_next hread heof hclose hescape,
                          readString_next hread heof hclose hescape]
                        exact ih m' sc1 _ rest hat1 (by lia) (by lia)
              · rw [readString_none hread, readString_none hread]

/-- The loop does the same on a stream and on its positive bytes. -/
theorem readLine_clean (k : Nat) : forall sc : Scanner,
    readLine k (clean sc) = (readLine k sc).map (Prod.map id clean) := by
  induction k with
  | zero => exact fun _ => rfl
  | succ k ih =>
      intro sc
      rcases h : sc.readChar with - | ⟨ch, sc1⟩
      · rw [readLine_none h, readLine_none (readChar_clean_none h)]
        rfl
      · have hread := readChar_clean_some h
        by_cases hend : sc1.eof = true ∨ ch = newline
        · rw [readLine_end h hend, readLine_end hread hend]
          rfl
        · by_cases hquote : ch = singleQuote ∨ ch = doubleQuote
          · have hlen := length_ahead (clean sc1)
            have hshort := length_clean sc1
            rw [readLine_quote h hend hquote, readLine_quote hread hend hquote, readRest, readRest,
              readString_rounds _ (sc1.instream.length + 2) (clean sc1) _ _ (at_clean sc1) hlen
                (by lia),
              readString_clean]
            rcases readString ch (sc1.instream.length + 2) sc1 with - | ⟨closed, sc2⟩
            · rfl
            · cases closed with
              | true => exact ih sc2
              | false => rfl
          · rw [readLine_next h hend hquote, readLine_next hread hend hquote]
            exact ih sc1

end Clean

/-!
# Overruns
-/

section Overruns

variable {sc : Scanner}

/-- A call takes its text, unless the buffer is too small. -/
theorem readLine_line (sc : Scanner) :
    Ends (readLine (sc.instream.length + 1)
      (clean { sc with buf := [], advance := none, unterminated := none })) [] sc.line := by
  have hline : sc.line = taken Pairing.out
      (clean { sc with buf := [], advance := none, unterminated := none }).ahead := by
    unfold line clean ahead
    cases heof : sc.eof with
    | true => rfl
    | false => rfl
  rw [hline]
  apply (takesUpTo _ _ (Nat.le_refl _)).left _ _ _ (at_clean _)
  · exact Nat.zero_le _
  · unfold clean ahead
    dsimp only
    split
    · exact Nat.succ_pos _
    · have hspliced := length_spliced (positive sc.instream)
      have hpositive := length_positive sc.instream
      simp only [Option.toList_none, List.nil_append]
      lia

theorem readToBuf_of_line (closed : Bool) {sc' : Scanner}
    (h : readLine (sc.instream.length + 1)
      { sc with buf := [], advance := none, unterminated := none } = some (closed, sc')) :
    sc.readToBuf.isSome = (!closed || decide (sc'.buf.length < lineBufSize)) := by
  unfold readToBuf
  rw [h]
  cases closed with
  | false => rfl
  | true =>
      by_cases hroom : sc'.buf.length < lineBufSize
      · by_cases hempty : sc'.buf = [] ∧ sc'.eof = true
        · simp [hempty, lineBufSize]
        · simp [hroom, hempty]
      · simp [hroom]

/-- A call stays in the buffer exactly if the text that it takes has its place there. -/
theorem readToBuf_isSome (sc : Scanner) : sc.readToBuf.isSome = decide (Fits sc.line) := by
  have hends := readLine_line sc
  rw [readLine_clean] at hends
  rcases hrun : readLine (sc.instream.length + 1)
    { sc with buf := [], advance := none, unterminated := none } with - | ⟨closed, sc'⟩
  · rw [hrun] at hends
    have hnone : sc.readToBuf = none := by
      unfold readToBuf
      rw [hrun]
      rfl
    rcases hends with ⟨-, sc1, hsome, -⟩ | ⟨hover, -⟩
    · cases hsome
    · rw [List.length_nil, Nat.zero_add] at hover
      have hunfit : Not (Fits sc.line) := fun hfits => Nat.not_lt_of_le hfits.right hover
      rw [hnone, decide_eq_false hunfit]
      rfl
  · rw [hrun] at hends
    rcases hends with ⟨hlen, sc1, hsome, hbuf, -⟩ | ⟨-, hnone⟩
    · rcases Prod.mk.inj (Option.some.inj hsome) with ⟨hclosed, hclean⟩
      rw [List.length_nil, Nat.zero_add] at hlen
      rw [List.nil_append, <- hclean] at hbuf
      have hsame : sc'.buf = sc.line.1 := hbuf
      have hout : closed = decide (sc.line.2 = Pairing.out) := hclosed
      rw [readToBuf_of_line _ hrun, hsame, hout]
      unfold Fits
      by_cases hend : sc.line.2 = Pairing.out
      · simp [hend, hlen]
      · simp [hend, hlen]
    · cases hnone

/-- On a stream from its begin this is `sh_read_to_buf`. -/
theorem readToBuf_begin (stream : Text) (lineno : Nat) :
    readToBuf ⟨[], none, stream, false, lineno, none⟩ = shReadToBuf stream lineno := rfl

/--
From every state of the shell and on every stream, `sh_read_to_buf` stores inside the buffer
alone if and only if the text that it takes has its place there, with its `NUL`.
-/
theorem lineBuffer_inside_iff (sc : Scanner) : sc.readToBuf ≠ none <-> Fits sc.line := by
  rw [<- Option.isSome_iff_ne_none, readToBuf_isSome, decide_eq_true_eq]

theorem positive_letters (n : Nat) :
    positive (List.replicate n 0x61) = List.replicate n 0x61 := by
  induction n with
  | zero => rfl
  | succ n ih => rw [List.replicate_succ, positive, if_neg (by decide), ih]

theorem spliced_letters (n : Nat) : spliced (List.replicate n 0x61) = List.replicate n 0x61 := by
  induction n with
  | zero => rfl
  | succ n ih => rw [List.replicate_succ, spliced_cons (by decide), ih]

theorem taken_letters (n : Nat) :
    taken Pairing.out (List.replicate n 0x61) = (List.replicate n 0x61, Pairing.out) := by
  induction n with
  | zero => rfl
  | succ n ih =>
      rw [List.replicate_succ, taken, if_neg (fun hboth => absurd hboth.right (by decide))]
      exact congrArg (fun text : Text × Pairing => (0x61 :: text.1, text.2)) ih

/-- The `NUL` behind 2048 letters is stored behind the buffer. -/
theorem lineBuffer_overrun :
    shReadToBuf (List.replicate 2048 0x61) 1 = none ∧
      Not (readToBuf ⟨[], none, List.replicate 2048 0x61, false, 1, none⟩ ≠ none) := by
  have hline : line ⟨[], none, List.replicate 2048 0x61, false, 1, none⟩ =
      (List.replicate 2048 0x61, Pairing.out) := by
    show taken Pairing.out (spliced (positive (List.replicate 2048 0x61))) = _
    rw [positive_letters, spliced_letters, taken_letters]
  have hnone : readToBuf ⟨[], none, List.replicate 2048 0x61, false, 1, none⟩ = none := by
    rw [<- Option.isSome_eq_false_iff.trans Option.isNone_iff_eq_none, readToBuf_isSome, hline]
    apply decide_eq_false
    intro hfits
    have hroom := hfits.left rfl
    rw [List.length_replicate] at hroom
    exact Nat.lt_irrefl 2048 hroom
  exact ⟨hnone, fun hsome => hsome hnone⟩

end Overruns

end Scanner
end Shell
end NicoOS
