import NicoOS.Shell.Simulation
import NicoOS.Shell.Termination

/-!
# The tokens of a line

The parser over the buffer of a line gives what the parser over the tokens of its text gives.
-/

namespace NicoOS
namespace Shell

open Lib

/-- The token of the parser; a string has the bytes at its place, as many as its length says. -/
def Lexer.Peek.token : Lexer.Peek -> Option Token
  | Lexer.Peek.eof => none
  | Lexer.Peek.operator tok => some tok
  | Lexer.Peek.string p len => some (Token.string (p.take len.toNat))

def tokensOf (p : Text) : List Token := (Lexer.lex p).filterMap (fun x => x.2.token)

/-!
# The lexer on a line without open quotes
-/

section Lexing

variable {p : Text} {k : Nat}

theorem lexFrom_enough (j : Nat) : forall (k : Nat) (p : Text), p.length < j -> p.length < k ->
    (forall x, x ∈ Lexer.lexFrom j p -> Lexer.terminated x.1 = true) ->
    Lexer.lexFrom j p = Lexer.lexFrom k p := by
  induction j with
  | zero => exact fun _ _ hj => absurd hj (Nat.not_lt_zero _)
  | succ j ih =>
      intro k p hj hk hterm
      cases k with
      | zero => exact absurd hk (Nat.not_lt_zero _)
      | succ k =>
          rcases Lexer.tokenStart_spec (p.length + 1) p (Nat.lt_succ_self _) with
            ⟨-, hsuffix, hhead⟩
          rw [Lexer.lexFrom] at hterm
          rw [Lexer.lexFrom, Lexer.lexFrom]
          cases hstart : Lexer.tokenStart (p.length + 1) p with
          | nil => rfl
          | cons ch rest =>
              rw [hstart] at hterm hsuffix
              rcases hhead ch rest hstart with ⟨hhash, hblank⟩
              have hpassed := Lexer.scanAt_passed hhash hblank (hterm _ List.mem_cons_self)
              have hshort := hpassed.suffix.length_le
              have hlen := hsuffix.length_le
              rw [List.length_cons] at hlen
              exact congrArg _ (ih k _ (by lia) (by lia)
                (fun x hx => hterm x (List.mem_cons_of_mem _ hx)))

theorem length_lexFrom (k : Nat) : forall p : Text, (Lexer.lexFrom k p).length ≤ k := by
  induction k with
  | zero => exact fun _ => Nat.le_refl 0
  | succ k ih =>
      intro p
      rw [Lexer.lexFrom]
      split
      · exact Nat.zero_le _
      · exact Nat.succ_le_succ (ih _)

theorem length_tokensOf (p : Text) : (tokensOf p).length ≤ p.length + 1 :=
  Nat.le_trans (List.length_filterMap_le _ _) (length_lexFrom _ p)

/-- A string has its length in the text, and a symbol is no string. -/
def Lexer.Peek.Proper : Lexer.Peek -> Prop
  | Lexer.Peek.string p len => 0 ≤ len ∧ len ≤ (p.length : Int)
  | Lexer.Peek.operator tok => forall text, tok ≠ Token.string text
  | Lexer.Peek.eof => True

/-- What a call of `scan_tok` leaves of the tokens of a text. -/
structure Takes (p : Text) (r : Lexer.Peek × Text) : Prop where
  whole : Lexer.Whole r.2
  proper : r.1.Proper
  tokens : tokensOf p = r.1.token.toList ++ tokensOf r.2
  eof : r.1 = Lexer.Peek.eof -> tokensOf r.2 = []

theorem scanAt_kind {ch : UInt8} {rest : Text} :
    (Lexer.scanAt (ch :: rest)).1 ≠ Lexer.Peek.eof ∧ forall text,
      (Lexer.scanAt (ch :: rest)).1 ≠ Lexer.Peek.operator (Token.string text) := by
  have hplain : forall tok : Token, (forall text, tok ≠ Token.string text) ->
      Lexer.Peek.operator tok ≠ Lexer.Peek.eof ∧ forall text,
        Lexer.Peek.operator tok ≠ Lexer.Peek.operator (Token.string text) :=
    fun tok htok => ⟨nofun, fun text heq => htok text (Lexer.Peek.operator.inj heq)⟩
  have hdoubled : forall one two : Token, (forall text, one ≠ Token.string text) ->
      (forall text, two ≠ Token.string text) ->
      (Lexer.doubled ch one two rest).1 ≠ Lexer.Peek.eof ∧ forall text,
        (Lexer.doubled ch one two rest).1 ≠ Lexer.Peek.operator (Token.string text) := by
    intro one two hone htwo
    unfold Lexer.doubled
    split
    · split
      · exact hplain two htwo
      · exact hplain one hone
    · exact hplain one hone
  unfold Lexer.scanAt
  dsimp only
  split_ifs
  · exact hdoubled _ _ nofun nofun
  · exact hplain _ nofun
  · exact hplain _ nofun
  · exact hplain _ nofun
  · exact hdoubled _ _ nofun nofun
  · exact hdoubled _ _ nofun nofun
  · exact hplain _ nofun
  · exact ⟨nofun, nofun⟩
  · exact ⟨nofun, nofun⟩

theorem Lexer.Whole.takes (h : Lexer.Whole p) : Takes p (scanTok p) := by
  rcases Lexer.tokenStart_spec (p.length + 1) p (Nat.lt_succ_self _) with ⟨-, hsuffix, hhead⟩
  unfold Lexer.Whole Lexer.lex at h
  rw [Lexer.lexFrom] at h
  unfold scanTok
  cases hstart : Lexer.tokenStart (p.length + 1) p with
  | nil =>
      have htokens : tokensOf p = [] := by
        unfold tokensOf Lexer.lex
        rw [Lexer.lexFrom, hstart]
        rfl
      constructor
      · intro x hx
        cases hx
      · exact trivial
      · exact htokens
      · exact fun _ => rfl
  | cons ch rest =>
      rw [hstart] at h hsuffix
      rcases hhead ch rest hstart with ⟨hhash, hblank⟩
      have hpassed := Lexer.scanAt_passed hhash hblank (h _ List.mem_cons_self)
      have hshort := hpassed.suffix.length_le
      have hlen := hsuffix.length_le
      rw [List.length_cons] at hlen
      have hbehind : forall x, x ∈ Lexer.lexFrom p.length (Lexer.scanAt (ch :: rest)).2 ->
          Lexer.terminated x.1 = true :=
        fun x hx => h x (List.mem_cons_of_mem _ hx)
      have hsame : Lexer.lexFrom p.length (Lexer.scanAt (ch :: rest)).2 =
          Lexer.lex (Lexer.scanAt (ch :: rest)).2 :=
        lexFrom_enough _ _ _ (by lia) (Nat.lt_succ_self _) hbehind
      constructor
      · rw [hsame] at hbehind
        exact hbehind
      · have hinside := hpassed.inside (ch :: rest) (List.suffix_refl _)
        cases htoken : (Lexer.scanAt (ch :: rest)).1 with
        | eof => exact trivial
        | operator tok =>
            intro text heq
            rw [heq] at htoken
            exact scanAt_kind.right text htoken
        | string q len =>
            rw [htoken] at hinside
            exact hinside.right
      · unfold tokensOf
        rw [← hsame, Lexer.lex, Lexer.lexFrom, hstart]
        dsimp only
        rw [List.filterMap_cons]
        cases (Lexer.scanAt (ch :: rest)).1.token with
        | none => rfl
        | some tok => rfl
      · exact fun heof => absurd heof scanAt_kind.left

end Lexing

/-!
# Copies from the buffer
-/

section Copies

variable {mem : Memory} {stop p q k : Nat}

theorem ofNat_succ (p : Nat) : UInt32.ofNat p + 1 = UInt32.ofNat (p + 1) :=
  (UInt32.ofNat_add p 1).symm

theorem ofNat_ne (hlt : p < q) (hq : q < UInt32.size) : UInt32.ofNat p ≠ UInt32.ofNat q := by
  intro heq
  have hnat := congrArg UInt32.toNat heq
  rw [UInt32.toNat_ofNat_of_lt' (Nat.lt_trans hlt hq), UInt32.toNat_ofNat_of_lt' hq] at hnat
  exact Nat.ne_of_lt hlt hnat

/-- The loop of `copy_peek_string` on bytes that lie in the address space. -/
theorem copyFrom_textAt (hq : q < UInt32.size) (k : Nat) : forall p : Nat, p ≤ q -> q - p < k ->
    Scan.copyFrom mem (UInt32.ofNat q) k (UInt32.ofNat p) =
      some (copyPeekString (Scan.textAt mem q p)) := by
  induction k with
  | zero => exact fun _ _ hk => absurd hk (Nat.not_lt_zero _)
  | succ k ih =>
      intro p hle hk
      rw [Scan.copyFrom]
      rcases Nat.eq_or_lt_of_le hle with heq | hlt
      · rw [heq, if_neg (not_not_intro rfl), Scan.textAt_stop]
        rfl
      · have hread : forall r, r < q -> mem (UInt32.ofNat r).toNat = mem r :=
          fun r hr => congrArg mem (UInt32.toNat_ofNat_of_lt' (Nat.lt_trans hr hq))
        rw [if_pos (ofNat_ne hlt hq), ofNat_succ, hread p hlt, Scan.textAt_cons hlt]
        rcases Nat.eq_or_lt_of_le (Nat.succ_le_of_lt hlt) with hlast | hmore
        · have hend : p + 1 = q := hlast
          rw [hend, if_neg (fun hboth => hboth.right rfl)]
          dsimp only
          rw [ofNat_succ, hend, ih q (Nat.le_refl q) (by lia), hread p hlt, Scan.textAt_stop]
          rfl
        · cases Classical.em (mem p = backslash) with
          | inl hslash =>
              rw [if_pos ⟨hslash, ofNat_ne hmore hq⟩]
              dsimp only
              rw [ofNat_succ, ih (p + 1 + 1) hmore (by lia), hread (p + 1) hmore,
                Scan.textAt_cons hmore, hslash, copyPeekString_backslash]
              rfl
          | inr hplain =>
              rw [if_neg (fun hboth => hplain hboth.left)]
              dsimp only
              rw [ofNat_succ, ih (p + 1) (Nat.le_of_lt hmore) (by lia), hread p hlt,
                copyPeekString_plain hplain]
              rfl

theorem take_textAt (n : Nat) : forall p : Nat, p + n ≤ stop ->
    (Scan.textAt mem stop p).take n = Scan.textAt mem (p + n) p := by
  induction n with
  | zero =>
      intro p _
      rw [List.take_zero, Nat.add_zero, Scan.textAt_stop]
  | succ n ih =>
      intro p hle
      rw [Scan.textAt_cons (by lia), Scan.textAt_cons (Nat.lt_add_of_pos_right (Nat.succ_pos n)),
        List.take_succ_cons, ih (p + 1) (by lia), Nat.add_right_comm p 1 n]
      rfl

theorem copyPeekString_shown {sh : Scan.ShellEx} {text : Text} {len : Int}
    (hstop : stop < UInt32.size) (hk : stop < k)
    (hshows : Scan.Shows mem stop sh.peek (Lexer.Peek.string text len))
    (hproper : 0 ≤ len ∧ len ≤ (text.length : Int)) :
    Scan.copyPeekString mem k sh = some (copyPeekString (text.take len.toNat)) := by
  rcases hshows with ⟨-, htext, hlen⟩
  rcases Int.eq_ofNat_of_zero_le hproper.left with ⟨n, hn⟩
  have hroom : n ≤ stop - sh.peek.p := by
    have hle := hproper.right
    rw [← htext, Scan.length_textAt, hn] at hle
    exact Int.ofNat_le.mp hle
  have hlast : UInt32.ofNat sh.peek.p + UInt32.ofInt sh.peek.len =
      UInt32.ofNat (sh.peek.p + n) := by
    have hsmall : n < UInt32.size := by lia
    rw [hlen, hn, UInt32.ofNat_add]
    congr 1
    unfold UInt32.ofInt
    congr 1
    exact congrArg Int.toNat (Int.emod_eq_of_lt (Int.natCast_nonneg n) (by exact_mod_cast hsmall))
  unfold Scan.copyPeekString
  dsimp only
  rw [hlast, hn, ← htext]
  cases n with
  | zero =>
      cases k with
      | zero => exact absurd hk (Nat.not_lt_zero _)
      | succ k =>
          rw [Nat.add_zero, Scan.copyFrom, if_neg (not_not_intro rfl)]
          rfl
  | succ n =>
      rw [copyFrom_textAt (by lia) k _ (Nat.le_add_right _ _) (by lia)]
      exact congrArg (fun bytes => some (copyPeekString bytes)) (take_textAt _ _ (by lia)).symm

end Copies

/-!
# The buffer and its tokens
-/

def Scan.Message.complaint : Scan.Message -> Complaint
  | Scan.Message.unexpected _ => Complaint.unexpected
  | Scan.Message.expectedPath => Complaint.expectedPath
  | Scan.Message.missingParen => Complaint.missingParen
  | Scan.Message.tooManyArguments => Complaint.tooManyArguments

def Report.complaint : Report -> Complaint
  | Report.unexpected _ => Complaint.unexpected
  | Report.expectedPath => Complaint.expectedPath
  | Report.missingParen => Complaint.missingParen
  | Report.tooManyArguments => Complaint.tooManyArguments

/-- The shell stands in its buffer before the tokens of the list. -/
structure Ahead (mem : Memory) (buf stop : Nat) (before : List Complaint) (ps : Parser)
    (sh : Scan.ShellEx) : Prop where
  low : buf ≤ sh.p
  high : sh.p ≤ stop
  whole : Lexer.Whole (Scan.textAt mem stop sh.p)
  peek : exists t, Scan.Shows mem stop sh.peek t ∧ t.Proper ∧
    ps.rest = t.token.toList ++ tokensOf (Scan.textAt mem stop sh.p) ∧
    (t = Lexer.Peek.eof -> tokensOf (Scan.textAt mem stop sh.p) = [])
  reports : sh.messages.map Scan.Message.complaint = before ++ ps.reports.map Report.complaint

section Buffers

variable {mem : Memory} {buf stop k : Nat} {before : List Complaint} {ps : Parser}
  {sh : Scan.ShellEx}

/-- Behind a call of `scan_tok` the shell stands before the tokens of the text. -/
theorem scanTok_ahead (h : Scan.Terminated mem buf stop) (hlow : buf ≤ sh.p) (hhigh : sh.p ≤ stop)
    (hk : stop - sh.p < k) (hwhole : Lexer.Whole (Scan.textAt mem stop sh.p))
    (hrest : ps.rest = tokensOf (Scan.textAt mem stop sh.p))
    (hreports : sh.messages.map Scan.Message.complaint =
      before ++ ps.reports.map Report.complaint) :
    exists sh', (Scan.bufferSource mem k).advance sh = some sh' ∧
      Ahead mem buf stop before ps sh' := by
  rcases Scan.scanTok_scanned h hlow hhigh hk with ⟨r, hrun, hscanned⟩
  have htakes := hwhole.takes
  refine ⟨r.2, congrArg (Option.map Prod.snd) hrun, ?_⟩
  constructor
  · exact Nat.le_trans hlow hscanned.low
  · exact hscanned.high
  · rw [hscanned.left]
    exact htakes.whole
  · rw [hscanned.left]
    exact ⟨_, hscanned.shows, htakes.proper, hrest.trans htakes.tokens, htakes.eof⟩
  · rw [hscanned.messages]
    exact hreports

theorem Ahead.peek_eq (h : Ahead mem buf stop before ps sh) : ps.peekType = sh.peek.type := by
  rcases h.peek with ⟨t, hshows, -, hrest, heof⟩
  unfold Parser.peekType Parser.peek
  rw [hrest]
  cases t with
  | eof =>
      rw [heof rfl]
      exact hshows.symm
  | operator tok => exact hshows.symm
  | string p len => exact hshows.left.symm

theorem bufferSource_simulates (h : Scan.Terminated mem buf stop) (hstop : stop < UInt32.size)
    (hk : stop < k) :
    listSource.Simulates (Scan.bufferSource mem k) (Ahead mem buf stop before) where
  peek ps sh hrel := hrel.peek_eq
  advance := by
    intro ps sh hrel hpeek ps' hadvance
    cases hadvance
    rcases hrel.peek with ⟨t, hshows, -, hrest, -⟩
    have hlow := hrel.low
    have htail : ps.advance.rest = tokensOf (Scan.textAt mem stop sh.p) := by
      show ps.rest.tail = _
      rw [hrest]
      cases t with
      | eof => exact absurd (hrel.peek_eq.trans hshows) hpeek
      | operator tok => rfl
      | string p len => rfl
    exact scanTok_ahead h hlow hrel.high (by lia) hrel.whole htail hrel.reports
  copyPeekString := by
    intro ps sh hrel hpeek text hcopy
    rcases hrel.peek with ⟨t, hshows, hproper, hrest, -⟩
    have htype : sh.peek.type = Scan.TokenType.string := hrel.peek_eq.symm.trans hpeek
    cases t with
    | eof =>
        rw [show sh.peek.type = _ from hshows] at htype
        cases htype
    | operator tok =>
        rw [show sh.peek.type = _ from hshows] at htype
        cases tok with
        | string text => exact absurd rfl (hproper text)
        | _ => cases htype
    | string p len =>
        have hcopied := copyPeekString_shown hstop hk hshows hproper
        rw [← hcopy]
        show Scan.copyPeekString mem k sh = listSource.copyPeekString ps
        rw [hcopied]
        unfold listSource Parser.peek
        dsimp only
        rw [hrest]
        rfl
  reportError := by
    intro c ps sh hrel
    constructor
    · exact hrel.low
    · exact hrel.high
    · exact hrel.whole
    · exact hrel.peek
    · show (sh.messages ++ [_]).map _ = before ++ (ps.reports ++ [_]).map _
      rw [List.map_append, List.map_append, ← List.append_assoc, hrel.reports]
      cases c with
      | unexpected => rfl
      | expectedPath => rfl
      | missingParen => rfl
      | tooManyArguments => rfl

theorem peekType_eof (ps : Parser) : ps.peekType = Scan.TokenType.eof <-> ps.peek = none := by
  unfold Parser.peekType
  cases ps.peek with
  | none => exact ⟨fun _ => rfl, fun _ => rfl⟩
  | some tok =>
      constructor
      · intro heof
        exact absurd heof (Scan.typeOf_ne_eof tok)
      · intro hnone
        cases hnone

theorem listSource_parseAll (ts : List Token) :
    listSource.parseAll (5 * ts.length + 5) ⟨ts, []⟩ = shParse ts := by
  have hagree : listSource.parseCmd (5 * ts.length + 5) ⟨ts, []⟩ =
      parseCmd (5 * ts.length + 5) ⟨ts, []⟩ :=
    allAgree _ NonTerminal.cmd ⟨ts, []⟩ (Nat.le_refl _)
  unfold TokenSource.parseAll shParse
  rw [hagree]
  cases hrun : parseCmd (5 * ts.length + 5) ⟨ts, []⟩ with
  | none => rfl
  | some r =>
      rcases r with ⟨value, ps⟩
      cases value with
      | none => rfl
      | some cmd =>
          have hpeek : listSource.peek ps = Scan.TokenType.eof <-> ps.peek = none := peekType_eof ps
          simp only [Option.bind_eq_bind, Option.bind_some, hpeek]
          rfl

theorem shParse_isSome (ts : List Token) : exists value ps, shParse ts = some (value, ps) := by
  have hends : TokenSource.Ends (fun _ => True) (fun sh : Parser => sh.rest.length) ts.length
      (listSource.parseAll (5 * ts.length + 5) ⟨ts, []⟩) :=
    listSource_runsOut.ends_parseAll trivial (Nat.le_refl _)
  rcases hends with ⟨value, ps, hrun, -, -⟩
  rw [listSource_parseAll] at hrun
  exact ⟨value, ps, hrun⟩

/--
On a line without open quotes the parser over the buffer gives the command that the parser over
the tokens of its text gives, with the same kinds of messages.
-/
theorem shParse_tokens (h : Scan.Terminated mem buf stop) (hstop : stop < UInt32.size)
    (hwhole : Lexer.Whole (Scan.textAt mem stop buf)) (hk : 5 * stop + 10 ≤ k)
    (sh : Scan.ShellEx) :
    exists value sh' ps, Scan.shParse mem buf k sh = some (value, sh') ∧
      shParse (tokensOf (Scan.textAt mem stop buf)) = some (value, ps) ∧
      sh'.messages.map Scan.Message.complaint =
        sh.messages.map Scan.Message.complaint ++ ps.reports.map Report.complaint := by
  have hrounds : 5 * (tokensOf (Scan.textAt mem stop buf)).length + 5 ≤ k := by
    have hlen := length_tokensOf (Scan.textAt mem stop buf)
    rw [Scan.length_textAt] at hlen
    lia
  rcases shParse_isSome (tokensOf (Scan.textAt mem stop buf)) with ⟨value, ps, hparse⟩
  have hstart : exists sh1,
      (Scan.bufferSource mem k).advance { sh with p := buf } = some sh1 ∧
      Ahead mem buf stop (sh.messages.map Scan.Message.complaint)
        ⟨tokensOf (Scan.textAt mem stop buf), []⟩ sh1 :=
    scanTok_ahead h (Nat.le_refl buf) h.le (by lia) hwhole rfl (List.append_nil _).symm
  rcases hstart with ⟨sh1, hadvance, hahead⟩
  have hlist := hparse
  rw [← listSource_parseAll] at hlist
  have hroom : stop < k := by lia
  rcases (bufferSource_simulates h hstop hroom).parseAll hrounds hahead value ps hlist with
    ⟨sh', hrun, hrel⟩
  refine ⟨value, sh', ps, ?_, hparse, hrel.reports⟩
  rw [Scan.shParse, hadvance]
  exact hrun

/-- `a "b c" >> d` and a comment with a quote in it. -/
theorem shParse_tokens_quoted : exists value sh' ps,
    Scan.shParse (Scan.bufferOf [0x61, 0x20, 0x22, 0x62, 0x20, 0x63, 0x22, 0x3e, 0x3e, 0x64, 0x23,
      0x27]) 0 70 ⟨0, ⟨Scan.TokenType.eof, 0, 0⟩, []⟩ = some (value, sh') ∧
    shParse (tokensOf (Scan.textAt (Scan.bufferOf [0x61, 0x20, 0x22, 0x62, 0x20, 0x63, 0x22, 0x3e,
      0x3e, 0x64, 0x23, 0x27]) 12 0)) = some (value, ps) ∧
    sh'.messages.map Scan.Message.complaint = [] ++ ps.reports.map Report.complaint := by
  have hwhole : Lexer.Whole (Scan.textAt (Scan.bufferOf [0x61, 0x20, 0x22, 0x62, 0x20, 0x63, 0x22,
      0x3e, 0x3e, 0x64, 0x23, 0x27]) 12 0) :=
    (Lexer.whole_iff _).mpr (by decide +kernel)
  exact shParse_tokens (Scan.terminated_bufferOf (by decide)) (by decide) hwhole (by decide) _

end Buffers

end Shell
end NicoOS
