import NicoOS.Shell.Grammar

/-!
# What the parser rejects

`NULL` stands for an empty command and for an error.  The right operand of `;` and `&` may
be empty, so an error in it is taken for the end of the command; and a group without a
command makes its whole pipeline `NULL`, without a message.
-/

namespace NicoOS
namespace Shell

open NonTerminal

/-- What `sh_parse` returns is derivable, and it returns nothing only with a message. -/
def RejectsRest (ts : List Token) : Prop :=
  exists value sh, shParse ts = some (value, sh) ∧
    (value ≠ none -> exists tree, Derives false cmd ts tree) ∧
    (value = none -> ts = [] ∨ sh.reports ≠ [])

/-- The list begins with no command, or with a pipeline that ends in an empty group. -/
def Dropped (ts : List Token) : Prop :=
  (exists t rest, ts = t :: rest ∧ t.starts = false) ∨
    exists ends pre rest, ts = pre ++ rest ∧ Reads list ends pre none false

/-- The list is complete up to errors behind `;` or `&` that leave it with a command. -/
def Cut (ts : List Token) : Prop := exists c, Reads cmd true ts (some c) true

/-!
# Empty groups
-/

/-- A pipeline that ends in an empty group is `NULL`, whatever follows. -/
theorem Reads.parses_void {nt : NonTerminal} {ends noisy : Bool} {ts : List Token}
    {value : Option Cmd} (h : Reads nt ends ts value noisy) :
    value = none -> noisy = false -> nt ≠ cmd -> forall rest, Parses nt ts rest none false := by
  induction h with
  | exec => exact fun hnone => nomatch hnone
  | group hinner _ =>
      intro hnone hquiet _ rest
      rw [hnone, hquiet] at hinner
      exact Parses.group (hinner.parses _ (fun hf => nomatch hf) (endsBefore_cons rfl))
  | leftOpen => exact fun _ hquiet => nomatch hquiet
  | missing => exact fun _ hquiet => nomatch hquiet
  | bare _ ih =>
      intro hnone hquiet _ rest
      exact Parses.bare (ih hnone hquiet (by decide) rest) (fun hne => absurd rfl hne)
  | redir => exact fun hnone => nomatch hnone
  | noPath => exact fun _ hquiet => nomatch hquiet
  | single _ ih =>
      intro hnone hquiet _ rest
      exact Parses.single (ih hnone hquiet (by decide) rest) (fun hne => absurd rfl hne)
  | join hleft hop _ _ ihr =>
      intro hnone hquiet _ rest
      rcases Bool.or_eq_false_iff.mp hquiet with ⟨hl, hr⟩
      rw [hl] at hleft
      have hright := ihr (Option.map_eq_none_iff.mp hnone) hr (by decide) rest
      have hjoined := Parses.join
        (hleft.parses _ (fun hf => nomatch hf) (endsBefore_cons (follows_binary_op hop))) hop hright
      exact hjoined
  | last _ ih =>
      intro hnone hquiet _ rest
      exact Parses.last (ih hnone hquiet (by decide) rest) (fun hne => absurd rfl hne)
  | next => exact fun hnone => nomatch hnone
  | empty => exact fun _ _ hne => absurd rfl hne
  | full => exact fun _ _ hne => absurd rfl hne

/-!
# Derivable lists
-/

def Closed (rest : List Token) : Prop := rest = [] ∨ exists us, rest = Token.rparen :: us

def NonTerminal.Below (nt : NonTerminal) : Prop := nt ≠ cmd ∧ nt ≠ list

instance (nt : NonTerminal) : Decidable nt.Below := inferInstanceAs (Decidable (_ ∧ _))

theorem not_closed_cons {t : Token} {us : List Token} (h : t ≠ Token.rparen) :
    Not (Closed (t :: us)) := by
  intro hor
  rcases hor with hnil | ⟨vs, hcons⟩
  · cases hnil
  · exact h (List.cons.inj hcons).left

theorem not_closed_peek {rest : List Token} {reports : List Report} (h : Not (Closed rest)) :
    Parser.peek ⟨rest, reports⟩ ≠ some Token.rparen := by
  intro hpeek
  cases rest with
  | nil => cases hpeek
  | cons t us =>
      apply h
      exact Or.inr ⟨us, by rw [Option.some.inj hpeek]⟩

theorem Derives.starts {strict : Bool} {nt : NonTerminal} {ts : List Token}
    {tree : Option Cmd} (h : Derives strict nt ts tree) :
    nt ≠ cmd -> exists t rest, ts = t :: rest ∧ t.starts = true := by
  have happend : forall {ts us : List Token},
      (exists t rest, ts = t :: rest ∧ t.starts = true) ->
      exists t rest, ts ++ us = t :: rest ∧ t.starts = true := by
    intro ts us hex
    rcases hex with ⟨t, rest, hts, hstarts⟩
    exact ⟨t, rest ++ us, by rw [hts]; rfl, hstarts⟩
  induction h with
  | exec texts hne _ =>
      intro _
      cases texts with
      | nil => exact absurd rfl hne
      | cons text texts => exact ⟨_, _, rfl, rfl⟩
  | group => exact fun _ => ⟨_, _, rfl, rfl⟩
  | redir _ _ _ ih => exact fun _ => happend (ih (by decide))
  | single _ ih => exact fun _ => ih (by decide)
  | join _ _ _ ih _ => exact fun _ => happend (ih (by decide))
  | last _ ih => exact fun _ => ih (by decide)
  | next _ _ _ ih _ => exact fun _ => happend (ih (by decide))
  | empty => exact fun hne => absurd rfl hne
  | full => exact fun hne => absurd rfl hne

/-- Where the parser is behind a derivable phrase: at its end, or before a token that sticks. -/
def Passes (nt : NonTerminal) (ts rest : List Token) : Prop :=
  forall (k : Nat) (reports : List Report), 5 * ts.length + nt.rank ≤ k ->
    exists value rest' new,
      nt.parse k ⟨ts ++ rest, reports⟩ = some (value, ⟨rest', reports ++ new⟩) ∧
      (rest' = rest ∧ new = [] ∨ Not (Closed rest') ∧ (nt.Below -> value = none))

section Passes

variable {ts us rest : List Token} {t : Token}

theorem execFrom_tooMany (texts : List Text) (rest : List Token) (reports : List Report) :
    forall argv : List Text,
    argv.length < maxArgv -> maxArgv ≤ argv.length + texts.length ->
    exists text us, execFrom argv (texts.map Token.string ++ rest) reports =
      (none, ⟨Token.string text :: us, reports ++ [Report.tooManyArguments]⟩) := by
  induction texts with
  | nil =>
      intro argv hlt hmany
      rw [List.length_nil] at hmany
      omega
  | cons text texts ih =>
      intro argv hlt hmany
      rw [List.length_cons] at hmany
      rw [List.map_cons, List.cons_append, execFrom]
      split
      · exact ⟨text, _, rfl⟩
      · apply ih
        · rw [List.length_append, List.length_singleton]
          omega
        · rw [List.length_append, List.length_singleton]
          omega

theorem Passes.exec (texts : List Text) (hne : texts ≠ []) (hrest : EndsBefore primary rest) :
    Passes primary (texts.map Token.string) rest := by
  intro k reports hk
  by_cases hlen : texts.length < maxArgv
  · rcases Parses.exec texts hlen hne hrest k reports hk with ⟨new, hrun, hnew⟩
    have hnil : new = [] := by
      by_contra hne
      exact Bool.false_ne_true (hnew.mpr hne)
    exact ⟨_, rest, new, hrun, Or.inl ⟨rfl, hnil⟩⟩
  · cases k with
    | zero => exact absurd hk (by simp [NonTerminal.rank])
    | succ k =>
        rcases execFrom_tooMany texts rest reports [] (by decide)
          (by rw [List.length_nil]; omega) with ⟨text, us, hexec⟩
        refine ⟨none, Token.string text :: us, [Report.tooManyArguments], ?_,
          Or.inr ⟨?_, fun _ => rfl⟩⟩
        · show parsePrimary (k + 1) _ = _
          cases texts with
          | nil => exact absurd rfl hne
          | cons first texts =>
              rw [parsePrimary]
              exact congrArg some hexec
        · apply not_closed_cons
          intro heq
          cases heq

theorem Passes.group (h : Passes cmd ts (Token.rparen :: rest)) :
    Passes primary (Token.lparen :: ts ++ [Token.rparen]) rest := by
  intro k reports hk
  cases k with
  | zero => exact absurd hk (by simp [NonTerminal.rank])
  | succ k =>
      have hlen : (Token.lparen :: ts ++ [Token.rparen]).length = ts.length + 2 := by simp
      have htokens : Token.lparen :: ts ++ [Token.rparen] ++ rest =
          Token.lparen :: (ts ++ Token.rparen :: rest) := by simp
      rw [hlen] at hk
      rw [htokens]
      rcases h k reports (by simp only [NonTerminal.rank] at hk ⊢; omega) with
        ⟨value, rest', new, hrun, ⟨hend, hnew⟩ | ⟨hstuck, -⟩⟩
      · rw [hend] at hrun
        exact ⟨value, rest, new, parsePrimary_group hrun, Or.inl ⟨rfl, hnew⟩⟩
      · have hopen := parsePrimary_open hrun (not_closed_peek hstuck)
        refine ⟨none, rest', new ++ [Report.missingParen], ?_, Or.inr ⟨hstuck, fun _ => rfl⟩⟩
        rw [<- List.append_assoc]
        exact hopen

theorem Passes.redirs (rs : List (Token × Text)) (h : Passes primary ts (redirTokens rs ++ rest))
    (hops : forall r, r ∈ rs -> r.1.isRedir = true) (hrest : EndsBefore redir rest) :
    Passes redir (ts ++ redirTokens rs) rest := by
  intro k reports hk
  cases k with
  | zero => exact absurd hk (by simp [NonTerminal.rank])
  | succ k =>
      rw [List.length_append] at hk
      rw [List.append_assoc]
      rcases h k reports (by simp only [NonTerminal.rank] at hk ⊢; omega) with
        ⟨value, rest', new, hrun, ⟨hend, hnew⟩ | ⟨hstuck, hnone⟩⟩
      · rw [hend] at hrun
        cases value with
        | none =>
            refine ⟨none, _, new, parseRedir_none hrun, ?_⟩
            cases rs with
            | nil => exact Or.inl ⟨rfl, hnew⟩
            | cons r rs =>
                right
                refine ⟨not_closed_cons ?_, fun _ => rfl⟩
                intro heq
                have hop := hops r List.mem_cons_self
                rw [heq] at hop
                cases hop
        | some c =>
            refine ⟨some (redirAll c rs), rest, new, (parseRedir_some hrun).trans ?_,
              Or.inl ⟨rfl, hnew⟩⟩
            rw [redirFrom_chain rs c hops, redirFrom_stop _ _ hrest.isRedir]
      · rw [hnone (by decide)] at hrun
        exact ⟨none, rest', new, parseRedir_none hrun, Or.inr ⟨hstuck, fun _ => rfl⟩⟩

theorem Passes.single (h : Passes redir ts rest) (hrest : EndsBefore binary rest) :
    Passes binary ts rest := by
  intro k reports hk
  cases k with
  | zero => exact absurd hk (by simp [NonTerminal.rank])
  | succ k =>
      rcases h k reports (by simp only [NonTerminal.rank] at hk ⊢; omega) with
        ⟨value, rest', new, hrun, ⟨hend, hnew⟩ | ⟨hstuck, hnone⟩⟩
      · rw [hend] at hrun
        cases value with
        | none => exact ⟨none, rest, new, parseBinary_none hrun, Or.inl ⟨rfl, hnew⟩⟩
        | some c => exact ⟨_, rest, new, parseBinary_stop hrun hrest.isBinary, Or.inl ⟨rfl, hnew⟩⟩
      · rw [hnone (by decide)] at hrun
        exact ⟨none, rest', new, parseBinary_none hrun, Or.inr ⟨hstuck, fun _ => rfl⟩⟩

theorem Passes.join (h : Passes NonTerminal.redir ts (t :: (us ++ rest)))
    (hop : t.isBinary = true) (hright : Passes binary us rest) :
    Passes binary (ts ++ t :: us) rest := by
  intro k reports hk
  cases k with
  | zero => exact absurd hk (by simp [NonTerminal.rank])
  | succ k =>
      rw [List.length_append, List.length_cons] at hk
      rw [List.append_assoc]
      have hparen : t ≠ Token.rparen := by
        intro heq
        rw [heq] at hop
        cases hop
      rcases h k reports (by simp only [NonTerminal.rank] at hk ⊢; omega) with
        ⟨value, rest', new, hrun, ⟨hend, hnew⟩ | ⟨hstuck, hnone⟩⟩
      · rw [hend] at hrun
        cases value with
        | none =>
            exact ⟨none, _, new, parseBinary_none hrun,
              Or.inr ⟨not_closed_cons hparen, fun _ => rfl⟩⟩
        | some c =>
            rcases hright k (reports ++ new) (by simp only [NonTerminal.rank] at hk ⊢; omega) with
              ⟨value', rest'', new', hrun', hpass⟩
            refine ⟨value'.map (fun d => joined t c d), rest'', new ++ new', ?_, ?_⟩
            · rw [<- List.append_assoc reports]
              exact parseBinary_join hrun hop hrun'
            · rcases hpass with ⟨hend', hnew'⟩ | ⟨hstuck, hnone⟩
              · exact Or.inl ⟨hend', by rw [hnew, hnew']; rfl⟩
              · right
                refine ⟨hstuck, fun _ => ?_⟩
                rw [hnone (by decide)]
                rfl
      · rw [hnone (by decide)] at hrun
        exact ⟨none, rest', new, parseBinary_none hrun, Or.inr ⟨hstuck, fun _ => rfl⟩⟩

theorem Passes.last (h : Passes binary ts rest) (hrest : EndsBefore list rest) :
    Passes list ts rest := by
  intro k reports hk
  cases k with
  | zero => exact absurd hk (by simp [NonTerminal.rank])
  | succ k =>
      rcases h k reports (by simp only [NonTerminal.rank] at hk ⊢; omega) with
        ⟨value, rest', new, hrun, ⟨hend, hnew⟩ | ⟨hstuck, hnone⟩⟩
      · rw [hend] at hrun
        cases value with
        | none => exact ⟨none, rest, new, parseList_none hrun, Or.inl ⟨rfl, hnew⟩⟩
        | some c => exact ⟨_, rest, new, parseList_stop hrun hrest.isList, Or.inl ⟨rfl, hnew⟩⟩
      · rw [hnone (by decide)] at hrun
        exact ⟨none, rest', new, parseList_none hrun, Or.inr ⟨hstuck, fun _ => rfl⟩⟩

theorem Passes.next (h : Passes binary ts (t :: (us ++ rest))) (hop : t.isList = true)
    (hright : Passes cmd us rest) : Passes list (ts ++ t :: us) rest := by
  intro k reports hk
  cases k with
  | zero => exact absurd hk (by simp [NonTerminal.rank])
  | succ k =>
      rw [List.length_append, List.length_cons] at hk
      rw [List.append_assoc]
      have hparen : t ≠ Token.rparen := by
        intro heq
        rw [heq] at hop
        cases hop
      rcases h k reports (by simp only [NonTerminal.rank] at hk ⊢; omega) with
        ⟨value, rest', new, hrun, ⟨hend, hnew⟩ | ⟨hstuck, hnone⟩⟩
      · rw [hend] at hrun
        cases value with
        | none =>
            exact ⟨none, _, new, parseList_none hrun,
              Or.inr ⟨not_closed_cons hparen, fun _ => rfl⟩⟩
        | some c =>
            rcases hright k (reports ++ new) (by simp only [NonTerminal.rank] at hk ⊢; omega) with
              ⟨value', rest'', new', hrun', hpass⟩
            refine ⟨some (listed t c value'), rest'', new ++ new', ?_, ?_⟩
            · rw [<- List.append_assoc reports]
              exact parseList_next hrun hop hrun'
            · rcases hpass with ⟨hend', hnew'⟩ | ⟨hstuck, -⟩
              · exact Or.inl ⟨hend', by rw [hnew, hnew']; rfl⟩
              · exact Or.inr ⟨hstuck, fun hbelow => absurd rfl hbelow.right⟩
      · rw [hnone (by decide)] at hrun
        exact ⟨none, rest', new, parseList_none hrun, Or.inr ⟨hstuck, fun _ => rfl⟩⟩

theorem Passes.empty (hrest : EndsBefore cmd rest) : Passes cmd [] rest := by
  intro k reports hk
  rcases Parses.empty hrest k reports hk with ⟨new, hrun, hnew⟩
  have hnil : new = [] := by
    by_contra hne
    exact Bool.false_ne_true (hnew.mpr hne)
  exact ⟨none, rest, new, hrun, Or.inl ⟨rfl, hnil⟩⟩

theorem Passes.full (h : Passes list ts rest)
    (hstarts : exists t us, ts = t :: us ∧ t.starts = true) : Passes cmd ts rest := by
  intro k reports hk
  cases k with
  | zero => exact absurd hk (by simp [NonTerminal.rank])
  | succ k =>
      rcases h k reports (by simp only [NonTerminal.rank] at hk ⊢; omega) with
        ⟨value, rest', new, hrun, hpass⟩
      rcases hstarts with ⟨t, us, hts, hstarts⟩
      have hpeek : Parser.peek ⟨ts ++ rest, reports⟩ = some t := by
        rw [hts]
        rfl
      refine ⟨value, rest', new, (parseCmd_starts hpeek hstarts).trans hrun, ?_⟩
      rcases hpass with hend | ⟨hstuck, -⟩
      · exact Or.inl hend
      · exact Or.inr ⟨hstuck, fun hbelow => absurd rfl hbelow.left⟩

end Passes

theorem Derives.passes {strict : Bool} {nt : NonTerminal} {ts : List Token}
    {tree : Option Cmd} (h : Derives strict nt ts tree) :
    forall rest, EndsBefore nt rest -> Passes nt ts rest := by
  induction h with
  | exec texts hne _ => exact fun rest hrest => Passes.exec texts hne hrest
  | group _ _ ih => exact fun rest _ => Passes.group (ih _ (endsBefore_cons rfl))
  | redir rs _ hops ih =>
      intro rest hrest
      apply Passes.redirs rs (ih _ _) hops hrest
      cases rs with
      | nil => exact hrest.primary_of_redir
      | cons r rs => exact endsBefore_cons (follows_redir_op (hops r List.mem_cons_self))
  | single _ ih => exact fun rest hrest => Passes.single (ih rest hrest.redir_of_binary) hrest
  | join _ hop _ ihl ihr =>
      intro rest hrest
      exact Passes.join (ihl _ (endsBefore_cons (follows_binary_op hop))) hop (ihr rest hrest)
  | last _ ih => exact fun rest hrest => Passes.last (ih rest hrest.binary_of_list) hrest
  | next _ hop _ ihl ihr =>
      intro rest hrest
      have hcmd : EndsBefore cmd rest := hrest.mono (fun _ ht => ht)
      exact Passes.next (ihl _ (endsBefore_cons (follows_list_op hop))) hop (ihr rest hcmd)
  | empty => exact fun rest hrest => Passes.empty hrest
  | full hlist ih =>
      exact fun rest hrest =>
        Passes.full (ih rest hrest.list_of_cmd) (hlist.starts (by decide))

theorem Derives.not_cut {ts : List Token} {tree : Option Cmd}
    (h : Derives false cmd ts tree) : Not (Cut ts) := by
  intro hex
  rcases hex with ⟨c, hreads⟩
  have hparses := hreads.parses [] (fun _ => rfl) (endsBefore_nil _)
  rcases hparses _ [] (Nat.le_refl _) with ⟨new, hrun, hnew⟩
  rcases h.passes [] (endsBefore_nil _) _ [] (Nat.le_refl _) with
    ⟨value, rest', new', hrun', ⟨-, hnil⟩ | ⟨hstuck, -⟩⟩
  · have hsame := hrun.symm.trans hrun'
    have hreports := congrArg Parser.reports (Prod.mk.inj (Option.some.inj hsame)).right
    apply hnew.mp rfl
    have heq : new = new' := List.append_cancel_left hreports
    rw [heq, hnil]
  · have hsame := hrun.symm.trans hrun'
    have hrest := congrArg Parser.rest (Prod.mk.inj (Option.some.inj hsame)).right
    exact hstuck (Or.inl hrest.symm)

/-!
# Every input
-/

/--
Either the parser has read a phrase, and sticks before no other token unless it has a command
or a silent `NULL`; or it sticks before a token that is no end.
-/
def Verdict (nt : NonTerminal) (ts rest : List Token) (value : Option Cmd) (noisy : Bool) :
    Prop :=
  (exists pre, ts = pre ++ rest ∧ Reads nt rest.isEmpty pre value noisy ∧
    (Closed rest ∨ value = none ∧ noisy = false ∨ nt.Below ∧ value ≠ none)) ∨
    (Not (Closed rest) ∧ (value = none -> noisy = true) ∧ (nt.Below -> value = none))

def Judged (k : Nat) (nt : NonTerminal) (ts : List Token) : Prop :=
  forall reports, 5 * ts.length + nt.rank ≤ k -> exists value rest new,
    nt.parse k ⟨ts, reports⟩ = some (value, ⟨rest, reports ++ new⟩) ∧ rest.length ≤ ts.length ∧
      Verdict nt ts rest value (!new.isEmpty)

section Judged

variable {k : Nat} {ts rest pre : List Token} {value : Option Cmd} {noisy : Bool}
  {nt : NonTerminal}

theorem noisy_of_append (new new' : List Report) :
    (!(new ++ new').isEmpty) = (!new.isEmpty || !new'.isEmpty) := by
  cases new with
  | nil => rfl
  | cons r new => rfl

/-- A phrase that was read gives a verdict, whatever is ahead. -/
theorem Reads.verdict (h : Reads nt rest.isEmpty pre value noisy) (hbelow : nt.Below)
    (hts : ts = pre ++ rest) : Verdict nt ts rest value noisy := by
  by_cases hclosed : Closed rest
  · exact Or.inl ⟨pre, hts, h, Or.inl hclosed⟩
  · cases value with
    | some c => exact Or.inl ⟨pre, hts, h, Or.inr (Or.inr ⟨hbelow, Option.some_ne_none c⟩)⟩
    | none =>
        cases noisy with
        | false => exact Or.inl ⟨pre, hts, h, Or.inr (Or.inl ⟨rfl, rfl⟩)⟩
        | true => exact Or.inr ⟨hclosed, fun _ => rfl, fun _ => rfl⟩

theorem Verdict.read {c : Cmd} (h : Verdict nt ts rest (some c) noisy) (hbelow : nt.Below) :
    exists pre, ts = pre ++ rest ∧ Reads nt rest.isEmpty pre (some c) noisy := by
  rcases h with ⟨pre, hts, hreads, -⟩ | ⟨-, -, hnone⟩
  · exact ⟨pre, hts, hreads⟩
  · cases hnone hbelow

/-- A phrase without a command is one of the next level, too. -/
theorem Verdict.lift {nt' : NonTerminal} (h : Verdict nt ts rest none noisy)
    (hlift : forall {pre}, Reads nt rest.isEmpty pre none noisy ->
      Reads nt' rest.isEmpty pre none noisy) : Verdict nt' ts rest none noisy := by
  rcases h with ⟨pre, hts, hreads, hend⟩ | ⟨hstuck, hnoisy, -⟩
  · left
    refine ⟨pre, hts, hlift hreads, ?_⟩
    rcases hend with hclosed | hquiet | ⟨-, hne⟩
    · exact Or.inl hclosed
    · exact Or.inr (Or.inl hquiet)
    · exact absurd rfl hne
  · exact Or.inr ⟨hstuck, hnoisy, fun _ => rfl⟩

theorem Reads.quiet_ne_nil {ends : Bool} (h : Reads nt ends ts value false) (hne : nt ≠ cmd) :
    ts ≠ [] :=
  (h.derives rfl).ne_nil hne

theorem judged_cmd (h : forall nt ts, Judged k nt ts) (ts : List Token) :
    Judged (k + 1) cmd ts := by
  intro reports hk
  cases ts with
  | nil =>
      refine ⟨none, [], [], ?_, Nat.le_refl _, Or.inl ⟨[], rfl, Reads.empty, Or.inl (Or.inl rfl)⟩⟩
      rw [List.append_nil]
      exact parseCmd_empty (k := k) peek_nil
  | cons t us =>
      cases hstarts : t.starts with
      | false =>
          refine ⟨none, t :: us, [], ?_, Nat.le_refl _,
            Or.inl ⟨[], rfl, Reads.empty, Or.inr (Or.inl ⟨rfl, rfl⟩)⟩⟩
          rw [List.append_nil]
          apply parseCmd_empty
          intro u hu
          cases hu
          exact hstarts
      | true =>
          rcases h list (t :: us) reports (by simp only [NonTerminal.rank] at hk ⊢; omega) with
            ⟨value, rest, new, hrun, hlen, hverdict⟩
          refine ⟨value, rest, new, (parseCmd_starts rfl hstarts).trans hrun, hlen, ?_⟩
          rcases hverdict with ⟨pre, hts, hreads, hend⟩ | ⟨hstuck, hnoisy, -⟩
          · left
            have hne : pre ≠ [] := by
              intro hnil
              rw [hnil] at hts hreads
              rw [List.nil_append] at hts
              have hnone : value = none := by
                by_contra hvalue
                rcases hreads.starts (Or.inr hvalue) with ⟨_, _, hcons, -⟩
                cases hcons
              rcases hend with hclosed | ⟨-, hquiet⟩ | ⟨hbelow, -⟩
              · rcases hclosed with hnil | ⟨vs, hcons⟩
                · rw [hnil] at hts
                  cases hts
                · rw [hcons] at hts
                  cases hts
                  cases hstarts
              · rw [hquiet] at hreads
                exact hreads.quiet_ne_nil (by decide) rfl
              · exact hbelow.right rfl
            refine ⟨pre, hts, Reads.full hne hreads, ?_⟩
            rcases hend with hclosed | hquiet | ⟨hbelow, -⟩
            · exact Or.inl hclosed
            · exact Or.inr (Or.inl hquiet)
            · exact absurd rfl hbelow.right
          · exact Or.inr ⟨hstuck, hnoisy, fun hbelow => absurd rfl hbelow.left⟩

/-- A list with a command is read where an end is ahead. -/
theorem list_verdict {c : Cmd} (hts : ts = pre ++ rest)
    (h : Closed rest -> Reads list rest.isEmpty pre (some c) noisy) :
    Verdict list ts rest (some c) noisy := by
  by_cases hclosed : Closed rest
  · exact Or.inl ⟨pre, hts, h hclosed, Or.inl hclosed⟩
  · exact Or.inr ⟨hclosed, fun hnone => absurd hnone (Option.some_ne_none _),
      fun hbelow => absurd rfl hbelow.right⟩

theorem judged_list (h : forall nt ts, Judged k nt ts) (ts : List Token) :
    Judged (k + 1) list ts := by
  intro reports hk
  rcases h binary ts reports (by simp only [NonTerminal.rank] at hk ⊢; omega) with
    ⟨value, rest, new, hrun, hlen, hverdict⟩
  cases value with
  | none => exact ⟨none, rest, new, parseList_none hrun, hlen, hverdict.lift Reads.last⟩
  | some c =>
      rcases hverdict.read (by decide) with ⟨pre, hts, hreads⟩
      cases rest with
      | nil =>
          refine ⟨some c, [], new, parseList_stop hrun peek_nil, hlen, ?_⟩
          exact list_verdict hts (fun _ => Reads.last hreads)
      | cons t us =>
          cases hop : t.isList with
          | false =>
              refine ⟨some c, t :: us, new, parseList_stop hrun ?_, hlen, ?_⟩
              · intro u hu
                cases hu
                exact hop
              · exact list_verdict hts (fun _ => Reads.last hreads)
          | true =>
              rw [List.length_cons] at hlen
              rcases h cmd us (reports ++ new) (by simp only [NonTerminal.rank] at hk ⊢; omega)
                with ⟨value', rest', new', hrun', hlen', hverdict'⟩
              refine ⟨some (listed t c value'), rest', new ++ new', ?_, by omega, ?_⟩
              · rw [<- List.append_assoc]
                exact parseList_next hrun hop hrun'
              · rw [noisy_of_append]
                rcases hverdict' with ⟨pre', hus, hreads', -⟩ | ⟨hstuck, -, -⟩
                · have hts' : ts = (pre ++ t :: pre') ++ rest' := by
                    rw [hts, hus, List.append_assoc]
                    rfl
                  exact list_verdict hts' (fun _ => Reads.next hreads hop hreads')
                · exact Or.inr ⟨hstuck, fun hnone => absurd hnone (Option.some_ne_none _),
                    fun hbelow => absurd rfl hbelow.right⟩

theorem judged_binary (h : forall nt ts, Judged k nt ts) (ts : List Token) :
    Judged (k + 1) binary ts := by
  intro reports hk
  rcases h redir ts reports (by simp only [NonTerminal.rank] at hk ⊢; omega) with
    ⟨value, rest, new, hrun, hlen, hverdict⟩
  cases value with
  | none => exact ⟨none, rest, new, parseBinary_none hrun, hlen, hverdict.lift Reads.single⟩
  | some c =>
      rcases hverdict.read (by decide) with ⟨pre, hts, hreads⟩
      cases rest with
      | nil =>
          refine ⟨some c, [], new, parseBinary_stop hrun peek_nil, hlen, ?_⟩
          exact (Reads.single hreads).verdict (by decide) hts
      | cons t us =>
          cases hop : t.isBinary with
          | false =>
              refine ⟨some c, t :: us, new, parseBinary_stop hrun ?_, hlen, ?_⟩
              · intro u hu
                cases hu
                exact hop
              · exact (Reads.single hreads).verdict (by decide) hts
          | true =>
              rw [List.length_cons] at hlen
              rcases h binary us (reports ++ new) (by simp only [NonTerminal.rank] at hk ⊢; omega)
                with ⟨value', rest', new', hrun', hlen', hverdict'⟩
              refine ⟨value'.map (fun d => joined t c d), rest', new ++ new', ?_, by omega, ?_⟩
              · rw [<- List.append_assoc]
                exact parseBinary_join hrun hop hrun'
              · rw [noisy_of_append]
                rcases hverdict' with ⟨pre', hus, hreads', -⟩ | ⟨hstuck, hnoisy, hnone⟩
                · apply (Reads.join hreads hop hreads').verdict (by decide)
                  rw [hts, hus, List.append_assoc]
                  rfl
                · have hvalue := hnone (by decide)
                  right
                  refine ⟨hstuck, ?_, ?_⟩
                  · intro _
                    rw [hnoisy hvalue, Bool.or_true]
                  · intro _
                    rw [hvalue]
                    rfl

/-- The loop of `parse_redir` ends behind a chain, or behind an operator without a path. -/
theorem redirFrom_cases (m : Nat) : forall (c : Cmd) (ts : List Token) (reports : List Report),
    ts.length ≤ m -> exists rs : List (Token × Text), (forall r, r ∈ rs -> r.1.isRedir = true) ∧
      ((exists rest, ts = redirTokens rs ++ rest ∧
          redirFrom m c ⟨ts, reports⟩ = (some (redirAll c rs), ⟨rest, reports⟩)) ∨
        exists optok rest, optok.isRedir = true ∧ ts = redirTokens rs ++ optok :: rest ∧
          redirFrom m c ⟨ts, reports⟩ = (none, ⟨rest, reports ++ [Report.expectedPath]⟩)) := by
  induction m with
  | zero =>
      intro c ts reports hlen
      exact ⟨[], fun _ hr => (nomatch hr), Or.inl ⟨ts, rfl, rfl⟩⟩
  | succ m ih =>
      intro c ts reports hlen
      cases ts with
      | nil => exact ⟨[], fun _ hr => (nomatch hr), Or.inl ⟨[], rfl, rfl⟩⟩
      | cons t us =>
          rw [List.length_cons] at hlen
          cases hop : t.isRedir with
          | false =>
              refine ⟨[], fun _ hr => (nomatch hr), Or.inl ⟨t :: us, rfl, ?_⟩⟩
              apply redirFrom_stop
              intro u hu
              cases hu
              exact hop
          | true =>
              by_cases hpath : exists text vs, us = Token.string text :: vs
              · rcases hpath with ⟨text, vs, hus⟩
                rw [hus, List.length_cons] at hlen
                have hrun : redirFrom (m + 1) c ⟨t :: us, reports⟩ =
                    redirFrom m (redirTo c t text) ⟨vs, reports⟩ := by
                  rw [hus]
                  exact redirFrom_some m hop rfl
                rcases ih (redirTo c t text) vs reports (by omega) with ⟨rs, hops, hcases⟩
                refine ⟨(t, text) :: rs, ?_, ?_⟩
                · intro r hr
                  rcases List.mem_cons.mp hr with hr | hr
                  · rw [hr]
                    exact hop
                  · exact hops r hr
                · rw [hrun, hus]
                  rcases hcases with ⟨rest, hvs, hloop⟩ | ⟨optok, rest, hop', hvs, hloop⟩
                  · exact Or.inl ⟨rest, by rw [hvs]; rfl, hloop⟩
                  · exact Or.inr ⟨optok, rest, hop', by rw [hvs]; rfl, hloop⟩
              · refine ⟨[], fun _ hr => (nomatch hr), Or.inr ⟨t, us, hop, rfl, ?_⟩⟩
                have hno : parseRedircmd c t ⟨us, reports⟩ =
                    (none, ⟨us, reports ++ [Report.expectedPath]⟩) := by
                  unfold parseRedircmd
                  cases us with
                  | nil => rfl
                  | cons u vs =>
                      cases u with
                      | string text => exact absurd ⟨text, vs, rfl⟩ hpath
                      | _ => rfl
                exact redirFrom_none m hop hno

theorem judged_redir (h : forall nt ts, Judged k nt ts) (ts : List Token) :
    Judged (k + 1) redir ts := by
  intro reports hk
  rcases h primary ts reports (by simp only [NonTerminal.rank] at hk ⊢; omega) with
    ⟨value, rest, new, hrun, hlen, hverdict⟩
  cases value with
  | none => exact ⟨none, rest, new, parseRedir_none hrun, hlen, hverdict.lift Reads.bare⟩
  | some c =>
      rcases hverdict.read (by decide) with ⟨pre, hts, hreads⟩
      rcases redirFrom_cases rest.length c rest (reports ++ new) (Nat.le_refl _) with
        ⟨rs, hops, ⟨rest', hrest, hloop⟩ | ⟨optok, rest', hop, hrest, hloop⟩⟩
      · have hlen' : rest'.length ≤ rest.length := by
          rw [hrest, List.length_append]
          omega
        refine ⟨some (redirAll c rs), rest', new,
          (parseRedir_some hrun).trans (congrArg some hloop), Nat.le_trans hlen' hlen, ?_⟩
        cases rs with
        | nil =>
            have hsame : rest = rest' := hrest
            rw [hsame] at hreads hts
            exact (Reads.bare hreads).verdict (by decide) hts
        | cons r rs =>
            have hempty : rest.isEmpty = false := by
              rw [hrest]
              rfl
            rw [hempty] at hreads
            apply (Reads.redir (r :: rs) hreads (List.cons_ne_nil _ _) hops).verdict (by decide)
            rw [hts, hrest, List.append_assoc]
      · have hlen' : rest'.length ≤ rest.length := by
          rw [hrest, List.length_append, List.length_cons]
          omega
        have hempty : rest.isEmpty = false := by
          rw [hrest]
          cases rs with
          | nil => rfl
          | cons r rs => rfl
        rw [hempty] at hreads
        refine ⟨none, rest', new ++ [Report.expectedPath], ?_, Nat.le_trans hlen' hlen, ?_⟩
        · rw [<- List.append_assoc]
          exact (parseRedir_some hrun).trans (congrArg some hloop)
        · rw [noisy_of_append]
          have htrue : (!new.isEmpty || !List.isEmpty [Report.expectedPath]) = true :=
            Bool.or_true _
          rw [htrue]
          apply (Reads.noPath rs optok hreads hops hop).verdict (by decide)
          rw [hts, hrest]
          simp

/-- The loop of `parse_execcmd` takes all strings that are ahead, or too many are. -/
theorem execFrom_cases (ts : List Token) : forall (argv : List Text) (reports : List Report),
    argv.length < maxArgv -> exists (texts : List Text) (rest : List Token),
      ts = texts.map Token.string ++ rest ∧
      (argv.length + texts.length < maxArgv ∧ execFrom argv ts reports =
          (some (Cmd.exec (argv ++ texts.map copyPeekString)), ⟨rest, reports⟩) ∨
        exists text us, rest = Token.string text :: us ∧
          execFrom argv ts reports = (none, ⟨rest, reports ++ [Report.tooManyArguments]⟩)) := by
  induction ts with
  | nil =>
      intro argv reports hlen
      refine ⟨[], [], rfl, Or.inl ⟨hlen, ?_⟩⟩
      rw [List.map_nil, List.append_nil]
      rfl
  | cons t us ih =>
      intro argv reports hlen
      cases t with
      | string text =>
          rw [execFrom]
          by_cases hmany : maxArgv - 1 ≤ argv.length
          · rw [if_pos hmany]
            exact ⟨[], _, rfl, Or.inr ⟨text, us, rfl, rfl⟩⟩
          · rw [if_neg hmany]
            have hlen' : (argv ++ [copyPeekString text]).length < maxArgv := by
              rw [List.length_append, List.length_singleton]
              omega
            rcases ih (argv ++ [copyPeekString text]) reports hlen' with
              ⟨texts, rest, hus, ⟨hshort, hexec⟩ | ⟨text', vs, hrest, hexec⟩⟩
            · refine ⟨text :: texts, rest, by rw [hus]; rfl, Or.inl ⟨?_, ?_⟩⟩
              · rw [List.length_append, List.length_singleton] at hshort
                rw [List.length_cons]
                omega
              · rw [hexec, List.append_assoc]
                rfl
            · exact ⟨text :: texts, rest, by rw [hus]; rfl, Or.inr ⟨text', vs, hrest, hexec⟩⟩
      | _ =>
          refine ⟨[], _, rfl, Or.inl ⟨hlen, ?_⟩⟩
          rw [List.map_nil, List.append_nil]
          rfl

theorem judged_exec (text : Text) (us : List Token) :
    Judged (k + 1) primary (Token.string text :: us) := by
  intro reports hk
  have hprimary : parsePrimary (k + 1) ⟨Token.string text :: us, reports⟩ =
      some (execFrom [copyPeekString text] us reports) := by
    rw [parsePrimary]
    rfl
  have hone : [copyPeekString text].length < maxArgv := Nat.lt_of_sub_eq_succ rfl
  rcases execFrom_cases us [copyPeekString text] reports hone with ⟨texts, rest, hus, hcases⟩
  have hlen : rest.length ≤ (Token.string text :: us).length := by
    rw [List.length_cons, hus, List.length_append]
    omega
  rcases hcases with ⟨hshort, hexec⟩ | ⟨text', vs, hrest, hexec⟩
  · rw [List.length_singleton] at hshort
    refine ⟨some (Cmd.exec (copyPeekString text :: texts.map copyPeekString)), rest, [], ?_, hlen,
      ?_⟩
    · rw [List.append_nil]
      exact hprimary.trans (congrArg some hexec)
    · have hmany : (text :: texts).length < maxArgv := by
        rw [List.length_cons]
        omega
      apply (Reads.exec (text :: texts) (List.cons_ne_nil _ _) hmany).verdict (by decide)
      rw [hus]
      rfl
  · refine ⟨none, rest, [Report.tooManyArguments], hprimary.trans (congrArg some hexec), hlen,
      Or.inr ⟨?_, fun _ => rfl, fun _ => rfl⟩⟩
    rw [hrest]
    apply not_closed_cons
    intro heq
    cases heq

theorem judged_group (h : forall nt ts, Judged k nt ts) (us : List Token) :
    Judged (k + 1) primary (Token.lparen :: us) := by
  intro reports hk
  rw [List.length_cons] at hk
  rcases h cmd us reports (by simp only [NonTerminal.rank] at hk ⊢; omega) with
    ⟨value, rest, new, hrun, hlen, hverdict⟩
  cases rest with
  | nil =>
      refine ⟨none, [], new ++ [Report.missingParen], ?_, Nat.zero_le _, ?_⟩
      · rw [<- List.append_assoc]
        exact parsePrimary_open hrun (Option.some_ne_none _).symm
      · have htrue : (!(new ++ [Report.missingParen]).isEmpty) = true := by
          rw [noisy_of_append]
          exact Bool.or_true _
        rw [htrue]
        rcases hverdict with ⟨pre, hus, hreads, -⟩ | ⟨hstuck, -, -⟩
        · apply (Reads.leftOpen hreads).verdict (by decide)
          rw [hus]
          rfl
        · exact absurd (Or.inl rfl) hstuck
  | cons u vs =>
      by_cases hparen : u = Token.rparen
      · rw [hparen] at hrun hverdict
        refine ⟨value, vs, new, parsePrimary_group hrun, ?_, ?_⟩
        · rw [List.length_cons] at hlen ⊢
          omega
        · rcases hverdict with ⟨pre, hus, hreads, -⟩ | ⟨hstuck, -, -⟩
          · apply (Reads.group hreads).verdict (by decide)
            rw [hus]
            simp
          · exact absurd (Or.inr ⟨vs, rfl⟩) hstuck
      · have hopen : Not (Closed (u :: vs)) := not_closed_cons hparen
        refine ⟨none, u :: vs, new ++ [Report.missingParen], ?_, Nat.le_succ_of_le hlen,
          Or.inr ⟨hopen, ?_, fun _ => rfl⟩⟩
        · rw [<- List.append_assoc]
          exact parsePrimary_open hrun (not_closed_peek hopen)
        · intro _
          rw [noisy_of_append]
          exact Bool.or_true _

theorem judged_primary (h : forall nt ts, Judged k nt ts) (ts : List Token) :
    Judged (k + 1) primary ts := by
  have hmissing : (forall t, ts.head? = some t -> t.starts = false) ->
      Judged (k + 1) primary ts := by
    intro hhead reports _
    exact ⟨none, ts, [Report.unexpected ts.head?], parsePrimary_missing hhead, Nat.le_refl _,
      Reads.missing.verdict (by decide) rfl⟩
  cases ts with
  | nil => exact hmissing (endsBefore_nil primary).starts
  | cons t us =>
      cases t with
      | lparen => exact judged_group h us
      | string text => exact judged_exec text us
      | _ =>
          apply hmissing
          intro u hu
          cases hu
          rfl

theorem judged (k : Nat) : forall nt ts, Judged k nt ts := by
  induction k with
  | zero =>
      intro nt ts reports hk
      cases nt <;> simp [NonTerminal.rank] at hk
  | succ k ih =>
      intro nt ts
      cases nt with
      | cmd => exact judged_cmd ih ts
      | list => exact judged_list ih ts
      | binary => exact judged_binary ih ts
      | redir => exact judged_redir ih ts
      | primary => exact judged_primary ih ts

end Judged

/-!
# Errors of a line
-/

section Lines

variable {ts : List Token} {sh : Parser}

theorem shParse_none (h : parseCmd (5 * ts.length + 5) ⟨ts, []⟩ = some (none, sh)) :
    shParse ts = some (none, sh) := by
  unfold shParse
  rw [h]
  rfl

theorem shParse_end {c : Cmd} (h : parseCmd (5 * ts.length + 5) ⟨ts, []⟩ = some (some c, sh))
    (hend : sh.peek = none) : shParse ts = some (some c, sh) := by
  unfold shParse
  rw [h]
  exact if_pos hend

theorem shParse_unexpected {c : Cmd}
    (h : parseCmd (5 * ts.length + 5) ⟨ts, []⟩ = some (some c, sh)) (hend : sh.peek ≠ none) :
    shParse ts = some (none, sh.report (Report.unexpected sh.peek)) := by
  unfold shParse
  rw [h]
  exact if_neg hend

theorem Dropped.silent (h : Dropped ts) :
    ts ≠ [] ∧ exists sh, shParse ts = some (none, sh) ∧ sh.reports = [] := by
  rcases h with ⟨t, rest, hts, hstarts⟩ | ⟨ends, pre, rest, hts, hreads⟩
  · rw [hts]
    refine ⟨List.cons_ne_nil _ _, _, shParse_none (parseCmd_empty ?_), rfl⟩
    intro u hu
    cases hu
    exact hstarts
  · have hne : pre ≠ [] := hreads.quiet_ne_nil (by decide)
    rcases hreads.starts (Or.inl hne) with ⟨t, us, hpre, hstarts⟩
    have hparses : Parses cmd pre rest none false :=
      Parses.full (hreads.parses_void rfl rfl (by decide) rest) ⟨t, by rw [hpre]; rfl, hstarts⟩
    have hfuel : 5 * pre.length + NonTerminal.rank cmd ≤ 5 * ts.length + 5 := by
      rw [hts, List.length_append, NonTerminal.rank]
      omega
    rcases hparses _ [] hfuel with ⟨new, hrun, hnew⟩
    have hnil : new = [] := by
      by_contra hne
      exact Bool.false_ne_true (hnew.mpr hne)
    rw [<- hts] at hrun
    refine ⟨?_, _, shParse_none hrun, hnil⟩
    rw [hts]
    exact List.append_ne_nil_of_left_ne_nil hne _

/-- The parser rejects what is behind no list that is cut or dropped. -/
theorem rejectsRest_of_kept (hdropped : Not (Dropped ts)) (hcut : Not (Cut ts)) :
    RejectsRest ts := by
  cases hlist : ts with
  | nil => exact ⟨none, ⟨[], []⟩, rfl, fun hne => absurd rfl hne, fun _ => Or.inl rfl⟩
  | cons t us =>
      rw [<- hlist]
      have hstarts : t.starts = true := by
        by_contra hno
        exact hdropped (Or.inl ⟨t, us, hlist, eq_false_of_ne_true hno⟩)
      have hpeek : Parser.peek ⟨ts, []⟩ = some t := by
        rw [hlist]
        rfl
      rcases judged (5 * ts.length + 4) list ts [] (Nat.le_refl _) with
        ⟨value, rest, new, hrun, -, hverdict⟩
      have hcmd := (parseCmd_starts hpeek hstarts).trans hrun
      cases value with
      | none =>
          refine ⟨none, _, shParse_none hcmd, fun hne => absurd rfl hne, fun _ => Or.inr ?_⟩
          intro hnil
          have hnil' : new = [] := hnil
          rw [hnil'] at hverdict
          rcases hverdict with ⟨pre, hts, hreads, -⟩ | ⟨-, hnoisy, -⟩
          · exact hdropped (Or.inr ⟨_, pre, rest, hts, hreads⟩)
          · cases hnoisy rfl
      | some c =>
          cases rest with
          | nil =>
              refine ⟨some c, _, shParse_end hcmd rfl, fun _ => ?_, fun hnone => nomatch hnone⟩
              rcases hverdict with ⟨pre, hts, hreads, -⟩ | ⟨hstuck, -, -⟩
              · rw [List.append_nil] at hts
                rw [<- hts] at hreads
                have hquiet : (!new.isEmpty) = false := by
                  by_contra hno
                  rw [eq_true_of_ne_false hno] at hreads
                  exact hcut ⟨c, Reads.full (by rw [hlist]; exact List.cons_ne_nil _ _) hreads⟩
                exact ⟨_, Derives.full (hreads.derives hquiet)⟩
              · exact absurd (Or.inl rfl) hstuck
          | cons u vs =>
              refine ⟨none, _, shParse_unexpected hcmd (Option.some_ne_none u),
                fun hne => absurd rfl hne, fun _ => Or.inr ?_⟩
              exact List.append_ne_nil_of_right_ne_nil _ (List.cons_ne_nil _ _)

/--
The parser returns only derivable commands, and nothing only with a message, on the lists
that do not begin with a token that starts no command or with a pipeline that ends in an
empty group, and that are not cut behind `;` or `&`.
-/
theorem shParse_rejects_iff (ts : List Token) :
    RejectsRest ts <-> Not (Dropped ts) ∧ Not (Cut ts) := by
  constructor
  · intro hex
    rcases hex with ⟨value, sh, hrun, hderives, hloud⟩
    constructor
    · intro hdropped
      rcases hdropped.silent with ⟨hne, sh', hrun', hquiet⟩
      rcases Prod.mk.inj (Option.some.inj (hrun.symm.trans hrun')) with ⟨hvalue, hsh⟩
      rcases hloud hvalue with hnil | hreports
      · exact hne hnil
      · exact hreports (by rw [hsh, hquiet])
    · intro hcut
      rcases hcut with ⟨c, hreads⟩
      rcases shParse_of_parses (hreads.parses [] (fun _ => rfl) (endsBefore_nil _)) with
        ⟨new, hrun', -⟩
      rcases Prod.mk.inj (Option.some.inj (hrun.symm.trans hrun')) with ⟨hvalue, -⟩
      rcases hderives (by rw [hvalue]; exact Option.some_ne_none c) with ⟨tree, hderived⟩
      exact hderived.not_cut ⟨c, hreads⟩
  · intro hboth
    rcases hboth with ⟨hdropped, hcut⟩
    exact rejectsRest_of_kept hdropped hcut

/-- `a ; ( b` runs `a`, although its group is open; `( )` is dropped without a message. -/
theorem shParse_keeps_cut :
    (shParse [Token.string [97], Token.semi, Token.lparen, Token.string [98]] =
        some (some (Cmd.exec [[97]]), ⟨[], [Report.missingParen]⟩) ∧
      Not (RejectsRest [Token.string [97], Token.semi, Token.lparen, Token.string [98]])) ∧
    (shParse [Token.lparen, Token.rparen] = some (none, ⟨[], []⟩) ∧
      Not (RejectsRest [Token.lparen, Token.rparen])) := by
  refine ⟨⟨by decide +kernel, ?_⟩, ⟨by decide +kernel, ?_⟩⟩
  · intro hex
    rcases hex with ⟨value, sh, hrun, hderives, -⟩
    have hword : forall (ends : Bool) (b : UInt8), Reads binary ends [Token.string [b]]
        (some (Cmd.exec [[b]])) false := by
      intro ends b
      have hone : 1 < maxArgv := by decide
      exact Reads.single (Reads.bare (Reads.exec [[b]] (List.cons_ne_nil _ _) hone))
    have hopen : Reads cmd true [Token.lparen, Token.string [98]] none true :=
      Reads.full (List.cons_ne_nil _ _) (Reads.last (Reads.single (Reads.bare
        (Reads.leftOpen (Reads.full (List.cons_ne_nil _ _) (Reads.last (hword true 98)))))))
    have hcut : Cut [Token.string [97], Token.semi, Token.lparen, Token.string [98]] :=
      ⟨_, Reads.full (List.cons_ne_nil _ _) (Reads.next (hword false 97) rfl hopen)⟩
    have hkept : shParse [Token.string [97], Token.semi, Token.lparen, Token.string [98]] =
        some (some (Cmd.exec [[97]]), ⟨[], [Report.missingParen]⟩) := by
      decide +kernel
    rcases Prod.mk.inj (Option.some.inj (hrun.symm.trans hkept)) with ⟨hvalue, -⟩
    rcases hderives (by rw [hvalue]; exact Option.some_ne_none _) with ⟨tree, hderived⟩
    exact hderived.not_cut hcut
  · intro hex
    rcases hex with ⟨value, sh, hrun, -, hloud⟩
    have hempty : shParse [Token.lparen, Token.rparen] = some (none, ⟨[], []⟩) := by
      decide +kernel
    rcases Prod.mk.inj (Option.some.inj (hrun.symm.trans hempty)) with ⟨hvalue, hsh⟩
    rcases hloud hvalue with hnil | hreports
    · cases hnil
    · exact hreports (by rw [hsh])

end Lines

end Shell
end NicoOS
