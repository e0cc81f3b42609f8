import SqlForest.Proofs.Descent.Script

/-!
# Parsers remember nothing

A parser that has been asked for statements, some of them read and some not, stands somewhere in its
stream with some level reached.  Neither matters for what it does next
(`TokenStream.statement_without_history`): it does what a parser does that starts at the same token.
`Parser.Within` is what every statement preserves.
-/

namespace SqlForest

/-! ## Parts of a stream -/

namespace TokenStream

/-- The stream of the tokens from an index on. -/
def drop (s : TokenStream) (start : Nat) : TokenStream where
  tokens := s.tokens.drop start
  finish := s.finish
  kind_ne_endOfInput := fun t ht => s.kind_ne_endOfInput t (List.mem_of_mem_drop ht)
  finish_kind := s.finish_kind

/-- The index of the first semicolon from an index on, or that of the end of input if there is no
semicolon. -/
def semicolonFrom (s : TokenStream) (start : Nat) : Nat :=
  start + (s.tokens.drop start).findIdx fun t => t.kind = .semicolon

end TokenStream

/-- The first semicolon stands behind all tokens that are not semicolons. -/
theorem Unended.findIdx_append {used : List Token} (h : Unended used) (rest : List Token) :
    (used ++ rest).findIdx (fun t => t.kind = .semicolon) =
      rest.findIdx (fun t => t.kind = .semicolon) + used.length := by
  have hnone : used.findIdx (fun t => t.kind = .semicolon) = used.length := by
    rw [List.findIdx_eq_length]
    intro t ht
    exact decide_eq_false (h t ht)
  rw [List.findIdx_append, hnone, if_neg (Nat.lt_irrefl _)]

/-! ## Statement after statement -/

namespace Session

/-- The session after a number of statements has been read from it, whatever came of them. -/
def afterCalls (s : Session) : Nat → Session
  | 0 => s
  | count + 1 => (s.afterCalls count).statement.2

theorem statement_of_ok {s : Session} {found : Statement} {rest : List Token}
    (h : Rule.statement rules s.rest = .ok (found, rest)) :
    s.statement = (.ok found, ⟨rest, s.finish⟩) := by
  simp only [statement, h]

theorem statement_of_error {s : Session} {failure : Failure}
    (h : Rule.statement rules s.rest = .error failure) :
    s.statement = (.error (failure.diagnostic s.finish), ⟨failure.rest, s.finish⟩) := by
  simp only [statement, h]

end Session

namespace Parser

/-- The parser is at work on the stream. -/
structure Within (s : TokenStream) (p : Parser) : Prop where
  stream_eq : p.stream = s
  limit_eq : p.limit = some maxDepth
  current_le : p.current ≤ s.tokens.length

variable {s : TokenStream} {p : Parser}

theorem within_ofStream (s : TokenStream) : (ofStream s).Within s :=
  ⟨rfl, rfl, Nat.zero_le _⟩

theorem Within.atToken (h : p.Within s) : p.AtToken := by
  rw [AtToken, h.stream_eq]
  exact h.current_le

theorem Within.rest_eq (h : p.Within s) : p.rest = s.tokens.drop p.current := by
  rw [rest, h.stream_eq]

theorem Within.session_eq (h : p.Within s) :
    p.session = Session.ofStream (s.drop p.current) := by
  rw [session, h.rest_eq, h.stream_eq]
  rfl

/-- The cursor stays within the stream. -/
theorem Within.moved (h : p.Within s) (used : List Token) {rest : List Token}
    (hrest : p.rest = used ++ rest) (level : Nat) (log : List Entry) :
    (p.moved used.length level log).Within s where
  stream_eq := h.stream_eq
  limit_eq := h.limit_eq
  current_le := by
    rw [← h.stream_eq]
    exact h.atToken.moved used hrest level log

/-- Where a parser may be after a statement. -/
def Stops (s : TokenStream) (start stop : Nat) : Except Diagnostic Statement → Prop
  | .ok _ => (∃ t, s.tokens[s.semicolonFrom start]? = some t ∧ t.kind = .semicolon) ∧
      stop = s.semicolonFrom start + 1
  | .error d => start ≤ stop ∧ stop ≤ s.semicolonFrom start ∧
      ∃ t, s.toList[stop]? = some t ∧ d.position = t.position

theorem Within.stops_of_ok (h : p.Within s) {found : Statement} {used rest : List Token}
    (hrest : p.rest = used ++ rest)
    (hread : Rule.statement Session.rules p.rest = .ok (found, rest)) :
    Stops s p.current (p.current + used.length) (.ok found) := by
  obtain ⟨body, last, hbody, hunended, hlast, -⟩ :=
    Session.whole_statement.ends p.rest found rest hread
  obtain rfl : used = body ++ [last] := by
    have hsame : used ++ rest = (body ++ [last]) ++ rest := by
      rw [← hrest, hbody, List.append_assoc]
      rfl
    exact List.append_cancel_right hsame
  rw [h.rest_eq] at hbody
  have hindex : s.semicolonFrom p.current = p.current + body.length := by
    rw [TokenStream.semicolonFrom, hbody, hunended.findIdx_append, List.findIdx_cons,
      decide_eq_true hlast, cond_true, Nat.zero_add]
  have hget : s.tokens[p.current + body.length]? = some last := by
    rw [← List.getElem?_drop, hbody]
    simp
  rw [Stops, hindex, List.length_append]
  exact ⟨⟨last, hget, hlast⟩, rfl⟩

theorem Within.stops_of_error (h : p.Within s) {failure : Failure} {used : List Token}
    (hrest : p.rest = used ++ failure.rest)
    (hfail : Rule.statement Session.rules p.rest = .error failure) :
    Stops s p.current (p.current + used.length) (.error (failure.diagnostic s.finish)) := by
  obtain ⟨front, hfront, hunended, -⟩ := Session.whole_statement.fails p.rest failure hfail
  obtain rfl : used = front := List.append_cancel_right (hrest.symm.trans hfront)
  have hindex : p.current + used.length ≤ s.semicolonFrom p.current := by
    rw [TokenStream.semicolonFrom, ← h.rest_eq, hrest, hunended.findIdx_append]
    omega
  have hget : s.toList[p.current + used.length]? = some (failure.rest.headD s.finish) := by
    have htokens : s.toList.drop p.current = used ++ (failure.rest ++ [s.finish]) := by
      rw [TokenStream.toList, List.drop_append_of_le_length h.current_le, ← h.rest_eq, hrest,
        List.append_assoc]
    rw [← List.getElem?_drop, htokens, List.getElem?_append_right (Nat.le_refl _), Nat.sub_self]
    cases failure.rest with
    | nil => rfl
    | cons t rest => rfl
  exact ⟨Nat.le_add_right _ _, hindex, _, hget, rfl⟩

/-- A statement has the outcome that it has in the session with the same tokens left, and leaves the
same tokens as there. -/
theorem Within.statement (h : p.Within s) :
    ∃ q, p.statement = some (p.session.statement.1, q) ∧ q.Within s ∧
      q.session = p.session.statement.2 ∧ Stops s p.current q.current p.session.statement.1 := by
  have hrun := Routine.does_statement h.atToken h.limit_eq
  unfold Parser.statement
  generalize hrule : Rule.statement Session.rules p.rest = outcome,
    Routine.statement p = run at hrun
  cases hrun with
  | reads used log hrest _ _ =>
    rw [Session.statement_of_ok (s := p.session) hrule]
    exact ⟨_, rfl, h.moved used hrest _ log, session_moved used hrest _ log,
      h.stops_of_ok hrest hrule⟩
  | fails used log hrest _ _ =>
    obtain rfl := h.stream_eq
    rw [Session.statement_of_error (s := p.session) hrule]
    exact ⟨_, rfl, h.moved used hrest _ log, session_moved used hrest _ log,
      h.stops_of_error hrest hrule⟩

theorem Within.afterCalls (h : p.Within s) (count : Nat) :
    ∃ q, p.afterCalls count = some q ∧ q.Within s ∧ q.session = p.session.afterCalls count := by
  induction count with
  | zero => exact ⟨p, rfl, h, rfl⟩
  | succ count ih =>
    obtain ⟨q, hq, hwithin, hsession⟩ := ih
    obtain ⟨after, hafter, hagain, hleft, -⟩ := hwithin.statement
    refine ⟨after, ?_, hagain, ?_⟩
    · rw [Parser.afterCalls, hq, Option.bind_some, hafter]
      rfl
    · rw [hleft, hsession]
      rfl

end Parser

/-- After any number of statements, whatever came of them, a parser does what a parser does that
starts at the same token, for one more statement and for all the rest of the script.  Of a statement
that is read the semicolon is the last token; one that is not read is left at the token where its
fault is, and that is not behind the semicolon. -/
theorem TokenStream.statement_without_history (s : TokenStream) (count : Nat) :
    ∃ p, (Parser.ofStream s).afterCalls count = some p ∧
      p.current ≤ s.tokens.length ∧
      p.session = (Session.ofStream s).afterCalls count ∧
      (∃ outcome q fresh, p.statement = some (outcome, q) ∧
        (Parser.ofStream (s.drop p.current)).statement = some (outcome, fresh) ∧
        Parser.Stops s p.current q.current outcome) ∧
      p.script = (Parser.ofStream (s.drop p.current)).script ∧
      p.script = some (s.drop p.current).script := by
  obtain ⟨p, hcalls, hwithin, hsession⟩ := (Parser.within_ofStream s).afterCalls count
  have hfresh : (Parser.ofStream (s.drop p.current)).session = p.session :=
    hwithin.session_eq.symm
  obtain ⟨q, hq, -, -, hstop⟩ := hwithin.statement
  obtain ⟨fresh, hstart, -⟩ := (Parser.within_ofStream (s.drop p.current)).statement
  rw [hfresh] at hstart
  have hscript := Parser.script_eq hwithin.atToken hwithin.limit_eq
  refine ⟨p, hcalls, hwithin.current_le, hsession, ⟨_, q, fresh, hq, hstart, hstop⟩, ?_, ?_⟩
  · rw [hscript, Parser.script_eq (Nat.zero_le _) rfl, hfresh]
  · rw [hscript, hwithin.session_eq]
    rfl

end SqlForest
