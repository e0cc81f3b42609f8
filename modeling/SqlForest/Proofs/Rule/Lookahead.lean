import SqlForest.Proofs.Rule.Sequence

/-!
# One token of lookahead

A rule decides by the next token alone.  Where it stops, with a result or with a fault, it has read
tokens and seen one more; whatever follows that one could be replaced without changing the outcome.

* `Inner r`: the rule is for a part of a statement.  It also reads no semicolon.
* `Whole r`: the rule is for a statement.  It reads one semicolon, as its last token, and does not
  look at the token behind it.

Both are proved of a sequence from its steps.  Lists of items are the one place where more than the
next token counts, because their budget is all tokens that are left; `moreItems_budget` says that
any budget of that length does the same.
-/

namespace SqlForest

/-- None of the tokens is of the given kind. -/
def Without (k : TokenKind) (tokens : List Token) : Prop :=
  ∀ t ∈ tokens, t.kind ≠ k

/-- Tokens among which no statement ends. -/
abbrev Unended (tokens : List Token) : Prop :=
  Without .semicolon tokens

section Without

variable {k : TokenKind}

theorem without_nil (k : TokenKind) : Without k [] := by
  intro t ht
  simp at ht

theorem Without.cons {t : Token} {tokens : List Token} (ht : t.kind ≠ k)
    (h : Without k tokens) : Without k (t :: tokens) := by
  intro u hu
  rcases List.mem_cons.mp hu with rfl | hu
  · exact ht
  · exact h u hu

theorem Without.tail {t : Token} {tokens : List Token} (h : Without k (t :: tokens)) :
    Without k tokens := by
  intro u hu
  exact h u (List.mem_cons_of_mem t hu)

theorem Without.append {us vs : List Token} (hu : Without k us) (hv : Without k vs) :
    Without k (us ++ vs) := by
  intro t ht
  rcases List.mem_append.mp ht with ht | ht
  · exact hu t ht
  · exact hv t ht

end Without

/-- Lists that go on alike go on alike behind the same tokens. -/
theorem head?_append_congr {rest rest' : List Token} (used : List Token)
    (h : rest'.head? = rest.head?) : (used ++ rest').head? = (used ++ rest).head? := by
  cases used with
  | nil => exact h
  | cons t used => rfl

namespace Rule

variable {α β : Type}

/-! ## What an outcome depends on -/

/-- What `r` reads of these tokens ends no statement, and it reads the same whatever stands behind
the next token. -/
def ReadsAhead (r : Rule α) (tokens : List Token) : Prop :=
  ∀ a rest, r tokens = .ok (a, rest) →
    ∃ used, tokens = used ++ rest ∧ Unended used ∧
      ∀ rest', rest'.head? = rest.head? → r (used ++ rest') = .ok (a, rest')

/-- Where `r` fails on these tokens no statement has ended, and it fails alike whatever stands
behind the token that does not fit. -/
def FailsAhead (r : Rule α) (tokens : List Token) : Prop :=
  ∀ failure, r tokens = .error failure →
    ∃ used, tokens = used ++ failure.rest ∧ Unended used ∧
      ∀ rest', rest'.head? = failure.rest.head? →
        r (used ++ rest') = .error ⟨rest', failure.fault⟩

/-- What `r` reads of these tokens ends with the first semicolon, and it reads the same whatever
stands behind that. -/
def EndsAhead (r : Rule α) (tokens : List Token) : Prop :=
  ∀ a rest, r tokens = .ok (a, rest) →
    ∃ used last, tokens = used ++ last :: rest ∧ Unended used ∧ last.kind = .semicolon ∧
      ∀ rest', r (used ++ last :: rest') = .ok (a, rest')

/-- The rule is for a part of a statement. -/
structure Inner (r : Rule α) : Prop where
  reads : ∀ tokens, r.ReadsAhead tokens
  fails : ∀ tokens, r.FailsAhead tokens

/-- The rule is for the rest of a statement. -/
structure Whole (r : Rule α) : Prop where
  ends : ∀ tokens, r.EndsAhead tokens
  fails : ∀ tokens, r.FailsAhead tokens

/-- What is left is never longer than what there was. -/
theorem Inner.length_le {r : Rule α} (h : Inner r) {tokens rest : List Token} {a : α}
    (hr : r tokens = .ok (a, rest)) : rest.length ≤ tokens.length := by
  obtain ⟨used, hused, -, -⟩ := h.reads tokens a rest hr
  rw [hused, List.length_append]
  omega

/-! ## Sequences -/

theorem FailsAhead.bind {r : Rule α} {f : α → Rule β} (hr : Inner r)
    (hf : ∀ a tokens, (f a).FailsAhead tokens) (tokens : List Token) :
    (r >>= f).FailsAhead tokens := by
  intro failure h
  rcases bind_eq_error.mp h with h | ⟨a, middle, hread, hfail⟩
  · obtain ⟨used, hused, hopen, hagain⟩ := hr.fails tokens failure h
    refine ⟨used, hused, hopen, ?_⟩
    intro rest' hhead
    exact bind_of_error (hagain rest' hhead)
  · obtain ⟨us, hus, huopen, huagain⟩ := hr.reads tokens a middle hread
    obtain ⟨vs, hvs, hvopen, hvagain⟩ := hf a middle failure hfail
    refine ⟨us ++ vs, ?_, huopen.append hvopen, ?_⟩
    · rw [hus, hvs, List.append_assoc]
    · intro rest' hhead
      have hmiddle : (vs ++ rest').head? = middle.head? := by
        rw [hvs]
        exact head?_append_congr vs hhead
      rw [List.append_assoc, bind_of_ok (huagain _ hmiddle)]
      exact hvagain rest' hhead

theorem Inner.bind {r : Rule α} {f : α → Rule β} (hr : Inner r) (hf : ∀ a, Inner (f a)) :
    Inner (r >>= f) := by
  refine ⟨?_, FailsAhead.bind hr fun a => (hf a).fails⟩
  intro tokens b rest h
  obtain ⟨a, middle, hread, hnext⟩ := bind_eq_ok.mp h
  obtain ⟨us, hus, huopen, huagain⟩ := hr.reads tokens a middle hread
  obtain ⟨vs, hvs, hvopen, hvagain⟩ := (hf a).reads middle b rest hnext
  refine ⟨us ++ vs, ?_, huopen.append hvopen, ?_⟩
  · rw [hus, hvs, List.append_assoc]
  · intro rest' hhead
    have hmiddle : (vs ++ rest').head? = middle.head? := by
      rw [hvs]
      exact head?_append_congr vs hhead
    rw [List.append_assoc, bind_of_ok (huagain _ hmiddle)]
    exact hvagain rest' hhead

theorem Whole.bind {r : Rule α} {f : α → Rule β} (hr : Inner r) (hf : ∀ a, Whole (f a)) :
    Whole (r >>= f) := by
  refine ⟨?_, FailsAhead.bind hr fun a => (hf a).fails⟩
  intro tokens b rest h
  obtain ⟨a, middle, hread, hnext⟩ := bind_eq_ok.mp h
  obtain ⟨us, hus, huopen, huagain⟩ := hr.reads tokens a middle hread
  obtain ⟨vs, last, hvs, hvopen, hlast, hvagain⟩ := (hf a).ends middle b rest hnext
  refine ⟨us ++ vs, last, ?_, huopen.append hvopen, hlast, ?_⟩
  · rw [hus, hvs, List.append_assoc]
  · intro rest'
    have hmiddle : (vs ++ last :: rest').head? = middle.head? := by
      rw [hvs]
      cases vs with
      | nil => rfl
      | cons _ _ => rfl
    rw [List.append_assoc, bind_of_ok (huagain _ hmiddle)]
    exact hvagain rest'

theorem inner_pure (a : α) : Inner (pure a : Rule α) := by
  refine ⟨?_, ?_⟩
  · intro tokens b rest h
    simp only [pure_apply, Except.ok.injEq, Prod.mk.injEq] at h
    obtain ⟨rfl, rfl⟩ := h
    exact ⟨[], rfl, without_nil _, fun rest' _ => rfl⟩
  · intro tokens failure h
    simp at h

theorem inner_fail (fault : SyntaxFault) : Inner (fail fault : Rule α) := by
  refine ⟨?_, ?_⟩
  · intro tokens b rest h
    simp [fail] at h
  · intro tokens failure h
    simp only [fail, Except.error.injEq] at h
    subst h
    exact ⟨[], rfl, without_nil _, fun rest' _ => rfl⟩

theorem Inner.map {f : α → β} {r : Rule α} (h : Inner r) : Inner (f <$> r) := by
  rw [map_eq_pure_bind]
  exact h.bind fun a => inner_pure (f a)

/-! ## Single tokens -/

theorem inner_accept? {f : Token → Option α} (h : ∀ t a, f t = some a → t.kind ≠ .semicolon) :
    Inner (accept? f) := by
  refine ⟨?_, ?_⟩
  · intro tokens a rest hr
    cases tokens with
    | nil =>
      simp only [accept?_nil, Except.ok.injEq, Prod.mk.injEq] at hr
      obtain ⟨rfl, rfl⟩ := hr
      refine ⟨[], rfl, without_nil _, ?_⟩
      intro rest' hhead
      obtain rfl : rest' = [] := List.head?_eq_none_iff.mp hhead
      rfl
    | cons token tokens =>
      rw [accept?_cons] at hr
      simp only [Except.ok.injEq, Prod.mk.injEq] at hr
      obtain ⟨rfl, rfl⟩ := hr
      cases hf : f token with
      | none =>
        refine ⟨[], by simp, without_nil _, ?_⟩
        intro rest' hhead
        obtain ⟨tail, rfl⟩ := List.head?_eq_some_iff.mp hhead
        simp [accept?_cons, hf]
      | some a =>
        refine ⟨[token], by simp, (without_nil _).cons (h token a hf), ?_⟩
        intro rest' _
        simp [accept?_cons, hf]
  · intro tokens failure hr
    cases tokens with
    | nil => simp at hr
    | cons token tokens => simp [accept?_cons] at hr

theorem failsAhead_require (f : Token → Option α) (what : Expectation) (tokens : List Token) :
    (require f what).FailsAhead tokens := by
  intro failure hr
  cases tokens with
  | nil =>
    simp only [require_nil, Except.error.injEq] at hr
    subst hr
    refine ⟨[], rfl, without_nil _, ?_⟩
    intro rest' hhead
    obtain rfl : rest' = [] := List.head?_eq_none_iff.mp hhead
    rfl
  | cons token tokens =>
    cases hf : f token with
    | some a => simp [require, hf] at hr
    | none =>
      simp only [require, hf, Except.error.injEq] at hr
      subst hr
      refine ⟨[], rfl, without_nil _, ?_⟩
      intro rest' hhead
      obtain ⟨tail, rfl⟩ := List.head?_eq_some_iff.mp hhead
      simp [require, hf]

theorem inner_require {f : Token → Option α} {what : Expectation}
    (h : ∀ t a, f t = some a → t.kind ≠ .semicolon) : Inner (require f what) := by
  refine ⟨?_, failsAhead_require f what⟩
  intro tokens a rest hr
  obtain ⟨token, rfl, hf⟩ := require_eq_ok.mp hr
  refine ⟨[token], rfl, (without_nil _).cons (h token a hf), ?_⟩
  intro rest' _
  exact require_eq_ok.mpr ⟨token, rfl, hf⟩

theorem inner_kind {k : TokenKind} (h : k ≠ .semicolon) : Inner (kind k) := by
  apply inner_require
  intro t a ht
  rwa [(kind_of_lexemeOf? ht).1]

theorem inner_kind? {k : TokenKind} (h : k ≠ .semicolon) : Inner (kind? k) := by
  refine (inner_accept? ?_).map
  intro t a ht
  rwa [(kind_of_lexemeOf? ht).1]

theorem keyword_ne_semicolon {k : Keyword} {t : Token} (h : t.keyword? = some k) :
    t.kind ≠ .semicolon := by
  rw [kind_of_keyword? h]
  decide

theorem inner_keyword (k : Keyword) : Inner (keyword k) := by
  apply inner_require
  intro t a ht
  exact keyword_ne_semicolon (keyword?_of_isKeyword? ht)

theorem inner_keyword? (k : Keyword) : Inner (keyword? k) := by
  refine (inner_accept? ?_).map
  intro t a ht
  exact keyword_ne_semicolon (keyword?_of_isKeyword? ht)

theorem inner_identifier : Inner identifier :=
  inner_kind (by decide)

/-- A statement ends where its terminator is read. -/
theorem whole_terminator (a : α) : Whole (terminator >>= fun _ => pure a) := by
  rw [terminator_bind]
  refine ⟨?_, ?_⟩
  · intro tokens b rest h
    obtain ⟨lexeme, middle, hread, hnext⟩ := bind_eq_ok.mp h
    obtain ⟨token, rfl, hf⟩ := require_eq_ok.mp hread
    simp only [pure_apply, Except.ok.injEq, Prod.mk.injEq] at hnext
    obtain ⟨rfl, rfl⟩ := hnext
    have hk : token.kind = .semicolon := (kind_of_lexemeOf? hf).1
    refine ⟨[], token, rfl, without_nil _, hk, ?_⟩
    intro rest'
    exact kind_bind_cons hk rest'
  · intro tokens failure h
    rcases bind_eq_error.mp h with h | ⟨_, _, _, h⟩
    · obtain ⟨used, hused, hopen, hagain⟩ := failsAhead_require _ _ tokens failure h
      refine ⟨used, hused, hopen, ?_⟩
      intro rest' hhead
      exact bind_of_error (hagain rest' hhead)
    · simp at h

/-! ## Rules that look at the next token first -/

section Dispatch

variable {r : Rule α} {s : Option Token → Rule α}

theorem failsAhead_of_next (hr : ∀ tokens, r tokens = s tokens.head? tokens) {tokens : List Token}
    (hs : (s tokens.head?).FailsAhead tokens) : r.FailsAhead tokens := by
  intro failure h
  rw [hr] at h
  obtain ⟨used, hused, hopen, hagain⟩ := hs failure h
  refine ⟨used, hused, hopen, ?_⟩
  intro rest' hhead
  rw [hr, head?_append_congr used hhead, ← hused]
  exact hagain rest' hhead

theorem inner_of_next (hr : ∀ tokens, r tokens = s tokens.head? tokens)
    (hs : ∀ next, Inner (s next)) : Inner r := by
  refine ⟨?_, fun tokens => failsAhead_of_next hr ((hs tokens.head?).fails tokens)⟩
  intro tokens a rest h
  rw [hr] at h
  obtain ⟨used, hused, hopen, hagain⟩ := (hs tokens.head?).reads tokens a rest h
  refine ⟨used, hused, hopen, ?_⟩
  intro rest' hhead
  rw [hr, head?_append_congr used hhead, ← hused]
  exact hagain rest' hhead

theorem whole_of_next (hr : ∀ tokens, r tokens = s tokens.head? tokens)
    (hs : ∀ next, Whole (s next)) : Whole r := by
  refine ⟨?_, fun tokens => failsAhead_of_next hr ((hs tokens.head?).fails tokens)⟩
  intro tokens a rest h
  rw [hr] at h
  obtain ⟨used, last, hused, hopen, hlast, hagain⟩ := (hs tokens.head?).ends tokens a rest h
  refine ⟨used, last, hused, hopen, hlast, ?_⟩
  intro rest'
  have hhead : (used ++ last :: rest').head? = tokens.head? := by
    rw [hused]
    exact head?_append_congr used rfl
  rw [hr, hhead]
  exact hagain rest'

/-- A rule that only fails is for statements as well as for their parts. -/
theorem whole_fail (fault : SyntaxFault) : Whole (fail fault : Rule α) := by
  refine ⟨?_, (inner_fail fault).fails⟩
  intro tokens b rest h
  simp [fail] at h

end Dispatch

/-! ## Items with commas between them -/

theorem inner_moreItems {item : Rule α} (h : Inner item) (budget : List Token) (read : List α) :
    Inner (moreItems item budget read) := by
  induction budget generalizing read with
  | nil => exact inner_pure _
  | cons _ budget ih =>
    unfold moreItems
    refine (inner_kind? (by decide)).bind ?_
    intro b
    split
    · exact h.bind fun next => ih (next :: read)
    · exact inner_pure _

/-- A budget of as many tokens as are left is enough for all items. -/
theorem moreItems_budget {item : Rule α} (h : Inner item) {budget budget' tokens : List Token}
    {read : List α} (hb : tokens.length ≤ budget.length) (hb' : tokens.length ≤ budget'.length) :
    moreItems item budget read tokens = moreItems item budget' read tokens := by
  induction budget generalizing budget' tokens read with
  | nil =>
    obtain rfl : tokens = [] := List.eq_nil_of_length_eq_zero (by simpa using hb)
    rw [moreItems_of_refused (refused_nil _), moreItems_of_refused (refused_nil _)]
  | cons b budget ih =>
    cases tokens with
    | nil => rw [moreItems_of_refused (refused_nil _), moreItems_of_refused (refused_nil _)]
    | cons token rest =>
      by_cases hk : token.kind = .comma
      · cases budget' with
        | nil => simp at hb'
        | cons b' budget' =>
          simp only [List.length_cons] at hb hb'
          rw [moreItems_of_comma hk, moreItems_of_comma hk, bind_apply, bind_apply]
          cases hr : item rest with
          | error failure => rfl
          | ok outcome =>
            have hle := h.length_le hr
            exact ih (by omega) (by omega)
      · have hrefused := refused_cons (lexemeOf?_eq_none hk) rest
        rw [moreItems_of_refused hrefused, moreItems_of_refused hrefused]

/-- The items behind the first one, with a budget that is always enough. -/
def laterItems (item : Rule α) (read : List α) : Rule (List α) := fun tokens =>
  moreItems item tokens read tokens

theorem commaSeparated_eq (item : Rule α) :
    commaSeparated item = (item >>= fun first => laterItems item [first]) := rfl

/-- The budget of `laterItems` grows with the tokens.  A run on other tokens is compared with this
one through a budget that is enough for both. -/
theorem inner_laterItems {item : Rule α} (h : Inner item) (read : List α) :
    Inner (laterItems item read) := by
  have hrun : ∀ budget tokens : List Token, tokens.length ≤ budget.length →
      laterItems item read tokens = moreItems item budget read tokens := by
    intro budget tokens hlen
    exact moreItems_budget h (Nat.le_refl _) hlen
  refine ⟨?_, ?_⟩
  · intro tokens a rest hr
    obtain ⟨used, hused, hopen, -⟩ := (inner_moreItems h tokens read).reads tokens a rest hr
    refine ⟨used, hused, hopen, ?_⟩
    intro rest' hhead
    have hlong := hrun (tokens ++ (used ++ rest')) tokens (by simp)
    rw [hlong] at hr
    obtain ⟨used', hused', -, hagain⟩ := (inner_moreItems h _ read).reads tokens a rest hr
    obtain rfl : used = used' := List.append_cancel_right (hused.symm.trans hused')
    rw [hrun (tokens ++ (used ++ rest')) (used ++ rest') (by simp)]
    exact hagain rest' hhead
  · intro tokens failure hr
    obtain ⟨used, hused, hopen, -⟩ := (inner_moreItems h tokens read).fails tokens failure hr
    refine ⟨used, hused, hopen, ?_⟩
    intro rest' hhead
    have hlong := hrun (tokens ++ (used ++ rest')) tokens (by simp)
    rw [hlong] at hr
    obtain ⟨used', hused', -, hagain⟩ := (inner_moreItems h _ read).fails tokens failure hr
    obtain rfl : used = used' := List.append_cancel_right (hused.symm.trans hused')
    rw [hrun (tokens ++ (used ++ rest')) (used ++ rest') (by simp)]
    exact hagain rest' hhead

theorem inner_commaSeparated {item : Rule α} (h : Inner item) : Inner (commaSeparated item) := by
  rw [commaSeparated_eq]
  exact h.bind fun first => inner_laterItems h [first]

/-! ### Item after item -/

theorem laterItems_of_refused {item : Rule α} {read : List α} {rest : List Token}
    (h : Refused (Token.lexemeOf? .comma) rest) :
    laterItems item read rest = .ok (read.reverse, rest) :=
  moreItems_of_refused h

/-- Behind a comma the budget is one token longer than what is left. -/
theorem laterItems_of_comma {item : Rule α} (hitem : Inner item) {comma : Token}
    (hcomma : comma.kind = .comma) (read : List α) (rest : List Token) :
    laterItems item read (comma :: rest) =
      (item >>= fun next => laterItems item (next :: read)) rest := by
  have hstep : laterItems item read (comma :: rest) =
      (item >>= fun next => moreItems item rest (next :: read)) rest := moreItems_of_comma hcomma
  rw [hstep]
  cases hrun : item rest with
  | error failure => rw [bind_of_error hrun, bind_of_error hrun]
  | ok outcome =>
    have hle : outcome.2.length ≤ rest.length := hitem.length_le hrun
    rw [bind_of_ok hrun, bind_of_ok hrun]
    exact moreItems_budget hitem hle (Nat.le_refl _)

/-- To read a list of one item is to read the item and then further ones. -/
theorem commaSeparated_of_one {item : Rule α} {tokens rest : List Token} {a : α}
    (h : item tokens = .ok (a, rest)) : commaSeparated item tokens = laterItems item [a] rest := by
  rw [commaSeparated_eq]
  exact bind_of_ok h

/-- Where items are followed by a comma and an item, that item is read behind them. -/
theorem commaSeparated_of_more {item : Rule α} (hitem : Inner item) {comma : Token}
    (hcomma : comma.kind = .comma) {ts us rest : List Token} {as : List α} {a : α}
    (hitems : commaSeparated item (ts ++ comma :: (us ++ rest)) =
      laterItems item as.reverse (comma :: (us ++ rest)))
    (h : item (us ++ rest) = .ok (a, rest)) :
    commaSeparated item (ts ++ comma :: us ++ rest) = laterItems item (as ++ [a]).reverse rest := by
  rw [List.append_assoc, List.cons_append, hitems, laterItems_of_comma hitem hcomma, bind_of_ok h,
    List.reverse_append]
  rfl

/-! ## What is left -/

/-- What a rule leaves, with a result or without, are the last tokens of those that there were. -/
structure Forward (r : Rule α) : Prop where
  reads : ∀ tokens a rest, r tokens = .ok (a, rest) → rest <:+ tokens
  fails : ∀ tokens failure, r tokens = .error failure → failure.rest <:+ tokens

theorem Whole.forward {r : Rule α} (h : Whole r) : Forward r where
  reads tokens a rest hr := by
    obtain ⟨used, last, hused, -⟩ := h.ends tokens a rest hr
    rw [hused]
    exact (List.suffix_cons last rest).trans (List.suffix_append used (last :: rest))
  fails tokens failure hr := by
    obtain ⟨used, hused, -⟩ := h.fails tokens failure hr
    exact ⟨used, hused.symm⟩

end Rule

end SqlForest
