import SqlForest.Proofs.Rule.Sequence

/-!
# Rules and languages

A language says which tokens denote which value.  `Follows L r` relates a rule to one, whatever the
outcome of the rule is:

* where `r` succeeds, the tokens that it has read denote its result;
* where it fails, the tokens that it has read are the beginning of some that denote a value, unless
  the fault is that the expression is nested too deeply.

For a sequence the language of each later step is what is left of the language of the whole: behind
the tokens `ts` it is `fun us => L (ts ++ us)`.

`Leads L r` adds that the language is not empty, so that the steps of a statement need not be
completed by hand.
-/

namespace SqlForest

namespace Rule

variable {α β : Type}

/-- The rule reads what is in the language, and fails only behind a beginning of it. -/
structure Follows (L : List Token → α → Prop) (r : Rule α) : Prop where
  reads : ∀ tokens a rest, r tokens = .ok (a, rest) → ∃ used, tokens = used ++ rest ∧ L used a
  fails : ∀ tokens failure, r tokens = .error failure → failure.fault ≠ .nestedTooDeeply →
    ∃ used more a, tokens = used ++ failure.rest ∧ L (used ++ more) a

theorem Follows.mono {L M : List Token → α → Prop} {r : Rule α} (h : Follows L r)
    (hLM : ∀ ts a, L ts a → M ts a) : Follows M r := by
  refine ⟨?_, ?_⟩
  · intro tokens a rest hr
    obtain ⟨used, hused, hL⟩ := h.reads tokens a rest hr
    exact ⟨used, hused, hLM used a hL⟩
  · intro tokens failure hr hfault
    obtain ⟨used, more, a, hused, hL⟩ := h.fails tokens failure hr hfault
    exact ⟨used, more, a, hused, hLM _ a hL⟩

/-! ## Sequences -/

theorem follows_pure {L : List Token → α → Prop} {a : α} (h : L [] a) :
    Follows L (pure a) := by
  refine ⟨?_, ?_⟩
  · intro tokens b rest hr
    simp only [pure_apply, Except.ok.injEq, Prod.mk.injEq] at hr
    obtain ⟨rfl, rfl⟩ := hr
    exact ⟨[], rfl, h⟩
  · intro tokens failure hr
    simp at hr

theorem follows_fail {L : List Token → α → Prop} (fault : SyntaxFault) (h : ∃ ts a, L ts a) :
    Follows L (fail fault) := by
  refine ⟨?_, ?_⟩
  · intro tokens b rest hr
    simp [fail] at hr
  · intro tokens failure hr _
    simp only [fail, Except.error.injEq] at hr
    subst hr
    obtain ⟨ts, a, hL⟩ := h
    exact ⟨[], ts, a, rfl, hL⟩

/-- Where expressions may not be nested any deeper, nothing is promised of the tokens read. -/
theorem follows_tooDeep (L : List Token → α → Prop) : Follows L (fail .nestedTooDeeply) := by
  refine ⟨?_, ?_⟩
  · intro tokens b rest hr
    simp [fail] at hr
  · intro tokens failure hr hfault
    simp only [fail, Except.error.injEq] at hr
    subst hr
    exact absurd rfl hfault

/-- When the first step fails, what it lacks is followed by tokens that complete the rest. -/
theorem Follows.bind {L : List Token → α → Prop} {N : List Token → β → Prop} {r : Rule α}
    {f : α → Rule β} (hr : Follows L r) (hrest : ∀ ts a, L ts a → ∃ us b, N (ts ++ us) b)
    (hf : ∀ ts a, L ts a → Follows (fun us => N (ts ++ us)) (f a)) : Follows N (r >>= f) := by
  refine ⟨?_, ?_⟩
  · intro tokens b rest h
    obtain ⟨a, middle, hread, hnext⟩ := bind_eq_ok.mp h
    obtain ⟨ts, rfl, hL⟩ := hr.reads tokens a middle hread
    obtain ⟨us, rfl, hN⟩ := (hf ts a hL).reads middle b rest hnext
    exact ⟨ts ++ us, (List.append_assoc ts us rest).symm, hN⟩
  · intro tokens failure h hfault
    rcases bind_eq_error.mp h with h | ⟨a, middle, hread, hfail⟩
    · obtain ⟨used, more, a, hused, hL⟩ := hr.fails tokens failure h hfault
      obtain ⟨us, b, hN⟩ := hrest (used ++ more) a hL
      rw [List.append_assoc] at hN
      exact ⟨used, more ++ us, b, hused, hN⟩
    · obtain ⟨ts, rfl, hL⟩ := hr.reads tokens a middle hread
      obtain ⟨us, more, b, rfl, hN⟩ := (hf ts a hL).fails middle failure hfail hfault
      refine ⟨ts ++ us, more, b, (List.append_assoc ts us failure.rest).symm, ?_⟩
      rwa [List.append_assoc]

theorem Follows.map {N : List Token → β → Prop} {f : α → β} {r : Rule α}
    (h : Follows (fun ts a => N ts (f a)) r) : Follows N (f <$> r) := by
  rw [map_eq_pure_bind]
  apply h.bind
  · intro ts a hN
    exact ⟨[], f a, by rwa [List.append_nil]⟩
  · intro ts a hN
    exact follows_pure (by rwa [List.append_nil])

/-- A rule that looks at the next token first follows what all its choices follow. -/
theorem follows_of_next {L : List Token → α → Prop} {r : Rule α} {s : Option Token → Rule α}
    (hr : ∀ tokens, r tokens = s tokens.head? tokens)
    (hs : ∀ next, Follows L (s next)) : Follows L r := by
  refine ⟨?_, ?_⟩
  · intro tokens a rest h
    rw [hr] at h
    exact (hs tokens.head?).reads tokens a rest h
  · intro tokens failure h
    rw [hr] at h
    exact (hs tokens.head?).fails tokens failure h

/-! ## Single tokens -/

section Tokens

variable {N : List Token → β → Prop}

theorem follows_accept?_bind {f : Token → Option α} {g : Option α → Rule β}
    (hnone : Follows N (g none))
    (hsome : ∀ t a, f t = some a → Follows (fun us => N (t :: us)) (g (some a))) :
    Follows N (accept? f >>= g) := by
  have hrun : ∀ tokens, (accept? f >>= g) tokens = g none tokens ∨
      ∃ t rest a, tokens = t :: rest ∧ f t = some a ∧
        (accept? f >>= g) tokens = g (some a) rest := by
    intro tokens
    cases tokens with
    | nil => exact Or.inl rfl
    | cons t rest =>
      cases hf : f t with
      | none => exact Or.inl (accept?_bind_refused (refused_cons hf rest))
      | some a => exact Or.inr ⟨t, rest, a, rfl, hf, accept?_bind_cons hf rest⟩
  refine ⟨?_, ?_⟩
  · intro tokens b rest h
    rcases hrun tokens with hg | ⟨t, tail, a, rfl, hf, hg⟩
    · rw [hg] at h
      exact hnone.reads tokens b rest h
    · rw [hg] at h
      obtain ⟨us, rfl, hN⟩ := (hsome t a hf).reads tail b rest h
      exact ⟨t :: us, rfl, hN⟩
  · intro tokens failure h hfault
    rcases hrun tokens with hg | ⟨t, tail, a, rfl, hf, hg⟩
    · rw [hg] at h
      exact hnone.fails tokens failure h hfault
    · rw [hg] at h
      obtain ⟨us, more, b, hus, hN⟩ := (hsome t a hf).fails tail failure h hfault
      exact ⟨t :: us, more, b, by rw [hus]; rfl, hN⟩

theorem follows_kind?_bind {k : TokenKind} {g : Bool → Rule β} (hnone : Follows N (g false))
    (hsome : ∀ t, t.kind = k → Follows (fun us => N (t :: us)) (g true)) :
    Follows N (kind? k >>= g) := by
  unfold kind?
  rw [isSome_bind]
  apply follows_accept?_bind hnone
  intro t a ht
  exact hsome t (kind_of_lexemeOf? ht).1

theorem follows_keyword?_bind {k : Keyword} {g : Bool → Rule β} (hnone : Follows N (g false))
    (hsome : ∀ t, t.keyword? = some k → Follows (fun us => N (t :: us)) (g true)) :
    Follows N (keyword? k >>= g) := by
  unfold keyword?
  rw [isSome_bind]
  apply follows_accept?_bind hnone
  intro t a ht
  exact hsome t (keyword?_of_isKeyword? ht)

/-- A token that is not accepted is not read. -/
theorem require_error_rest {f : Token → Option α} {what : Expectation} {tokens : List Token}
    {failure : Failure} (h : require f what tokens = .error failure) : failure.rest = tokens := by
  cases tokens with
  | nil =>
    simp only [require_nil, Except.error.injEq] at h
    rw [← h]
  | cons token rest =>
    cases hf : f token with
    | some a => simp [require, hf] at h
    | none =>
      simp only [require, hf, Except.error.injEq] at h
      rw [← h]

theorem follows_require_bind {f : Token → Option α} {what : Expectation} {g : α → Rule β}
    (hrest : ∃ us b, N us b)
    (hg : ∀ t a, f t = some a → Follows (fun us => N (t :: us)) (g a)) :
    Follows N (require f what >>= g) := by
  refine ⟨?_, ?_⟩
  · intro tokens b rest h
    obtain ⟨a, middle, hread, hnext⟩ := bind_eq_ok.mp h
    obtain ⟨t, rfl, hf⟩ := require_eq_ok.mp hread
    obtain ⟨us, rfl, hN⟩ := (hg t a hf).reads middle b rest hnext
    exact ⟨t :: us, rfl, hN⟩
  · intro tokens failure h hfault
    rcases bind_eq_error.mp h with h | ⟨a, middle, hread, hfail⟩
    · obtain ⟨us, b, hN⟩ := hrest
      exact ⟨[], us, b, (require_error_rest h).symm, hN⟩
    · obtain ⟨t, rfl, hf⟩ := require_eq_ok.mp hread
      obtain ⟨us, more, b, hus, hN⟩ := (hg t a hf).fails middle failure hfail hfault
      exact ⟨t :: us, more, b, by rw [hus]; rfl, hN⟩

theorem follows_kind_bind {k : TokenKind} {g : String → Rule β} (hrest : ∃ us b, N us b)
    (hg : ∀ t, t.kind = k → Follows (fun us => N (t :: us)) (g t.lexeme)) :
    Follows N (kind k >>= g) := by
  apply follows_require_bind hrest
  intro t a ht
  obtain ⟨hk, rfl⟩ := kind_of_lexemeOf? ht
  exact hg t hk

theorem follows_keyword_bind {k : Keyword} {g : Unit → Rule β} (hrest : ∃ us b, N us b)
    (hg : ∀ t, t.keyword? = some k → Follows (fun us => N (t :: us)) (g ())) :
    Follows N (keyword k >>= g) := by
  apply follows_require_bind hrest
  intro t a ht
  exact hg t (keyword?_of_isKeyword? ht)

end Tokens

/-! ## Items with commas between them -/

/-- Items of the language `I` follow a language of lists that has the lists of one item and can be
extended by a comma and an item.  The statement is about what is read behind some items. -/
theorem follows_moreItems {I : List Token → α → Prop} {L : List Token → List α → Prop}
    {item : Rule α} (h : Follows I item)
    (hmore : ∀ ts as comma us a, L ts as → comma.kind = .comma → I us a →
      L (ts ++ comma :: us) (as ++ [a]))
    (budget : List Token) {ts : List Token} {read : List α} (hread : L ts read.reverse) :
    Follows (fun us as => L (ts ++ us) as) (moreItems item budget read) := by
  induction budget generalizing ts read with
  | nil => exact follows_pure (by rwa [List.append_nil])
  | cons _ budget ih =>
    unfold moreItems
    apply follows_kind?_bind
    · exact follows_pure (by rwa [List.append_nil])
    · intro comma hcomma
      have hlonger : ∀ us a, I us a → L (ts ++ comma :: us) (a :: read).reverse := by
        intro us a ha
        rw [List.reverse_cons]
        exact hmore ts read.reverse comma us a hread hcomma ha
      apply h.bind
      · intro us a ha
        exact ⟨[], (a :: read).reverse, by simpa using hlonger us a ha⟩
      · intro us a ha
        refine (ih (hlonger us a ha)).mono ?_
        intro vs as hL
        simpa using hL

theorem follows_commaSeparated {I : List Token → α → Prop} {L : List Token → List α → Prop}
    {item : Rule α} (h : Follows I item) (hone : ∀ ts a, I ts a → L ts [a])
    (hmore : ∀ ts as comma us a, L ts as → comma.kind = .comma → I us a →
      L (ts ++ comma :: us) (as ++ [a])) :
    Follows L (commaSeparated item) := by
  apply h.bind
  · intro ts a ha
    exact ⟨[], [a], by simpa using hone ts a ha⟩
  · intro ts a ha
    have hlater : ∀ budget, Follows (fun us as => L (ts ++ us) as) (moreItems item budget [a]) :=
      fun budget => follows_moreItems h hmore budget (hone ts a ha)
    refine ⟨?_, ?_⟩
    · intro tokens as rest hr
      exact (hlater tokens).reads tokens as rest hr
    · intro tokens failure hr
      exact (hlater tokens).fails tokens failure hr

/-! ## Rules that can always be completed -/

/-- The rule follows a language that is not empty. -/
structure Leads (L : List Token → α → Prop) (r : Rule α) : Prop extends Follows L r where
  starts : ∃ ts a, L ts a

theorem Leads.bind {L : List Token → α → Prop} {N : List Token → β → Prop} {r : Rule α}
    {f : α → Rule β} (hr : Leads L r)
    (hf : ∀ ts a, L ts a → Leads (fun us => N (ts ++ us)) (f a)) : Leads N (r >>= f) := by
  refine ⟨hr.toFollows.bind ?_ ?_, ?_⟩
  · intro ts a hL
    exact (hf ts a hL).starts
  · intro ts a hL
    exact (hf ts a hL).toFollows
  · obtain ⟨ts, a, hL⟩ := hr.starts
    obtain ⟨us, b, hN⟩ := (hf ts a hL).starts
    exact ⟨ts ++ us, b, hN⟩

theorem leads_pure {L : List Token → α → Prop} {a : α} (h : L [] a) : Leads L (pure a) :=
  ⟨follows_pure h, [], a, h⟩

/-- A token of the given kind. -/
def sampleOfKind (k : TokenKind) : Token :=
  ⟨k, "", ⟨"", 1, 1⟩⟩

/-- A token that stands for the given keyword. -/
def sampleOfKeyword (k : Keyword) : Token :=
  ⟨.keyword, k.spelling, ⟨"", 1, 1⟩⟩

theorem keyword?_sampleOfKeyword (k : Keyword) : (sampleOfKeyword k).keyword? = some k :=
  Keyword.ofWord?_spelling k

section Tokens

variable {N : List Token → β → Prop}

theorem leads_kind_bind {k : TokenKind} {g : String → Rule β}
    (hg : ∀ t, t.kind = k → Leads (fun us => N (t :: us)) (g t.lexeme)) :
    Leads N (kind k >>= g) := by
  obtain ⟨us, b, hN⟩ := (hg (sampleOfKind k) rfl).starts
  have hstart : ∃ us b, N us b := ⟨sampleOfKind k :: us, b, hN⟩
  exact ⟨follows_kind_bind hstart fun t ht => (hg t ht).toFollows, hstart⟩

theorem leads_kind?_bind {k : TokenKind} {g : Bool → Rule β} (hnone : Leads N (g false))
    (hsome : ∀ t, t.kind = k → Follows (fun us => N (t :: us)) (g true)) :
    Leads N (kind? k >>= g) :=
  ⟨follows_kind?_bind hnone.toFollows hsome, hnone.starts⟩

theorem leads_keyword?_bind {k : Keyword} {g : Bool → Rule β} (hnone : Leads N (g false))
    (hsome : ∀ t, t.keyword? = some k → Follows (fun us => N (t :: us)) (g true)) :
    Leads N (keyword? k >>= g) :=
  ⟨follows_keyword?_bind hnone.toFollows hsome, hnone.starts⟩

theorem leads_keyword_bind {k : Keyword} {g : Unit → Rule β}
    (hg : ∀ t, t.keyword? = some k → Leads (fun us => N (t :: us)) (g ())) :
    Leads N (keyword k >>= g) := by
  obtain ⟨us, b, hN⟩ := (hg _ (keyword?_sampleOfKeyword k)).starts
  have hstart : ∃ us b, N us b := ⟨sampleOfKeyword k :: us, b, hN⟩
  exact ⟨follows_keyword_bind hstart fun t ht => (hg t ht).toFollows, hstart⟩

end Tokens

end Rule

end SqlForest
